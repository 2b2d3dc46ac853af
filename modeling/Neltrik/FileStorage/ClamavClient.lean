import Neltrik.FileStorage.Persistence
import Neltrik.Lib.Framing
import Neltrik.Lib.Machine

/-! # The client of the ClamAV daemon

`ClamavClient.scanBuffer` as a machine over the events of its socket. The answers of `socket.write` are
given by the number of the call, so any answers are covered; so is any order of the events that a socket
can emit. A listener that is registered with `once` is called once by the next `drain`.

The stream that is sent is that of the protocol: `framing_exact`. -/

namespace Neltrik.FileStorage.ClamavClient

open Neltrik.Lib Neltrik.Lib.Framing Neltrik.Lib.Machine Neltrik.FileStorage.Persistence

/-- `INSTREAM_COMMAND`, the bytes of `zINSTREAM` and a zero. -/
def instreamCommand : Bytes := [122, 73, 78, 83, 84, 82, 69, 65, 77, 0]

/-- `CHUNK_SIZE`. -/
def chunkSize : ℕ := 64 * 1024

/-- `writeUInt32BE` into four bytes. -/
def uint32 (n : ℕ) : Bytes := bigEndian 4 n

variable {ε : Type}

/-- The socket and the promise of a scan. -/
structure State (ε : Type) where
  connected : Bool
  destroyed : Bool
  offset : ℕ
  /-- How often `writeNextChunk` waits for the next `drain`. -/
  drainListeners : ℕ
  /-- What has been written, one entry for each call of `socket.write`. -/
  writes : List Bytes
  chunks : List Bytes
  /-- How the promise was settled, if it was. -/
  settled : Option (Except ε Bytes)

/-- What the socket emits; `destroy` on a timeout makes it emit an error of its own later. -/
inductive Event (ε : Type) where
  | connect
  | drain
  | data (chunk : Bytes)
  | error (e : ε)
  | timeout
  | close

def Event.isDrain : Event ε → Bool
  | .drain => true
  | _ => false

theorem Event.isDrain_iff {e : Event ε} : e.isDrain = true ↔ e = .drain := by
  cases e <;> simp [Event.isDrain]

def start : State ε :=
  { connected := false, destroyed := false, offset := 0, drainListeners := 0, writes := [], chunks := [],
    settled := none }

section Client
variable (answers : ℕ → Bool) (buffer : Bytes)

/-- `socket.write`: whether more may be written, and the socket after it. -/
def write (s : State ε) (data : Bytes) : Bool × State ε :=
  (answers s.writes.length, { s with writes := s.writes ++ [data] })

/-- Where the chunk ends that begins at the offset. -/
def chunkEnd (offset : ℕ) : ℕ := min (offset + chunkSize) buffer.length

/-- `buffer.subarray(offset, end)`. -/
def chunkAt (offset : ℕ) : Bytes := (buffer.take (chunkEnd buffer offset)).drop offset

theorem lt_chunkEnd {offset : ℕ} (h : offset < buffer.length) : offset < chunkEnd buffer offset := by
  unfold chunkEnd chunkSize
  omega

/-- `writeNextChunk`, one turn of its loop after the other. -/
def writeNextChunk (s : State ε) : State ε :=
  if s.offset < buffer.length then
    let header := write answers s (uint32 (chunkAt buffer s.offset).length)
    let chunk := write answers header.2 (chunkAt buffer s.offset)
    if !header.1 || !chunk.1 then
      { chunk.2 with offset := chunkEnd buffer s.offset, drainListeners := chunk.2.drainListeners + 1 }
    else writeNextChunk { chunk.2 with offset := chunkEnd buffer s.offset }
  else (write answers s (uint32 0)).2
termination_by buffer.length - s.offset
decreasing_by
  have := lt_chunkEnd buffer ‹s.offset < buffer.length›
  show buffer.length - chunkEnd buffer s.offset < buffer.length - s.offset
  omega

/-- The promise is settled once. -/
def settle (s : State ε) (outcome : Except ε Bytes) : State ε :=
  if s.settled.isSome then s else { s with settled := some outcome }

/-- What the listeners do; a destroyed socket emits only its error and that it is closed. -/
def step (s : State ε) : Event ε → Option (State ε)
  | .connect =>
    if s.connected || s.destroyed then none
    else some (writeNextChunk answers buffer
      { (write answers s instreamCommand).2 with connected := true, offset := 0 })
  | .drain =>
    if s.destroyed then none
    else some ((writeNextChunk answers buffer)^[s.drainListeners] { s with drainListeners := 0 })
  | .data chunk => if s.destroyed then none else some { s with chunks := s.chunks ++ [chunk] }
  | .error e => some (settle s (.error e))
  | .timeout => some { s with destroyed := true }
  | .close => some { settle s (.ok s.chunks.flatten) with destroyed := true }

end Client

/-! ## The stream -/

/-- The writes of a whole scan. -/
def instream (buffer : Bytes) : List Bytes :=
  instreamCommand :: (chunks chunkSize buffer).flatMap (fun chunk => [uint32 chunk.length, chunk]) ++
    [uint32 0]

/-- The writes that are left when the buffer is sent up to the offset. -/
def left (buffer : Bytes) (offset : ℕ) : List Bytes :=
  (chunks chunkSize (buffer.drop offset)).flatMap (fun chunk => [uint32 chunk.length, chunk]) ++ [uint32 0]

/-- The chunks that are left. -/
def turns (buffer : Bytes) (offset : ℕ) : ℕ := (chunks chunkSize (buffer.drop offset)).length

section Chunks
variable {buffer : Bytes} {offset : ℕ}

theorem chunkAt_eq (buffer : Bytes) (offset : ℕ) : chunkAt buffer offset = (buffer.drop offset).take chunkSize := by
  unfold chunkAt chunkEnd
  rw [List.drop_take, List.take_eq_take_iff, List.length_drop]
  omega

theorem drop_chunkEnd (buffer : Bytes) (offset : ℕ) :
    buffer.drop (chunkEnd buffer offset) = (buffer.drop offset).drop chunkSize := by
  unfold chunkEnd
  rw [List.drop_drop]
  rcases Nat.le_total (offset + chunkSize) buffer.length with h | h
  · rw [Nat.min_eq_left h]
  · rw [Nat.min_eq_right h, List.drop_length, List.drop_of_length_le h]

theorem chunks_drop (h : offset < buffer.length) :
    chunks chunkSize (buffer.drop offset) =
      chunkAt buffer offset :: chunks chunkSize (buffer.drop (chunkEnd buffer offset)) := by
  have hne : buffer.drop offset ≠ [] := List.ne_nil_of_length_pos (by rw [List.length_drop]; omega)
  rw [chunks_eq_cons (by decide) hne, chunkAt_eq, drop_chunkEnd]

theorem left_of_lt (h : offset < buffer.length) :
    left buffer offset =
      uint32 (chunkAt buffer offset).length :: chunkAt buffer offset :: left buffer (chunkEnd buffer offset) := by
  unfold left
  rw [chunks_drop h]
  rfl

theorem left_of_le (h : buffer.length ≤ offset) : left buffer offset = [uint32 0] := by
  rw [left, List.drop_of_length_le h, chunks_nil]
  rfl

theorem turns_of_lt (h : offset < buffer.length) : turns buffer offset = turns buffer (chunkEnd buffer offset) + 1 := by
  unfold turns
  rw [chunks_drop h, List.length_cons]

end Chunks

/-! ## One call of the loop -/

/-- A call of the loop leaves the whole stream, or waits for a `drain` with fewer chunks left. -/
inductive Advanced (buffer : Bytes) (s s' : State ε) : Prop where
  | done (hl : s'.drainListeners = 0) (hw : s'.writes = s.writes ++ left buffer s.offset)
  | waits (hl : s'.drainListeners = 1)
      (hw : s'.writes ++ left buffer s'.offset = s.writes ++ left buffer s.offset)
      (ht : turns buffer s'.offset < turns buffer s.offset)

section Loop
variable (answers : ℕ → Bool) (buffer : Bytes)

theorem writeNextChunk_connected (s : State ε) : (writeNextChunk answers buffer s).connected = s.connected := by
  fun_induction writeNextChunk answers buffer s with
  | case1 => rfl
  | case2 _ _ _ _ _ ih => exact ih
  | case3 => rfl

/-- The writes of one turn are the front of what is left. -/
theorem turn_writes {buffer : Bytes} {s : State ε} (h : s.offset < buffer.length) :
    s.writes ++ [uint32 (chunkAt buffer s.offset).length] ++ [chunkAt buffer s.offset] ++
      left buffer (chunkEnd buffer s.offset) = s.writes ++ left buffer s.offset := by
  rw [left_of_lt h, List.append_assoc, List.append_assoc]
  rfl

theorem writeNextChunk_advanced (s : State ε) (hl : s.drainListeners = 0) :
    Advanced buffer s (writeNextChunk answers buffer s) := by
  fun_induction writeNextChunk answers buffer s with
  | case1 s h header chunk hfull =>
    refine .waits ?_ (turn_writes h) ?_
    · show s.drainListeners + 1 = 1
      rw [hl]
    · show turns buffer (chunkEnd buffer s.offset) < turns buffer s.offset
      rw [turns_of_lt h]
      exact Nat.lt_succ_self _
  | case2 s h header chunk hfree ih =>
    -- the rest is sent from the end of this chunk on
    rcases ih hl with ⟨hl', hw⟩ | ⟨hl', hw, ht⟩
    · exact .done hl' (hw.trans (turn_writes h))
    · refine .waits hl' (hw.trans (turn_writes h)) (ht.trans ?_)
      show turns buffer (chunkEnd buffer s.offset) < turns buffer s.offset
      rw [turns_of_lt h]
      exact Nat.lt_succ_self _
  | case3 s h =>
    refine .done hl ?_
    rw [left_of_le (Nat.le_of_not_lt h)]
    rfl

end Loop

/-! ## One event -/

/-- What has been written: nothing before the socket is connected; whole chunks while the loop waits; and
the whole stream when it does not. -/
structure Sent (buffer : Bytes) (s : State ε) : Prop where
  before : s.connected = false → s.writes = [] ∧ s.drainListeners = 0
  waiting : s.connected = true → s.drainListeners = 1 → s.writes ++ left buffer s.offset = instream buffer
  complete : s.connected = true → s.drainListeners = 0 → s.writes = instream buffer
  listeners : s.drainListeners ≤ 1

/-- How many times the loop may still have to wait. -/
def pending (buffer : Bytes) (s : State ε) : ℕ :=
  if s.drainListeners = 0 then 0 else turns buffer s.offset + 1

section Steps
variable {answers : ℕ → Bool} {buffer : Bytes} {s s' : State ε} {e : Event ε}

theorem sent_start : Sent buffer (start : State ε) where
  before _ := ⟨rfl, rfl⟩
  waiting h := absurd h Bool.false_ne_true
  complete h := absurd h Bool.false_ne_true
  listeners := Nat.zero_le 1

/-- The loop continues the stream. -/
theorem Advanced.sent (h : Advanced buffer s s') (hc : s'.connected = true)
    (hw : s.writes ++ left buffer s.offset = instream buffer) : Sent buffer s' := by
  have hbefore : s'.connected = false → s'.writes = [] ∧ s'.drainListeners = 0 :=
    fun h => absurd (hc.symm.trans h) (by decide)
  cases h with
  | done hl' hw' =>
    exact ⟨hbefore, fun _ h1 => absurd (hl'.symm.trans h1) Nat.zero_ne_one, fun _ _ => hw'.trans hw,
      hl'.trans_le (Nat.zero_le 1)⟩
  | waits hl' hw' _ =>
    exact ⟨hbefore, fun _ _ => hw'.trans hw, fun _ h0 => absurd (hl'.symm.trans h0) Nat.one_ne_zero, hl'.le⟩

/-- The loop has fewer chunks to wait for. -/
theorem Advanced.pending_le (h : Advanced buffer s s') : pending buffer s' ≤ turns buffer s.offset := by
  unfold pending
  cases h with
  | done hl _ =>
    rw [if_pos hl]
    exact Nat.zero_le _
  | waits hl _ ht =>
    rw [if_neg (by rw [hl]; exact Nat.one_ne_zero)]
    exact ht

theorem Sent.congr (h : Sent buffer s) (hc : s'.connected = s.connected) (ho : s'.offset = s.offset)
    (hl : s'.drainListeners = s.drainListeners) (hw : s'.writes = s.writes) : Sent buffer s' := by
  obtain ⟨hbefore, hwaiting, hcomplete, hlisteners⟩ := h
  rw [← hc, ← hl, ← hw] at *
  exact ⟨hbefore, ho ▸ hwaiting, hcomplete, hlisteners⟩

theorem step_connect (h : step answers buffer s .connect = some s') :
    s.connected = false ∧ s' = writeNextChunk answers buffer
      { (write answers s instreamCommand).2 with connected := true, offset := 0 } := by
  rw [step] at h
  split_ifs at h with hc
  rw [Bool.or_eq_true, not_or, Bool.not_eq_true] at hc
  exact ⟨hc.1, (Option.some.inj h).symm⟩

theorem step_drain (h : step answers buffer s .drain = some s') :
    s' = (writeNextChunk answers buffer)^[s.drainListeners] { s with drainListeners := 0 } := by
  rw [step] at h
  split_ifs at h
  exact (Option.some.inj h).symm

/-- The other events leave the stream to itself. -/
theorem step_other (hc : e ≠ .connect) (hd : e ≠ .drain) (h : step answers buffer s e = some s') :
    s'.connected = s.connected ∧ s'.offset = s.offset ∧ s'.drainListeners = s.drainListeners ∧
      s'.writes = s.writes := by
  have hsettle : ∀ outcome, (settle s outcome).connected = s.connected ∧ (settle s outcome).offset = s.offset ∧
      (settle s outcome).drainListeners = s.drainListeners ∧ (settle s outcome).writes = s.writes := by
    intro outcome
    unfold settle
    split_ifs <;> exact ⟨rfl, rfl, rfl, rfl⟩
  cases e with
  | connect => exact absurd rfl hc
  | drain => exact absurd rfl hd
  | data chunk =>
    rw [step] at h
    split_ifs at h
    cases h
    exact ⟨rfl, rfl, rfl, rfl⟩
  | error e =>
    cases h
    exact hsettle _
  | timeout =>
    cases h
    exact ⟨rfl, rfl, rfl, rfl⟩
  | close =>
    cases h
    exact hsettle _

/-- The first call of the loop. -/
theorem connect_advanced (hs : Sent buffer s) (h : step answers buffer s .connect = some s') :
    Sent buffer s' ∧ s'.connected = true ∧ pending buffer s' ≤ turns buffer 0 := by
  obtain ⟨hc, rfl⟩ := step_connect h
  obtain ⟨hw, hl⟩ := hs.before hc
  have hadv := writeNextChunk_advanced answers buffer
    { (write answers s instreamCommand).2 with connected := true, offset := 0 } hl
  refine ⟨hadv.sent (writeNextChunk_connected answers buffer _) ?_, writeNextChunk_connected answers buffer _, hadv.pending_le⟩
  show s.writes ++ [instreamCommand] ++ left buffer 0 = instream buffer
  rw [hw]
  rfl

/-- A `drain` lets the loop go on, if it waits. -/
theorem drain_advanced (hs : Sent buffer s) (hc : s.connected = true)
    (h : step answers buffer s .drain = some s') :
    Sent buffer s' ∧ s'.connected = true ∧ pending buffer s' ≤ pending buffer s - 1 := by
  rcases Nat.le_one_iff_eq_zero_or_eq_one.mp hs.listeners with hl | hl
  · rw [step_drain h, hl]
    refine ⟨hs.congr rfl rfl hl.symm rfl, hc, ?_⟩
    rw [Function.iterate_zero, id, pending, if_pos rfl]
    exact Nat.zero_le _
  · rw [step_drain h, hl, Function.iterate_one]
    have hadv := writeNextChunk_advanced answers buffer { s with drainListeners := 0 } rfl
    have hconn := (writeNextChunk_connected answers buffer
      { s with drainListeners := 0 }).trans hc
    have hpending : pending buffer s - 1 = turns buffer s.offset := by
      rw [pending, if_neg (by rw [hl]; exact Nat.one_ne_zero), Nat.add_sub_cancel]
    exact ⟨hadv.sent hconn (hs.waiting hc hl), hconn, hadv.pending_le.trans_eq hpending.symm⟩

/-- A `drain` before the socket is connected finds no listener. -/
theorem drain_before (hs : Sent buffer s) (hc : s.connected = false)
    (h : step answers buffer s .drain = some s') : Sent buffer s' := by
  obtain ⟨-, hl⟩ := hs.before hc
  rw [step_drain h, hl]
  exact hs.congr rfl rfl hl.symm rfl

/-- **One event keeps the stream.** -/
theorem step_sent (hs : Sent buffer s) (h : step answers buffer s e = some s') : Sent buffer s' := by
  by_cases hc : e = .connect
  · subst hc
    exact (connect_advanced hs h).1
  by_cases hd : e = .drain
  · subst hd
    cases hconn : s.connected with
    | true => exact (drain_advanced hs hconn h).1
    | false => exact drain_before hs hconn h
  · obtain ⟨hconn, ho, hl, hw⟩ := step_other hc hd h
    exact hs.congr hconn ho hl hw

/-- Each `drain` brings the end nearer, and no event takes it away. -/
theorem step_pending (hs : Sent buffer s) (hconn : s.connected = true) (h : step answers buffer s e = some s') :
    s'.connected = true ∧ pending buffer s' ≤ pending buffer s - (if e.isDrain then 1 else 0) := by
  have hc : e ≠ .connect := by
    rintro rfl
    exact absurd (hconn.symm.trans (step_connect h).1) (by decide)
  by_cases hd : e = .drain
  · subst hd
    exact (drain_advanced hs hconn h).2
  · obtain ⟨hconn', ho, hl, -⟩ := step_other hc hd h
    rw [if_neg (fun hdrain => hd (Event.isDrain_iff.mp hdrain)), pending, pending, ho, hl]
    exact ⟨hconn'.trans hconn, le_rfl⟩

end Steps

/-! ## Every run -/

section Runs
variable {answers : ℕ → Bool} {buffer : Bytes} {s s' : State ε} {es : List (Event ε)}

theorem run_sent (hr : run (step answers buffer) start es = some s) : Sent buffer s :=
  run_inv (fun _ _ _ => step_sent) sent_start hr

theorem run_pending (hs : Sent buffer s) (hconn : s.connected = true)
    (hr : run (step answers buffer) s es = some s') :
    s'.connected = true ∧ pending buffer s' ≤ pending buffer s - es.countP Event.isDrain := by
  induction es generalizing s with
  | nil =>
    cases hr
    exact ⟨hconn, le_rfl⟩
  | cons e es ih =>
    obtain ⟨s₁, h₁, hr₁⟩ := run_cons_eq_some.mp hr
    obtain ⟨hconn₁, hle⟩ := step_pending hs hconn h₁
    obtain ⟨hconn', hle'⟩ := ih (step_sent hs h₁) hconn₁ hr₁
    refine ⟨hconn', hle'.trans ?_⟩
    rw [List.countP_cons]
    omega

/-- What is written is the front of the stream. -/
theorem Sent.isPrefix (hs : Sent buffer s) : s.writes <+: instream buffer := by
  cases hconn : s.connected with
  | false =>
    rw [(hs.before hconn).1]
    exact List.nil_prefix
  | true =>
    rcases Nat.le_one_iff_eq_zero_or_eq_one.mp hs.listeners with hl | hl
    · exact (hs.complete hconn hl).symm ▸ List.prefix_refl _
    · exact ⟨_, hs.waiting hconn hl⟩

/-- With a `drain` for each chunk the stream is complete. -/
theorem complete_of_drains {pre post : List (Event ε)}
    (hr : run (step answers buffer) start (pre ++ .connect :: post) = some s)
    (hn : buffer.length ≤ chunkSize * post.countP Event.isDrain) : s.writes = instream buffer := by
  obtain ⟨s₁, hpre, hr₁⟩ := run_append_eq_some.mp hr
  obtain ⟨s₂, hconnect, hpost⟩ := run_cons_eq_some.mp hr₁
  obtain ⟨hs₂, hconn₂, hle₂⟩ := connect_advanced (run_sent hpre) hconnect
  obtain ⟨hconn, hle⟩ := run_pending hs₂ hconn₂ hpost
  have hturns : turns buffer 0 ≤ post.countP Event.isDrain := length_chunks_le (by decide) hn
  have hpending : pending buffer s = 0 := by omega
  have hl : s.drainListeners = 0 := by
    by_contra hl
    rw [pending, if_neg hl] at hpending
    exact Nat.succ_ne_zero _ hpending
  exact (run_sent hr).complete hconn hl

end Runs

/-! ## The protocol -/

/-- The writes are the command, the chunks of the buffer, each of 1 to 64 KiB and behind its length, and the
length of zero; a reader of the protocol finds the chunks, and so the buffer. -/
def IsInstream (buffer : Bytes) (writes : List Bytes) : Prop :=
  ∃ cs : List Bytes, (∀ chunk ∈ cs, 1 ≤ chunk.length ∧ chunk.length ≤ 64 * 1024) ∧ cs.flatten = buffer ∧
    writes = instreamCommand :: cs.flatMap (fun chunk => [uint32 chunk.length, chunk]) ++ [uint32 0] ∧
    decode 4 writes.tail.flatten = some (cs, [])

theorem flatten_frames (cs : List Bytes) :
    (cs.flatMap (fun chunk => [uint32 chunk.length, chunk]) ++ [uint32 0]).flatten = stream 4 cs := by
  have hframes : (cs.flatMap (fun chunk => [uint32 chunk.length, chunk])).flatten = cs.flatMap (frame 4) := by
    induction cs with
    | nil => rfl
    | cons chunk cs ih =>
      rw [List.flatMap_cons, List.flatten_append, ih, List.flatMap_cons, frame, List.flatten_cons,
        List.flatten_singleton]
      rfl
  rw [List.flatten_append, hframes, List.flatten_singleton]
  rfl

theorem isInstream_instream (buffer : Bytes) : IsInstream buffer (instream buffer) := by
  refine ⟨chunks chunkSize buffer, fun chunk hm => length_of_mem_chunks (by decide) hm,
    flatten_chunks chunkSize buffer, rfl, ?_⟩
  have hfits : ∀ chunk ∈ chunks chunkSize buffer, Fits 4 chunk :=
    fun chunk hm => fits_of_mem_chunks (by decide) (by decide) hm
  show decode 4 (left buffer 0).flatten = _
  rw [left, List.drop_zero, flatten_frames, ← List.append_nil (stream 4 _), decode_stream hfits]

/-- **The framing is exact, whatever the socket answers.** There is one stream of the protocol for the buffer
such that at every moment of every scan the writes are its front, and the whole of it as soon as the loop
no longer waits; and the loop stops waiting when there has been a `drain` for every chunk. -/
theorem framing_exact (buffer : Bytes) :
    ∃ whole, IsInstream buffer whole ∧
      ∀ (answers : ℕ → Bool) (es : List (Event ε)) (s : State ε), run (step answers buffer) start es = some s →
        s.writes <+: whole ∧ (s.connected = true → s.drainListeners = 0 → s.writes = whole) ∧
          ∀ pre post, es = pre ++ .connect :: post → buffer.length ≤ 64 * 1024 * post.countP Event.isDrain →
            s.writes = whole := by
  refine ⟨instream buffer, isInstream_instream buffer, fun answers es s hr => ?_⟩
  refine ⟨(run_sent hr).isPrefix, (run_sent hr).complete, ?_⟩
  rintro pre post rfl hn
  exact complete_of_drains hr hn

/-- A buffer of one byte and a socket that is full after it: the length of zero waits for the `drain`. -/
theorem framing_exact_of_full :
    ∃ s₁ s₂ : State String, run (step (fun _ => false) [7]) start [.connect] = some s₁ ∧
      step (fun _ => false) [7] s₁ .drain = some s₂ ∧ s₁.writes = [instreamCommand, [0, 0, 0, 1], [7]] ∧
      IsInstream [7] s₂.writes := by
  obtain ⟨whole, hwhole, hruns⟩ := framing_exact (ε := String) [7]
  have hconnect : step (fun _ => false) [7] start (.connect : Event String) = some
      { connected := true, destroyed := false, offset := 1, drainListeners := 1,
        writes := [instreamCommand, [0, 0, 0, 1], [7]], chunks := [], settled := none } := by
    rw [step, writeNextChunk]
    rfl
  refine ⟨_, _, hconnect, rfl, rfl, ?_⟩
  have hruns' := (hruns (fun _ => false) [.connect, .drain] _ (run_cons_of_step hconnect [.drain])).2.2
  exact (hruns' [] [.drain] rfl (by decide)) ▸ hwhole

end Neltrik.FileStorage.ClamavClient
