import Mathlib.Data.List.Basic
import Mathlib.Data.Nat.Notation
import Mathlib.Tactic.Ring

/-! # Framing by lengths

A text of bytes is sent as chunks, each behind its length in `w` bytes, big end first, and ends with a
length of zero. `decode` is a reader of such a stream, and `decode_stream` says that it finds the chunks
that were sent and what stands behind the stream. `chunks` cuts a list into pieces of a given size. -/

namespace Neltrik.Lib.Framing

/-! ### Numbers in bytes -/

/-- The last `w` digits of the number to the base 256, the first one in front. -/
def bigEndian : ℕ → ℕ → List UInt8
  | 0, _ => []
  | w + 1, n => UInt8.ofNat (n / 256 ^ w) :: bigEndian w n

/-- The number of the bytes. -/
def value : List UInt8 → ℕ
  | [] => 0
  | b :: bs => b.toNat * 256 ^ bs.length + value bs

@[simp] theorem length_bigEndian (w n : ℕ) : (bigEndian w n).length = w := by
  induction w with
  | zero => rfl
  | succ w ih => rw [bigEndian, List.length_cons, ih]

theorem value_bigEndian (w n : ℕ) : value (bigEndian w n) = n % 256 ^ w := by
  induction w with
  | zero => rw [pow_zero, Nat.mod_one]; rfl
  | succ w ih =>
    have hdigit : (UInt8.ofNat (n / 256 ^ w)).toNat = n / 256 ^ w % 256 := UInt8.toNat_ofNat'
    rw [bigEndian, value, ih, length_bigEndian, hdigit, Nat.mod_pow_succ]
    ring

/-! ### Streams of chunks -/

/-- The chunk behind its length. -/
def frame (w : ℕ) (chunk : List UInt8) : List UInt8 := bigEndian w chunk.length ++ chunk

/-- The frames of the chunks, and the empty one. -/
def stream (w : ℕ) (chunks : List (List UInt8)) : List UInt8 := chunks.flatMap (frame w) ++ bigEndian w 0

/-- The chunks up to the length of zero, and the bytes behind it. -/
def decode (w : ℕ) (bytes : List UInt8) : Option (List (List UInt8) × List UInt8) :=
  if bytes.length < w then none
  else if value (bytes.take w) = 0 then some ([], bytes.drop w)
  else if (bytes.drop w).length < value (bytes.take w) then none
  else (decode w ((bytes.drop w).drop (value (bytes.take w)))).map fun (chunks, last) =>
    ((bytes.drop w).take (value (bytes.take w)) :: chunks, last)
termination_by bytes.length
decreasing_by
  simp only [List.length_drop] at *
  omega

/-- The chunk fits its length, and is not taken for the end. -/
def Fits (w : ℕ) (chunk : List UInt8) : Prop := chunk ≠ [] ∧ chunk.length < 256 ^ w

theorem decode_nil (w : ℕ) (rest : List UInt8) : decode w (stream w [] ++ rest) = some ([], rest) := by
  have hzero : value ((stream w [] ++ rest).take w) = 0 := by
    rw [stream, List.flatMap_nil, List.nil_append, List.take_left' (length_bigEndian w 0), value_bigEndian,
      Nat.zero_mod]
  have hlen : ¬ (stream w [] ++ rest).length < w := by
    rw [List.length_append, stream, List.flatMap_nil, List.nil_append, length_bigEndian]
    omega
  rw [decode, if_neg hlen, if_pos hzero, stream, List.flatMap_nil, List.nil_append, List.drop_left' (length_bigEndian w 0)]

theorem decode_frame {w : ℕ} {chunk : List UInt8} (h : Fits w chunk) (rest : List UInt8) :
    decode w (frame w chunk ++ rest) =
      (decode w rest).map fun (chunks, last) => (chunk :: chunks, last) := by
  have happend : frame w chunk ++ rest = bigEndian w chunk.length ++ (chunk ++ rest) :=
    List.append_assoc _ _ _
  have hvalue : value ((frame w chunk ++ rest).take w) = chunk.length := by
    rw [happend, List.take_left' (length_bigEndian w _), value_bigEndian, Nat.mod_eq_of_lt h.2]
  have hdrop : (frame w chunk ++ rest).drop w = chunk ++ rest := by
    rw [happend, List.drop_left' (length_bigEndian w _)]
  have hlen : ¬ (frame w chunk ++ rest).length < w := by
    rw [happend, List.length_append, length_bigEndian]
    omega
  have hne : chunk.length ≠ 0 := fun h0 => h.1 (List.length_eq_zero_iff.mp h0)
  have henough : ¬ (chunk ++ rest).length < chunk.length := by
    rw [List.length_append]
    omega
  rw [decode, if_neg hlen, hvalue, hdrop, if_neg hne, if_neg henough, List.drop_left, List.take_left]

/-- **A reader finds what was sent.** -/
theorem decode_stream {w : ℕ} {chunks : List (List UInt8)} (h : ∀ chunk ∈ chunks, Fits w chunk)
    (rest : List UInt8) : decode w (stream w chunks ++ rest) = some (chunks, rest) := by
  induction chunks with
  | nil => exact decode_nil w rest
  | cons chunk chunks ih =>
    obtain ⟨hchunk, hchunks⟩ := List.forall_mem_cons.mp h
    have happend : stream w (chunk :: chunks) ++ rest = frame w chunk ++ (stream w chunks ++ rest) := by
      simp only [stream, List.flatMap_cons, List.append_assoc]
    rw [happend, decode_frame hchunk, ih hchunks]
    rfl

/-! ### Cutting into chunks -/

variable {α : Type*}

/-- Pieces of `c` elements, the last one of what is left. -/
def chunks (c : ℕ) : List α → List (List α)
  | [] => []
  | a :: as => (a :: as.take (c - 1)) :: chunks c (as.drop (c - 1))
termination_by as => as.length
decreasing_by
  rw [List.length_drop, List.length_cons]
  omega

@[simp] theorem chunks_nil (c : ℕ) : chunks c ([] : List α) = [] := by rw [chunks]

theorem chunks_eq_cons {c : ℕ} (hc : 0 < c) {as : List α} (h : as ≠ []) :
    chunks c as = as.take c :: chunks c (as.drop c) := by
  obtain ⟨a, as, rfl⟩ := List.exists_cons_of_ne_nil h
  obtain ⟨i, rfl⟩ : ∃ i, c = i + 1 := ⟨c - 1, by omega⟩
  rw [chunks, List.take_succ_cons, List.drop_succ_cons, Nat.add_sub_cancel]

/-- **The chunks are the list.** -/
theorem flatten_chunks (c : ℕ) (as : List α) : (chunks c as).flatten = as := by
  induction as using chunks.induct c with
  | case1 => rw [chunks_nil, List.flatten_nil]
  | case2 a as ih => rw [chunks, List.flatten_cons, ih, List.cons_append, List.take_append_drop]

/-- No chunk is empty, and none is too long. -/
theorem length_of_mem_chunks {c : ℕ} (hc : 0 < c) {as chunk : List α} (h : chunk ∈ chunks c as) :
    0 < chunk.length ∧ chunk.length ≤ c := by
  induction as using chunks.induct c with
  | case1 =>
    rw [chunks_nil] at h
    exact absurd h List.not_mem_nil
  | case2 a as ih =>
    rw [chunks] at h
    rcases List.mem_cons.mp h with rfl | h
    · rw [List.length_cons, List.length_take]
      omega
    · exact ih h

theorem length_chunks_le {c n : ℕ} (hc : 0 < c) {as : List α} (h : as.length ≤ c * n) :
    (chunks c as).length ≤ n := by
  induction as using chunks.induct c generalizing n with
  | case1 =>
    rw [chunks_nil]
    exact Nat.zero_le n
  | case2 a as ih =>
    rw [List.length_cons] at h
    obtain ⟨i, rfl⟩ : ∃ i, n = i + 1 := by
      rcases Nat.eq_zero_or_pos n with rfl | hn
      · exact absurd h (Nat.not_succ_le_zero _)
      · exact ⟨n - 1, by omega⟩
    rw [chunks, List.length_cons]
    refine Nat.succ_le_succ (ih ?_)
    rw [List.length_drop]
    rw [Nat.mul_succ] at h
    omega

theorem fits_of_mem_chunks {w c : ℕ} (hc : 0 < c) (hw : c < 256 ^ w) {bytes chunk : List UInt8}
    (h : chunk ∈ chunks c bytes) : Fits w chunk := by
  obtain ⟨hpos, hle⟩ := length_of_mem_chunks hc h
  exact ⟨List.length_pos_iff.mp hpos, hle.trans_lt hw⟩

end Neltrik.Lib.Framing
