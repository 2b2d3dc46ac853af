import Mathlib.Data.List.Infix
import Neltrik.FileStorage.Domain

/-! # The adapter of the ClamAV daemon

`ClamavAntivirusAdapter.scan` for any reply of the daemon and any error of the client. The regular
expression that finds the name of the virus is a function that tries its matches in their order.

The factories of `AntivirusScan` refuse a blank text, and the adapter does not look at the texts that it
hands to them. So a name of white space makes an infection an error, and a blank message makes an error an
exception: `fails_closed_iff`. -/

namespace Neltrik.FileStorage.ClamavAntivirus

open Neltrik.Shared Neltrik.FileStorage.Domain

/-! ## The regular expression -/

/-- What `.` does not match. -/
def isLineTerminator (c : Char) : Bool := c ∈ ['\n', '\r', '\u2028', '\u2029']

/-- The word `stream:`. -/
def stream : List Char := ['s', 't', 'r', 'e', 'a', 'm', ':']

/-- The word `FOUND`. -/
def foundWord : List Char := ['F', 'O', 'U', 'N', 'D']

/-- `\s*FOUND` matches here. -/
def found (cs : List Char) : Bool := foundWord.isPrefixOf (cs.dropWhile isSpace)

/-- `(.+?)\s*FOUND`: the fewest letters. -/
def name : List Char → Option (List Char)
  | [] => none
  | c :: cs =>
    if isLineTerminator c then none
    else if found cs then some [c]
    else (name cs).map (c :: ·)

/-- `\s*(.+?)\s*FOUND`: the most white space, and less of it as long as there is no match. -/
def afterSpace : List Char → Option (List Char)
  | [] => none
  | c :: cs => if isSpace c then (afterSpace cs).or (name (c :: cs)) else name (c :: cs)

/-- `match(/stream:\s*(.+?)\s*FOUND/)?.[1]`: the first `stream:` with a match behind it. -/
def virusName : List Char → Option (List Char)
  | [] => none
  | c :: cs => (((c :: cs).dropPrefix? stream).bind afterSpace).or (virusName cs)

/-! ## The adapter -/

/-- What the promise of the client is rejected with: an `Error` with its message, or another value. -/
inductive Rejection where
  | error (message : String)
  | other

/-- The name of the engine. -/
def engine : String := "clamav"

/-- `String.prototype.includes`. -/
def includes (s word : List Char) : Bool := decide (word <:+: s)

/-- `ClamavAntivirusAdapter.parseReply`. -/
def parseReply (reply : String) (now : ℕ) : Except FileError AntivirusScan :=
  let trimmed := trim reply
  if includes trimmed.toList foundWord then
    AntivirusScan.create .infected engine
      (((virusName trimmed.toList).map String.ofList).getD "unknown") now
  else if includes trimmed.toList ['E', 'R', 'R', 'O', 'R'] then
    AntivirusScan.create .error engine trimmed now
  else if includes trimmed.toList ['O', 'K'] then AntivirusScan.create .clean engine none now
  else AntivirusScan.create .error engine ("unexpected reply: " ++ trimmed) now

/-- The text of what was thrown. -/
def describeError : Rejection → String
  | .error message => message
  | .other => "unknown error"

/-- `InvalidAntivirusScanError`, which is all that `parseReply` throws. -/
def invalidAntivirusScan : Rejection := .error "Antivirus scan is invalid"

/-- What the client did is given by its outcome. -/
def scan (outcome : Except Rejection String) (now : ℕ) : Except FileError AntivirusScan :=
  match outcome.bind fun reply => (parseReply reply now).mapError fun _ => invalidAntivirusScan with
  | .ok scan => .ok scan
  | .error error => AntivirusScan.create .error engine (describeError error) now

/-! ## What the expression finds -/

/-- White space only. -/
def Blank (cs : List Char) : Prop := ∀ c ∈ cs, isSpace c = true

/-- No line ends in it. -/
def OneLine (cs : List Char) : Prop := ∀ c ∈ cs, isLineTerminator c = false

theorem found_iff {cs : List Char} : found cs = true ↔ ∃ sp rest, cs = sp ++ foundWord ++ rest ∧ Blank sp := by
  unfold found
  rw [List.isPrefixOf_iff_prefix]
  constructor
  · rintro ⟨rest, hrest⟩
    refine ⟨cs.takeWhile isSpace, rest, ?_, fun c hc => List.mem_takeWhile_imp hc⟩
    rw [List.append_assoc, hrest, List.takeWhile_append_dropWhile]
  · rintro ⟨sp, rest, rfl, hsp⟩
    rw [List.append_assoc, List.dropWhile_append_of_pos hsp]
    exact ⟨rest, rfl⟩

theorem found_append {w x : List Char} (hw : Blank w) : found (w ++ x) = found x := by
  unfold found
  rw [List.dropWhile_append_of_pos hw]

theorem name_isSome_iff {cs : List Char} :
    (name cs).isSome = true ↔ ∃ a rest, cs = a ++ rest ∧ a ≠ [] ∧ OneLine a ∧ found rest = true := by
  induction cs with
  | nil =>
    refine ⟨fun h => absurd h (by decide), ?_⟩
    rintro ⟨a, rest, heq, ha, -⟩
    exact absurd (List.append_eq_nil_iff.mp heq.symm).1 ha
  | cons c cs ih =>
    rw [name]
    by_cases hc : isLineTerminator c = true
    · rw [if_pos hc]
      refine ⟨fun h => absurd h (by decide), ?_⟩
      rintro ⟨a, rest, heq, ha, hline, -⟩
      obtain ⟨c', a, rfl⟩ := List.exists_cons_of_ne_nil ha
      obtain ⟨rfl, -⟩ := List.cons.inj heq
      exact absurd (hline c List.mem_cons_self) (by rw [hc]; decide)
    rw [if_neg hc]
    have hc' : isLineTerminator c = false := Bool.eq_false_iff.mpr hc
    by_cases hf : found cs = true
    · rw [if_pos hf]
      refine ⟨fun _ => ⟨[c], cs, rfl, List.cons_ne_nil _ _, ?_, hf⟩, fun _ => rfl⟩
      intro d hd
      rw [List.mem_singleton.mp hd]
      exact hc'
    rw [if_neg hf, Option.isSome_map, ih]
    constructor
    · rintro ⟨a, rest, rfl, -, hline, hrest⟩
      exact ⟨c :: a, rest, rfl, List.cons_ne_nil _ _, List.forall_mem_cons.mpr ⟨hc', hline⟩, hrest⟩
    · rintro ⟨a, rest, heq, ha, hline, hrest⟩
      obtain ⟨c', a, rfl⟩ := List.exists_cons_of_ne_nil ha
      obtain ⟨rfl, rfl⟩ := List.cons.inj heq
      refine ⟨a, rest, rfl, ?_, (List.forall_mem_cons.mp hline).2, hrest⟩
      rintro rfl
      exact hf hrest

/-- The name begins where it is looked for. -/
theorem head?_of_name {cs v : List Char} (h : name cs = some v) : ∃ c, cs.head? = some c ∧ c ∈ v := by
  cases cs with
  | nil => cases h
  | cons c cs =>
    refine ⟨c, rfl, ?_⟩
    rw [name] at h
    split_ifs at h
    · cases h
      exact List.mem_singleton_self c
    · obtain ⟨v', -, rfl⟩ := Option.map_eq_some_iff.mp h
      exact List.mem_cons_self

theorem afterSpace_of_head {x : List Char} (hx : ∀ c ∈ x.head?, isSpace c = false) : afterSpace x = name x := by
  cases x with
  | nil => rfl
  | cons c x => rw [afterSpace, if_neg (by rw [hx c rfl]; exact Bool.false_ne_true)]

/-- Where no name begins and no `FOUND` stands, none begins in the white space before. -/
theorem name_append {w x : List Char} (hw : Blank w) (hf : ¬ found x = true) (hx : name x = none) :
    name (w ++ x) = none := by
  induction w with
  | nil => exact hx
  | cons c w ih =>
    have hw' := (List.forall_mem_cons.mp hw).2
    rw [List.cons_append, name, found_append hw', if_neg hf, ih hw', Option.map_none, ite_self]

/-- Where there is no name behind the white space, its last letter that ends no line is taken for one. -/
theorem afterSpace_append {w x : List Char} (hw : Blank w) (hx : ∀ c ∈ x.head?, isSpace c = false) :
    afterSpace (w ++ x) = (name x).or
      (if found x then (w.filter (!isLineTerminator ·)).getLast?.map ([·]) else none) := by
  induction w with
  | nil =>
    have hnone : (if found x then (([] : List Char).filter (!isLineTerminator ·)).getLast?.map ([·]) else none) =
        (none : Option (List Char)) := ite_self none
    rw [List.nil_append, afterSpace_of_head hx, hnone, Option.or_none]
  | cons c w ih =>
    obtain ⟨hc, hw⟩ := List.forall_mem_cons.mp hw
    rw [List.cons_append, afterSpace, if_pos hc, ih hw]
    rcases hname : name x with _ | v
    swap
    · rfl
    rw [Option.none_or, Option.none_or, name, found_append hw]
    by_cases hf : found x = true
    · rw [if_pos hf, if_pos hf, if_pos hf]
      by_cases hlt : isLineTerminator c = true
      · rw [if_pos hlt, List.filter_cons_of_neg (by rw [hlt]; decide), Option.or_none]
      · rw [if_neg hlt, List.filter_cons_of_pos (by rw [Bool.eq_false_iff.mpr hlt]; decide), List.getLast?_cons]
        cases (w.filter (!isLineTerminator ·)).getLast? with
        | none => rfl
        | some d => rfl
    · rw [if_neg hf, if_neg hf, if_neg hf, Option.none_or]
      rw [name_append hw hf hname, Option.map_none, ite_self]

/-- A match of the expression behind `stream:`. -/
def Names (t : List Char) : Prop :=
  ∃ s a sp rest, t = s ++ a ++ sp ++ foundWord ++ rest ∧ Blank s ∧ a ≠ [] ∧ OneLine a ∧ Blank sp

theorem afterSpace_isSome_iff {t : List Char} :
    (afterSpace t).isSome = true ↔ ∃ s x, t = s ++ x ∧ Blank s ∧ (name x).isSome = true := by
  induction t with
  | nil =>
    refine ⟨fun h => absurd h (by decide), ?_⟩
    rintro ⟨s, x, heq, -, hx⟩
    rw [(List.append_eq_nil_iff.mp heq.symm).2] at hx
    exact absurd hx (by decide)
  | cons c t ih =>
    rw [afterSpace]
    by_cases hc : isSpace c = true
    · rw [if_pos hc, Option.isSome_or, Bool.or_eq_true, ih]
      constructor
      · rintro (⟨s, x, rfl, hs, hx⟩ | h)
        · exact ⟨c :: s, x, rfl, List.forall_mem_cons.mpr ⟨hc, hs⟩, hx⟩
        · exact ⟨[], c :: t, rfl, List.forall_mem_nil _, h⟩
      · rintro ⟨s, x, heq, hs, hx⟩
        cases s with
        | nil => exact .inr (heq ▸ hx)
        | cons c' s =>
          obtain ⟨rfl, rfl⟩ := List.cons.inj heq
          exact .inl ⟨s, x, rfl, (List.forall_mem_cons.mp hs).2, hx⟩
    · rw [if_neg hc]
      refine ⟨fun h => ⟨[], c :: t, rfl, List.forall_mem_nil _, h⟩, ?_⟩
      rintro ⟨s, x, heq, hs, hx⟩
      cases s with
      | nil => exact heq ▸ hx
      | cons c' s =>
        obtain ⟨rfl, -⟩ := List.cons.inj heq
        exact absurd (List.forall_mem_cons.mp hs).1 hc

theorem names_iff {t : List Char} : (afterSpace t).isSome = true ↔ Names t := by
  rw [afterSpace_isSome_iff]
  constructor
  · rintro ⟨s, x, rfl, hs, hx⟩
    obtain ⟨a, rest, rfl, ha, hline, hfound⟩ := name_isSome_iff.mp hx
    obtain ⟨sp, rest, rfl, hsp⟩ := found_iff.mp hfound
    exact ⟨s, a, sp, rest, by simp only [List.append_assoc], hs, ha, hline, hsp⟩
  · rintro ⟨s, a, sp, rest, rfl, hs, ha, hline, hsp⟩
    refine ⟨s, a ++ (sp ++ foundWord ++ rest), by simp only [List.append_assoc], hs, ?_⟩
    exact name_isSome_iff.mpr ⟨a, _, rfl, ha, hline, found_iff.mpr ⟨sp, rest, rfl, hsp⟩⟩

theorem afterSpace_eq_none_iff {t : List Char} : afterSpace t = none ↔ ¬ Names t := by
  rw [← names_iff, Bool.not_eq_true, Option.isSome_eq_false_iff, Option.isNone_iff_eq_none]

theorem head?_foundWord (rest : List Char) : ∀ c ∈ (foundWord ++ rest).head?, isSpace c = false := by
  rintro c ⟨⟩
  decide

/-- Only white space stands before a `FOUND`, some of it ends no line, and no name ends behind it. -/
def BlankName (t : List Char) : Prop :=
  ∃ w rest, t = w ++ foundWord ++ rest ∧ Blank w ∧ (∃ c ∈ w, isLineTerminator c = false) ∧
    ¬ Names (foundWord ++ rest)

/-- The white space in front of a text, and the text. -/
theorem exists_blank_append (t : List Char) :
    ∃ w x, t = w ++ x ∧ Blank w ∧ ∀ c ∈ x.head?, isSpace c = false := by
  refine ⟨t.takeWhile isSpace, t.dropWhile isSpace, List.takeWhile_append_dropWhile.symm,
    fun c hc => List.mem_takeWhile_imp hc, fun c hc => ?_⟩
  have hnot := List.head?_dropWhile_not isSpace t
  rw [Option.mem_def.mp hc] at hnot
  exact Bool.eq_false_iff.mpr (by simpa using hnot)

theorem afterSpace_blank_iff {t : List Char} : (∃ v, afterSpace t = some v ∧ Blank v) ↔ BlankName t := by
  constructor
  · rintro ⟨v, hv, hblank⟩
    obtain ⟨w, x, rfl, hw, hx⟩ := exists_blank_append t
    rw [afterSpace_append hw hx] at hv
    rcases hname : name x with _ | v'
    swap
    · -- such a name begins with a letter that is no white space
      rw [hname] at hv
      cases hv
      obtain ⟨c, hc, hmem⟩ := head?_of_name hname
      exact absurd (hblank c hmem) (by rw [hx c hc]; decide)
    rw [hname, Option.none_or] at hv
    split_ifs at hv with hf
    obtain ⟨c, hc, -⟩ := Option.map_eq_some_iff.mp hv
    obtain ⟨hcw, hlt⟩ := List.mem_filter.mp (List.mem_of_getLast? hc)
    obtain ⟨sp, rest, rfl, hsp⟩ := found_iff.mp hf
    obtain rfl : sp = [] := by
      rcases sp with _ | ⟨d, sp⟩
      · rfl
      · exact absurd (hsp d List.mem_cons_self) (by rw [hx d rfl]; decide)
    refine ⟨w, rest, by simp only [List.nil_append, List.append_assoc], hw, ⟨c, hcw, ?_⟩, ?_⟩
    · rwa [Bool.not_eq_true'] at hlt
    · rw [← afterSpace_eq_none_iff, afterSpace_of_head (head?_foundWord rest)]
      exact hname
  · rintro ⟨w, rest, rfl, hw, ⟨c, hc, hlt⟩, hnames⟩
    have hhead := head?_foundWord rest
    rw [← afterSpace_eq_none_iff, afterSpace_of_head hhead] at hnames
    have hfound : found (foundWord ++ rest) = true := found_iff.mpr ⟨[], rest, rfl, List.forall_mem_nil _⟩
    have hmem : c ∈ w.filter (!isLineTerminator ·) := List.mem_filter.mpr ⟨hc, by rw [hlt]; rfl⟩
    obtain ⟨d, hd⟩ := Option.ne_none_iff_exists'.mp (mt List.getLast?_eq_none_iff.mp (List.ne_nil_of_mem hmem))
    rw [List.append_assoc, afterSpace_append hw hhead, hnames, if_pos hfound, hd]
    refine ⟨[d], rfl, fun e he => ?_⟩
    rw [List.mem_singleton.mp he]
    exact hw d (List.mem_filter.mp (List.mem_of_getLast? hd)).1

theorem dropPrefix?_stream {cs t : List Char} : cs.dropPrefix? stream = some t ↔ cs = stream ++ t := by
  rw [List.dropPrefix?_eq_some_iff]
  simp only [beq_iff_eq, and_comm, exists_eq_left]

/-- The first `stream:` with a match behind it has the name behind it. -/
theorem virusName_eq_some_iff {cs v : List Char} :
    virusName cs = some v ↔ ∃ u t, cs = u ++ stream ++ t ∧ afterSpace t = some v ∧
      ∀ u' t', cs = u' ++ stream ++ t' → u'.length < u.length → ¬ Names t' := by
  induction cs with
  | nil =>
    refine ⟨fun h => (Option.some_ne_none v h.symm).elim, ?_⟩
    rintro ⟨u, t, heq, -⟩
    rw [List.append_assoc] at heq
    exact absurd (List.append_eq_nil_iff.mp (List.append_eq_nil_iff.mp heq.symm).2).1 (by decide)
  | cons c cs ih =>
    rw [virusName]
    rcases hv : ((c :: cs).dropPrefix? stream).bind afterSpace with _ | v'
    · have hnone : ∀ t, c :: cs = stream ++ t → afterSpace t = none := fun t ht => by
        rw [dropPrefix?_stream.mpr ht] at hv
        exact hv
      rw [Option.none_or, ih]
      constructor
      · rintro ⟨u, t, rfl, ht, hfirst⟩
        refine ⟨c :: u, t, rfl, ht, fun u' t' heq hlt => ?_⟩
        rcases u' with _ | ⟨c', u'⟩
        · exact afterSpace_eq_none_iff.mp (hnone t' heq)
        · exact hfirst u' t' (List.cons.inj heq).2 (Nat.lt_of_succ_lt_succ hlt)
      · rintro ⟨u, t, heq, ht, hfirst⟩
        rcases u with _ | ⟨c', u⟩
        · rw [hnone t heq] at ht
          cases ht
        · obtain ⟨rfl, rfl⟩ := List.cons.inj heq
          exact ⟨u, t, rfl, ht, fun u' t' heq' hlt => hfirst (c :: u') t' (congrArg _ heq') (Nat.succ_lt_succ hlt)⟩
    · obtain ⟨t, ht, hafter⟩ := Option.bind_eq_some_iff.mp hv
      have heq := dropPrefix?_stream.mp ht
      rw [Option.some_or]
      constructor
      · rintro ⟨⟩
        exact ⟨[], t, heq, hafter, fun u' t' _ hlt => absurd hlt (Nat.not_lt_zero _)⟩
      · rintro ⟨u, t', heq', hafter', hfirst⟩
        rcases u with _ | ⟨c', u⟩
        · obtain rfl := List.append_cancel_left (heq.symm.trans heq')
          exact hafter.symm.trans hafter'
        · have hnot := hfirst [] t heq (Nat.succ_pos _)
          rw [← afterSpace_eq_none_iff, hafter] at hnot
          cases hnot

/-- The first `stream:` that stands before a `FOUND` has only white space up to it. -/
def NameIsBlank (text : List Char) : Prop :=
  ∃ u t, text = u ++ stream ++ t ∧ BlankName t ∧
    ∀ u' t', text = u' ++ stream ++ t' → u'.length < u.length → ¬ Names t'

theorem virusName_blank_iff {text : List Char} :
    (∃ v, virusName text = some v ∧ Blank v) ↔ NameIsBlank text := by
  constructor
  · rintro ⟨v, hv, hblank⟩
    obtain ⟨u, t, heq, ht, hfirst⟩ := virusName_eq_some_iff.mp hv
    exact ⟨u, t, heq, afterSpace_blank_iff.mp ⟨v, ht, hblank⟩, hfirst⟩
  · rintro ⟨u, t, heq, hname, hfirst⟩
    obtain ⟨v, ht, hblank⟩ := afterSpace_blank_iff.mpr hname
    exact ⟨v, virusName_eq_some_iff.mpr ⟨u, t, heq, ht, hfirst⟩, hblank⟩

/-! ## The scan -/

/-- What the scan has to report: an infection when the reply has `FOUND`; otherwise an error, unless the reply
has `OK` and not `ERROR`. -/
def verdict : Except Rejection String → AntivirusScanStatus
  | .error _ => .error
  | .ok reply =>
    if includes reply.toList foundWord then .infected
    else if includes reply.toList ['E', 'R', 'R', 'O', 'R'] then .error
    else if includes reply.toList ['O', 'K'] then .clean
    else .error

/-- The adapter returns a scan with the verdict. -/
def FailsClosed (outcome : Except Rejection String) (now : ℕ) : Prop :=
  ∃ result, scan outcome now = .ok result ∧ result.status = verdict outcome

/-- The texts that the factories check are not blank. -/
def HasTexts : Except Rejection String → Prop
  | .ok reply => ¬ NameIsBlank (trim reply).toList
  | .error (.error message) => isBlank message = false
  | .error .other => True

theorem create_present (status : AntivirusScanStatus) {result : String} (h : isBlank result = false) (now : ℕ) :
    ∃ scan, AntivirusScan.create status engine (some result) now = .ok scan ∧ scan.status = status := by
  have hresult : resultForStatus status (some result) = true := by
    cases status with
    | clean => rfl
    | infected => exact congrArg not h
    | error => exact congrArg not h
  unfold AntivirusScan.create
  rw [dif_pos ⟨by decide, hresult⟩]
  exact ⟨_, rfl, rfl⟩

theorem create_blank {status : AntivirusScanStatus} {result : String} (hs : status ≠ .clean)
    (h : isBlank result = true) (now : ℕ) :
    AntivirusScan.create status engine (some result) now = .error .invalidAntivirusScan := by
  have hresult : resultForStatus status (some result) = false := by
    cases status with
    | clean => exact absurd rfl hs
    | infected => exact congrArg not h
    | error => exact congrArg not h
  unfold AntivirusScan.create
  rw [dif_neg fun hc => Bool.false_ne_true (hresult.symm.trans hc.2)]

theorem includes_trim (reply : String) (word : List Char) (hne : word ≠ []) (hword : word.any isSpace = false) :
    includes (trim reply).toList word = includes reply.toList word := by
  unfold includes
  rw [decide_eq_decide]
  exact infix_trim_iff hne fun c hc => Bool.eq_false_iff.mpr (List.any_eq_false.mp hword c hc)

/-- The name that is handed to the factory is blank. -/
theorem isBlank_name_iff {text : List Char} :
    isBlank (((virusName text).map String.ofList).getD "unknown") = true ↔ NameIsBlank text := by
  rw [← virusName_blank_iff]
  cases hv : virusName text with
  | none =>
    refine ⟨fun h => absurd h (by decide), ?_⟩
    rintro ⟨v, hv', -⟩
    cases hv'
  | some v =>
    rw [Option.map_some, Option.getD_some, isBlank, String.toList_ofList, List.all_eq_true]
    constructor
    · exact fun h => ⟨v, rfl, h⟩
    · rintro ⟨_, ⟨⟩, h⟩
      exact h

theorem scan_ok (reply : String) (now : ℕ) : scan (.ok reply) now =
    match (parseReply reply now).mapError fun _ => invalidAntivirusScan with
    | .ok scan => .ok scan
    | .error error => AntivirusScan.create .error engine (some (describeError error)) now := by
  simp only [scan, Except.bind]

theorem scan_of_parse {reply : String} {now : ℕ} {result : AntivirusScan} (h : parseReply reply now = .ok result) :
    scan (.ok reply) now = .ok result := by
  rw [scan_ok, h]
  rfl

/-- What `parseReply` throws is caught. -/
theorem scan_of_throw {reply : String} {now : ℕ} {e : FileError} (h : parseReply reply now = .error e) :
    scan (.ok reply) now = AntivirusScan.create .error engine (some "Antivirus scan is invalid") now := by
  rw [scan_ok, h]
  rfl

/-- A reply with a word in it is not blank. -/
theorem isBlank_of_includes {s : String} {c : Char} {word : List Char} (hc : isSpace c = false)
    (h : includes s.toList (c :: word) = true) : isBlank s = false :=
  isBlank_eq_false_iff.mpr ⟨c, (of_decide_eq_true h).subset List.mem_cons_self, hc⟩

theorem isBlank_unexpected (s : String) : isBlank ("unexpected reply: " ++ s) = false := by
  refine isBlank_eq_false_iff.mpr ⟨'u', ?_, by decide⟩
  rw [String.toList_append]
  exact List.mem_append_left _ (by decide)

/-- The words are looked for in the trimmed reply: none of them has a white space. -/
theorem verdict_trim (reply : String) : verdict (.ok reply) =
    if includes (trim reply).toList foundWord then .infected
    else if includes (trim reply).toList ['E', 'R', 'R', 'O', 'R'] then .error
    else if includes (trim reply).toList ['O', 'K'] then .clean
    else .error := by
  rw [includes_trim reply foundWord (by decide) (by decide),
    includes_trim reply ['E', 'R', 'R', 'O', 'R'] (by decide) (by decide),
    includes_trim reply ['O', 'K'] (by decide) (by decide), verdict]

theorem not_nameIsBlank {text : List Char} (hf : includes text foundWord ≠ true) : ¬ NameIsBlank text := by
  rintro ⟨u, t, heq, ⟨w, rest, rfl, -⟩, -⟩
  refine hf (decide_eq_true ⟨u ++ stream ++ w, rest, ?_⟩)
  rw [heq]
  simp only [List.append_assoc]

theorem parseReply_eq (reply : String) (now : ℕ) : parseReply reply now =
    if includes (trim reply).toList foundWord then
      AntivirusScan.create .infected engine
        (some (((virusName (trim reply).toList).map String.ofList).getD "unknown")) now
    else if includes (trim reply).toList ['E', 'R', 'R', 'O', 'R'] then
      AntivirusScan.create .error engine (some (trim reply)) now
    else if includes (trim reply).toList ['O', 'K'] then AntivirusScan.create .clean engine none now
    else AntivirusScan.create .error engine (some ("unexpected reply: " ++ trim reply)) now :=
  rfl

/-- A reply with `FOUND`: the scan is infected when the name is not blank, and an error when it is. -/
theorem failsClosed_found_iff {reply : String} (hf : includes (trim reply).toList foundWord = true) (now : ℕ) :
    FailsClosed (.ok reply) now ↔ ¬ NameIsBlank (trim reply).toList := by
  have hparse : parseReply reply now = AntivirusScan.create .infected engine
      (some (((virusName (trim reply).toList).map String.ofList).getD "unknown")) now := by
    rw [parseReply_eq, if_pos hf]
  rw [FailsClosed, verdict_trim, if_pos hf, ← isBlank_name_iff, Bool.not_eq_true]
  cases hblank : isBlank (((virusName (trim reply).toList).map String.ofList).getD "unknown") with
  | false =>
    obtain ⟨result, hresult, hstatus⟩ := create_present .infected hblank now
    exact ⟨fun _ => rfl, fun _ => ⟨result, scan_of_parse (hparse.trans hresult), hstatus⟩⟩
  | true =>
    refine ⟨?_, fun h => absurd h (by decide)⟩
    rintro ⟨result, hscan, hstatus⟩
    obtain ⟨error, herror, hstatus'⟩ := create_present .error
      (by decide : isBlank "Antivirus scan is invalid" = false) now
    rw [scan_of_throw (hparse.trans (create_blank (by decide) hblank now)), herror] at hscan
    cases hscan
    rw [hstatus] at hstatus'
    cases hstatus'

/-- The other replies: no text that is checked is blank. -/
theorem failsClosed_of_not_found {reply : String} (hf : includes (trim reply).toList foundWord ≠ true) (now : ℕ) :
    FailsClosed (.ok reply) now := by
  rw [FailsClosed, verdict_trim, if_neg hf]
  by_cases he : includes (trim reply).toList ['E', 'R', 'R', 'O', 'R'] = true
  · obtain ⟨result, hresult, hstatus⟩ := create_present .error (isBlank_of_includes (by decide) he) now
    have hparse : parseReply reply now = .ok result := by
      rw [parseReply_eq, if_neg hf, if_pos he, hresult]
    rw [if_pos he]
    exact ⟨result, scan_of_parse hparse, hstatus⟩
  rw [if_neg he]
  by_cases hk : includes (trim reply).toList ['O', 'K'] = true
  · rw [if_pos hk]
    have hparse : parseReply reply now = AntivirusScan.create .clean engine none now := by
      rw [parseReply_eq, if_neg hf, if_neg he, if_pos hk]
    exact ⟨_, scan_of_parse hparse, rfl⟩
  · obtain ⟨result, hresult, hstatus⟩ := create_present .error (isBlank_unexpected (trim reply)) now
    have hparse : parseReply reply now = .ok result := by
      rw [parseReply_eq, if_neg hf, if_neg he, if_neg hk, hresult]
    rw [if_neg hk]
    exact ⟨result, scan_of_parse hparse, hstatus⟩

theorem failsClosed_reply_iff (reply : String) (now : ℕ) :
    FailsClosed (.ok reply) now ↔ ¬ NameIsBlank (trim reply).toList := by
  by_cases hf : includes (trim reply).toList foundWord = true
  · exact failsClosed_found_iff hf now
  · exact ⟨fun _ => not_nameIsBlank hf, fun _ => failsClosed_of_not_found hf now⟩

/-- **The adapter fails closed exactly when** the client does not reject with a blank message, and the first
`stream:` of the reply that stands before a `FOUND` is not followed by white space only. -/
theorem fails_closed_iff (outcome : Except Rejection String) (now : ℕ) :
    FailsClosed outcome now ↔ HasTexts outcome := by
  cases outcome with
  | ok reply => exact failsClosed_reply_iff reply now
  | error rejection =>
    cases rejection with
    | error message =>
      cases hblank : isBlank message with
      | false =>
        refine ⟨fun _ => hblank, fun _ => ?_⟩
        obtain ⟨result, hscan, hstatus⟩ := create_present .error hblank now
        exact ⟨result, hscan, hstatus⟩
      | true =>
        refine ⟨?_, fun h => absurd (hblank.symm.trans h) (by decide)⟩
        rintro ⟨result, hscan, -⟩
        have hthrow : scan (.error (.error message)) now = .error .invalidAntivirusScan :=
          create_blank (by decide) hblank now
        rw [hthrow] at hscan
        cases hscan
    | other =>
      obtain ⟨result, hscan, hstatus⟩ := create_present .error (by decide : isBlank "unknown error" = false) now
      exact ⟨fun _ => trivial, fun _ => ⟨result, hscan, hstatus⟩⟩

/-- An infection without a name becomes an error, and an error without a message an exception. -/
theorem blank_texts :
    ¬ FailsClosed (.ok "stream: FOUND") 0 ∧ ¬ FailsClosed (.error (.error "")) 0 := by
  constructor
  · rintro ⟨result, hscan, hstatus⟩
    have herror : (scan (.ok "stream: FOUND") 0).map (·.status) = .ok .error := by decide +kernel
    rw [hscan] at herror
    have hinfected : verdict (.ok "stream: FOUND") = .infected := by decide +kernel
    rw [hinfected] at hstatus
    exact absurd (hstatus.symm.trans (Except.ok.inj herror)) (by decide)
  · rintro ⟨result, hscan, -⟩
    have hthrow : (scan (.error (.error "")) 0).map (·.status) = .error .invalidAntivirusScan := by decide +kernel
    rw [hscan] at hthrow
    cases hthrow

end Neltrik.FileStorage.ClamavAntivirus
