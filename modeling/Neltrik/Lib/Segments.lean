import Neltrik.Lib.Scan
import Mathlib.Data.List.Chain
import Mathlib.Data.List.Infix

/-! # Literals and matches

What a match is, is said by a relation `M` between a text and what it captures; a pattern of a scan that
recognizes `M` finds the matches. A split of a text consists of matches and of literals between them, and no
match stands in a literal.

`isSplit_iff`: where no match begins inside of another one there is exactly one split, and it is that of the
scan, so the functions that use the scan can be read off the split (`matchAll_eq`, `replace_eq`).
-/

namespace Neltrik.Lib.Segments

open Neltrik.Lib.Scan

variable {α β : Type*}

/-- A text between the matches, or a match with what it captures. -/
inductive Segment (α β : Type*) where
  | literal (text : List α)
  | hit (raw : List α) (captured : β)
  deriving DecidableEq

namespace Segment

/-- The text of a segment. -/
def raw : Segment α β → List α
  | literal text => text
  | hit raw _ => raw

/-- What was matched, if the segment is a match. -/
def captured : Segment α β → Option β
  | literal _ => none
  | hit _ b => some b

/-- What the segment is replaced by; `f` has the match and what it captures. -/
def subst (f : List α → β → List α) : Segment α β → List α
  | literal text => text
  | hit raw b => f raw b

end Segment

/-! ### Splits -/

/-- No match stands in the text. -/
def Free (M : List α → β → Prop) (as : List α) : Prop := ∀ raw b, raw <:+: as → ¬ M raw b

/-- The segments are the text; the hits are matches, the literals are without a match, and no two literals
are neighbours. -/
structure IsSplit (M : List α → β → Prop) (as : List α) (segs : List (Segment α β)) : Prop where
  text : segs.flatMap Segment.raw = as
  hits : ∀ raw b, .hit raw b ∈ segs → M raw b
  literals : ∀ l, .literal l ∈ segs → l ≠ [] ∧ Free M l
  apart : segs.IsChain fun s t => s.captured ≠ none ∨ t.captured ≠ none

variable {M : List α → β → Prop} {as : List α} {segs : List (Segment α β)}

theorem Free.of_cons {a : α} {l : List α} (h : Free M (a :: l)) : Free M l :=
  fun raw b hraw => h raw b (List.infix_cons hraw)

theorem isSplit_nil : IsSplit M [] [] where
  text := rfl
  hits _ _ h := absurd h List.not_mem_nil
  literals _ h := absurd h List.not_mem_nil
  apart := .nil

theorem IsSplit.tail {s : Segment α β} (h : IsSplit M as (s :: segs)) : IsSplit M (segs.flatMap Segment.raw) segs where
  text := rfl
  hits raw b hm := h.hits raw b (List.mem_cons_of_mem _ hm)
  literals l hm := h.literals l (List.mem_cons_of_mem _ hm)
  apart := h.apart.tail

theorem IsSplit.cons_hit {raw : List α} {b : β} (hm : M raw b) (h : IsSplit M as segs) :
    IsSplit M (raw ++ as) (.hit raw b :: segs) where
  text := by
    rw [List.flatMap_cons, h.text]
    rfl
  hits raw' b' hmem := by
    rcases List.mem_cons.mp hmem with heq | hmem
    · cases heq
      exact hm
    · exact h.hits raw' b' hmem
  literals l hmem := by
    rcases List.mem_cons.mp hmem with heq | hmem
    · cases heq
    · exact h.literals l hmem
  apart := by
    refine List.isChain_cons.mpr ⟨fun t _ => .inl ?_, h.apart⟩
    exact Option.some_ne_none b

/-! ### One more letter -/

/-- The letter in front of the segments. -/
def push (a : α) : List (Segment α β) → List (Segment α β)
  | .literal l :: segs => .literal (a :: l) :: segs
  | segs => .literal [a] :: segs

theorem flatMap_push (a : α) (g : Segment α β → List α) (hg : ∀ l, g (.literal l) = l) (segs : List (Segment α β)) :
    (push a segs).flatMap g = a :: segs.flatMap g := by
  rcases segs with _ | ⟨⟨l⟩ | ⟨raw, b⟩, segs⟩
  · rw [push, List.flatMap_cons, hg]
    · rfl
    · exact fun l segs h => nomatch h
  · rw [push, List.flatMap_cons, List.flatMap_cons, hg, hg]
    rfl
  · rw [push, List.flatMap_cons, hg]
    · rfl
    · exact fun l segs h => nomatch h

theorem captured_push (a : α) (segs : List (Segment α β)) :
    (push a segs).filterMap Segment.captured = segs.filterMap Segment.captured := by
  rcases segs with _ | ⟨⟨l⟩ | ⟨raw, b⟩, segs⟩ <;> rfl

/-- The text is free with a letter in front, if no match begins there. -/
theorem Free.cons {a : α} {l : List α} (hno : ∀ raw b, raw <+: a :: l → ¬ M raw b) (h : Free M l) :
    Free M (a :: l) := by
  intro raw b hraw
  rcases List.infix_cons_iff.mp hraw with hp | hi
  · exact hno raw b hp
  · exact h raw b hi

theorem free_nil (hne : ∀ b, ¬ M [] b) : Free M [] := by
  intro raw b hraw
  rw [List.infix_nil.mp hraw]
  exact hne b

/-- A literal in front of segments that do not begin with one. -/
theorem IsSplit.cons_literal {l : List α} (hl : l ≠ [] ∧ Free M l) (hhead : ∀ t ∈ segs.head?, t.captured ≠ none)
    (h : IsSplit M as segs) : IsSplit M (l ++ as) (.literal l :: segs) where
  text := by
    rw [List.flatMap_cons, h.text]
    rfl
  hits raw b hmem := by
    rcases List.mem_cons.mp hmem with heq | hmem
    · cases heq
    · exact h.hits raw b hmem
  literals l' hmem := by
    rcases List.mem_cons.mp hmem with heq | hmem
    · cases heq
      exact hl
    · exact h.literals l' hmem
  apart := List.isChain_cons.mpr ⟨fun t ht => .inr (hhead t ht), h.apart⟩

/-- Behind a literal stands a hit. -/
theorem IsSplit.head?_captured {l : List α} (h : IsSplit M as (.literal l :: segs)) :
    ∀ t ∈ segs.head?, t.captured ≠ none := by
  intro t ht
  rcases (List.isChain_cons.mp h.apart).1 t ht with hnone | hsome
  · exact absurd rfl hnone
  · exact hsome

/-- A letter at which no match begins. -/
theorem IsSplit.push {a : α} (hne : ∀ b, ¬ M [] b) (hno : ∀ raw b, raw <+: a :: as → ¬ M raw b)
    (h : IsSplit M as segs) : IsSplit M (a :: as) (push a segs) := by
  have hfree : ∀ l, l <+: as → Free M l → Free M (a :: l) := fun l hl hf =>
    hf.cons fun raw b hraw => hno raw b (hraw.trans (List.cons_prefix_cons.mpr ⟨rfl, hl⟩))
  have hsingle : [a] ≠ [] ∧ Free M [a] := ⟨List.cons_ne_nil a [], hfree [] List.nil_prefix (free_nil hne)⟩
  rcases segs with _ | ⟨⟨l⟩ | ⟨raw, b⟩, segs⟩
  · exact h.cons_literal hsingle fun t ht => nomatch ht
  · have htext : as = l ++ segs.flatMap Segment.raw := h.text.symm
    have hl : Free M (a :: l) := hfree l ⟨_, htext.symm⟩ (h.literals l List.mem_cons_self).2
    rw [htext]
    exact h.tail.cons_literal ⟨List.cons_ne_nil a l, hl⟩ h.head?_captured
  · refine h.cons_literal hsingle fun t ht => ?_
    cases ht
    exact Option.some_ne_none b

/-! ### The split of a scan -/

/-- The letters between the matches put together. -/
def group : List (Piece α β) → List (Segment α β)
  | [] => []
  | .letter a :: ps => push a (group ps)
  | .hit raw b :: ps => .hit raw b :: group ps

/-- The text cut into its matches and the texts between them. -/
def segments (m : Pattern α β) (as : List α) : List (Segment α β) := group (pieces m as)

/-- The pattern finds the matches: it looks at no more than the letters it takes, and no match begins inside
of another one. -/
structure Recognizes (m : Pattern α β) (M : List α → β → Prop) : Prop where
  match_iff : ∀ a as k b, m a as = some (k, b) ↔ k ≤ as.length ∧ M (a :: as.take k) b
  ne_nil : ∀ b, ¬ M [] b
  separate : ∀ u x rest b, M (u ++ x) b → u ≠ [] → x ≠ [] → ∀ raw b', raw <+: x ++ rest → ¬ M raw b'

section Recognizes
variable {m : Pattern α β}

/-- No match begins where the pattern finds none. -/
theorem Recognizes.not_prefix (h : Recognizes m M) {a : α} {as : List α} (hm : m a as = none) :
    ∀ raw b, raw <+: a :: as → ¬ M raw b := by
  rintro raw b ⟨rest, hrest⟩ hmatch
  rcases raw with _ | ⟨a', raw⟩
  · exact h.ne_nil b hmatch
  · obtain ⟨rfl, rfl⟩ := List.cons.inj hrest
    have hsome := (h.match_iff a' (raw ++ rest) raw.length b).mpr
      ⟨by rw [List.length_append]; omega, by rwa [List.take_left]⟩
    exact Option.some_ne_none _ (hsome.symm.trans hm)

theorem segments_cons_of_none {a : α} {as : List α} (hm : m a as = none) :
    segments m (a :: as) = push a (segments m as) := by
  unfold segments
  rw [pieces_cons_of_none hm]
  rfl

theorem segments_cons_of_some {a : α} {as : List α} {k : ℕ} {b : β} (hm : m a as = some (k, b)) :
    segments m (a :: as) = .hit (a :: as.take k) b :: segments m (as.drop k) := by
  unfold segments
  rw [pieces_cons_of_some hm]
  rfl

/-- **The scan splits the text.** -/
theorem isSplit_segments (h : Recognizes m M) (as : List α) : IsSplit M as (segments m as) := by
  induction hn : as.length using Nat.strong_induction_on generalizing as with
  | _ n ih =>
    rcases as with _ | ⟨a, as⟩
    · exact isSplit_nil
    rw [List.length_cons] at hn
    rcases hm : m a as with _ | ⟨k, b⟩
    · rw [segments_cons_of_none hm]
      exact (ih _ (by omega) as rfl).push h.ne_nil (h.not_prefix hm)
    · obtain ⟨-, hmatch⟩ := (h.match_iff a as k b).mp hm
      have hdrop : (as.drop k).length < n := by
        rw [List.length_drop]
        omega
      have hsplit := (ih _ hdrop (as.drop k) rfl).cons_hit hmatch
      rw [segments_cons_of_some hm]
      rwa [List.cons_append, List.take_append_drop] at hsplit

/-- No match begins in a literal and ends behind it. -/
theorem Recognizes.eq_none (h : Recognizes m M) {a : α} {l : List α} (hfree : Free M (a :: l))
    (hsplit : IsSplit M as segs) (hhead : ∀ t ∈ segs.head?, t.captured ≠ none) : m a (l ++ as) = none := by
  rcases hm : m a (l ++ as) with _ | ⟨k, b⟩
  · rfl
  obtain ⟨hk, hmatch⟩ := (h.match_iff a (l ++ as) k b).mp hm
  rw [List.length_append] at hk
  by_cases hle : k ≤ l.length
  · -- such a match would stand in the literal
    rw [List.take_append_of_le_length hle] at hmatch
    exact absurd hmatch (hfree _ b (List.cons_prefix_cons.mpr ⟨rfl, List.take_prefix k l⟩).isInfix)
  · rw [List.take_append, List.take_of_length_le (by omega), ← List.cons_append] at hmatch
    rcases segs with _ | ⟨⟨l'⟩ | ⟨raw, b'⟩, segs⟩
    · have hnil : as = [] := hsplit.text.symm
      rw [hnil, List.length_nil] at hk
      omega
    · exact absurd rfl (hhead _ rfl)
    · -- it would reach into the match behind the literal
      have hne : as.take (k - l.length) ≠ [] := by
        refine List.ne_nil_of_length_pos ?_
        rw [List.length_take]
        omega
      have hraw : raw <+: as.take (k - l.length) ++ as.drop (k - l.length) := by
        rw [List.take_append_drop, ← hsplit.text]
        exact List.prefix_append raw _
      exact absurd (hsplit.hits raw b' List.mem_cons_self)
        (h.separate _ _ _ b hmatch (List.cons_ne_nil a l) hne raw b' hraw)

/-- The letters of a literal are put together again. -/
theorem segments_literal (h : Recognizes m M) {l : List α} (hl : l ≠ []) (hfree : Free M l)
    (hsplit : IsSplit M as segs) (hhead : ∀ t ∈ segs.head?, t.captured ≠ none) (hsegs : segs = segments m as) :
    segments m (l ++ as) = .literal l :: segs := by
  induction l with
  | nil => exact absurd rfl hl
  | cons a l ih =>
    rw [List.cons_append, segments_cons_of_none (h.eq_none hfree hsplit hhead)]
    by_cases hnil : l = []
    · rw [hnil, List.nil_append, ← hsegs]
      rcases segs with _ | ⟨⟨l'⟩ | ⟨raw, b⟩, segs⟩
      · rfl
      · exact absurd rfl (hhead _ rfl)
      · rfl
    · rw [ih hnil hfree.of_cons]
      rfl

/-- There is no other split. -/
theorem IsSplit.eq_segments (h : Recognizes m M) (hsplit : IsSplit M as segs) : segs = segments m as := by
  induction segs generalizing as with
  | nil =>
    obtain rfl : as = [] := hsplit.text.symm
    rfl
  | cons s segs ih =>
    have htail := hsplit.tail
    have hsegs := ih htail
    rw [← hsplit.text]
    cases s with
    | literal l =>
      obtain ⟨hl, hfree⟩ := hsplit.literals l List.mem_cons_self
      exact (segments_literal h hl hfree htail hsplit.head?_captured hsegs).symm
    | hit raw b =>
      have hmatch := hsplit.hits raw b List.mem_cons_self
      rcases raw with _ | ⟨a, raw⟩
      · exact absurd hmatch (h.ne_nil b)
      have hm : m a (raw ++ segs.flatMap Segment.raw) = some (raw.length, b) :=
        (h.match_iff a _ raw.length b).mpr ⟨by rw [List.length_append]; omega, by rwa [List.take_left]⟩
      have hcons := segments_cons_of_some hm
      rw [List.take_left, List.drop_left, ← hsegs] at hcons
      exact hcons.symm

/-- **There is exactly one split**, that of the scan. -/
theorem isSplit_iff (h : Recognizes m M) : IsSplit M as segs ↔ segs = segments m as := by
  constructor
  · exact IsSplit.eq_segments h
  · rintro rfl
    exact isSplit_segments h as

end Recognizes

/-! ### What is read off the split -/

/-- What the matches capture is read off the segments. -/
theorem matchAll_eq (m : Pattern α β) (as : List α) : matchAll m as = (segments m as).filterMap Segment.captured := by
  unfold matchAll segments
  induction pieces m as with
  | nil => rfl
  | cons p ps ih =>
    cases p with
    | letter a => rw [group, captured_push, ← ih]; rfl
    | hit raw b => exact congrArg (b :: ·) ih

/-- The matches are replaced, the literals stay. -/
theorem replace_eq (m : Pattern α β) (f : List α → β → List α) (as : List α) :
    replace m f as = (segments m as).flatMap (Segment.subst f) := by
  unfold replace segments
  induction pieces m as with
  | nil => rfl
  | cons p ps ih =>
    cases p with
    | letter a =>
      rw [group, flatMap_push a _ (fun _ => rfl), ← ih]
      rfl
    | hit raw b => exact congrArg (f raw b ++ ·) ih

end Neltrik.Lib.Segments
