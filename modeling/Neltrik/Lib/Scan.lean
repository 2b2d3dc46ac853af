import Mathlib.Data.List.Basic

/-! # Scanning a text for a pattern

A pattern looks at a letter and at those behind it: it matches there, takes some of them and captures
something, or it does not match. `pieces` is the text as a scan finds it: from the left, a match where
there is one, otherwise a letter, and no two matches overlap. `matchAll` and `replace` are what the
functions of these names do with a global regular expression.

`raw_pieces`: the pieces are the text, so a text without a match stays (`replace_of_matchAll_eq_nil`).
`filled_replace_iff`: `replace` puts a value in the place of every match exactly when there is a value
for everything that is captured.
-/

namespace Neltrik.Lib.Scan

variable {α β : Type*}

/-- Where it matches: the number of letters it takes behind the first one, and what it captures. -/
abbrev Pattern (α β : Type*) := α → List α → Option (ℕ × β)

/-- A letter, or a match with what it captures. -/
inductive Piece (α β : Type*) where
  | letter (a : α)
  | hit (raw : List α) (captured : β)
  deriving DecidableEq

namespace Piece

/-- The text of a piece. -/
def raw : Piece α β → List α
  | letter a => [a]
  | hit raw _ => raw

/-- What was matched, if the piece is a match. -/
def captured : Piece α β → Option β
  | letter _ => none
  | hit _ b => some b

/-- What the piece is replaced by; `f` has the match and what it captures. -/
def subst (f : List α → β → List α) : Piece α β → List α
  | letter a => [a]
  | hit raw b => f raw b

end Piece

/-- The pieces behind the next `k` letters, which a match has taken. -/
def piecesFrom (m : Pattern α β) : ℕ → List α → List (Piece α β)
  | _, [] => []
  | k + 1, _ :: as => piecesFrom m k as
  | 0, a :: as =>
    match m a as with
    | some (k, b) => .hit (a :: as.take k) b :: piecesFrom m k as
    | none => .letter a :: piecesFrom m 0 as

/-- The text cut into its matches and the letters between them. -/
def pieces (m : Pattern α β) (as : List α) : List (Piece α β) := piecesFrom m 0 as

/-- What the matches capture, in their order. -/
def matchAll (m : Pattern α β) (as : List α) : List β := (pieces m as).filterMap Piece.captured

/-- Every match replaced. -/
def replace (m : Pattern α β) (f : List α → β → List α) (as : List α) : List α :=
  (pieces m as).flatMap (Piece.subst f)

theorem piecesFrom_eq (m : Pattern α β) (k : ℕ) (as : List α) : piecesFrom m k as = pieces m (as.drop k) := by
  induction as generalizing k with
  | nil => rw [List.drop_nil]; rfl
  | cons a as ih =>
    rcases k with _ | k
    · rfl
    · rw [List.drop_succ_cons, ← ih]
      rfl

theorem pieces_cons_of_none {m : Pattern α β} {a : α} {as : List α} (h : m a as = none) :
    pieces m (a :: as) = .letter a :: pieces m as := by
  show piecesFrom m 0 (a :: as) = _
  rw [piecesFrom, h]
  rfl

theorem pieces_cons_of_some {m : Pattern α β} {a : α} {as : List α} {k : ℕ} {b : β}
    (h : m a as = some (k, b)) : pieces m (a :: as) = .hit (a :: as.take k) b :: pieces m (as.drop k) := by
  show piecesFrom m 0 (a :: as) = _
  rw [piecesFrom, h, ← piecesFrom_eq]

theorem replace_cons_of_none {m : Pattern α β} {a : α} {as : List α} (h : m a as = none)
    (f : List α → β → List α) : replace m f (a :: as) = a :: replace m f as := by
  unfold replace
  rw [pieces_cons_of_none h]
  rfl

theorem replace_cons_of_some {m : Pattern α β} {a : α} {as : List α} {k : ℕ} {b : β}
    (h : m a as = some (k, b)) (f : List α → β → List α) :
    replace m f (a :: as) = f (a :: as.take k) b ++ replace m f (as.drop k) := by
  unfold replace
  rw [pieces_cons_of_some h]
  rfl

theorem matchAll_cons_of_none {m : Pattern α β} {a : α} {as : List α} (h : m a as = none) :
    matchAll m (a :: as) = matchAll m as := by
  unfold matchAll
  rw [pieces_cons_of_none h]
  rfl

theorem matchAll_cons_of_some {m : Pattern α β} {a : α} {as : List α} {k : ℕ} {b : β}
    (h : m a as = some (k, b)) : matchAll m (a :: as) = b :: matchAll m (as.drop k) := by
  unfold matchAll
  rw [pieces_cons_of_some h]
  rfl

/-! ### What is found -/

/-- What is captured has been matched somewhere. -/
theorem exists_match_of_mem {m : Pattern α β} {as : List α} {b : β} (h : b ∈ matchAll m as) :
    ∃ u a v k, as = u ++ a :: v ∧ m a v = some (k, b) := by
  induction hn : as.length using Nat.strongRecOn generalizing as with
  | _ n ih =>
    rcases as with _ | ⟨a, as⟩
    · exact absurd h List.not_mem_nil
    rw [List.length_cons] at hn
    rcases hm : m a as with _ | ⟨k, b'⟩
    · rw [matchAll_cons_of_none hm] at h
      obtain ⟨u, a', v, k', rfl, hmatch⟩ := ih _ (by omega) h rfl
      exact ⟨a :: u, a', v, k', rfl, hmatch⟩
    · rw [matchAll_cons_of_some hm] at h
      rcases List.mem_cons.mp h with rfl | h
      · exact ⟨[], a, as, k, rfl, hm⟩
      · have hdrop : (as.drop k).length ≤ as.length := by
          rw [List.length_drop]
          omega
        obtain ⟨u, a', v, k', heq, hmatch⟩ := ih _ (by omega) h rfl
        refine ⟨a :: as.take k ++ u, a', v, k', ?_, hmatch⟩
        rw [List.cons_append, List.cons_append, List.append_assoc, ← heq, List.take_append_drop]

/-- The letters a match begins with are not inside of another one. -/
def Apart (m : Pattern α β) (p : α → Prop) : Prop :=
  ∀ a as k b, m a as = some (k, b) → p a ∧ ∀ a' ∈ as.take k, ¬ p a'

/-- **Every match is found**, where no two of them overlap. -/
theorem mem_matchAll {m : Pattern α β} {p : α → Prop} (hm : Apart m p) {a : α} {v : List α} {k : ℕ} {b : β}
    (h : m a v = some (k, b)) (u : List α) : b ∈ matchAll m (u ++ a :: v) := by
  induction hn : u.length using Nat.strongRecOn generalizing u with
  | _ n ih =>
    rcases u with _ | ⟨a', u⟩
    · rw [List.nil_append, matchAll_cons_of_some h]
      exact List.mem_cons_self
    rw [List.length_cons] at hn
    rw [List.cons_append]
    rcases hfirst : m a' (u ++ a :: v) with _ | ⟨k', b'⟩
    · rw [matchAll_cons_of_none hfirst]
      exact ih _ (by omega) u rfl
    · rw [matchAll_cons_of_some hfirst]
      refine List.mem_cons_of_mem _ ?_
      by_cases hk : k' ≤ u.length
      · rw [List.drop_append_of_le_length hk]
        refine ih _ ?_ (u.drop k') rfl
        rw [List.length_drop]
        omega
      · -- the match before would reach over the first letter of this one
        have hinside : a ∈ (u ++ a :: v).take k' := by
          have htake : (u ++ a :: v).take k' = u ++ (a :: v).take (k' - u.length) := by
            rw [List.take_append, List.take_of_length_le (by omega)]
          rw [htake]
          refine List.mem_append_right _ ?_
          obtain ⟨i, hi⟩ : ∃ i, k' - u.length = i + 1 := ⟨k' - u.length - 1, by omega⟩
          rw [hi, List.take_succ_cons]
          exact List.mem_cons_self
        exact absurd (hm a v k b h).1 ((hm a' _ k' b' hfirst).2 a hinside)

theorem raw_piecesFrom (m : Pattern α β) (k : ℕ) (as : List α) :
    (piecesFrom m k as).flatMap Piece.raw = as.drop k := by
  induction as generalizing k with
  | nil => rw [List.drop_nil]; rfl
  | cons a as ih =>
    cases k with
    | zero =>
      rw [piecesFrom, List.drop_zero]
      cases m a as with
      | none =>
        show a :: (piecesFrom m 0 as).flatMap Piece.raw = a :: as
        rw [ih, List.drop_zero]
      | some r =>
        show a :: as.take r.1 ++ (piecesFrom m r.1 as).flatMap Piece.raw = a :: as
        rw [ih, List.cons_append, List.take_append_drop]
    | succ k =>
      rw [List.drop_succ_cons]
      exact ih k

/-- **The pieces are the text.** -/
theorem raw_pieces (m : Pattern α β) (as : List α) : (pieces m as).flatMap Piece.raw = as :=
  raw_piecesFrom m 0 as

/-- A text without a match is not changed. -/
theorem replace_of_matchAll_eq_nil {m : Pattern α β} {as : List α} (h : matchAll m as = [])
    (f : List α → β → List α) : replace m f as = as := by
  have hsubst : ∀ p ∈ pieces m as, p.subst f = p.raw := by
    intro p hp
    have hcaptured := List.filterMap_eq_nil_iff.mp h p hp
    cases p with
    | letter a => rfl
    | hit raw b => cases hcaptured
  unfold replace
  rw [List.flatMap_congr hsubst, raw_pieces]

/-! ### Words -/

theorem drop_length_takeWhile (p : α → Bool) (as : List α) :
    as.drop (as.takeWhile p).length = as.dropWhile p := by
  induction as with
  | nil => rfl
  | cons a as ih =>
    by_cases ha : p a = true
    · rw [List.takeWhile_cons_of_pos ha, List.dropWhile_cons_of_pos ha, List.length_cons,
        List.drop_succ_cons, ih]
    · rw [List.takeWhile_cons_of_neg ha, List.dropWhile_cons_of_neg ha]
      rfl

/-- A word and the letter behind it. -/
theorem exists_eq_takeWhile_append {p : α → Bool} {as : List α} {stop : α}
    (h : (as.drop (as.takeWhile p).length).head? = some stop) : ∃ v, as = as.takeWhile p ++ stop :: v := by
  rw [drop_length_takeWhile] at h
  obtain ⟨v, hv⟩ := List.head?_eq_some_iff.mp h
  refine ⟨v, ?_⟩
  rw [← hv, List.takeWhile_append_dropWhile]

/-- A word ends at a letter that is not of it. -/
theorem takeWhile_append_of_stop {p : α → Bool} {as v : List α} {stop : α} (hstop : p stop = false) :
    (as ++ stop :: v).takeWhile p = as.takeWhile p := by
  have hnone : (stop :: v).takeWhile p = [] :=
    List.takeWhile_cons_of_neg (by rw [hstop]; exact Bool.false_ne_true)
  induction as with
  | nil => exact hnone
  | cons a as ih =>
    rw [List.cons_append]
    by_cases ha : p a = true
    · rw [List.takeWhile_cons_of_pos ha, List.takeWhile_cons_of_pos ha, ih]
    · rw [List.takeWhile_cons_of_neg ha, List.takeWhile_cons_of_neg ha]

/-- A word, and what stands behind it. -/
theorem span_append {p : α → Bool} {word as : List α} (hword : ∀ a ∈ word, p a = true)
    (hstop : ∀ a ∈ as.head?, p a = false) :
    (word ++ as).takeWhile p = word ∧ (word ++ as).dropWhile p = as := by
  rw [List.takeWhile_append_of_pos hword, List.dropWhile_append_of_pos hword]
  cases as with
  | nil => exact ⟨List.append_nil word, rfl⟩
  | cons a as =>
    have ha : ¬ p a = true := by
      rw [hstop a rfl]
      exact Bool.false_ne_true
    rw [List.takeWhile_cons_of_neg ha, List.dropWhile_cons_of_neg ha]
    exact ⟨List.append_nil word, rfl⟩

/-! ### Filling in values -/

/-- The text of the pieces with a value in the place of every match. -/
inductive Filled (value : β → Option (List α)) : List (Piece α β) → List α → Prop
  | nil : Filled value [] []
  | letter {a ps out} (h : Filled value ps out) : Filled value (.letter a :: ps) (a :: out)
  | hit {raw b t ps out} (hb : value b = some t) (h : Filled value ps out) :
      Filled value (.hit raw b :: ps) (t ++ out)

theorem Filled.isSome {value : β → Option (List α)} {ps : List (Piece α β)} {out : List α}
    (h : Filled value ps out) : ∀ b ∈ ps.filterMap Piece.captured, (value b).isSome = true := by
  induction h with
  | nil => exact fun b hb => absurd hb List.not_mem_nil
  | letter _ ih => exact ih
  | hit hb _ ih =>
    refine List.forall_mem_cons.mpr ⟨?_, ih⟩
    rw [hb]
    rfl

/-- **Replacing fills in a value for every match** exactly when there is one for everything that is
captured; a match without a value is left as it is. -/
theorem filled_replace_iff (m : Pattern α β) (value : β → Option (List α)) (as : List α) :
    Filled value (pieces m as) (replace m (fun raw b => (value b).getD raw) as) ↔
      ∀ b ∈ matchAll m as, (value b).isSome = true := by
  refine ⟨Filled.isSome, fun h => ?_⟩
  unfold matchAll at h
  unfold replace
  generalize pieces m as = ps at h ⊢
  induction ps with
  | nil => exact .nil
  | cons p ps ih =>
    cases p with
    | letter a => exact .letter (ih h)
    | hit raw b =>
      obtain ⟨hb, hrest⟩ := List.forall_mem_cons.mp h
      obtain ⟨t, ht⟩ := Option.isSome_iff_exists.mp hb
      have hsubst : (Piece.hit raw b).subst (fun raw b => (value b).getD raw) = t := by
        show (value b).getD raw = t
        rw [ht]
        rfl
      rw [List.flatMap_cons, hsubst]
      exact .hit ht (ih hrest)

end Neltrik.Lib.Scan
