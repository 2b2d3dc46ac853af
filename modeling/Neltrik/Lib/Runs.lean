import Mathlib.Data.List.Chain
import Mathlib.Data.List.TakeWhile
import Neltrik.Lib.Scan

/-! # Runs of letters, and words that are joined

`plus p` is the pattern of a run of letters that meet `p`, and `squeeze p x` replaces each such run by
one letter `x`. Squeezing again does nothing that one squeezing would not (`squeeze_squeeze`), the ends of
the text keep what they are (`head?_squeeze`, `getLast?_squeeze`), words without a letter of a run stand in
the text before (`infix_of_squeeze`), and every run costs one letter (`length_squeeze`).

`Joined x P`: words of letters that meet `P`, none of them empty, with a single `x` between them.
`joined_iff`: this is what can be seen from two neighbours at a time, once an `x` is put at either end.
-/

namespace Neltrik.Lib.Runs

open Neltrik.Lib.Scan

variable {α : Type*}

/-- `p+`. -/
def plus (p : α → Bool) : Pattern α Unit := fun a as =>
  if p a then some ((as.takeWhile p).length, ()) else none

/-- Each run of letters that meet `p` becomes one `x`. -/
def squeeze (p : α → Bool) (x : α) (as : List α) : List α := replace (plus p) (fun _ _ => [x]) as

/-- The number of runs, each counted where it ends. -/
def runs (p : α → Bool) : List α → ℕ
  | [] => 0
  | a :: as => (if p a && !as.head?.any p then 1 else 0) + runs p as

section Squeeze
variable {p q : α → Bool} {x : α}

theorem squeeze_cons_of_neg {a : α} (h : p a = false) (as : List α) :
    squeeze p x (a :: as) = a :: squeeze p x as :=
  replace_cons_of_none (if_neg (by rw [h]; exact Bool.false_ne_true)) _

theorem squeeze_cons_of_pos {a : α} (h : p a = true) (as : List α) :
    squeeze p x (a :: as) = x :: squeeze p x (as.dropWhile p) := by
  have hplus : plus p a as = some ((as.takeWhile p).length, ()) := if_pos h
  unfold squeeze
  rw [replace_cons_of_some hplus, drop_length_takeWhile]
  rfl

/-- A text and the run in front of it taken away. -/
theorem squeeze_induction {P : List α → Prop} (hnil : P [])
    (hrun : ∀ a as, p a = true → P (as.dropWhile p) → P (a :: as))
    (hletter : ∀ a as, p a = false → P as → P (a :: as)) (as : List α) : P as := by
  induction hn : as.length using Nat.strong_induction_on generalizing as with
  | _ n ih =>
    rcases as with _ | ⟨a, as⟩
    · exact hnil
    rw [List.length_cons] at hn
    by_cases ha : p a = true
    · have hle : (as.dropWhile p).length ≤ as.length := (List.dropWhile_sublist p).length_le
      exact hrun a as ha (ih _ (by omega) _ rfl)
    · exact hletter a as (Bool.eq_false_iff.mpr ha) (ih _ (by omega) _ rfl)

theorem mem_squeeze {as : List α} {b : α} (h : b ∈ squeeze p x as) : b = x ∨ (b ∈ as ∧ p b = false) := by
  induction as using squeeze_induction (p := p) with
  | hnil => exact absurd h List.not_mem_nil
  | hrun a as ha ih =>
    rw [squeeze_cons_of_pos ha] at h
    rcases List.mem_cons.mp h with rfl | h
    · exact Or.inl rfl
    · refine (ih h).imp_right fun ⟨hb, hpb⟩ => ⟨?_, hpb⟩
      exact List.mem_cons_of_mem _ ((List.dropWhile_sublist p).subset hb)
  | hletter a as ha ih =>
    rw [squeeze_cons_of_neg ha] at h
    rcases List.mem_cons.mp h with rfl | h
    · exact Or.inr ⟨List.mem_cons_self, ha⟩
    · exact (ih h).imp_right fun ⟨hb, hpb⟩ => ⟨List.mem_cons_of_mem _ hb, hpb⟩

/-- The letter that stands for `a` in a squeezed text. -/
def squeezed (p : α → Bool) (x a : α) : α := if p a then x else a

theorem head?_squeeze (as : List α) : (squeeze p x as).head? = as.head?.map (squeezed p x) := by
  rcases as with _ | ⟨a, as⟩
  · rfl
  · by_cases ha : p a = true
    · rw [squeeze_cons_of_pos ha]
      simp [squeezed, ha]
    · rw [squeeze_cons_of_neg (Bool.eq_false_iff.mpr ha)]
      simp [squeezed, ha]

theorem getLast?_dropWhile {as : List α} (h : as.dropWhile p ≠ []) :
    (as.dropWhile p).getLast? = as.getLast? := by
  have hsplit : as.takeWhile p ++ as.dropWhile p = as := List.takeWhile_append_dropWhile
  rw [← List.getLast?_append_of_ne_nil (as.takeWhile p) h, hsplit]

theorem getLast?_squeeze (as : List α) : (squeeze p x as).getLast? = as.getLast?.map (squeezed p x) := by
  induction as using squeeze_induction (p := p) with
  | hnil => rfl
  | hrun a as ha ih =>
    have hx : squeezed p x a = x := if_pos ha
    have hgetD := Option.getD_map (squeezed p x) a (as.dropWhile p).getLast?
    rw [hx] at hgetD
    rw [squeeze_cons_of_pos ha, List.getLast?_cons, List.getLast?_cons, ih, Option.map_some, hgetD]
    congr 1
    by_cases hend : as.dropWhile p = []
    · rw [hend, List.getLast?_nil, Option.getD_none, hx]
      rcases hlast : as.getLast? with _ | b
      · exact hx.symm
      · have hb : p b = true := List.dropWhile_eq_nil_iff.mp hend b (List.mem_of_getLast? hlast)
        exact (if_pos hb).symm
    · rw [getLast?_dropWhile hend]
  | hletter a as ha ih =>
    have hx : squeezed p x a = a := if_neg (by rw [ha]; exact Bool.false_ne_true)
    have hgetD := Option.getD_map (squeezed p x) a as.getLast?
    rw [hx] at hgetD
    rw [squeeze_cons_of_neg ha, List.getLast?_cons, List.getLast?_cons, ih, Option.map_some, hgetD]

/-! ### Words without a letter of a run -/

section Words
variable {word as bs : List α}

/-- The word is not in the run in front. -/
theorem infix_append_iff (has : ∀ a ∈ as, p a = true) (hne : word ≠ []) (hword : ∀ a ∈ word, p a = false) :
    word <:+: as ++ bs ↔ word <:+: bs := by
  induction as with
  | nil => rfl
  | cons a as ih =>
    obtain ⟨ha, has⟩ := List.forall_mem_cons.mp has
    rw [List.cons_append, List.infix_cons_iff, ih has]
    refine or_iff_right fun hp => ?_
    obtain ⟨b, word, rfl⟩ := List.exists_cons_of_ne_nil hne
    obtain ⟨rfl, -⟩ := List.cons_prefix_cons.mp hp
    exact absurd (hword b List.mem_cons_self) (by rw [ha]; decide)

theorem infix_dropWhile_iff (hne : word ≠ []) (hword : ∀ a ∈ word, p a = false) :
    word <:+: as.dropWhile p ↔ word <:+: as := by
  have hsplit : as.takeWhile p ++ as.dropWhile p = as := List.takeWhile_append_dropWhile
  have htake : ∀ a ∈ as.takeWhile p, p a = true := fun a ha => List.mem_takeWhile_imp ha
  rw [← infix_append_iff htake hne hword, hsplit]

theorem prefix_of_squeeze (hx : p x = true) (hword : ∀ a ∈ word, p a = false)
    (h : word <+: squeeze p x as) : word <+: as := by
  induction word generalizing as with
  | nil => exact List.nil_prefix
  | cons w word ih =>
    obtain ⟨hw, hword⟩ := List.forall_mem_cons.mp hword
    rcases as with _ | ⟨a, as⟩
    · exact absurd (List.prefix_nil.mp h) (List.cons_ne_nil w word)
    by_cases ha : p a = true
    · rw [squeeze_cons_of_pos ha] at h
      obtain ⟨rfl, -⟩ := List.cons_prefix_cons.mp h
      rw [hx] at hw
      cases hw
    · rw [squeeze_cons_of_neg (Bool.eq_false_iff.mpr ha)] at h
      obtain ⟨rfl, hrest⟩ := List.cons_prefix_cons.mp h
      exact List.cons_prefix_cons.mpr ⟨rfl, ih hword hrest⟩

/-- **What is a word of the squeezed text is one of the text.** -/
theorem infix_of_squeeze (hx : p x = true) (hne : word ≠ []) (hword : ∀ a ∈ word, p a = false)
    (h : word <:+: squeeze p x as) : word <:+: as := by
  induction as using squeeze_induction (p := p) with
  | hnil => exact h
  | hrun a as ha ih =>
    rw [squeeze_cons_of_pos ha, ← List.singleton_append,
      infix_append_iff (List.forall_mem_singleton.mpr hx) hne hword] at h
    exact List.infix_cons ((infix_dropWhile_iff hne hword).mp (ih h))
  | hletter a as ha ih =>
    have hcons := squeeze_cons_of_neg (x := x) ha as
    rw [hcons] at h
    rcases List.infix_cons_iff.mp h with hp | hi
    · exact (prefix_of_squeeze hx hword (hcons ▸ hp)).isInfix
    · exact List.infix_cons (ih hi)

end Words

/-! ### Squeezing twice -/

section Twice
variable [DecidableEq α]

/-- The letters that meet `p`, and `x`. -/
def orEq (p : α → Bool) (x a : α) : Bool := p a || a == x

theorem dropWhile_orEq (as : List α) : (as.dropWhile p).dropWhile (orEq p x) = as.dropWhile (orEq p x) := by
  have hsplit : as.takeWhile p ++ as.dropWhile p = as := List.takeWhile_append_dropWhile
  conv_rhs => rw [← hsplit]
  refine (List.dropWhile_append_of_pos fun b hb => ?_).symm
  rw [orEq, List.mem_takeWhile_imp hb]
  rfl

/-- What the second squeezing takes away behind a letter, the first may as well. -/
theorem dropWhile_squeeze (as : List α) :
    (squeeze p x as).dropWhile (· == x) = squeeze p x (as.dropWhile (orEq p x)) := by
  induction as using squeeze_induction (p := p) with
  | hnil => rfl
  | hrun a as ha ih =>
    have hpos : orEq p x a = true := by rw [orEq, ha]; rfl
    rw [squeeze_cons_of_pos ha, List.dropWhile_cons_of_pos (p := (· == x)) (beq_self_eq_true x), ih,
      dropWhile_orEq, List.dropWhile_cons_of_pos hpos]
  | hletter a as ha ih =>
    rw [squeeze_cons_of_neg ha]
    by_cases hx : a = x
    · have hpos : orEq p x a = true := by rw [orEq, beq_iff_eq.mpr hx, Bool.or_true]
      rw [List.dropWhile_cons_of_pos (p := (· == x)) (beq_iff_eq.mpr hx), ih, List.dropWhile_cons_of_pos hpos]
    · have hneg : ¬ orEq p x a = true := by simp [orEq, ha, hx]
      rw [List.dropWhile_cons_of_neg (p := (· == x)) (by simpa using hx), List.dropWhile_cons_of_neg hneg,
        squeeze_cons_of_neg ha]

/-- **Two squeezings to one letter are one.** -/
theorem squeeze_squeeze (as : List α) : squeeze (· == x) x (squeeze p x as) = squeeze (orEq p x) x as := by
  induction as using squeeze_induction (p := orEq p x) with
  | hnil => rfl
  | hrun a as ha ih =>
    rw [squeeze_cons_of_pos ha, ← ih]
    by_cases hp : p a = true
    · rw [squeeze_cons_of_pos hp, squeeze_cons_of_pos (p := (· == x)) (beq_self_eq_true x), dropWhile_squeeze,
        dropWhile_orEq]
    · have hx : a = x := by simpa [orEq, hp] using ha
      rw [squeeze_cons_of_neg (Bool.eq_false_iff.mpr hp), hx,
        squeeze_cons_of_pos (p := (· == x)) (beq_self_eq_true x), dropWhile_squeeze]
  | hletter a as ha ih =>
    obtain ⟨hp, hx⟩ := Bool.or_eq_false_iff.mp (show (p a || a == x) = false from ha)
    rw [squeeze_cons_of_neg ha, squeeze_cons_of_neg hp, squeeze_cons_of_neg (p := (· == x)) hx, ih]

end Twice

/-! ### The length of a squeezed text -/

theorem runs_cons_of_neg {a : α} (h : p a = false) (as : List α) : runs p (a :: as) = runs p as := by
  rw [runs, h]
  exact Nat.zero_add _

theorem runs_cons_of_pos {a : α} (h : p a = true) (as : List α) :
    runs p (a :: as) = 1 + runs p (as.dropWhile p) := by
  induction as generalizing a with
  | nil => simp [runs, h]
  | cons b as ih =>
    rw [runs, h, List.head?_cons, Option.any_some]
    by_cases hb : p b = true
    · rw [hb, ih hb, List.dropWhile_cons_of_pos hb]
      exact Nat.zero_add _
    · rw [Bool.eq_false_iff.mpr hb, List.dropWhile_cons_of_neg hb]
      rfl

theorem countP_dropWhile (as : List α) : (as.dropWhile p).countP (!p ·) = as.countP (!p ·) := by
  induction as with
  | nil => rfl
  | cons a as ih =>
    by_cases ha : p a = true
    · rw [List.dropWhile_cons_of_pos ha, ih, List.countP_cons_of_neg (by simp [ha])]
    · rw [List.dropWhile_cons_of_neg ha]

/-- **A letter for each letter and one for each run.** -/
theorem length_squeeze (as : List α) : (squeeze p x as).length = as.countP (!p ·) + runs p as := by
  induction as using squeeze_induction (p := p) with
  | hnil => rfl
  | hrun a as ha ih =>
    rw [squeeze_cons_of_pos ha, List.length_cons, ih, countP_dropWhile, runs_cons_of_pos ha,
      List.countP_cons_of_neg (by simp [ha])]
    omega
  | hletter a as ha ih =>
    rw [squeeze_cons_of_neg ha, List.length_cons, ih, runs_cons_of_neg ha,
      List.countP_cons_of_pos (by simp [ha])]
    omega

end Squeeze

/-! ## Words that are joined -/

/-- Words of letters that meet `P`, with a single `x` between them. -/
def Joined (x : α) (P : α → Prop) (as : List α) : Prop :=
  ∃ words : List (List α), words ≠ [] ∧ (∀ w ∈ words, w ≠ [] ∧ ∀ a ∈ w, P a) ∧ as = [x].intercalate words

/-- No two `x` are neighbours. -/
def Alone (x : α) (as : List α) : Prop := as.IsChain fun a b => ¬ (a = x ∧ b = x)

section Joined
variable {x : α} {P : α → Prop} {as bs : List α}

theorem alone_append (h : x ∉ as) : Alone x (as ++ bs) ↔ Alone x bs := by
  induction as with
  | nil => rfl
  | cons a as ih =>
    obtain ⟨ha, has⟩ := not_or.mp (mt List.mem_cons.mpr h)
    rw [List.cons_append, Alone, List.isChain_cons]
    refine (and_iff_right fun b _ => ?_).trans (ih has)
    exact fun hab => ha hab.1.symm

/-- An `x` in the middle belongs to both sides. -/
theorem alone_split : Alone x (x :: (as ++ x :: bs) ++ [x]) ↔
    Alone x (x :: as ++ [x]) ∧ Alone x (x :: bs ++ [x]) := by
  have hassoc : x :: (as ++ x :: bs) ++ [x] = (x :: as) ++ x :: (bs ++ [x]) := by simp
  rw [hassoc]
  exact List.isChain_split

/-- A word between two `x`. -/
theorem alone_word (h : x ∉ as) : Alone x (x :: as ++ [x]) ↔ as ≠ [] := by
  rcases as with _ | ⟨a, as⟩
  · simp [Alone]
  · have hne : x ≠ a := fun he => h (he ▸ List.mem_cons_self)
    have hrest : Alone x ((a :: as) ++ [x]) := (alone_append h).mpr (List.isChain_singleton x)
    refine iff_of_true (List.isChain_cons_cons.mpr ⟨fun hab => hne hab.2.symm, hrest⟩) (List.cons_ne_nil a as)

theorem joined_word (hne : as ≠ []) (hP : ∀ a ∈ as, P a) : Joined x P as :=
  ⟨[as], List.cons_ne_nil _ _, List.forall_mem_singleton.mpr ⟨hne, hP⟩, List.intercalate_singleton.symm⟩

/-- The ends of a text that stands between two `x`. -/
theorem alone_ends : Alone x (x :: as ++ [x]) ↔
    (∃ a, as.head? = some a ∧ a ≠ x) ∧ (∃ a, as.getLast? = some a ∧ a ≠ x) ∧ Alone x as := by
  rcases as with _ | ⟨a, as⟩
  · simp [Alone]
  · have hlast := List.getLast?_eq_some_getLast (List.cons_ne_nil a as)
    rw [hlast, Alone, List.cons_append, List.isChain_cons, List.isChain_append, hlast]
    constructor
    · rintro ⟨hhead, halone, -, hend⟩
      exact ⟨⟨a, rfl, fun he => hhead a rfl ⟨rfl, he⟩⟩, ⟨_, rfl, fun he => hend _ rfl x rfl ⟨he, rfl⟩⟩, halone⟩
    · rintro ⟨⟨b, hb, hne⟩, ⟨c, hc, hne'⟩, halone⟩
      cases hb
      cases hc
      refine ⟨fun b hb hab => ?_, halone, List.isChain_singleton x, fun c hc d _ hcd => ?_⟩
      · cases hb
        exact hne hab.2
      · cases hc
        exact hne' hcd.1

theorem Joined.cons (hne : as ≠ []) (hP : ∀ a ∈ as, P a) (h : Joined x P bs) : Joined x P (as ++ x :: bs) := by
  obtain ⟨words, hwords, hall, rfl⟩ := h
  refine ⟨as :: words, List.cons_ne_nil _ _, List.forall_mem_cons.mpr ⟨⟨hne, hP⟩, hall⟩, ?_⟩
  rw [List.intercalate_cons_of_ne_nil hwords, List.append_assoc]
  rfl

/-- Joined words are one word, or one and then joined words. -/
theorem Joined.induction {Q : List α → Prop} (hword : ∀ w, w ≠ [] → (∀ a ∈ w, P a) → Q w)
    (hcons : ∀ w as, w ≠ [] → (∀ a ∈ w, P a) → Q as → Q (w ++ x :: as)) (h : Joined x P as) : Q as := by
  obtain ⟨words, hne, hall, rfl⟩ := h
  induction words with
  | nil => exact absurd rfl hne
  | cons w words ih =>
    obtain ⟨⟨hw, hP⟩, hall⟩ := List.forall_mem_cons.mp hall
    by_cases hwords : words = []
    · rw [hwords, List.intercalate_singleton]
      exact hword w hw hP
    · rw [List.intercalate_cons_of_ne_nil hwords, List.append_assoc]
      exact hcons w _ hw hP (ih hwords hall)

/-- **Joined words, seen from two neighbours at a time.** -/
theorem joined_iff [DecidableEq α] (hx : ¬ P x) :
    Joined x P as ↔ (∀ a ∈ as, P a ∨ a = x) ∧ Alone x (x :: as ++ [x]) := by
  have hnot : ∀ w : List α, (∀ a ∈ w, P a) → x ∉ w := fun w hw hmem => hx (hw x hmem)
  constructor
  · intro h
    refine Joined.induction (Q := fun as => (∀ a ∈ as, P a ∨ a = x) ∧ Alone x (x :: as ++ [x])) ?_ ?_ h
    · intro w hw hP
      exact ⟨fun a ha => Or.inl (hP a ha), (alone_word (hnot w hP)).mpr hw⟩
    · intro w as hw hP ih
      refine ⟨fun a ha => ?_, alone_split.mpr ⟨(alone_word (hnot w hP)).mpr hw, ih.2⟩⟩
      rcases List.mem_append.mp ha with ha | ha
      · exact Or.inl (hP a ha)
      · rcases List.mem_cons.mp ha with rfl | ha
        · exact Or.inr rfl
        · exact ih.1 a ha
  · rintro ⟨hall, halone⟩
    induction hn : as.length using Nat.strong_induction_on generalizing as with
    | _ n ih =>
      by_cases hmem : x ∈ as
      · obtain ⟨w, bs, rfl, hw⟩ := List.eq_append_cons_of_mem hmem
        obtain ⟨hleft, hright⟩ := alone_split.mp halone
        have hP : ∀ a ∈ w, P a := by
          intro a ha
          refine (hall a (List.mem_append_left _ ha)).resolve_right fun he => hw ?_
          rw [← he]
          exact ha
        have hrest : ∀ a ∈ bs, P a ∨ a = x := by
          intro a ha
          exact hall a (List.mem_append_right _ (List.mem_cons_of_mem _ ha))
        rw [List.length_append, List.length_cons] at hn
        exact (ih _ (by omega) hrest hright rfl).cons ((alone_word hw).mp hleft) hP
      · refine joined_word ((alone_word hmem).mp halone) fun a ha => ?_
        refine (hall a ha).resolve_right fun he => hmem ?_
        rw [← he]
        exact ha

theorem joined_append [DecidableEq α] (hx : ¬ P x) :
    Joined x P (as ++ x :: bs) ↔ Joined x P as ∧ Joined x P bs := by
  rw [joined_iff hx, joined_iff hx, joined_iff hx, alone_split]
  constructor
  · rintro ⟨hall, hleft, hright⟩
    refine ⟨⟨fun a ha => hall a (List.mem_append_left _ ha), hleft⟩, fun a ha => ?_, hright⟩
    exact hall a (List.mem_append_right _ (List.mem_cons_of_mem _ ha))
  · rintro ⟨⟨hall, hleft⟩, hall', hright⟩
    refine ⟨fun a ha => ?_, hleft, hright⟩
    rcases List.mem_append.mp ha with ha | ha
    · exact hall a ha
    · rcases List.mem_cons.mp ha with rfl | ha
      · exact Or.inr rfl
      · exact hall' a ha

end Joined

/-! ## A squeezed text -/

section
variable {p : α → Bool} {x : α} {P : α → Prop} {as : List α}

/-- Behind a squeezed run there is a letter. -/
theorem alone_squeeze (hx : p x = true) : Alone x (squeeze p x as) := by
  induction as using squeeze_induction (p := p) with
  | hnil => exact List.isChain_nil
  | hrun a as ha ih =>
    rw [squeeze_cons_of_pos ha]
    refine List.isChain_cons.mpr ⟨fun b hb hab => ?_, ih⟩
    rw [head?_squeeze] at hb
    obtain ⟨c, hc, rfl⟩ := Option.map_eq_some_iff.mp hb
    have hpc : p c = false := by
      have hd := List.head?_dropWhile_not p as
      rw [hc] at hd
      simpa using hd
    have hcx : c = x := by
      have h := hab.2
      rw [squeezed, hpc] at h
      exact h
    rw [hcx, hx] at hpc
    cases hpc
  | hletter a as ha ih =>
    rw [squeeze_cons_of_neg ha]
    refine List.isChain_cons.mpr ⟨fun b _ hab => ?_, ih⟩
    rw [hab.1, hx] at ha
    cases ha

/-- **A squeezed text is joined words** exactly when it begins and ends with a letter. -/
theorem joined_squeeze_iff [DecidableEq α] (hx : p x = true) (hP : ∀ a ∈ as, p a = false → P a)
    (hPx : ¬ P x) : Joined x P (squeeze p x as) ↔
      (∃ a, as.head? = some a ∧ p a = false) ∧ ∃ a, as.getLast? = some a ∧ p a = false := by
  have hall : ∀ a ∈ squeeze p x as, P a ∨ a = x := by
    intro a ha
    rcases mem_squeeze ha with rfl | ⟨hmem, hpa⟩
    · exact Or.inr rfl
    · exact Or.inl (hP a hmem hpa)
  have hend : ∀ o : Option α, (∃ a, o.map (squeezed p x) = some a ∧ a ≠ x) ↔
      ∃ a, o = some a ∧ p a = false := by
    intro o
    constructor
    · rintro ⟨b, hb, hne⟩
      obtain ⟨a, rfl, rfl⟩ := Option.map_eq_some_iff.mp hb
      refine ⟨a, rfl, Bool.eq_false_iff.mpr fun hpa => hne (if_pos hpa)⟩
    · rintro ⟨a, rfl, hpa⟩
      have hkeep : squeezed p x a = a := if_neg (by rw [hpa]; exact Bool.false_ne_true)
      refine ⟨a, congrArg some hkeep, fun he => ?_⟩
      rw [he, hx] at hpa
      cases hpa
  rw [joined_iff hPx, alone_ends, head?_squeeze, getLast?_squeeze, hend, hend]
  exact ⟨fun h => ⟨h.2.1, h.2.2.1⟩, fun h => ⟨hall, h.1, h.2, alone_squeeze hx⟩⟩

end

end Neltrik.Lib.Runs
