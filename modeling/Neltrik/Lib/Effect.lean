import Mathlib.Logic.Basic

/-! # Effects: operations that change a state and may fail

An operation takes a state to a result or an error and to the state after it; what was changed before
an error stays changed. `atomically` puts back what a transaction covers, `onError` runs a
compensation and throws the error again.

`Triple P m Q E`: from a state that meets `P` the operation returns a result and a state that meet
`Q`, or throws an error in a state that meets `E`. There is one rule for each way to build an
operation, `Triple.forEach` being the rule of the loops. `Reads s m R`: from `s` the operation changes
nothing and what it returns meets `R`; `Triple.bind_reads` puts it before any other operation.
`Settles c m s R` says in addition that it returns exactly when `c` holds; `Settles.bind_cases` runs
what comes after it. `Alike R m s m' s'` compares two runs.
-/

namespace Neltrik.Lib

universe u v

/-- An operation on the state `σ` with errors `ε` and results `α`. -/
def Effect (σ ε α : Type u) : Type u := σ → Except ε α × σ

namespace Effect

variable {σ ε α β : Type u}

theorem except_bind_eq_ok {x : Except ε α} {f : α → Except ε β} {b : β} :
    x >>= f = .ok b ↔ ∃ a, x = .ok a ∧ f a = .ok b := by
  cases x with
  | error e => exact ⟨nofun, fun ⟨_, h, _⟩ => nomatch h⟩
  | ok a => exact ⟨fun h => ⟨a, rfl, h⟩, fun ⟨_, h, hf⟩ => by cases h; exact hf⟩

theorem except_map_eq_ok {x : Except ε α} {f : α → β} {b : β} :
    x.map f = .ok b ↔ ∃ a, x = .ok a ∧ f a = b := by
  cases x with
  | error e => exact ⟨nofun, fun ⟨_, h, _⟩ => nomatch h⟩
  | ok a => exact ⟨fun h => ⟨a, rfl, by cases h; rfl⟩, fun ⟨_, h, hf⟩ => by cases h; rw [← hf]; rfl⟩

theorem toOption_eq_some {x : Except ε α} {a : α} : x.toOption = some a ↔ x = .ok a := by
  cases x with
  | error e => exact ⟨nofun, nofun⟩
  | ok b => exact ⟨fun h => by cases h; rfl, fun h => by cases h; rfl⟩

instance : Monad (Effect σ ε) where
  pure a := fun s => (.ok a, s)
  bind m f := fun s =>
    match m s with
    | (.ok a, s') => f a s'
    | (.error e, s') => (.error e, s')

theorem bind_of_ok {m : Effect σ ε α} {f : α → Effect σ ε β} {s s' : σ} {a : α}
    (h : m s = (.ok a, s')) : (m >>= f) s = f a s' := by
  show (match m s with
    | (.ok a, s') => f a s'
    | (.error e, s') => (.error e, s')) = f a s'
  rw [h]

theorem bind_of_error {m : Effect σ ε α} {f : α → Effect σ ε β} {s s' : σ} {e : ε}
    (h : m s = (.error e, s')) : (m >>= f) s = (.error e, s') := by
  show (match m s with
    | (.ok a, s') => f a s'
    | (.error e, s') => (.error e, s')) = (.error e, s')
  rw [h]

instance : LawfulMonad (Effect σ ε) := by
  refine LawfulMonad.mk' (Effect σ ε) (fun m => ?_) (fun _ _ => rfl) fun m f g => ?_
  · funext s
    rcases hm : m s with ⟨e | a, s'⟩
    · exact bind_of_error hm
    · exact bind_of_ok hm
  · funext s
    rcases hm : m s with ⟨e | a, s'⟩
    · rw [bind_of_error hm, bind_of_error (bind_of_error hm)]
    · rw [bind_of_ok hm]
      rcases hf : f a s' with ⟨e | b, s''⟩
      · rw [bind_of_error hf, bind_of_error ((bind_of_ok hm).trans hf)]
      · rw [bind_of_ok hf, bind_of_ok ((bind_of_ok hm).trans hf)]

/-- The state. -/
def read : Effect σ ε σ := fun s => (.ok s, s)

theorem read_bind (f : σ → Effect σ ε α) (s : σ) : (read >>= f) s = f s s := rfl

def throw (e : ε) : Effect σ ε α := fun s => (.error e, s)

/-- A computation that does not touch the state. -/
def lift (x : Except ε α) : Effect σ ε α := fun s => (x, s)

/-- A change of the state that may be refused. -/
def change (g : σ → Except ε σ) : Effect σ ε PUnit := fun s =>
  match g s with
  | .ok s' => (.ok ⟨⟩, s')
  | .error e => (.error e, s)

theorem change_of_ok {g : σ → Except ε σ} {s s' : σ} (h : g s = .ok s') :
    change g s = (.ok ⟨⟩, s') := by
  unfold change
  rw [h]

theorem change_of_error {g : σ → Except ε σ} {s : σ} {e : ε} (h : g s = .error e) :
    change g s = (.error e, s) := by
  unfold change
  rw [h]

theorem change_cases (g : σ → Except ε σ) (s : σ) :
    (∃ s', change g s = (.ok ⟨⟩, s')) ∨ ∃ e, change g s = (.error e, s) := by
  rcases hg : g s with e | s'
  · exact Or.inr ⟨e, change_of_error hg⟩
  · exact Or.inl ⟨s', change_of_ok hg⟩

/-- The elements of a list in order, until one throws. -/
def forEach {α : Type v} (f : α → Effect σ ε PUnit) : List α → Effect σ ε PUnit
  | [] => pure ⟨⟩
  | a :: as => do
    f a
    forEach f as

/-- **The run of a loop none of whose passes throws**: `I s as` is what holds before the passes of `as`. -/
theorem forEach_of_ok {α : Type v} {f : α → Effect σ ε PUnit} {g : σ → α → σ} {I : σ → List α → Prop}
    (h : ∀ s a as, I s (a :: as) → f a s = (.ok ⟨⟩, g s a) ∧ I (g s a) as) {s : σ} {as : List α} (hs : I s as) :
    forEach f as s = (.ok ⟨⟩, as.foldl g s) := by
  induction as generalizing s with
  | nil => rfl
  | cons a as ih =>
    obtain ⟨hf, hs'⟩ := h s a as hs
    exact (bind_of_ok hf).trans (ih hs')

/-- `m` as a transaction: when it throws, `restore before after` is the state. -/
def atomically (restore : σ → σ → σ) (m : Effect σ ε α) : Effect σ ε α := fun s =>
  match m s with
  | (.ok a, s') => (.ok a, s')
  | (.error e, s') => (.error e, restore s s')

/-- When `m` throws, `h` runs, its own outcome is dropped and the error of `m` is thrown. -/
def onError (m : Effect σ ε α) (h : Effect σ ε PUnit) : Effect σ ε α := fun s =>
  match m s with
  | (.ok a, s') => (.ok a, s')
  | (.error e, s') => (.error e, (h s').2)

/-- What `m` returns or throws. -/
def attempt (m : Effect σ ε α) : Effect σ ε (Except ε α) := fun s => (.ok (m s).1, (m s).2)

theorem attempt_bind (f : Except ε α → Effect σ ε β) (m : Effect σ ε α) (s : σ) :
    (attempt m >>= f) s = f (m s).1 (m s).2 := rfl

/-! ## Triples -/

/-- Partial correctness with a postcondition for the errors. -/
def Triple (P : σ → Prop) (m : Effect σ ε α) (Q : α → σ → Prop) (E : ε → σ → Prop) : Prop :=
  ∀ s, P s → (∀ a s', m s = (.ok a, s') → Q a s') ∧ ∀ e s', m s = (.error e, s') → E e s'

variable {P P' : σ → Prop} {Q Q' : α → σ → Prop} {E E' : ε → σ → Prop} {m : Effect σ ε α}

theorem Triple.conseq (h : Triple P m Q E) (hP : ∀ s, P' s → P s) (hQ : ∀ a s, Q a s → Q' a s)
    (hE : ∀ e s, E e s → E' e s) : Triple P' m Q' E' := fun s hs =>
  ⟨fun a s' hm => hQ a s' ((h s (hP s hs)).1 a s' hm),
    fun e s' hm => hE e s' ((h s (hP s hs)).2 e s' hm)⟩

/-- A fact that does not speak of the state. -/
theorem Triple.assume {c : Prop} (h : c → Triple P m Q E) : Triple (fun s => P s ∧ c) m Q E :=
  fun s hs => h hs.2 s hs.1

theorem Triple.pure {a : α} (h : ∀ s, P s → Q a s) : Triple P (pure a) Q E := by
  intro s hs
  refine ⟨fun b s' hm => ?_, fun e s' hm => ?_⟩ <;> cases hm
  exact h _ hs

theorem Triple.throw {e : ε} (h : ∀ s, P s → E e s) : Triple P (throw e : Effect σ ε α) Q E := by
  intro s hs
  refine ⟨fun b s' hm => ?_, fun e s' hm => ?_⟩ <;> cases hm
  exact h _ hs

theorem Triple.bind {R : α → σ → Prop} {f : α → Effect σ ε β} {Q : β → σ → Prop}
    (hm : Triple P m R E) (hf : ∀ a, Triple (R a) (f a) Q E) : Triple P (m >>= f) Q E := by
  intro s hs
  obtain ⟨hok, herr⟩ := hm s hs
  rcases hr : m s with ⟨_ | _, s₁⟩
  · rw [bind_of_error hr]
    refine ⟨fun b s' h' => ?_, fun e s' h' => ?_⟩ <;> cases h'
    exact herr _ _ hr
  · rw [bind_of_ok hr]
    exact hf _ s₁ (hok _ _ hr)

theorem Triple.read {Q : σ → σ → Prop} (h : ∀ s, P s → Q s s) :
    Triple P (read : Effect σ ε σ) Q E := by
  intro s hs
  refine ⟨fun b s' hm => ?_, fun e s' hm => ?_⟩ <;> cases hm
  exact h _ hs

theorem Triple.lift {x : Except ε α} (hok : ∀ a, x = .ok a → ∀ s, P s → Q a s)
    (herr : ∀ e, x = .error e → ∀ s, P s → E e s) : Triple P (lift x : Effect σ ε α) Q E := by
  intro s hs
  refine ⟨fun b s' hm => ?_, fun e s' hm => ?_⟩
  · obtain ⟨hx, rfl⟩ := Prod.mk.inj hm
    exact hok b hx _ hs
  · obtain ⟨hx, rfl⟩ := Prod.mk.inj hm
    exact herr e hx _ hs

theorem Triple.change {g : σ → Except ε σ} {Q : PUnit → σ → Prop}
    (hok : ∀ s s', P s → g s = .ok s' → Q ⟨⟩ s') (herr : ∀ s e, P s → g s = .error e → E e s) :
    Triple P (change g) Q E := by
  intro s hs
  rcases hg : g s with e | s₁
  · rw [change_of_error hg]
    refine ⟨fun b s' h' => ?_, fun e s' h' => ?_⟩ <;> cases h'
    exact herr _ _ hs hg
  · rw [change_of_ok hg]
    refine ⟨fun b s' h' => ?_, fun e s' h' => ?_⟩ <;> cases h'
    exact hok _ _ hs hg

theorem Triple.ite {c : Prop} [Decidable c] {m' : Effect σ ε α} (hm : c → Triple P m Q E)
    (hm' : ¬c → Triple P m' Q E) : Triple P (if c then m else m') Q E := by
  by_cases hc : c
  · rw [if_pos hc]; exact hm hc
  · rw [if_neg hc]; exact hm' hc

/-- **The rule of the loops**: what each turn keeps, the loop keeps. -/
theorem Triple.forEach {α : Type v} {f : α → Effect σ ε PUnit} {as : List α}
    (h : ∀ a ∈ as, Triple P (f a) (fun _ => P) E) : Triple P (forEach f as) (fun _ => P) E := by
  induction as with
  | nil => exact Triple.pure fun _ hs => hs
  | cons a as ih =>
    refine Triple.bind (R := fun _ => P) (h a (by simp)) fun _ => ?_
    exact ih fun a' ha' => h a' (by simp [ha'])

theorem Triple.atomically {restore : σ → σ → σ} {F : σ → ε → σ → Prop}
    (h : ∀ s₀, P s₀ → Triple (fun s => s = s₀) m Q (F s₀))
    (hE : ∀ s₀ e s, P s₀ → F s₀ e s → E e (restore s₀ s)) : Triple P (atomically restore m) Q E := by
  intro s hs
  obtain ⟨hok, herr⟩ := h s hs s rfl
  unfold Effect.atomically
  rcases hr : m s with ⟨_ | _, s₁⟩
  · dsimp only
    refine ⟨fun b s' h' => ?_, fun e s' h' => ?_⟩ <;> cases h'
    exact hE _ _ _ hs (herr _ _ hr)
  · dsimp only
    refine ⟨fun b s' h' => ?_, fun e s' h' => ?_⟩ <;> cases h'
    exact hok _ _ hr

theorem Triple.onError {h : Effect σ ε PUnit} {R : σ → Prop} (hm : Triple P m Q (fun _ => R))
    (hh : ∀ e, Triple R h (fun _ => E e) (fun _ => E e)) : Triple P (onError m h) Q E := by
  intro s hs
  obtain ⟨hok, herr⟩ := hm s hs
  unfold Effect.onError
  rcases hr : m s with ⟨e | _, s₁⟩
  · dsimp only
    refine ⟨fun b s' h' => ?_, fun e s' h' => ?_⟩ <;> cases h'
    rcases hc : h s₁ with ⟨_ | _, s₂⟩
    · exact (hh e s₁ (herr _ _ hr)).2 _ _ hc
    · exact (hh e s₁ (herr _ _ hr)).1 _ _ hc
  · dsimp only
    refine ⟨fun b s' h' => ?_, fun e s' h' => ?_⟩ <;> cases h'
    exact hok _ _ hr

/-- A triple is one about each state. -/
theorem Triple.of_forall (h : ∀ s₀, P s₀ → Triple (fun s => s = s₀) m Q E) : Triple P m Q E :=
  fun s hs => h s hs s rfl

/-- What a triple says of the state after, however the operation ended. -/
theorem Triple.snd {I : σ → Prop} (h : Triple P m (fun _ => I) (fun _ => I)) {s : σ} (hs : P s) :
    I (m s).2 := by
  rcases hr : m s with ⟨_ | _, s₁⟩
  · exact (h s hs).2 _ _ hr
  · exact (h s hs).1 _ _ hr

theorem Triple.bind_read {s₀ : σ} {f : σ → Effect σ ε β} {Q : β → σ → Prop}
    (h : Triple (fun s => s = s₀) (f s₀) Q E) :
    Triple (fun s => s = s₀) (Effect.read >>= f) Q E := by
  rintro s rfl
  exact h s rfl

/-! ## Operations that only read -/

def Reads (s₀ : σ) (m : Effect σ ε α) (R : α → Prop) : Prop :=
  Triple (fun s => s = s₀) m (fun a s => s = s₀ ∧ R a) fun _ s => s = s₀

section Reads
variable {s₀ : σ} {R R' : α → Prop}

theorem Triple.bind_reads {f : α → Effect σ ε β} {Q : β → σ → Prop} (hm : Reads s₀ m R)
    (hE : ∀ e, E e s₀) (hf : ∀ a, R a → Triple (fun s => s = s₀) (f a) Q E) :
    Triple (fun s => s = s₀) (m >>= f) Q E := by
  refine Triple.bind (R := fun a s => s = s₀ ∧ R a) ?_ fun a => Triple.assume (hf a)
  exact hm.conseq (fun _ hs => hs) (fun _ _ h => h) fun e s hs => by rw [hs]; exact hE e

theorem Reads.bind {f : α → Effect σ ε β} {R' : β → Prop} (hm : Reads s₀ m R)
    (hf : ∀ a, R a → Reads s₀ (f a) R') : Reads s₀ (m >>= f) R' :=
  Triple.bind_reads hm (fun _ => rfl) hf

theorem Reads.mono (h : Reads s₀ m R) (hR : ∀ a, R a → R' a) : Reads s₀ m R' :=
  h.conseq (fun _ hs => hs) (fun a _ ha => ⟨ha.1, hR a ha.2⟩) fun _ _ hs => hs

/-- The state is as it was. -/
theorem Reads.snd (h : Reads s₀ m R) : (m s₀).2 = s₀ :=
  Triple.snd (I := (· = s₀)) (h.conseq (fun _ hs => hs) (fun _ _ ha => ha.1) fun _ _ hs => hs) rfl

/-- What is returned meets `R`. -/
theorem Reads.of_ok (h : Reads s₀ m R) {a : α} (ha : (m s₀).1 = .ok a) : R a :=
  ((h s₀ rfl).1 a (m s₀).2 (Prod.ext ha rfl)).2

theorem Reads.read : Reads s₀ (Effect.read : Effect σ ε σ) fun s => s = s₀ :=
  Triple.read fun _ hs => ⟨hs, hs⟩

theorem Reads.pure {a : α} (h : R a) : Reads s₀ (Pure.pure a : Effect σ ε α) R :=
  Triple.pure fun _ hs => ⟨hs, h⟩

theorem Reads.throw {e : ε} : Reads s₀ (Effect.throw e : Effect σ ε α) R :=
  Triple.throw fun _ hs => hs

theorem Reads.lift {x : Except ε α} (h : ∀ a, x = .ok a → R a) : Reads s₀ (Effect.lift x) R :=
  Triple.lift (fun a hx _ hs => ⟨hs, h a hx⟩) fun _ _ _ hs => hs

theorem Reads.ite {c : Prop} [Decidable c] {m' : Effect σ ε α} (hm : c → Reads s₀ m R)
    (hm' : ¬c → Reads s₀ m' R) : Reads s₀ (if c then m else m') R :=
  Triple.ite hm hm'

end Reads

/-! ## Operations that only read, and when they throw -/

/-- The operation changes nothing; it returns what meets `R` if `c` holds, and throws if not. -/
structure Settles (c : Prop) (m : Effect σ ε α) (s : σ) (R : α → Prop) : Prop where
  ok : c → ∃ a, m s = (.ok a, s) ∧ R a
  error : ¬c → ∃ e, m s = (.error e, s)

section Settles
variable {c d : Prop} {s : σ} {f : α → Effect σ ε β} {R : α → Prop} {R' : β → Prop}

theorem Settles.of_eq {a : α} (h : m s = (.ok a, s)) : Settles True m s (· = a) :=
  ⟨fun _ => ⟨a, h, rfl⟩, fun h => absurd trivial h⟩

theorem Settles.iff (h : Settles c m s R) (hc : c ↔ d) : Settles d m s R :=
  ⟨fun hd => h.ok (hc.mpr hd), fun hd => h.error fun hc' => hd (hc.mp hc')⟩

theorem Settles.mono (h : Settles c m s R) {R' : α → Prop} (hR : ∀ a, R a → R' a) : Settles c m s R' := by
  refine ⟨fun hc => ?_, h.error⟩
  obtain ⟨a, ha, hRa⟩ := h.ok hc
  exact ⟨a, ha, hR a hRa⟩

theorem Settles.bind_cases (hm : Settles c m s R) (f : α → Effect σ ε β) :
    (c ∧ ∃ a, R a ∧ (m >>= f) s = f a s) ∨ (¬c ∧ ∃ e, (m >>= f) s = (.error e, s)) := by
  by_cases hc : c
  · obtain ⟨a, ha, hR⟩ := hm.ok hc
    exact Or.inl ⟨hc, a, hR, bind_of_ok ha⟩
  · obtain ⟨e, he⟩ := hm.error hc
    exact Or.inr ⟨hc, e, bind_of_error he⟩

theorem Settles.bind (hm : Settles c m s R) (hf : ∀ a, R a → Settles d (f a) s R') :
    Settles (c ∧ d) (m >>= f) s R' := by
  rcases hm.bind_cases f with ⟨hc, a, hR, hrun⟩ | ⟨hc, e, hrun⟩
  · refine ⟨fun h => ?_, fun h => ?_⟩
    · rw [hrun]
      exact (hf a hR).ok h.2
    · rw [hrun]
      exact (hf a hR).error fun hd => h ⟨hc, hd⟩
  · exact ⟨fun h => absurd h.1 hc, fun _ => ⟨e, hrun⟩⟩

theorem Settles.map {g : α → β} (hm : Settles c m s R) (hg : ∀ a, R a → R' (g a)) :
    Settles c (m >>= fun a => pure (g a)) s R' :=
  (hm.bind fun a ha => ⟨fun _ => ⟨g a, rfl, hg a ha⟩, fun h => absurd trivial h⟩).iff (iff_of_eq (and_true c))

theorem Settles.lift {x : Except ε α} :
    Settles (x.toOption.isSome = true) (Effect.lift x) s (x = .ok ·) := by
  cases x with
  | error e => exact ⟨nofun, fun _ => ⟨e, rfl⟩⟩
  | ok a => exact ⟨fun _ => ⟨a, rfl, rfl⟩, fun h => absurd rfl h⟩

theorem Settles.bind_read {f : σ → Effect σ ε α} (h : Settles c (f s) s R) :
    Settles c (Effect.read >>= f) s R := ⟨h.ok, h.error⟩

end Settles

/-! ## Two runs -/

/-- `m` from `s` and `m'` from `s'` return the same, or throw the same, in states that `R` relates. -/
structure Alike (R : σ → σ → Prop) (m : Effect σ ε α) (s : σ) (m' : Effect σ ε α) (s' : σ) : Prop where
  result : (m s).1 = (m' s').1
  state : R (m s).2 (m' s').2

section Alike
variable {R : σ → σ → Prop} {s s' : σ} {f f' : α → Effect σ ε β}

theorem Alike.pure {a : α} (h : R s s') : Alike R (Pure.pure a : Effect σ ε α) s (Pure.pure a) s' := ⟨rfl, h⟩

theorem Alike.throw {e : ε} (h : R s s') :
    Alike R (Effect.throw e : Effect σ ε α) s (Effect.throw e) s' := ⟨rfl, h⟩

theorem Alike.ite {c : Prop} [Decidable c] {m₁ m₂ m₁' m₂' : Effect σ ε α} (h₁ : c → Alike R m₁ s m₁' s')
    (h₂ : ¬c → Alike R m₂ s m₂' s') : Alike R (if c then m₁ else m₂) s (if c then m₁' else m₂') s' := by
  by_cases hc : c
  · rw [if_pos hc, if_pos hc]
    exact h₁ hc
  · rw [if_neg hc, if_neg hc]
    exact h₂ hc

theorem Alike.bind_read {g g' : σ → Effect σ ε α} (h : Alike R (g s) s (g' s') s') :
    Alike R (Effect.read >>= g) s (Effect.read >>= g') s' := ⟨h.result, h.state⟩

theorem Alike.bind_lift {x : Except ε α} (hR : R s s') (h : ∀ a, x = .ok a → Alike R (f a) s (f' a) s') :
    Alike R (Effect.lift x >>= f) s (Effect.lift x >>= f') s' := by
  rcases hx : x with e | a
  · exact ⟨rfl, hR⟩
  · exact ⟨(h a hx).result, (h a hx).state⟩

theorem Alike.bind {m m' : Effect σ ε α} (hm : Alike R m s m' s')
    (h : ∀ a s₁ s₁', m s = (.ok a, s₁) → m' s' = (.ok a, s₁') → R s₁ s₁' → Alike R (f a) s₁ (f' a) s₁') :
    Alike R (m >>= f) s (m' >>= f') s' := by
  obtain ⟨hresult, hstate⟩ := hm
  rcases hr : m s with ⟨e | a, s₁⟩ <;> rcases hr' : m' s' with ⟨e' | a', s₁'⟩
  all_goals rw [hr, hr'] at hresult hstate
  · rw [← Except.error.inj hresult] at hr'
    constructor
    · rw [bind_of_error hr, bind_of_error hr']
    · rw [bind_of_error hr, bind_of_error hr']
      exact hstate
  · exact absurd hresult nofun
  · exact absurd hresult nofun
  · rw [← Except.ok.inj hresult] at hr'
    have ha := h a s₁ s₁' hr hr' hstate
    constructor
    · rw [bind_of_ok hr, bind_of_ok hr']
      exact ha.result
    · rw [bind_of_ok hr, bind_of_ok hr']
      exact ha.state

/-- Two changes that are both made, or refused for the same reason. -/
theorem Alike.change {g g' : σ → Except ε σ} (hR : R s s')
    (h : (∃ s₁ s₁', g s = .ok s₁ ∧ g' s' = .ok s₁' ∧ R s₁ s₁') ∨ ∃ e, g s = .error e ∧ g' s' = .error e) :
    Alike R (Effect.change g) s (Effect.change g') s' := by
  rcases h with ⟨s₁, s₁', hg, hg', hR'⟩ | ⟨e, hg, hg'⟩
  · constructor
    · rw [change_of_ok hg, change_of_ok hg']
    · rw [change_of_ok hg, change_of_ok hg']
      exact hR'
  · constructor
    · rw [change_of_error hg, change_of_error hg']
    · rw [change_of_error hg, change_of_error hg']
      exact hR

end Alike

end Effect

end Neltrik.Lib
