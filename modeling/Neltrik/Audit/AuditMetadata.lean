import Neltrik.Lib.IsoInstant
import Neltrik.Lib.Walk
import Neltrik.Shared.Json

/-! # The metadata of an audit entry

The values of JavaScript are primitives or references into a heap, so that they may be shared and go round in
cycles. `create` looks for a value that JSON does not have, depth first, and takes the own enumerable
properties of any object that is no array; it then keeps a structured clone.

`create_exact_iff`: with a stack deep enough, `create` takes a JSON object, which then survives its
serialisation, and refuses anything else with an `InvalidAuditMetadataError`, exactly when the value is a JSON
object without `-0`, or no object at all, or when the walk meets something that JSON does not have before it
enters a cycle. -/

namespace Neltrik.Audit

open Neltrik.Lib Neltrik.Lib.Walk Neltrik.Shared

/-! ## Values -/

/-- A number of JavaScript. -/
inductive Num where
  | finite (q : Rat)
  | negZero
  | nan
  | infinity (negative : Bool)
  deriving DecidableEq

/-- A value, over a heap with `n` objects. -/
inductive Value (n : ℕ) where
  | undefined
  | null
  | bool (b : Bool)
  | number (x : Num)
  | string (s : String)
  | bigint (i : ℤ)
  | symbol (description : String)
  | function
  | ref (a : Fin n)
  deriving DecidableEq

/-- An object: a hole of an array is `none`, the entries are the own enumerable properties in their order,
and an invalid date has no time. -/
inductive Cell (n : ℕ) where
  | array (items : List (Option (Value n)))
  | plain (entries : List (String × Value n))
  | classInstance (className : String) (entries : List (String × Value n))
  | date (time : Option ℤ)
  | map (entries : List (Value n × Value n))
  deriving DecidableEq

/-- The objects by their addresses. -/
abbrev Heap (n : ℕ) := Fin n → Cell n

/-- What may be thrown. -/
inductive Thrown where
  | invalidAuditMetadata
  | rangeError
  | typeError
  | dataClone
  deriving DecidableEq

variable {n : ℕ}

/-! ## The validator -/

/-- `ensureIsObject`; the type of a function is another one. -/
def ensureIsObject (h : Heap n) : Value n → Except Thrown Unit
  | .ref a =>
    match h a with
    | .array _ => .error .invalidAuditMetadata
    | _ => .ok ()
  | _ => .error .invalidAuditMetadata

/-- What `forEach` of an array goes through, and `Object.values`. -/
def Cell.values : Cell n → List (Value n)
  | array items => items.filterMap id
  | plain entries | classInstance _ entries => entries.map Prod.snd
  | date _ | map _ => []

/-- `ensureIsJsonValue`, with the frames that are left on the stack. -/
def ensureIsJsonValue (h : Heap n) : ℕ → Value n → Except Thrown Unit
  | 0, _ => .error .rangeError
  | stack + 1, value =>
    match value with
    | .null | .string _ | .bool _ => .ok ()
    | .number (.finite _) | .number .negZero => .ok ()
    | .number _ => .error .invalidAuditMetadata
    | .ref a => (h a).values.forM (ensureIsJsonValue h stack)
    | .undefined | .bigint _ | .symbol _ | .function => .error .invalidAuditMetadata

/-! ## Cloning -/

/-- What `structuredClone` goes through. -/
def Cell.contents : Cell n → List (Value n)
  | array items => items.filterMap id
  | plain entries | classInstance _ entries => entries.map Prod.snd
  | date _ => []
  | map entries => entries.flatMap fun (key, value) => [key, value]

/-- The values an object holds. -/
def Value.contents (h : Heap n) : Value n → List (Value n)
  | .ref a => (h a).contents
  | _ => []

/-- The values that so many steps lead to. -/
def reachable (h : Heap n) : ℕ → List (Value n) → List (Value n)
  | 0, values => values
  | k + 1, values => values ++ reachable h k (values.flatMap (Value.contents h))

/-- It is neither a function nor a symbol. -/
def Value.isCloneable : Value n → Bool
  | .function | .symbol _ => false
  | _ => true

/-- The class of an object is not cloned. -/
def Cell.clone : Cell n → Cell n
  | classInstance _ entries => plain entries
  | cell => cell

/-- A value and the heap it is in. -/
structure Copy (n : ℕ) where
  heap : Heap n
  value : Value n

/-- The objects are copied one for one, each in its place; no path without a detour is longer than there are
objects. -/
def structuredClone (h : Heap n) (value : Value n) : Except Thrown (Copy n) :=
  if (reachable h n [value]).all Value.isCloneable then .ok ⟨fun a => (h a).clone, value⟩
  else .error .dataClone

/-! ## The value object -/

/-- The copy that is kept. -/
structure AuditMetadata (n : ℕ) where
  metadata : Copy n

/-- `AuditMetadata.create`. -/
def AuditMetadata.create (h : Heap n) (stack : ℕ) (value : Value n) : Except Thrown (AuditMetadata n) := do
  ensureIsObject h value
  ensureIsJsonValue h stack value
  return ⟨← structuredClone h value⟩

/-- `AuditMetadata.toJSON`. -/
def AuditMetadata.toJSON (m : AuditMetadata n) : Except Thrown (Copy n) :=
  structuredClone m.metadata.heap m.metadata.value

/-! ## Serialisation -/

/-- `JSON.parse(JSON.stringify(value))`, below the objects of `path`; what has no text is `none`. -/
def reparse (h : Heap n) : ℕ → List (Fin n) → Value n → Except Thrown (Option JsonValue)
  | 0, _, _ => .error .rangeError
  | stack + 1, path, value =>
    match value with
    | .null => .ok (some .null)
    | .bool b => .ok (some (.bool b))
    | .string s => .ok (some (.string s))
    | .number (.finite q) => .ok (some (.number q))
    | .number .negZero => .ok (some (.number 0))
    | .number _ => .ok (some .null)
    | .undefined | .symbol _ | .function => .ok none
    | .bigint _ => .error .typeError
    | .ref a =>
      if a ∈ path then .error .typeError
      else
        match h a with
        | .array items => do
          let items ← items.mapM fun item =>
            match item with
            | none => .ok .null
            | some v => (reparse h stack (a :: path) v).map (·.getD .null)
          return some (.array items)
        | .plain entries | .classInstance _ entries => do
          let entries ← entries.mapM fun (key, v) => (reparse h stack (a :: path) v).map (·.map fun j => (key, j))
          return some (.object (entries.filterMap id))
        | .date time => .ok (some ((time.bind IsoInstant.toISOString).elim .null .string))
        | .map _ => .ok (some (.object []))

/-! ## JSON objects -/

/-- A value whose leaves are strings, numbers, booleans and `null`, under plain objects and arrays. -/
inductive IsJson (h : Heap n) : Value n → Prop
  | null : IsJson h .null
  | bool (b : Bool) : IsJson h (.bool b)
  | string (s : String) : IsJson h (.string s)
  | finite (q : Rat) : IsJson h (.number (.finite q))
  | negZero : IsJson h (.number .negZero)
  | array {a : Fin n} {vs : List (Value n)} (ha : h a = .array (vs.map some)) (hvs : ∀ v ∈ vs, IsJson h v) :
      IsJson h (.ref a)
  | plain {a : Fin n} {entries : List (String × Value n)} (ha : h a = .plain entries)
      (he : ∀ e ∈ entries, IsJson h e.2) : IsJson h (.ref a)

def IsJsonObject (h : Heap n) (v : Value n) : Prop :=
  IsJson h v ∧ ∃ a entries, v = .ref a ∧ h a = .plain entries

/-- The value is this JSON value, part by part. Nothing that JSON has is `-0`. -/
inductive Denotes (h : Heap n) : Value n → JsonValue → Prop
  | null : Denotes h .null .null
  | bool (b : Bool) : Denotes h (.bool b) (.bool b)
  | string (s : String) : Denotes h (.string s) (.string s)
  | number (q : Rat) : Denotes h (.number (.finite q)) (.number q)
  | array {a : Fin n} (ps : List (Value n × JsonValue)) (ha : h a = .array (ps.map fun p => some p.1))
      (hps : ∀ p ∈ ps, Denotes h p.1 p.2) : Denotes h (.ref a) (.array (ps.map fun p => p.2))
  | plain {a : Fin n} (ps : List (String × Value n × JsonValue))
      (ha : h a = .plain (ps.map fun p => (p.1, p.2.1))) (hps : ∀ p ∈ ps, Denotes h p.2.1 p.2.2) :
      Denotes h (.ref a) (.object (ps.map fun p => (p.1, p.2.2)))

/-- What `toJSON` gives is what is read back from its text. -/
def RoundTrips (m : AuditMetadata n) : Prop :=
  ∃ t, m.toJSON = .ok t ∧ ∃ j, (∃ enough, ∀ stack, enough ≤ stack → reparse t.heap stack [] t.value = .ok (some j)) ∧
    Denotes t.heap t.value j

/-- With a stack deep enough, `create` takes the value if it is a JSON object, and else refuses it. -/
def CreateExact (h : Heap n) (v : Value n) : Prop :=
  ∃ enough, ∀ stack, enough ≤ stack →
    (IsJsonObject h v → ∃ m, AuditMetadata.create h stack v = .ok m ∧ RoundTrips m) ∧
    (¬ IsJsonObject h v → AuditMetadata.create h stack v = .error .invalidAuditMetadata)

/-- Not an object, or an array. -/
def NotRecord (h : Heap n) (v : Value n) : Prop := ∀ a, v = .ref a → ∃ items, h a = .array items

/-- A value that JSON does not have. -/
def isBad : Value n → Bool
  | .undefined | .bigint _ | .symbol _ | .function => true
  | .number .nan | .number (.infinity _) => true
  | _ => false

/-- The values that are looked at next. -/
def children (h : Heap n) : Value n → List (Value n)
  | .ref a => (h a).values
  | _ => []

/-! ## The validator is a walk -/

section
variable {h : Heap n} {v : Value n}

/-- What an outcome throws. -/
def thrownBy : Outcome → Except Thrown Unit
  | .done => .ok ()
  | .found => .error .invalidAuditMetadata
  | .overflow => .error .rangeError

theorem forM_eq_walkAll {f : Value n → Except Thrown Unit} {g : Value n → Outcome}
    (hfg : ∀ v, f v = thrownBy (g v)) (vs : List (Value n)) : vs.forM f = thrownBy (walkAll g vs) := by
  induction vs with
  | nil => rfl
  | cons v vs ih =>
    show (f v >>= fun _ => vs.forM f) = _
    rw [hfg v, walkAll]
    cases g v with
    | done => exact ih
    | found | overflow => rfl

theorem ensureIsJsonValue_eq (h : Heap n) (k : ℕ) (v : Value n) :
    ensureIsJsonValue h k v = thrownBy (walk isBad (children h) k v) := by
  induction k generalizing v with
  | zero => rfl
  | succ k ih =>
    rw [walk_succ]
    cases v with
    | ref a => exact forM_eq_walkAll ih (h a).values
    | number x => cases x <;> rfl
    | undefined | null | bool | string | bigint | symbol | function => rfl

theorem ensureIsObject_of_notRecord (hv : NotRecord h v) : ensureIsObject h v = .error .invalidAuditMetadata := by
  cases v with
  | ref a =>
    obtain ⟨items, ha⟩ := hv a rfl
    rw [ensureIsObject, ha]
  | undefined | null | bool | number | string | bigint | symbol | function => rfl

theorem ensureIsObject_of_record (hv : ¬ NotRecord h v) : ensureIsObject h v = .ok () := by
  cases v with
  | ref a =>
    rw [ensureIsObject]
    cases ha : h a with
    | array items => exact absurd (fun b hb => by cases hb; exact ⟨items, ha⟩) hv
    | plain | classInstance | date | map => rfl
  | undefined | null | bool | number | string | bigint | symbol | function => exact absurd nofun hv

theorem create_of_notRecord (hv : NotRecord h v) (stack : ℕ) :
    AuditMetadata.create h stack v = .error .invalidAuditMetadata := by
  rw [AuditMetadata.create, ensureIsObject_of_notRecord hv]
  rfl

theorem create_of_record (hv : ¬ NotRecord h v) (stack : ℕ) : AuditMetadata.create h stack v =
    (thrownBy (walk isBad (children h) stack v) >>= fun _ => (structuredClone h v).map AuditMetadata.mk) := by
  rw [AuditMetadata.create, ensureIsObject_of_record hv, ensureIsJsonValue_eq]
  rfl

/-- Who is refused is refused by the walk. -/
theorem create_refuses_iff (hv : ¬ NotRecord h v) {stack : ℕ} :
    AuditMetadata.create h stack v = .error .invalidAuditMetadata ↔
      walk isBad (children h) stack v = .found := by
  rw [create_of_record hv]
  cases hw : walk isBad (children h) stack v with
  | found => exact iff_of_true rfl rfl
  | overflow => exact ⟨nofun, nofun⟩
  | done =>
    refine ⟨fun he => ?_, nofun⟩
    have he' : (structuredClone h v).map AuditMetadata.mk = .error .invalidAuditMetadata := he
    unfold structuredClone at he'
    split at he' <;> cases he'

/-! ## JSON values -/

theorem Denotes.isJson {j : JsonValue} (hd : Denotes h v j) : IsJson h v := by
  induction hd with
  | null => exact .null
  | bool b => exact .bool b
  | string s => exact .string s
  | number q => exact .finite q
  | @array a ps ha _ ih =>
    refine @IsJson.array n h a (ps.map fun p => p.1) ?_ fun v hv => ?_
    · rw [ha, List.map_map]
      rfl
    · obtain ⟨p, hp, rfl⟩ := List.mem_map.mp hv
      exact ih p hp
  | @plain a ps ha _ ih =>
    refine .plain ha fun e he => ?_
    obtain ⟨p, hp, rfl⟩ := List.mem_map.mp he
    exact ih p hp

theorem filterMap_some (vs : List (Value n)) : (vs.map some).filterMap id = vs := by
  rw [List.filterMap_map]
  exact List.filterMap_some

/-- `create` finds nothing bad in a JSON value. -/
theorem IsJson.clean (hj : IsJson h v) : Clean isBad (children h) v := by
  induction hj with
  | null | bool | string | finite | negZero => exact .intro rfl nofun
  | @array a vs ha _ ih =>
    have hparts : children h (.ref a) = vs := by
      rw [children, ha]
      exact filterMap_some vs
    exact .intro rfl fun w hw => ih w (hparts ▸ hw)
  | @plain a entries ha _ ih =>
    have hparts : children h (.ref a) = entries.map Prod.snd := by
      rw [children, ha]
      rfl
    refine .intro rfl fun w hw => ?_
    rw [hparts] at hw
    obtain ⟨e, he, rfl⟩ := List.mem_map.mp hw
    exact ih e he

/-- The parts of a JSON value are JSON values. -/
theorem IsJson.of_mem_contents (hj : IsJson h v) : ∀ w ∈ Value.contents h v, IsJson h w := by
  intro w hw
  cases hj with
  | null | bool | string | finite | negZero => exact absurd hw List.not_mem_nil
  | @array a vs ha hvs =>
    rw [Value.contents, ha, Cell.contents, filterMap_some] at hw
    exact hvs w hw
  | @plain a entries ha he =>
    rw [Value.contents, ha] at hw
    obtain ⟨e, hmem, rfl⟩ := List.mem_map.mp hw
    exact he e hmem

theorem isJson_of_mem_reachable {k : ℕ} {vs : List (Value n)} (hvs : ∀ v ∈ vs, IsJson h v) :
    ∀ w ∈ reachable h k vs, IsJson h w := by
  induction k generalizing vs with
  | zero => exact hvs
  | succ k ih =>
    intro w hw
    rcases List.mem_append.mp hw with hw | hw
    · exact hvs w hw
    · refine ih (fun u hu => ?_) w hw
      obtain ⟨v, hv, hu⟩ := List.mem_flatMap.mp hu
      exact (hvs v hv).of_mem_contents u hu

/-- The heap of a clone. -/
def cloned (h : Heap n) : Heap n := fun a => (h a).clone

theorem IsJson.structuredClone_eq (hj : IsJson h v) : structuredClone h v = .ok ⟨cloned h, v⟩ := by
  refine if_pos (List.all_eq_true.mpr fun w hw => ?_)
  have hjw := isJson_of_mem_reachable (List.forall_mem_singleton.mpr hj) w hw
  cases hjw <;> rfl

/-- The objects of a JSON value are cloned as they are. -/
theorem IsJson.cloned (hj : IsJson h v) : IsJson (cloned h) v := by
  induction hj with
  | null => exact .null
  | bool b => exact .bool b
  | string s => exact .string s
  | finite q => exact .finite q
  | negZero => exact .negZero
  | @array a vs ha _ ih =>
    refine @IsJson.array n _ a vs ?_ ih
    rw [Audit.cloned, ha]
    rfl
  | @plain a entries ha _ ih =>
    refine @IsJson.plain n _ a entries ?_ ih
    rw [Audit.cloned, ha]
    rfl

theorem Denotes.cloned {j : JsonValue} (hd : Denotes h v j) : Denotes (cloned h) v j := by
  induction hd with
  | null => exact .null
  | bool b => exact .bool b
  | string s => exact .string s
  | number q => exact .number q
  | array ps ha _ ih =>
    refine .array ps ?_ ih
    rw [Audit.cloned, ha]
    rfl
  | plain ps ha _ ih =>
    refine .plain ps ?_ ih
    rw [Audit.cloned, ha]
    rfl

/-- What a clone of a JSON value says the value says itself. -/
theorem Denotes.of_cloned {j : JsonValue} (hj : IsJson h v) (hd : Denotes (Audit.cloned h) v j) :
    Denotes h v j := by
  induction hd with
  | null => exact .null
  | bool b => exact .bool b
  | string s => exact .string s
  | number q => exact .number q
  | @array a ps ha _ ih =>
    rw [Audit.cloned] at ha
    cases hj with
    | @array _ vs hcell hvs =>
      rw [hcell] at ha
      have hitems : vs.map some = ps.map fun p => some p.1 := Cell.array.inj ha
      refine .array ps (by rw [hcell, hitems]) fun p hp => ih p hp (hvs p.1 ?_)
      have hmem : some p.1 ∈ vs.map some := by
        rw [hitems]
        exact List.mem_map_of_mem hp
      obtain ⟨u, hu, heq⟩ := List.mem_map.mp hmem
      rwa [← Option.some.inj heq]
    | plain hcell _ =>
      rw [hcell] at ha
      cases ha
  | @plain a ps ha _ ih =>
    rw [Audit.cloned] at ha
    cases hj with
    | array hcell _ =>
      rw [hcell] at ha
      cases ha
    | @plain _ entries hcell he =>
      rw [hcell] at ha
      have hentries : entries = ps.map fun p => (p.1, p.2.1) := Cell.plain.inj ha
      refine .plain ps (by rw [hcell, hentries]) fun p hp => ih p hp (he (p.1, p.2.1) ?_)
      rw [hentries]
      exact List.mem_map_of_mem hp

/-! ## Reading back -/

/-- A bound for each of finitely many gives one for all. -/
theorem exists_bound {α : Type*} {P : α → ℕ → Prop} {xs : List α}
    (h : ∀ x ∈ xs, ∃ enough, ∀ k, enough ≤ k → P x k) : ∃ enough, ∀ k, enough ≤ k → ∀ x ∈ xs, P x k := by
  induction xs with
  | nil => exact ⟨0, fun _ _ => nofun⟩
  | cons x xs ih =>
    obtain ⟨⟨m, hm⟩, hrest⟩ := List.forall_mem_cons.mp h
    obtain ⟨m', hm'⟩ := ih hrest
    refine ⟨max m m', fun k hk => List.forall_mem_cons.mpr ⟨hm k ?_, hm' k ?_⟩⟩
    · exact Nat.le_trans (Nat.le_max_left m m') hk
    · exact Nat.le_trans (Nat.le_max_right m m') hk

theorem mapM_map_ok {α β γ : Type} {f : β → Except Thrown γ} {g : α → β} {r : α → γ} {xs : List α}
    (h : ∀ x ∈ xs, f (g x) = .ok (r x)) : (xs.map g).mapM f = .ok (xs.map r) := by
  induction xs with
  | nil => rfl
  | cons x xs ih =>
    obtain ⟨hx, hxs⟩ := List.forall_mem_cons.mp h
    rw [List.map_cons, List.mapM_cons, hx, ih hxs]
    rfl

/-- The objects of the path are above the value, so that a path of objects never comes back. -/
def Above (h : Heap n) (path : List (Fin n)) (v : Value n) : Prop :=
  ∀ b ∈ path, Relation.TransGen (Below (children h)) v (.ref b)

theorem Above.not_mem {a : Fin n} {path : List (Fin n)} (hpath : Above h path (.ref a))
    (hacc : Acc (Below (children h)) (.ref a)) : a ∉ path :=
  fun ha => not_below_self hacc (hpath a ha)

theorem Above.below {a : Fin n} {path : List (Fin n)} {w : Value n} (hpath : Above h path (.ref a))
    (hw : w ∈ children h (.ref a)) : Above h (a :: path) w := by
  refine List.forall_mem_cons.mpr ⟨.single hw, fun b hb => ?_⟩
  exact .head hw (hpath b hb)

theorem children_array {a : Fin n} {vs : List (Value n)} (ha : h a = .array (vs.map some)) :
    children h (.ref a) = vs := by
  rw [children, ha]
  exact filterMap_some vs

theorem children_plain {a : Fin n} {entries : List (String × Value n)} (ha : h a = .plain entries) :
    children h (.ref a) = entries.map Prod.snd := by
  rw [children, ha]
  rfl

/-- A stack deep enough to read the value back as `j`, below whatever it is in. -/
def ReadsBack (h : Heap n) (v : Value n) (j : JsonValue) : Prop :=
  ∃ enough, ∀ stack, enough ≤ stack → ∀ path, Above h path v → reparse h stack path v = .ok (some j)

/-- What needs a single frame. -/
theorem ReadsBack.of_leaf {j : JsonValue} (hv : ∀ stack path, reparse h (stack + 1) path v = .ok (some j)) :
    ReadsBack h v j := by
  refine ⟨1, fun stack hstack path _ => ?_⟩
  obtain ⟨stack, rfl⟩ := Nat.exists_eq_add_of_le' hstack
  exact hv stack path

theorem ReadsBack.array {a : Fin n} {ps : List (Value n × JsonValue)}
    (hacc : Acc (Below (children h)) (.ref a)) (ha : h a = .array (ps.map fun p => some p.1))
    (hps : ∀ p ∈ ps, ReadsBack h p.1 p.2) : ReadsBack h (.ref a) (.array (ps.map fun p => p.2)) := by
  obtain ⟨enough, hall⟩ := exists_bound hps
  refine ⟨enough + 1, fun stack hstack path hpath => ?_⟩
  obtain ⟨stack, rfl⟩ := Nat.exists_eq_add_of_le' (Nat.le_trans (Nat.le_add_left 1 enough) hstack)
  have hchildren : children h (.ref a) = ps.map fun p => p.1 := children_array (by rw [ha, List.map_map]; rfl)
  have hread : ∀ p ∈ ps, reparse h stack (a :: path) p.1 = .ok (some p.2) := by
    intro p hp
    refine hall stack (Nat.le_of_succ_le_succ hstack) p hp _ (hpath.below ?_)
    rw [hchildren]
    exact List.mem_map_of_mem hp
  have hitems := mapM_map_ok (g := fun p : Value n × JsonValue => some p.1) (r := fun p => p.2)
    (f := fun item : Option (Value n) =>
      match item with
      | none => .ok .null
      | some v => (reparse h stack (a :: path) v).map (·.getD .null))
    (fun p hp => by
      show (reparse h stack (a :: path) p.1).map _ = _
      rw [hread p hp]
      rfl)
  rw [reparse, if_neg (hpath.not_mem hacc), ha]
  show ((ps.map fun p => some p.1).mapM _ >>= _) = _
  rw [hitems]
  rfl

theorem ReadsBack.plain {a : Fin n} {ps : List (String × Value n × JsonValue)}
    (hacc : Acc (Below (children h)) (.ref a)) (ha : h a = .plain (ps.map fun p => (p.1, p.2.1)))
    (hps : ∀ p ∈ ps, ReadsBack h p.2.1 p.2.2) :
    ReadsBack h (.ref a) (.object (ps.map fun p => (p.1, p.2.2))) := by
  obtain ⟨enough, hall⟩ := exists_bound hps
  refine ⟨enough + 1, fun stack hstack path hpath => ?_⟩
  obtain ⟨stack, rfl⟩ := Nat.exists_eq_add_of_le' (Nat.le_trans (Nat.le_add_left 1 enough) hstack)
  have hread : ∀ p ∈ ps, reparse h stack (a :: path) p.2.1 = .ok (some p.2.2) := by
    intro p hp
    refine hall stack (Nat.le_of_succ_le_succ hstack) p hp _ (hpath.below ?_)
    rw [children_plain ha, List.map_map]
    exact List.mem_map_of_mem hp
  have hentries := mapM_map_ok (g := fun p : String × Value n × JsonValue => (p.1, p.2.1))
    (r := fun p => some (p.1, p.2.2))
    (f := fun (key, v) => (reparse h stack (a :: path) v).map (·.map fun j => (key, j)))
    (fun p hp => by
      show (reparse h stack (a :: path) p.2.1).map _ = _
      rw [hread p hp]
      rfl)
  rw [reparse, if_neg (hpath.not_mem hacc), ha]
  show ((ps.map fun p => (p.1, p.2.1)).mapM _ >>= _) = _
  rw [hentries]
  have hkept : (ps.map fun p => some (p.1, p.2.2)).filterMap id = ps.map fun p => (p.1, p.2.2) := by
    rw [List.filterMap_map]
    exact congrFun (List.filterMap_eq_map (f := fun p : String × Value n × JsonValue => (p.1, p.2.2))) ps
  exact congrArg (fun es => Except.ok (some (JsonValue.object es))) hkept

/-- **What a value denotes is what its text is read back as.** -/
theorem Denotes.readsBack {j : JsonValue} (hd : Denotes h v j) : ReadsBack h v j := by
  have hacc := hd.isJson.clean.acc
  induction hd with
  | null | bool | string | number => exact .of_leaf fun _ _ => rfl
  | @array a ps ha hps ih => exact .array hacc ha fun p hp => ih p hp (hps p hp).isJson.clean.acc
  | @plain a ps ha hps ih => exact .plain hacc ha fun p hp => ih p hp (hps p hp).isJson.clean.acc

/-! ## What `create` does -/

theorem IsJsonObject.record (hv : IsJsonObject h v) : ¬ NotRecord h v := by
  obtain ⟨-, a, entries, rfl, ha⟩ := hv
  intro hnot
  obtain ⟨items, ha'⟩ := hnot a rfl
  rw [ha] at ha'
  cases ha'

/-- A JSON object is taken as a clone, with a stack deep enough. -/
theorem IsJsonObject.create_eq (hv : IsJsonObject h v) : ∃ enough, ∀ stack, enough ≤ stack →
    AuditMetadata.create h stack v = .ok ⟨⟨cloned h, v⟩⟩ := by
  obtain ⟨enough, hdone⟩ := walk_done_iff.mpr hv.1.clean
  refine ⟨enough, fun stack hstack => ?_⟩
  have hwalk : walk isBad (children h) stack v = .done := by
    rw [walk_mono hstack (by rw [hdone]; exact nofun), hdone]
  rw [create_of_record hv.record, hwalk, hv.1.structuredClone_eq]
  rfl

/-- `create` of a JSON object gives nothing else. -/
theorem IsJsonObject.of_create_eq (hv : IsJsonObject h v) {stack : ℕ} {m : AuditMetadata n}
    (hm : AuditMetadata.create h stack v = .ok m) : m = ⟨⟨cloned h, v⟩⟩ := by
  rw [create_of_record hv.record, hv.1.structuredClone_eq] at hm
  cases hwalk : walk isBad (children h) stack v with
  | done =>
    rw [hwalk] at hm
    cases hm
    rfl
  | found | overflow =>
    rw [hwalk] at hm
    cases hm

/-- Something that JSON does not have makes it no JSON value. -/
theorem IsJson.not_meets (hj : IsJson h v) : ¬ Meets isBad (children h) v := by
  intro hmeets
  obtain ⟨k, hdone⟩ := walk_done_iff.mpr hj.clean
  obtain ⟨k', hfound⟩ := walk_found_iff.mpr hmeets
  have hsame := walk_unique (by rw [hdone]; exact nofun : walk isBad (children h) k v ≠ .overflow)
    (by rw [hfound]; exact nofun : walk isBad (children h) k' v ≠ .overflow)
  rw [hdone, hfound] at hsame
  cases hsame

theorem Denotes.isJsonObject {entries : List (String × JsonValue)} (hd : Denotes h v (.object entries)) :
    IsJsonObject h v := by
  refine ⟨hd.isJson, ?_⟩
  cases hd with
  | plain ps ha _ => exact ⟨_, _, rfl, ha⟩

/-- What a JSON object denotes is an object. -/
theorem IsJsonObject.denotes_object (hv : IsJsonObject h v) {j : JsonValue} (hd : Denotes h v j) :
    ∃ entries, Denotes h v (.object entries) := by
  obtain ⟨-, a, entries, rfl, ha⟩ := hv
  cases hd with
  | array ps ha' _ =>
    rw [ha] at ha'
    cases ha'
  | plain ps ha' hps => exact ⟨_, .plain ps ha' hps⟩

/-- **What survives its serialisation:** the JSON objects that hold no `-0`. -/
theorem IsJsonObject.roundTrips_iff (hv : IsJsonObject h v) :
    RoundTrips ⟨⟨cloned h, v⟩⟩ ↔ ∃ entries, Denotes h v (.object entries) := by
  have hcopy : AuditMetadata.toJSON ⟨⟨cloned h, v⟩⟩ = .ok ⟨cloned (cloned h), v⟩ :=
    hv.1.cloned.structuredClone_eq
  constructor
  · rintro ⟨t, ht, j, -, hd⟩
    rw [hcopy] at ht
    cases ht
    exact hv.denotes_object ((hd.of_cloned hv.1.cloned).of_cloned hv.1)
  · rintro ⟨entries, hd⟩
    have hd' := hd.cloned.cloned
    obtain ⟨enough, hread⟩ := hd'.readsBack
    exact ⟨_, hcopy, _, ⟨enough, fun stack hstack => hread stack hstack [] nofun⟩, hd'⟩

end

/-! ## Exactness -/

/-- **When `create` is exact:** for JSON objects without `-0`, for what is no object or an array, and where
the walk meets something that JSON does not have. -/
theorem create_exact_iff {n : ℕ} (h : Heap n) (v : Value n) : CreateExact h v ↔
    (∃ entries, Denotes h v (.object entries)) ∨ NotRecord h v ∨ Meets isBad (children h) v := by
  constructor
  · rintro ⟨enough, hexact⟩
    obtain ⟨haccepts, hrefuses⟩ := hexact enough (Nat.le_refl enough)
    by_cases hv : IsJsonObject h v
    · obtain ⟨m, hm, hround⟩ := haccepts hv
      rw [hv.of_create_eq hm] at hround
      exact .inl (hv.roundTrips_iff.mp hround)
    · by_cases hrecord : NotRecord h v
      · exact .inr (.inl hrecord)
      · exact .inr (.inr (.of_walk ((create_refuses_iff hrecord).mp (hrefuses hv))))
  · rintro (⟨entries, hd⟩ | hnot | hmeets)
    · have hv := hd.isJsonObject
      obtain ⟨enough, hok⟩ := hv.create_eq
      refine ⟨enough, fun stack hstack => ⟨fun _ => ⟨_, hok stack hstack, ?_⟩, absurd hv⟩⟩
      exact hv.roundTrips_iff.mpr ⟨entries, hd⟩
    · exact ⟨0, fun stack _ => ⟨fun hv => absurd hnot hv.record, fun _ => create_of_notRecord hnot stack⟩⟩
    · obtain ⟨enough, hfound⟩ := walk_found_iff.mpr hmeets
      refine ⟨enough, fun stack hstack => ⟨fun hv => absurd hmeets hv.1.not_meets, fun _ => ?_⟩⟩
      by_cases hrecord : NotRecord h v
      · exact create_of_notRecord hrecord stack
      · refine (create_refuses_iff hrecord).mpr ?_
        rw [walk_mono hstack (by rw [hfound]; exact nofun), hfound]

/-- `{ at: new Date(0) }`. -/
def datedEntry : Heap 2
  | 0 => .plain [("at", .ref 1)]
  | 1 => .date (some 0)

/-- The date is taken, which no JSON object holds. -/
theorem datedEntry_not_exact : ¬ CreateExact datedEntry (.ref 0) := by
  rintro ⟨enough, hexact⟩
  have hnot : ¬ IsJsonObject datedEntry (.ref 0) := by
    rintro ⟨hj, -⟩
    cases hj with
    | array ha _ => cases ha
    | @plain _ entries ha he =>
      have hentries : [("at", Value.ref 1)] = entries := Cell.plain.inj ha
      have hdate : IsJson datedEntry (.ref 1) := he ("at", .ref 1) (hentries ▸ List.mem_singleton_self _)
      cases hdate with
      | array ha _ => cases ha
      | plain ha _ => cases ha
  have hrefused := (hexact (enough + 2) (Nat.le_add_right enough 2)).2 hnot
  have htaken : AuditMetadata.create datedEntry (enough + 2) (.ref 0) = .ok ⟨⟨cloned datedEntry, .ref 0⟩⟩ := rfl
  rw [htaken] at hrefused
  cases hrefused

end Neltrik.Audit
