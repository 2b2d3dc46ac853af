import Mathlib.Data.List.Basic
import Mathlib.Data.List.Nodup

/-! # Where objects

A `where` of Prisma is an object: its keys are fields of the model and the combinators `OR`, `AND`
and `NOT`, and its entries are ANDed. An object is the list of its entries here. `set` is the spread
`{ ...where, entry }`, which puts the entry in the place of one with the same key.

`foldl_set`: entries with different keys that are spread one after the other end up behind the
entries whose keys they have not taken. -/

namespace Neltrik.Prisma

/-- What a row has in a field: `null`, a string, or anything else (a number, a date, related rows). -/
inductive Value (ν : Type) where
  | null
  | string (s : String)
  | other (v : ν)
  deriving DecidableEq

/-- A row, by the names of its fields. -/
abbrev Row (ν : Type) := String → Value ν

/-- An entry of a `where` object. -/
inductive Condition (ν : Type) where
  | field (name : String) (test : Value ν → Bool)
  | OR (objects : List (List (Condition ν)))
  | AND (objects : List (List (Condition ν)))
  | NOT (objects : List (List (Condition ν)))

/-- The conditions that all have to hold. -/
abbrev Where (ν : Type) := List (Condition ν)

variable {ν : Type}

/-- The key of a condition in its object. -/
def Condition.key : Condition ν → String
  | field name _ => name
  | OR _ => "OR"
  | AND _ => "AND"
  | NOT _ => "NOT"

/-! ## Meaning -/

mutual
/-- The row meets the entry. -/
def Condition.holds (row : Row ν) : Condition ν → Bool
  | .field name test => test (row name)
  | .OR objects => holdsAny row objects
  | .AND objects => holdsAll row objects
  | .NOT objects => holdsNone row objects
/-- The row meets all entries of the object. -/
def Where.holds (row : Row ν) : List (Condition ν) → Bool
  | [] => true
  | c :: w => c.holds row && Where.holds row w
/-- `OR`. -/
def holdsAny (row : Row ν) : List (List (Condition ν)) → Bool
  | [] => false
  | w :: ws => Where.holds row w || holdsAny row ws
/-- `AND`. -/
def holdsAll (row : Row ν) : List (List (Condition ν)) → Bool
  | [] => true
  | w :: ws => Where.holds row w && holdsAll row ws
/-- `NOT`. -/
def holdsNone (row : Row ν) : List (List (Condition ν)) → Bool
  | [] => true
  | w :: ws => !Where.holds row w && holdsNone row ws
end

mutual
/-- The fields an entry names, at any depth. -/
def Condition.fields : Condition ν → List String
  | .field name _ => [name]
  | .OR objects => fieldsOfAll objects
  | .AND objects => fieldsOfAll objects
  | .NOT objects => fieldsOfAll objects
/-- The columns a filter names. -/
def Where.fields : List (Condition ν) → List String
  | [] => []
  | c :: w => c.fields ++ Where.fields w
/-- The columns of several filters. -/
def fieldsOfAll : List (List (Condition ν)) → List String
  | [] => []
  | w :: ws => Where.fields w ++ fieldsOfAll ws
end

namespace Where

theorem holds_cons (row : Row ν) (c : Condition ν) (w : Where ν) :
    holds row (c :: w) = (c.holds row && holds row w) := by
  rw [holds]

theorem holds_eq_all (row : Row ν) (w : Where ν) : holds row w = w.all (·.holds row) := by
  induction w with
  | nil => rw [holds]; rfl
  | cons c w ih => rw [holds_cons, ih]; rfl

theorem holds_append (row : Row ν) (w w' : Where ν) :
    holds row (w ++ w') = (holds row w && holds row w') := by
  rw [holds_eq_all, holds_eq_all, holds_eq_all, List.all_append]

theorem fields_eq_flatMap (w : Where ν) : fields w = w.flatMap Condition.fields := by
  induction w with
  | nil => rw [fields]; rfl
  | cons c w ih => rw [fields, ih]; rfl

theorem fields_append (w w' : Where ν) : fields (w ++ w') = fields w ++ fields w' := by
  rw [fields_eq_flatMap, fields_eq_flatMap, fields_eq_flatMap, List.flatMap_append]

/-! ## Spreads -/

/-- `{ ...where, [key]: entry }`. -/
def set (w : Where ν) (c : Condition ν) : Where ν := w.filter (fun d => d.key != c.key) ++ [c]

/-- The entries under other keys than those of `cs`. -/
def kept (w cs : Where ν) : Where ν := w.filter fun d => !(cs.map Condition.key).contains d.key

/-- The entries under the keys of `cs`. -/
def replaced (w cs : Where ν) : Where ν := w.filter fun d => (cs.map Condition.key).contains d.key

theorem holds_kept_replaced (row : Row ν) (w cs : Where ν) :
    holds row w = (holds row (w.kept cs) && holds row (w.replaced cs)) := by
  rw [Bool.eq_iff_iff, Bool.and_eq_true, holds_eq_all, holds_eq_all, holds_eq_all]
  simp only [List.all_eq_true, kept, replaced, List.mem_filter]
  constructor
  · intro h
    exact ⟨fun d hd => h d hd.1, fun d hd => h d hd.1⟩
  · rintro ⟨hk, hr⟩ d hd
    cases hc : (cs.map Condition.key).contains d.key with
    | true => exact hr d ⟨hd, hc⟩
    | false => exact hk d ⟨hd, by rw [hc]; rfl⟩

/-- **Spreads one after the other.** -/
theorem foldl_set {cs : Where ν} (h : (cs.map Condition.key).Nodup) (w : Where ν) :
    cs.foldl set w = w.kept cs ++ cs := by
  induction cs generalizing w with
  | nil => simp [kept]
  | cons c cs ih =>
    rw [List.map_cons, List.nodup_cons] at h
    obtain ⟨hc, hcs⟩ := h
    have hself : [c].filter (fun d => !(cs.map Condition.key).contains d.key) = [c] := by
      simpa using hc
    rw [List.foldl_cons, ih hcs, kept, set, List.filter_append, List.filter_filter, hself,
      List.append_assoc]
    congr 1
    refine List.filter_congr fun d _ => ?_
    rw [List.map_cons, List.contains_cons, Bool.not_or, Bool.and_comm]
    rfl

end Where

end Neltrik.Prisma
