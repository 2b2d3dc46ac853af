import Mathlib.Data.List.DropRight
import Mathlib.Data.List.TakeWhile
import Mathlib.Data.Nat.Notation
import Neltrik.Lib.Html
import Neltrik.Lib.Runs

/-! # Texts as the value objects read them

`trim`, the regular expressions of the value objects and `toLowerCase` on ASCII letters. -/

namespace Neltrik.Shared

/-- The characters `String.prototype.trim` removes and `\s` matches. -/
def isSpace (c : Char) : Bool :=
  c ∈ ['\t', '\n', '\x0b', '\x0c', '\r', ' ', '\u00a0', '\u1680', '\u2028', '\u2029', '\u202f',
    '\u205f', '\u3000', '\ufeff'] || ('\u2000' ≤ c && c ≤ '\u200a')

/-- Letters and digits are no white space. -/
theorem isSpace_of_isAlphanum {c : Char} (h : c.isAlphanum = true) : isSpace c = false := by
  by_contra hs
  simp only [isSpace, Bool.not_eq_false, Bool.or_eq_true, Bool.and_eq_true, decide_eq_true_eq, List.mem_cons,
    List.not_mem_nil, or_false] at hs
  rcases hs with hs | hs
  · rcases hs with rfl | rfl | rfl | rfl | rfl | rfl | rfl | rfl | rfl | rfl | rfl | rfl | rfl | rfl
    all_goals exact absurd h (by decide)
  · have hle : 0x2000 ≤ c.toNat := hs.1
    rw [Lib.Html.isAlphanum_iff] at h
    omega

/-- `s.trim() === ""`. -/
def isBlank (s : String) : Bool := s.toList.all isSpace

/-- `String.prototype.trim`. -/
def trim (s : String) : String :=
  String.ofList (((s.toList.dropWhile isSpace).reverse.dropWhile isSpace).reverse)

theorem toList_trim (s : String) : (trim s).toList = (s.toList.dropWhile isSpace).rdropWhile isSpace :=
  String.toList_ofList

/-- Nothing is left to trim. -/
theorem trim_trim (s : String) : trim (trim s) = trim s := by
  have hstart : ((s.toList.dropWhile isSpace).rdropWhile isSpace).dropWhile isSpace =
      (s.toList.dropWhile isSpace).rdropWhile isSpace := by
    refine List.dropWhile_eq_self_iff.mpr fun hl => ?_
    have htrimmed := List.rdropWhile_prefix isSpace (l := s.toList.dropWhile isSpace)
    rw [htrimmed.getElem hl]
    exact List.dropWhile_get_zero_not isSpace s.toList (hl.trans_le htrimmed.length_le)
  have htwice : (trim (trim s)).toList = (trim s).toList := by
    rw [toList_trim (trim s), toList_trim s, hstart, List.rdropWhile_idempotent]
  exact String.toList_inj.mp htwice

theorem dropWhile_of_forall {cs : List Char} (h : ∀ c ∈ cs, isSpace c = true) : cs.dropWhile isSpace = [] :=
  List.dropWhile_eq_nil_iff.mpr h

/-- White space at the end is trimmed. -/
theorem trim_append {cs blank : List Char} (hblank : ∀ c ∈ blank, isSpace c = true) :
    trim (String.ofList (cs ++ blank)) = trim (String.ofList cs) := by
  have hrev : ∀ c ∈ blank.reverse, isSpace c = true := fun c hc => hblank c (List.mem_reverse.mp hc)
  unfold trim
  rw [String.toList_ofList, String.toList_ofList, List.dropWhile_append]
  by_cases hcs : (cs.dropWhile isSpace).isEmpty = true
  · rw [if_pos hcs, dropWhile_of_forall hblank, List.isEmpty_iff.mp hcs]
  · rw [if_neg hcs, List.reverse_append, List.dropWhile_append_of_pos hrev]

/-- A word without white space stands in a text when it stands in the trimmed one. -/
theorem infix_trim_iff {s : String} {word : List Char} (hne : word ≠ []) (hword : ∀ c ∈ word, isSpace c = false) :
    word <:+: (trim s).toList ↔ word <:+: s.toList := by
  have hne' : word.reverse ≠ [] := mt List.reverse_eq_nil_iff.mp hne
  have hword' : ∀ c ∈ word.reverse, isSpace c = false := fun c hc => hword c (List.mem_reverse.mp hc)
  have hends : word <:+: (trim s).toList ↔ word.reverse <:+: (s.toList.dropWhile isSpace).reverse.dropWhile isSpace := by
    unfold trim
    rw [String.toList_ofList, ← List.reverse_infix, List.reverse_reverse]
  rw [hends, Lib.Runs.infix_dropWhile_iff hne' hword', List.reverse_infix, Lib.Runs.infix_dropWhile_iff hne hword]

theorem isBlank_eq_false_iff {s : String} : isBlank s = false ↔ ∃ c ∈ s.toList, isSpace c = false := by
  rw [isBlank, List.all_eq_false]
  simp only [Bool.not_eq_true]

/-- `s.length`: the UTF-16 code units. -/
def codeUnits (s : String) : ℕ := s.toList.foldl (fun n c => if c.toNat < 0x10000 then n + 1 else n + 2) 0

/-- `/^[^\s@]+@[^\s@]+\.[^\s@]+$/`: one `@`, and behind it a dot that is neither first nor last. -/
def isEmail (s : String) : Bool :=
  match s.toList.splitOn '@' with
  | [name, domain] =>
    !name.isEmpty && name.all (!isSpace ·) && domain.all (!isSpace ·) &&
      domain.tail.dropLast.contains '.'
  | _ => false

/-- `/^\+?[0-9]{10,15}$/`. -/
def isPhone (s : String) : Bool :=
  let digits := if s.toList.head? = some '+' then s.toList.tail else s.toList
  digits.all Char.isDigit && 10 ≤ digits.length && digits.length ≤ 15

/-- A digit of a hexadecimal number, in lower case. -/
def isHexDigit (c : Char) : Bool := c.isDigit || ('a' ≤ c && c ≤ 'f')

/-- `/^[a-f0-9]{8}-[a-f0-9]{4}-[a-f0-9]{4}-[a-f0-9]{4}-[a-f0-9]{12}$/`. -/
def isUuid (s : String) : Bool :=
  let groups := s.toList.splitOn '-'
  groups.map List.length == [8, 4, 4, 4, 12] && groups.all (·.all isHexDigit)

end Neltrik.Shared
