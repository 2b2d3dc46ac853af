import Mathlib.Algebra.Order.BigOperators.Group.List
import Mathlib.Algebra.Order.Ring.Nat
import Mathlib.Data.Int.Notation
import Mathlib.Data.List.Basic
import Mathlib.Tactic.SplitIfs

/-! # Instants and their texts

An instant is a number of milliseconds since the first of January 1970, in the Gregorian calendar reckoned
back and forth without end and without leap seconds. `fields` takes it apart, `makeTime` puts it together,
and `makeTime_fields` says that this gives the instant back. `toISOString` is the text of an instant in the
date time format, with six digits and a sign for a year that four digits do not hold, and `parse` reads such
a text: `parse_toISOString`.
-/

namespace Neltrik.Lib.IsoInstant

/-! ## Days and years -/

/-- The number of the first day of a year. -/
def dayFromYear (y : ℤ) : ℤ := 365 * (y - 1970) + (y - 1969) / 4 - (y - 1901) / 100 + (y - 1601) / 400

/-- The year of a day: the mean length of a year leaves three to choose from. -/
def yearFromDay (d : ℤ) : ℤ :=
  let y := 1970 + d * 400 / 146097
  if d < dayFromYear y then y - 1 else if dayFromYear (y + 1) ≤ d then y + 1 else y

/-- **A day is a day of its year.** -/
theorem yearFromDay_spec (d : ℤ) :
    dayFromYear (yearFromDay d) ≤ d ∧ d < dayFromYear (yearFromDay d + 1) := by
  unfold yearFromDay
  dsimp only
  split_ifs with hbefore hafter
  · refine ⟨?_, ?_⟩
    · unfold dayFromYear
      omega
    · rw [Int.sub_add_cancel]
      exact hbefore
  · refine ⟨hafter, ?_⟩
    unfold dayFromYear
    omega
  · exact ⟨by omega, by omega⟩

/-- The year has a 29th of February. -/
def isLeap (y : ℤ) : Bool := y % 4 == 0 && (y % 100 != 0 || y % 400 == 0)

theorem dayFromYear_succ (y : ℤ) : dayFromYear (y + 1) = dayFromYear y + 365 + if isLeap y then 1 else 0 := by
  unfold dayFromYear isLeap
  by_cases h4 : y % 4 = 0 <;> by_cases h100 : y % 100 = 0 <;> by_cases h400 : y % 400 = 0 <;>
    simp [h4, h100, h400] <;> omega

/-! ## Months -/

/-- The days of the months. -/
def monthLengths (leap : Bool) : List ℕ := [31, if leap then 29 else 28, 31, 30, 31, 30, 31, 31, 30, 31, 30, 31]

/-- The part, of parts of these lengths, and the place in it. -/
def split : List ℕ → ℕ → ℕ × ℕ
  | [], n => (0, n)
  | l :: ls, n => if n < l then (0, n) else ((split ls (n - l)).1 + 1, (split ls (n - l)).2)

theorem split_spec {ls : List ℕ} {n : ℕ} (h : n < ls.sum) :
    (ls.take (split ls n).1).sum + (split ls n).2 = n ∧
      ∃ l, ls[(split ls n).1]? = some l ∧ (split ls n).2 < l := by
  induction ls generalizing n with
  | nil => exact absurd h (Nat.not_lt_zero n)
  | cons l ls ih =>
    rw [List.sum_cons] at h
    rw [split]
    split_ifs with hl
    · exact ⟨Nat.zero_add n, l, rfl, hl⟩
    · obtain ⟨hsum, l', hl', hlt⟩ := ih (n := n - l) (by omega)
      refine ⟨?_, l', hl', hlt⟩
      rw [List.take_succ_cons, List.sum_cons]
      omega

/-- What is read off a clock and a calendar. Months and days are counted from zero. -/
structure Fields where
  year : ℤ
  month : ℕ
  day : ℕ
  hour : ℕ
  minute : ℕ
  second : ℕ
  ms : ℕ
  deriving DecidableEq

/-- The milliseconds of a day. -/
def msPerDay : ℤ := 86400000

/-- The fields of an instant. -/
def fields (t : ℤ) : Fields :=
  let d := t / msPerDay
  let r := (t % msPerDay).toNat
  let y := yearFromDay d
  let md := split (monthLengths (isLeap y)) (d - dayFromYear y).toNat
  { year := y, month := md.1, day := md.2, hour := r / 3600000, minute := r / 60000 % 60,
    second := r / 1000 % 60, ms := r % 1000 }

/-- The instant of the fields. -/
def makeTime (f : Fields) : ℤ :=
  (dayFromYear f.year + ((monthLengths (isLeap f.year)).take f.month).sum + f.day) * msPerDay +
    f.hour * 3600000 + f.minute * 60000 + f.second * 1000 + f.ms

/-- The ranges of a clock and a calendar. -/
structure Fields.InRange (f : Fields) : Prop where
  month : f.month < 12
  day : f.day < 31
  hour : f.hour < 24
  minute : f.minute < 60
  second : f.second < 60
  ms : f.ms < 1000

theorem sum_monthLengths (leap : Bool) : (monthLengths leap).sum = 365 + if leap then 1 else 0 := by
  cases leap <;> rfl

theorem le_of_mem_monthLengths {leap : Bool} {l : ℕ} (h : l ∈ monthLengths leap) : l ≤ 31 := by
  have hall : ∀ leap, (monthLengths leap).all (· ≤ 31) = true := by decide
  exact of_decide_eq_true (List.all_eq_true.mp (hall leap) l h)

section
variable (t : ℤ)

/-- The day of the year, counted from zero. -/
def dayOfYear : ℕ := (t / msPerDay - dayFromYear (yearFromDay (t / msPerDay))).toNat

theorem dayFromYear_add_dayOfYear :
    dayFromYear (yearFromDay (t / msPerDay)) + dayOfYear t = t / msPerDay := by
  have hspec := yearFromDay_spec (t / msPerDay)
  unfold dayOfYear
  omega

theorem dayOfYear_lt : dayOfYear t < (monthLengths (isLeap (yearFromDay (t / msPerDay)))).sum := by
  have hspec := yearFromDay_spec (t / msPerDay)
  rw [dayFromYear_succ] at hspec
  rw [sum_monthLengths]
  unfold dayOfYear
  split_ifs at hspec ⊢ <;> omega

theorem fields_inRange : (fields t).InRange := by
  obtain ⟨-, l, hl, hlt⟩ := split_spec (dayOfYear_lt t)
  have hlength : (monthLengths (isLeap (yearFromDay (t / msPerDay)))).length = 12 := by
    cases isLeap (yearFromDay (t / msPerDay)) <;> rfl
  have hmonth := (List.getElem?_eq_some_iff.mp hl).1
  rw [hlength] at hmonth
  have hle := le_of_mem_monthLengths (List.mem_of_getElem? hl)
  have hr : (t % msPerDay).toNat < 86400000 := by
    unfold msPerDay
    omega
  constructor
  · exact hmonth
  · exact Nat.lt_of_lt_of_le hlt hle
  · exact Nat.div_lt_of_lt_mul hr
  · exact Nat.mod_lt _ (by decide)
  · exact Nat.mod_lt _ (by decide)
  · exact Nat.mod_lt _ (by decide)

/-- **Put together again, the instant is the same.** -/
theorem makeTime_fields : makeTime (fields t) = t := by
  have hday := dayFromYear_add_dayOfYear t
  obtain ⟨hsum, -⟩ := split_spec (dayOfYear_lt t)
  have hclock : ∀ r : ℕ,
      r / 3600000 * 3600000 + r / 60000 % 60 * 60000 + r / 1000 % 60 * 1000 + r % 1000 = r := by omega
  have hrest : (((fields t).hour * 3600000 + (fields t).minute * 60000 + (fields t).second * 1000 +
      (fields t).ms : ℕ) : ℤ) = t % msPerDay := by
    rw [show (fields t).hour * 3600000 + (fields t).minute * 60000 + (fields t).second * 1000 +
      (fields t).ms = (t % msPerDay).toNat from hclock _]
    exact Int.toNat_of_nonneg (Int.emod_nonneg t (by decide))
  have hdays : dayFromYear (fields t).year +
      ((monthLengths (isLeap (fields t).year)).take (fields t).month).sum + (fields t).day = t / msPerDay := by
    rw [← hday, ← hsum, Int.natCast_add, ← Int.add_assoc]
    rfl
  have hsplit := Int.mul_ediv_add_emod t msPerDay
  unfold makeTime
  rw [hdays, Int.mul_comm (t / msPerDay)]
  omega

end

/-! ## Numbers of a fixed width -/

/-- The last `k` decimal digits. -/
def pad : ℕ → ℕ → List Char
  | 0, _ => []
  | k + 1, n => pad k (n / 10) ++ [Nat.digitChar (n % 10)]

/-- The number that `k` digits at the beginning are, and what stands behind them. -/
def readNumber (k : ℕ) (cs : List Char) : Option (ℕ × List Char) :=
  if k ≤ cs.length ∧ (cs.take k).all Char.isDigit then
    some ((cs.take k).foldl (fun n c => 10 * n + (c.toNat - 48)) 0, cs.drop k)
  else none

@[simp] theorem length_pad (k n : ℕ) : (pad k n).length = k := by
  induction k generalizing n with
  | zero => rfl
  | succ k ih => rw [pad, List.length_append, ih, List.length_singleton]

theorem digit_spec {d : ℕ} (h : d < 10) :
    (Nat.digitChar d).isDigit = true ∧ (Nat.digitChar d).toNat - 48 = d := by
  have hall : (List.range 10).all fun d => (Nat.digitChar d).isDigit && (Nat.digitChar d).toNat - 48 == d := by
    decide
  have hd := List.all_eq_true.mp hall d (List.mem_range.mpr h)
  rw [Bool.and_eq_true, beq_iff_eq] at hd
  exact hd

theorem all_isDigit_pad (k n : ℕ) : (pad k n).all Char.isDigit = true := by
  induction k generalizing n with
  | zero => rfl
  | succ k ih =>
    rw [pad, List.all_append, ih, List.all_cons, (digit_spec (Nat.mod_lt n (by decide))).1]
    rfl

theorem foldl_pad {k n : ℕ} (h : n < 10 ^ k) :
    (pad k n).foldl (fun n c => 10 * n + (c.toNat - 48)) 0 = n := by
  induction k generalizing n with
  | zero =>
    rw [Nat.pow_zero] at h
    rw [pad, List.foldl_nil]
    omega
  | succ k ih =>
    rw [Nat.pow_succ] at h
    rw [pad, List.foldl_append, ih (by omega), List.foldl_cons, List.foldl_nil,
      (digit_spec (Nat.mod_lt n (by decide))).2]
    omega

/-- **A number that is written is read back.** -/
theorem readNumber_pad {k n : ℕ} (h : n < 10 ^ k) (rest : List Char) :
    readNumber k (pad k n ++ rest) = some (n, rest) := by
  have htake : (pad k n ++ rest).take k = pad k n := by
    rw [List.take_left' (length_pad k n)]
  have hdrop : (pad k n ++ rest).drop k = rest := by
    rw [List.drop_left' (length_pad k n)]
  have hle : k ≤ (pad k n ++ rest).length := by
    rw [List.length_append, length_pad]
    omega
  unfold readNumber
  rw [htake, hdrop, if_pos ⟨hle, all_isDigit_pad k n⟩, foldl_pad h]

/-! ## Texts -/

/-- What an instant is at most, before or after 1970. -/
def maxTime : ℕ := 8640000000000000

/-- Four digits, or a sign and six. -/
def yearText (y : ℤ) : List Char :=
  if 0 ≤ y ∧ y ≤ 9999 then pad 4 y.toNat else (if y < 0 then '-' else '+') :: pad 6 y.natAbs

/-- The text of the fields. -/
def text (f : Fields) : List Char :=
  yearText f.year ++ '-' :: (pad 2 (f.month + 1) ++ '-' :: (pad 2 (f.day + 1) ++ 'T' :: (pad 2 f.hour ++
    ':' :: (pad 2 f.minute ++ ':' :: (pad 2 f.second ++ '.' :: (pad 3 f.ms ++ ['Z']))))))

/-- There is no text of what is not an instant. -/
def toISOString (t : ℤ) : Option String :=
  if t.natAbs ≤ maxTime then some (String.ofList (text (fields t))) else none

/-- A year with its sign, if it has one. -/
def readYear (cs : List Char) : Option (ℤ × List Char) :=
  if cs.head? = some '+' then (readNumber 6 cs.tail).map fun (n, rest) => (n, rest)
  else if cs.head? = some '-' then
    (readNumber 6 cs.tail).bind fun (n, rest) => if n = 0 then none else some (-n, rest)
  else (readNumber 4 cs).map fun (n, rest) => (n, rest)

/-- A number behind its sign. -/
def readField (sign : Char) (k : ℕ) (cs : List Char) : Option (ℕ × List Char) :=
  if cs.head? = some sign then readNumber k cs.tail else none

/-- The fields of a text, all of it. -/
def parseFields (cs : List Char) : Option Fields := do
  let (year, cs) ← readYear cs
  let (month, cs) ← readField '-' 2 cs
  let (day, cs) ← readField '-' 2 cs
  let (hour, cs) ← readField 'T' 2 cs
  let (minute, cs) ← readField ':' 2 cs
  let (second, cs) ← readField ':' 2 cs
  let (ms, cs) ← readField '.' 3 cs
  if cs = ['Z'] ∧ 1 ≤ month ∧ 1 ≤ day then
    some { year, month := month - 1, day := day - 1, hour, minute, second, ms }
  else none

instance (f : Fields) : Decidable f.InRange :=
  decidable_of_iff (f.month < 12 ∧ f.day < 31 ∧ f.hour < 24 ∧ f.minute < 60 ∧ f.second < 60 ∧ f.ms < 1000)
    ⟨fun ⟨h₁, h₂, h₃, h₄, h₅, h₆⟩ => ⟨h₁, h₂, h₃, h₄, h₅, h₆⟩,
      fun h => ⟨h.month, h.day, h.hour, h.minute, h.second, h.ms⟩⟩

/-- The instant of a text in the form that `toISOString` writes. -/
def parse (s : String) : Option ℤ := do
  let f ← parseFields s.toList
  if f.InRange ∧ (makeTime f).natAbs ≤ maxTime then some (makeTime f) else none

theorem readField_cons {k n : ℕ} (h : n < 10 ^ k) (sign : Char) (rest : List Char) :
    readField sign k (sign :: (pad k n ++ rest)) = some (n, rest) := by
  unfold readField
  rw [List.head?_cons, if_pos rfl, List.tail_cons, readNumber_pad h]

theorem readYear_yearText {y : ℤ} (h : y.natAbs < 1000000) (rest : List Char) :
    readYear (yearText y ++ rest) = some (y, rest) := by
  unfold yearText
  split_ifs with hshort hneg
  · -- four digits begin with neither sign
    have hlt : y.toNat < 10 ^ 4 := by omega
    have hsign : ∀ sign : Char, sign.isDigit = false → (pad 4 y.toNat ++ rest).head? ≠ some sign := by
      intro sign hs hhead
      rcases hpad : pad 4 y.toNat with _ | ⟨c, cs⟩
      · have hlength := length_pad 4 y.toNat
        rw [hpad] at hlength
        cases hlength
      · have hdigits := all_isDigit_pad 4 y.toNat
        rw [hpad] at hdigits hhead
        cases hhead
        rw [List.all_cons, hs] at hdigits
        cases hdigits
    unfold readYear
    rw [if_neg (hsign '+' (by decide)), if_neg (hsign '-' (by decide)), readNumber_pad hlt, Option.map_some]
    exact congrArg (fun y => some (y, rest)) (Int.toNat_of_nonneg hshort.1)
  · have hne : y.natAbs ≠ 0 := by omega
    unfold readYear
    rw [List.cons_append, List.head?_cons, if_neg (by decide), if_pos rfl, List.tail_cons,
      readNumber_pad (by omega), Option.bind_some]
    show (if y.natAbs = 0 then none else some (-(y.natAbs : ℤ), rest)) = some (y, rest)
    rw [if_neg hne]
    exact congrArg (fun y => some (y, rest)) (by omega)
  · unfold readYear
    rw [List.cons_append, List.head?_cons, if_pos rfl, List.tail_cons, readNumber_pad (by omega),
      Option.map_some]
    exact congrArg (fun y => some (y, rest)) (Int.natAbs_of_nonneg (by omega))

theorem parseFields_text {f : Fields} (h : f.InRange) (hy : f.year.natAbs < 1000000) :
    parseFields (text f) = some f := by
  obtain ⟨hmonth, hday, hhour, hminute, hsecond, hms⟩ := h
  unfold parseFields text
  rw [readYear_yearText hy]
  simp only [Option.bind_eq_bind, Option.bind_some]
  rw [readField_cons (by omega), Option.bind_some, readField_cons (by omega), Option.bind_some,
    readField_cons (by omega), Option.bind_some, readField_cons (by omega), Option.bind_some,
    readField_cons (by omega), Option.bind_some, readField_cons (by omega), Option.bind_some]
  simp

/-- The years that instants are in have six digits. -/
theorem year_bound {t : ℤ} (h : t.natAbs ≤ maxTime) : (fields t).year.natAbs < 1000000 := by
  have hspec := yearFromDay_spec (t / msPerDay)
  show (yearFromDay (t / msPerDay)).natAbs < 1000000
  unfold maxTime at h
  unfold dayFromYear msPerDay at hspec
  unfold msPerDay
  omega

/-- **An instant is read back from its text.** -/
theorem parse_toISOString {t : ℤ} (h : t.natAbs ≤ maxTime) :
    ∃ s, toISOString t = some s ∧ parse s = some t := by
  refine ⟨_, if_pos h, ?_⟩
  unfold parse
  rw [String.toList_ofList, parseFields_text (fields_inRange t) (year_bound h)]
  show (if _ then _ else _) = _
  rw [makeTime_fields, if_pos ⟨fields_inRange t, h⟩]

end Neltrik.Lib.IsoInstant
