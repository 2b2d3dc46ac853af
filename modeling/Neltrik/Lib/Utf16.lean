import Mathlib.Data.List.Basic
import Mathlib.Data.Nat.Notation

/-! # Texts in code units

A text of JavaScript is a list of 16-bit units, and any list is one. `utf8` is its encoding in bytes: a pair
of surrogates makes four bytes, and a surrogate on its own is replaced.

`length_utf8_eq_iff`: the bytes are as many as the units exactly for ASCII, and there they are the units
(`utf8_of_ascii`). -/

namespace Neltrik.Lib.Utf16

/-- A text as its code units. -/
abbrev Units := List UInt16

/-- A character beyond the first 65536 is a pair of surrogates. -/
def ofChar (c : Char) : Units :=
  if c.toNat < 0x10000 then [UInt16.ofNat c.toNat]
  else [UInt16.ofNat (0xD800 + (c.toNat - 0x10000) / 1024), UInt16.ofNat (0xDC00 + (c.toNat - 0x10000) % 1024)]

/-- The units of a text without unpaired surrogates. -/
def ofString (s : String) : Units := s.toList.flatMap ofChar

/-- The first half of a pair. -/
def isHigh (u : UInt16) : Bool := 0xD800 ≤ u && u < 0xDC00

/-- The second half of a pair. -/
def isLow (u : UInt16) : Bool := 0xDC00 ≤ u && u < 0xE000

/-- The byte with these bits. -/
def byte (n : ℕ) : UInt8 := UInt8.ofNat n

/-- The bytes of a unit on its own. -/
def single (u : UInt16) : List UInt8 :=
  if u < 0x80 then [byte u.toNat]
  else if u < 0x800 then [byte (0xC0 + u.toNat / 64), byte (0x80 + u.toNat % 64)]
  else if isHigh u || isLow u then [0xEF, 0xBF, 0xBD]
  else [byte (0xE0 + u.toNat / 4096), byte (0x80 + u.toNat / 64 % 64), byte (0x80 + u.toNat % 64)]

/-- The bytes of a high and a low surrogate. -/
def pair (u v : UInt16) : List UInt8 :=
  let n := 0x10000 + (u.toNat - 0xD800) * 1024 + (v.toNat - 0xDC00)
  [byte (0xF0 + n / 262144), byte (0x80 + n / 4096 % 64), byte (0x80 + n / 64 % 64), byte (0x80 + n % 64)]

/-- The bytes of a text; a half without the other is replaced. -/
def utf8 : Units → List UInt8
  | [] => []
  | [u] => single u
  | u :: v :: us => if isHigh u && isLow v then pair u v ++ utf8 us else single u ++ utf8 (v :: us)

theorem single_of_lt {u : UInt16} (h : u < 0x80) : single u = [byte u.toNat] := if_pos h

theorem one_le_length_single (u : UInt16) : 1 ≤ (single u).length := by
  unfold single
  split_ifs <;> simp

theorem length_single_eq_one_iff {u : UInt16} : (single u).length = 1 ↔ u < 0x80 := by
  unfold single
  split_ifs with h <;> simp [h]

theorem not_lt_of_isHigh {u : UInt16} (h : isHigh u = true) : ¬ u < 0x80 := by
  unfold isHigh at h
  rw [Bool.and_eq_true, decide_eq_true_eq, decide_eq_true_eq] at h
  rw [UInt16.not_lt]
  exact UInt16.le_trans (by decide) h.1

/-- There are no fewer bytes than units, and as many exactly for ASCII. -/
theorem length_utf8 (us : Units) :
    us.length ≤ (utf8 us).length ∧ ((utf8 us).length = us.length ↔ ∀ u ∈ us, u < 0x80) := by
  induction us using utf8.induct with
  | case1 => exact ⟨Nat.le_refl _, iff_of_true rfl (List.forall_mem_nil _)⟩
  | case2 u =>
    rw [utf8, List.forall_mem_singleton, List.length_singleton]
    exact ⟨one_le_length_single u, length_single_eq_one_iff⟩
  | case3 u v us h ih =>
    rw [Bool.and_eq_true] at h
    have hlen : (utf8 (u :: v :: us)).length = 4 + (utf8 us).length := by
      rw [utf8, if_pos (Bool.and_eq_true _ _ ▸ h), List.length_append]
      rfl
    rw [hlen, List.length_cons, List.length_cons]
    refine ⟨by omega, iff_of_false (by omega) fun hall => ?_⟩
    exact not_lt_of_isHigh h.1 (hall u List.mem_cons_self)
  | case4 u v us h ih =>
    have hone := one_le_length_single u
    have hlen : (utf8 (u :: v :: us)).length = (single u).length + (utf8 (v :: us)).length := by
      rw [utf8, if_neg h, List.length_append]
    rw [hlen, List.length_cons, List.forall_mem_cons, ← ih.2, ← length_single_eq_one_iff]
    have hle := ih.1
    omega

theorem utf8_of_ascii {us : Units} (h : ∀ u ∈ us, u < 0x80) : utf8 us = us.map fun u => byte u.toNat := by
  induction us using utf8.induct with
  | case1 => rfl
  | case2 u => exact single_of_lt (h u List.mem_cons_self)
  | case3 u v us hp =>
    rw [Bool.and_eq_true] at hp
    exact absurd (h u List.mem_cons_self) (not_lt_of_isHigh hp.1)
  | case4 u v us hp ih =>
    obtain ⟨hu, hrest⟩ := List.forall_mem_cons.mp h
    rw [utf8, if_neg hp, single_of_lt hu, ih hrest]
    rfl

theorem byte_injective {u v : UInt16} (hu : u < 0x80) (hv : v < 0x80) (h : byte u.toNat = byte v.toNat) : u = v := by
  have hu' : u.toNat < 128 := UInt16.lt_iff_toNat_lt.mp hu
  have hv' : v.toNat < 128 := UInt16.lt_iff_toNat_lt.mp hv
  have hmod : u.toNat % 256 = v.toNat % 256 := by
    have hnat := congrArg UInt8.toNat h
    unfold byte at hnat
    rwa [UInt8.toNat_ofNat', UInt8.toNat_ofNat'] at hnat
  refine UInt16.toNat_inj.mp ?_
  omega

/-- ASCII texts with the same bytes are the same. -/
theorem utf8_inj {us vs : Units} (hus : ∀ u ∈ us, u < 0x80) (hvs : ∀ v ∈ vs, v < 0x80) :
    utf8 us = utf8 vs ↔ us = vs := by
  refine ⟨fun h => ?_, congrArg utf8⟩
  rw [utf8_of_ascii hus, utf8_of_ascii hvs] at h
  induction us generalizing vs with
  | nil => exact (List.map_eq_nil_iff.mp h.symm).symm
  | cons u us ih =>
    rcases vs with _ | ⟨v, vs⟩
    · cases h
    obtain ⟨hu, hus⟩ := List.forall_mem_cons.mp hus
    obtain ⟨hv, hvs⟩ := List.forall_mem_cons.mp hvs
    obtain ⟨hhead, htail⟩ := List.cons.inj h
    rw [byte_injective hu hv hhead, ih hus hvs htail]

end Neltrik.Lib.Utf16
