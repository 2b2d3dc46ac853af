import Neltrik.Lib.Scan
import Neltrik.Lib.Utf16

/-! # CSRF tokens

`CsrfTokenProvider` over texts in code units, since `length` counts units and `timingSafeEqual` compares
bytes. `hmac` is what `createHmac("sha256", secret).update(message).digest("hex")` makes of a message.

The messages of different sessions are different (`buildMessage_inj`). `verify` looks at the length in units
before it compares bytes, so a token whose first part is not ASCII makes it throw: `binding_iff`. -/

namespace Neltrik.Shared.CsrfTokenProvider

open Neltrik.Lib.Scan Neltrik.Lib.Utf16

/-- The separator of the token. -/
def dot : UInt16 := 46

/-- The separator of the message. -/
def bang : UInt16 := 33

/-- A digit of a hexadecimal number, in lower case. -/
def isHex (u : UInt16) : Bool := (48 ≤ u && u ≤ 57) || (97 ≤ u && u ≤ 102)

/-- 32 bytes in hexadecimal digits. -/
abbrev Hex32 := { us : Units // us.length = 64 ∧ ∀ u ∈ us, isHex u = true }

/-- What `timingSafeEqual` throws on buffers of different lengths. -/
inductive CryptoError where
  | timingSafeEqualLength
  deriving DecidableEq

/-- `crypto.timingSafeEqual`. -/
def timingSafeEqual (a b : List UInt8) : Except CryptoError Bool :=
  if a.length = b.length then .ok (a == b) else .error .timingSafeEqualLength

/-- The number in a template literal. -/
def decimal (n : ℕ) : Units := (Nat.toDigits 10 n).map fun c => UInt16.ofNat c.toNat

/-- `CsrfTokenProvider.buildMessage`. -/
def buildMessage (sessionId randomValue : Units) : Units :=
  decimal sessionId.length ++ bang :: (sessionId ++ bang :: (decimal randomValue.length ++ bang :: randomValue))

section Provider
variable (hmac : Units → Hex32)

/-- The token with the random value, which `generate` draws. -/
def token (sessionId randomValue : Units) : Units :=
  (hmac (buildMessage sessionId randomValue)).1 ++ dot :: randomValue

/-- `CsrfTokenProvider.generate`. -/
def generate (sessionId : Units) (randomValue : Hex32) : Units := token hmac sessionId randomValue.1

/-- `CsrfTokenProvider.verify`. -/
def verify (token : Option Units) (sessionId : Units) : Except CryptoError Bool :=
  match token with
  | none => .ok false
  | some token =>
    if token = [] then .ok false
    else
      match token.splitOn dot with
      | [hmacFromToken, randomValue] =>
        if hmacFromToken = [] ∨ randomValue = [] then .ok false
        else if hmacFromToken.length ≠ 64 then .ok false
        else timingSafeEqual (utf8 hmacFromToken) (utf8 (hmac (buildMessage sessionId randomValue)).1)
      | _ => .ok false

end Provider

/-! ## Messages -/

theorem toNat_of_mem_toDigits {n : ℕ} {c : Char} (h : c ∈ Nat.toDigits 10 n) : 48 ≤ c.toNat ∧ c.toNat ≤ 57 := by
  have hdigit := Nat.isDigit_of_mem_toDigits (by decide) (by decide) h
  unfold Char.isDigit at hdigit
  rw [Bool.and_eq_true, decide_eq_true_eq, decide_eq_true_eq] at hdigit
  exact hdigit

theorem toNat_of_mem_decimal {n : ℕ} {u : UInt16} (h : u ∈ decimal n) : 48 ≤ u.toNat ∧ u.toNat ≤ 57 := by
  obtain ⟨c, hc, rfl⟩ := List.mem_map.mp h
  have hdigit := toNat_of_mem_toDigits hc
  rw [UInt16.toNat_ofNat']
  omega

/-- The digits are read off the units. -/
theorem map_decimal (n : ℕ) : (decimal n).map (fun u => Char.ofNat u.toNat) = Nat.toDigits 10 n := by
  unfold decimal
  rw [List.map_map]
  refine (List.map_congr_left fun c hc => ?_).trans (List.map_id _)
  have hdigit := toNat_of_mem_toDigits hc
  have hnat : (UInt16.ofNat c.toNat).toNat = c.toNat := by
    rw [UInt16.toNat_ofNat']
    omega
  rw [Function.comp_apply, hnat, Char.ofNat_toNat]
  rfl

theorem decimal_injective {m n : ℕ} (h : decimal m = decimal n) : m = n := by
  have hdigits : Nat.toDigits 10 m = Nat.toDigits 10 n := by rw [← map_decimal, h, map_decimal]
  rw [← Nat.ofDigitChars_ten_toDigits (n := m), hdigits, Nat.ofDigitChars_ten_toDigits]

/-- A number ends at the separator behind it. -/
theorem decimal_append_inj {m n : ℕ} {us vs : Units} (h : decimal m ++ bang :: us = decimal n ++ bang :: vs) :
    m = n ∧ us = vs := by
  have hspan : ∀ (k : ℕ) (ws : Units), (decimal k ++ bang :: ws).takeWhile (· != bang) = decimal k ∧
      (decimal k ++ bang :: ws).dropWhile (· != bang) = bang :: ws := by
    refine fun k ws => span_append (fun u hu => bne_iff_ne.mpr ?_) fun u hu => ?_
    · rintro rfl
      exact absurd (toNat_of_mem_decimal hu).1 (by decide)
    · cases hu
      rfl
  have htake := (hspan m us).1
  have hdrop := (hspan m us).2
  rw [h, (hspan n vs).1] at htake
  rw [h, (hspan n vs).2] at hdrop
  exact ⟨(decimal_injective htake).symm, (List.cons.inj hdrop).2.symm⟩

/-- **Different sessions and random values have different messages.** -/
theorem buildMessage_inj {s s' r r' : Units} : buildMessage s r = buildMessage s' r' ↔ s = s' ∧ r = r' := by
  refine ⟨fun h => ?_, fun ⟨hs, hr⟩ => by rw [hs, hr]⟩
  obtain ⟨hlen, hrest⟩ := decimal_append_inj h
  obtain ⟨hs, hrest⟩ := List.append_inj hrest hlen
  exact ⟨hs, (decimal_append_inj (List.cons.inj hrest).2).2⟩

/-! ## Tokens -/

theorem lt_of_isHex {u : UInt16} (h : isHex u = true) : u < 0x80 ∧ u ≠ dot := by
  unfold isHex at h
  simp only [Bool.or_eq_true, Bool.and_eq_true, decide_eq_true_eq, UInt16.le_iff_toNat_le] at h
  constructor
  · rw [UInt16.lt_iff_toNat_lt]
    have hle : u.toNat ≤ 102 := by
      rcases h with h | h
      · exact Nat.le_trans h.2 (by decide)
      · exact h.2
    exact Nat.lt_of_le_of_lt hle (by decide)
  · rintro rfl
    revert h
    decide

/-- The two parts of a token, split at its only dot. -/
structure Parts (token hmacFromToken randomValue : Units) : Prop where
  token_eq : token = hmacFromToken ++ dot :: randomValue
  hmac_dot : dot ∉ hmacFromToken
  random_dot : dot ∉ randomValue
  random_ne : randomValue ≠ []
  length : hmacFromToken.length = 64

theorem splitOn_eq_singleton_iff {us vs : Units} : us.splitOn dot = [vs] ↔ us = vs ∧ dot ∉ us := by
  constructor
  · intro h
    by_cases hdot : dot ∈ us
    · obtain ⟨a, b, rfl, ha⟩ := List.eq_append_cons_of_mem hdot
      rw [List.splitOn_append_cons_self_of_not_mem ha] at h
      exact absurd (List.cons.inj h).2 (List.splitOn_ne_nil dot b)
    · rw [List.splitOn_eq_singleton hdot] at h
      exact ⟨(List.cons.inj h).1, hdot⟩
  · rintro ⟨rfl, hdot⟩
    exact List.splitOn_eq_singleton hdot

theorem splitOn_eq_pair_iff {us h r : Units} : us.splitOn dot = [h, r] ↔ us = h ++ dot :: r ∧ dot ∉ h ∧ dot ∉ r := by
  constructor
  · intro heq
    by_cases hdot : dot ∈ us
    · obtain ⟨a, b, rfl, ha⟩ := List.eq_append_cons_of_mem hdot
      rw [List.splitOn_append_cons_self_of_not_mem ha] at heq
      obtain ⟨rfl, hrest⟩ := List.cons.inj heq
      obtain ⟨rfl, hb⟩ := splitOn_eq_singleton_iff.mp hrest
      exact ⟨rfl, ha, hb⟩
    · rw [List.splitOn_eq_singleton hdot] at heq
      exact absurd (List.cons.inj heq).2.symm (List.cons_ne_nil r [])
  · rintro ⟨rfl, hh, hr⟩
    rw [List.splitOn_append_cons_self_of_not_mem hh, List.splitOn_eq_singleton hr]

section Provider
variable {hmac : Units → Hex32} {sessionId : Units}

theorem verify_parts {token h r : Units} (hp : Parts token h r) :
    verify hmac (some token) sessionId = timingSafeEqual (utf8 h) (utf8 (hmac (buildMessage sessionId r)).1) := by
  have hne : token ≠ [] := by
    rw [hp.token_eq]
    exact List.append_ne_nil_of_right_ne_nil h (List.cons_ne_nil dot r)
  have hh : h ≠ [] := List.ne_nil_of_length_pos (by rw [hp.length]; decide)
  have hnot : ¬ (h = [] ∨ r = []) := not_or.mpr ⟨hh, hp.random_ne⟩
  rw [verify, if_neg hne, splitOn_eq_pair_iff.mpr ⟨hp.token_eq, hp.hmac_dot, hp.random_dot⟩]
  dsimp only
  rw [if_neg hnot, if_neg (not_not.mpr hp.length)]

/-- A token that is no such pair is refused. -/
theorem verify_of_not_parts {token : Option Units} (hp : ∀ t h r, token = some t → ¬ Parts t h r) :
    verify hmac token sessionId = .ok false := by
  rcases token with _ | t
  · rfl
  rw [verify]
  split_ifs
  · rfl
  split
  · rename_i h r hsplit
    split_ifs with hempty hlen
    · rfl
    · rfl
    · obtain ⟨heq, hh, hr⟩ := splitOn_eq_pair_iff.mp hsplit
      exact absurd ⟨heq, hh, hr, (not_or.mp hempty).2, not_not.mp hlen⟩ (hp t h r rfl)
  · rfl

/-- An hmac is ASCII, and it has no dot. -/
theorem Hex32.ascii (h : Hex32) : (∀ u ∈ h.1, u < 0x80) ∧ dot ∉ h.1 :=
  ⟨fun u hu => (lt_of_isHex (h.2.2 u hu)).1, fun hdot => (lt_of_isHex (h.2.2 dot hdot)).2 rfl⟩

/-- The parts of a token for a session. -/
theorem parts_token {r : Units} (hne : r ≠ []) (hr : dot ∉ r) :
    Parts (token hmac sessionId r) (hmac (buildMessage sessionId r)).1 r where
  token_eq := rfl
  hmac_dot := (hmac (buildMessage sessionId r)).ascii.2
  random_dot := hr
  random_ne := hne
  length := (hmac (buildMessage sessionId r)).2.1

theorem Parts.unique {t h r h' r' : Units} (hp : Parts t h r) (hp' : Parts t h' r') : h = h' ∧ r = r' := by
  have hpair := splitOn_eq_pair_iff.mpr ⟨hp.token_eq, hp.hmac_dot, hp.random_dot⟩
  rw [splitOn_eq_pair_iff.mpr ⟨hp'.token_eq, hp'.hmac_dot, hp'.random_dot⟩] at hpair
  obtain ⟨hh, hr⟩ := List.cons.inj hpair
  exact ⟨hh.symm, (List.cons.inj hr).1.symm⟩

/-! ## Verification -/

/-- The first part of the token is ASCII, if it has 64 units. -/
def AsciiHmac (t : Option Units) : Prop :=
  ∀ h r, t = some (h ++ dot :: r) → dot ∉ h → dot ∉ r → r ≠ [] → h.length = 64 → ∀ u ∈ h, u < 0x80

theorem length_utf8_hmac (h : Hex32) : (utf8 h.1).length = 64 :=
  ((length_utf8 h.1).2.mpr h.ascii.1).trans h.2.1

/-- The first part is compared when it is ASCII, as the buffers have one length then. -/
theorem verify_of_ascii {t h r : Units} (hp : Parts t h r) (hascii : ∀ u ∈ h, u < 0x80) :
    verify hmac (some t) sessionId = .ok (decide (h = (hmac (buildMessage sessionId r)).1)) := by
  have hlen : (utf8 h).length = (utf8 (hmac (buildMessage sessionId r)).1).length := by
    rw [length_utf8_hmac, (length_utf8 h).2.mpr hascii, hp.length]
  rw [verify_parts hp, timingSafeEqual, if_pos hlen, beq_eq_decide,
    decide_eq_decide.mpr (utf8_inj hascii (hmac _).ascii.1)]

theorem verify_of_not_ascii {t h r : Units} (hp : Parts t h r) (hascii : ¬ ∀ u ∈ h, u < 0x80) :
    verify hmac (some t) sessionId = .error .timingSafeEqualLength := by
  have hlen : ¬ (utf8 h).length = (utf8 (hmac (buildMessage sessionId r)).1).length := by
    rw [length_utf8_hmac, ← hp.length]
    exact mt (length_utf8 h).2.mp hascii
  rw [verify_parts hp, timingSafeEqual, if_neg hlen]

/-- `verify` returns a boolean for the token, `true` exactly for the tokens of the session; so a generated token is
accepted for its own session, and for another one it is refused if the hmac has no collision there. -/
structure Binding (hmac : Units → Hex32) (t : Option Units) (sessionId : Units) : Prop where
  total : ∃ b, verify hmac t sessionId = .ok b ∧
    (b = true ↔ ∃ r, r ≠ [] ∧ dot ∉ r ∧ t = some (token hmac sessionId r))
  own : ∀ r, t = some (generate hmac sessionId r) → verify hmac t sessionId = .ok true
  other : ∀ s r, t = some (generate hmac s r) → s ≠ sessionId →
    (hmac (buildMessage s r.1) = hmac (buildMessage sessionId r.1) →
      buildMessage s r.1 = buildMessage sessionId r.1) → verify hmac t sessionId = .ok false

/-- A generated token has its two parts. -/
theorem parts_generate (s : Units) (r : Hex32) :
    Parts (generate hmac s r) (hmac (buildMessage s r.1)).1 r.1 :=
  parts_token (List.ne_nil_of_length_pos (by rw [r.2.1]; decide)) r.ascii.2

theorem verify_generate (s : Units) (r : Hex32) : verify hmac (some (generate hmac s r)) sessionId =
    .ok (decide (hmac (buildMessage s r.1) = hmac (buildMessage sessionId r.1))) := by
  rw [verify_of_ascii (parts_generate s r) (hmac _).ascii.1, decide_eq_decide.mpr Subtype.val_inj]

theorem total_of_ascii {t : Option Units} (ht : AsciiHmac t) : ∃ b, verify hmac t sessionId = .ok b ∧
    (b = true ↔ ∃ r, r ≠ [] ∧ dot ∉ r ∧ t = some (token hmac sessionId r)) := by
  by_cases hparts : ∃ us h r, t = some us ∧ Parts us h r
  · obtain ⟨us, h, r, rfl, hp⟩ := hparts
    have hascii := ht h r (congrArg some hp.token_eq) hp.hmac_dot hp.random_dot hp.random_ne hp.length
    refine ⟨_, verify_of_ascii hp hascii, ?_⟩
    rw [decide_eq_true_iff]
    constructor
    · intro heq
      refine ⟨r, hp.random_ne, hp.random_dot, congrArg some ?_⟩
      rw [hp.token_eq, heq]
      rfl
    · rintro ⟨r', hne, hdot, heq⟩
      obtain ⟨hh, rfl⟩ := hp.unique (Option.some.inj heq ▸ parts_token hne hdot)
      exact hh
  · have hnot : ∀ us h r, t = some us → ¬ Parts us h r := fun us h r heq hp => hparts ⟨us, h, r, heq, hp⟩
    refine ⟨false, verify_of_not_parts hnot, iff_of_false Bool.false_ne_true ?_⟩
    rintro ⟨r, hne, hdot, heq⟩
    exact hnot _ _ _ heq (parts_token hne hdot)

/-- **Verification is total and binding exactly** for the tokens whose first part is ASCII, if it has 64 units. -/
theorem binding_iff (hmac : Units → Hex32) (t : Option Units) (sessionId : Units) :
    Binding hmac t sessionId ↔ AsciiHmac t := by
  constructor
  · rintro ⟨⟨b, hb, -⟩, -, -⟩ h r rfl hh hr hne hlen
    by_contra hascii
    rw [verify_of_not_ascii ⟨rfl, hh, hr, hne, hlen⟩ hascii] at hb
    cases hb
  · intro ht
    refine ⟨total_of_ascii ht, ?_, ?_⟩
    · rintro r rfl
      rw [verify_generate, decide_eq_true rfl]
    · rintro s r rfl hs hcollision
      rw [verify_generate, decide_eq_false]
      exact fun heq => hs (buildMessage_inj.mp (hcollision heq)).1

/-! ### A first part of 64 letters -/

/-- The hmac that is always the same. -/
def zeros : Hex32 := ⟨List.replicate 64 48, by decide, fun _ hu => List.eq_of_mem_replicate hu ▸ rfl⟩

/-- 64 times `é`, a dot and a letter. -/
def wide : Units := List.replicate 64 0xE9 ++ [dot, 97]

theorem wide_throws : verify (fun _ => zeros) (some wide) [] = .error .timingSafeEqualLength ∧
    ¬ Binding (fun _ => zeros) (some wide) [] := by
  have hthrow : verify (fun _ => zeros) (some wide) [] = .error .timingSafeEqualLength := by decide +kernel
  refine ⟨hthrow, fun h => ?_⟩
  obtain ⟨b, hb, -⟩ := h.total
  rw [hthrow] at hb
  cases hb

end Provider

end Neltrik.Shared.CsrfTokenProvider
