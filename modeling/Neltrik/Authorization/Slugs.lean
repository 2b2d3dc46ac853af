import Neltrik.Authorization.UseCases
import Neltrik.Lib.Runs

/-! # The slugs of tenants

A slug is made of the name of the tenant and the first eight characters of its id. What `normalize` leaves
of the name may begin or end with a hyphen, hold nothing at all, or be as long as the name, and the hyphen
before the id is added whatever comes before it.

`slug_sound_iff`: the slug is joined words, ends with the eight characters and fits into its column exactly
when the decomposed name has a letter or digit at either end, none of its letters and digits and runs of
separators is beyond 91, and the id begins in lower case. -/

namespace Neltrik.Authorization.Slugs

open Neltrik.Lib Neltrik.Lib.Runs Neltrik.Shared Neltrik.Authorization

/-- The name that `createTenantSchema` accepts: trimmed, with one code unit at least and 255 at most. -/
structure TenantName where
  text : String
  trimmed : trim text = text
  min : 1 ≤ codeUnits text
  max : codeUnits text ≤ 255

/-- `z.string().trim().min(1).max(255)`. -/
def TenantName.parse (name : String) : Option TenantName :=
  if h : 1 ≤ codeUnits (trim name) ∧ codeUnits (trim name) ≤ 255 then
    some ⟨trim name, trim_trim name, h.1, h.2⟩
  else none

/-- A hexadecimal digit of either case, as `z.uuid()` reads it. -/
def isHex (c : Char) : Bool := isHexDigit c || ('A' ≤ c && c ≤ 'F')

/-- A UUID, with its first group and what follows it. -/
structure Uuid where
  text : String
  shape : let groups := text.toList.splitOn '-'
    groups.map List.length = [8, 4, 4, 4, 12] ∧ groups.all (·.all isHex) = true

/-- `[\u0300-\u036f]`. -/
def isCombining (c : Char) : Bool := '\u0300' ≤ c && c ≤ '\u036f'

/-- `[a-z0-9]`. -/
def isSlugChar (c : Char) : Bool := ('a' ≤ c && c ≤ 'z') || ('0' ≤ c && c ≤ '9')

/-- `[a-z0-9\s-]`. -/
def isKept (c : Char) : Bool := isSlugChar c || isSpace c || c == '-'

namespace SlugGenerator

variable (toLowerCase normalizeNFD : String → String)

/-- The name in lower case and decomposed. -/
def decomposed (value : String) : List Char := (normalizeNFD (toLowerCase (trim value))).toList

/-- The name, up to the join with the id. -/
def normalizedName (value : String) : List Char :=
  let text := (decomposed toLowerCase normalizeNFD value).filter (!isCombining ·)
  let text := text.filter isKept
  let text := squeeze isSpace '-' text
  squeeze (· == '-') '-' text

/-- `SlugGenerator.generate`. -/
def generate (value id : String) : String :=
  String.ofList (normalizedName toLowerCase normalizeNFD value ++ '-' :: id.toList.take 8)

end SlugGenerator

/-! ## Characters -/

section
variable {c : Char}

theorem isSlugChar_iff : isSlugChar c = true ↔
    (97 ≤ c.toNat ∧ c.toNat ≤ 122) ∨ (48 ≤ c.toNat ∧ c.toNat ≤ 57) := by
  simp only [isSlugChar, Bool.or_eq_true, Bool.and_eq_true, decide_eq_true_eq]
  exact Iff.rfl

theorem isCombining_iff : isCombining c = true ↔ 0x300 ≤ c.toNat ∧ c.toNat ≤ 0x36f := by
  simp only [isCombining, Bool.and_eq_true, decide_eq_true_eq]
  exact Iff.rfl

theorem isHexDigit_iff : isHexDigit c = true ↔
    (48 ≤ c.toNat ∧ c.toNat ≤ 57) ∨ (97 ≤ c.toNat ∧ c.toNat ≤ 102) := by
  simp only [isHexDigit, Char.isDigit, Bool.or_eq_true, Bool.and_eq_true, decide_eq_true_eq]
  exact Iff.rfl

theorem isHex_iff : isHex c = true ↔ isHexDigit c = true ∨ (65 ≤ c.toNat ∧ c.toNat ≤ 70) := by
  simp only [isHex, Bool.or_eq_true, Bool.and_eq_true, decide_eq_true_eq]
  exact Iff.rfl

/-- Where white space is. -/
theorem bounds_of_isSpace (h : isSpace c = true) : c.toNat ≤ 32 ∨ c.toNat = 0xa0 ∨ 0x1680 ≤ c.toNat := by
  simp only [isSpace, Bool.or_eq_true, Bool.and_eq_true, decide_eq_true_eq, List.mem_cons, List.not_mem_nil,
    or_false] at h
  rcases h with h | h
  · rcases h with rfl | rfl | rfl | rfl | rfl | rfl | rfl | rfl | rfl | rfl | rfl | rfl | rfl | rfl
    all_goals decide
  · have hle : 0x2000 ≤ c.toNat := h.1
    omega

theorem eq_hyphen_iff : c = '-' ↔ c.toNat = 45 := Char.toNat_inj.symm

/-- What the first removal takes, the second one would. -/
theorem isKept_of_isCombining (h : isCombining c = true) : isKept c = false := by
  rw [isCombining_iff] at h
  by_contra hk
  simp only [isKept, Bool.not_eq_false, Bool.or_eq_true, beq_iff_eq, eq_hyphen_iff, isSlugChar_iff] at hk
  rcases hk with (hk | hk) | hk
  · omega
  · have hs := bounds_of_isSpace hk
    omega
  · omega

/-- The letters and digits among what is kept. -/
theorem isSlugChar_of_isKept (h : isKept c = true) : isSlugChar c = !orEq isSpace '-' c := by
  rw [Bool.eq_iff_iff, Bool.not_eq_true']
  constructor
  · intro hslug
    rw [orEq, Bool.or_eq_false_iff]
    rw [isSlugChar_iff] at hslug
    constructor
    · refine Bool.eq_false_iff.mpr fun hs => ?_
      have hbounds := bounds_of_isSpace hs
      omega
    · refine beq_eq_false_iff_ne.mpr fun he => ?_
      rw [eq_hyphen_iff] at he
      omega
  · intro hsep
    rw [isKept, Bool.or_assoc] at h
    exact (Bool.or_eq_true_iff.mp h).resolve_right (by rw [orEq] at hsep; rw [hsep]; exact Bool.false_ne_true)

end

/-! ## The first group of a UUID -/

theorem Uuid.take_eight (id : Uuid) :
    (id.text.toList.take 8).length = 8 ∧ ∀ c ∈ id.text.toList.take 8, isHex c = true := by
  obtain ⟨hlengths, hhex⟩ := id.shape
  rcases hgroups : id.text.toList.splitOn '-' with _ | ⟨first, rest⟩
  · rw [hgroups] at hlengths
    cases hlengths
  · have htext : ['-'].intercalate (id.text.toList.splitOn '-') = id.text.toList :=
      List.intercalate_splitOn '-'
    rw [hgroups] at hlengths hhex htext
    obtain ⟨hfirst, hrest⟩ := List.cons.inj hlengths
    have hne : rest ≠ [] := by
      rintro rfl
      cases hrest
    have htake : id.text.toList.take 8 = first := by
      rw [← htext, List.intercalate_cons_of_ne_nil hne, List.append_assoc, ← hfirst, List.take_left]
    rw [htake]
    refine ⟨hfirst, fun c hc => ?_⟩
    have hall := List.all_eq_true.mp hhex first List.mem_cons_self
    exact List.all_eq_true.mp hall c hc

/-- The first group is a word exactly when it is in lower case. -/
theorem Uuid.joined_iff (id : Uuid) : Joined '-' (isSlugChar · = true) (id.text.toList.take 8) ↔
    ∀ c ∈ id.text.toList.take 8, isHexDigit c = true := by
  obtain ⟨hlength, hhex⟩ := id.take_eight
  constructor
  · intro h c hc
    have hmem := ((Runs.joined_iff (by decide)).mp h).1 c hc
    have hc' := hhex c hc
    rw [isSlugChar_iff, eq_hyphen_iff] at hmem
    rw [isHex_iff] at hc'
    refine hc'.resolve_right fun hupper => ?_
    omega
  · intro h
    refine joined_word (fun he => ?_) fun c hc => ?_
    · rw [he] at hlength
      cases hlength
    · have hc' := h c hc
      rw [isHexDigit_iff] at hc'
      rw [isSlugChar_iff]
      omega

/-! ## The slug -/

/-- What a slug has to be. -/
structure SlugSound (slug id : String) : Prop where
  /-- groups of `a-z0-9` with single hyphens between them -/
  words : Joined '-' (isSlugChar · = true) slug.toList
  suffix : id.toList.take 8 <:+ slug.toList
  /-- `VARCHAR(100)` -/
  storable : slug.toList.length ≤ 100

/-- What the decomposed name has to be, and the id. Of the name only what `isKept` tells counts. -/
structure Sluggable (name : List Char) (id : String) : Prop where
  first : ∃ c, name.find? isKept = some c ∧ isSlugChar c = true
  last : ∃ c, name.reverse.find? isKept = some c ∧ isSlugChar c = true
  short : name.countP isSlugChar + runs (orEq isSpace '-') (name.filter isKept) ≤ 91
  lower : ∀ c ∈ id.toList.take 8, isHexDigit c = true

section
variable (toLowerCase normalizeNFD : String → String)

/-- The five passes are one removal and one squeezing. -/
theorem SlugGenerator.normalizedName_eq (value : String) : normalizedName toLowerCase normalizeNFD value =
    squeeze (orEq isSpace '-') '-' ((decomposed toLowerCase normalizeNFD value).filter isKept) := by
  have hfilter : ∀ cs : List Char, (cs.filter (!isCombining ·)).filter isKept = cs.filter isKept := by
    intro cs
    rw [List.filter_filter]
    refine List.filter_congr fun c _ => ?_
    cases hc : isCombining c with
    | false => exact Bool.and_true _
    | true => rw [isKept_of_isCombining hc]; rfl
  rw [normalizedName, squeeze_squeeze, hfilter]

theorem SlugGenerator.toList_generate (value id : String) :
    (generate toLowerCase normalizeNFD value id).toList =
      normalizedName toLowerCase normalizeNFD value ++ '-' :: id.toList.take 8 :=
  String.toList_ofList

/-- The letters and digits, among all or among what is kept. -/
theorem countP_kept (cs : List Char) :
    (cs.filter isKept).countP (!orEq isSpace '-' ·) = cs.countP isSlugChar := by
  rw [List.countP_filter]
  refine List.countP_congr fun c _ => ?_
  cases hkept : isKept c with
  | true => rw [Bool.and_true, isSlugChar_of_isKept hkept]
  | false =>
    have hslug : isSlugChar c = false := by
      rw [isKept, Bool.or_eq_false_iff, Bool.or_eq_false_iff] at hkept
      exact hkept.1.1
    rw [Bool.and_false, hslug]

theorem end_kept_iff {cs : List Char} :
    (∃ c, cs.find? isKept = some c ∧ orEq isSpace '-' c = false) ↔
      ∃ c, cs.find? isKept = some c ∧ isSlugChar c = true := by
  refine exists_congr fun c => and_congr_right fun hfind => ?_
  rw [isSlugChar_of_isKept (List.find?_some hfind), Bool.not_eq_true']

/-- The words of a slug. -/
theorem SlugGenerator.joined_generate_iff (value : String) (id : Uuid) :
    Joined '-' (isSlugChar · = true) (generate toLowerCase normalizeNFD value id.text).toList ↔
      ((∃ c, (decomposed toLowerCase normalizeNFD value).find? isKept = some c ∧ isSlugChar c = true) ∧
        ∃ c, (decomposed toLowerCase normalizeNFD value).reverse.find? isKept = some c ∧
          isSlugChar c = true) ∧
      ∀ c ∈ id.text.toList.take 8, isHexDigit c = true := by
  have hP : ∀ c ∈ (decomposed toLowerCase normalizeNFD value).filter isKept,
      orEq isSpace '-' c = false → isSlugChar c = true := by
    intro c hc hsep
    rw [isSlugChar_of_isKept (List.mem_filter.mp hc).2, hsep]
    rfl
  rw [toList_generate, joined_append (by decide), id.joined_iff, normalizedName_eq,
    joined_squeeze_iff (by decide) hP (by decide), List.head?_filter, List.getLast?_filter, end_kept_iff,
    end_kept_iff]

/-- **When the slug of a tenant is what it has to be.** -/
theorem slug_sound_iff (name : TenantName) (id : Uuid) :
    SlugSound (SlugGenerator.generate toLowerCase normalizeNFD name.text id.text) id.text ↔
      Sluggable (normalizeNFD (toLowerCase name.text)).toList id.text := by
  have hname : (normalizeNFD (toLowerCase name.text)).toList =
      SlugGenerator.decomposed toLowerCase normalizeNFD name.text := by
    rw [SlugGenerator.decomposed, name.trimmed]
  have hwords := SlugGenerator.joined_generate_iff toLowerCase normalizeNFD name.text id
  have hlength : (SlugGenerator.generate toLowerCase normalizeNFD name.text id.text).toList.length =
      (normalizeNFD (toLowerCase name.text)).toList.countP isSlugChar +
        runs (orEq isSpace '-') ((normalizeNFD (toLowerCase name.text)).toList.filter isKept) + 9 := by
    rw [SlugGenerator.toList_generate, List.length_append, List.length_cons, id.take_eight.1,
      SlugGenerator.normalizedName_eq, length_squeeze, countP_kept, hname]
  rw [← hname] at hwords
  constructor
  · rintro ⟨hjoined, -, hstorable⟩
    obtain ⟨⟨hfirst, hlast⟩, hlower⟩ := hwords.mp hjoined
    rw [hlength] at hstorable
    exact ⟨hfirst, hlast, by omega, hlower⟩
  · rintro ⟨hfirst, hlast, hshort, hlower⟩
    refine ⟨hwords.mpr ⟨⟨hfirst, hlast⟩, hlower⟩, ?_, by omega⟩
    rw [SlugGenerator.toList_generate]
    exact (List.suffix_cons '-' _).trans (List.suffix_append _ _)

end

/-- `toLowerCase` on ASCII. -/
def toLowerAscii (s : String) : String := String.ofList (s.toList.map Char.toLower)

/-- An id. -/
def acmeId : Uuid := ⟨"550e8400-e29b-41d4-a716-446655440000", by decide⟩

/-- A name of punctuation marks. -/
def marks : TenantName := ⟨"!!!", by decide, by decide, by decide⟩

example : SlugGenerator.generate toLowerAscii (fun s => s) "  Acme & Corp!" acmeId.text =
    "acme-corp-550e8400" := by decide

/-- The slug of `!!!` is `-550e8400`. -/
theorem slug_of_marks : ¬ ∀ (name : TenantName) (id : Uuid),
    SlugSound (SlugGenerator.generate toLowerAscii (fun s => s) name.text id.text) id.text := by
  intro h
  have hwords := (h marks acmeId).words
  rw [SlugGenerator.joined_generate_iff] at hwords
  obtain ⟨⟨⟨c, hfind, -⟩, -⟩, -⟩ := hwords
  have hnone : (SlugGenerator.decomposed toLowerAscii (fun s => s) marks.text).find? isKept = none := by decide
  rw [hnone] at hfind
  cases hfind

/-! ## The tenant that is created -/

theorem TenantName.not_blank (name : TenantName) : isBlank name.text = false := by
  refine Bool.eq_false_iff.mpr fun hblank => ?_
  have hnil : trim name.text = "" := by
    rw [trim, dropWhile_of_forall (List.all_eq_true.mp hblank)]
    rfl
  have hmin := name.min
  rw [← name.trimmed, hnil] at hmin
  exact absurd hmin (by decide)

theorem SlugGenerator.not_blank (toLowerCase normalizeNFD : String → String) (value id : String) :
    isBlank (generate toLowerCase normalizeNFD value id) = false := by
  rw [isBlank_eq_false_iff]
  refine ⟨'-', ?_, by decide⟩
  rw [toList_generate]
  exact List.mem_append_right _ List.mem_cons_self

/-- The tenant passes its own checks whatever the slug has become, and is handed to the repository. -/
theorem createTenant_eq (toLowerCase normalizeNFD : String → String) (name : TenantName) (id : Uuid)
    (type : TenantType) (now : ℕ) :
    ∃ t : Tenant, t.slug = SlugGenerator.generate toLowerCase normalizeNFD name.text id.text ∧
      CreateTenant.execute (SlugGenerator.generate toLowerCase normalizeNFD) id.text name.text type now =
        TenantRepository.create t := by
  let props : TenantProps :=
    { id := id.text, name := name.text, type, status := .active, version := 0, createdAt := now,
      slug := SlugGenerator.generate toLowerCase normalizeNFD name.text id.text
      updatedAt := now, suspendedAt := none }
  have hslug : isBlank props.slug = false := SlugGenerator.not_blank toLowerCase normalizeNFD name.text id.text
  have hcreate : Tenant.create props = .ok ⟨props, name.not_blank, hslug⟩ := by
    unfold Tenant.create Tenant.ofProps
    rw [dif_pos name.not_blank, dif_pos hslug]
  refine ⟨⟨props, name.not_blank, hslug⟩, rfl, ?_⟩
  show (Effect.lift (Tenant.create props) >>= TenantRepository.create) = _
  rw [hcreate]
  rfl

end Neltrik.Authorization.Slugs
