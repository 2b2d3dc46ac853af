import Neltrik.Lib.Html
import Neltrik.Notifications.Template

/-! # What `validateHtml` lets through

The regular expressions look for `<name`, ` name=` and `href="value"` in the body and in what the sanitizer
leaves of it; an item of the body that is not left is reported. HTML writes attributes in other ways too,
and an item that is left in one place says nothing of another.

`Sound` is said of the start tags that a tokenizer of HTML finds, whichever elements have their content
read as text (`rawText`) and whatever the character references of a value stand for (`decode`).
`validateHtml_sound_iff`: an accepted body is sound exactly when nothing that is disallowed in it is hidden
from the regular expressions or by what the sanitizer leaves elsewhere. -/

namespace Neltrik.Notifications.TemplateHtml

open Neltrik.Lib Neltrik.Lib.Html Neltrik.Lib.Scan Neltrik.Shared

/-! ## What is allowed -/

/-- `ALLOWED_ATTRIBUTES`. -/
def allowedAttributes (tag : String) : List String :=
  if tag = "a" then ["href", "target", "rel"]
  else if tag = "img" then ["src", "alt", "width", "height"]
  else if tag = "html" then ["lang"]
  else []

/-- `ALLOWED_SCHEMES`, or `allowedSchemesByTag`. -/
def allowedSchemes (tag : String) : List String :=
  if tag = "img" then ["http", "https"] else ["http", "https", "mailto"]

/-- The scheme of a link as a browser reads it; a relative link has none. -/
def scheme (url : List Char) : Option String :=
  let url := (url.dropWhile fun c => c ≤ ' ').filter fun c => c ≠ '\t' ∧ c ≠ '\n' ∧ c ≠ '\r'
  let word := url.takeWhile fun c => c.isAlphanum || c == '+' || c == '-' || c == '.'
  if word.head?.any Char.isAlpha ∧ (url.drop word.length).head? = some ':' then
    some (String.ofList (word.map Char.toLower))
  else none

/-- The name as a text. -/
def tagName (tag : Tag) : String := String.ofList tag.name

/-- The name as a text. -/
def attributeName (a : Attribute) : String := String.ofList a.name

/-- The value is an address. -/
def isLink (a : Attribute) : Bool := attributeName a == "href" || attributeName a == "src"

section
variable (rawText : List Char → Bool) (decode : List Char → List Char) (sanitizeHtml : String → String)

/-- The tag is in the list. -/
def tagAllowed (tag : Tag) : Bool := allowedTags.contains (tagName tag)

/-- The attribute is in the list of its tag. -/
def attributeAllowed (tag : Tag) (a : Attribute) : Bool :=
  (allowedAttributes (tagName tag)).contains (attributeName a)

/-- The scheme of an address is in the list of its tag. -/
def linkAllowed (tag : Tag) (a : Attribute) : Bool :=
  !isLink a || (scheme (decode a.value)).all (allowedSchemes (tagName tag)).contains

/-- Every start tag is allowed, with its attributes and links. -/
def Sound (body : String) : Prop :=
  ∀ tag ∈ startTags rawText body.toList, tagAllowed tag = true ∧
    ∀ a ∈ tag.attributes, attributeAllowed tag a = true ∧ linkAllowed decode tag a = true

instance (body : String) : Decidable (Sound rawText decode body) :=
  inferInstanceAs (Decidable (∀ tag ∈ startTags rawText body.toList, _))

/-- A start tag as it is read: its name, and the names of its attributes with their values. -/
def read (tag : Tag) : String × List (String × List Char) :=
  (tagName tag, tag.attributes.map fun a => (attributeName a, decode a.value))

/-- The sanitizer keeps exactly the allowed tags of the body, with the allowed attributes and links. -/
def KeepsExactly (body : String) : Prop :=
  (startTags rawText (sanitizeHtml body).toList).map (read decode) =
    ((startTags rawText body.toList).filter tagAllowed).map fun tag =>
      read decode { tag with
        attributes := tag.attributes.filter fun a => attributeAllowed tag a && linkAllowed decode tag a }

instance (body : String) : Decidable (KeepsExactly rawText decode sanitizeHtml body) :=
  inferInstanceAs (Decidable (_ = _))

end

/-! ## What the regular expressions find -/

/-- `<` or `</` stands in the text, and behind it a word of letters and digits that is the name. -/
def TagStands (name html : String) : Prop :=
  ∃ u slash c v, html.toList = u ++ '<' :: (slash ++ c :: v) ∧ (slash = [] ∨ slash = ['/']) ∧
    c.isAlpha = true ∧ (String.ofList (c :: v.takeWhile Char.isAlphanum)).toLower = name

/-- What stands in a name. -/
def isNameLetter (c : Char) : Bool := c.isAlphanum || c == '-'

/-- White space, the name and `=` stand in the text. -/
def AttributeStands (name html : String) : Prop :=
  ∃ u s c rest v, html.toList = u ++ s :: c :: (rest ++ '=' :: v) ∧ isSpace s = true ∧ c.isAlpha = true ∧
    (∀ c' ∈ rest, isNameLetter c' = true) ∧ (String.ofList (c :: rest)).toLower = name

theorem isSpace_of_isNameLetter {c : Char} (h : isNameLetter c = true) : isSpace c = false := by
  rcases Bool.or_eq_true _ _ ▸ h with h | h
  · exact isSpace_of_isAlphanum h
  · rw [beq_iff_eq.mp h]
    decide

theorem attributeName_eq_some {s c : Char} {rest v : List Char} (hs : isSpace s = true)
    (hc : c.isAlpha = true) (hrest : ∀ c' ∈ rest, isNameLetter c' = true) :
    Notifications.attributeName s (c :: (rest ++ '=' :: v)) =
      some (rest.length + 2, String.ofList (c :: rest)) := by
  have htake : (rest ++ '=' :: v).takeWhile (fun c => c.isAlphanum || c == '-') = rest :=
    (takeWhile_append_of_stop (by decide)).trans (List.takeWhile_eq_self_iff.mpr hrest)
  unfold Notifications.attributeName
  simp only [htake, hs, hc, List.drop_left, List.head?_cons, Bool.true_and, decide_true, if_true]

/-- What a match of the expression for attributes looks like. -/
theorem exists_of_attributeName {s : Char} {cs : List Char} {k : ℕ} {name : String}
    (h : Notifications.attributeName s cs = some (k, name)) :
    ∃ c rest v, cs = c :: (rest ++ '=' :: v) ∧ isSpace s = true ∧ c.isAlpha = true ∧
      (∀ c' ∈ rest, isNameLetter c' = true) ∧ k = rest.length + 2 ∧ name = String.ofList (c :: rest) := by
  rcases cs with _ | ⟨c, cs⟩
  · exact absurd h (by simp [Notifications.attributeName])
  unfold Notifications.attributeName at h
  dsimp only at h
  split_ifs at h with hif
  simp only [Bool.and_eq_true, decide_eq_true_eq] at hif
  obtain ⟨⟨hs, hc⟩, hassign⟩ := hif
  obtain ⟨hk, hname⟩ := Prod.mk.inj (Option.some.inj h)
  obtain ⟨v, hv⟩ := exists_eq_takeWhile_append hassign
  refine ⟨c, cs.takeWhile fun c => c.isAlphanum || c == '-', v, ?_, hs, hc, ?_, hk.symm, hname.symm⟩
  · rw [← hv]
  · exact fun c' hc' => List.mem_takeWhile_imp hc'

theorem apart_attributeName : Apart Notifications.attributeName (fun c => isSpace c = true) := by
  intro s cs k name h
  obtain ⟨c, rest, v, rfl, hs, hc, hrest, rfl, -⟩ := exists_of_attributeName h
  refine ⟨hs, fun c' hc' => ?_⟩
  have htake : (c :: (rest ++ '=' :: v)).take (rest.length + 2) = c :: (rest ++ ['=']) := by
    rw [List.take_succ_cons, List.take_append, List.take_of_length_le (by omega)]
    simp
  rw [htake] at hc'
  have hletter : isSpace c' = false := by
    rcases List.mem_cons.mp hc' with rfl | hc'
    · exact isSpace_of_isAlphanum (isAlphanum_of_isAlpha hc)
    rcases List.mem_append.mp hc' with hc' | hc'
    · exact isSpace_of_isNameLetter (hrest c' hc')
    · rw [List.mem_singleton.mp hc']
      decide
  show ¬ isSpace c' = true
  rw [hletter]
  exact Bool.false_ne_true

theorem mem_extractAttributes {name html : String} :
    name ∈ extractAttributes html ↔ AttributeStands name html := by
  unfold extractAttributes AttributeStands
  rw [List.mem_eraseDups, List.mem_map]
  constructor
  · rintro ⟨word, hword, rfl⟩
    obtain ⟨u, s, cs, k, hhtml, hmatch⟩ := exists_match_of_mem hword
    obtain ⟨c, rest, v, rfl, hs, hc, hrest, -, rfl⟩ := exists_of_attributeName hmatch
    exact ⟨u, s, c, rest, v, hhtml, hs, hc, hrest, rfl⟩
  · rintro ⟨u, s, c, rest, v, hhtml, hs, hc, hrest, rfl⟩
    refine ⟨String.ofList (c :: rest), ?_, rfl⟩
    rw [hhtml]
    exact mem_matchAll apart_attributeName (attributeName_eq_some hs hc hrest) u

/-- What a match of the expression for tags looks like. -/
theorem tagName_eq_some {slash v : List Char} {c : Char} (hslash : slash = [] ∨ slash = ['/'])
    (hc : c.isAlpha = true) : Notifications.tagName '<' (slash ++ c :: v) =
      some (slash.length + (v.takeWhile Char.isAlphanum).length + 1,
        String.ofList (c :: v.takeWhile Char.isAlphanum)) := by
  rcases hslash with rfl | rfl
  · have hne : c ≠ '/' := by
      rintro rfl
      exact absurd hc (by decide)
    simp [Notifications.tagName, hne, hc]
  · simp [Notifications.tagName, hc]

theorem exists_of_tagName {s : Char} {cs : List Char} {k : ℕ} {name : String}
    (h : Notifications.tagName s cs = some (k, name)) :
    s = '<' ∧ ∃ slash c v, cs = slash ++ c :: v ∧ (slash = [] ∨ slash = ['/']) ∧ c.isAlpha = true ∧
      k = slash.length + (v.takeWhile Char.isAlphanum).length + 1 ∧
      name = String.ofList (c :: v.takeWhile Char.isAlphanum) := by
  have hs : s = '<' := by
    by_contra hne
    unfold Notifications.tagName at h
    split at h
    · exact hne rfl
    · exact absurd h (by simp)
  subst hs
  refine ⟨rfl, ?_⟩
  have hsplit : ∃ slash cs', cs = slash ++ cs' ∧ (slash = [] ∨ slash = ['/']) ∧
      cs.drop (if cs.head? = some '/' then 1 else 0) = cs' := by
    by_cases hhead : cs.head? = some '/'
    · obtain ⟨cs', rfl⟩ := List.head?_eq_some_iff.mp hhead
      exact ⟨['/'], cs', rfl, Or.inr rfl, by simp⟩
    · exact ⟨[], cs, rfl, Or.inl rfl, by rw [if_neg hhead]; rfl⟩
  obtain ⟨slash, cs', rfl, hslash, hdrop⟩ := hsplit
  have h' := h
  simp only [Notifications.tagName] at h'
  rw [hdrop] at h'
  rcases cs' with _ | ⟨c, v⟩
  · exact absurd h' (by simp)
  dsimp only at h'
  have hc : c.isAlpha = true := by
    by_contra hc
    rw [if_neg hc] at h'
    exact absurd h' (by simp)
  rw [tagName_eq_some hslash hc] at h
  obtain ⟨hk, hname⟩ := Prod.mk.inj (Option.some.inj h)
  exact ⟨slash, c, v, rfl, hslash, hc, hk.symm, hname.symm⟩

theorem apart_tagName : Apart Notifications.tagName (fun c => c = '<') := by
  intro s cs k name h
  obtain ⟨hs, slash, c, v, rfl, hslash, hc, rfl, -⟩ := exists_of_tagName h
  refine ⟨hs, fun c' hc' => ?_⟩
  have htake : (slash ++ c :: v).take (slash.length + (v.takeWhile Char.isAlphanum).length + 1) =
      slash ++ c :: v.takeWhile Char.isAlphanum := by
    rw [List.take_append, List.take_of_length_le (by omega)]
    have hlen : slash.length + (v.takeWhile Char.isAlphanum).length + 1 - slash.length =
        (v.takeWhile Char.isAlphanum).length + 1 := by omega
    have hword : v.take (v.takeWhile Char.isAlphanum).length = v.takeWhile Char.isAlphanum :=
      (List.prefix_iff_eq_take.mp (List.takeWhile_prefix _)).symm
    rw [hlen, List.take_succ_cons, hword]
  rw [htake] at hc'
  rcases List.mem_append.mp hc' with hc' | hc'
  · rcases hslash with rfl | rfl
    · exact absurd hc' List.not_mem_nil
    · rw [List.mem_singleton.mp hc']
      decide
  have hletter : c'.isAlphanum = true := by
    rcases List.mem_cons.mp hc' with rfl | hc'
    · exact isAlphanum_of_isAlpha hc
    · exact List.mem_takeWhile_imp hc'
  rintro rfl
  exact absurd hletter (by decide)

theorem mem_extractTags {name html : String} : name ∈ extractTags html ↔ TagStands name html := by
  unfold extractTags TagStands
  rw [List.mem_eraseDups, List.mem_map]
  constructor
  · rintro ⟨word, hword, rfl⟩
    obtain ⟨u, s, cs, k, hhtml, hmatch⟩ := exists_match_of_mem hword
    obtain ⟨rfl, slash, c, v, rfl, hslash, hc, -, rfl⟩ := exists_of_tagName hmatch
    exact ⟨u, slash, c, v, hhtml, hslash, hc, rfl⟩
  · rintro ⟨u, slash, c, v, hhtml, hslash, hc, rfl⟩
    refine ⟨_, ?_, rfl⟩
    rw [hhtml]
    exact mem_matchAll apart_tagName (tagName_eq_some hslash hc) u

/-! ## What is hidden -/

/-- The letters and digits the name of a tag begins with. -/
def word (tag : Tag) : String := String.ofList (tag.name.takeWhile Char.isAlphanum)

/-- White space stands in front of the name, which is of letters, digits and hyphens, and `=` behind it. -/
def isPlain (a : Attribute) : Bool :=
  isSpace a.before && a.assigned && a.written.head?.any Char.isAlpha && a.written.all isNameLetter

/-- The addresses that the check finds for a link. -/
def extractLinks (a : Attribute) : String → List String :=
  if attributeName a = "href" then extractHrefs else extractSrcs

section
variable (rawText : List Char → Bool) (decode : List Char → List Char) (sanitizeHtml : String → String)

/-- The name goes on behind that of an allowed tag, or its word stands in what the sanitizer leaves. -/
def HidesTag (body : String) (tag : Tag) : Prop :=
  word tag ∈ allowedTags ∨ TagStands (word tag) (sanitizeHtml body)

/-- The attribute is written in another way, or its name stands in what the sanitizer leaves. -/
def HidesAttribute (body : String) (a : Attribute) : Prop :=
  isPlain a = false ∨ AttributeStands (attributeName a) (sanitizeHtml body)

/-- So it is with the attribute, and the link is not found in double quotes or is left elsewhere. -/
def HidesLink (body : String) (a : Attribute) : Prop :=
  HidesAttribute sanitizeHtml body a ∧
    (String.ofList a.value ∉ extractLinks a body ∨ String.ofList a.value ∈ extractLinks a (sanitizeHtml body))

/-- Nothing of a body that is disallowed is hidden. -/
def NothingHidden (body : String) : Prop :=
  ∀ tag ∈ startTags rawText body.toList, (tagAllowed tag = false → ¬ HidesTag sanitizeHtml body tag) ∧
    ∀ a ∈ tag.attributes, (attributeAllowed tag a = false → ¬ HidesAttribute sanitizeHtml body a) ∧
      (linkAllowed decode tag a = false → ¬ HidesLink sanitizeHtml body a)

end

section
variable {rawText : List Char → Bool} {decode : List Char → List Char} {sanitizeHtml : String → String}
  {body : String}

theorem lower_of_isNameLetter {c : Char} (h : isNameLetter c = true) : lower c = c.toLower := by
  unfold lower
  refine if_neg ?_
  rintro rfl
  exact absurd h (by decide)

theorem toLower_ofList (cs : List Char) :
    (String.ofList cs).toLower = String.ofList (cs.map Char.toLower) := by
  refine String.toList_inj.mp ?_
  unfold String.toLower
  rw [String.toList_map, String.toList_ofList, String.toList_ofList]

/-- Inside a word, names are read alike. -/
theorem map_lower_of_isNameLetter {cs : List Char} (h : ∀ c ∈ cs, isNameLetter c = true) :
    cs.map lower = cs.map Char.toLower :=
  List.map_congr_left fun c hc => lower_of_isNameLetter (h c hc)

/-- **A start tag is found** by its word. -/
theorem word_mem_extractTags {tag : Tag} (h : tag ∈ startTags rawText body.toList) :
    word tag ∈ extractTags body := by
  have hin := startTags_stand h
  obtain ⟨u, stop, v, hstop, hbody⟩ := hin.stands
  rcases hwritten : tag.written with _ | ⟨c, written⟩
  · have hletter := hin.letter
    rw [hwritten] at hletter
    exact absurd hletter Bool.false_ne_true
  have hc : c.isAlpha = true := by
    have hletter := hin.letter
    rw [hwritten] at hletter
    exact hletter
  rw [mem_extractTags]
  have hopening : ∃ slash, tag.opening = '<' :: slash ∧ (slash = [] ∨ slash = ['/']) := by
    unfold Tag.opening
    by_cases hend : tag.isEnd = true
    · exact ⟨['/'], if_pos hend, Or.inr rfl⟩
    · exact ⟨[], if_neg hend, Or.inl rfl⟩
  obtain ⟨slash, hopen, hslash⟩ := hopening
  refine ⟨u, slash, c, written ++ stop :: v, ?_, hslash, hc, ?_⟩
  · rw [hbody, hopen, hwritten]
    simp
  · have hends : stop.isAlphanum = false := by
      unfold endsName Html.isBlank at hstop
      simp only [Bool.or_eq_true, beq_iff_eq] at hstop
      rcases hstop with ((((((rfl | rfl) | rfl) | rfl) | rfl) | rfl) | rfl)
      all_goals decide
    have hword : ∀ c' ∈ c :: written.takeWhile Char.isAlphanum, isNameLetter c' = true := by
      refine List.forall_mem_cons.mpr ⟨?_, fun c' hc' => ?_⟩
      · exact Bool.or_eq_true_iff.mpr (Or.inl (isAlphanum_of_isAlpha hc))
      · exact Bool.or_eq_true_iff.mpr (Or.inl (List.mem_takeWhile_imp hc'))
    have hname : tag.name.takeWhile Char.isAlphanum = (c :: written.takeWhile Char.isAlphanum).map lower := by
      have hsame : Char.isAlphanum ∘ lower = Char.isAlphanum := funext isAlphanum_lower
      unfold Tag.name
      rw [hwritten, List.takeWhile_map, hsame, List.takeWhile_cons_of_pos (isAlphanum_of_isAlpha hc)]
    unfold word
    rw [takeWhile_append_of_stop hends, toLower_ofList, hname, map_lower_of_isNameLetter hword]

/-- **An attribute that is plain is found** by its name. -/
theorem attributeName_mem_extractAttributes {tag : Tag} {a : Attribute}
    (h : tag ∈ startTags rawText body.toList) (ha : a ∈ tag.attributes) (hplain : isPlain a = true) :
    attributeName a ∈ extractAttributes body := by
  obtain ⟨u, v, hbody, hassigned⟩ := (startTags_stand h).attributes a ha
  unfold isPlain at hplain
  simp only [Bool.and_eq_true, List.all_eq_true] at hplain
  obtain ⟨⟨⟨hbefore, hassign⟩, hhead⟩, hletters⟩ := hplain
  obtain ⟨v, rfl⟩ := List.head?_eq_some_iff.mp (hassigned hassign)
  rcases hwritten : a.written with _ | ⟨c, rest⟩
  · rw [hwritten] at hhead
    exact absurd hhead Bool.false_ne_true
  rw [hwritten] at hbody hhead hletters
  rw [mem_extractAttributes]
  refine ⟨u, a.before, c, rest, v, hbody, hbefore, hhead, fun c' hc' => ?_, ?_⟩
  · exact hletters c' (List.mem_cons_of_mem _ hc')
  · unfold attributeName Attribute.name
    rw [hwritten, toLower_ofList, map_lower_of_isNameLetter hletters]

/-! ## Soundness -/

theorem disallowed_eq_nil {kind : String} {items : List String} (h : disallowed kind items = []) :
    items = [] := by
  unfold disallowed at h
  by_contra hne
  rw [if_neg fun hempty => hne (List.isEmpty_iff.mp hempty)] at h
  exact absurd h (List.cons_ne_nil _ _)

theorem mem_of_removed_eq_nil {extract : String → List String} {item : String}
    (h : removed extract sanitizeHtml body = []) (hitem : item ∈ extract body) :
    item ∈ extract (sanitizeHtml body) := by
  have hnone := List.filter_eq_nil_iff.mp h item hitem
  simpa using hnone

/-- What an accepted body has of items the expressions find. -/
structure Accepted (sanitizeHtml : String → String) (body : String) : Prop where
  tags : ∀ tag ∈ extractTags body, tag ∈ extractTags (sanitizeHtml body) ∨ tag ∈ allowedTags
  attributes : ∀ name ∈ extractAttributes body, name ∈ extractAttributes (sanitizeHtml body)
  hrefs : ∀ url ∈ extractHrefs body, url ∈ extractHrefs (sanitizeHtml body)
  srcs : ∀ url ∈ extractSrcs body, url ∈ extractSrcs (sanitizeHtml body)

theorem accepted_of_validateHtml (h : validateHtml sanitizeHtml body = []) : Accepted sanitizeHtml body := by
  unfold validateHtml at h
  simp only [List.append_eq_nil_iff] at h
  obtain ⟨⟨⟨htags, hattributes⟩, hhrefs⟩, hsrcs⟩ := h
  refine ⟨fun tag htag => ?_, fun name hname => ?_, fun url hurl => ?_, fun url hurl => ?_⟩
  · have hkept := disallowed_eq_nil htags
    by_cases hleft : tag ∈ extractTags (sanitizeHtml body)
    · exact Or.inl hleft
    · refine Or.inr ?_
      have hremoved : tag ∈ removed extractTags sanitizeHtml body :=
        List.mem_filter.mpr ⟨htag, by simpa using hleft⟩
      have hallowed := List.filter_eq_nil_iff.mp hkept tag hremoved
      simpa using hallowed
  · exact mem_of_removed_eq_nil (disallowed_eq_nil hattributes) hname
  · exact mem_of_removed_eq_nil (disallowed_eq_nil hhrefs) hurl
  · exact mem_of_removed_eq_nil (disallowed_eq_nil hsrcs) hurl

theorem Accepted.hidesTag (h : Accepted sanitizeHtml body) {tag : Tag}
    (htag : tag ∈ startTags rawText body.toList) : HidesTag sanitizeHtml body tag := by
  rcases h.tags _ (word_mem_extractTags htag) with hleft | hallowed
  · exact Or.inr (mem_extractTags.mp hleft)
  · exact Or.inl hallowed

theorem Accepted.hidesAttribute (h : Accepted sanitizeHtml body) {tag : Tag}
    (htag : tag ∈ startTags rawText body.toList) {a : Attribute} (ha : a ∈ tag.attributes) :
    HidesAttribute sanitizeHtml body a := by
  by_cases hplain : isPlain a = true
  · exact Or.inr (mem_extractAttributes.mp
      (h.attributes _ (attributeName_mem_extractAttributes htag ha hplain)))
  · exact Or.inl ((Bool.not_eq_true _).mp hplain)

theorem Accepted.hidesLink (h : Accepted sanitizeHtml body) {tag : Tag}
    (htag : tag ∈ startTags rawText body.toList) {a : Attribute} (ha : a ∈ tag.attributes) :
    HidesLink sanitizeHtml body a := by
  refine ⟨h.hidesAttribute htag ha, ?_⟩
  by_cases hfound : String.ofList a.value ∈ extractLinks a body
  · refine Or.inr ?_
    unfold extractLinks at hfound ⊢
    by_cases hhref : attributeName a = "href"
    · rw [if_pos hhref] at hfound ⊢
      exact h.hrefs _ hfound
    · rw [if_neg hhref] at hfound ⊢
      exact h.srcs _ hfound
  · exact Or.inl hfound

/-- **An accepted body** is sound exactly when nothing that is disallowed in it is hidden. -/
theorem Accepted.sound_iff (h : Accepted sanitizeHtml body) :
    Sound rawText decode body ↔ NothingHidden rawText decode sanitizeHtml body := by
  constructor
  · intro hsound tag htag
    obtain ⟨htagAllowed, hattributes⟩ := hsound tag htag
    refine ⟨fun hno => ?_, fun a ha => ⟨fun hno => ?_, fun hno => ?_⟩⟩
    · rw [htagAllowed] at hno
      exact absurd hno.symm Bool.false_ne_true
    · rw [(hattributes a ha).1] at hno
      exact absurd hno.symm Bool.false_ne_true
    · rw [(hattributes a ha).2] at hno
      exact absurd hno.symm Bool.false_ne_true
  · intro hnothing tag htag
    obtain ⟨htagHidden, hattributes⟩ := hnothing tag htag
    refine ⟨?_, fun a ha => ⟨?_, ?_⟩⟩
    · by_contra hno
      exact htagHidden ((Bool.not_eq_true _).mp hno) (h.hidesTag htag)
    · by_contra hno
      exact (hattributes a ha).1 ((Bool.not_eq_true _).mp hno) (h.hidesAttribute htag ha)
    · by_contra hno
      exact (hattributes a ha).2 ((Bool.not_eq_true _).mp hno) (h.hidesLink htag ha)

end

/-- **`validateHtml` is sound** for an accepted body, as for the body of a template, exactly when nothing
that is disallowed in it is hidden. -/
theorem validateHtml_sound_iff (rawText : List Char → Bool) (decode : List Char → List Char)
    (sanitizeHtml : String → String) :
    (∀ body, validateHtml sanitizeHtml body = [] →
      (Sound rawText decode body ↔ NothingHidden rawText decode sanitizeHtml body)) ∧
    ∀ template : NotificationTemplate sanitizeHtml,
      (Sound rawText decode template.body ↔ NothingHidden rawText decode sanitizeHtml template.body) :=
  ⟨fun _ h => (accepted_of_validateHtml h).sound_iff,
    fun template => (accepted_of_validateHtml template.html_ok).sound_iff⟩

/-! ### Bodies with something hidden -/

section Example

/-- The elements whose content is text to a browser. -/
def textElements (name : List Char) : Bool :=
  ["title", "textarea", "style", "script", "xmp", "iframe", "noembed", "noframes"].contains
    (String.ofList name)

/-- An attribute behind a slash. -/
def slashed : String := "<p/onclick='go()'>Hi</p>"

/-- An attribute whose name stands in the text too. -/
def echoed : String := "<p onclick=\"go()\">write onclick= here</p>"

/-- A link in single quotes beside one in double quotes. -/
def linked : String := "<a href=\"https://acme.io\">one</a><a href='javascript:go()'>two</a>"

/-- A tag whose name goes on. -/
def prolonged : String := "<p-x>Hi</p-x>"

/-- An attribute of another tag. -/
def borrowed : String := "<p src=\"https://acme.io/a.png\">Hi</p><img src=\"https://acme.io/a.png\">"

/-- What the package leaves of the bodies. -/
def exampleSanitizeHtml (html : String) : String :=
  if html = slashed then "<p>Hi</p>"
  else if html = echoed then "<p>write onclick= here</p>"
  else if html = linked then "<a href=\"https://acme.io\">one</a><a>two</a>"
  else if html = prolonged then "Hi"
  else if html = borrowed then "<p>Hi</p><img src=\"https://acme.io/a.png\" />"
  else html

/-- A template with the body. -/
def templateOf (body : String) : NotificationTemplateProps where
  id := "welcome"
  tenantId := none
  code := .welcome
  channel := .email
  locale := "en"
  subject := some "Welcome"
  body := body
  isActive := true
  version := 0
  createdAt := 0
  updatedAt := 0

theorem validateHtml_sound_iff_slashed :
    Sound textElements (fun value => value) slashed ↔
      NothingHidden textElements (fun value => value) exampleSanitizeHtml slashed :=
  (validateHtml_sound_iff textElements (fun value => value) exampleSanitizeHtml).1 slashed (by decide +kernel)

/-- The sanitizer keeps what it should of the body, and a template takes it, which is not sound. -/
def Slips (body : String) : Prop :=
  KeepsExactly textElements (fun value => value) exampleSanitizeHtml body ∧
  validateHtml exampleSanitizeHtml body = [] ∧
  (NotificationTemplate.create (templateOf body) :
    Except NotificationError (NotificationTemplate exampleSanitizeHtml)).toOption.isSome = true ∧
  ¬ Sound textElements (fun value => value) body

instance (body : String) : Decidable (Slips body) := inferInstanceAs (Decidable (_ ∧ _))

theorem disallowed_accepted :
    Slips slashed ∧ Slips echoed ∧ Slips linked ∧ Slips prolonged ∧ Slips borrowed := by
  decide +kernel

end Example

end Neltrik.Notifications.TemplateHtml
