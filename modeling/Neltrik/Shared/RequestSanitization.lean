import Neltrik.Shared.Sanitization

/-! # What the guard does to a request

The strings of a JSON value in their order, and the value with its strings blanked out, say together what a
change of the value did to its strings and that it did nothing else.

The guard hands the body and the params to the sanitizer and leaves the query as it is:
`cleans_request_iff`. -/

namespace Neltrik.Shared

open Neltrik.Lib Neltrik.Lib.Scan Neltrik.Lib.Runs

/-! ## The strings of a value -/

namespace Json

mutual
/-- The strings of the value, from left to right. -/
def strings : Json → List String
  | .null | .bool _ | .number _ => []
  | .string s => [s]
  | .array items => stringsItems items
  | .object entries => stringsEntries entries
/-- The texts of the items. -/
def stringsItems : List Json → List String
  | [] => []
  | item :: items => strings item ++ stringsItems items
/-- The texts of the entries. -/
def stringsEntries : List (String × Json) → List String
  | [] => []
  | (_, value) :: entries => strings value ++ stringsEntries entries
end

mutual
/-- The value with every string blanked out: its other leaves, keys, lengths and nesting. -/
def skeleton : Json → Json
  | .null => .null
  | .bool b => .bool b
  | .number text => .number text
  | .string _ => .string ""
  | .array items => .array (skeletonItems items)
  | .object entries => .object (skeletonEntries entries)
/-- The items without their texts. -/
def skeletonItems : List Json → List Json
  | [] => []
  | item :: items => skeleton item :: skeletonItems items
/-- The entries without their texts. -/
def skeletonEntries : List (String × Json) → List (String × Json)
  | [] => []
  | (key, value) :: entries => (key, skeleton value) :: skeletonEntries entries
end

end Json

namespace SanitizationService

mutual
theorem strings_sanitize (sanitizeHtml : String → String) : ∀ value : Json,
    (sanitize sanitizeHtml value).strings = value.strings.map (sanitizeText sanitizeHtml)
  | .null | .bool _ | .number _ | .string _ => rfl
  | .array items => stringsItems_sanitize sanitizeHtml items
  | .object entries => stringsEntries_sanitize sanitizeHtml entries
theorem stringsItems_sanitize (sanitizeHtml : String → String) : ∀ items : List Json,
    Json.stringsItems (sanitizeItems sanitizeHtml items) =
      (Json.stringsItems items).map (sanitizeText sanitizeHtml)
  | [] => rfl
  | item :: items => by
    rw [sanitizeItems, Json.stringsItems, Json.stringsItems, List.map_append, strings_sanitize sanitizeHtml item,
      stringsItems_sanitize sanitizeHtml items]
theorem stringsEntries_sanitize (sanitizeHtml : String → String) : ∀ entries : List (String × Json),
    Json.stringsEntries (sanitizeEntries sanitizeHtml entries) =
      (Json.stringsEntries entries).map (sanitizeText sanitizeHtml)
  | [] => rfl
  | (key, value) :: entries => by
    rw [sanitizeEntries, Json.stringsEntries, Json.stringsEntries, List.map_append,
      strings_sanitize sanitizeHtml value, stringsEntries_sanitize sanitizeHtml entries]
end

mutual
theorem skeleton_sanitize (sanitizeHtml : String → String) : ∀ value : Json,
    (sanitize sanitizeHtml value).skeleton = value.skeleton
  | .null | .bool _ | .number _ => rfl
  | .string s => by rw [sanitize, Json.skeleton, Json.skeleton]
  | .array items => by rw [sanitize, Json.skeleton, Json.skeleton, skeletonItems_sanitize sanitizeHtml items]
  | .object entries => by rw [sanitize, Json.skeleton, Json.skeleton, skeletonEntries_sanitize sanitizeHtml entries]
theorem skeletonItems_sanitize (sanitizeHtml : String → String) : ∀ items : List Json,
    Json.skeletonItems (sanitizeItems sanitizeHtml items) = Json.skeletonItems items
  | [] => rfl
  | item :: items => by
    rw [sanitizeItems, Json.skeletonItems, Json.skeletonItems, skeleton_sanitize sanitizeHtml item,
      skeletonItems_sanitize sanitizeHtml items]
theorem skeletonEntries_sanitize (sanitizeHtml : String → String) : ∀ entries : List (String × Json),
    Json.skeletonEntries (sanitizeEntries sanitizeHtml entries) = Json.skeletonEntries entries
  | [] => rfl
  | (key, value) :: entries => by
    rw [sanitizeEntries, Json.skeletonEntries, Json.skeletonEntries, skeleton_sanitize sanitizeHtml value,
      skeletonEntries_sanitize sanitizeHtml entries]
end

end SanitizationService

/-! ## Clean texts -/

/-- No tag begins or ends in the text. -/
def NoTag (cs : List Char) : Prop :=
  ∀ c : Char, c.isAlpha = true → ¬ ['<', c] <:+: cs ∧ ¬ ['<', '/', c] <:+: cs

/-- No tag, no white space but single blanks, and none at the ends. -/
structure Clean (s : String) : Prop where
  noTag : NoTag s.toList
  blank : ∀ c ∈ s.toList, isSpace c = true → c = ' '
  single : ¬ [' ', ' '] <:+: s.toList
  trimmed : trim s = s

theorem space_isSpace : isSpace ' ' = true := by decide

theorem NoTag.collapse {cs : List Char} (h : NoTag cs) : NoTag (collapse cs) := by
  intro c hc
  have hspace : isSpace c = false := isSpace_of_isAlphanum (Bool.or_eq_true_iff.mpr (.inl hc))
  have hword : ∀ d ∈ [c], isSpace d = false := List.forall_mem_singleton.mpr hspace
  obtain ⟨hstart, hend⟩ := h c hc
  refine ⟨fun hi => hstart (infix_of_squeeze space_isSpace (List.cons_ne_nil _ _) ?_ hi),
    fun hi => hend (infix_of_squeeze space_isSpace (List.cons_ne_nil _ _) ?_ hi)⟩
  · exact List.forall_mem_cons.mpr ⟨by decide, hword⟩
  · exact List.forall_mem_cons.mpr ⟨by decide, List.forall_mem_cons.mpr ⟨by decide, hword⟩⟩

theorem blank_of_mem_collapse (cs : List Char) : ∀ c ∈ collapse cs, isSpace c = true → c = ' ' := by
  intro c hc hs
  rw [collapse_eq_squeeze] at hc
  refine (mem_squeeze hc).resolve_right fun h => ?_
  rw [h.2] at hs
  cases hs

theorem single_collapse (cs : List Char) : ¬ [' ', ' '] <:+: collapse cs := by
  intro h
  have halone : Alone ' ' (collapse cs) := alone_squeeze space_isSpace
  have hpair := List.IsChain.infix halone h
  exact List.rel_of_isChain_cons_cons hpair ⟨rfl, rfl⟩

theorem trim_infix (s : String) : (trim s).toList <:+: s.toList := by
  rw [toList_trim]
  exact (List.rdropWhile_prefix isSpace _).isInfix.trans (List.dropWhile_suffix isSpace).isInfix

/-- `sanitizeHtml` with no tag allowed: no tag is left, and an empty text stays empty. -/
structure RemovesTags (sanitizeHtml : String → String) : Prop where
  noTag : ∀ value, NoTag (sanitizeHtml value).toList
  empty : sanitizeHtml "" = ""

/-- **A sanitized text is clean.** -/
theorem RemovesTags.clean {sanitizeHtml : String → String} (h : RemovesTags sanitizeHtml) (value : String) :
    Clean (SanitizationService.sanitizeText sanitizeHtml value) := by
  have hcollapse : (SanitizationService.sanitizeText sanitizeHtml value).toList <:+:
      collapse (sanitizeHtml value).toList := by
    have hinfix := trim_infix (String.ofList (collapse (sanitizeHtml value).toList))
    rwa [String.toList_ofList] at hinfix
  have htag := (h.noTag value).collapse
  exact {
    noTag := fun c hc => ⟨fun hi => (htag c hc).1 (hi.trans hcollapse), fun hi => (htag c hc).2 (hi.trans hcollapse)⟩
    blank := fun c hc => blank_of_mem_collapse _ c (hcollapse.subset hc)
    single := fun hi => single_collapse _ (hi.trans hcollapse)
    trimmed := trim_trim _ }

/-! ## The request -/

/-- The parts of a request that carry input. -/
structure Request where
  body : Json
  query : Json
  params : Json

/-- `canActivate`: the request that the handler gets. -/
def SanitizationGuard.canActivateRequest (sanitizeHtml : String → String) (skip : Bool) (request : Request) : Request :=
  { request with
    body := canActivate sanitizeHtml skip request.body
    params := canActivate sanitizeHtml skip request.params }

/-- The strings are sanitized, which makes them clean, and nothing else of the value is changed. -/
structure Cleaned (sanitizeHtml : String → String) (value value' : Json) : Prop where
  strings : value'.strings = value.strings.map (SanitizationService.sanitizeText sanitizeHtml)
  clean : ∀ s ∈ value'.strings, Clean s
  rest : value'.skeleton = value.skeleton

/-- Every part of the request is cleaned by the guard. -/
structure CleansRequest (sanitizeHtml : String → String) (request request' : Request) : Prop where
  body : Cleaned sanitizeHtml request.body request'.body
  query : Cleaned sanitizeHtml request.query request'.query
  params : Cleaned sanitizeHtml request.params request'.params

section Guard
variable {sanitizeHtml : String → String}

theorem RemovesTags.sanitizeText_empty (h : RemovesTags sanitizeHtml) :
    SanitizationService.sanitizeText sanitizeHtml "" = "" := by
  unfold SanitizationService.sanitizeText
  rw [h.empty]
  rfl

theorem RemovesTags.cleaned_iff (h : RemovesTags sanitizeHtml) {value value' : Json} :
    Cleaned sanitizeHtml value value' ↔
      value'.strings = value.strings.map (SanitizationService.sanitizeText sanitizeHtml) ∧
        value'.skeleton = value.skeleton := by
  refine ⟨fun hc => ⟨hc.strings, hc.rest⟩, fun ⟨hstrings, hrest⟩ => ⟨hstrings, fun s hs => ?_, hrest⟩⟩
  rw [hstrings] at hs
  obtain ⟨value, -, rfl⟩ := List.mem_map.mp hs
  exact h.clean value

/-- The guard cleans a part that it looks at; what counts as false has no string but the empty one. -/
theorem RemovesTags.cleaned_canActivate (h : RemovesTags sanitizeHtml) (value : Json) :
    Cleaned sanitizeHtml value (SanitizationGuard.canActivate sanitizeHtml false value) := by
  rw [h.cleaned_iff]
  unfold SanitizationGuard.canActivate
  rw [if_neg Bool.false_ne_true]
  by_cases htruthy : value.isTruthy = true
  · rw [if_pos htruthy]
    exact ⟨SanitizationService.strings_sanitize sanitizeHtml value, SanitizationService.skeleton_sanitize sanitizeHtml value⟩
  · rw [if_neg htruthy]
    refine ⟨?_, rfl⟩
    cases value with
    | null | bool | number => rfl
    | string s =>
      obtain rfl : s = "" := by simpa [Json.isTruthy] using htruthy
      show [""] = [SanitizationService.sanitizeText sanitizeHtml ""]
      rw [h.sanitizeText_empty]
    | array items => exact absurd rfl htruthy
    | object entries => exact absurd rfl htruthy

/-- A part that the guard leaves as it is. -/
theorem RemovesTags.cleaned_self_iff (h : RemovesTags sanitizeHtml) {value : Json} : Cleaned sanitizeHtml value value ↔
    ∀ s ∈ value.strings, SanitizationService.sanitizeText sanitizeHtml s = s := by
  have hmap := List.map_inj_left (f := SanitizationService.sanitizeText sanitizeHtml) (g := id) (l := value.strings)
  rw [List.map_id] at hmap
  rw [h.cleaned_iff, and_iff_left rfl, eq_comm, hmap]
  rfl

/-- **The guard cleans a request exactly when** every string of the query is its own sanitized form. -/
theorem cleans_request_iff (h : RemovesTags sanitizeHtml) (request : Request) :
    CleansRequest sanitizeHtml request (SanitizationGuard.canActivateRequest sanitizeHtml false request) ↔
      ∀ s ∈ request.query.strings, SanitizationService.sanitizeText sanitizeHtml s = s := by
  rw [← h.cleaned_self_iff]
  exact ⟨fun hc => hc.query, fun hq => ⟨h.cleaned_canActivate request.body, hq, h.cleaned_canActivate request.params⟩⟩

end Guard

/-! ### A tag in the query -/

/-- The letters outside of angle brackets. -/
def outside : Bool → List Char → List Char
  | _, [] => []
  | false, c :: cs => if c = '<' then outside true cs else c :: outside false cs
  | true, c :: cs => outside (c != '>') cs

/-- What stands outside of angle brackets. -/
def withoutTags (value : String) : String := String.ofList (outside false value.toList)

theorem not_mem_outside (inside : Bool) (cs : List Char) : '<' ∉ outside inside cs := by
  induction cs generalizing inside with
  | nil => cases inside <;> exact List.not_mem_nil
  | cons c cs ih =>
    cases inside with
    | true => exact ih (c != '>')
    | false =>
      rw [outside]
      by_cases hc : c = '<'
      · rw [if_pos hc]
        exact ih true
      · rw [if_neg hc, List.mem_cons, not_or]
        exact ⟨fun h => hc h.symm, ih false⟩

theorem removesTags_withoutTags : RemovesTags withoutTags where
  noTag value c _ := by
    have hmem : '<' ∉ (withoutTags value).toList := by
      unfold withoutTags
      rw [String.toList_ofList]
      exact not_mem_outside false value.toList
    exact ⟨fun h => hmem (h.subset List.mem_cons_self), fun h => hmem (h.subset List.mem_cons_self)⟩
  empty := rfl

/-- A search for a text. -/
def search (text : String) : Request :=
  { body := .null, query := .object [("q", .string text)], params := .object [("id", .string " 7 ")] }

theorem cleans_request_iff_plain :
    CleansRequest withoutTags (search "hola") (SanitizationGuard.canActivateRequest withoutTags false (search "hola")) :=
  (cleans_request_iff removesTags_withoutTags (search "hola")).mpr fun s hs => by
    rw [List.mem_singleton.mp hs]
    decide

/-- The handler gets the query with its tags. -/
theorem query_keeps_tags : RemovesTags withoutTags ∧ ¬ CleansRequest withoutTags (search "<b>hola</b>")
    (SanitizationGuard.canActivateRequest withoutTags false (search "<b>hola</b>")) := by
  refine ⟨removesTags_withoutTags, fun h => ?_⟩
  have hclean := (h.query.clean "<b>hola</b>" (List.mem_singleton_self _)).noTag 'b' (by decide)
  exact hclean.1 (by decide)

end Neltrik.Shared
