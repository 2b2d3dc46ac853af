import Neltrik.Lib.Runs
import Neltrik.Shared.Json
import Neltrik.Shared.Text

/-! # The sanitizer of requests

`SanitizationService` and the guard that puts every body through it, unless the handler skips it.
`sanitizeHtml` is the package of that name with no tag allowed. What it leaves of a text has its white
space collapsed and trimmed, so blanks at the end of a text are lost (`sanitizeText_append_blank`). -/

namespace Neltrik.Shared

open Neltrik.Lib Neltrik.Lib.Scan Neltrik.Lib.Runs

/-- `/\s+/g`. -/
def whiteSpace : Pattern Char Unit := fun c cs =>
  if isSpace c then some ((cs.takeWhile isSpace).length, ()) else none

/-- `.replace(/\s+/g, " ")`. -/
def collapse (cs : List Char) : List Char := replace whiteSpace (fun _ _ => [' ']) cs

namespace SanitizationService

/-- `sanitize` of a string. -/
def sanitizeText (sanitizeHtml : String → String) (value : String) : String :=
  trim (String.ofList (collapse (sanitizeHtml value).toList))

mutual
/-- `SanitizationService.sanitize`. -/
def sanitize (sanitizeHtml : String → String) : Json → Json
  | .null => .null
  | .bool b => .bool b
  | .number text => .number text
  | .string s => .string (sanitizeText sanitizeHtml s)
  | .array items => .array (sanitizeItems sanitizeHtml items)
  | .object entries => .object (sanitizeEntries sanitizeHtml entries)
/-- Every item of an array. -/
def sanitizeItems (sanitizeHtml : String → String) : List Json → List Json
  | [] => []
  | item :: items => sanitize sanitizeHtml item :: sanitizeItems sanitizeHtml items
/-- Every value of an object. -/
def sanitizeEntries (sanitizeHtml : String → String) : List (String × Json) → List (String × Json)
  | [] => []
  | (key, value) :: entries => (key, sanitize sanitizeHtml value) :: sanitizeEntries sanitizeHtml entries
end

end SanitizationService

/-- What the handler gets of the body; `skip` is what `SKIP_SANITIZATION_KEY` says of the handler. -/
def SanitizationGuard.canActivate (sanitizeHtml : String → String) (skip : Bool) (body : Json) : Json :=
  if skip then body
  else if body.isTruthy then SanitizationService.sanitize sanitizeHtml body
  else body

/-! ## White space at the end -/

theorem collapse_eq_squeeze (cs : List Char) : collapse cs = squeeze isSpace ' ' cs := rfl

theorem collapse_cons_of_letter {c : Char} (h : isSpace c = false) (cs : List Char) :
    collapse (c :: cs) = c :: collapse cs := squeeze_cons_of_neg h cs

/-- A run of white space is one blank. -/
theorem collapse_cons_of_space {c : Char} (h : isSpace c = true) (cs : List Char) :
    collapse (c :: cs) = ' ' :: collapse (cs.dropWhile isSpace) := squeeze_cons_of_pos h cs

/-- Blanks behind a text become one blank, or add to the white space that ends it. -/
theorem collapse_append {blank : List Char} (hblank : ∀ c ∈ blank, isSpace c = true) (cs : List Char) :
    ∃ rest, (∀ c ∈ rest, isSpace c = true) ∧ collapse (cs ++ blank) = collapse cs ++ rest := by
  have hnone : ∀ c ∈ ([] : List Char), isSpace c = true := fun c hc => absurd hc List.not_mem_nil
  induction cs using squeeze_induction (p := isSpace) with
  | hnil =>
    rcases blank with _ | ⟨b, blank⟩
    · exact ⟨[], hnone, rfl⟩
    · obtain ⟨hb, hblank⟩ := List.forall_mem_cons.mp hblank
      refine ⟨[' '], by simp [isSpace], ?_⟩
      rw [List.nil_append, collapse_cons_of_space hb, dropWhile_of_forall hblank]
      rfl
  | hrun c cs hc ih =>
    rw [List.cons_append, collapse_cons_of_space hc, collapse_cons_of_space hc, List.dropWhile_append]
    by_cases hend : (cs.dropWhile isSpace).isEmpty = true
    · refine ⟨[], hnone, ?_⟩
      rw [if_pos hend, dropWhile_of_forall hblank, List.isEmpty_iff.mp hend, List.append_nil]
    · obtain ⟨rest, hrest, heq⟩ := ih
      refine ⟨rest, hrest, ?_⟩
      rw [if_neg hend, heq, List.cons_append]
  | hletter c cs hc ih =>
    obtain ⟨rest, hrest, heq⟩ := ih
    refine ⟨rest, hrest, ?_⟩
    rw [List.cons_append, collapse_cons_of_letter hc, collapse_cons_of_letter hc, heq, List.cons_append]

/-- **A blank at the end of a text is lost**, where `sanitizeHtml` makes white space of it. -/
theorem sanitizeText_append_blank {sanitizeHtml : String → String} {html : String} {blank : List Char}
    (hblank : ∀ c ∈ blank, isSpace c = true)
    (h : sanitizeHtml (html ++ " ") = sanitizeHtml html ++ String.ofList blank) :
    SanitizationService.sanitizeText sanitizeHtml (html ++ " ") =
      SanitizationService.sanitizeText sanitizeHtml html := by
  obtain ⟨rest, hrest, heq⟩ := collapse_append hblank (sanitizeHtml html).toList
  unfold SanitizationService.sanitizeText
  rw [h, String.toList_append, String.toList_ofList, heq, trim_append hrest]

/-- The guard keeps the keys of a body. -/
theorem SanitizationService.lookup_sanitizeEntries (sanitizeHtml : String → String) (entries : JsonObject)
    (key : String) : (sanitizeEntries sanitizeHtml entries).lookup key =
      (entries.lookup key).map (sanitize sanitizeHtml) := by
  induction entries with
  | nil => rw [sanitizeEntries]; rfl
  | cons entry entries ih =>
    obtain ⟨k, value⟩ := entry
    rw [sanitizeEntries, List.lookup_cons, List.lookup_cons]
    by_cases hk : (key == k) = true
    · rw [hk]
      rfl
    · rw [(Bool.not_eq_true _).mp hk]
      exact ih

end Neltrik.Shared
