import Neltrik.Lib.Segments
import Neltrik.Notifications.Template

/-! # The renderer and the extractor

`StringInterpolationRenderer.render` and `extractVariables` scan a template on their own, each with its copy of
the regular expression. Both of them can be read off the one split of the template into literals and
placeholders: `render_and_extract`. -/

namespace Neltrik.Notifications.Rendering

open Neltrik.Lib Neltrik.Lib.Scan Neltrik.Lib.Segments Neltrik.Shared

/-! ## Placeholders as texts -/

/-- White space. -/
def Blank (cs : List Char) : Prop := ∀ c ∈ cs, isSpace c = true

/-- Two braces, the key between white space, and two braces. -/
def IsPlaceholder (raw : List Char) (key : String) : Prop :=
  ∃ before after, raw = '{' :: '{' :: before ++ key.toList ++ after ++ ['}', '}'] ∧ Blank before ∧ Blank after ∧
    key.toList ≠ [] ∧ ∀ c ∈ key.toList, isWord c = true

theorem isSpace_of_isWord {c : Char} (h : isWord c = true) : isSpace c = false := by
  rcases Bool.or_eq_true_iff.mp h with h | h
  · exact isSpace_of_isAlphanum h
  · rw [beq_iff_eq.mp h]
    decide

theorem isWord_of_isSpace {c : Char} (h : isSpace c = true) : isWord c = false :=
  Bool.eq_false_iff.mpr fun hw => absurd (isSpace_of_isWord hw) (by rw [h]; decide)

/-! ## The pattern finds the placeholders -/

theorem placeholder_append {before key after : List Char} (rest : List Char) (hbefore : Blank before)
    (hafter : Blank after) (hne : key ≠ []) (hkey : ∀ c ∈ key, isWord c = true) :
    placeholder '{' ('{' :: (before ++ (key ++ (after ++ '}' :: '}' :: rest)))) =
      some (before.length + key.length + after.length + 3, String.ofList key) := by
  have hfirst : ∀ c ∈ (key ++ (after ++ '}' :: '}' :: rest)).head?, isSpace c = false := by
    obtain ⟨c, key, rfl⟩ := List.exists_cons_of_ne_nil hne
    rintro c' ⟨⟩
    exact isSpace_of_isWord (hkey c List.mem_cons_self)
  have hbehind : ∀ c ∈ (after ++ '}' :: '}' :: rest).head?, isWord c = false := by
    rcases after with _ | ⟨c, after⟩
    · rintro c ⟨⟩
      decide
    · rintro c' ⟨⟩
      exact isWord_of_isSpace (hafter c List.mem_cons_self)
  have hbrace : ∀ c ∈ ('}' :: '}' :: rest).head?, isSpace c = false := by
    rintro c ⟨⟩
    decide
  obtain ⟨htake₁, hdrop₁⟩ := span_append hbefore hfirst
  obtain ⟨htake₂, hdrop₂⟩ := span_append hkey hbehind
  obtain ⟨htake₃, hdrop₃⟩ := span_append hafter hbrace
  rw [placeholder, hdrop₁, hdrop₂, hdrop₃, htake₁, htake₂, htake₃]
  exact if_neg (by rwa [List.isEmpty_iff])

/-- The letters of a placeholder that is found. -/
theorem exists_of_placeholder {a : Char} {as : List Char} {k : ℕ} {key : String}
    (h : placeholder a as = some (k, key)) :
    ∃ before after rest, a = '{' ∧ as = '{' :: (before ++ (key.toList ++ (after ++ '}' :: '}' :: rest))) ∧
      k = before.length + key.toList.length + after.length + 3 ∧ Blank before ∧ Blank after ∧ key.toList ≠ [] ∧
      ∀ c ∈ key.toList, isWord c = true := by
  unfold placeholder at h
  split at h
  swap
  · cases h
  rename_i cs
  dsimp only at h
  split at h
  swap
  · cases h
  rename_i rest hrest
  split_ifs at h with hempty
  cases h
  rw [String.toList_ofList]
  have hcs : cs.takeWhile isSpace ++ ((cs.dropWhile isSpace).takeWhile isWord ++
      (((cs.dropWhile isSpace).dropWhile isWord).takeWhile isSpace ++ '}' :: '}' :: rest)) = cs := by
    rw [← hrest, List.takeWhile_append_dropWhile, List.takeWhile_append_dropWhile, List.takeWhile_append_dropWhile]
  exact ⟨_, _, rest, rfl, congrArg ('{' :: ·) hcs.symm, rfl, fun c hc => List.mem_takeWhile_imp hc,
    fun c hc => List.mem_takeWhile_imp hc, fun hnil => hempty (List.isEmpty_iff.mpr hnil),
    fun c hc => List.mem_takeWhile_imp hc⟩

theorem placeholder_eq_some_iff (a : Char) (as : List Char) (k : ℕ) (key : String) :
    placeholder a as = some (k, key) ↔ k ≤ as.length ∧ IsPlaceholder (a :: as.take k) key := by
  constructor
  · intro h
    obtain ⟨before, after, rest, rfl, rfl, rfl, hbefore, hafter, hne, hkey⟩ := exists_of_placeholder h
    have hsplit : '{' :: (before ++ (key.toList ++ (after ++ '}' :: '}' :: rest))) =
        ('{' :: before ++ key.toList ++ after ++ ['}', '}']) ++ rest := by
      simp only [List.cons_append, List.append_assoc, List.nil_append]
    have hlen : ('{' :: before ++ key.toList ++ after ++ ['}', '}']).length =
        before.length + key.toList.length + after.length + 3 := by
      simp only [List.length_append, List.length_cons, List.length_nil]
      omega
    refine ⟨?_, before, after, ?_, hbefore, hafter, hne, hkey⟩
    · rw [hsplit, List.length_append, hlen]
      exact Nat.le_add_right _ _
    · rw [hsplit, List.take_left' hlen]
      rfl
  · rintro ⟨hk, before, after, hraw, hbefore, hafter, hne, hkey⟩
    obtain ⟨rfl, htake⟩ := List.cons.inj hraw
    have has : as = '{' :: (before ++ (key.toList ++ (after ++ '}' :: '}' :: as.drop k))) := by
      conv_lhs => rw [← List.take_append_drop k as, htake]
      simp only [List.cons_append, List.append_assoc, List.nil_append, List.append_eq]
    have hlen : k = before.length + key.toList.length + after.length + 3 := by
      have hk' := congrArg List.length htake
      rw [List.length_take, Nat.min_eq_left hk] at hk'
      rw [hk']
      simp only [List.append_eq, List.length_append, List.length_cons, List.length_nil]
      omega
    rw [has, placeholder_append _ hbefore hafter hne hkey, String.ofList_toList, hlen]

/-- Behind its first two letters a placeholder has no brace that opens. -/
theorem IsPlaceholder.tail {raw : List Char} {key : String} (h : IsPlaceholder raw key) :
    ∃ c inner, raw = '{' :: '{' :: c :: inner ∧ ∀ d ∈ c :: inner, d ≠ '{' := by
  obtain ⟨before, after, rfl, hbefore, hafter, hne, hkey⟩ := h
  have hinner : ∀ d ∈ before ++ key.toList ++ after ++ ['}', '}'], d ≠ '{' := by
    rintro d hd rfl
    simp only [List.mem_append] at hd
    rcases hd with ((hd | hd) | hd) | hd
    · exact absurd (hbefore _ hd) (by decide)
    · exact absurd (hkey _ hd) (by decide)
    · exact absurd (hafter _ hd) (by decide)
    · exact absurd hd (by decide)
  obtain ⟨c, inner, hcons⟩ := List.exists_cons_of_ne_nil
    (List.append_ne_nil_of_right_ne_nil (before ++ key.toList ++ after) (List.cons_ne_nil '}' ['}']))
  refine ⟨c, inner, ?_, hcons ▸ hinner⟩
  rw [← hcons]
  rfl

/-- No placeholder begins inside of another one. -/
theorem separate_placeholder {u x rest : List Char} {key : String} (h : IsPlaceholder (u ++ x) key) (hu : u ≠ [])
    (hx : x ≠ []) (raw : List Char) (key' : String) (hraw : raw <+: x ++ rest) : ¬ IsPlaceholder raw key' := by
  intro h'
  obtain ⟨c, inner, hux, hinner⟩ := h.tail
  obtain ⟨c', inner', rfl, -⟩ := h'.tail
  obtain ⟨d, x, rfl⟩ := List.exists_cons_of_ne_nil hx
  obtain ⟨e, u, rfl⟩ := List.exists_cons_of_ne_nil hu
  obtain ⟨rfl, hsecond⟩ := List.cons_prefix_cons.mp hraw
  have hux : u ++ '{' :: x = '{' :: c :: inner := (List.cons.inj hux).2
  rcases u with _ | ⟨e', u⟩
  · -- the second brace is followed by a letter that opens nothing
    obtain rfl : x = c :: inner := (List.cons.inj hux).2
    obtain ⟨rfl, -⟩ := List.cons_prefix_cons.mp hsecond
    exact hinner _ List.mem_cons_self rfl
  · have hmem : '{' ∈ c :: inner := (List.cons.inj hux).2 ▸ List.mem_append_right u List.mem_cons_self
    exact hinner _ hmem rfl

theorem recognizes_placeholder : Recognizes placeholder IsPlaceholder where
  match_iff := placeholder_eq_some_iff
  ne_nil := by
    rintro key ⟨before, after, hraw, -⟩
    cases hraw
  separate _ _ _ _ h hu hx := separate_placeholder h hu hx

/-! ## The split of a template -/

/-- The text of a string, of a number or of a boolean, and otherwise the placeholder as it is. -/
def textOr (raw : List Char) : Option Json → List Char
  | some (.string s) => s.toList
  | some (.number text) => text.toList
  | some (.bool b) => (if b then "true" else "false").toList
  | _ => raw

/-- What the segment is replaced by: a placeholder by the text of its value in the payload. -/
def fill (payload : JsonObject) : Segment Char String → List Char
  | .literal text => text
  | .hit raw key => textOr raw (payload.lookup key)

theorem textOr_eq (raw : List Char) (value : Option Json) :
    textOr raw value = ((value.bind Json.text).map String.toList).getD raw := by
  rcases value with _ | value
  · rfl
  · cases value <;> rfl

theorem fill_eq (payload : JsonObject) :
    fill payload = Segment.subst fun raw key => ((payload.text key).map String.toList).getD raw := by
  funext s
  cases s with
  | literal text => rfl
  | hit raw key => exact textOr_eq raw (payload.lookup key)

theorem render_eq (template : String) (payload : JsonObject) :
    render template payload = String.ofList ((segments placeholder template.toList).flatMap (fill payload)) := by
  unfold render
  rw [replace_eq, fill_eq]

theorem extractVariables_eq (template : String) : extractVariables template =
    ((segments placeholder template.toList).filterMap Segment.captured).eraseDups := by
  unfold extractVariables
  rw [matchAll_eq]

/-- The keys of the placeholders are among those that are extracted. -/
theorem mem_extractVariables {template : String} {raw : List Char} {key : String}
    (h : .hit raw key ∈ segments placeholder template.toList) : key ∈ extractVariables template := by
  rw [extractVariables_eq, List.mem_eraseDups]
  exact List.mem_filterMap.mpr ⟨_, h, rfl⟩

theorem render_congr {template : String} {payload payload' : JsonObject}
    (h : ∀ key ∈ extractVariables template, payload.lookup key = payload'.lookup key) :
    render template payload = render template payload' := by
  rw [render_eq, render_eq]
  refine congrArg String.ofList (List.flatMap_congr fun s hs => ?_)
  cases s with
  | literal text => rfl
  | hit raw key => exact congrArg (textOr raw) (h key (mem_extractVariables hs))

/-- **Renderer and extractor agree.** The template has exactly one split into literals and placeholders. The
extractor lists the keys of its placeholders, each at its first place; the renderer puts in the place of
each placeholder the text of its value, or leaves it, in one pass; and what it returns depends on the
entries of the payload that the extractor lists, and on no other. -/
theorem render_and_extract (template : String) :
    ∃ segs, (∀ segs', IsSplit IsPlaceholder template.toList segs' ↔ segs' = segs) ∧
      extractVariables template = (segs.filterMap Segment.captured).eraseDups ∧
      (∀ payload, render template payload = String.ofList (segs.flatMap (fill payload))) ∧
      ∀ payload payload' : JsonObject,
        (∀ key ∈ extractVariables template, payload.lookup key = payload'.lookup key) →
          render template payload = render template payload' :=
  ⟨segments placeholder template.toList, fun _ => isSplit_iff recognizes_placeholder,
    extractVariables_eq template, render_eq template, fun _ _ => render_congr⟩

end Neltrik.Notifications.Rendering
