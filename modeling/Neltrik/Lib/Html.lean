import Mathlib.Data.List.Basic
import Mathlib.Tactic.SplitIfs

/-! # The start tags of a text

The tokenizer of HTML as far as it makes tags: its states, one step for each letter, and the start tags
of a text, each attribute with the letter in front of it and whether `=` stands right behind its name.
`rawText` names the elements whose content is read as text up to their end tag; the escapes inside
scripts are left out, and character references stay in the values as they are written.

`run_fits`: what a run has read, and what it makes a tag of, stands in the text as it is written
(`startTags_stand`). -/

namespace Neltrik.Lib.Html

/-- What separates attributes. -/
def isBlank (c : Char) : Bool := c == '\t' || c == '\n' || c == '\x0c' || c == '\r' || c == ' '

/-- What ends the name of a tag. -/
def endsName (c : Char) : Bool := isBlank c || c == '/' || c == '>'

/-- A letter of a name. -/
def lower (c : Char) : Char := if c = '\x00' then '\ufffd' else c.toLower

/-! ## Letters -/

theorem isAlphanum_iff {c : Char} : c.isAlphanum = true ↔
    (65 ≤ c.toNat ∧ c.toNat ≤ 90) ∨ (97 ≤ c.toNat ∧ c.toNat ≤ 122) ∨ (48 ≤ c.toNat ∧ c.toNat ≤ 57) := by
  have hdef : c.isAlphanum = (decide (65 ≤ c.val ∧ c.val ≤ 90) ||
      (decide (97 ≤ c.val) && decide (c.val ≤ 122)) ||
      (decide (48 ≤ c.val) && decide (c.val ≤ 57))) := rfl
  have hnat : c.val.toNat = c.toNat := rfl
  rw [hdef]
  simp only [Bool.or_eq_true, Bool.and_eq_true, decide_eq_true_eq, UInt32.le_iff_toNat_le, hnat]
  exact or_assoc

theorem toNat_toLower (c : Char) :
    c.toLower.toNat = if 65 ≤ c.toNat ∧ c.toNat ≤ 90 then c.toNat + 32 else c.toNat := by
  have hnat : c.val.toNat = c.toNat := rfl
  by_cases h : 65 ≤ c.val ∧ c.val ≤ 90
  · have hlower : c.toLower.val = c.val + 32 := congrArg Char.val (dif_pos h)
    have h' : 65 ≤ c.toNat ∧ c.toNat ≤ 90 :=
      ⟨UInt32.le_iff_toNat_le.mp h.1, UInt32.le_iff_toNat_le.mp h.2⟩
    have hsum : c.toLower.toNat = (c.val + 32).toNat := congrArg UInt32.toNat hlower
    rw [if_pos h', hsum, UInt32.toNat_add, hnat]
    show (c.toNat + 32) % 2 ^ 32 = _
    omega
  · have hlower : c.toLower = c := dif_neg h
    have h' : ¬ (65 ≤ c.toNat ∧ c.toNat ≤ 90) := fun h' =>
      h ⟨UInt32.le_iff_toNat_le.mpr h'.1, UInt32.le_iff_toNat_le.mpr h'.2⟩
    rw [if_neg h', hlower]

theorem isAlphanum_toLower (c : Char) : c.toLower.isAlphanum = c.isAlphanum := by
  rw [Bool.eq_iff_iff, isAlphanum_iff, isAlphanum_iff, toNat_toLower]
  split_ifs with h
  · omega
  · exact Iff.rfl

theorem isAlphanum_of_isAlpha {c : Char} (h : c.isAlpha = true) : c.isAlphanum = true :=
  Bool.or_eq_true_iff.mpr (Or.inl h)

/-- Names are folded inside their words. -/
theorem isAlphanum_lower (c : Char) : (lower c).isAlphanum = c.isAlphanum := by
  unfold lower
  split_ifs with h
  · rw [h]
    decide
  · exact isAlphanum_toLower c

/-! ## Tags -/

/-- The name as it is written, the letter in front of it, whether `=` stands right behind it, and the
value. -/
structure Attribute where
  before : Char
  written : List Char
  assigned : Bool
  value : List Char
  deriving DecidableEq

/-- The name, in lower case. -/
def Attribute.name (a : Attribute) : List Char := a.written.map lower

/-- A tag with its attributes. -/
structure Tag where
  isEnd : Bool
  written : List Char
  attributes : List Attribute
  deriving DecidableEq

namespace Tag

/-- The name, in lower case. -/
def name (tag : Tag) : List Char := tag.written.map lower

/-- What a tag begins with. -/
def opening (tag : Tag) : List Char := if tag.isEnd then ['<', '/'] else ['<']

/-- One attribute more. -/
def push (tag : Tag) (a : Attribute) : Tag := { tag with attributes := tag.attributes ++ [a] }

/-- Of the attributes of one name the first is kept. -/
def distinct (tag : Tag) : Tag :=
  { tag with
    attributes := tag.attributes.foldl
      (fun kept a => if kept.any (·.name == a.name) then kept else kept ++ [a]) [] }

end Tag

/-! ## The states -/

/-- Where the tokenizer stands. -/
inductive State where
  | data
  | tagOpen
  | endTagOpen
  | tagName (tag : Tag)
  | beforeAttributeName (tag : Tag)
  | attributeName (tag : Tag) (a : Attribute)
  | afterAttributeName (tag : Tag) (a : Attribute)
  | beforeAttributeValue (tag : Tag) (a : Attribute)
  | attributeValueDoubleQuoted (tag : Tag) (a : Attribute)
  | attributeValueSingleQuoted (tag : Tag) (a : Attribute)
  | attributeValueUnquoted (tag : Tag) (a : Attribute)
  | afterAttributeValueQuoted (tag : Tag)
  | selfClosingStartTag (tag : Tag)
  /-- Inside the element of the name; the last one with the letters of an end tag. -/
  | rawText (name : List Char)
  | rawTextLessThanSign (name : List Char)
  | rawTextEndTagOpen (name : List Char)
  | rawTextEndTagName (name written : List Char)
  /-- A declaration that is no comment, up to its `>`. -/
  | bogusComment
  | markupDeclarationOpen
  | markupDeclarationDash
  | commentStart
  | commentStartDash
  | comment
  | commentEndDash
  | commentEnd
  | commentEndBang
  deriving DecidableEq

section
variable (rawText : List Char → Bool)

/-- At the `>` of a tag; an end tag leaves nothing. -/
def close (tag : Tag) : State × Option Tag :=
  if tag.isEnd then (.data, none)
  else if rawText tag.name then (.rawText tag.name, some tag.distinct)
  else (.data, some tag.distinct)

/-- Where an attribute may begin; `last` is the letter before `c`. -/
def beforeName (last : Char) (tag : Tag) (c : Char) : State × Option Tag :=
  if isBlank c then (.beforeAttributeName tag, none)
  else if c = '/' then (.selfClosingStartTag tag, none)
  else if c = '>' then close rawText tag
  else (.attributeName tag ⟨last, [c], false, []⟩, none)

/-- One character of a comment. -/
def inComment (c : Char) : State := if c = '-' then .commentEndDash else .comment

/-- One character of raw text. -/
def inRawText (name : List Char) (c : Char) : State :=
  if c = '<' then .rawTextLessThanSign name else .rawText name

/-- The state after a character, and the tag that ends with it. -/
def next (last : Char) : State → Char → State × Option Tag
  | .data, c => (if c = '<' then .tagOpen else .data, none)
  | .tagOpen, c =>
    if c.isAlpha then (.tagName ⟨false, [c], []⟩, none)
    else if c = '/' then (.endTagOpen, none)
    else if c = '!' then (.markupDeclarationOpen, none)
    else if c = '?' then (.bogusComment, none)
    else if c = '<' then (.tagOpen, none)
    else (.data, none)
  | .endTagOpen, c =>
    if c.isAlpha then (.tagName ⟨true, [c], []⟩, none)
    else if c = '>' then (.data, none)
    else (.bogusComment, none)
  | .tagName tag, c =>
    if isBlank c then (.beforeAttributeName tag, none)
    else if c = '/' then (.selfClosingStartTag tag, none)
    else if c = '>' then close rawText tag
    else (.tagName { tag with written := tag.written ++ [c] }, none)
  | .beforeAttributeName tag, c => beforeName rawText last tag c
  | .attributeName tag a, c =>
    if c = '=' then (.beforeAttributeValue tag { a with assigned := true }, none)
    else if isBlank c then (.afterAttributeName tag a, none)
    else if c = '/' then (.selfClosingStartTag (tag.push a), none)
    else if c = '>' then close rawText (tag.push a)
    else (.attributeName tag { a with written := a.written ++ [c] }, none)
  | .afterAttributeName tag a, c =>
    if c = '=' then (.beforeAttributeValue tag a, none)
    else if isBlank c then (.afterAttributeName tag a, none)
    else beforeName rawText last (tag.push a) c
  | .beforeAttributeValue tag a, c =>
    if isBlank c then (.beforeAttributeValue tag a, none)
    else if c = '"' then (.attributeValueDoubleQuoted tag a, none)
    else if c = '\'' then (.attributeValueSingleQuoted tag a, none)
    else if c = '>' then close rawText (tag.push a)
    else (.attributeValueUnquoted tag { a with value := [c] }, none)
  | .attributeValueDoubleQuoted tag a, c =>
    if c = '"' then (.afterAttributeValueQuoted (tag.push a), none)
    else (.attributeValueDoubleQuoted tag { a with value := a.value ++ [c] }, none)
  | .attributeValueSingleQuoted tag a, c =>
    if c = '\'' then (.afterAttributeValueQuoted (tag.push a), none)
    else (.attributeValueSingleQuoted tag { a with value := a.value ++ [c] }, none)
  | .attributeValueUnquoted tag a, c =>
    if isBlank c then (.beforeAttributeName (tag.push a), none)
    else if c = '>' then close rawText (tag.push a)
    else (.attributeValueUnquoted tag { a with value := a.value ++ [c] }, none)
  | .afterAttributeValueQuoted tag, c => beforeName rawText last tag c
  | .selfClosingStartTag tag, c => beforeName rawText last tag c
  | .rawText name, c => (inRawText name c, none)
  | .rawTextLessThanSign name, c => (if c = '/' then .rawTextEndTagOpen name else inRawText name c, none)
  | .rawTextEndTagOpen name, c =>
    (if c.isAlpha then .rawTextEndTagName name [c] else inRawText name c, none)
  | .rawTextEndTagName name written, c =>
    if c.isAlpha then (.rawTextEndTagName name (written ++ [c]), none)
    else if written.map lower = name ∧ endsName c = true then
      beforeName rawText last ⟨true, written, []⟩ c
    else (inRawText name c, none)
  | .bogusComment, c => (if c = '>' then .data else .bogusComment, none)
  | .markupDeclarationOpen, c =>
    (if c = '-' then .markupDeclarationDash else if c = '>' then .data else .bogusComment, none)
  | .markupDeclarationDash, c =>
    (if c = '-' then .commentStart else if c = '>' then .data else .bogusComment, none)
  | .commentStart, c =>
    (if c = '-' then .commentStartDash else if c = '>' then .data else .comment, none)
  | .commentStartDash, c => (if c = '-' then .commentEnd else if c = '>' then .data else .comment, none)
  | .comment, c => (inComment c, none)
  | .commentEndDash, c => (if c = '-' then .commentEnd else .comment, none)
  | .commentEnd, c =>
    (if c = '>' then .data else if c = '!' then .commentEndBang else if c = '-' then .commentEnd
      else .comment, none)
  | .commentEndBang, c =>
    (if c = '-' then .commentEndDash else if c = '>' then .data else .comment, none)

/-- The state, the last character and the start tags so far. -/
structure Tokenizer where
  state : State
  last : Char
  startTags : List Tag

/-- One character. -/
def step (t : Tokenizer) (c : Char) : Tokenizer :=
  let (state, tag) := next rawText t.last t.state c
  { state, last := c, startTags := t.startTags ++ tag.toList }

/-- The start tags of a text; one that is open at its end is none. -/
def startTags (html : List Char) : List Tag := (html.foldl (step rawText) ⟨.data, ' ', []⟩).startTags

end

/-! ## Tags and attributes stand in the text -/

attribute [local simp] next

/-- What has been read of an attribute whose name is not over. -/
def Attribute.Begun (a : Attribute) (read : List Char) : Prop :=
  a.assigned = false ∧ ∃ u, read = u ++ a.before :: a.written

/-- The attribute stands in what has been read. -/
def Attribute.In (a : Attribute) (read : List Char) : Prop :=
  ∃ u v, read = u ++ a.before :: (a.written ++ v) ∧ (a.assigned = true → v.head? = some '=')

/-- What has been read of a tag whose name is not over. -/
structure Tag.Begun (tag : Tag) (read : List Char) : Prop where
  letter : tag.written.head?.any Char.isAlpha = true
  attributes : tag.attributes = []
  stands : ∃ u, read = u ++ tag.opening ++ tag.written

/-- The tag stands in what has been read, up to the letter behind its name at least. -/
structure Tag.In (tag : Tag) (read : List Char) : Prop where
  letter : tag.written.head?.any Char.isAlpha = true
  attributes : ∀ a ∈ tag.attributes, a.In read
  stands : ∃ u c v, endsName c = true ∧ read = u ++ tag.opening ++ tag.written ++ c :: v

theorem Attribute.In.append {a : Attribute} {read : List Char} (h : a.In read) (c : Char) :
    a.In (read ++ [c]) := by
  obtain ⟨u, v, rfl, hassigned⟩ := h
  refine ⟨u, v ++ [c], by simp, fun ha => ?_⟩
  rw [List.head?_append, hassigned ha]
  rfl

theorem Attribute.Begun.in {a : Attribute} {read : List Char} (h : a.Begun read) : a.In read := by
  obtain ⟨hassigned, u, rfl⟩ := h
  refine ⟨u, [], by simp, fun ha => ?_⟩
  rw [hassigned] at ha
  exact absurd ha Bool.false_ne_true

theorem Attribute.Begun.assign {a : Attribute} {read : List Char} (h : a.Begun read) :
    Attribute.In { a with assigned := true } (read ++ ['=']) := by
  obtain ⟨-, u, rfl⟩ := h
  exact ⟨u, ['='], by simp, fun _ => rfl⟩

theorem Attribute.Begun.append {a : Attribute} {read : List Char} (h : a.Begun read) (c : Char) :
    Attribute.Begun { a with written := a.written ++ [c] } (read ++ [c]) := by
  obtain ⟨hassigned, u, rfl⟩ := h
  exact ⟨hassigned, u, by simp⟩

theorem Tag.In.append {tag : Tag} {read : List Char} (h : tag.In read) (c : Char) : tag.In (read ++ [c]) := by
  obtain ⟨u, c', v, hends, rfl⟩ := h.stands
  exact ⟨h.letter, fun a ha => (h.attributes a ha).append c, u, c', v ++ [c], hends, by simp⟩

theorem Tag.In.push {tag : Tag} {read : List Char} (h : tag.In read) {a : Attribute} (ha : a.In read) :
    (tag.push a).In read := by
  refine ⟨h.letter, fun b hb => ?_, h.stands⟩
  rcases List.mem_append.mp hb with hb | hb
  · exact h.attributes b hb
  · rw [List.mem_singleton.mp hb]
    exact ha

theorem Tag.mem_distinct {tag : Tag} {a : Attribute} (h : a ∈ tag.distinct.attributes) :
    a ∈ tag.attributes := by
  have hfold : ∀ (as kept : List Attribute), a ∈ as.foldl
      (fun kept a => if kept.any (·.name == a.name) then kept else kept ++ [a]) kept →
      a ∈ kept ∨ a ∈ as := by
    intro as
    induction as with
    | nil => exact fun kept h => Or.inl h
    | cons b as ih =>
      intro kept h
      rw [List.foldl_cons] at h
      rcases ih _ h with h | h
      · by_cases hany : (kept.any (·.name == b.name)) = true
        · rw [if_pos hany] at h
          exact Or.inl h
        · rw [if_neg hany, List.mem_append, List.mem_singleton] at h
          exact h.imp_right fun he => List.mem_cons.mpr (Or.inl he)
      · exact Or.inr (List.mem_cons_of_mem _ h)
  exact (hfold tag.attributes [] h).resolve_left List.not_mem_nil

theorem Tag.In.distinct {tag : Tag} {read : List Char} (h : tag.In read) : tag.distinct.In read :=
  ⟨h.letter, fun a ha => h.attributes a (Tag.mem_distinct ha), h.stands⟩

theorem Tag.Begun.append {tag : Tag} {read : List Char} (h : tag.Begun read) (c : Char) :
    Tag.Begun { tag with written := tag.written ++ [c] } (read ++ [c]) := by
  obtain ⟨u, rfl⟩ := h.stands
  refine ⟨?_, h.attributes, u, by simp [Tag.opening]⟩
  have hletter := h.letter
  rcases hw : tag.written with _ | ⟨c', cs⟩
  · rw [hw] at hletter
    exact absurd hletter Bool.false_ne_true
  · rw [hw] at hletter
    exact hletter

theorem Tag.Begun.in {tag : Tag} {read : List Char} (h : tag.Begun read) {c : Char} (hc : endsName c = true) :
    tag.In (read ++ [c]) := by
  obtain ⟨u, rfl⟩ := h.stands
  refine ⟨h.letter, fun a ha => ?_, u, c, [], hc, rfl⟩
  rw [h.attributes] at ha
  exact absurd ha List.not_mem_nil

/-! ## One letter -/

/-- What a state says of the text that has been read. -/
def State.Fits (read : List Char) : State → Prop
  | .tagOpen | .rawTextLessThanSign _ => ∃ u, read = u ++ ['<']
  | .endTagOpen | .rawTextEndTagOpen _ => ∃ u, read = u ++ ['<', '/']
  | .tagName tag => tag.Begun read
  | .rawTextEndTagName _ written => Tag.Begun ⟨true, written, []⟩ read
  | .beforeAttributeName tag | .afterAttributeValueQuoted tag | .selfClosingStartTag tag => tag.In read
  | .attributeName tag a => tag.In read ∧ a.Begun read
  | .afterAttributeName tag a | .beforeAttributeValue tag a | .attributeValueDoubleQuoted tag a
  | .attributeValueSingleQuoted tag a | .attributeValueUnquoted tag a => tag.In read ∧ a.In read
  | _ => True

/-- A state with the tag that has just been left. -/
def Left (read : List Char) (p : State × Option Tag) : Prop := p.1.Fits read ∧ ∀ tag ∈ p.2, tag.In read

theorem left_none {read : List Char} {s : State} (h : s.Fits read) : Left read (s, none) :=
  ⟨h, fun _ htag => absurd htag (Option.not_mem_none _)⟩

variable {rawText : List Char → Bool}

theorem left_close {read : List Char} {tag : Tag} (h : tag.In read) : Left read (close rawText tag) := by
  have hleft : ∀ tag' ∈ some tag.distinct, tag'.In read := by
    intro tag' htag'
    rw [← Option.mem_some_iff.mp htag']
    exact h.distinct
  unfold close
  by_cases hend : tag.isEnd = true
  · rw [if_pos hend]
    exact left_none trivial
  · rw [if_neg hend]
    by_cases hraw : rawText tag.name = true
    · rw [if_pos hraw]
      exact ⟨trivial, hleft⟩
    · rw [if_neg hraw]
      exact ⟨trivial, hleft⟩

theorem left_beforeName {u : List Char} {last c : Char} {tag : Tag} (h : tag.In (u ++ [last, c])) :
    Left (u ++ [last, c]) (beforeName rawText last tag c) := by
  unfold beforeName
  by_cases hblank : isBlank c = true
  · rw [if_pos hblank]
    exact left_none h
  rw [if_neg hblank]
  by_cases hslash : c = '/'
  · rw [if_pos hslash]
    exact left_none h
  rw [if_neg hslash]
  by_cases hclose : c = '>'
  · rw [if_pos hclose]
    exact left_close h
  · rw [if_neg hclose]
    exact left_none ⟨h, rfl, u, rfl⟩

theorem fits_inRawText {u : List Char} {name : List Char} {c : Char} :
    (inRawText name c).Fits (u ++ [c]) := by
  unfold inRawText
  by_cases hc : c = '<'
  · rw [if_pos hc, hc]
    exact ⟨u, rfl⟩
  · rw [if_neg hc]
    trivial

/-- The value of an attribute is not looked at. -/
theorem Attribute.In.withValue {a : Attribute} {read : List Char} (h : a.In read) (value : List Char) :
    Attribute.In { a with value } read := h

theorem left_tagName {read : List Char} {tag : Tag} {c : Char} (h : tag.Begun read) :
    ∀ last, Left (read ++ [c]) (next rawText last (.tagName tag) c) := by
  intro last
  simp only [next]
  by_cases hblank : isBlank c = true
  · rw [if_pos hblank]
    exact left_none (h.in (by simp [endsName, hblank]))
  rw [if_neg hblank]
  by_cases hslash : c = '/'
  · rw [if_pos hslash]
    exact left_none (h.in (by simp [endsName, hslash]))
  rw [if_neg hslash]
  by_cases hclose : c = '>'
  · rw [if_pos hclose]
    exact left_close (h.in (by simp [endsName, hclose]))
  · rw [if_neg hclose]
    exact left_none (h.append c)

theorem left_attributeName {read : List Char} {tag : Tag} {a : Attribute} {c : Char} (h : tag.In read)
    (ha : a.Begun read) : ∀ last, Left (read ++ [c]) (next rawText last (.attributeName tag a) c) := by
  intro last
  simp only [next]
  by_cases hassign : c = '='
  · rw [if_pos hassign, hassign]
    exact left_none ⟨h.append '=', ha.assign⟩
  rw [if_neg hassign]
  by_cases hblank : isBlank c = true
  · rw [if_pos hblank]
    exact left_none ⟨h.append c, ha.in.append c⟩
  rw [if_neg hblank]
  by_cases hslash : c = '/'
  · rw [if_pos hslash]
    exact left_none ((h.push ha.in).append c)
  rw [if_neg hslash]
  by_cases hclose : c = '>'
  · rw [if_pos hclose]
    exact left_close ((h.push ha.in).append c)
  · rw [if_neg hclose]
    exact left_none ⟨h.append c, ha.append c⟩

theorem left_afterAttributeName {u : List Char} {last c : Char} {tag : Tag} {a : Attribute}
    (h : tag.In (u ++ [last, c])) (ha : a.In (u ++ [last, c])) :
    Left (u ++ [last, c]) (next rawText last (.afterAttributeName tag a) c) := by
  simp only [next]
  by_cases hassign : c = '='
  · rw [if_pos hassign]
    exact left_none ⟨h, ha⟩
  rw [if_neg hassign]
  by_cases hblank : isBlank c = true
  · rw [if_pos hblank]
    exact left_none ⟨h, ha⟩
  · rw [if_neg hblank]
    exact left_beforeName (h.push ha)

theorem left_beforeAttributeValue {read : List Char} {tag : Tag} {a : Attribute} {c : Char} (h : tag.In read)
    (ha : a.In read) : ∀ last, Left read (next rawText last (.beforeAttributeValue tag a) c) := by
  intro last
  simp only [next]
  by_cases hblank : isBlank c = true
  · rw [if_pos hblank]
    exact left_none ⟨h, ha⟩
  rw [if_neg hblank]
  by_cases hdouble : c = '"'
  · rw [if_pos hdouble]
    exact left_none ⟨h, ha⟩
  rw [if_neg hdouble]
  by_cases hsingle : c = '\''
  · rw [if_pos hsingle]
    exact left_none ⟨h, ha⟩
  rw [if_neg hsingle]
  by_cases hclose : c = '>'
  · rw [if_pos hclose]
    exact left_close (h.push ha)
  · rw [if_neg hclose]
    exact left_none ⟨h, ha.withValue _⟩

/-- A quoted value, and an unquoted one, go on or end. -/
theorem left_attributeValue {read : List Char} {tag : Tag} {a : Attribute} {c : Char} (h : tag.In read)
    (ha : a.In read) : ∀ last, Left read (next rawText last (.attributeValueDoubleQuoted tag a) c) ∧
      Left read (next rawText last (.attributeValueSingleQuoted tag a) c) ∧
      Left read (next rawText last (.attributeValueUnquoted tag a) c) := by
  intro last
  simp only [next]
  refine ⟨?_, ?_, ?_⟩
  · split_ifs
    · exact left_none (h.push ha)
    · exact left_none ⟨h, ha.withValue _⟩
  · split_ifs
    · exact left_none (h.push ha)
    · exact left_none ⟨h, ha.withValue _⟩
  · split_ifs
    · exact left_none (h.push ha)
    · exact left_close (h.push ha)
    · exact left_none ⟨h, ha.withValue _⟩

/-- The letter behind `<` or `</`. -/
theorem begun_of_letter {u : List Char} {c : Char} (isEnd : Bool) (hc : c.isAlpha = true) :
    Tag.Begun ⟨isEnd, [c], []⟩ (u ++ (Tag.mk isEnd [c] []).opening ++ [c]) :=
  ⟨hc, rfl, u, rfl⟩

theorem left_rawTextEndTagName {u name written : List Char} {last c : Char}
    (h : Tag.Begun ⟨true, written, []⟩ (u ++ [last])) :
    Left (u ++ [last, c]) (next rawText last (.rawTextEndTagName name written) c) := by
  have hread : u ++ [last, c] = (u ++ [last]) ++ [c] := by simp
  simp only [next]
  by_cases hletter : c.isAlpha = true
  · rw [if_pos hletter, hread]
    exact left_none (h.append c)
  rw [if_neg hletter]
  by_cases hends : written.map lower = name ∧ endsName c = true
  · rw [if_pos hends]
    refine left_beforeName ?_
    rw [hread]
    exact h.in hends.2
  · rw [if_neg hends, hread]
    exact left_none fits_inRawText

theorem left_data (read : List Char) (last c : Char) : Left (read ++ [c]) (next rawText last .data c) := by
  simp only [next]
  split_ifs with hc
  · rw [hc]
    exact left_none ⟨read, rfl⟩
  · exact left_none trivial

/-- **One letter** keeps what a state says of the text, and a tag that is left stands in it. -/
theorem left_next {u : List Char} {last c : Char} {s : State} (h : s.Fits (u ++ [last])) :
    Left (u ++ [last, c]) (next rawText last s c) := by
  have hread : u ++ [last, c] = (u ++ [last]) ++ [c] := by simp
  cases s with
  | data =>
    rw [hread]
    exact left_data _ last c
  | tagOpen =>
    obtain ⟨v, hv⟩ := h
    rw [hread, hv]
    simp only [next]
    split_ifs with hletter hslash hbang hquestion hopen
    · exact left_none (begun_of_letter false hletter)
    · rw [hslash]
      exact left_none ⟨v, by simp⟩
    · exact left_none trivial
    · exact left_none trivial
    · rw [hopen]
      exact left_none ⟨_, rfl⟩
    · exact left_none trivial
  | endTagOpen =>
    obtain ⟨v, hv⟩ := h
    rw [hread, hv]
    simp only [next]
    split_ifs with hletter hclose
    · exact left_none (begun_of_letter true hletter)
    · exact left_none trivial
    · exact left_none trivial
  | tagName tag =>
    rw [hread]
    exact left_tagName h last
  | beforeAttributeName tag => exact left_beforeName (hread ▸ Tag.In.append h c)
  | afterAttributeValueQuoted tag => exact left_beforeName (hread ▸ Tag.In.append h c)
  | selfClosingStartTag tag => exact left_beforeName (hread ▸ Tag.In.append h c)
  | attributeName tag a =>
    rw [hread]
    exact left_attributeName h.1 h.2 last
  | afterAttributeName tag a => exact left_afterAttributeName (hread ▸ h.1.append c) (hread ▸ h.2.append c)
  | beforeAttributeValue tag a =>
    rw [hread]
    exact left_beforeAttributeValue (h.1.append c) (h.2.append c) last
  | attributeValueDoubleQuoted tag a =>
    rw [hread]
    exact (left_attributeValue (h.1.append c) (h.2.append c) last).1
  | attributeValueSingleQuoted tag a =>
    rw [hread]
    exact (left_attributeValue (h.1.append c) (h.2.append c) last).2.1
  | attributeValueUnquoted tag a =>
    rw [hread]
    exact (left_attributeValue (h.1.append c) (h.2.append c) last).2.2
  | rawText name =>
    rw [hread]
    exact left_none fits_inRawText
  | rawTextLessThanSign name =>
    obtain ⟨v, hv⟩ := h
    simp only [next]
    split_ifs with hslash
    · rw [hread, hv, hslash]
      exact left_none ⟨v, by simp⟩
    · rw [hread]
      exact left_none fits_inRawText
  | rawTextEndTagOpen name =>
    obtain ⟨v, hv⟩ := h
    simp only [next]
    split_ifs with hletter
    · rw [hread, hv]
      exact left_none (begun_of_letter true hletter)
    · rw [hread]
      exact left_none fits_inRawText
  | rawTextEndTagName name written => exact left_rawTextEndTagName h
  | comment =>
    simp only [next, inComment]
    split_ifs
    · exact left_none trivial
    · exact left_none trivial
  | _ =>
    simp only [next]
    split_ifs
    all_goals exact left_none trivial

/-! ## A whole text -/

/-- What a run has read. -/
structure Tokenizer.Fits (t : Tokenizer) (read : List Char) : Prop where
  last : t.state = .data ∨ ∃ u, read = u ++ [t.last]
  state : t.state.Fits read
  startTags : ∀ tag ∈ t.startTags, tag.In read

theorem Tokenizer.Fits.step {t : Tokenizer} {read : List Char} (h : t.Fits read) (c : Char) :
    (step rawText t c).Fits (read ++ [c]) := by
  have hnext : Left (read ++ [c]) (next rawText t.last t.state c) := by
    rcases h.last with hdata | ⟨u, rfl⟩
    · rw [hdata]
      exact left_data read t.last c
    · have hread : u ++ [t.last] ++ [c] = u ++ [t.last, c] := by simp
      rw [hread]
      exact left_next h.state
  refine ⟨Or.inr ⟨read, rfl⟩, hnext.1, fun tag htag => ?_⟩
  rcases List.mem_append.mp htag with htag | htag
  · exact (h.startTags tag htag).append c
  · exact hnext.2 tag (Option.mem_toList.mp htag)

theorem run_fits {t : Tokenizer} {read : List Char} (h : t.Fits read) (html : List Char) :
    (html.foldl (step rawText) t).Fits (read ++ html) := by
  induction html generalizing t read with
  | nil =>
    rw [List.append_nil]
    exact h
  | cons c html ih =>
    rw [List.foldl_cons, List.append_cons]
    exact ih (h.step c)

/-- **A start tag of a text** stands in it as it is written, and so do its attributes. -/
theorem startTags_stand {html : List Char} {tag : Tag} (h : tag ∈ startTags rawText html) : tag.In html := by
  have hstart : Tokenizer.Fits ⟨.data, ' ', []⟩ [] :=
    ⟨Or.inl rfl, trivial, fun _ htag => absurd htag List.not_mem_nil⟩
  exact (run_fits hstart html).startTags tag h

/-- A slash, blanks around `=`, a quote right before the next name, and a comment. -/
example : (startTags (fun _ => false) "<A/x = 1 y='2'Z></a><!-- <b> -->".toList).map (fun tag =>
    (String.ofList tag.name, tag.attributes.map fun a => (a.before, String.ofList a.name, a.assigned))) =
    [("a", [('/', "x", false), (' ', "y", true), ('\'', "z", false)])] := by
  decide +kernel

end Neltrik.Lib.Html
