import Neltrik.Lib.Scan
import Neltrik.Notifications.Domain
import Neltrik.Shared.Text

/-! # Templates

The regular expressions of the module as patterns, what is made of their matches, and the entity
`NotificationTemplate`. `sanitizeHtml` is the package of that name with the options of `validateHtml`. -/

namespace Neltrik.Notifications

open Neltrik.Lib Neltrik.Lib.Scan Neltrik.Shared

/-! ## Placeholders -/

/-- `[a-zA-Z0-9_]`. -/
def isWord (c : Char) : Bool := c.isAlphanum || c == '_'

/-- `PLACEHOLDER_REGEX`, `/\{\{\s*([a-zA-Z0-9_]+)\s*\}\}/g`. -/
def placeholder : Pattern Char String
  | '{', '{' :: cs =>
    let before := cs.takeWhile isSpace
    let cs := cs.dropWhile isSpace
    let key := cs.takeWhile isWord
    let cs := cs.dropWhile isWord
    let after := cs.takeWhile isSpace
    match cs.dropWhile isSpace with
    | '}' :: '}' :: _ =>
      if key.isEmpty then none
      else some (before.length + key.length + after.length + 3, String.ofList key)
    | _ => none
  | _, _ => none

/-- The names between double braces, each once. -/
def extractVariables (template : String) : List String :=
  (matchAll placeholder template.toList).eraseDups

/-- `StringInterpolationRenderer.render`: a placeholder without a primitive value is left. -/
def render (template : String) (payload : JsonObject) : String :=
  String.ofList
    (replace placeholder (fun raw key => ((payload.text key).map String.toList).getD raw) template.toList)

/-! ## HTML -/

/-- The rest of a text behind `word`, in any case. -/
def skipWord : List Char → List Char → Option (List Char)
  | [], cs => some cs
  | w :: word, c :: cs => if c.toLower = w then skipWord word cs else none
  | _ :: _, [] => none

/-- `/<\/?([a-z][a-z0-9]*)/gi`. -/
def tagName : Pattern Char String
  | '<', cs =>
    let slash := if cs.head? = some '/' then 1 else 0
    match cs.drop slash with
    | c :: cs =>
      if c.isAlpha then
        let rest := cs.takeWhile Char.isAlphanum
        some (slash + rest.length + 1, String.ofList (c :: rest))
      else none
    | [] => none
  | _, _ => none

/-- `/\s([a-z][a-z0-9-]*)=/gi`. -/
def attributeName : Pattern Char String
  | s, c :: cs =>
    let rest := cs.takeWhile fun c => c.isAlphanum || c == '-'
    if isSpace s && c.isAlpha && (cs.drop rest.length).head? = some '=' then
      some (rest.length + 2, String.ofList (c :: rest))
    else none
  | _, [] => none

/-- `/<name>="([^"]*)"/gi`, for a name of one case. -/
def quoted (name : List Char) : Pattern Char String := fun c cs =>
  match skipWord (name ++ ['=', '"']) (c :: cs) with
  | some cs =>
    let value := cs.takeWhile (· != '"')
    if (cs.drop value.length).head? = some '"' then
      some (name.length + value.length + 2, String.ofList value)
    else none
  | none => none

/-- The names of the tags. -/
def extractTags (html : String) : List String :=
  ((matchAll tagName html.toList).map String.toLower).eraseDups

/-- The names of the attributes. -/
def extractAttributes (html : String) : List String :=
  ((matchAll attributeName html.toList).map String.toLower).eraseDups

/-- The values of `href`. -/
def extractHrefs (html : String) : List String := matchAll (quoted ['h', 'r', 'e', 'f']) html.toList

/-- The values of `src`. -/
def extractSrcs (html : String) : List String := matchAll (quoted ['s', 'r', 'c']) html.toList

/-- `ALLOWED_TAGS`. -/
def allowedTags : List String :=
  ["h1", "h2", "h3", "h4", "h5", "h6", "p", "br", "hr", "strong", "em", "u", "s", "ul", "ol", "li", "a",
    "img", "table", "thead", "tbody", "tr", "th", "td", "div", "span", "html", "body", "head", "title"]

/-- What `extract` finds in the text and not in what the sanitizer leaves of it. -/
def removed (extract : String → List String) (sanitizeHtml : String → String) (html : String) :
    List String :=
  (extract html).filter fun item => !(extract (sanitizeHtml html)).contains item

/-- One message for all of a kind. -/
def disallowed (kind : String) (items : List String) : List String :=
  if items.isEmpty then [] else ["Disallowed " ++ kind ++ ": " ++ ", ".intercalate items]

/-- The messages of the checks, in their order. -/
def validateHtml (sanitizeHtml : String → String) (html : String) : List String :=
  let invalidTags := (removed extractTags sanitizeHtml html).filter fun tag => !allowedTags.contains tag
  let invalidAttrs := removed extractAttributes sanitizeHtml html
  let invalidHrefs := removed extractHrefs sanitizeHtml html
  let invalidSrcs := removed extractSrcs sanitizeHtml html
  disallowed "tags" invalidTags ++ disallowed "attributes" invalidAttrs ++
    disallowed "links" invalidHrefs ++ disallowed "sources" invalidSrcs

/-! ## The entity -/

/-- `NOTIFICATION_TEMPLATE_LOCALE_REGEX`, `/^[a-z]{2}(-[A-Z]{2})?$/`. -/
def isLocale (locale : String) : Bool :=
  match locale.toList with
  | [a, b] => a.isLower && b.isLower
  | [a, b, '-', c, d] => a.isLower && b.isLower && c.isUpper && d.isUpper
  | _ => false

/-- The fields of a template. -/
structure NotificationTemplateProps where
  id : String
  tenantId : Option String
  code : NotificationCode
  channel : NotificationChannel
  locale : String
  subject : Option String
  body : String
  isActive : Bool
  version : ℕ
  createdAt : ℕ
  updatedAt : ℕ

/-- The variables of a body that are not of the code. -/
def invalidVariables (code : NotificationCode) (body : String) : List String :=
  (extractVariables body).filter fun v => !code.notificationVariables.contains v

/-- A template with what its constructor has checked. -/
structure NotificationTemplate (sanitizeHtml : String → String) extends NotificationTemplateProps where
  locale_ok : isLocale locale = true
  subject_present : channel = .email → isPresent subject = true
  body_ne : body ≠ ""
  html_ok : validateHtml sanitizeHtml body = []
  variables_ok : invalidVariables code body = []

namespace NotificationTemplate
variable {sanitizeHtml : String → String}

/-- The private constructor, with the errors in the order of its checks. -/
def ofProps (p : NotificationTemplateProps) :
    Except NotificationError (NotificationTemplate sanitizeHtml) :=
  if p.locale = "" then .error .templateLocaleRequired
  else if hl : isLocale p.locale = true then
    if hs : p.channel = .email → isPresent p.subject = true then
      if hb : p.body ≠ "" then
        if hh : validateHtml sanitizeHtml p.body = [] then
          if hv : invalidVariables p.code p.body = [] then .ok ⟨p, hl, hs, hb, hh, hv⟩
          else .error (.invalidTemplateVariable (invalidVariables p.code p.body))
        else .error (.invalidTemplateHtml (validateHtml sanitizeHtml p.body))
      else .error .templateBodyRequired
    else .error .templateSubjectRequired
  else .error .invalidTemplateLocale

/-- A new template is active and starts at version `0`. -/
def create (p : NotificationTemplateProps) :
    Except NotificationError (NotificationTemplate sanitizeHtml) :=
  ofProps { p with isActive := true, version := 0, updatedAt := p.createdAt }

/-- The checks of the constructor on the new texts. -/
def updateContent (t : NotificationTemplate sanitizeHtml) (subject : Option String) (body : String)
    (now : ℕ) : Except NotificationError (NotificationTemplate sanitizeHtml) :=
  if hs : t.channel = .email → isPresent subject = true then
    if hb : body ≠ "" then
      if hh : validateHtml sanitizeHtml body = [] then
        if hv : invalidVariables t.code body = [] then
          .ok { t with
            subject, body, updatedAt := now, subject_present := hs, body_ne := hb, html_ok := hh
            variables_ok := hv }
        else .error (.invalidTemplateVariable (invalidVariables t.code body))
      else .error (.invalidTemplateHtml (validateHtml sanitizeHtml body))
    else .error .templateBodyRequired
  else .error .templateSubjectRequired

/-- It does nothing to one that is active. -/
def activate (t : NotificationTemplate sanitizeHtml) (now : ℕ) : NotificationTemplate sanitizeHtml :=
  if t.isActive then t else { t with isActive := true, updatedAt := now }

/-- It does nothing to one that is not active. -/
def desactivate (t : NotificationTemplate sanitizeHtml) (now : ℕ) : NotificationTemplate sanitizeHtml :=
  if t.isActive then { t with isActive := false, updatedAt := now } else t

/-- Another active template of the same code, channel, locale and tenant. -/
def hasConflict (t other : NotificationTemplate sanitizeHtml) : Bool :=
  if other.id = t.id then false
  else if other.isActive = false then false
  else other.code == t.code && other.channel == t.channel && other.locale == t.locale &&
    other.tenantId == t.tenantId

theorem create_ok {p : NotificationTemplateProps} {t : NotificationTemplate sanitizeHtml}
    (h : create p = .ok t) : t.id = p.id ∧ t.tenantId = p.tenantId := by
  unfold create ofProps at h
  split_ifs at h
  obtain rfl := Except.ok.inj h
  exact ⟨rfl, rfl⟩

/-- A template keeps its id and its tenant. -/
theorem updateContent_ok {t t' : NotificationTemplate sanitizeHtml} {subject : Option String} {body : String}
    {now : ℕ} (h : t.updateContent subject body now = .ok t') : t'.id = t.id ∧ t'.tenantId = t.tenantId := by
  unfold updateContent at h
  split_ifs at h
  obtain rfl := Except.ok.inj h
  exact ⟨rfl, rfl⟩

theorem activate_id (t : NotificationTemplate sanitizeHtml) (now : ℕ) :
    (t.activate now).id = t.id ∧ (t.activate now).tenantId = t.tenantId := by
  unfold activate
  split_ifs
  · exact ⟨rfl, rfl⟩
  · exact ⟨rfl, rfl⟩

theorem desactivate_id (t : NotificationTemplate sanitizeHtml) (now : ℕ) :
    (t.desactivate now).id = t.id ∧ (t.desactivate now).tenantId = t.tenantId := by
  unfold desactivate
  split_ifs
  · exact ⟨rfl, rfl⟩
  · exact ⟨rfl, rfl⟩

/-- The version that `update` writes. -/
def bump (t : NotificationTemplate sanitizeHtml) : NotificationTemplate sanitizeHtml :=
  { t with version := t.version + 1 }

@[simp] theorem bump_id (t : NotificationTemplate sanitizeHtml) : t.bump.id = t.id := rfl

@[simp] theorem bump_tenantId (t : NotificationTemplate sanitizeHtml) : t.bump.tenantId = t.tenantId := rfl

end NotificationTemplate

end Neltrik.Notifications
