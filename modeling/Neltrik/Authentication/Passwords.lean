import Neltrik.Authentication.System
import Neltrik.Authorization.EnabledRoles
import Neltrik.Shared.Sanitization

/-! # The password that is typed and the one that is checked

The three handlers that take a password, from the body a client sends: the guard sanitizes it, the schema
checks it, and the use case hashes or compares what is left. `bcrypt` is taken to accept exactly the text
a hash was made from.

`login_iff`: of two texts, the one chosen and the one typed at the login, the law that the login succeeds
exactly when they are the same holds exactly when they are the same or stay different behind the guard.
No choice of a password has it for all texts, as a blank at the end is lost (`KeepsBlanks`). -/

namespace Neltrik.Authentication.Passwords

open Neltrik.Lib Neltrik.Lib.Effect Neltrik.Lib.Table Neltrik.Lib.Machine Neltrik.Shared
open Neltrik.Shared.SanitizationService
open Neltrik.Authorization (AccessError AuthenticationAccount Db Email.create PasswordHash.create
  Register.execute RegisterInput)
open Neltrik.Authorization.Registration

/-- What comes from packages: the sanitizer, `bcrypt.hash` with the salt it draws, `z.email` and
`z.ipv4`. -/
structure Ports extends Authentication.Ports where
  sanitizeHtml : String → String
  bcrypt : String → String → String
  isEmailAddress : String → Bool
  isIpv4 : String → Bool

/-! ## Schemas -/

/-- What a schema finds: a value of another type, or one that fails a check. -/
inductive Issue where
  | invalidType (path : String)
  | check (path message : String)
  deriving DecidableEq

/-- A value, or all issues. -/
abbrev Parsed := Except (List Issue)

/-- Both fields, or the issues of both. -/
def both {α β : Type} : Parsed α → Parsed β → Parsed (α × β)
  | .ok a, .ok b => .ok (a, b)
  | .error is, .ok _ => .error is
  | .ok _, .error js => .error js
  | .error is, .error js => .error (is ++ js)

/-- The body has to be an object. -/
def asObject : Json → Parsed JsonObject
  | .object entries => .ok entries
  | _ => .error [.invalidType ""]

/-- `z.string()` with one check. -/
def string (path : String) (holds : String → Bool) (message : String) (object : JsonObject) : Parsed String :=
  match object.lookup path with
  | some (.string s) => if holds s then .ok s else .error [.check path message]
  | _ => .error [.invalidType path]

/-- `.optional()`. -/
def optional (path : String) (field : JsonObject → Parsed String) (object : JsonObject) :
    Parsed (Option String) :=
  if object.lookup path = none then .ok none else (field object).map some

/-- `.min(n)`. -/
def hasLength (n : ℕ) (s : String) : Bool := n ≤ codeUnits s

/-- What a login is told. -/
structure LoginInput where
  email : String
  password : String
  ipAddress : Option String
  userAgent : Option String

section
variable (ports : Ports)

/-- The field `email`. -/
def email : JsonObject → Parsed String := string "email" ports.isEmailAddress "Invalid email format"

/-- What a client may tell of itself. -/
def clientFields (object : JsonObject) : Parsed (Option String × Option String) :=
  both (optional "ipAddress" (string "ipAddress" ports.isIpv4 "Invalid IP address format") object)
    (optional "userAgent" (string "userAgent" (hasLength 1) "User agent is required") object)

/-- `loginSchema`. -/
def loginSchema (body : Json) : Parsed LoginInput := do
  let object ← asObject body
  let ((email, password), ipAddress, userAgent) ← both
    (both (email ports object) (string "password" (hasLength 1) "Password is required" object))
    (clientFields ports object)
  return { email, password, ipAddress, userAgent }

/-- The fields of a registration, with the password. -/
structure RegisterAccountBody extends RegisterInput where
  password : Option String

/-- `registerAccountSchema`. -/
def registerAccountSchema (body : Json) : Parsed RegisterAccountBody := do
  let object ← asObject body
  let ((invitationToken, provider), (email, password), firstName, lastName) ← both
    (both (string "invitationToken" (hasLength 1) "Invitation token is required" object)
      (string "provider" (hasLength 1) "Provider is required" object))
    (both
      (both (email ports object)
        (optional "password"
          (string "password" (hasLength 8) "Password must be at least 8 characters") object))
      (both (string "firstName" (hasLength 1) "First name is required" object)
        (string "lastName" (hasLength 1) "Last name is required" object)))
  return { invitationToken, email, firstName, lastName, provider, password }

/-- `resetPasswordSchema`. -/
def resetPasswordSchema (body : Json) : Parsed (String × String) := do
  let object ← asObject body
  both (string "token" (hasLength 1) "Token is required" object)
    (string "newPassword" (hasLength 8) "Password must be at least 8 characters" object)

/-! ## Handlers -/

/-- The tables of the three use cases. -/
structure Tables where
  db : Db
  sessions : KeyedTable AuthenticationSession.id
  resets : List PasswordReset

/-- What a login reads. -/
def Tables.world (s : Tables) : World := ⟨s.sessions, s.db.accounts, s.resets, []⟩

/-- The tables with what a login has written. -/
def Tables.withWorld (s : Tables) (w : World) : Tables :=
  { db := { s.db with accounts := w.accounts }, sessions := w.sessions, resets := w.resets }

/-- Why a request is refused; a reset is refused by a lookup or by its transaction. -/
inductive Refusal where
  | badRequest (issues : List Issue)
  | register (e : AccessError)
  | login (e : AuthError)
  | reset

/-- None of the three handlers skips the guard. -/
def guarded (body : Json) : Json := SanitizationGuard.canActivate ports.sanitizeHtml false body

/-- The password is needed, and hashed. -/
def EmailPasswordProviderStrategy.register (salt : String) (password : Option String) :
    Except AccessError (Option String) :=
  match password.filter (· != "") with
  | none => .error .invalidCredentials
  | some password => .ok (some (ports.bcrypt salt password))

/-- `register`; it returns the id of the new account. -/
def AccountController.register (body : Json) (userId accountId salt : String) (now : ℕ) (s : Tables) :
    Except Refusal String × Tables :=
  match registerAccountSchema ports (guarded ports body) with
  | .error issues => (.error (.badRequest issues), s)
  | .ok body =>
    match Register.execute (EmailPasswordProviderStrategy.register ports salt body.password)
        body.toRegisterInput userId accountId now s.db with
    | (.ok _, db) => (.ok accountId, { s with db })
    | (.error e, db) => (.error (.register e), { s with db })

/-- `ResetPasswordUseCase.execute`, with the account it has written. -/
def ResetPassword.execute (token newPassword salt : String) (now : ℕ) (w : World) :
    Option (AuthenticationAccount × World) := do
  let reset ← PasswordResetRepository.findByTokenHash w (ports.hash token)
  let account ← AccountRepository.findById w reset.authenticationAccountId
  let w ← ResetPassword.commit ports.toPorts w token reset account (ports.bcrypt salt newPassword) now
  return (account, w)

/-- `resetPassword`; the id of the account is what the use case has found, the response has no body. -/
def PasswordResetController.resetPassword (body : Json) (salt : String) (now : ℕ) (s : Tables) :
    Except Refusal String × Tables :=
  match resetPasswordSchema (guarded ports body) with
  | .error issues => (.error (.badRequest issues), s)
  | .ok (token, newPassword) =>
    match ResetPassword.execute ports token newPassword salt now s.world with
    | some (account, w) => (.ok account.id, s.withWorld w)
    | none => (.error .reset, s)

/-- `login` up to the check of the credentials; nothing behind it reads the password. -/
def AuthController.login (body : Json) (s : Tables) : Except Refusal AuthenticationAccount := do
  let input ← (loginSchema ports (guarded ports body)).mapError .badRequest
  (Login.read ports.toPorts s.world input.email input.password).mapError .login

/-- A request that sets the password of an account, whose id is the result. -/
inductive Request where
  | register (body : Json) (userId accountId salt : String) (now : ℕ)
  | resetPassword (body : Json) (salt : String) (now : ℕ)

/-- The handler of the route. -/
def handle : Request → Tables → Except Refusal String × Tables
  | .register body userId accountId salt now =>
    AccountController.register ports body userId accountId salt now
  | .resetPassword body salt now => PasswordResetController.resetPassword ports body salt now

/-- A request as a step, whatever it answers. -/
def step (s : Tables) (r : Request) : Option Tables := some (handle ports r s).2

end

/-- The text a client has put into a field. -/
def typed (key : String) : Json → Option String
  | .object entries =>
    match entries.lookup key with
    | some (.string s) => some s
    | _ => none
  | _ => none

/-- The text that is chosen as the password. -/
def Request.password : Request → Option String
  | .register body _ _ _ _ => typed "password" body
  | .resetPassword body _ _ => typed "newPassword" body

/-! ## What the schemas let through -/

section
variable {ports : Ports}

theorem both_eq_ok {α β : Type} {x : Parsed α} {y : Parsed β} {a : α} {b : β} :
    both x y = .ok (a, b) ↔ x = .ok a ∧ y = .ok b := by
  rcases x with is | a' <;> rcases y with js | b' <;> simp [both]

theorem string_eq_ok {path message s : String} {holds : String → Bool} {object : JsonObject} :
    string path holds message object = .ok s ↔ object.lookup path = some (.string s) ∧ holds s = true := by
  unfold string
  constructor
  · intro h
    split at h
    · rename_i s' hs'
      split_ifs at h with hholds
      rw [← Except.ok.inj h]
      exact ⟨hs', hholds⟩
    · exact absurd h nofun
  · rintro ⟨hs, hholds⟩
    rw [hs]
    exact if_pos hholds

/-- A password that is given has eight letters. -/
theorem optional_eq_ok {path : String} {field : JsonObject → Parsed String} {object : JsonObject}
    {value : Option String} (h : optional path field object = .ok value)
    (hgiven : object.lookup path ≠ none) :
    ∃ s, value = some s ∧ field object = .ok s := by
  unfold optional at h
  rw [if_neg hgiven] at h
  obtain ⟨s, hs, rfl⟩ := except_map_eq_ok.mp h
  exact ⟨s, rfl, hs⟩

theorem asObject_eq_ok {body : Json} {object : JsonObject} :
    asObject body = .ok object ↔ body = .object object := by
  constructor
  · intro h
    unfold asObject at h
    split at h
    · rw [Except.ok.inj h]
    · simp at h
  · rintro rfl
    rfl

theorem typed_eq_some {key s : String} {body : Json} (h : typed key body = some s) :
    ∃ entries, body = .object entries ∧ entries.lookup key = some (.string s) := by
  unfold typed at h
  split at h
  · rename_i entries
    split at h
    · rename_i s' hs'
      exact ⟨entries, rfl, by rw [hs', Option.some.inj h]⟩
    · simp at h
  · simp at h

theorem mapError_eq_ok {ε ε' α : Type} {x : Except ε α} {f : ε → ε'} {a : α} :
    x.mapError f = .ok a ↔ x = .ok a := by
  rcases x with e | b <;> simp [Except.mapError]

theorem guarded_object (entries : JsonObject) :
    guarded ports (.object entries) = .object (sanitizeEntries ports.sanitizeHtml entries) := by
  unfold guarded SanitizationGuard.canActivate
  rw [if_neg Bool.false_ne_true, if_pos (show (Json.object entries).isTruthy = true from rfl), sanitize]

/-- **What the handler reads of a text**, whichever it is. -/
theorem lookup_guarded {key s : String} {body : Json} {object : JsonObject} (h : typed key body = some s)
    (hobject : guarded ports body = .object object) :
    object.lookup key = some (.string (sanitizeText ports.sanitizeHtml s)) := by
  obtain ⟨entries, rfl, hentry⟩ := typed_eq_some h
  rw [guarded_object] at hobject
  rw [← Json.object.inj hobject, lookup_sanitizeEntries, hentry, Option.map_some, sanitize]

theorem registerAccountSchema_ok {body : Json} {input : RegisterAccountBody} {p : String}
    (h : registerAccountSchema ports (guarded ports body) = .ok input) (hp : typed "password" body = some p) :
    ports.isEmailAddress input.email = true ∧ input.password = some (sanitizeText ports.sanitizeHtml p) ∧
      hasLength 8 (sanitizeText ports.sanitizeHtml p) = true := by
  obtain ⟨object, hobject, h⟩ := except_bind_eq_ok.mp h
  obtain ⟨⟨⟨token, provider⟩, ⟨email, password⟩, firstName, lastName⟩, hfields, h⟩ := except_bind_eq_ok.mp h
  rw [← Except.ok.inj h]
  have hlookup := lookup_guarded hp (asObject_eq_ok.mp hobject)
  obtain ⟨-, hfields⟩ := both_eq_ok.mp hfields
  obtain ⟨hfields, -⟩ := both_eq_ok.mp hfields
  obtain ⟨hemail, hpassword⟩ := both_eq_ok.mp hfields
  obtain ⟨s, rfl, hs⟩ := optional_eq_ok hpassword (by rw [hlookup]; nofun)
  obtain ⟨hs, hlength⟩ := string_eq_ok.mp hs
  rw [hlookup] at hs
  obtain rfl := Json.string.inj (Option.some.inj hs)
  exact ⟨(string_eq_ok.mp hemail).2, rfl, hlength⟩

theorem registerAccountSchema_email {body : Json} {input : RegisterAccountBody}
    (h : registerAccountSchema ports body = .ok input) : ports.isEmailAddress input.email = true := by
  obtain ⟨object, -, h⟩ := except_bind_eq_ok.mp h
  obtain ⟨⟨⟨token, provider⟩, ⟨email, password⟩, firstName, lastName⟩, hfields, h⟩ := except_bind_eq_ok.mp h
  rw [← Except.ok.inj h]
  obtain ⟨-, hfields⟩ := both_eq_ok.mp hfields
  obtain ⟨hfields, -⟩ := both_eq_ok.mp hfields
  exact (string_eq_ok.mp (both_eq_ok.mp hfields).1).2

theorem resetPasswordSchema_ok {body : Json} {token newPassword p : String}
    (h : resetPasswordSchema (guarded ports body) = .ok (token, newPassword))
    (hp : typed "newPassword" body = some p) :
    newPassword = sanitizeText ports.sanitizeHtml p ∧ hasLength 8 newPassword = true := by
  obtain ⟨object, hobject, h⟩ := except_bind_eq_ok.mp h
  have hlookup := lookup_guarded hp (asObject_eq_ok.mp hobject)
  obtain ⟨-, hs⟩ := both_eq_ok.mp h
  obtain ⟨hs, hlength⟩ := string_eq_ok.mp hs
  rw [hlookup] at hs
  exact ⟨(Json.string.inj (Option.some.inj hs)).symm, hlength⟩

/-! ## The login -/

/-- The body of a login with an email and a password; what else it says of the client is in order. -/
structure SendsLogin (ports : Ports) (body : Json) (email password : String) : Prop where
  email : typed "email" body = some email
  password : typed "password" body = some password
  client : ∃ object fields, guarded ports body = .object object ∧ clientFields ports object = .ok fields

/-- The login with the body goes through. -/
def Accepts (ports : Ports) (body : Json) (s : Tables) : Prop :=
  ∃ account, AuthController.login ports body s = .ok account

theorem accepts_iff {body : Json} {e q : String} (h : SendsLogin ports body e q) (s : Tables) :
    Accepts ports body s ↔
      ports.isEmailAddress (sanitizeText ports.sanitizeHtml e) = true ∧
      hasLength 1 (sanitizeText ports.sanitizeHtml q) = true ∧
      ∃ account, Login.read ports.toPorts s.world (sanitizeText ports.sanitizeHtml e)
        (sanitizeText ports.sanitizeHtml q) = .ok account := by
  obtain ⟨object, fields, hobject, hfields⟩ := h.client
  have hemail := lookup_guarded h.email hobject
  have hpassword := lookup_guarded h.password hobject
  constructor
  · rintro ⟨account, haccount⟩
    obtain ⟨input, hinput, hread⟩ := except_bind_eq_ok.mp haccount
    obtain ⟨object', hobject', hinput⟩ := except_bind_eq_ok.mp (mapError_eq_ok.mp hinput)
    obtain rfl : object' = object := Json.object.inj ((asObject_eq_ok.mp hobject').symm.trans hobject)
    obtain ⟨⟨⟨e', q'⟩, fields'⟩, hboth, hinput⟩ := except_bind_eq_ok.mp hinput
    obtain ⟨he, hq⟩ := both_eq_ok.mp (both_eq_ok.mp hboth).1
    obtain ⟨he, haddress⟩ := string_eq_ok.mp he
    obtain ⟨hq, hlength⟩ := string_eq_ok.mp hq
    rw [hemail] at he
    rw [hpassword] at hq
    obtain rfl := Json.string.inj (Option.some.inj he)
    obtain rfl := Json.string.inj (Option.some.inj hq)
    rw [← Except.ok.inj hinput] at hread
    exact ⟨haddress, hlength, account, mapError_eq_ok.mp hread⟩
  · rintro ⟨haddress, hlength, account, hread⟩
    have he : email ports object = .ok (sanitizeText ports.sanitizeHtml e) :=
      string_eq_ok.mpr ⟨hemail, haddress⟩
    have hq : string "password" (hasLength 1) "Password is required" object =
        .ok (sanitizeText ports.sanitizeHtml q) := string_eq_ok.mpr ⟨hpassword, hlength⟩
    have hinput : loginSchema ports (guarded ports body) =
        .ok ⟨sanitizeText ports.sanitizeHtml e, sanitizeText ports.sanitizeHtml q, fields.1, fields.2⟩ :=
      except_bind_eq_ok.mpr ⟨object, asObject_eq_ok.mpr hobject,
        except_bind_eq_ok.mpr ⟨_, both_eq_ok.mpr ⟨both_eq_ok.mpr ⟨he, hq⟩, hfields⟩, rfl⟩⟩
    exact ⟨account, except_bind_eq_ok.mpr ⟨_, mapError_eq_ok.mpr hinput, mapError_eq_ok.mpr hread⟩⟩

/-- The check of the credentials, once the account is found. -/
theorem read_iff {w : World} {a : AuthenticationAccount} {address password passwordHash : String}
    (hfound : AccountRepository.findByEmail w address = some a) (hprovider : a.provider = "email-password")
    (hhash : a.passwordHash = some passwordHash) :
    (∃ account, Login.read ports.toPorts w address password = .ok account) ↔
      ports.compare password passwordHash = true := by
  unfold Login.read
  rw [hfound]
  by_cases hcompare : ports.compare password passwordHash = true
  · refine iff_of_true ⟨a, ?_⟩ hcompare
    simp [found, hprovider, hhash, hcompare, bind, Except.bind, pure, Except.pure]
  · refine iff_of_false ?_ hcompare
    rintro ⟨account, h⟩
    simp [found, hprovider, hhash, hcompare, bind, Except.bind] at h

/-! ## The accounts -/

/-- What the requests keep: every account is for logins with a password, no two have the same id or the
same email, and the user of each has the email of the account. -/
structure Inv (ports : Ports) (s : Tables) : Prop where
  provider : ∀ a ∈ s.db.accounts, a.provider = "email-password"
  address : ∀ a ∈ s.db.accounts, ports.isEmailAddress a.email = true
  ids : Keyed (·.id) s.db.accounts
  emails : Keyed (·.email) s.db.accounts
  users : ∀ a ∈ s.db.accounts, ∃ u ∈ s.db.users, Email.create a.email = .ok u.email

theorem Inv.of_no_accounts {s : Tables} (h : s.db.accounts = []) : Inv ports s := by
  constructor
  all_goals simp [h, Keyed]

/-- The account has a hash of the text. -/
def HasPassword (ports : Ports) (a : AuthenticationAccount) (password : String) : Prop :=
  ∃ salt passwordHash, PasswordHash.create (ports.bcrypt salt password) = .ok passwordHash ∧
    a.passwordHash = some passwordHash

/-- The account a registration makes. -/
theorem account_of_made {input : RegisterAccountBody} {salt accountId userId : String} {now : ℕ}
    {account : AuthenticationAccount}
    (h : (EmailPasswordProviderStrategy.register ports salt input.password >>= fun passwordHash =>
      Authorization.Register.account input.toRegisterInput accountId userId passwordHash now) = .ok account) :
    account.id = accountId ∧ account.email = input.email ∧ account.provider = input.provider ∧
      ∃ password, input.password = some password ∧ HasPassword ports account password := by
  obtain ⟨passwordHash, hregister, h⟩ := except_bind_eq_ok.mp h
  unfold EmailPasswordProviderStrategy.register at hregister
  split at hregister
  · simp at hregister
  · rename_i password hpassword
    rw [← Except.ok.inj hregister] at h
    obtain ⟨hash, hhash, h⟩ := except_bind_eq_ok.mp h
    obtain ⟨value, hvalue, hhash⟩ := except_map_eq_ok.mp hhash
    dsimp only at h
    unfold AuthenticationAccount.create at h
    split_ifs at h
    rw [← Except.ok.inj h, ← hhash]
    exact ⟨rfl, rfl, rfl, password, (Option.filter_eq_some_iff.mp hpassword).1, salt, value, hvalue, rfl⟩

/-! ## What the requests do -/

/-- What a registration adds: the user and the account of its body, with a free email and a free id. -/
structure Adds (ports : Ports) (s : Tables) (body : Json) (accountId : String) (input : RegisterAccountBody)
    (user : Authorization.User) (account : AuthenticationAccount) : Prop where
  parsed : registerAccountSchema ports (guarded ports body) = .ok input
  address : Email.create input.email = .ok user.email
  address_free : ∀ u ∈ s.db.users, u.email ≠ user.email
  id : account.id = accountId
  id_free : ∀ a ∈ s.db.accounts, a.id ≠ account.id
  email : account.email = input.email
  provider : account.provider = "email-password"
  password : ∃ password, input.password = some password ∧ HasPassword ports account password

/-- **A registration** adds an account with the password of its body, or leaves the tables. -/
theorem AccountController.register_cases (ports : Ports) (body : Json) (userId accountId salt : String)
    (now : ℕ) (s : Tables) :
    (∃ input user account invitations, Adds ports s body accountId input user account ∧
      AccountController.register ports body userId accountId salt now s =
        (.ok accountId, { s with db := { s.db with
          users := user :: s.db.users, accounts := account :: s.db.accounts, invitations } })) ∨
    ∃ e, AccountController.register ports body userId accountId salt now s = (.error e, s) := by
  unfold AccountController.register
  rcases hinput : registerAccountSchema ports (guarded ports body) with issues | input
  · exact Or.inr ⟨_, rfl⟩
  dsimp only
  rcases Authorization.EnabledRoles.Register.execute_cases s.db
      (EmailPasswordProviderStrategy.register ports salt input.password) input.toRegisterInput userId
      accountId now with ⟨i, user, account, invitations, hregisters, huser, haccount, hrun⟩ | ⟨-, e, hrun⟩
  · obtain ⟨hid, hemail, hprovider, hpassword⟩ := account_of_made haccount.made
    obtain ⟨-, haddress, -, -⟩ := newUser_eq_ok huser.made
    rw [hrun]
    refine Or.inl ⟨input, user, account, invitations, ?_, rfl⟩
    exact
      { parsed := hinput
        address := haddress
        address_free := fun u hu => (huser.free u hu).2
        id := hid
        id_free := fun a ha => (haccount.free a ha).1
        email := hemail
        provider := hprovider.trans hregisters.provider
        password := hpassword }
  · rw [hrun]
    exact Or.inr ⟨_, rfl⟩

/-- What a reset writes: one account, with the password of the body. -/
structure Writes (ports : Ports) (s s' : Tables) (body : Json) (account written : AuthenticationAccount) :
    Prop where
  mem : account ∈ s.db.accounts
  same : written.id = account.id ∧ written.email = account.email ∧ written.provider = account.provider
  users : s'.db.users = s.db.users
  accounts : s'.db.accounts = updateWhere (·.id == account.id) (fun _ => written) s.db.accounts
  password : ∃ token newPassword, resetPasswordSchema (guarded ports body) = .ok (token, newPassword) ∧
    HasPassword ports written newPassword

/-- **A reset** writes the password of its body into one account, or leaves the tables. -/
theorem PasswordResetController.resetPassword_cases (ports : Ports) (body : Json) (salt : String) (now : ℕ)
    (s : Tables) :
    (∃ account written s', Writes ports s s' body account written ∧
      PasswordResetController.resetPassword ports body salt now s = (.ok account.id, s')) ∨
    ∃ e, PasswordResetController.resetPassword ports body salt now s = (.error e, s) := by
  unfold PasswordResetController.resetPassword
  rcases hinput : resetPasswordSchema (guarded ports body) with issues | ⟨token, newPassword⟩
  · exact Or.inr ⟨_, rfl⟩
  dsimp only
  rcases hrun : ResetPassword.execute ports token newPassword salt now s.world with _ | ⟨account, w⟩
  · exact Or.inr ⟨_, rfl⟩
  unfold ResetPassword.execute at hrun
  obtain ⟨reset, -, hrun⟩ := Option.bind_eq_some_iff.mp hrun
  obtain ⟨account', hfound, hrun⟩ := Option.bind_eq_some_iff.mp hrun
  obtain ⟨w', hcommit, hrun⟩ := Option.bind_eq_some_iff.mp hrun
  obtain ⟨rfl, rfl⟩ := Prod.mk.inj (Option.some.inj hrun)
  unfold ResetPassword.commit at hcommit
  obtain ⟨used, -, hcommit⟩ := Option.bind_eq_some_iff.mp hcommit
  obtain ⟨w₁, hresets, hcommit⟩ := Option.bind_eq_some_iff.mp hcommit
  obtain ⟨passwordHash, hhash, hcommit⟩ := Option.bind_eq_some_iff.mp hcommit
  obtain ⟨w₂, haccount, hcommit⟩ := Option.bind_eq_some_iff.mp hcommit
  have hw₁ : w₁.accounts = s.db.accounts := by
    unfold PasswordResetRepository.update at hresets
    split_ifs at hresets
    rw [← Option.some.inj hresets]
    rfl
  have hw₂ : w₂.accounts = updateWhere (·.id == account'.id)
      (fun _ => account'.update (some passwordHash) now) s.db.accounts := by
    unfold AccountRepository.update at haccount
    split_ifs at haccount
    rw [← Option.some.inj haccount, ← hw₁]
    rfl
  have hcreate : PasswordHash.create (ports.bcrypt salt newPassword) = .ok passwordHash := by
    rcases hcreate : PasswordHash.create (ports.bcrypt salt newPassword) with e | passwordHash'
    · rw [hcreate] at hhash
      simp [Except.toOption] at hhash
    · rw [hcreate] at hhash
      rw [Option.some.inj hhash]
  refine Or.inl ⟨account', account'.update (some passwordHash) now, s.withWorld w', ?_, rfl⟩
  exact
    { mem := List.mem_of_find?_eq_some hfound
      same := ⟨rfl, rfl, rfl⟩
      users := rfl
      accounts := by
        rw [← hw₂, ← Option.some.inj hcommit]
        rfl
      password := ⟨token, newPassword, hinput, salt, passwordHash, hcreate, rfl⟩ }

theorem Inv.register {s : Tables} (hi : Inv ports s) (body : Json) (userId accountId salt : String)
    (now : ℕ) :
    Inv ports (AccountController.register ports body userId accountId salt now s).2 := by
  rcases AccountController.register_cases ports body userId accountId salt now s with
    ⟨input, user, account, invitations, h, hrun⟩ | ⟨e, hrun⟩
  · rw [hrun]
    have hnew : ∀ a ∈ s.db.accounts, a.email ≠ account.email := by
      intro a ha he
      obtain ⟨u, hu, hcreate⟩ := hi.users a ha
      rw [he, h.email, h.address] at hcreate
      exact h.address_free u hu (Except.ok.inj hcreate).symm
    constructor
    · exact List.forall_mem_cons.mpr ⟨h.provider, hi.provider⟩
    · refine List.forall_mem_cons.mpr ⟨?_, hi.address⟩
      rw [h.email]
      exact registerAccountSchema_email h.parsed
    · exact hi.ids.cons h.id_free
    · exact hi.emails.cons hnew
    · refine List.forall_mem_cons.mpr ⟨⟨user, List.mem_cons_self, by rw [h.email, h.address]⟩, fun a ha => ?_⟩
      obtain ⟨u, hu, hcreate⟩ := hi.users a ha
      exact ⟨u, List.mem_cons_of_mem _ hu, hcreate⟩
  · rw [hrun]
    exact hi

theorem Inv.resetPassword {s : Tables} (hi : Inv ports s) (body : Json) (salt : String) (now : ℕ) :
    Inv ports (PasswordResetController.resetPassword ports body salt now s).2 := by
  rcases PasswordResetController.resetPassword_cases ports body salt now s with
    ⟨account, written, s', h, hrun⟩ | ⟨e, hrun⟩
  · rw [hrun]
    obtain ⟨hid, hemail, hprovider⟩ := h.same
    have hrow : ∀ a ∈ s'.db.accounts,
        ∃ a₀ ∈ s.db.accounts, a.provider = a₀.provider ∧ a.email = a₀.email := by
      intro a ha
      rw [h.accounts] at ha
      rcases mem_updateWhere.mp ha with ⟨-, -, -, rfl⟩ | ⟨ha, -⟩
      · exact ⟨account, h.mem, hprovider, hemail⟩
      · exact ⟨a, ha, rfl, rfl⟩
    have hkey : ∀ a : AuthenticationAccount, (a.id == account.id) = true → a.id = account.id :=
      fun a ha => beq_iff_eq.mp ha
    have hids : s'.db.accounts.map (·.id) = s.db.accounts.map (·.id) := by
      rw [h.accounts]
      exact hi.ids.map_updateWhere h.mem hkey hid
    have hemails : s'.db.accounts.map (·.email) = s.db.accounts.map (·.email) := by
      rw [h.accounts]
      exact hi.ids.map_updateWhere h.mem hkey hemail
    constructor
    · intro a ha
      obtain ⟨a₀, h₀, hsame, -⟩ := hrow a ha
      rw [hsame]
      exact hi.provider a₀ h₀
    · intro a ha
      obtain ⟨a₀, h₀, -, hsame⟩ := hrow a ha
      rw [hsame]
      exact hi.address a₀ h₀
    · show (s'.db.accounts.map (·.id)).Nodup
      rw [hids]
      exact hi.ids
    · show (s'.db.accounts.map (·.email)).Nodup
      rw [hemails]
      exact hi.emails
    · intro a ha
      obtain ⟨a₀, h₀, -, hsame⟩ := hrow a ha
      rw [hsame, h.users]
      exact hi.users a₀ h₀
  · rw [hrun]
    exact hi

/-- **One request** keeps the invariant, whether it is accepted or not. -/
theorem Inv.handle {s : Tables} (hi : Inv ports s) (r : Request) : Inv ports (handle ports r s).2 := by
  rcases r with ⟨body, userId, accountId, salt, now⟩ | ⟨body, salt, now⟩
  · exact hi.register body userId accountId salt now
  · exact hi.resetPassword body salt now

/-- **A run of requests** keeps it. -/
theorem Inv.of_run {s s' : Tables} {rs : List Request} (hi : Inv ports s)
    (h : run (step ports) s rs = some s') : Inv ports s' := by
  refine run_inv (fun s r s' hi hs => ?_) hi h
  rw [← Option.some.inj hs]
  exact hi.handle r

/-- **The account of an accepted request** has a hash of what the guard has left of the password. -/
theorem hasPassword_of_handle {s s' : Tables} {r : Request} {id p : String}
    (h : handle ports r s = (.ok id, s')) (hp : r.password = some p) :
    hasLength 8 (sanitizeText ports.sanitizeHtml p) = true ∧
      ∃ a ∈ s'.db.accounts, a.id = id ∧ HasPassword ports a (sanitizeText ports.sanitizeHtml p) := by
  rcases r with ⟨body, userId, accountId, salt, now⟩ | ⟨body, salt, now⟩
  · rcases AccountController.register_cases ports body userId accountId salt now s with
      ⟨input, user, account, invitations, hadds, hrun⟩ | ⟨e, hrun⟩
    · obtain ⟨hid, rfl⟩ := Prod.mk.inj (h.symm.trans hrun)
      obtain ⟨password, hpassword, hhas⟩ := hadds.password
      obtain ⟨-, hgiven, hlength⟩ := registerAccountSchema_ok hadds.parsed hp
      obtain rfl := Option.some.inj (hpassword.symm.trans hgiven)
      exact ⟨hlength, account, List.mem_cons_self, hadds.id.trans (Except.ok.inj hid).symm, hhas⟩
    · exact absurd (h.symm.trans hrun) (by simp)
  · rcases PasswordResetController.resetPassword_cases ports body salt now s with
      ⟨account, written, s'', hwrites, hrun⟩ | ⟨e, hrun⟩
    · obtain ⟨hid, rfl⟩ := Prod.mk.inj (h.symm.trans hrun)
      obtain ⟨token, newPassword, hinput, hhas⟩ := hwrites.password
      obtain ⟨rfl, hlength⟩ := resetPasswordSchema_ok hinput hp
      refine ⟨hlength, written, ?_, hwrites.same.1.trans (Except.ok.inj hid).symm, hhas⟩
      rw [hwrites.accounts]
      exact mem_updateWhere.mpr (Or.inl ⟨account, hwrites.mem, beq_self_eq_true _, rfl⟩)
    · exact absurd (h.symm.trans hrun) (by simp)

/-! ## The password that is chosen and the one that is typed -/

/-- `bcrypt` writes no white space around a hash, and a hash is accepted with the text it was made from
and no other. -/
structure HashesExactly (ports : Ports) : Prop where
  trim : ∀ salt password, trim (ports.bcrypt salt password) = ports.bcrypt salt password
  compare : ∀ salt password q, ports.compare q (ports.bcrypt salt password) = decide (q = password)

theorem HashesExactly.compare_iff (hb : HashesExactly ports) {a : AuthenticationAccount} {password q : String}
    (h : HasPassword ports a password) :
    ∃ passwordHash, a.passwordHash = some passwordHash ∧
      (ports.compare q passwordHash = true ↔ q = password) := by
  obtain ⟨salt, passwordHash, hcreate, hhash⟩ := h
  refine ⟨passwordHash, hhash, ?_⟩
  unfold PasswordHash.create at hcreate
  dsimp only at hcreate
  split_ifs at hcreate
  rw [← Except.ok.inj hcreate, hb.trim, hb.compare, decide_eq_true_iff]

/-- **A login** goes by what the guard has left of the two passwords. -/
theorem accepts_iff_sanitizeText (hb : HashesExactly ports) {s : Tables} (hi : Inv ports s)
    {a : AuthenticationAccount} (ha : a ∈ s.db.accounts) {e p q : String} {body : Json}
    (hp : HasPassword ports a (sanitizeText ports.sanitizeHtml p))
    (hlength : hasLength 8 (sanitizeText ports.sanitizeHtml p) = true)
    (he : sanitizeText ports.sanitizeHtml e = a.email) (hbody : SendsLogin ports body e q) :
    Accepts ports body s ↔ sanitizeText ports.sanitizeHtml q = sanitizeText ports.sanitizeHtml p := by
  obtain ⟨passwordHash, hhash, hcompare⟩ := hb.compare_iff (q := sanitizeText ports.sanitizeHtml q) hp
  have hfound : AccountRepository.findByEmail s.world (sanitizeText ports.sanitizeHtml e) = some a := by
    rw [he]
    exact hi.emails.find?_key ha
  rw [accepts_iff hbody, read_iff hfound (hi.provider a ha) hhash, hcompare]
  constructor
  · rintro ⟨-, -, h⟩
    exact h
  · intro h
    refine ⟨?_, ?_, h⟩
    · rw [he]
      exact hi.address a ha
    · rw [h]
      unfold hasLength at hlength ⊢
      rw [decide_eq_true_iff] at hlength ⊢
      omega

/-- `sanitizeHtml` leaves a blank at the end of a text, or drops it with what it drops before. -/
def KeepsBlanks (sanitizeHtml : String → String) : Prop :=
  ∀ html, ∃ blank : List Char, (∀ c ∈ blank, isSpace c = true) ∧
    sanitizeHtml (html ++ " ") = sanitizeHtml html ++ String.ofList blank

/-- **Passwords.** After an accepted request that sets the password `p`, the law that a login with `q`
succeeds exactly when `q` is `p` holds of a text `q` exactly when it is `p` or is told from it behind the
guard; it holds of all texts for no `p`. -/
theorem login_iff (hb : HashesExactly ports) (hblank : KeepsBlanks ports.sanitizeHtml) {s₀ s s' : Tables}
    (h₀ : s₀.db.accounts = []) {rs : List Request} (hrun : run (step ports) s₀ rs = some s) {r : Request}
    {id p : String} (hset : handle ports r s = (.ok id, s')) (hp : r.password = some p) {e : String}
    (he : ∃ a ∈ s'.db.accounts, a.id = id ∧ sanitizeText ports.sanitizeHtml e = a.email) :
    (∀ q body, SendsLogin ports body e q → ((Accepts ports body s' ↔ q = p) ↔
      q = p ∨ sanitizeText ports.sanitizeHtml q ≠ sanitizeText ports.sanitizeHtml p)) ∧
    ∃ q, q ≠ p ∧ ∀ body, SendsLogin ports body e q → Accepts ports body s' := by
  have hi : Inv ports s' := by
    have hstep := ((Inv.of_no_accounts h₀).of_run hrun).handle r
    rw [hset] at hstep
    exact hstep
  obtain ⟨hlength, a, ha, hid, hpassword⟩ := hasPassword_of_handle hset hp
  obtain ⟨a', ha', hid', he⟩ := he
  obtain rfl : a = a' := hi.ids.eq_of_key_eq ha ha' (hid.trans hid'.symm)
  have hlogin : ∀ q body, SendsLogin ports body e q → (Accepts ports body s' ↔
      sanitizeText ports.sanitizeHtml q = sanitizeText ports.sanitizeHtml p) :=
    fun _ _ hbody => accepts_iff_sanitizeText hb hi ha hpassword hlength he hbody
  refine ⟨fun q body hbody => ?_, p ++ " ", ?_, fun body hbody => ?_⟩
  · rw [hlogin q body hbody]
    constructor
    · intro h
      by_cases hq : q = p
      · exact Or.inl hq
      · exact Or.inr fun hsame => hq (h.mp hsame)
    · rintro (rfl | hne)
      · exact iff_of_true rfl rfl
      · refine iff_of_false hne ?_
        rintro rfl
        exact hne rfl
  · intro h
    have hlen := congrArg String.length h
    rw [String.length_append] at hlen
    have hone : " ".length = 1 := rfl
    omega
  · rw [hlogin _ body hbody]
    obtain ⟨blank, hspaces, happend⟩ := hblank p
    exact sanitizeText_append_blank hspaces happend

end

/-! ### A password with a blank at its end -/

section Example

/-- A salt. -/
def chosenSalt : String := "$2b$10$Vq3xZ7oWkTn1uRc8yLbE5e"

/-- A password. -/
def chosenPassword : String := "correct horse battery"

/-- Its hash with the salt. -/
def chosenHash : String := "$2b$10$Vq3xZ7oWkTn1uRc8yLbE5egDBCtbM9hHYPCXc4wQ821QHn1qXYcMm"

/-- A text that names the password. -/
def written (password : String) : String := "$2b$" ++ password ++ "$"

/-- The hash of the one password, and a text that names it for any other. -/
def exampleBcrypt (salt password : String) : String :=
  if salt = chosenSalt ∧ password = chosenPassword then chosenHash else written password

/-- Whether a hash is that of a password. -/
def exampleCompare (password passwordHash : String) : Bool :=
  if passwordHash = chosenHash then password == chosenPassword else passwordHash == written password

/-- None of the texts has markup in it. -/
def passwordPorts : Ports :=
  { examplePorts with
    compare := exampleCompare
    sanitizeHtml := fun html => html
    bcrypt := exampleBcrypt
    isEmailAddress := isEmail
    isIpv4 := fun address => address == "203.0.113.7" }

theorem toList_written (password : String) : (written password).toList =
    '$' :: ('2' :: 'b' :: '$' :: password.toList) ++ ['$'] := by
  unfold written
  rw [String.toList_append, String.toList_append]
  rfl

theorem written_ne (password : String) : written password ≠ chosenHash := by
  intro h
  have hlast := congrArg (fun s => s.toList.getLast?) h
  rw [toList_written, List.getLast?_concat] at hlast
  exact absurd hlast (by decide)

theorem written_inj {p q : String} (h : written p = written q) : p = q := by
  have hlist := congrArg String.toList h
  rw [toList_written, toList_written] at hlist
  have hfront := List.append_cancel_right hlist
  simp only [List.cons.injEq, true_and] at hfront
  exact String.ext hfront

theorem hashesExactly_example : HashesExactly passwordPorts := by
  constructor
  · intro salt password
    show trim (exampleBcrypt salt password) = exampleBcrypt salt password
    unfold exampleBcrypt
    split_ifs
    · decide
    · unfold trim
      rw [toList_written, List.cons_append, List.dropWhile_cons_of_neg (by decide), ← List.cons_append,
        List.reverse_append, List.reverse_singleton, List.singleton_append,
        List.dropWhile_cons_of_neg (by decide), List.reverse_cons, List.reverse_reverse, ← toList_written,
        String.ofList_toList]
  · intro salt password q
    show exampleCompare q (exampleBcrypt salt password) = decide (q = password)
    unfold exampleCompare exampleBcrypt
    by_cases hchosen : salt = chosenSalt ∧ password = chosenPassword
    · rw [if_pos hchosen, if_pos rfl, hchosen.2, Bool.beq_eq_decide_eq]
    · rw [if_neg hchosen, if_neg (written_ne password), Bool.beq_eq_decide_eq, decide_eq_decide]
      constructor
      · intro h
        exact (written_inj h).symm
      · rintro rfl
        rfl

theorem keepsBlanks_example : KeepsBlanks passwordPorts.sanitizeHtml :=
  fun _ => ⟨[' '], by simp [isSpace], rfl⟩

/-- An invitation, and no account. -/
def exampleTables : Tables where
  db := exampleState.world.db
  sessions := .empty
  resets := []

/-- The invitation is used. -/
def registerAnn : Request :=
  .register (.object [("invitationToken", .string "7d9c1b52-6a1e-4f0d-9b7e-2f1f5a3c8e10"),
    ("email", .string "ann@acme.io"), ("password", .string chosenPassword), ("firstName", .string "Ann"),
    ("lastName", .string "Reed"), ("provider", .string "email-password")]) "u1" "a1" chosenSalt 1

/-- A login with a password. -/
def loginAnn (password : String) : Json :=
  .object [("email", .string "ann@acme.io"), ("password", .string password),
    ("ipAddress", .string "203.0.113.7")]

/-- After Ann has registered. -/
def registeredTables : Tables := (handle passwordPorts registerAnn exampleTables).2

theorem registerAnn_accepted :
    (handle passwordPorts registerAnn exampleTables).1.toOption = some "a1" := by
  decide +kernel

theorem login_iff_ann :
    (∀ q body, SendsLogin passwordPorts body "ann@acme.io" q →
      ((Accepts passwordPorts body registeredTables ↔ q = chosenPassword) ↔
        q = chosenPassword ∨
          sanitizeText (fun html => html) q ≠ sanitizeText (fun html => html) chosenPassword)) ∧
    ∃ q, q ≠ chosenPassword ∧ ∀ body, SendsLogin passwordPorts body "ann@acme.io" q →
      Accepts passwordPorts body registeredTables := by
  have hset := registerAnn_accepted
  have hok : (handle passwordPorts registerAnn exampleTables).1 = .ok "a1" := by
    rcases h : (handle passwordPorts registerAnn exampleTables).1 with e | id
    · rw [h] at hset
      exact absurd hset (by simp [Except.toOption])
    · rw [h] at hset
      rw [Option.some.inj hset]
  have haccount : ∃ a ∈ registeredTables.db.accounts,
      a.id = "a1" ∧ sanitizeText (fun html => html) "ann@acme.io" = a.email := by decide +kernel
  have hrun : run (step passwordPorts) exampleTables [] = some exampleTables := rfl
  exact login_iff hashesExactly_example keepsBlanks_example rfl hrun (Prod.ext hok rfl) rfl haccount

/-- With a blank at its end, the password of Ann is another text, and opens her account. -/
theorem blank_is_lost :
    HashesExactly passwordPorts ∧
    (handle passwordPorts registerAnn exampleTables).1.toOption = some "a1" ∧
    registerAnn.password = some "correct horse battery" ∧
    ¬ (Accepts passwordPorts (loginAnn "correct horse battery ") registeredTables ↔
      "correct horse battery " = "correct horse battery") := by
  refine ⟨hashesExactly_example, registerAnn_accepted, rfl, fun h => ?_⟩
  have haccepts : (AuthController.login passwordPorts (loginAnn "correct horse battery ")
      registeredTables).toOption.isSome = true := by decide +kernel
  have haccount : Accepts passwordPorts (loginAnn "correct horse battery ") registeredTables := by
    unfold Accepts
    rcases hlogin : AuthController.login passwordPorts (loginAnn "correct horse battery ") registeredTables
      with e | account
    · rw [hlogin] at haccepts
      exact absurd haccepts (by simp [Except.toOption])
    · exact ⟨account, rfl⟩
  exact absurd (h.mp haccount) (by decide)

end Example

end Neltrik.Authentication.Passwords
