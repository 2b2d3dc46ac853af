import Neltrik.Notifications.UseCases

/-! # Placeholders in what is mailed

The job renders the subject and the body of a template with the payload of the notification. It checks
the variables of the body only, and by `in`, where the renderer wants a string, a number or a boolean.

`execute_sent` says which emails a run hands to the sender. `no_placeholder_mailed_iff`: none of them
has a placeholder left exactly when every key of the subject and of the body has a primitive value in
the payload whenever the job gets as far as the sender. -/

namespace Neltrik.Notifications.Placeholders

open Neltrik.Lib Neltrik.Lib.Effect Neltrik.Lib.Scan Neltrik.Prisma Neltrik.Shared

variable {ports : Ports} {store : Option TenantContext} {s : Store ports}

/-! ## Rendering -/

/-- What a placeholder is replaced by. -/
def value (payload : JsonObject) (key : String) : Option (List Char) :=
  (payload.text key).map String.toList

/-- The text is the template with the text of a value in the place of every placeholder. -/
def Rendered (template : String) (payload : JsonObject) (text : String) : Prop :=
  Filled (value payload) (pieces placeholder template.toList) text.toList

/-- Every key of the template has a primitive value. -/
def Substitutable (template : String) (payload : JsonObject) : Prop :=
  ∀ key ∈ extractVariables template, (payload.text key).isSome = true

/-- **The renderer leaves no placeholder** exactly when every key has a value. -/
theorem rendered_render_iff (template : String) (payload : JsonObject) :
    Rendered template payload (render template payload) ↔ Substitutable template payload := by
  unfold Rendered render Substitutable extractVariables
  rw [String.toList_ofList]
  refine (filled_replace_iff placeholder (value payload) template.toList).trans ?_
  simp only [List.mem_eraseDups, value, Option.isSome_map]

/-- A text without placeholders is left as it is. -/
theorem render_of_extractVariables_eq_nil {template : String} (h : extractVariables template = [])
    (payload : JsonObject) : render template payload = template := by
  have hnone : matchAll placeholder template.toList = [] := by
    refine List.eq_nil_iff_forall_not_mem.mpr fun key hkey => ?_
    have hmem : key ∈ extractVariables template := List.mem_eraseDups.mpr hkey
    rw [h] at hmem
    exact List.not_mem_nil hmem
  unfold render
  rw [replace_of_matchAll_eq_nil hnone, String.ofList_toList]

/-- No placeholder of the template is left in the email. -/
structure Resolved (t : NotificationTemplateProps) (payload : JsonObject) (email : Email) : Prop where
  subject : Rendered (t.subject.getD "") payload email.subject
  body : Rendered t.body payload email.body
  html : Rendered t.body payload email.html

/-- Every key of the subject and of the body has a primitive value. -/
structure Complete (t : NotificationTemplateProps) (payload : JsonObject) : Prop where
  subject : Substitutable (t.subject.getD "") payload
  body : Substitutable t.body payload

theorem compose_eq_ok {t : NotificationTemplate ports.sanitizeHtml} {n : Notification} {email : Email}
    (h : SendNotificationJobs.compose t n = .ok email) :
    email = ⟨n.recipientEmail, render (t.subject.getD "") n.payload, render t.body n.payload,
      render t.body n.payload⟩ := by
  unfold SendNotificationJobs.compose at h
  split at h
  · exact nomatch h
  · rename_i subject hsubject
    obtain ⟨hs, -⟩ := Option.filter_eq_some_iff.mp hsubject
    dsimp only at h
    split_ifs at h
    cases h
    rw [hs]
    rfl

/-- **An email has no placeholder left** exactly when the payload is complete. -/
theorem resolved_iff {t : NotificationTemplate ports.sanitizeHtml} {n : Notification} {email : Email}
    (h : SendNotificationJobs.compose t n = .ok email) :
    Resolved t.toNotificationTemplateProps n.payload email ↔
      Complete t.toNotificationTemplateProps n.payload := by
  rw [compose_eq_ok h]
  constructor
  · rintro ⟨hsubject, hbody, -⟩
    exact ⟨(rendered_render_iff _ _).mp hsubject, (rendered_render_iff _ _).mp hbody⟩
  · rintro ⟨hsubject, hbody⟩
    have hb := (rendered_render_iff _ _).mpr hbody
    exact ⟨(rendered_render_iff _ _).mpr hsubject, hb, hb⟩

/-! ## What a run hands over -/

/-- The email of a notification, when its template is there and can be composed. -/
def mailOf (store : Option TenantContext) (s : Store ports) (n : Notification) : Option Email :=
  (findActiveByCombination store s n.code .email n.locale (some n.tenantId)).bind fun t =>
    (SendNotificationJobs.compose t n).toOption

theorem mailOf_registerAttempt {s' : Store ports} (h : s'.templates = s.templates) (n : Notification)
    (now : ℕ) : mailOf store s' (n.registerAttempt now) = mailOf store s n := by
  unfold mailOf findActiveByCombination
  rw [h]
  rfl

/-- The emails `new` have been handed over, and the templates stay. -/
structure HandsOver (s : Store ports) (new : List Email) (s' : Store ports) : Prop where
  templates : s'.templates = s.templates
  sent : s'.sent = s.sent ++ new

theorem HandsOver.refl : HandsOver s [] s := ⟨rfl, (List.append_nil _).symm⟩

theorem HandsOver.trans {s₁ s₂ : Store ports} {new new' : List Email} (h : HandsOver s new s₁)
    (h' : HandsOver s₁ new' s₂) : HandsOver s (new ++ new') s₂ :=
  ⟨h'.templates.trans h.templates, by rw [h'.sent, h.sent, List.append_assoc]⟩

/-- What has been handed over before an operation that sends nothing. -/
abbrev Sends {α : Type} (s : Store ports) (new : List Email) (m : UseCase ports α) : Prop :=
  Triple (HandsOver s new) m (fun _ => HandsOver s new) fun _ => HandsOver s new

theorem sends_lift {α : Type} (new : List Email) (x : Except NotificationError α) :
    Sends s new (Effect.lift x) :=
  Triple.lift (fun _ _ _ hs => hs) fun _ _ _ hs => hs

theorem sends_update (new : List Email) (n : Notification) :
    Sends s new (NotificationRepository.update store n) := by
  refine Triple.change (fun s₁ s₂ hs h => ?_) fun _ _ hs _ => hs
  dsimp only at h
  split_ifs at h
  cases h
  exact ⟨hs.templates, hs.sent⟩

/-- The handler of the failure throws, whatever it does. -/
theorem sends_fail (store : Option TenantContext) (new : List Email) (n : Notification)
    (e : NotificationError) (now : ℕ) :
    Triple (HandsOver s new) (SendNotificationJobs.fail store n e now) (fun _ _ => False)
      fun _ => HandsOver s new := by
  unfold SendNotificationJobs.fail
  refine Triple.bind (sends_lift new _) fun n' => ?_
  refine Triple.bind (sends_update new n') fun _ => ?_
  exact Triple.throw fun _ hs => hs

theorem fail_cases {new : List Email} {s₁ : Store ports} (h : HandsOver s new s₁)
    (store : Option TenantContext) (n : Notification) (e : NotificationError) (now : ℕ) :
    ∃ e' s₂, SendNotificationJobs.fail store n e now s₁ = (.error e', s₂) ∧ HandsOver s new s₂ := by
  obtain ⟨hok, herr⟩ := sends_fail store new n e now s₁ h
  rcases hrun : SendNotificationJobs.fail store n e now s₁ with ⟨e' | u, s₂⟩
  · exact ⟨e', s₂, rfl, herr e' s₂ hrun⟩
  · exact (hok u s₂ hrun).elim

/-- The email is handed over, or there is none and the attempt fails. -/
theorem deliver_eq (store : Option TenantContext) (s : Store ports) (n : Notification) :
    (∃ email, mailOf store s n = some email ∧ SendNotificationJobs.deliver store n s =
      (ports.send email, { s with sent := s.sent ++ [email] })) ∨
    (mailOf store s n = none ∧ ∃ e, SendNotificationJobs.deliver store n s = (.error e, s)) := by
  have hdeliver : SendNotificationJobs.deliver store n s =
      (orElse (findActiveByCombination store s n.code .email n.locale (some n.tenantId))
        .templateNotFound >>= fun t => Effect.lift (SendNotificationJobs.compose t n) >>=
          SendNotificationJobs.send) s := rfl
  unfold mailOf
  rw [hdeliver]
  cases findActiveByCombination store s n.code .email n.locale (some n.tenantId) with
  | none => exact Or.inr ⟨rfl, .templateNotFound, rfl⟩
  | some t =>
    have hcompose : (orElse (some t) .templateNotFound >>= fun t =>
        Effect.lift (SendNotificationJobs.compose t n) >>= SendNotificationJobs.send) s =
      (Effect.lift (SendNotificationJobs.compose t n) >>= SendNotificationJobs.send) s := rfl
    rw [hcompose, Option.bind_some]
    cases SendNotificationJobs.compose t n with
    | error e => exact Or.inr ⟨rfl, e, rfl⟩
    | ok email => exact Or.inl ⟨email, rfl, rfl⟩

/-- **One email**: it is handed over, or there is none and the job fails. -/
theorem sendEmail_spec (store : Option TenantContext) (s : Store ports) (n : Notification)
    (now : ℕ) :
    HandsOver s (mailOf store s n).toList (SendNotificationJobs.sendEmail store n now s).2 ∧
      (mailOf store s n = none → ∃ e, (SendNotificationJobs.sendEmail store n now s).1 = .error e) := by
  unfold SendNotificationJobs.sendEmail
  rcases deliver_eq store s n with ⟨email, hmail, hdeliver⟩ | ⟨hmail, e, hdeliver⟩
  · have hsent : HandsOver s [email] { s with sent := s.sent ++ [email] } := ⟨rfl, rfl⟩
    rw [hdeliver, hmail]
    refine ⟨?_, nofun⟩
    cases ports.send email with
    | ok u => exact hsent
    | error e =>
      obtain ⟨e', s₂, hfail, hs₂⟩ := fail_cases hsent store n e now
      dsimp only
      rw [hfail]
      exact hs₂
  · obtain ⟨e', s₂, hfail, hs₂⟩ := fail_cases HandsOver.refl store n e now
    rw [hdeliver, hmail]
    dsimp only
    rw [hfail]
    exact ⟨hs₂, fun _ => ⟨e', rfl⟩⟩

/-- **The loop over the channels** hands over the email of the notification when there is a channel for
it, and nothing else. -/
theorem sendAll_spec (store : Option TenantContext) (s : Store ports) (now : ℕ) (n : Notification)
    (channels : List NotificationChannel) :
    ∃ new, HandsOver s new (SendNotificationJobs.sendAll store now n channels s).2 ∧
      ∀ email, email ∈ new ↔ .email ∈ channels ∧ mailOf store s n = some email := by
  induction channels generalizing n s with
  | nil => exact ⟨[], HandsOver.refl, by simp⟩
  | cons channel channels ih =>
    rw [SendNotificationJobs.sendAll]
    by_cases hc : channel = .email
    · have hone := sendEmail_spec store s (n.registerAttempt now) now
      rw [mailOf_registerAttempt rfl] at hone
      rw [if_pos hc, hc]
      rcases hrun : SendNotificationJobs.sendEmail store (n.registerAttempt now) now s with ⟨e | u, s₁⟩
      · rw [hrun] at hone
        rw [bind_of_error hrun]
        exact ⟨_, hone.1, by simp⟩
      · rw [hrun] at hone
        rw [bind_of_ok hrun]
        obtain ⟨new, hnew, hmem⟩ := ih s₁ (n.registerAttempt now)
        rw [mailOf_registerAttempt hone.1.templates] at hmem
        refine ⟨_, hone.1.trans hnew, fun email => ?_⟩
        rw [List.mem_append, hmem, Option.mem_toList]
        have hhead : NotificationChannel.email ∈ NotificationChannel.email :: channels :=
          List.mem_cons_self
        constructor
        · rintro (h | ⟨-, h⟩)
          · exact ⟨hhead, h⟩
          · exact ⟨hhead, h⟩
        · exact fun h => Or.inl h.2
    · obtain ⟨new, hnew, hmem⟩ := ih s (n.registerAttempt now)
      rw [mailOf_registerAttempt rfl] at hmem
      have hne : NotificationChannel.email ≠ channel := fun h => hc h.symm
      rw [if_neg hc]
      refine ⟨new, hnew, fun email => (hmem email).trans ?_⟩
      rw [List.mem_cons, or_iff_right hne]

theorem sends_finish (new : List Email) (n : Notification) (now : ℕ) :
    Sends s new (Effect.lift (n.markAsSent now) >>= fun n =>
      NotificationRepository.update store n >>= fun _ => pure n.id) := by
  refine Triple.bind (sends_lift new _) fun n' => ?_
  refine Triple.bind (sends_update new n') fun _ => ?_
  exact Triple.pure fun _ hs => hs

/-- **What a run hands over**: the email of the notification, if that is not sent yet, has a channel for
it and can be composed. -/
theorem execute_spec (store : Option TenantContext) (s : Store ports) (id : String) (now : ℕ) :
    ∃ new, HandsOver s new (SendNotificationJobs.execute store id now s).2 ∧
      ∀ email, email ∈ new ↔ ∃ n, NotificationRepository.findById store s id = some n ∧
        n.isSent = false ∧ .email ∈ n.channels ∧ mailOf store s n = some email := by
  have hexecute : SendNotificationJobs.execute store id now s =
      (orElse (NotificationRepository.findById store s id) .notFound >>= fun n =>
        if n.isSent then pure n.id
        else SendNotificationJobs.sendAll store now n n.channels >>= fun n =>
          Effect.lift (n.markAsSent now) >>= fun n =>
            NotificationRepository.update store n >>= fun _ => pure n.id) s := rfl
  rw [hexecute]
  cases NotificationRepository.findById store s id with
  | none => exact ⟨[], HandsOver.refl, by simp⟩
  | some n =>
    rw [bind_of_ok (show orElse (some n) NotificationError.notFound s = (.ok n, s) from rfl)]
    by_cases hs : n.isSent = true
    · rw [if_pos hs]
      exact ⟨[], HandsOver.refl, by simp [hs]⟩
    · obtain ⟨new, hnew, hmem⟩ := sendAll_spec store s now n n.channels
      have hsome : ∀ email, (∃ n', some n = some n' ∧ n'.isSent = false ∧ .email ∈ n'.channels ∧
          mailOf store s n' = some email) ↔ .email ∈ n.channels ∧ mailOf store s n = some email := by
        intro email
        simp [(Bool.not_eq_true _).mp hs]
      rw [if_neg hs]
      refine ⟨new, ?_, fun email => (hmem email).trans (hsome email).symm⟩
      rcases hrun : SendNotificationJobs.sendAll store now n n.channels s with ⟨e | n', s₁⟩
      · rw [bind_of_error hrun]
        rw [hrun] at hnew
        exact hnew
      · rw [bind_of_ok hrun]
        rw [hrun] at hnew
        exact Triple.snd (sends_finish new n' now) hnew

/-- The emails a run hands to the sender. -/
def handed (store : Option TenantContext) (s : Store ports) (id : String) (now : ℕ) : List Email :=
  (SendNotificationJobs.execute store id now s).2.sent.drop s.sent.length

theorem mem_handed_iff {id : String} {now : ℕ} {email : Email} : email ∈ handed store s id now ↔
    ∃ n, NotificationRepository.findById store s id = some n ∧ n.isSent = false ∧
      .email ∈ n.channels ∧ mailOf store s n = some email := by
  obtain ⟨new, hnew, hmem⟩ := execute_spec store s id now
  rw [handed, hnew.sent, List.drop_left, hmem]

/-! ## The template -/

/-- **The template that is found** is of the channel that is asked for: the scope has no condition on
it. -/
theorem channel_of_findActive {code : NotificationCode} {channel : NotificationChannel}
    {locale : String} {tenantId : Option String} {t : NotificationTemplate ports.sanitizeHtml}
    (h : findActiveByCombination store s code channel locale tenantId = some t) :
    t.channel = channel := by
  have hfind : ∀ w : Where Bool, .field "channel" (equals channel.value) ∈ w →
      findFirst store .notificationTemplate
        (fun t => NotificationTemplateProps.row t.toNotificationTemplateProps) s.templates w = some t →
      t.channel = channel := by
    intro w hw ht
    have hrow : Where.holds t.row
        ((allOperations store .notificationTemplate .findFirst (some w)).getD []) = true := by
      have hsome := List.find?_some ht
      exact hsome
    have hkey : "channel" ∉ ["tenantId", "OR", "ownerId"] := by decide
    have hholds := holds_of_allOperations rfl hrow hw (key_notMem_requestConditions hkey)
    rw [Condition.holds] at hholds
    exact NotificationChannel.value_inj.mp (beq_iff_eq.mp hholds)
  unfold findActiveByCombination at h
  dsimp only at h
  rw [Option.orElse_eq_or] at h
  rcases Option.or_eq_some_iff.mp h with ht | ⟨-, ht⟩
  · obtain ⟨t', -, ht⟩ := Option.bind_eq_some_iff.mp ht
    exact hfind _ (by simp) ht
  · exact hfind _ (by simp) ht

/-- **An email is composed** exactly when no variable of the body is missing. -/
theorem compose_isOk_iff {t : NotificationTemplate ports.sanitizeHtml} {n : Notification}
    (h : t.channel = .email) : (∃ email, SendNotificationJobs.compose t n = .ok email) ↔
      ∀ v ∈ extractVariables t.body, n.payload.has v = true := by
  obtain ⟨subject, hs, hne⟩ := (Option.any_eq_true _ _).mp (t.subject_present h)
  have hsubject : t.subject.filter (· != "") = some subject :=
    Option.filter_eq_some_iff.mpr ⟨hs, hne⟩
  have hmissing : (extractVariables t.body).filter (fun v => !n.payload.has v) = [] ↔
      ∀ v ∈ extractVariables t.body, n.payload.has v = true := by
    simp only [List.filter_eq_nil_iff, Bool.not_eq_true', Bool.not_eq_false]
  unfold SendNotificationJobs.compose
  rw [hsubject, ← hmissing]
  dsimp only
  by_cases hm : (extractVariables t.body).filter (fun v => !n.payload.has v) = []
  · simp [hm]
  · simp [hm]

/-- The job gets as far as the sender: the notification is there and not sent, it has a channel for
emails, its template is there, and no variable of the body is missing. -/
structure Mails (store : Option TenantContext) (s : Store ports) (id : String) (n : Notification)
    (t : NotificationTemplate ports.sanitizeHtml) : Prop where
  found : NotificationRepository.findById store s id = some n
  unsent : n.isSent = false
  channel : .email ∈ n.channels
  template : findActiveByCombination store s n.code .email n.locale (some n.tenantId) = some t
  present : ∀ v ∈ extractVariables t.body, n.payload.has v = true

/-- What a run hands over is what is composed of the notification and its template. -/
theorem mem_handed_iff_mails {id : String} {now : ℕ} {email : Email} :
    email ∈ handed store s id now ↔
      ∃ n t, Mails store s id n t ∧ SendNotificationJobs.compose t n = .ok email := by
  rw [mem_handed_iff]
  constructor
  · rintro ⟨n, hn, hs, hc, hmail⟩
    obtain ⟨t, ht, hcompose⟩ := Option.bind_eq_some_iff.mp hmail
    have hok := toOption_eq_some.mp hcompose
    have hpresent := (compose_isOk_iff (channel_of_findActive ht)).mp ⟨email, hok⟩
    exact ⟨n, t, ⟨hn, hs, hc, ht, hpresent⟩, hok⟩
  · rintro ⟨n, t, ⟨hn, hs, hc, ht, -⟩, hok⟩
    exact ⟨n, hn, hs, hc, Option.bind_eq_some_iff.mpr ⟨t, ht, toOption_eq_some.mpr hok⟩⟩

/-- No email a run hands over has a placeholder of its template left. -/
def NoPlaceholderMailed (store : Option TenantContext) (s : Store ports) (id : String) (now : ℕ) : Prop :=
  ∀ email ∈ handed store s id now, ∃ n t, Mails store s id n t ∧
    Resolved t.toNotificationTemplateProps n.payload email

/-- **No placeholder is mailed exactly when**, if the job gets as far as the sender, every key of the
subject and of the body has a string, a number or a boolean in the payload. -/
theorem no_placeholder_mailed_iff (store : Option TenantContext) (s : Store ports) (id : String)
    (now : ℕ) : NoPlaceholderMailed store s id now ↔
      ∀ n t, Mails store s id n t → Complete t.toNotificationTemplateProps n.payload := by
  constructor
  · intro h n t hm
    obtain ⟨email, hok⟩ := (compose_isOk_iff (channel_of_findActive hm.template)).mpr hm.present
    obtain ⟨n', t', hm', hres⟩ := h email (mem_handed_iff_mails.mpr ⟨n, t, hm, hok⟩)
    obtain rfl := Option.some.inj (hm.found.symm.trans hm'.found)
    obtain rfl := Option.some.inj (hm.template.symm.trans hm'.template)
    exact (resolved_iff hok).mp hres
  · intro h email he
    obtain ⟨n, t, hm, hok⟩ := mem_handed_iff_mails.mp he
    exact ⟨n, t, hm, (resolved_iff hok).mpr (h n t hm)⟩

/-! ### Placeholders that are mailed -/

/-- Every key of the template that is found has a primitive value in the notification that is found. -/
def completeIfFound (store : Option TenantContext) (s : Store ports) (id : String) : Bool :=
  (NotificationRepository.findById store s id).all fun n =>
    (findActiveByCombination store s n.code .email n.locale (some n.tenantId)).all fun t =>
      (extractVariables (t.subject.getD "")).all (fun key => (n.payload.text key).isSome) &&
        (extractVariables t.body).all fun key => (n.payload.text key).isSome

theorem completeIfFound_of_noPlaceholderMailed {id : String} {now : ℕ}
    (h : NoPlaceholderMailed store s id now) (hne : handed store s id now ≠ []) :
    completeIfFound store s id = true := by
  obtain ⟨email, he⟩ := List.exists_mem_of_ne_nil _ hne
  obtain ⟨n, t, hm, hok⟩ := mem_handed_iff_mails.mp he
  obtain ⟨n', t', hm', hres⟩ := h email he
  obtain rfl := Option.some.inj (hm.found.symm.trans hm'.found)
  obtain rfl := Option.some.inj (hm.template.symm.trans hm'.template)
  obtain ⟨hsubject, hbody⟩ := (resolved_iff hok).mp hres
  unfold completeIfFound
  rw [hm.found, Option.all_some, hm.template, Option.all_some, Bool.and_eq_true, List.all_eq_true,
    List.all_eq_true]
  exact ⟨hsubject, hbody⟩

def keepsHtml : Ports := ⟨fun html => html, fun _ => .ok (), fun _ => .ok ()⟩

/-- A welcome to `v` that is still to be sent. -/
def stored (subject body : String) (payload : JsonObject) : Store keepsHtml where
  tenants := ["t"]
  preferences := ⟨[], List.nodup_nil⟩
  templates := (NotificationTemplate.create
    ⟨"w", none, .welcome, .email, "es", some subject, body, true, 0, 0, 0⟩).toOption.toList
  notifications := (Notification.create ⟨"n", "t", "v", some "v@x", .welcome, [.email], payload, "es",
    .pending, 0, none, none, none, 0, 0⟩).toOption.toList
  jobs := ["n"]
  sent := []

/-- A variable of the subject that the payload does not have, and one of the body that is `null`. -/
theorem mails_placeholders :
    (¬ NoPlaceholderMailed none (stored "Hola \x7b\x7bname\x7d\x7d" "Bienvenido" []) "n" 0 ∧
      (handed none (stored "Hola \x7b\x7bname\x7d\x7d" "Bienvenido" []) "n" 0).map (·.subject) =
        ["Hola \x7b\x7bname\x7d\x7d"]) ∧
    ¬ NoPlaceholderMailed none (stored "Hola" "\x7b\x7bname\x7d\x7d" [("name", .null)]) "n" 0 ∧
      (handed none (stored "Hola" "\x7b\x7bname\x7d\x7d" [("name", .null)]) "n" 0).map (·.body) =
        ["\x7b\x7bname\x7d\x7d"] := by
  refine ⟨⟨fun h => ?_, by decide⟩, fun h => ?_, by decide⟩
  · exact absurd (completeIfFound_of_noPlaceholderMailed h (by decide)) (by decide)
  · exact absurd (completeIfFound_of_noPlaceholderMailed h (by decide)) (by decide)

end Neltrik.Notifications.Placeholders
