import Bauth.Concurrent.Purge
import Bauth.Serial.Erasure
import Bauth.Serial.Coherence

/-!
# What the holder of an account agreed to

An address moves, and an account goes, only after a code was mailed to the address of the account,
asked for and presented in one of its sessions. Each code lets one request through, and
each change is applied once.
-/

namespace Bauth

open Transaction Transition

/-! ### The steps -/

/-- The confirmation as it was asked for. -/
def Confirmation.asAsked (c : Confirmation) : Confirmation :=
  { c with codeFailures := 0, consumedAt := none }

/-- The change as it was requested. -/
def EmailChange.asRequested (c : EmailChange) : EmailChange :=
  { c with consumedAt := none }

/-- The user had the code of the confirmation mailed to the address of the account. -/
structure Served.Asks (app : App) (p : Served) (user : CurrentUser)
    (action : Me.ConfirmationAction) (c : Confirmation) : Prop where
  session : ∃ ip authorization, p.request = .requestConfirmation ip authorization action ∧
    Authenticated app ⟨p.time, p.time, p.reply⟩ authorization p.before.db user
  mail : ∃ n, c.codeHash = app.codeHash app.confirmationKey c.sessionId n ∧
    p.events = [.sent (.confirmationCode c.email action.describe (app.plainCode n))]
  account : c.userId = user.id ∧ c.sessionId = user.sessionId ∧ c.email = user.email
  action : c.action = action.asStr
  created : c.asAsked = c ∧ c.createdAt = p.time ∧ c.expiresAt = p.time + codeTtl
  id : ∃ i, c.id = app.uuid ⟨p.before.served, i⟩
  added : p.after.db.confirmations = p.before.db.confirmations ++ [c]

/-- The request is about an account, and carries a code. -/
inductive Request.Carries (authorization : Option String) (code : String) :
    Me.ConfirmationAction → Request → Prop
  | changeEmail (ip newEmail : String) :
      Carries authorization code .changeEmail (.changeEmail ip authorization code newEmail)
  | deleteAccount (ip : String) :
      Carries authorization code .deleteAccount (.deleteAccount ip authorization code)

/-- The code of the confirmation let the request of the user through. -/
structure Served.Spends (app : App) (p : Served) (user : CurrentUser)
    (action : Me.ConfirmationAction) (c : Confirmation) : Prop where
  consent : ∃ authorization code, p.request.Carries authorization code action ∧
    Consent app ⟨p.time, p.time, p.reply⟩ authorization action code p.before.db user c
  consumed : ∀ c' ∈ p.after.db.confirmations, c'.id = c.id → c'.consumedAt.isSome = true

/-- The address the request asks to move to. -/
def Request.newEmail : Request → Option String
  | .changeEmail _ _ _ newEmail => some newEmail
  | _ => none

/-- The step mailed the address a link that moves an account. -/
def Served.MailsChange (p : Served) (address token : String) : Prop :=
  ∃ page, .sent (.confirmEmailChange address (MagicLink.linkWith page token)) ∈ p.events

/-- The user had the link of the change mailed. It goes to the new address as the rate limits spell
it, and moves the account to the new address as the database spells it. -/
structure Served.Requests (app : App) (p : Served) (user : CurrentUser) (c : Confirmation)
    (e : EmailChange) : Prop where
  spends : p.Spends app user .changeEmail c
  account : e.userId = user.id ∧ e.fromEmail = user.email
  mail : ∃ newEmail token, p.request.newEmail = some newEmail ∧
    e.toEmail = app.unicode.normalize newEmail ∧ e.tokenHash = app.hash token ∧
    p.MailsChange (app.unicode.emailKey newEmail) token
  created : e.asRequested = e ∧ e.createdAt = p.time ∧ e.expiresAt = p.time + Me.emailChangeTtl
  id : ∃ i, e.id = app.uuid ⟨p.before.served, i⟩
  added : p.after.db.emailChanges = p.before.db.emailChanges ++ [e]

/-- The link of the change moved the account to the new address, and the old one was told. -/
structure Served.Moves (app : App) (p : Served) (e : EmailChange) : Prop where
  request : ∃ ip token, p.request = .confirmEmailChange ip token ∧ e.tokenHash = app.hash token
  change : e ∈ p.before.db.emailChanges ∧ e.usable p.time = true
  consumed : ∀ e' ∈ p.after.db.emailChanges, e'.id = e.id → e'.consumedAt.isSome = true
  account : ∃ u ∈ p.before.db.users, u.id = e.userId ∧ u.email = e.fromEmail ∧ u.disabledAt = none
  users : p.after.db.users = (p.before.db.moveAddress p.time e.userId e.fromEmail e.toEmail).users
  mail : .sent (.emailChanged e.fromEmail e.toEmail) ∈ p.events

/-- The user had the account deleted, and its address was told. -/
structure Served.Closes (app : App) (p : Served) (user : CurrentUser) (c : Confirmation) :
    Prop where
  spends : p.Spends app user .deleteAccount c
  gone : ∀ u ∈ p.after.db.users, u.id ≠ user.id
  mail : .sent (.accountDeleted user.email) ∈ p.events

/-! ### The purge, however far it gets -/

namespace Purge

section Kept

open Transaction.Program

variable {env : Env sig} {process : ℕ} {I : Database → Prop}
  {select : Time → Database → List Uuid} {present : Database → Uuid → Bool}
  {del : Uuid → Database → Database} {db w : Database} {events : List Event}

/-- What the deletion of each row keeps, the deletion of all of them keeps. -/
lemma wp_deleteEach_keeps {ids : List Uuid} (hdel : ∀ id ∈ ids, ∀ d, I d → I (del id d)) (h : I w) :
    (deleteEach present del ids).wp env process ⟨db, some w, events⟩
      fun _ c => ∃ w', c = ⟨db, some w', events⟩ ∧ I w' := by
  induction ids generalizing w with
  | nil => exact ⟨w, rfl, h⟩
  | cons id ids ih =>
    simp only [deleteEach, Program.wp_bind, wp_query]
    intro i
    have hnext : I (((deleteRow present del id).run env.now ⟨process, i⟩ w).1 w) :=
      deleteRow_cases (hdel id (by simp) w h) h
    exact wp_mono _ _ _ _ (ih (fun id' hid' => hdel id' (by simp [hid'])) hnext) fun _ _ hc => hc

/-- What the deletion of each selected row keeps, a batch keeps. -/
lemma wp_deleteBatch_keeps (hdel : ∀ id ∈ select env.now w, ∀ d, I d → I (del id d)) (h : I w) :
    (deleteBatch select present del).wp env process ⟨w, none, events⟩
      fun _ c => ∃ w', c = ⟨w', none, events⟩ ∧ I w' := by
  simp only [deleteBatch, Program.wp_bind, wp_start, wp_select]
  refine wp_mono _ _ _ _
    (wp_deleteEach_keeps (I := I) (fun id hid => hdel id (List.mem_of_mem_take hid)) h) ?_
  rintro n _ ⟨w', rfl, hw'⟩
  exact ⟨w', rfl, hw'⟩

/-- The batches keep it, ended or not. -/
lemma wp_inBatches_keeps (hdel : ∀ d, I d → ∀ id ∈ select env.now d, ∀ d', I d' → I (del id d'))
    {fuel total : ℕ} (h : I w) :
    (inBatches (deleteBatch select present del) fuel total).wp env process ⟨w, none, events⟩
      fun _ c => ∃ w', c = ⟨w', none, events⟩ ∧ I w' := by
  induction fuel generalizing w total with
  | zero => exact ⟨w, rfl, h⟩
  | succ fuel ih =>
    simp only [inBatches, Program.wp_bind]
    refine wp_mono _ _ _ _ (wp_deleteBatch_keeps (hdel w h) h) ?_
    rintro n _ ⟨w', rfl, hw'⟩
    dsimp only
    split_ifs
    · exact ⟨w', rfl, hw'⟩
    · exact ih hw'

/-- What the batches of each table keep, the purge keeps, however far it gets. -/
lemma wp_purge_keeps {fuel : ℕ} (h : I w)
    (hbatches : ∀ batch ∈ [loginFlows, emailChanges, confirmations, sessions, unverifiedUsers],
      ∀ w, I w → (inBatches batch fuel 0).wp env process ⟨w, none, events⟩
        fun _ c => ∃ w', c = ⟨w', none, events⟩ ∧ I w')
    (hkeys : ∀ w keys, I w → I { w with signingKeys := keys }) :
    (purge fuel).wp env process ⟨w, none, events⟩ fun _ c => I c.db := by
  refine (Program.wp_bind ..).mpr (wp_mono _ _ _ _ (hbatches loginFlows (by simp) w h) ?_)
  rintro (_ | flows) _ ⟨w₁, rfl, h₁⟩
  · exact h₁
  refine (Program.wp_bind ..).mpr (wp_mono _ _ _ _ (hbatches emailChanges (by simp) w₁ h₁) ?_)
  rintro (_ | changes) _ ⟨w₂, rfl, h₂⟩
  · exact h₂
  refine (Program.wp_bind ..).mpr (wp_mono _ _ _ _ (hbatches confirmations (by simp) w₂ h₂) ?_)
  rintro (_ | confirmations) _ ⟨w₃, rfl, h₃⟩
  · exact h₃
  refine (Program.wp_bind ..).mpr (wp_mono _ _ _ _ (hbatches sessions (by simp) w₃ h₃) ?_)
  rintro (_ | sessions) _ ⟨w₄, rfl, h₄⟩
  · exact h₄
  refine (Program.wp_bind ..).mpr (wp_mono _ _ _ _ (hbatches unverifiedUsers (by simp) w₄ h₄) ?_)
  rintro (_ | users) _ ⟨w₅, rfl, h₅⟩
  · exact h₅
  exact (Program.wp_bind ..).mpr ((wp_query ..).mpr fun _ => hkeys w₅ _ h₅)

end Kept

/-- The accounts are those there were, less some that were never verified for a week. -/
structure LosesUnverified (now : Time) (d d' : Database) : Prop where
  within : ∀ u ∈ d'.users, u ∈ d.users
  lost : ∀ u ∈ d.users, u ∈ d'.users ∨ u.emailVerifiedAt = none ∧ u.createdAt < now - days 7

lemma LosesUnverified.of_users {now : Time} {d d' d'' : Database} (h : LosesUnverified now d d')
    (husers : d''.users = d'.users) : LosesUnverified now d d'' where
  within u hu := h.within u (husers ▸ hu)
  lost u hu := husers ▸ h.lost u hu

open Transaction.Program in
/-- The purge deletes no account that was verified or is younger than a week. -/
lemma purge_loses {env : Env sig} {process : ℕ} {d : Database} {events : List Event}
    (hids : d.UniqueIds) (fuel : ℕ) :
    (purge fuel).wp env process ⟨d, none, events⟩ fun _ c => LosesUnverified env.now d c.db := by
  have hothers : ∀ {select present del} (_ : ∀ id w, (del id w).users = w.users) (w : Database),
      LosesUnverified env.now d w → (inBatches (deleteBatch select present del) fuel 0).wp env
        process ⟨w, none, events⟩ fun _ c =>
          ∃ w', c = ⟨w', none, events⟩ ∧ LosesUnverified env.now d w' :=
    fun hdel w h => wp_inBatches_keeps (fun _ _ id _ w' h => h.of_users (hdel id w')) h
  have husers : ∀ w, LosesUnverified env.now d w → (inBatches unverifiedUsers fuel 0).wp env process
      ⟨w, none, events⟩ fun _ c => ∃ w', c = ⟨w', none, events⟩ ∧ LosesUnverified env.now d w' := by
    refine fun w h => wp_inBatches_keeps (fun w hw id hid w' hw' => ?_) h
    obtain ⟨v, hv, rfl⟩ := List.mem_map.mp hid
    simp only [List.mem_filter, Bool.and_eq_true, Option.isNone_iff_eq_none,
      decide_eq_true_eq] at hv
    refine ⟨fun u hu => hw'.within u (List.mem_of_mem_filter hu), fun u hu => ?_⟩
    rcases hw'.lost u hu with hu' | hlost
    · by_cases hid : u.id = v.id
      · -- the deleted row is the one that was selected
        obtain rfl := List.inj_on_of_nodup_map hids.users hu (hw.within v hv.1) hid
        exact .inr hv.2
      · exact .inl (List.mem_filter.mpr ⟨hu', by simpa using hid⟩)
    · exact .inr hlost
  have hstart : LosesUnverified env.now d d := ⟨fun _ h => h, fun _ h => .inl h⟩
  refine wp_purge_keeps hstart ?_ fun w keys h => h.of_users rfl
  simp only [List.forall_mem_cons]
  refine ⟨?_, ?_, ?_, ?_, husers, by simp⟩
  · exact hothers (by intros; rfl)
  · exact hothers (by intros; rfl)
  · exact hothers (by intros; rfl)
  · exact hothers (by intros; rfl)

end Purge

section Steps

variable {app : App} {p : Served}

/-! ### What the requests leave -/

section Outcomes

variable {ip code token : String} {authorization : Option String}

lemma Served.Of.codeMailed (hp : p.Of app) {action : Me.ConfirmationAction}
    (hrequest : p.request = .requestConfirmation ip authorization action) :
    ∃ a, CodeMailed app ⟨p.time, p.time, p.reply⟩ p.before.served authorization action p.before.db a
      p.after.db p.events := by
  rw [hp.serve, hrequest]
  refine serve_wp (Q := fun _ d' events => ∃ a, CodeMailed app _ _ authorization action _ a d'
    events) ((wp_apiRoute _ _).mpr ?_)
  refine (requestConfirmation_mails ip authorization action).mono fun a c h => ?_
  obtain ⟨sent, h, hsent⟩ := h
  rw [List.nil_append] at hsent
  exact ⟨a, hsent ▸ h⟩

lemma Served.Of.moveRequested (hp : p.Of app) (hids : p.before.db.UniqueIds) {newEmail : String}
    (hrequest : p.request = .changeEmail ip authorization code newEmail) :
    ∃ a, p.response = ofApi (fun _ => .done) a ∧ MoveRequested app ⟨p.time, p.time, p.reply⟩
      p.before.served authorization code newEmail p.before.db a p.after.db p.events := by
  rw [hp.serve, hrequest]
  refine serve_wp (Q := fun r d' events => ∃ a, r = ofApi (fun _ => .done) a ∧
    MoveRequested app _ _ authorization code newEmail _ a d' events) ((wp_apiRoute _ _).mpr ?_)
  exact (changeEmail_consented hids ip authorization code newEmail).mono fun a c h => ⟨a, rfl, h⟩

lemma Served.Of.accountClosed (hp : p.Of app) (hids : p.before.db.UniqueIds)
    (hrequest : p.request = .deleteAccount ip authorization code) :
    ∃ a, p.response = ofApi (fun _ => .done) a ∧ AccountClosed app ⟨p.time, p.time, p.reply⟩
      authorization code p.before.db a p.after.db p.events := by
  rw [hp.serve, hrequest]
  refine serve_wp (Q := fun r d' events => ∃ a, r = ofApi (fun _ => .done) a ∧
    AccountClosed app _ authorization code _ a d' events) ((wp_apiRoute _ _).mpr ?_)
  exact (deleteAccount_consented hids ip authorization code).mono fun a c h => ⟨a, rfl, h⟩

lemma Served.Of.addressMoved (hp : p.Of app) (hids : p.before.db.UniqueIds)
    (hrequest : p.request = .confirmEmailChange ip token) :
    ∃ a, AddressMoved app ⟨p.time, p.time, p.reply⟩ token p.before.db a p.after.db p.events := by
  rw [hp.serve, hrequest]
  refine serve_wp (Q := fun _ d' events => ∃ a, AddressMoved app _ token _ a d' events)
    ((wp_apiRoute _ _).mpr ?_)
  exact (confirmEmailChange_moves hids ip token).mono fun a c h => ⟨a, h⟩

lemma Served.Of.losesUnverified (hp : p.Of app) (hids : p.before.db.UniqueIds) {fuel : ℕ}
    (hrequest : p.request = .purge fuel) :
    Purge.LosesUnverified p.time p.before.db p.after.db := by
  rw [hp.serve, hrequest]
  refine serve_wp (Q := fun _ d' _ => Purge.LosesUnverified p.time p.before.db d') ?_
  refine (Program.wp_bind ..).mpr (Program.wp_mono _ _ _ _ (Purge.purge_loses hids fuel) ?_)
  exact fun _ _ h => h

end Outcomes

/-! ### Rows and the steps that made them -/

/-- The confirmations after a step: those from before, and the one it mailed the code of. -/
lemma asks_or_before (hp : p.Of app) : ∀ c ∈ p.after.db.confirmations,
    (∃ c₀ ∈ p.before.db.confirmations, c₀.asAsked = c.asAsked) ∨
      ∃ c₀, (∃ user action, p.Asks app user action c₀) ∧ c₀.asAsked = c.asAsked := by
  by_cases hask : ∃ ip authorization action,
      p.request = .requestConfirmation ip authorization action
  · obtain ⟨ip, authorization, action, hrequest⟩ := hask
    obtain ⟨a, h⟩ := hp.codeMailed hrequest
    generalize hafter : p.after.db = d', hevents : p.events = events at h
    cases h with
    | refused => exact fun c hc => .inl ⟨c, hc, rfl⟩
    | @mailed user huser i n =>
      intro c hc
      rcases List.mem_append.mp hc with hc | hc
      · exact .inl ⟨c, hc, rfl⟩
      · obtain rfl := List.mem_singleton.mp hc
        refine .inr ⟨_, ⟨user, action, ?_⟩, rfl⟩
        exact
          { session := ⟨ip, authorization, hrequest, huser⟩
            mail := ⟨⟨p.before.served, n⟩, rfl, hevents⟩
            account := ⟨rfl, rfl, rfl⟩
            action := rfl
            created := ⟨rfl, rfl, rfl⟩
            id := ⟨i, rfl⟩
            added := by rw [hafter] }
  · have hkeeps : ∃ _ : ℕ, ∀ c ∈ p.after.db.confirmations,
        ∃ c₀ ∈ p.before.db.confirmations, c₀.asAsked = c.asAsked := by
      rw [hp.serve]
      refine serve_keeps (J := fun _ d => ∀ c ∈ d.confirmations,
        ∃ c₀ ∈ p.before.db.confirmations, c₀.asAsked = c.asAsked) (fun _ _ h => h)
        (fun q k d d' hq hd hstep c hc => ?_) fun c hc => ⟨c, hc, rfl⟩
      rcases hstep.confirmations.mem hc with ⟨c₁, hc₁, hrow⟩ | ⟨rfl, -⟩
      · obtain ⟨c₀, hc₀, hsame⟩ := hd c₁ hc₁
        refine ⟨c₀, hc₀, hsame.trans ?_⟩
        cases hrow <;> rfl
      · cases hrequest : p.request with
        | requestConfirmation ip authorization action =>
          exact absurd ⟨ip, authorization, action, hrequest⟩ hask
        | _ => simp [hrequest, Request.may, Query.LogsIn, Query.ChecksCode] at hq
    exact fun c hc => .inl (hkeeps.choose_spec c hc)

/-- A confirmation let a request through, once it is consumed. -/
lemma Consent.spends {authorization : Option String} {action : Me.ConfirmationAction}
    {code : String} {user : CurrentUser} {c : Confirmation}
    (hcarries : p.request.Carries authorization code action)
    (hconsent : Consent app ⟨p.time, p.time, p.reply⟩ authorization action code p.before.db user c)
    (hafter : ∀ c' ∈ p.after.db.confirmations,
      c' ∈ (p.before.db.consumeConfirmation p.time c.id).confirmations) :
    p.Spends app user action c := by
  refine ⟨⟨authorization, code, hcarries, hconsent⟩, fun c' hc' hid => ?_⟩
  obtain ⟨c₀, hc₀, rfl⟩ := mem_updateWhere.mp (hafter c' hc')
  have hsame : c₀.id = c.id := by
    split_ifs at hid <;> exact hid
  rw [if_pos (by simpa using hsame)]
  rfl

/-- The changes a request that mails no link of one leaves. -/
lemma requested_before (hp : p.Of app) (hchange : ¬∃ ip authorization code newEmail,
    p.request = .changeEmail ip authorization code newEmail) : ∀ e ∈ p.after.db.emailChanges,
      ∃ e₀ ∈ p.before.db.emailChanges, e₀.asRequested = e.asRequested := by
  have hkeeps : ∃ _ : ℕ, ∀ e ∈ p.after.db.emailChanges,
      ∃ e₀ ∈ p.before.db.emailChanges, e₀.asRequested = e.asRequested := by
    rw [hp.serve]
    refine serve_keeps (J := fun _ d => ∀ e ∈ d.emailChanges,
      ∃ e₀ ∈ p.before.db.emailChanges, e₀.asRequested = e.asRequested) (fun _ _ h => h)
      (fun q k d d' hq hd hstep e he => ?_) fun e he => ⟨e, he, rfl⟩
    rcases hstep.emailChanges.mem he with ⟨e₁, he₁, hrow⟩ | ⟨rfl, -⟩
    · obtain ⟨e₀, he₀, hsame⟩ := hd e₁ he₁
      refine ⟨e₀, he₀, hsame.trans ?_⟩
      cases hrow <;> rfl
    · cases hrequest : p.request with
      | changeEmail ip authorization code newEmail =>
        exact absurd ⟨ip, authorization, code, newEmail, hrequest⟩ hchange
      | _ => simp [hrequest, Request.may, Query.LogsIn, Query.ChecksCode] at hq
  exact hkeeps.choose_spec

/-- The changes after a step: those from before, and the one it mailed the link of. -/
lemma requests_or_before (hp : p.Of app) (hids : p.before.db.UniqueIds) :
    ∀ e ∈ p.after.db.emailChanges,
      (∃ e₀ ∈ p.before.db.emailChanges, e₀.asRequested = e.asRequested) ∨
        ∃ e₀, (∃ user c, p.Requests app user c e₀) ∧ e₀.asRequested = e.asRequested := by
  by_cases hchange : ∃ ip authorization code newEmail,
      p.request = .changeEmail ip authorization code newEmail
  · obtain ⟨ip, authorization, code, newEmail, hrequest⟩ := hchange
    obtain ⟨a, -, h⟩ := hp.moveRequested hids hrequest
    generalize hafter : p.after.db = d', hevents : p.events = events at h
    cases h with
    | refused => exact fun e he => .inl ⟨e, he, rfl⟩
    | wrong => exact fun e he => .inl ⟨e, he, rfl⟩
    | spent => exact fun e he => .inl ⟨e, he, rfl⟩
    | @mailed user c client page hconsent hvalid hclient hpage i j hnew _ hmail =>
      intro e he
      rcases List.mem_append.mp he with he | he
      · exact .inl ⟨e, he, rfl⟩
      · obtain rfl := List.mem_singleton.mp he
        refine .inr ⟨_, ⟨user, c, ?_⟩, rfl⟩
        exact
          { spends := hconsent.spends (hrequest ▸ .changeEmail ip newEmail) (by rw [hafter]; simp)
            account := ⟨rfl, rfl⟩
            mail := ⟨newEmail, _, by rw [hrequest]; rfl, rfl, rfl, page, hevents ▸ hmail⟩
            created := ⟨rfl, rfl, rfl⟩
            id := ⟨i, rfl⟩
            added := by rw [hafter] }
  · exact fun e he => .inl (requested_before hp hchange e he)

lemma mem_of_mem_deleteUsers {d : Database} {gone : User → Bool} {c : Confirmation}
    (h : c ∈ (d.deleteUsers gone).confirmations) : c ∈ d.confirmations :=
  List.mem_of_mem_filter (List.mem_of_mem_filter h)

/-- A request that succeeds on a code was let through by a confirmation. -/
lemma spends_of_done (hp : p.Of app) (hids : p.before.db.UniqueIds) {authorization : Option String}
    {code : String} {action : Me.ConfirmationAction}
    (hcarries : p.request.Carries authorization code action) (hdone : p.response = .ok .done) :
    ∃ user c, p.Spends app user action c := by
  have hcarries' := hcarries
  generalize hrequest : p.request = request at hcarries'
  cases hcarries' with
  | changeEmail ip newEmail =>
    obtain ⟨a, hanswer, h⟩ := hp.moveRequested hids hrequest
    rw [hdone] at hanswer
    generalize hafter : p.after.db = d', p.events = events at h
    cases h with
    | refused => cases hanswer
    | wrong => cases hanswer
    | spent hconsent => exact ⟨_, _, hconsent.spends hcarries fun c' hc' => hafter ▸ hc'⟩
    | mailed hconsent => exact ⟨_, _, hconsent.spends hcarries (by rw [hafter]; simp)⟩
  | deleteAccount ip =>
    obtain ⟨a, hanswer, h⟩ := hp.accountClosed hids hrequest
    rw [hdone] at hanswer
    generalize hafter : p.after.db = d', p.events = events at h
    cases h with
    | refused => cases hanswer
    | wrong => cases hanswer
    | deleted hconsent =>
      refine ⟨_, _, hconsent.spends hcarries ?_⟩
      rw [hafter]
      exact fun c' hc' => mem_of_mem_deleteUsers hc'

/-- A request is let through by one confirmation. -/
lemma Served.Spends.unique {user user' : CurrentUser} {action : Me.ConfirmationAction}
    {c c' : Confirmation} (h : p.Spends app user action c) (h' : p.Spends app user' action c') :
    c = c' := by
  obtain ⟨authorization, code, hcarries, hconsent⟩ := h.consent
  obtain ⟨authorization', code', hcarries', hconsent'⟩ := h'.consent
  have hsame : authorization = authorization' := by
    generalize p.request = request at hcarries hcarries'
    cases hcarries <;> cases hcarries' <;> rfl
  subst hsame
  obtain ⟨claims, hclaims, -, hsession, -⟩ := hconsent.session.claims
  obtain ⟨claims', hclaims', -, hsession', -⟩ := hconsent'.session.claims
  obtain rfl := Option.some.inj (hclaims.symm.trans hclaims')
  have hnewest := hconsent.pending.newest
  rw [hsession, ← hsession', hconsent'.pending.newest] at hnewest
  exact (Option.some.inj hnewest).symm

/-! ### What the steps leave of the accounts -/

/-- An account whose address a step changes was moved by the link of a change. -/
lemma moves_of_address (huuid : Function.Injective app.uuid) (hp : p.Taken app) {u u' : User}
    (hu : u ∈ p.before.db.users) (hu' : u' ∈ p.after.db.users) (hid : u'.id = u.id)
    (hmoved : u'.email ≠ u.email) :
    ∃ e, p.Moves app e ∧ e.userId = u.id ∧ e.fromEmail = u.email ∧ e.toEmail = u'.email := by
  have hkeyed := hp.2.keyed huuid
  have hids := hkeyed.uniqueIds
  have hsame : ∀ v ∈ p.before.db.users, v.id = u.id → v = u := fun v hv hvid =>
    List.inj_on_of_nodup_map hids.users hv hu hvid
  by_cases hconfirm : ∃ ip token, p.request = .confirmEmailChange ip token
  · obtain ⟨ip, token, hrequest⟩ := hconfirm
    obtain ⟨a, h⟩ := hp.1.addressMoved hids hrequest
    generalize hafter : p.after.db = d', hevents : p.events = events at h hu'
    cases h with
    | refused =>
      obtain rfl := hsame u' hu' hid
      exact absurd rfl hmoved
    | @moved e he htoken husable huser hfree _ hmail =>
      obtain ⟨v, hv, rfl⟩ := mem_updateWhere.mp hu'
      have hvid : v.id = u.id := by
        split_ifs at hid <;> exact hid
      obtain rfl := hsame v hv hvid
      by_cases hhit : (decide (v.id = e.userId) && decide (v.email = e.fromEmail)) = true
      · rw [if_pos hhit] at hmoved ⊢
        simp only [Bool.and_eq_true, decide_eq_true_eq] at hhit
        refine ⟨e, ?_, hhit.1.symm, hhit.2.symm, rfl⟩
        exact
          { request := ⟨ip, token, hrequest, htoken⟩
            change := ⟨he, husable⟩
            consumed := by
              rw [hafter]
              intro e' he' heid
              obtain ⟨e₀, he₀, rfl⟩ := mem_updateWhere.mp he'
              have hrow : e₀ = e := by
                refine List.inj_on_of_nodup_map hids.emailChanges he₀ he ?_
                split_ifs at heid <;> exact heid
              subst hrow
              rw [if_pos (by simp [htoken, husable])]
              rfl
            account := huser
            users := by rw [hafter]; rfl
            mail := hevents ▸ hmail }
      · rw [if_neg hhit] at hmoved
        exact absurd rfl hmoved
  · have hmay : ∀ q, p.request.may q → q ≠ .usersChangeEmail := by
      rintro q hq rfl
      cases hrequest : p.request with
      | confirmEmailChange ip token => exact hconfirm ⟨ip, token, hrequest⟩
      | _ => simp [hrequest, Request.may, Query.LogsIn, Query.ChecksCode] at hq
    rcases users_of_may hp.1 hmay u' hu' with ⟨v, hv, hvid, hemail⟩ | ⟨i, hi⟩
    · obtain rfl := hsame v hv (hvid.trans hid)
      exact absurd hemail.symm hmoved
    · have hdrawn := hkeyed.users.drawn _ (List.mem_map_of_mem hu)
      rw [← hid, hi] at hdrawn
      exact absurd hdrawn (not_drawn huuid (Nat.zero_le i))

/-- The accounts stay when no statement deletes any. -/
lemma users_stay (hp : p.Of app) (hmay : ∀ q, p.request.may q → q.KeepsRows) :
    Stays User.id p.before.db.users p.after.db.users := by
  have hkeeps : ∃ _ : ℕ, Stays User.id p.before.db.users p.after.db.users := by
    rw [hp.serve]
    refine Program.serve_keeps (S := sig) (J := fun _ d => Stays User.id p.before.db.users d.users)
      (fun _ _ h => h) (fun st hst k d hd u hu => ?_) (handle_sends app p.request) .refl
    obtain ⟨g, hg⟩ := hst.growsUsers hmay p.time ⟨p.before.served, k⟩ d
    obtain ⟨added, hadded⟩ := hg.users d
    obtain ⟨u', hu', hid⟩ := hd u hu
    refine ⟨g u', ?_, (hg.id u').trans hid⟩
    rw [hadded]
    exact List.mem_append_left _ (List.mem_map_of_mem hu')
  exact hkeeps.choose_spec

/-- An account that a step removes was deleted by its user, or was never verified for a week. -/
lemma closes_or_purges (huuid : Function.Injective app.uuid) (hp : p.Taken app) {u : User}
    (hu : u ∈ p.before.db.users) (hgone : ∀ u' ∈ p.after.db.users, u'.id ≠ u.id) :
    (∃ user c, p.Closes app user c ∧ user.id = u.id ∧ user.email = u.email) ∨
      (∃ fuel, p.request = .purge fuel) ∧ u.emailVerifiedAt = none ∧
        u.createdAt < p.time - days 7 := by
  have hids := (hp.2.keyed huuid).uniqueIds
  cases hrequest : p.request with
  | deleteAccount ip authorization code =>
    obtain ⟨a, -, h⟩ := hp.1.accountClosed hids hrequest
    generalize hafter : p.after.db = d', hevents : p.events = events at h hgone
    cases h with
    | refused => exact absurd rfl (hgone u hu)
    | wrong => exact absurd rfl (hgone u hu)
    | @deleted user c hconsent _ hmail =>
      have hid : u.id = user.id := by
        by_contra hne
        exact hgone u (List.mem_filter.mpr ⟨hu, by simpa using hne⟩) rfl
      obtain ⟨v, hv, hvid, hemail, -⟩ := hconsent.session.account
      obtain rfl := List.inj_on_of_nodup_map hids.users hv hu (hvid.trans hid.symm)
      refine .inl ⟨user, c, ?_, hid.symm, hemail.symm⟩
      exact
        { spends := hconsent.spends (hrequest ▸ .deleteAccount ip) (by
            rw [hafter]
            exact fun c' hc' => mem_of_mem_deleteUsers hc')
          gone := by
            rw [hafter]
            exact fun u' hu' hid' => hgone u' hu' (hid'.trans hid.symm)
          mail := hevents ▸ hmail }
  | purge fuel =>
    rcases (hp.1.losesUnverified hids hrequest).lost u hu with hkept | hlost
    · exact absurd rfl (hgone u hkept)
    · exact .inr ⟨⟨fuel, rfl⟩, hlost⟩
  | _ =>
    have hmay : ∀ q, p.request.may q → q.KeepsRows := by
      intro q hq
      refine ⟨?_, ?_⟩
      · rintro rfl
        simp [hrequest, Request.may, Query.LogsIn, Query.ChecksCode] at hq
      · rintro rfl
        simp [hrequest, Request.may, Query.LogsIn, Query.ChecksCode] at hq
    obtain ⟨u', hu', hid⟩ := users_stay hp.1 hmay u hu
    exact absurd hid (hgone u' hu')

/-! ### Codes and links that are used up -/

/-- A confirmation that is used up stays so: a wrong code is checked against a live one only. -/
lemma marks_spent (huuid : Function.Injective app.uuid) (hp : p.Taken app) :
    Marks app Database.confirmations Confirmation.id (fun c => c.consumedAt.isSome = true) p := by
  have hids := (hp.2.keyed huuid).uniqueIds
  have hspent (id : Uuid) : ∀ c ∈ (p.before.db.consumeConfirmation p.time id).confirmations,
      ∃ c₀ ∈ p.before.db.confirmations, c₀.id = c.id ∧
        (c₀.consumedAt.isSome = true → c.consumedAt.isSome = true) := by
    intro c hc
    obtain ⟨c₀, hc₀, rfl⟩ := mem_updateWhere.mp hc
    refine ⟨c₀, hc₀, ?_⟩
    split_ifs
    · exact ⟨rfl, fun _ => rfl⟩
    · exact ⟨rfl, fun h => h⟩
  have hfailed {user : CurrentUser} {action : Me.ConfirmationAction} {c : Confirmation}
      (hc : p.before.db.Pending user action p.time c) :
      ∀ c' ∈ (p.before.db.failConfirmation p.time c.id).confirmations,
        ∃ c₀ ∈ p.before.db.confirmations, c₀.id = c'.id ∧
          (c₀.consumedAt.isSome = true → c'.consumedAt.isSome = true) := by
    intro c' hc'
    obtain ⟨c₀, hc₀, rfl⟩ := mem_updateWhere.mp hc'
    refine ⟨c₀, hc₀, ?_⟩
    by_cases hhit : decide (c₀.id = c.id) = true
    · rw [if_pos hhit]
      refine ⟨rfl, fun hused => ?_⟩
      have hmem := (mem_of_newestConfirmation hc.newest).1
      obtain rfl := List.inj_on_of_nodup_map hids.confirmations hc₀ hmem (by simpa using hhit)
      have husable := hc.usable
      simp only [Confirmation.usable, Bool.and_eq_true, Option.isNone_iff_eq_none] at husable
      simp [husable.1] at hused
    · rw [if_neg hhit]
      exact ⟨rfl, fun h => h⟩
  by_cases hcheck : ∃ authorization code action, p.request.Carries authorization code action
  · intro c hc
    refine .inl ?_
    obtain ⟨authorization, code, action, hcarries⟩ := hcheck
    generalize hrequest : p.request = request at hcarries
    cases hcarries with
    | changeEmail ip newEmail =>
      obtain ⟨a, -, h⟩ := hp.1.moveRequested hids hrequest
      generalize p.after.db = d', p.events = events at h hc
      cases h with
      | refused => exact ⟨c, hc, rfl, fun h => h⟩
      | wrong _ hpending => exact hfailed hpending c hc
      | spent => exact hspent _ c hc
      | mailed => exact hspent _ c hc
    | deleteAccount ip =>
      obtain ⟨a, -, h⟩ := hp.1.accountClosed hids hrequest
      generalize p.after.db = d', p.events = events at h hc
      cases h with
      | refused => exact ⟨c, hc, rfl, fun h => h⟩
      | wrong _ hpending => exact hfailed hpending c hc
      | deleted => exact hspent _ c (mem_of_mem_deleteUsers hc)
  · refine .of_evolves hp.1 (fun he => he.confirmations) (fun {q now r r'} hq hrow => ?_)
      fun hnew => hnew.2.1
    cases hrow with
    | same => exact ⟨rfl, fun h => h⟩
    | consume => exact ⟨rfl, fun _ => rfl⟩
    | fail _ hfail =>
      subst hfail
      cases hrequest : p.request with
      | changeEmail ip authorization code newEmail =>
        refine absurd ⟨authorization, code, .changeEmail, ?_⟩ hcheck
        exact hrequest ▸ .changeEmail ip newEmail
      | deleteAccount ip authorization code =>
        refine absurd ⟨authorization, code, .deleteAccount, ?_⟩ hcheck
        exact hrequest ▸ .deleteAccount ip
      | _ => simp [hrequest, Request.may, Query.LogsIn] at hq

lemma marks_applied (hp : p.Taken app) :
    Marks app Database.emailChanges EmailChange.id (fun e => e.consumedAt.isSome = true) p := by
  refine .of_evolves hp.1 (fun he => he.emailChanges) (fun _ hrow => ?_) fun hnew => hnew.2.1
  cases hrow with
  | same => exact ⟨rfl, fun h => h⟩
  | consume => exact ⟨rfl, fun _ => rfl⟩

/-- A session stays with its user. -/
lemma marks_owner (hp : p.Taken app) (id : Uuid) :
    Marks app Database.sessions Session.id (fun S => S.userId = id) p := by
  refine .sessions hp.1 fun hrow h => ?_
  cases hrow <;> exact h

end Steps

/-! ### Runs -/

section Runs

variable {app : App} {s₀ s : Server} {steps : List Served} {p q : Served} {k : Uuid}

/-- A code lets one request through. -/
lemma spent_once (huuid : Function.Injective app.uuid)
    (h : Path Served.before Served.after (Served.Taken app) s₀ steps s)
    (hp : p ∈ steps) (hq : q ∈ steps) (hup : ∃ user action c, p.Spends app user action c ∧ c.id = k)
    (huq : ∃ user action c, q.Spends app user action c ∧ c.id = k) : p = q := by
  refine marked_once huuid h k (fun p => ∃ user action c, p.Spends app user action c ∧ c.id = k)
    (fun p hp => marks_spent huuid hp) (fun p htaken hused => ?_) hp hq hup huq
  obtain ⟨user, action, c, hspends, rfl⟩ := hused
  obtain ⟨authorization, code, -, hconsent⟩ := hspends.consent
  have hc := (mem_of_newestConfirmation hconsent.pending.newest).1
  refine ⟨(htaken.2.keyed huuid).confirmations.drawn _ (List.mem_map_of_mem hc), ⟨c, hc, rfl, ?_⟩,
    hspends.consumed⟩
  have husable := hconsent.pending.usable
  simp only [Confirmation.usable, Bool.and_eq_true, Option.isNone_iff_eq_none] at husable
  simp [husable.1]

/-- A link moves an account once. -/
lemma moved_once (huuid : Function.Injective app.uuid)
    (h : Path Served.before Served.after (Served.Taken app) s₀ steps s)
    (hp : p ∈ steps) (hq : q ∈ steps) (hup : ∃ e, p.Moves app e ∧ e.id = k)
    (huq : ∃ e, q.Moves app e ∧ e.id = k) : p = q := by
  refine marked_once huuid h k (fun p => ∃ e, p.Moves app e ∧ e.id = k)
    (fun p hp => marks_applied hp) (fun p htaken hused => ?_) hp hq hup huq
  obtain ⟨e, hmoves, rfl⟩ := hused
  obtain ⟨he, husable⟩ := hmoves.change
  refine ⟨(htaken.2.keyed huuid).emailChanges.drawn _ (List.mem_map_of_mem he), ⟨e, he, rfl, ?_⟩,
    hmoves.consumed⟩
  simp only [EmailChange.usable, Bool.and_eq_true, Option.isNone_iff_eq_none] at husable
  simp [husable.1]

/-- Two users of a run acting in one session are the same. -/
lemma same_owner (huuid : Function.Injective app.uuid)
    (h : Path Served.before Served.after (Served.Taken app) s₀ steps s) (hs₀ : Reachable app s₀)
    {env env' : Program.Env sig} {authorization authorization' : Option String}
    {asker user : CurrentUser}
    (hasker : Authenticated app env authorization s₀.db asker)
    (huser : Authenticated app env' authorization' s.db user)
    (hsession : asker.sessionId = user.sessionId) : asker.id = user.id := by
  have hkeyed := hs₀.keyed huuid
  obtain ⟨S, hS, hSid, howner, -⟩ := hasker.session
  obtain ⟨S', hS', hSid', howner', -⟩ := huser.session
  have hstays := marked_stays huuid h (fun p hp => marks_owner hp asker.id) (k := S.id)
    ⟨hkeyed.sessions.drawn _ (List.mem_map_of_mem hS), fun S₀ hS₀ hid => by
      rw [List.inj_on_of_nodup_map hkeyed.uniqueIds.sessions hS₀ hS hid]
      exact howner⟩
  rw [← howner']
  exact (hstays.2 S' hS' (hSid'.trans (hsession.symm.trans hSid.symm))).symm

variable {clock : Time}

/-- A code that lets a request through was asked for before, for the same action of the same user
in the same session. -/
lemma Run.asked (huuid : Function.Injective app.uuid)
    (h : Run app { db := {}, served := 0, clock } steps s) {env : Program.Env sig}
    {authorization : Option String} {action : Me.ConfirmationAction} {code : String}
    {user : CurrentUser} {c : Confirmation}
    (hconsent : Consent app env authorization action code s.db user c) :
    ∃ a q b asker, steps = a ++ q :: b ∧ q.Asks app asker action c.asAsked ∧
      asker.id = user.id ∧ asker.sessionId = user.sessionId ∧ asker.email = user.email := by
  obtain ⟨hc, hsession, haction⟩ := mem_of_newestConfirmation hconsent.pending.newest
  obtain ⟨a, q, b, c₀, rfl, ⟨asker, action', hasks⟩, hsame⟩ := (h.path (.start app clock)).born
    (fun s => s.db.confirmations) Confirmation.asAsked
    (fun p c => ∃ user action, p.Asks app user action c) rfl (fun p hp => asks_or_before hp.1) c hc
  rw [hasks.created.1] at hsame
  subst hsame
  have haction' : action' = action := by
    have hstr : action'.asStr = action.asStr := hasks.action.symm.trans haction
    cases action' <;> cases action <;> first | rfl | simp [Me.ConfirmationAction.asStr] at hstr
  subst haction'
  have hsession' : asker.sessionId = user.sessionId := hasks.account.2.1.symm.trans hsession
  refine ⟨a, q, b, asker, rfl, hasks, ?_, hsession', hasks.account.2.2.symm.trans
    hconsent.pending.address⟩
  obtain ⟨hbefore, hq, hafter⟩ := (h.path (.start app clock)).around
  obtain ⟨ip, authorization', -, hasker⟩ := hasks.session
  exact same_owner huuid (hafter.cons hq) hq.2 hasker hconsent.session hsession'

end Runs

/-! ### Addresses, accounts and codes -/

/-- A change of address: the code and the change as they were made, and the steps they were for. -/
structure Relocation where
  confirmation : Confirmation
  change : EmailChange
  asked : Served
  requested : Served
  moved : Served

/-- The user moved the account in these steps: a code mailed to the address of the account, its use
to have a link mailed to the new one, and the use of this link. -/
structure Relocation.In (app : App) (steps : List Served) (user : CurrentUser)
    (t : Relocation) : Prop where
  order : ∃ a b c d, steps = a ++ t.asked :: (b ++ t.requested :: (c ++ t.moved :: d))
  asks : ∃ asker, t.asked.Asks app asker .changeEmail t.confirmation ∧ asker.id = user.id ∧
    asker.sessionId = user.sessionId ∧ asker.email = user.email
  requests : ∃ c, c.asAsked = t.confirmation ∧ t.requested.Requests app user c t.change
  moves : ∃ e, e.asRequested = t.change ∧ t.moved.Moves app e

/-- A deletion: the code as it was made, and the steps it was for. -/
structure Closure where
  confirmation : Confirmation
  asked : Served
  closed : Served

/-- The user deleted the account in these steps: a code mailed to the address of the account, and
its use. -/
structure Closure.In (app : App) (steps : List Served) (user : CurrentUser) (t : Closure) :
    Prop where
  order : ∃ a b c, steps = a ++ t.asked :: (b ++ t.closed :: c)
  asks : ∃ asker, t.asked.Asks app asker .deleteAccount t.confirmation ∧ asker.id = user.id ∧
    asker.sessionId = user.sessionId ∧ asker.email = user.email
  closes : ∃ c, c.asAsked = t.confirmation ∧ t.closed.Closes app user c

section Agreed

variable {app : App} {clock : Time} {s : Server} {steps : List Served}

lemma Relocation.In.mem {user : CurrentUser} {t : Relocation} (h : t.In app steps user) :
    t.asked ∈ steps ∧ t.requested ∈ steps ∧ t.moved ∈ steps := by
  obtain ⟨a, b, c, d, rfl⟩ := h.order
  simp

/-- Relocations that share their code are the same. -/
lemma Relocation.In.same_code (huuid : Function.Injective app.uuid)
    (hrun : Run app { db := {}, served := 0, clock } steps s) {user user' : CurrentUser}
    {t t' : Relocation} (h : t.In app steps user) (h' : t'.In app steps user')
    (hcode : t.confirmation.id = t'.confirmation.id) : t = t' := by
  have hpath := hrun.path (.start app clock)
  obtain ⟨asker, hasks, -⟩ := h.asks
  obtain ⟨asker', hasks', -⟩ := h'.asks
  obtain ⟨c, hc, hrequests⟩ := h.requests
  obtain ⟨c', hc', hrequests'⟩ := h'.requests
  obtain ⟨e, he, hmoves⟩ := h.moves
  obtain ⟨e', he', hmoves'⟩ := h'.moves
  have hcid : c.id = c'.id := by
    have hid : c.asAsked.id = c'.asAsked.id := by rw [hc, hc', hcode]
    exact hid
  have hasked : t.asked = t'.asked :=
    drawn_once huuid hpath h.mem.1 h'.mem.1 hasks.id (hcode ▸ hasks'.id)
  have hrequested : t.requested = t'.requested :=
    spent_once huuid hpath h.mem.2.1 h'.mem.2.1 ⟨user, _, c, hrequests.spends, hcid⟩
      ⟨user', _, c', hrequests'.spends, rfl⟩
  obtain ⟨confirmation, change, asked, requested, moved⟩ := t
  obtain ⟨confirmation', change', asked', requested', moved'⟩ := t'
  obtain rfl : asked = asked' := hasked
  obtain rfl : requested = requested' := hrequested
  have hconfirmation : confirmation = confirmation' :=
    List.singleton_inj.mp (List.append_cancel_left (hasks.added.symm.trans hasks'.added))
  have hchange : change = change' :=
    List.singleton_inj.mp (List.append_cancel_left (hrequests.added.symm.trans hrequests'.added))
  subst hconfirmation hchange
  have hmoved : moved = moved' := by
    have hid : e.asRequested.id = e'.asRequested.id := by rw [he, he']
    exact moved_once huuid hpath h.mem.2.2 h'.mem.2.2 ⟨e, hmoves, hid⟩ ⟨e', hmoves', rfl⟩
  subst hmoved
  rfl

/-- Relocations that share their change are the same. -/
lemma Relocation.In.same_change (huuid : Function.Injective app.uuid)
    (hrun : Run app { db := {}, served := 0, clock } steps s) {user user' : CurrentUser}
    {t t' : Relocation} (h : t.In app steps user) (h' : t'.In app steps user')
    (hchange : t.change.id = t'.change.id) : t = t' := by
  refine h.same_code huuid hrun h' ?_
  obtain ⟨c, hc, hrequests⟩ := h.requests
  obtain ⟨c', hc', hrequests'⟩ := h'.requests
  have hrequested : t.requested = t'.requested :=
    drawn_once huuid (hrun.path (.start app clock)) h.mem.2.1 h'.mem.2.1 hrequests.id
      (hchange ▸ hrequests'.id)
  rw [hrequested] at hrequests
  rw [← hc, ← hc', hrequests.spends.unique hrequests'.spends]

/-- Where the two spellings of the new address agree, the link went to the address that the account
moves to. -/
lemma Served.Requests.mailed {p : Served} {user : CurrentUser} {c : Confirmation} {e : EmailChange}
    (h : p.Requests app user c e) {newEmail : String}
    (hrequest : p.request.newEmail = some newEmail)
    (hagrees : app.unicode.agrees newEmail = true) :
    ∃ token, e.tokenHash = app.hash token ∧ p.MailsChange e.toEmail token := by
  obtain ⟨_, token, hrequest', hto, hhash, hmail⟩ := h.mail
  obtain rfl := Option.some.inj (hrequest.symm.trans hrequest')
  rw [(app.unicode.emailKey_eq_normalize_iff newEmail).mpr hagrees, ← hto] at hmail
  exact ⟨token, hhash, hmail⟩

/-- In every run, each change of the address of an account is a relocation of one of its users, and
no two share a code or a change. The link of a relocation goes to the address that the account moves
to, unless the rate limits spell the new address another way than the database. -/
theorem addresses_move_by_consent (huuid : Function.Injective app.uuid)
    (hrun : Run app { db := {}, served := 0, clock } steps s) :
    (∀ p ∈ steps, ∀ u ∈ p.before.db.users, ∀ u' ∈ p.after.db.users, u'.id = u.id →
      u'.email ≠ u.email → ∃ (t : Relocation) (user : CurrentUser), t.In app steps user ∧
        t.moved = p ∧ user.id = u.id ∧ user.email = u.email ∧ t.change.toEmail = u'.email) ∧
    (∀ (t : Relocation) (user : CurrentUser), t.In app steps user →
      ∀ newEmail, t.requested.request.newEmail = some newEmail →
        app.unicode.agrees newEmail = true →
          ∃ token, t.change.tokenHash = app.hash token ∧
            t.requested.MailsChange t.change.toEmail token) ∧
    ∀ (t t' : Relocation) (user user' : CurrentUser), t.In app steps user → t'.In app steps user' →
      (t.confirmation.id = t'.confirmation.id ∨ t.change.id = t'.change.id) → t = t' := by
  refine ⟨fun p hp u hu u' hu' hid hmoved => ?_,
    fun t user h newEmail hrequest hagrees => ?_,
    fun t t' user user' h h' hsame => ?_⟩
  · obtain ⟨x, m, rfl⟩ := List.append_of_mem hp
    obtain ⟨hx, htaken, -⟩ := (hrun.path (.start app clock)).around
    obtain ⟨e, hmoves, huser, hfrom, hto⟩ := moves_of_address huuid htaken hu hu' hid hmoved
    have hxrun := hrun.around.1
    obtain ⟨y, q, z, e₀, rfl, ⟨user, c, hrequests⟩, hsame⟩ := hx.born (fun s => s.db.emailChanges)
      EmailChange.asRequested (fun p e => ∃ user c, p.Requests app user c e) rfl
      (fun p hp => requests_or_before hp.1 (hp.2.keyed huuid).uniqueIds) e hmoves.change.1
    rw [hrequests.created.1] at hsame
    subst hsame
    obtain ⟨authorization, code, -, hconsent⟩ := hrequests.spends.consent
    obtain ⟨a, r, b, asker, rfl, hasks, hasker⟩ := hxrun.around.1.asked huuid hconsent
    refine ⟨⟨c.asAsked, e.asRequested, r, q, p⟩, user, ?_, rfl, ?_, ?_, hto⟩
    · exact ⟨⟨a, b, z, m, by simp⟩, ⟨asker, hasks, hasker⟩, ⟨c, rfl, hrequests⟩, ⟨e, rfl, hmoves⟩⟩
    · exact hrequests.account.1.symm.trans huser
    · exact hrequests.account.2.symm.trans hfrom
  · obtain ⟨c, -, hrequests⟩ := h.requests
    exact hrequests.mailed hrequest hagrees
  · rcases hsame with hcode | hchange
    · exact h.same_code huuid hrun h' hcode
    · exact h.same_change huuid hrun h' hchange

/-- In every run, an account that a step removes was deleted by one of its users: the purge finds
none, since every account is verified. -/
theorem accounts_go_by_consent (huuid : Function.Injective app.uuid)
    (hrun : Run app { db := {}, served := 0, clock } steps s) :
    (∀ p ∈ steps, ∀ u ∈ p.before.db.users, (∀ u' ∈ p.after.db.users, u'.id ≠ u.id) →
      ∃ (t : Closure) (user : CurrentUser), t.In app steps user ∧ t.closed = p ∧
        user.id = u.id ∧ user.email = u.email) ∧
    ∀ u ∈ s.db.users, u.emailVerifiedAt.isSome = true := by
  refine ⟨fun p hp u hu hgone => ?_, (Reachable.coherent huuid ⟨clock, steps, hrun⟩).verified⟩
  obtain ⟨x, m, rfl⟩ := List.append_of_mem hp
  obtain ⟨hx, htaken, -⟩ := (hrun.path (.start app clock)).around
  rcases closes_or_purges huuid htaken hu hgone with
    ⟨user, c, hcloses, huser, hemail⟩ | ⟨-, hnone, -⟩
  · obtain ⟨authorization, code, -, hconsent⟩ := hcloses.spends.consent
    obtain ⟨a, r, b, asker, rfl, hasks, hasker⟩ := hrun.around.1.asked huuid hconsent
    refine ⟨⟨c.asAsked, r, p⟩, user, ?_, rfl, huser, hemail⟩
    exact ⟨⟨a, b, m, by simp⟩, ⟨asker, hasks, hasker⟩, ⟨c, rfl, hcloses⟩⟩
  · -- an account is verified by the request that creates it
    have hverified := (htaken.2.coherent huuid).verified u hu
    rw [hnone] at hverified
    cases hverified

/-- In every run, a request that succeeds on a code was let through by a confirmation asked for
before, for the same action of the same user in the same session, within its time to live, and this
confirmation lets no other request through. -/
theorem codes_authorise_once (huuid : Function.Injective app.uuid)
    (hrun : Run app { db := {}, served := 0, clock } steps s) :
    ∀ p ∈ steps, ∀ authorization code action, p.request.Carries authorization code action →
      p.response = .ok .done → ∃ user c, p.Spends app user action c ∧
        (∃ a q b d asker, steps = a ++ q :: (b ++ p :: d) ∧ q.Asks app asker action c.asAsked ∧
          asker.id = user.id ∧ asker.sessionId = user.sessionId ∧ asker.email = user.email ∧
          p.time < q.time + codeTtl) ∧
        ∀ p' ∈ steps, ∀ user' action' c', p'.Spends app user' action' c' → c'.id = c.id →
          p' = p := by
  intro p hp authorization code action hcarries hdone
  obtain ⟨x, m, rfl⟩ := List.append_of_mem hp
  have hpath := hrun.path (.start app clock)
  obtain ⟨hx, htaken, -⟩ := hpath.around
  obtain ⟨user, c, hspends⟩ := spends_of_done htaken.1 (htaken.2.keyed huuid).uniqueIds hcarries
    hdone
  refine ⟨user, c, hspends, ?_, fun p' hp' user' action' c' hspends' hid => ?_⟩
  · obtain ⟨authorization', code', -, hconsent⟩ := hspends.consent
    obtain ⟨a, q, b, asker, rfl, hasks, hid, hsession, hemail⟩ := hrun.around.1.asked huuid hconsent
    refine ⟨a, q, b, m, asker, by simp, hasks, hid, hsession, hemail, ?_⟩
    have husable := hconsent.pending.usable
    simp only [Confirmation.usable, Bool.and_eq_true, decide_eq_true_eq] at husable
    exact lt_of_lt_of_eq husable.2 hasks.created.2.2
  · exact spent_once huuid hpath hp' hp ⟨user', action', c', hspends', hid⟩
      ⟨user, action, c, hspends, rfl⟩

end Agreed

section Example

/-- An account moves to another address, and the link is mailed there. -/
theorem addresses_move_by_consent_example : ∃ steps t user,
    Relocation.In exampleApp steps user t ∧ t.change.fromEmail = "bob@x.fr" ∧
      t.change.toEmail = "al@x.fr" ∧ ∃ token, t.requested.MailsChange "al@x.fr" token := by
  have hrun := exampleMove_run "al@x.fr"
  have hmoved : (script exampleApp exampleReply .empty (exampleMove "al@x.fr")).1.any (fun p =>
      p.before.db.users.any fun u => p.after.db.users.any fun u' =>
        u'.id = u.id && u.email = "bob@x.fr" && u'.email = "al@x.fr") = true := by
    decide +kernel
  have hspelled : ∀ p ∈ (script exampleApp exampleReply .empty (exampleMove "al@x.fr")).1,
      ∀ newEmail ∈ p.request.newEmail, exampleApp.unicode.agrees newEmail = true := by
    decide +kernel
  generalize script exampleApp exampleReply .empty (exampleMove "al@x.fr") = r at hrun hmoved hspelled
  simp only [List.any_eq_true, Bool.and_eq_true, decide_eq_true_eq] at hmoved
  obtain ⟨p, hp, u, hu, u', hu', ⟨hid, hfrom⟩, hto⟩ := hmoved
  have hne : u'.email ≠ u.email := by
    rw [hfrom, hto]
    decide
  obtain ⟨t, user, ht, -, -, hemail, hchange⟩ :=
    (addresses_move_by_consent exampleApp_uuid_injective hrun).1 p hp u hu u' hu' hid hne
  obtain ⟨c, -, hrequests⟩ := ht.requests
  refine ⟨r.1, t, user, ht, ?_, hchange.trans hto, ?_⟩
  · rw [hrequests.account.2, hemail, hfrom]
  · obtain ⟨newEmail, -, hrequest, -⟩ := hrequests.mail
    have hagrees := hspelled _ ht.mem.2.1 newEmail hrequest
    obtain ⟨token, -, hmail⟩ := (addresses_move_by_consent exampleApp_uuid_injective hrun).2.1 t user
      ht newEmail hrequest hagrees
    rw [hchange, hto] at hmail
    exact ⟨token, hmail⟩

/-- An account is deleted. -/
theorem accounts_go_by_consent_example : ∃ t user, Closure.In exampleApp exampleClosing user t ∧
    user.email = "bob@x.fr" := by
  have hgone : exampleDeletion.before.db.users.any (fun u => u.email = "bob@x.fr" &&
      exampleDeletion.after.db.users.all fun u' => u'.id ≠ u.id) = true := by
    decide +kernel
  simp only [List.any_eq_true, Bool.and_eq_true, decide_eq_true_eq, List.all_eq_true] at hgone
  obtain ⟨u, hu, hemail, hafter⟩ := hgone
  obtain ⟨t, user, ht, -, -, haddress⟩ := (accounts_go_by_consent exampleApp_uuid_injective
    exampleClosing_run).1 exampleDeletion (by simp [exampleClosing]) u hu hafter
  exact ⟨t, user, ht, haddress.trans hemail⟩

/-- The code of the deletion. -/
theorem codes_authorise_once_example : ∃ user c,
    exampleDeletion.Spends exampleApp user .deleteAccount c ∧
      ∀ p ∈ exampleClosing, ∀ user' action c', p.Spends exampleApp user' action c' →
        c'.id = c.id → p = exampleDeletion := by
  obtain ⟨user, c, hspends, -, honce⟩ := codes_authorise_once exampleApp_uuid_injective
    exampleClosing_run exampleDeletion (by simp [exampleClosing]) _ _ _ (.deleteAccount "ip")
    (by decide +kernel)
  exact ⟨user, c, hspends, honce⟩

end Example

end Bauth
