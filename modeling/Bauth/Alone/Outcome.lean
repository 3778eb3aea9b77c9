import Bauth.Alone.Served
import Bauth.Alone.Exchange
import Bauth.Alone.Me

/-!
# What a served request does

The outcomes of all handlers as one relation, and the proof that every request served from a
reachable state has its outcome.
-/

namespace Bauth

open Transaction Transaction.Program

variable {α : Type}

/-- The answer of an app route. -/
def ofApi (body : α → Body) (a : Except ApiError α) : Response := (a.map body).mapError .api

/-- The answer of an OAuth route. -/
def ofOAuth (body : α → Body) (a : Except OAuthError α) : Response := (a.map body).mapError .oauth

lemma ofApi_eq_error {body : α → Body} {a : Except ApiError α} {f : Failure}
    (h : .error f = ofApi body a) : ∃ e, a = .error e ∧ f = .api e := by
  cases a with
  | ok a => cases h
  | error e => exact ⟨e, rfl, Except.error.inj h⟩

lemma ofOAuth_eq_error {body : α → Body} {a : Except OAuthError α} {f : Failure}
    (h : .error f = ofOAuth body a) : ∃ e, a = .error e ∧ f = .oauth e := by
  cases a with
  | ok a => cases h
  | error e => exact ⟨e, rfl, Except.error.inj h⟩

/-- What the purge leaves: rows are deleted one after the other. -/
inductive Purged (d : Database) : Database → Prop
  | refl : Purged d d
  | loginFlow {d' : Database} (h : Purged d d') (id : Uuid) :
      Purged d (d'.deleteLoginFlows fun f => f.id = id)
  | emailChange {d' : Database} (h : Purged d d') (id : Uuid) :
      Purged d { d' with emailChanges := d'.emailChanges.filter fun c => c.id ≠ id }
  | confirmation {d' : Database} (h : Purged d d') (id : Uuid) :
      Purged d { d' with confirmations := d'.confirmations.filter fun c => c.id ≠ id }
  | session {d' : Database} (h : Purged d d') (id : Uuid) :
      Purged d (d'.deleteSessions fun s => s.id = id)
  | user {d' : Database} (h : Purged d d') (id : Uuid) :
      Purged d (d'.deleteUsers fun u => u.id = id)
  | signingKeys {d' : Database} (h : Purged d d') (keys : List SigningKeyRow) :
      Purged d { d' with signingKeys := keys }

lemma Purged.refreshTokens {d d' : Database} (h : Purged d d') :
    d'.refreshTokens.Sublist d.refreshTokens := by
  induction h with
  | refl => exact .refl _
  | session _ id ih => exact List.filter_sublist.trans ih
  | user _ id ih => exact List.filter_sublist.trans ih
  | _ => assumption

/-- What an operator's `UPDATE` of `disabled_at` leaves. -/
def Database.setDisabled (d : Database) (id : Uuid) (disabledAt : Option Time) : Database :=
  { d with
    users := updateWhere (fun u => u.id = id) (fun u => { u with disabledAt }) d.users }

/-- What a request answers, leaves in the database and has mailed. -/
inductive Request.Outcome (app : App) (env : Env sig) (process : ℕ) (d : Database) :
    Request → Response → Database → List Event → Prop
  | createFlow {input : Login.CreateFlowRequest} {a : Except ApiError Login.FlowResponse}
      {d' : Database} {events : List Event} (h : FlowCreated app env process input d a d') :
      Outcome app env process d (.createFlow input) (ofApi .flow a) d' events
  | requestMagicLink {ip email : String} {flowId : Uuid}
      {a : Except ApiError MagicLink.MagicLinkResponse} {d' : Database} {events : List Event}
      (h : LinkRequested app env process flowId email d a d' events) :
      Outcome app env process d (.requestMagicLink ip flowId email) (ofApi .magicLinkSent a) d'
        events
  | confirmMagicLink {ip token : String} {a : Except ApiError Login.LoginResponse}
      {d' : Database} {events : List Event} (h : LinkConfirmed app env process token d a d') :
      Outcome app env process d (.confirmMagicLink ip token) (ofApi .loggedIn a) d' events
  | confirmMagicCode {ip code : String} {flowId : Uuid} {a : Except ApiError Login.LoginResponse}
      {d' : Database} {events : List Event} (h : CodeConfirmed app env process flowId code d a d') :
      Outcome app env process d (.confirmMagicCode ip flowId code) (ofApi .loggedIn a) d' events
  | exchange {input : OAuth.TokenRequest} {a : Except OAuthError OAuth.TokenResponse}
      {d' : Database} {events : List Event} (hgrant : input.grantType = "authorization_code")
      (h : Exchanged app env process input d a d') :
      Outcome app env process d (.token input) (ofOAuth .tokens a) d' events
  | refresh {input : OAuth.TokenRequest} {a : Except OAuthError OAuth.TokenResponse}
      {d' : Database} {events : List Event} (hgrant : input.grantType = "refresh_token")
      (h : Refreshed app env process input d a d') :
      Outcome app env process d (.token input) (ofOAuth .tokens a) d' events
  | otherGrant {input : OAuth.TokenRequest} {events : List Event}
      (hcode : input.grantType ≠ "authorization_code")
      (hrefresh : input.grantType ≠ "refresh_token") :
      Outcome app env process d (.token input) (.error (.oauth .unsupportedGrantType)) d events
  | revoke {input : OAuth.RevokeRequest} {client : Client} {events : List Event}
      (hclient : app.client input.clientId = some client) :
      Outcome app env process d (.revoke input) (.ok .done)
        (d.revokeByToken (app.hash input.token) client.id env.now) events
  | revokeRefused {input : OAuth.RevokeRequest} {events : List Event}
      (hclient : app.client input.clientId = none) :
      Outcome app env process d (.revoke input) (.error (.oauth .invalidClient)) d events
  | getMe {authorization : Option String} {response : Response} {events : List Event} :
      Outcome app env process d (.getMe authorization) response d events
  | listSessions {authorization : Option String} {response : Response} {events : List Event} :
      Outcome app env process d (.listSessions authorization) response d events
  | revokeSession {authorization : Option String} {sessionId : Uuid} {a : Except ApiError Unit}
      {d' : Database} {events : List Event}
      (h : SessionEnded app env authorization sessionId d a d') :
      Outcome app env process d (.revokeSession authorization sessionId) (ofApi (fun _ => .done) a)
        d' events
  | requestConfirmation {ip : String} {authorization : Option String}
      {action : Me.ConfirmationAction} {a : Except ApiError Unit} {d' : Database}
      {events : List Event}
      (h : ConfirmationRequested app env process authorization action d a d') :
      Outcome app env process d (.requestConfirmation ip authorization action)
        (ofApi (fun _ => .done) a) d' events
  | changeEmail {ip code newEmail : String} {authorization : Option String}
      {a : Except ApiError Unit} {d' : Database} {mail : Option Email} {events : List Event}
      (h : ChangeRequested app env process authorization code newEmail d a d' mail)
      (hmail : ∀ e ∈ mail, .sent e ∈ events) :
      Outcome app env process d (.changeEmail ip authorization code newEmail)
        (ofApi (fun _ => .done) a) d' events
  | deleteAccount {ip code : String} {authorization : Option String} {a : Except ApiError Unit}
      {d' : Database} {events : List Event}
      (h : AccountDeleted app env authorization code d a d') :
      Outcome app env process d (.deleteAccount ip authorization code) (ofApi (fun _ => .done) a)
        d' events
  | confirmEmailChange {ip token : String} {a : Except ApiError Unit} {d' : Database}
      {events : List Event} (h : ChangeConfirmed app env token d a d') :
      Outcome app env process d (.confirmEmailChange ip token) (ofApi (fun _ => .done) a) d' events
  | purge {fuel : ℕ} {report : Option Purge.PurgeReport} {d' : Database} {events : List Event}
      (h : Purged d d') : Outcome app env process d (.purge fuel) (.ok (.purged report)) d' events
  | setDisabled {userId : Uuid} {disabledAt : Option Time} {events : List Event} :
      Outcome app env process d (.setDisabled userId disabledAt) (.ok .done)
        (d.setDisabled userId disabledAt) events

/-! ### Every served request has its outcome -/

section Serve

variable {app : App} {time : Time} {reply : (q : Question) → Reply q} {s : Server}

/-- A served request has the outcome its program is shown to have. -/
lemma serve_wp {request : Request} {Q : Response → Database → List Event → Prop}
    (h : Program.wp (S := sig) ⟨time, time, reply⟩ s.served (handle app request) ⟨s.db, none, []⟩
      fun a c => Q a c.db c.events) :
    Q (serve app time reply request s).response (serve app time reply request s).after.db
      (serve app time reply request s).events :=
  wp_serve h

/-- A statement of the purge deletes rows. -/
lemma Purged.sent {β : Type} {st : Statement sig β} {d d' : Database} (h : Purged d d')
    (hst : Sent app (· = .purgeDelete) st) (now : Time) (n : Draw) :
    Purged d ((st.run now n d').1 d') := by
  cases hst with
  | select q read => exact h
  | usersLock id => exact h
  | magicLinksLockAddress email => exact h
  | refreshTokensLock id => exact h
  | sessionsRevokeWhere q hq hmay p =>
    subst hmay
    simp [Query.Revokes] at hq
  | purgeLoginFlow _ present id => exact Purge.deleteRow_cases (h.loginFlow id) h
  | purgeEmailChange _ present id => exact Purge.deleteRow_cases (h.emailChange id) h
  | purgeConfirmation _ present id => exact Purge.deleteRow_cases (h.confirmation id) h
  | purgeSession _ present id => exact Purge.deleteRow_cases (h.session id) h
  | purgeUser _ present id => exact Purge.deleteRow_cases (h.user id) h
  | purgeSigningKeys _ => exact h.signingKeys _
  | _ => contradiction

lemma purge_purged (fuel : ℕ) : Purged s.db (serve app time reply (.purge fuel) s).after.db := by
  have hkeeps : ∃ k : ℕ, (fun (_ : ℕ) d => Purged s.db d) k (Program.serve (S := sig)
      ⟨time, time, reply⟩ s.served (handle app (.purge fuel)) s.db).db :=
    Program.serve_keeps (S := sig) (fun _ _ h => h) (fun st hst _ _ h => h.sent hst _ _)
      (handle_sends app (.purge fuel)) .refl
  exact hkeeps.choose_spec

lemma purge_response (fuel : ℕ) :
    ∃ report, (serve app time reply (.purge fuel) s).response = .ok (.purged report) := by
  have hsends : (handle app (.purge fuel)).Sends (Sent app fun q => q = .purgeDelete)
      fun a => ∃ report, a = .ok (.purged report) := by
    simp only [handle, Program.sends_bind, Program.pure_eq, Program.sends_ret]
    have hpurge : (Purge.purge fuel).Sends (Sent app fun q => q = .purgeDelete) fun _ => True :=
      purge_sends (by exact rfl) fuel
    exact hpurge.mono fun report _ => ⟨report, rfl⟩
  exact hsends.answer _ _ _

/-- Every request served from a state whose identifiers were drawn before has its outcome. -/
theorem serve_outcome (huuid : Function.Injective app.uuid) (hs : s.db.Keyed app s.served 0)
    (time : Time) (reply : (q : Question) → Reply q) (request : Request) :
    request.Outcome app ⟨time, time, reply⟩ s.served s.db (serve app time reply request s).response
      (serve app time reply request s).after.db (serve app time reply request s).events := by
  have hids := hs.uniqueIds
  have hfresh : s.db.FreshUsers app s.served := fun i h =>
    not_drawn huuid (Nat.zero_le i) (hs.users.drawn _ h)
  cases request with
  | createFlow input =>
    refine serve_wp ((wp_apiRoute _ _).mpr ?_)
    exact (createFlow_created input).mono fun a c h => .createFlow h.1
  | requestMagicLink ip flowId email =>
    refine serve_wp ((wp_apiRoute _ _).mpr ?_)
    refine (request_requested hids ip flowId email).mono fun a c h => ?_
    obtain ⟨sent, h, hsent⟩ := h
    rw [List.nil_append] at hsent
    exact hsent ▸ .requestMagicLink h
  | confirmMagicLink ip token =>
    refine serve_wp ((wp_apiRoute _ _).mpr ?_)
    exact (confirm_confirmed hids hfresh ip token).mono fun a c h => .confirmMagicLink h.1
  | confirmMagicCode ip flowId code =>
    refine serve_wp ((wp_apiRoute _ _).mpr ?_)
    exact (confirmCode_confirmed hids hfresh ip flowId code).mono fun a c h => .confirmMagicCode h
  | token input =>
    refine serve_wp ((wp_oauthRoute _ _).mpr ?_)
    simp only [OAuth.token, wp_ite]
    refine ⟨fun hgrant => ?_, fun hcode => ⟨fun hgrant => ?_, fun hrefresh => ?_⟩⟩
    · exact (authorizationCode_exchanged hids input).mono fun a c h => .exchange hgrant h.1
    · exact (refreshToken_refreshed hids input).mono fun a c h => .refresh hgrant h.1
    · exact .otherGrant hcode hrefresh
  | revoke input =>
    refine serve_wp ((wp_oauthRoute _ _).mpr ((revoke_revoked hids input).mono fun a c h => ?_))
    cases hclient : app.client input.clientId with
    | none =>
      simp only [hclient] at h
      obtain ⟨-, rfl, hdb⟩ := h
      exact hdb ▸ .revokeRefused hclient
    | some client =>
      simp only [hclient] at h
      obtain ⟨-, rfl, hdb⟩ := h
      exact hdb ▸ .revoke hclient
  | getMe authorization =>
    refine serve_wp ((wp_apiRoute _ _).mpr ((get_reads authorization).mono fun a c h => ?_))
    exact h.1 ▸ .getMe
  | listSessions authorization =>
    refine serve_wp ((wp_apiRoute _ _).mpr ((listSessions_reads authorization).mono fun a c h => ?_))
    exact h.1 ▸ .listSessions
  | revokeSession authorization sessionId =>
    refine serve_wp ((wp_apiRoute _ _).mpr ?_)
    exact (revokeSession_ended hids authorization sessionId).mono fun a c h => .revokeSession h.1
  | requestConfirmation ip authorization action =>
    refine serve_wp ((wp_apiRoute _ _).mpr ?_)
    exact (requestConfirmation_requested ip authorization action).mono fun a c h =>
      .requestConfirmation h
  | changeEmail ip authorization code newEmail =>
    refine serve_wp ((wp_apiRoute _ _).mpr ?_)
    exact (changeEmail_requested hids ip authorization code newEmail).mono fun a c h =>
      .changeEmail h.choose_spec.1 h.choose_spec.2
  | deleteAccount ip authorization code =>
    refine serve_wp ((wp_apiRoute _ _).mpr ?_)
    exact (deleteAccount_deleted hids ip authorization code).mono fun a c h => .deleteAccount h
  | confirmEmailChange ip token =>
    refine serve_wp ((wp_apiRoute _ _).mpr ?_)
    exact (confirmEmailChange_confirmed hids ip token).mono fun a c h => .confirmEmailChange h
  | purge fuel =>
    obtain ⟨report, hreport⟩ : ∃ report,
        (serve app time reply (.purge fuel) s).response = .ok (.purged report) := purge_response fuel
    exact hreport ▸ .purge (purge_purged fuel)
  | setDisabled userId disabledAt =>
    refine serve_wp ?_
    simp only [handle, Program.wp_bind]
    rw [Users.setDisabled, wp_update hids.users]
    exact .setDisabled

/-- The same of a step of a run. -/
theorem Served.Of.outcome {p : Served} (hp : p.Of app) (huuid : Function.Injective app.uuid)
    (hs : p.before.db.Keyed app p.before.served 0) :
    p.request.Outcome app ⟨p.time, p.time, p.reply⟩ p.before.served p.before.db p.response
      p.after.db p.events := by
  have h := serve_outcome huuid hs p.time p.reply p.request
  rw [← hp.serve] at h
  exact h

end Serve

end Bauth
