import Bauth.Serial.Tokens

/-!
# The code a link is confirmed for

A confirmed link answers an authorization code that the next request can exchange: the code is
unused, its account enabled and no session was opened with it. Only the flow of the link decides
whether the exchange is granted.
-/

namespace Bauth

open Transaction Transaction.Program

variable {app : App}

/-! ### Sessions and links of a reachable state -/

/-- The sessions of `d'` were opened with codes of `d`, as its own. -/
def Database.OpenedFrom (d d' : Database) : Prop :=
  ∀ s' ∈ d'.sessions, ∀ id ∈ s'.authorizationCodeId,
    (∃ s ∈ d.sessions, s.authorizationCodeId = some id) ∨ ∃ c ∈ d.authorizationCodes, c.id = id

lemma Database.OpenedFrom.of_eq {d d' : Database} (h : d'.sessions = d.sessions) :
    d.OpenedFrom d' := fun s hs _ hid => .inl ⟨s, h ▸ hs, hid⟩

/-- Revoking sessions opens none. -/
lemma Database.OpenedFrom.revoke {d d' : Database} {p : Session → Bool} {t : Time}
    (h : d'.sessions = updateWhere p (Session.revoke t) d.sessions) : d.OpenedFrom d' := by
  intro s' hs' id hid
  rw [h] at hs'
  obtain ⟨s, hs, rfl⟩ := List.mem_map.mp hs'
  refine .inl ⟨s, hs, ?_⟩
  split_ifs at hid <;> exact hid

lemma Request.Outcome.openedFrom {env : Program.Env sig} {process : ℕ} {d d' : Database}
    {input : OAuth.TokenRequest} {response : Response} {events : List Event}
    (h : (Request.token input).Outcome app env process d response d' events) :
    d.OpenedFrom d' := by
  cases h with
  | exchange _ h =>
    cases h with
    | refused => exact .of_eq rfl
    | replayed => exact .revoke rfl
    | @issued code redirectUri verifier client c f _ _ _ _ hc =>
      intro s' hs' id hid
      rcases List.mem_append.mp hs' with hs' | hs'
      · exact .inl ⟨s', hs', hid⟩
      · obtain rfl := List.mem_singleton.mp hs'
        obtain rfl := Option.some.inj hid
        exact .inr ⟨c, (List.mem_filter.mp (List.mem_of_head? hc)).1, rfl⟩
  | refresh _ h =>
    cases h with
    | @disabled client r s =>
      refine .revoke (p := fun S => S.id = s.id && S.revokedAt.isNone) (t := env.now) ?_
      simp only [Database.revokeSession, Database.settle_sessions]
    | stolen => exact .revoke rfl
    | issued => exact .of_eq (Database.settle_sessions _ _ _ _)
    | _ => exact .of_eq rfl
  | otherGrant => exact .of_eq rfl

/-- Every session was opened with a code drawn before. -/
theorem Reachable.opened_drawn (huuid : Function.Injective app.uuid) {s : Server}
    (hs : Reachable app s) :
    ∀ S ∈ s.db.sessions, ∀ id ∈ S.authorizationCodeId, Drawn app s.served 0 id := by
  refine hs.invariant (P := fun s => ∀ S ∈ s.db.sessions, ∀ id ∈ S.authorizationCodeId,
    Drawn app s.served 0 id) (fun _ _ hS => nomatch hS) fun p hp hreach h => ?_
  have hserved : p.after.served = p.before.served + 1 := by
    rw [hp.serve]
    rfl
  rw [hserved]
  by_cases htoken : ∃ input, p.request = .token input
  · obtain ⟨input, hrequest⟩ := htoken
    have hkeyed := hreach.keyed huuid
    have hout := hp.outcome huuid hkeyed
    rw [hrequest] at hout
    intro S hS id hid
    rcases hout.openedFrom S hS id hid with ⟨S₀, hS₀, hid₀⟩ | ⟨c, hc, rfl⟩
    · exact (h S₀ hS₀ id hid₀).next
    · exact (hkeyed.authorizationCodes.drawn _ (List.mem_map_of_mem hc)).next
  · have hmay : ∀ q, p.request.may q → q ≠ .sessionsCreate := by
      rintro q hq rfl
      cases hrequest : p.request with
      | token input => exact htoken ⟨input, hrequest⟩
      | _ => simp [hrequest, Request.may, Query.LogsIn, Query.ChecksCode] at hq
    have hkeeps : ∃ k, ∀ S ∈ p.after.db.sessions, ∀ id ∈ S.authorizationCodeId,
        Drawn app p.before.served k id := by
      rw [hp.serve]
      refine serve_keeps (J := fun k d => ∀ S ∈ d.sessions, ∀ id ∈ S.authorizationCodeId,
        Drawn app p.before.served k id) (fun k d h S hS id hid => (h S hS id hid).succ)
        (fun q k d d' hq hd hstep S hS id hid => ?_) h
      rcases hstep.sessions.mem hS with ⟨S₀, hS₀, hrow⟩ | ⟨hcreate, -⟩
      · cases hrow with
        | same => exact (hd S hS₀ id hid).succ
        | revoke => exact (hd S₀ hS₀ id hid).succ
        | forget => cases hid
      · exact absurd hcreate (hmay q hq)
    obtain ⟨k, hk⟩ := hkeeps
    exact fun S hS id hid => (hk S hS id hid).next

/-- No two links have the same token. -/
theorem Reachable.link_hashes (huuid : Function.Injective app.uuid) {s : Server}
    (hs : Reachable app s) : (s.db.magicLinks.map MagicLink.tokenHash).Nodup := by
  refine hs.invariant (P := fun s => (s.db.magicLinks.map MagicLink.tokenHash).Nodup)
    (fun _ => List.nodup_nil) fun p hp hreach h => ?_
  by_cases hlink : ∃ ip flowId email, p.request = .requestMagicLink ip flowId email
  · obtain ⟨ip, flowId, email, hrequest⟩ := hlink
    have hout := hp.outcome huuid (hreach.keyed huuid)
    rw [hrequest] at hout
    generalize p.after = s' at hout ⊢
    generalize p.response = response at hout
    generalize p.events = events at hout
    obtain ⟨db, served, clock⟩ := s'
    cases hout with
    | requestMagicLink hrequested =>
      cases hrequested with
      | mailed _ _ _ i j n hnew =>
        simp only [List.map_append, List.map_cons, List.map_nil, List.nodup_append]
        refine ⟨h, by simp, ?_⟩
        rintro x hx y hy rfl
        obtain ⟨l, hl, rfl⟩ := List.mem_map.mp hx
        exact hnew l hl (List.mem_singleton.mp hy)
      | _ => exact h
  · have hmay : ∀ q, p.request.may q → q ≠ .magicLinksCreate := by
      rintro q hq rfl
      cases hrequest : p.request with
      | requestMagicLink ip flowId email => exact hlink ⟨ip, flowId, email, hrequest⟩
      | _ => simp [hrequest, Request.may, Query.LogsIn, Query.ChecksCode] at hq
    have hkeeps : ∃ _ : ℕ, (p.after.db.magicLinks.map MagicLink.tokenHash).Nodup := by
      rw [hp.serve]
      refine serve_keeps (J := fun _ d => (d.magicLinks.map MagicLink.tokenHash).Nodup)
        (fun _ _ h => h) (fun q k d d' hq hd hstep => ?_) h
      refine hstep.magicLinks.nodup MagicLink.tokenHash (fun l l' hrow => ?_)
        (fun l hnew => absurd hnew.1 (hmay q hq)) hd
      cases hrow <;> rfl
    exact hkeeps.choose_spec

/-! ### The code that is answered -/

/-- What a login leaves for the exchange of its code, until the code expires. -/
structure Exchangeable (app : App) (d : Database) (flow : LoginFlow) (code : String) (now : Time)
    (c : AuthorizationCode) (f : LoginFlow) : Prop where
  code : (d.authorizationCodes.filter (d.exchangeable (app.hash code) now)).head? = some c
  found : d.loginFlows.find? (fun f => f.id = c.flowId) = some f
  same : f.clientId = flow.clientId ∧ f.redirectUri = flow.redirectUri ∧
    f.codeChallenge = flow.codeChallenge
  user : d.Enabled c.userId

/-- A row that is updated is in the table. -/
lemma mem_updateWhere_of {ρ : Type} {p : ρ → Bool} {f : ρ → ρ} {rows : List ρ} {r : ρ}
    (hr : r ∈ rows) (hp : p r = true) : f r ∈ updateWhere p f rows :=
  List.mem_map.mpr ⟨r, hr, if_pos hp⟩

lemma LoggedIn.exchangeable {env : Program.Env sig} {process : ℕ} {flowId : Uuid}
    {userId : Option Uuid} {email : String} {d d' : Database} {response : Login.LoginResponse}
    (h : LoggedIn app env process flowId userId email d response d') (hids : d'.UniqueIds)
    {now : Time} (hnow : now < env.utc + Login.authorizationCodeTtl) :
    ∃ flow ∈ d.loginFlows, flow.id = flowId ∧ ∃ c f i, c.id = app.uuid ⟨process, i⟩ ∧
      Exchangeable app d' flow response.code now c f ∧ d'.sessions = d.sessions := by
  obtain ⟨haccount, henabled, -, hf, hid, hpending, i, j, hnew⟩ := h
  rename_i u flow w
  obtain ⟨users, rfl, hu⟩ := haccount.tables
  have hcompleted : { flow with completedAt := some env.now } ∈
      updateWhere (fun f => f.id = flowId && f.pending env.now)
        (fun f => { f with completedAt := some env.now }) d.loginFlows :=
    mem_updateWhere_of (f := fun f : LoginFlow => { f with completedAt := some env.now }) hf
      (by simp [hid, hpending])
  refine ⟨flow, hf, hid, newCode app process env.now flowId u.id env.utc i j,
    { flow with completedAt := some env.now }, i, rfl, ⟨?_, ?_, ⟨rfl, rfl, rfl⟩, ?_⟩, rfl⟩
  · refine congrArg List.head? (filter_eq_singleton hids.authorizationCodes
      (r := newCode app process env.now flowId u.id env.utc i j) (by simp) ?_ fun c hc hhash => ?_)
    · simpa [Database.exchangeable, AuthorizationCode.usable, newCode, Database.completeFlow,
        Database.verifyEmail, App.generateToken] using
        ⟨decide_eq_true hnow, _, hcompleted, decide_eq_true hid⟩
    · rcases List.mem_append.mp hc with hc | hc
      · simp only [Database.exchangeable, Bool.and_eq_true, decide_eq_true_eq] at hhash
        exact absurd hhash.1.1 (hnew c hc).1
      · rw [List.mem_singleton.mp hc]
  · exact (find?_key_iff hids.loginFlows).mpr ⟨hcompleted, hid⟩
  · refine ⟨{ u with emailVerifiedAt := some (u.emailVerifiedAt.getD env.now)
                     updatedAt := env.now }, ?_, henabled⟩
    refine (find?_key_iff hids.users).mpr ⟨?_, rfl⟩
    exact mem_updateWhere_of (f := fun u : User =>
      { u with emailVerifiedAt := some (u.emailVerifiedAt.getD env.now), updatedAt := env.now })
      hu (by simp)

/-- A confirmed link of a reachable state. -/
lemma confirmed_link (huuid : Function.Injective app.uuid) {p : Served} (hp : p.Of app)
    (hreach : Reachable app p.before) {ip token : String}
    (hrequest : p.request = .confirmMagicLink ip token) {response : Login.LoginResponse}
    (hresponse : p.response = .ok (.loggedIn response)) :
    ∃ l ∈ p.before.db.magicLinks, l.tokenHash = app.hash token ∧
      LoggedIn app ⟨p.time, p.time, p.reply⟩ p.before.served l.flowId l.userId l.email
        (p.before.db.consumeLink p.time (app.hash token)) response p.after.db := by
  have hout := hp.outcome huuid (hreach.keyed huuid)
  rw [hrequest, hresponse] at hout
  generalize hafter : p.after.db = d' at hout ⊢
  generalize hanswer : (.ok (.loggedIn response) : Response) = answer at hout
  cases hout with
  | confirmMagicLink h =>
    cases h with
    | refused => cases hanswer
    | loggedIn hl htoken husable hlogin =>
      cases hanswer
      exact ⟨_, hl, htoken, hlogin⟩

section Answers

variable {p : Served} {ip token redirectUri verifier : String}
  {response : Login.LoginResponse}

/-- The code of a login less than a minute ago is exchanged for tokens exactly where its flow is
the client's. -/
lemma LoggedIn.answers (huuid : Function.Injective app.uuid)
    (hsecret : Function.Injective app.secret) (hsha : Function.Injective app.sha256)
    (hp : p.Of app) (hreach : Reachable app p.before) {flowId : Uuid} {userId : Option Uuid}
    {email : String} {d : Database} (hd : d.sessions = p.before.db.sessions)
    (hlogin : LoggedIn app ⟨p.time, p.time, p.reply⟩ p.before.served flowId userId email d response
      p.after.db) (input : OAuth.TokenRequest) (time : Time) (reply : (q : Question) → Reply q)
    (hgrant : input.grantType = "authorization_code") (hcode : input.code = some response.code)
    (hredirect : input.redirectUri = some redirectUri)
    (hverifier : input.codeVerifier = some verifier)
    (htime : time < p.time + Login.authorizationCodeTtl)
    (hkey : ((reply .signingKeys : SigningKeys).signingKey time).isSome = true) :
    ∃ f ∈ d.loginFlows, f.id = flowId ∧
      ((∃ tokens, (serve app time reply (.token input) p.after).response = .ok (.tokens tokens)) ↔
        (app.client input.clientId).isSome = true ∧ f.clientId = input.clientId ∧
          f.redirectUri = redirectUri ∧ app.pkceVerify verifier f.codeChallenge = true) := by
  have hreach' : Reachable app p.after := hreach.run hp.run
  have hids := (hreach'.keyed huuid).uniqueIds
  obtain ⟨flow, hflow, hid, c, f, i, hc, hex, hsessions⟩ := hlogin.exchangeable hids htime
  refine ⟨flow, hflow, hid, ?_⟩
  have hopened : ∀ S ∈ p.after.db.sessions, S.authorizationCodeId ≠ some c.id := by
    intro S hS hSc
    rw [hsessions, hd] at hS
    have hdrawn := hreach.opened_drawn huuid S hS c.id hSc
    rw [hc] at hdrawn
    exact not_drawn huuid (Nat.zero_le i) hdrawn
  have hwp : Handler.wp ⟨time, time, reply⟩ p.after.served (OAuth.authorizationCode app input)
      ⟨p.after.db, none, []⟩ _ :=
    authorizationCode_answers hids hcode hredirect hverifier hex.code hex.found hex.user hopened
      (hreach'.not_collides huuid hsecret hsha) hkey
  rw [hex.same.1, hex.same.2.1, hex.same.2.2] at hwp
  refine serve_wp (Q := fun response _ _ => (∃ tokens, response = .ok (.tokens tokens)) ↔ _) ?_
  refine (wp_oauthRoute _ _).mpr ?_
  simp only [OAuth.token, hgrant]
  refine hwp.mono fun a c h => ?_
  rw [← h]
  cases a with
  | ok a => simp [Except.map, Except.mapError]
  | error e => simp [Except.map, Except.mapError]

/-- The code of a link confirmed less than a minute ago is exchanged for tokens exactly where the
flow of the link is the client's. -/
theorem exchange_answers (huuid : Function.Injective app.uuid)
    (hsecret : Function.Injective app.secret) (hsha : Function.Injective app.sha256)
    (hp : p.Of app) (hreach : Reachable app p.before)
    (hrequest : p.request = .confirmMagicLink ip token)
    (hresponse : p.response = .ok (.loggedIn response)) (input : OAuth.TokenRequest) (time : Time)
    (reply : (q : Question) → Reply q)
    (hgrant : input.grantType = "authorization_code") (hcode : input.code = some response.code)
    (hredirect : input.redirectUri = some redirectUri)
    (hverifier : input.codeVerifier = some verifier)
    (htime : time < p.time + Login.authorizationCodeTtl)
    (hkey : ((reply .signingKeys : SigningKeys).signingKey time).isSome = true) :
    ∃ l ∈ p.before.db.magicLinks, l.tokenHash = app.hash token ∧
      ∃ f ∈ p.before.db.loginFlows, f.id = l.flowId ∧
        ((∃ tokens, (serve app time reply (.token input) p.after).response = .ok (.tokens tokens)) ↔
          (app.client input.clientId).isSome = true ∧ f.clientId = input.clientId ∧
            f.redirectUri = redirectUri ∧ app.pkceVerify verifier f.codeChallenge = true) := by
  obtain ⟨l, hl, htoken, hlogin⟩ := confirmed_link huuid hp hreach hrequest hresponse
  have hsame : (p.before.db.consumeLink p.time (app.hash token)).sessions = p.before.db.sessions := rfl
  have hanswers := hlogin.answers huuid hsecret hsha hp hreach hsame input time reply hgrant hcode
    hredirect hverifier htime hkey
  exact ⟨l, hl, htoken, hanswers⟩

end Answers

end Bauth
