import Bauth.Alone.Refresh

/-!
# Exchanging an authorization code and logging out, run alone

What `POST /oauth/token` with `grant_type=authorization_code` and `POST /oauth/revoke` answer and
leave in the database, case by case, when nothing else runs.
-/

namespace Bauth

open Transaction Transaction.Program

/-! ### What the handlers write -/

namespace Database

variable (d : Database)

/-- The code has this hash, is usable and has its flow. -/
def exchangeable (codeHash : Bytes) (now : Time) (c : AuthorizationCode) : Bool :=
  c.codeHash = codeHash && c.usable now && d.loginFlows.any fun f => f.id = c.flowId

/-- `authorization_codes::consume`. -/
def consumeCode (codeHash : Bytes) (now : Time) : Database :=
  { d with
    authorizationCodes := updateWhere (d.exchangeable codeHash now)
      (fun c => { c with consumedAt := some now }) d.authorizationCodes }

/-- `sessions::revoke_by_authorization_code`. -/
def revokeOpenedBy (codeId : Uuid) (now : Time) : Database :=
  { d with
    sessions := updateWhere (fun s => s.authorizationCodeId = some codeId && s.revokedAt.isNone)
      (Session.revoke now) d.sessions }

/-- `sessions::revoke_by_refresh_token`. -/
def revokeByToken (tokenHash : Bytes) (clientId : String) (now : Time) : Database :=
  { d with
    sessions := updateWhere (fun s => s.clientId = clientId &&
        (d.refreshTokens.any fun r => r.sessionId = s.id && r.tokenHash = tokenHash) &&
        s.revokedAt.isNone) (Session.revoke now) d.sessions }

end Database

/-- The session opened with one draw. -/
def newSession (app : App) (process : ℕ) (userId : Uuid) (clientId : String) (codeId : Uuid)
    (utc now : Time) (i : ℕ) : Session where
  id := app.uuid ⟨process, i⟩
  userId := userId
  clientId := clientId
  authorizationCodeId := some codeId
  expiresAt := utc + sessionTtl
  revokedAt := none
  createdAt := now

/-! ### The pieces of the handlers -/

section Pieces

variable {env : Env sig} {process : ℕ} {d v : Database} {events : List Event}

lemma wp_consumeCode (hids : v.UniqueIds) (codeHash : Bytes)
    {Q : Option AuthorizationCodes.ConsumedCode → Point sig → Prop} :
    Program.wp env process (query (AuthorizationCodes.consume codeHash)) ⟨d, some v, events⟩ Q ↔
      Q (do
          let c ← (v.authorizationCodes.filter (v.exchangeable codeHash env.now)).head?
          let f ← v.loginFlows.find? fun f => f.id = c.flowId
          return {
            id := c.id
            userId := c.userId
            clientId := f.clientId
            redirectUri := f.redirectUri
            codeChallenge := f.codeChallenge })
        ⟨d, some (v.consumeCode codeHash env.now), events⟩ := by
  rw [AuthorizationCodes.consume, wp_update hids.authorizationCodes]
  rfl

lemma wp_openSession {app : App} {userId codeId : Uuid} {clientId : String}
    (huser : ∃ u ∈ v.users, u.id = userId) (hcode : ∃ c ∈ v.authorizationCodes, c.id = codeId)
    {Q : Except OAuthError OpenedSession → Point sig → Prop}
    (hfail : ∀ w, (∃ s ∈ v.sessions, s.authorizationCodeId = some codeId) ∨
      (∃ j, v.Collides app process j) → Q (.error .serverError) ⟨d, some w, events⟩)
    (hopen : ∀ i i' j, (∀ s ∈ v.sessions, s.authorizationCodeId ≠ some codeId) →
      ¬v.Collides app process j →
      Q (.ok { sessionId := app.uuid ⟨process, i⟩
               refreshToken := (app.generateToken ⟨process, j⟩).plain })
        ⟨d, some { v with
          sessions := v.sessions ++
            [newSession app process userId clientId codeId env.utc env.now i]
          refreshTokens := v.refreshTokens ++
            [newToken app process (app.uuid ⟨process, i⟩) none env.now i' j] }, events⟩) :
    Handler.wp env process (openSession app userId clientId codeId) ⟨d, some v, events⟩ Q := by
  have hu : (v.users.any fun u => u.id = userId) = true := by simpa using huser
  have hc : (v.authorizationCodes.any fun c => c.id = codeId) = true := by simpa using hcode
  simp only [openSession, wp_bind, wp_perform, wp_clock, wp_runChecked, wp_query, Point.view,
    Option.getD_some]
  intro i
  by_cases hopened : (v.sessions.any fun s => s.authorizationCodeId = some codeId) = true
  · have hrun : (Sessions.create app userId clientId codeId (env.utc + sessionTtl)).run env.now
        ⟨process, i⟩ v = (fun d => d, .error .uniqueViolation) := if_pos hopened
    simp only [hrun, Except.mapError, Point.write, FromDbError.fromDbError]
    exact hfail v (.inl (by simpa using hopened))
  · have hrun : (Sessions.create app userId clientId codeId (env.utc + sessionTtl)).run env.now
        ⟨process, i⟩ v = (fun d => { d with
          sessions := d.sessions ++
            [newSession app process userId clientId codeId env.utc env.now i] },
          .ok (app.uuid ⟨process, i⟩)) := by
      refine (if_neg hopened).trans (if_pos ?_)
      rw [hu, hc, Bool.and_self]
    simp only [hrun, Except.mapError, Point.write]
    rw [wp_newRefreshToken]
    · refine fun i' j => ⟨fun hcollides => hfail _ (.inr ⟨j, hcollides⟩), fun hnew => ?_⟩
      refine hopen i i' j (fun s hs hcode => hopened ?_) hnew
      simpa using ⟨s, hs, hcode⟩
    · exact ⟨newSession app process userId clientId codeId env.utc env.now i, by simp, rfl⟩
    · intro p hp
      cases hp

lemma wp_rejectUnusableCode (hids : d.UniqueIds) (codeHash : Bytes)
    {Q : Except OAuthError OAuthError → Point sig → Prop} :
    Handler.wp env process (OAuth.rejectUnusableCode codeHash) ⟨d, none, events⟩ Q ↔
      Q (.ok (.invalidGrant "code is invalid, expired or already used"))
        ⟨match d.authorizationCodes.find? fun c => c.codeHash = codeHash && c.consumedAt.isSome with
          | some c => d.revokeOpenedBy c.id env.now
          | none => d, none, events⟩ := by
  simp only [OAuth.rejectUnusableCode, AuthorizationCodes.findConsumed, wp_bind, wp_run, wp_select,
    Point.view, Option.getD_none]
  cases d.authorizationCodes.find? fun c => c.codeHash = codeHash && c.consumedAt.isSome with
  | none => simp
  | some c =>
    simp only [Option.map_some, wp_bind, wp_perform, Sessions.revokeByAuthorizationCode,
      Program.wp_bind, Sessions.revokeWhere]
    rw [wp_update hids.sessions]
    rfl

end Pieces

/-! ### The exchange -/

/-- What exchanging a code answers and leaves in the database. -/
inductive Exchanged (app : App) (env : Env sig) (process : ℕ) (input : OAuth.TokenRequest)
    (d : Database) : Except OAuthError OAuth.TokenResponse → Database → Prop
  | refused (e : OAuthError)
      (h : e = .invalidGrant "code is invalid, expired or already used" → ∀ code ∈ input.code,
        d.authorizationCodes.find?
          (fun c => c.codeHash = app.hash code && c.consumedAt.isSome) = none) :
      Exchanged app env process input d (.error e) d
  | replayed {code : String} {c : AuthorizationCode} (hcode : input.code = some code)
      (hc : d.authorizationCodes.find?
        (fun c => c.codeHash = app.hash code && c.consumedAt.isSome) = some c) :
      Exchanged app env process input d
        (.error (.invalidGrant "code is invalid, expired or already used"))
        (d.revokeOpenedBy c.id env.now)
  | issued {code redirectUri verifier : String} {client : Client} {c : AuthorizationCode}
      {f : LoginFlow} (hcode : input.code = some code)
      (hredirect : input.redirectUri = some redirectUri)
      (hverifier : input.codeVerifier = some verifier)
      (hclient : app.client input.clientId = some client)
      (hc : (d.authorizationCodes.filter (d.exchangeable (app.hash code) env.now)).head? = some c)
      (hf : d.loginFlows.find? (fun f => f.id = c.flowId) = some f)
      (hflow : f.clientId = client.id ∧ f.redirectUri = redirectUri ∧
        app.pkceVerify verifier f.codeChallenge = true)
      (huser : d.Enabled c.userId)
      (hopened : ∀ s ∈ d.sessions, s.authorizationCodeId ≠ some c.id) (key : LoadedKey)
      (i i' j k : ℕ) (hnew : ¬d.Collides app process j) :
      Exchanged app env process input d
        (.ok {
          accessToken := (newAccess app process key c.userId (app.uuid ⟨process, i⟩) client
            env.utc k).token
          expiresIn := (newAccess app process key c.userId (app.uuid ⟨process, i⟩) client
            env.utc k).expiresIn
          refreshToken := (app.generateToken ⟨process, j⟩).plain })
        { d.consumeCode (app.hash code) env.now with
          sessions := d.sessions ++
            [newSession app process c.userId client.id c.id env.utc env.now i]
          refreshTokens := d.refreshTokens ++
            [newToken app process (app.uuid ⟨process, i⟩) none env.now i' j] }

theorem authorizationCode_exchanged {app : App} {env : Env sig} {process : ℕ} {d : Database}
    {events : List Event} (hids : d.UniqueIds) (input : OAuth.TokenRequest) :
    Handler.wp env process (OAuth.authorizationCode app input) ⟨d, none, events⟩
      fun a c => Exchanged app env process input d a c.db ∧ c.events = events := by
  simp only [OAuth.authorizationCode, wp_bind, OAuth.required]
  cases hcode : input.code with
  | none => exact ⟨.refused _ (by simp), rfl⟩
  | some code =>
    cases hredirect : input.redirectUri with
    | none => exact ⟨.refused _ (by simp), rfl⟩
    | some redirectUri =>
      cases hverifier : input.codeVerifier with
      | none => exact ⟨.refused _ (by simp), rfl⟩
      | some verifier =>
        cases hclient : app.client input.clientId with
        | none => exact ⟨.refused _ (by simp), rfl⟩
        | some client =>
          simp only [wp_pure, wp_bind, wp_perform, wp_start, wp_run, wp_consumeCode hids,
            throw_bind]
          cases hc : (d.authorizationCodes.filter
              (d.exchangeable (app.hash code) env.now)).head? with
          | none =>
            simp only [Option.bind_eq_bind, Option.bind_none, wp_bind, wp_perform, wp_abandon,
              wp_rejectUnusableCode hids, wp_throw]
            cases hold : d.authorizationCodes.find? fun c =>
                c.codeHash = app.hash code && c.consumedAt.isSome with
            | none =>
              refine ⟨.refused _ fun _ code' hcode' => ?_, trivial⟩
              obtain rfl := Option.some.inj (hcode.symm.trans hcode')
              exact hold
            | some c => exact ⟨.replayed hcode hold, trivial⟩
          | some c =>
            have hmem := List.mem_of_head? hc
            simp only [List.mem_filter, Database.exchangeable, Bool.and_eq_true] at hmem
            obtain ⟨hcmem, -, hflow⟩ := hmem
            obtain ⟨f, hf⟩ : ∃ f, d.loginFlows.find? (fun f => f.id = c.flowId) = some f := by
              rw [← Option.isSome_iff_exists, List.find?_isSome]
              simpa using hflow
            simp only [hf, Option.bind_eq_bind, Option.bind_some, Option.pure_def, wp_ite, wp_throw,
              wp_bind, wp_run, Users.findById, wp_select, Point.view, Option.getD_some]
            refine ⟨fun _ => ⟨.refused _ (by simp), trivial⟩, fun hsame => ?_⟩
            refine ⟨fun _ => ⟨.refused _ (by simp), trivial⟩, fun huri => ?_⟩
            refine ⟨fun _ => ⟨.refused _ (by simp), trivial⟩, fun hpkce => ?_⟩
            refine ⟨fun _ => ⟨.refused _ (by simp), trivial⟩, fun huser => ?_⟩
            have henabled : d.Enabled c.userId := by
              rw [Database.enabled_iff, ← Bool.not_eq_true]
              exact huser
            have hexists := henabled
            obtain ⟨u, hu, -⟩ := hexists
            refine wp_openSession ?_ ?_ (fun w _ => ⟨.refused _ (by simp), rfl⟩) fun i i' j hopened hnew => ?_
            · exact ⟨u, List.mem_of_find?_eq_some hu, by simpa using List.find?_some hu⟩
            · have hid : c.id ∈ (d.consumeCode (app.hash code) env.now).authorizationCodes.map
                  AuthorizationCode.id := by
                simp only [Database.consumeCode]
                rw [map_updateWhere]
                · exact List.mem_map_of_mem hcmem
                · exact fun _ => rfl
              exact List.mem_map.mp hid
            simp only [wp_perform, wp_clock, wp_issue]
            intro k
            cases hkey : SigningKeys.signingKey (env.reply .signingKeys) env.utc with
            | none => exact ⟨.refused _ (by simp), rfl⟩
            | some key =>
              refine ⟨.issued hcode hredirect hverifier hclient hc hf ⟨?_, ?_, ?_⟩ henabled hopened
                key i i' j k hnew, rfl⟩
              · simpa using hsame
              · simpa using huri
              · simpa using hpkce

/-- A code that can be exchanged is, for tokens, exactly where its flow is the client's. -/
theorem authorizationCode_answers {app : App} {env : Env sig} {process : ℕ} {d : Database}
    {events : List Event} (hids : d.UniqueIds) {input : OAuth.TokenRequest}
    {code redirectUri verifier : String} {c : AuthorizationCode} {f : LoginFlow}
    (hcode : input.code = some code) (hredirect : input.redirectUri = some redirectUri)
    (hverifier : input.codeVerifier = some verifier)
    (hc : (d.authorizationCodes.filter (d.exchangeable (app.hash code) env.now)).head? = some c)
    (hf : d.loginFlows.find? (fun f => f.id = c.flowId) = some f) (henabled : d.Enabled c.userId)
    (hopened : ∀ s ∈ d.sessions, s.authorizationCodeId ≠ some c.id)
    (hnew : ∀ j, ¬d.Collides app process j)
    (hkey : (SigningKeys.signingKey (env.reply .signingKeys) env.utc).isSome = true) :
    Handler.wp env process (OAuth.authorizationCode app input) ⟨d, none, events⟩
      fun a _ => (∃ tokens, a = .ok tokens) ↔
        (app.client input.clientId).isSome = true ∧ f.clientId = input.clientId ∧
          f.redirectUri = redirectUri ∧ app.pkceVerify verifier f.codeChallenge = true := by
  have hcmem := (List.mem_filter.mp (List.mem_of_head? hc)).1
  simp only [OAuth.authorizationCode, wp_bind, OAuth.required, hcode, hredirect, hverifier]
  cases hclient : app.client input.clientId with
  | none => simp
  | some client =>
    have hclientId := App.client_id hclient
    simp only [wp_pure, wp_bind, wp_perform, wp_start, wp_run, wp_consumeCode hids, throw_bind, hc,
      hf, Option.bind_eq_bind, Option.bind_some, Option.pure_def, wp_ite, wp_throw,
      Users.findById, wp_select, Point.view, Option.getD_some]
    refine ⟨fun hother => ?_, fun hsame => ⟨fun huri => ?_, fun huri => ⟨fun hpkce => ?_,
      fun hpkce => ⟨fun hdisabled => ?_, fun _ => ?_⟩⟩⟩⟩
    · refine iff_of_false (by simp) fun h => hother ?_
      rw [hclientId, h.2.1]
    · exact iff_of_false (by simp) fun h => huri h.2.2.1
    · refine iff_of_false (by simp) fun h => ?_
      simp [h.2.2.2] at hpkce
    · rw [Database.enabled_iff] at henabled
      exact absurd (hdisabled.symm.trans henabled) (by simp)
    obtain ⟨u, hu, -⟩ := henabled
    refine wp_openSession ?_ ?_ (fun w hw => ?_) fun i i' j _ _ => ?_
    · exact ⟨u, List.mem_of_find?_eq_some hu, by simpa using List.find?_some hu⟩
    · have hid : c.id ∈ (d.consumeCode (app.hash code) env.now).authorizationCodes.map
          AuthorizationCode.id := by
        simp only [Database.consumeCode]
        rw [map_updateWhere]
        · exact List.mem_map_of_mem hcmem
        · exact fun _ => rfl
      exact List.mem_map.mp hid
    · rcases hw with ⟨s, hs, hsc⟩ | ⟨j, hj⟩
      · exact absurd hsc (hopened s hs)
      · exact absurd hj (hnew j)
    · simp only [wp_clock, wp_issue]
      intro k
      obtain ⟨key, hkey⟩ := Option.isSome_iff_exists.mp hkey
      rw [hkey]
      refine iff_of_true ⟨_, rfl⟩ ⟨rfl, ?_, not_not.mp huri, by simpa using hpkce⟩
      rw [not_not.mp hsame, hclientId]

/-! ### Logout -/

theorem revoke_revoked {app : App} {env : Env sig} {process : ℕ} {d : Database}
    {events : List Event} (hids : d.UniqueIds) (input : OAuth.RevokeRequest) :
    Handler.wp env process (OAuth.revoke app input) ⟨d, none, events⟩
      fun a c => c.events = events ∧ match app.client input.clientId with
        | some client =>
          a = .ok () ∧ c.db = d.revokeByToken (app.hash input.token) client.id env.now
        | none => a = .error .invalidClient ∧ c.db = d := by
  simp only [OAuth.revoke]
  cases app.client input.clientId with
  | none => exact ⟨rfl, rfl, rfl⟩
  | some client =>
    simp only [wp_bind, wp_perform, Sessions.revokeByRefreshToken, Program.wp_bind,
      Sessions.revokeWhere]
    rw [wp_update hids.sessions]
    exact ⟨rfl, rfl, rfl⟩

end Bauth
