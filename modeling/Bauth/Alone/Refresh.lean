import Bauth.Alone.Handler

/-!
# Refreshing, run alone

What `POST /oauth/token` with `grant_type=refresh_token` does to the database, case by case, when
nothing else runs.
-/

namespace Bauth

open Transaction Transaction.Program

/-! ### The verdict on a presented token -/

/-- Why a presented refresh token is accepted, or that it is not. -/
inductive Verdict where
  | firstUse
  | grace
  | retry
  | stolen
  deriving DecidableEq

namespace Database

variable (d : Database)

/-- The decision on the token `r`, presented at `utc`. -/
def verdict (r : RefreshToken) (utc : Time) : Verdict :=
  match r.supersededAt, r.rotatedAt with
  | some _, _ => .stolen
  | none, none => .firstUse
  | none, some rotatedAt =>
    if utc - rotatedAt ≤ refreshReuseGrace then .grace
    else if d.usedSuccessor r.id then .stolen else .retry

/-- What the decision writes on the tokens. -/
def settle (r : RefreshToken) (utc now : Time) : Database :=
  match d.verdict r utc with
  | .firstUse =>
    { d with
      refreshTokens := updateWhere (fun r' => r'.id = r.id && r'.rotatedAt.isNone)
        (fun r' => { r' with rotatedAt := some now }) d.refreshTokens }
  | .retry =>
    { d with
      refreshTokens := updateWhere (fun r' => r'.parentId = some r.id && r'.unused)
        (fun r' => { r' with supersededAt := some now }) d.refreshTokens }
  | .grace | .stolen => d

@[simp] lemma settle_users (r : RefreshToken) (utc now : Time) :
    (d.settle r utc now).users = d.users := by
  unfold settle
  split <;> rfl

@[simp] lemma settle_sessions (r : RefreshToken) (utc now : Time) :
    (d.settle r utc now).sessions = d.sessions := by
  unfold settle
  split <;> rfl

/-- A column other than the two timestamps stays. -/
lemma map_settle {κ : Type} (f : RefreshToken → κ)
    (hf : ∀ r a b, f { r with rotatedAt := a, supersededAt := b } = f r)
    (r : RefreshToken) (utc now : Time) :
    (d.settle r utc now).refreshTokens.map f = d.refreshTokens.map f := by
  unfold settle
  split
  · exact map_updateWhere f fun r => hf r _ _
  · exact map_updateWhere f fun r => hf r _ _
  · rfl
  · rfl

/-- `sessions::revoke`. -/
def revokeSession (id : Uuid) (now : Time) : Database :=
  { d with
    sessions := updateWhere (fun s => s.id = id && s.revokedAt.isNone) (Session.revoke now)
      d.sessions }

variable {d : Database}

lemma UniqueIds.settle (h : d.UniqueIds) (r : RefreshToken) (utc now : Time) :
    (d.settle r utc now).UniqueIds := by
  unfold Database.settle
  split
  · refine { h with refreshTokens := ?_ }
    rw [map_updateWhere]
    · exact h.refreshTokens
    · exact fun _ => rfl
  · refine { h with refreshTokens := ?_ }
    rw [map_updateWhere]
    · exact h.refreshTokens
    · exact fun _ => rfl
  · exact h
  · exact h

/-- The hash of one draw is taken. -/
def Collides (d : Database) (app : App) (process j : ℕ) : Prop :=
  (app.generateToken ⟨process, j⟩).hash ∈ d.refreshTokens.map RefreshToken.tokenHash

@[simp] lemma settle_collides {app : App} {process j : ℕ} (r : RefreshToken) (utc now : Time) :
    (d.settle r utc now).Collides app process j ↔ d.Collides app process j := by
  rw [Collides, map_settle d RefreshToken.tokenHash fun _ _ _ => rfl, Collides]

/-- The account is there and enabled. -/
def Enabled (d : Database) (id : Uuid) : Prop :=
  ∃ u, d.users.find? (fun u => u.id = id) = some u ∧ u.disabledAt = none

lemma enabled_iff {id : Uuid} :
    d.Enabled id ↔
      ((d.users.find? fun u => u.id = id).all fun u => u.disabledAt.isSome) = false := by
  unfold Enabled
  cases d.users.find? fun u => u.id = id with
  | none => simp
  | some u => simp

instance {id : Uuid} : Decidable (d.Enabled id) := decidable_of_iff _ enabled_iff.symm

end Database

/-! ### The pieces of the handler -/

section Pieces

variable {env : Env sig} {process : ℕ} {d v : Database} {events : List Event}

namespace RefreshTokens

/-- The columns `find_for_update` returns of a token and its session. -/
def withSession (r : RefreshToken) (s : Session) : RefreshTokenWithSession where
  id := r.id
  rotatedAt := r.rotatedAt
  supersededAt := r.supersededAt
  sessionId := s.id
  userId := s.userId
  clientId := s.clientId
  sessionExpiresAt := s.expiresAt
  sessionRevokedAt := s.revokedAt

/-- The token of this hash with its session. -/
def lookup (v : Database) (tokenHash : Bytes) : Option (RefreshToken × Session) := do
  let r ← v.refreshTokens.find? fun r => r.tokenHash = tokenHash
  let s ← v.sessions.find? fun s => s.id = r.sessionId
  return (r, s)

lemma wp_findForUpdate (hids : v.UniqueIds) (tokenHash : Bytes)
    {Q : Option RefreshTokenWithSession → Point sig → Prop} :
    Program.wp env process (findForUpdate tokenHash) ⟨d, some v, events⟩ Q ↔
      Q ((lookup v tokenHash).map fun p => withSession p.1 p.2) ⟨d, some v, events⟩ := by
  simp only [findForUpdate, Program.wp_bind, find, wp_select, lookup, Point.view, Option.getD_some]
  cases hr : v.refreshTokens.find? fun r => r.tokenHash = tokenHash with
  | none => simp
  | some r =>
    cases hs : v.sessions.find? fun s => s.id = r.sessionId with
    | none => simp [hs]
    | some s =>
      have hlock : v.refreshTokens.find? (fun r' => r'.id = r.id) = some r :=
        (find?_key_iff hids.refreshTokens).mpr ⟨List.mem_of_find?_eq_some hr, rfl⟩
      simp [hs, lock, wp_query, Program.wp_bind, hlock, withSession]

lemma wp_supersedeEach (parent : Uuid) (ids : List Uuid) {Q : Unit → Point sig → Prop}
    (hids : (v.refreshTokens.map RefreshToken.id).Nodup) :
    Program.wp env process (supersedeEach parent ids) ⟨d, some v, events⟩ Q ↔
      Q () ⟨d, some { v with
        refreshTokens :=
          updateWhere (fun r => ids.contains r.id && r.parentId = some parent && r.unused)
            (fun r => { r with supersededAt := some env.now }) v.refreshTokens }, events⟩ := by
  induction ids generalizing v with
  | nil =>
    rw [updateWhere_of_forall_not fun r _ => by simp]
    rfl
  | cons id ids ih =>
    have hids' : ((updateWhere (fun r => r.id = id && r.parentId = some parent && r.unused)
        (fun r => { r with supersededAt := some env.now }) v.refreshTokens).map
          RefreshToken.id).Nodup := by
      rw [map_updateWhere]
      · exact hids
      · exact fun _ => rfl
    have hrows : updateWhere (fun r => ids.contains r.id && r.parentId = some parent && r.unused)
          (fun r => { r with supersededAt := some env.now })
          (updateWhere (fun r => r.id = id && r.parentId = some parent && r.unused)
            (fun r => { r with supersededAt := some env.now }) v.refreshTokens) =
        updateWhere (fun r => (id :: ids).contains r.id && r.parentId = some parent && r.unused)
          (fun r => { r with supersededAt := some env.now }) v.refreshTokens := by
      rw [updateWhere_updateWhere fun r _ => by simp [RefreshToken.unused]]
      refine updateWhere_congr fun r _ => ?_
      by_cases hr : r.id = id <;> simp +contextual [hr]
    rw [supersedeEach, Program.wp_bind, supersede, wp_update hids]
    simp only [Table.refreshTokens, Point.write]
    rw [ih hids', hrows]

lemma wp_supersedeUnusedSuccessors (parent : Uuid) {Q : Unit → Point sig → Prop}
    (hids : (v.refreshTokens.map RefreshToken.id).Nodup) :
    Program.wp env process (supersedeUnusedSuccessors parent) ⟨d, some v, events⟩ Q ↔
      Q () ⟨d, some { v with
        refreshTokens :=
          updateWhere (fun r => r.parentId = some parent && r.unused)
            (fun r => { r with supersededAt := some env.now }) v.refreshTokens }, events⟩ := by
  simp only [supersedeUnusedSuccessors, Program.wp_bind, unusedSuccessors, wp_select, Point.view,
    Option.getD_some]
  rw [wp_supersedeEach _ _ hids]
  rw [updateWhere_congr fun r hr => ?_]
  rw [Bool.eq_iff_iff]
  simp only [Bool.and_eq_true, decide_eq_true_eq, List.contains_iff_mem, List.mem_map,
    List.mem_filter]
  constructor
  · exact fun h => ⟨h.1.2, h.2⟩
  · exact fun h => ⟨⟨⟨r, ⟨hr, h⟩, rfl⟩, h.1⟩, h.2⟩

end RefreshTokens

namespace OAuth

lemma wp_isStolen (hids : v.UniqueIds) (r : RefreshToken) (s : Session) (utc : Time)
    {Q : Bool → Point sig → Prop} :
    Program.wp env process (isStolen (RefreshTokens.withSession r s) utc) ⟨d, some v, events⟩ Q ↔
      Q (v.verdict r utc = .stolen) ⟨d, some (v.settle r utc env.now), events⟩ := by
  obtain ⟨id, sessionId, parentId, tokenHash, rotatedAt, supersededAt, createdAt⟩ := r
  simp only [isStolen, RefreshTokens.withSession, Database.verdict, Database.settle]
  cases supersededAt with
  | some t => simp
  | none =>
    cases rotatedAt with
    | none =>
      rw [Program.wp_bind, RefreshTokens.markRotated, wp_update hids.refreshTokens]
      simp [Table.refreshTokens]
    | some rotatedAt =>
      by_cases hgrace : utc - rotatedAt ≤ refreshReuseGrace
      · simp [hgrace]
      · cases hused : v.usedSuccessor id with
        | true => simp [hgrace, hused, Program.wp_bind, RefreshTokens.hasUsedSuccessor]
        | false =>
          simp [hgrace, hused, Program.wp_bind, RefreshTokens.hasUsedSuccessor,
            RefreshTokens.wp_supersedeUnusedSuccessors _ hids.refreshTokens]

end OAuth

lemma wp_sessionsRevoke (hids : v.UniqueIds) (id : Uuid) {Q : Unit → Point sig → Prop} :
    Program.wp env process (Sessions.revoke id) ⟨d, some v, events⟩ Q ↔
      Q () ⟨d, some (v.revokeSession id env.now), events⟩ := by
  rw [Sessions.revoke, Program.wp_bind, Sessions.revokeWhere, wp_update hids.sessions]
  rfl

/-- The refresh token of one draw. -/
def newToken (app : App) (process : ℕ) (sessionId : Uuid) (parentId : Option Uuid) (now : Time)
    (i j : ℕ) : RefreshToken where
  id := app.uuid ⟨process, i⟩
  sessionId := sessionId
  parentId := parentId
  tokenHash := (app.generateToken ⟨process, j⟩).hash
  rotatedAt := none
  supersededAt := none
  createdAt := now

lemma wp_newRefreshToken {app : App} {sessionId : Uuid} {parentId : Option Uuid}
    (hsession : ∃ s ∈ v.sessions, s.id = sessionId)
    (hparent : ∀ p ∈ parentId, ∃ r ∈ v.refreshTokens, r.id = p)
    {Q : Except OAuthError String → Point sig → Prop} :
    Handler.wp env process (newRefreshToken app sessionId parentId) ⟨d, some v, events⟩ Q ↔
      ∀ i j, (v.Collides app process j → Q (.error .serverError) ⟨d, some v, events⟩) ∧
        (¬v.Collides app process j → Q (.ok (app.generateToken ⟨process, j⟩).plain)
          ⟨d, some { v with
            refreshTokens :=
              v.refreshTokens ++ [newToken app process sessionId parentId env.now i j] },
            events⟩) := by
  have hs : (v.sessions.any fun s => s.id = sessionId) = true := by simpa using hsession
  have hp : (parentId.all fun p => v.refreshTokens.any fun r => r.id = p) = true := by
    simpa [Option.all_eq_true] using hparent
  simp only [newRefreshToken, wp_bind, wp_perform, wp_fresh, wp_runChecked, wp_query, Point.view,
    Option.getD_some]
  rw [forall_comm]
  refine forall_congr' fun i => forall_congr' fun j => ?_
  by_cases h : v.Collides app process j
  · have hrun : (RefreshTokens.create app sessionId (app.generateToken ⟨process, j⟩).hash
        parentId).run env.now ⟨process, i⟩ v = (fun d => d, .error .uniqueViolation) := by
      exact if_pos (by simpa [Database.Collides] using h)
    simp only [hrun, h, Except.mapError, Point.write, FromDbError.fromDbError, forall_const,
      not_true_eq_false, IsEmpty.forall_iff, and_true]
  · have hrun : (RefreshTokens.create app sessionId (app.generateToken ⟨process, j⟩).hash
        parentId).run env.now ⟨process, i⟩ v = (fun d => { d with
          refreshTokens :=
            d.refreshTokens ++ [newToken app process sessionId parentId env.now i j] },
          .ok ()) := by
      refine (if_neg (by simpa [Database.Collides] using h)).trans (if_pos ?_)
      rw [hs, hp, Bool.and_self]
    simp only [hrun, h, Except.mapError, Point.write, wp_pure, forall_const,
      not_false_eq_true, IsEmpty.forall_iff, true_and]

/-- The access token of one draw. -/
def newAccess (app : App) (process : ℕ) (key : LoadedKey) (userId sessionId : Uuid)
    (client : Client) (now : Time) (k : ℕ) : IssuedAccessToken where
  token := app.encodeToken
    { alg := "EdDSA", typ := some "at+jwt", kid := some (app.showUuid key.kid) }
    { iss := app.issuer, sub := userId, aud := client.audienceName, clientId := client.id
      sid := sessionId, iat := timestamp now, exp := timestamp (now + accessTokenTtl)
      jti := app.uuid ⟨process, k⟩ } key.encodingKey
  expiresIn := accessTokenTtl / seconds 1

lemma wp_issue {app : App} {keys : SigningKeys} {userId sessionId : Uuid} {client : Client}
    {now : Time} {c : Point sig} {Q : Option IssuedAccessToken → Point sig → Prop} :
    Program.wp env process (issue app keys userId sessionId client now) c Q ↔
      ∀ k, Q ((keys.signingKey now).map fun key =>
        newAccess app process key userId sessionId client now k) c := by
  simp only [issue]
  cases keys.signingKey now with
  | none => simp
  | some key => simp [Program.wp_bind, newAccess]

end Pieces

/-! ### The handler -/

/-- The refresh token that a request presents, the client presenting it and its session. -/
structure Presented (app : App) (input : OAuth.TokenRequest) (d : Database) (client : Client)
    (r : RefreshToken) (s : Session) : Prop where
  token : ∃ T, input.refreshToken = some T ∧
    d.refreshTokens.find? (fun r => r.tokenHash = app.hash T) = some r
  client : app.client input.clientId = some client
  session : d.sessions.find? (fun s => s.id = r.sessionId) = some s

lemma Presented.unique {app : App} {input : OAuth.TokenRequest} {d : Database}
    {client client' : Client} {r r' : RefreshToken} {s s' : Session}
    (h : Presented app input d client r s) (h' : Presented app input d client' r' s') :
    client = client' ∧ r = r' ∧ s = s' := by
  obtain ⟨T, hT, hr⟩ := h.token
  obtain ⟨T', hT', hr'⟩ := h'.token
  obtain rfl := Option.some.inj (hT.symm.trans hT')
  obtain rfl := Option.some.inj (hr.symm.trans hr')
  exact ⟨Option.some.inj (h.client.symm.trans h'.client), rfl,
    Option.some.inj (h.session.symm.trans h'.session)⟩

/-- The session accepts refreshes from this client at `utc`. -/
structure Session.Live (s : Session) (client : Client) (utc : Time) : Prop where
  client : s.clientId = client.id
  revoked : s.revokedAt = none
  expires : utc < s.expiresAt

/-- What a refresh answers and leaves in the database. -/
inductive Refreshed (app : App) (env : Env sig) (process : ℕ) (input : OAuth.TokenRequest)
    (d : Database) : Except OAuthError OAuth.TokenResponse → Database → Prop
  | missing (h : input.refreshToken = none) :
      Refreshed app env process input d
        (.error (.invalidRequest "missing `refresh_token`")) d
  | noClient (h : app.client input.clientId = none) :
      Refreshed app env process input d (.error .invalidClient) d
  | unknown (h : ∀ client r s, ¬Presented app input d client r s) :
      Refreshed app env process input d (.error (.invalidGrant "refresh token is invalid")) d
  | otherClient {client : Client} {r : RefreshToken} {s : Session}
      (h : Presented app input d client r s) (hclient : s.clientId ≠ client.id) :
      Refreshed app env process input d
        (.error (.invalidGrant "refresh token was issued to another client")) d
  | dead {client : Client} {r : RefreshToken} {s : Session}
      (h : Presented app input d client r s) (hdead : s.revokedAt ≠ none ∨ s.expiresAt ≤ env.utc) :
      Refreshed app env process input d
        (.error (.invalidGrant "session is expired or revoked")) d
  | stolen {client : Client} {r : RefreshToken} {s : Session}
      (h : Presented app input d client r s) (hlive : s.Live client env.utc)
      (hverdict : d.verdict r env.utc = .stolen) :
      Refreshed app env process input d
        (.error (.invalidGrant "refresh token was already used")) (d.revokeSession s.id env.now)
  | disabled {client : Client} {r : RefreshToken} {s : Session}
      (h : Presented app input d client r s) (hlive : s.Live client env.utc)
      (hverdict : d.verdict r env.utc ≠ .stolen) (huser : ¬d.Enabled s.userId) :
      Refreshed app env process input d (.error (.invalidGrant "account is disabled"))
        ((d.settle r env.utc env.now).revokeSession s.id env.now)
  | failed {client : Client} {r : RefreshToken} {s : Session}
      (h : Presented app input d client r s) (hlive : s.Live client env.utc)
      (hverdict : d.verdict r env.utc ≠ .stolen) (huser : d.Enabled s.userId)
      (hfail : (∃ j, d.Collides app process j) ∨
        SigningKeys.signingKey (env.reply .signingKeys) env.utc = none) :
      Refreshed app env process input d (.error .serverError) d
  | issued {client : Client} {r : RefreshToken} {s : Session}
      (h : Presented app input d client r s) (hlive : s.Live client env.utc)
      (hverdict : d.verdict r env.utc ≠ .stolen) (huser : d.Enabled s.userId) (key : LoadedKey)
      (i j k : ℕ) (hnew : ¬d.Collides app process j) :
      Refreshed app env process input d
        (.ok {
          accessToken := (newAccess app process key s.userId s.id client env.utc k).token
          expiresIn := (newAccess app process key s.userId s.id client env.utc k).expiresIn
          refreshToken := (app.generateToken ⟨process, j⟩).plain })
        { d.settle r env.utc env.now with
          refreshTokens := (d.settle r env.utc env.now).refreshTokens ++
            [newToken app process s.id (some r.id) env.now i j] }

theorem refreshToken_refreshed {app : App} {env : Env sig} {process : ℕ} {d : Database}
    {events : List Event} (hids : d.UniqueIds) (input : OAuth.TokenRequest) :
    Handler.wp env process (OAuth.refreshToken app input) ⟨d, none, events⟩
      fun a c => Refreshed app env process input d a c.db ∧ c.events = events := by
  simp only [OAuth.refreshToken, wp_bind, OAuth.required]
  cases hT : input.refreshToken with
  | none => exact ⟨.missing hT, rfl⟩
  | some T =>
    cases hclient : app.client input.clientId with
    | none => exact ⟨.noClient hclient, rfl⟩
    | some client =>
      simp only [wp_pure, wp_bind, wp_perform, wp_clock, wp_start,
        RefreshTokens.wp_findForUpdate hids, throw_bind]
      cases hlookup : RefreshTokens.lookup d (app.hash T) with
      | none =>
        refine ⟨.unknown fun c r s h => ?_, rfl⟩
        obtain ⟨⟨T', hT', hr⟩, -, hs⟩ := h
        obtain rfl : T = T' := Option.some.inj (hT.symm.trans hT')
        simp [RefreshTokens.lookup, hr, hs] at hlookup
      | some p =>
        obtain ⟨r, s⟩ := p
        obtain ⟨hr, hs⟩ : d.refreshTokens.find? (fun r => r.tokenHash = app.hash T) = some r ∧
            d.sessions.find? (fun s => s.id = r.sessionId) = some s := by
          simp only [RefreshTokens.lookup, Option.bind_eq_bind, Option.bind_eq_some_iff,
            Option.pure_def, Option.some.injEq, Prod.mk.injEq] at hlookup
          obtain ⟨r, hr, s, hs, rfl, rfl⟩ := hlookup
          exact ⟨hr, hs⟩
        have hp : Presented app input d client r s := ⟨⟨T, hT, hr⟩, hclient, hs⟩
        simp only [Option.map_some, wp_ite, wp_throw, Bool.or_eq_true, decide_eq_true_eq, not_or,
          Option.isSome_iff_ne_none, not_not, not_le]
        refine ⟨fun h => ⟨.otherClient hp h, trivial⟩,
          fun hsame => ⟨fun h => ⟨.dead hp h, trivial⟩, fun hl => ?_⟩⟩
        have hlive : s.Live client env.utc := ⟨hsame, hl.1, hl.2⟩
        simp only [wp_bind, wp_perform, OAuth.wp_isStolen hids, wp_ite, wp_run, Users.findById,
          wp_select, Point.view, Option.getD_some, Database.settle_users,
          wp_sessionsRevoke (hids.settle ..), wp_finish, wp_throw, decide_eq_true_eq]
        refine ⟨fun h => ?_, fun h => ⟨fun hu => ?_, fun hu => ?_⟩⟩
        · have hsettle : d.settle r env.utc env.now = d := by simp [Database.settle, h]
          rw [hsettle]
          exact ⟨.stolen hp hlive h, trivial⟩
        · refine ⟨.disabled hp hlive h ?_, trivial⟩
          rw [Database.enabled_iff, Bool.not_eq_false]
          exact hu
        have henabled : d.Enabled s.userId := by
          rw [Database.enabled_iff, ← Bool.not_eq_true]
          exact hu
        rw [wp_newRefreshToken]
        · intro i j
          rw [Database.settle_collides]
          refine ⟨fun hcoll => ⟨.failed hp hlive h henabled (.inl ⟨j, hcoll⟩), rfl⟩, fun hcoll => ?_⟩
          simp only [wp_issue]
          intro k
          cases hkey : SigningKeys.signingKey (env.reply .signingKeys) env.utc with
          | none => exact ⟨.failed hp hlive h henabled (.inr hkey), rfl⟩
          | some key => exact ⟨.issued hp hlive h henabled key i j k hcoll, rfl⟩
        · rw [Database.settle_sessions]
          exact ⟨s, List.mem_of_find?_eq_some hs, rfl⟩
        · rintro p ⟨⟩
          have hmem : r.id ∈ (d.settle r env.utc env.now).refreshTokens.map RefreshToken.id := by
            rw [Database.map_settle d RefreshToken.id fun _ _ _ => rfl]
            exact List.mem_map_of_mem (List.mem_of_find?_eq_some hr)
          exact List.mem_map.mp hmem

end Bauth
