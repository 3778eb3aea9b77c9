import Bauth.Serial.Theft

/-!
# An honest app

An app that always presents the last refresh token it received is never taken for a thief,
whatever responses it loses: the token it holds is not superseded, and none of the tokens issued
for it was ever used.
-/

namespace Bauth

open Transaction

/-! ### What other requests leave of a session -/

section Others

variable {app : App} {d d' : Database} {sid : Uuid}

/-- The session `sid` has the same tokens in `d` and in `d'`. -/
def Database.SameTokens (d d' : Database) (sid : Uuid) : Prop :=
  ∀ r : RefreshToken, r.sessionId = sid → (r ∈ d'.refreshTokens ↔ r ∈ d.refreshTokens)

/-- Rows of other sessions come or change. -/
lemma Database.SameTokens.append {r : RefreshToken} (h : d.SameTokens d' sid)
    (hother : r.sessionId ≠ sid) :
    d.SameTokens { d' with refreshTokens := d'.refreshTokens ++ [r] } sid := by
  intro r' hr'
  rw [← h r' hr']
  simp only [List.mem_append, List.mem_singleton, or_iff_left_iff_imp]
  rintro rfl
  exact absurd hr' hother

lemma Database.SameTokens.settle (htree : d.TokenTree) (hids : d.UniqueIds) {r : RefreshToken}
    (hr : r ∈ d.refreshTokens) (hother : r.sessionId ≠ sid) (utc now : Time) :
    d.SameTokens (d.settle r utc now) sid := by
  have hrow : ∀ r' ∈ d.refreshTokens, r'.sessionId = sid → d.settleRow r utc now r' = r' := by
    intro r' hr' hsid
    rcases d.settleRow_cases r utc now r' with
      h | ⟨-, hid, -⟩ | ⟨-, hparent, -⟩
    · exact h
    · obtain rfl := List.inj_on_of_nodup_map hids.refreshTokens hr' hr hid
      exact absurd hsid hother
    · obtain ⟨p, hp, hid, hsession, -⟩ := htree.parents r' hr' r.id hparent
      obtain rfl := List.inj_on_of_nodup_map hids.refreshTokens hp hr hid
      exact absurd (hsession.trans hsid) hother
  intro r' hsid
  rw [Database.settle_eq_map, List.mem_map]
  constructor
  · rintro ⟨r₀, hr₀, rfl⟩
    have hsid₀ : r₀.sessionId = sid := (d.settleRow_ages r utc now r₀).sessionId ▸ hsid
    rwa [hrow r₀ hr₀ hsid₀]
  · exact fun hr' => ⟨r', hr', hrow r' hr' hsid⟩

lemma Database.SameTokens.trans {d'' : Database} (h : d.SameTokens d' sid)
    (h' : d'.SameTokens d'' sid) : d.SameTokens d'' sid :=
  fun r hr => (h' r hr).trans (h r hr)

lemma Database.SameTokens.of_eq (h : d'.refreshTokens = d.refreshTokens) : d.SameTokens d' sid :=
  fun r _ => by rw [h]

/-- A session that was not deleted keeps its tokens. -/
lemma Database.SameTokens.deleteSessions {p : Session → Bool} (hparents : d.ParentsWithin)
    (hids : (d.sessions.map Session.id).Nodup)
    (hsid : sid ∈ (d.deleteSessions p).sessions.map Session.id) :
    d.SameTokens (d.deleteSessions p) sid := by
  obtain ⟨S, hS, hid⟩ := List.mem_map.mp hsid
  obtain ⟨hS, hkept⟩ := List.mem_filter.mp hS
  have hgone : (d.sessions.any fun s => s.id = sid && p s) = false := by
    rw [List.any_eq_false]
    intro S' hS' h
    simp only [Bool.and_eq_true, decide_eq_true_eq] at h
    obtain rfl := List.inj_on_of_nodup_map hids hS hS' (hid.trans h.1.symm)
    simp [h.2] at hkept
  intro r hr
  simp [Database.deleteSessions_refreshTokens hparents, List.mem_filter, hr, hgone]

lemma Database.deleteAuthorizationCodes_ids (p : AuthorizationCode → Bool) (d : Database) :
    (d.deleteAuthorizationCodes p).sessions.map Session.id = d.sessions.map Session.id := by
  simp only [Database.deleteAuthorizationCodes]
  rw [map_updateWhere]
  exact fun _ => rfl

lemma Database.SameTokens.deleteUsers {p : User → Bool} (hparents : d.ParentsWithin)
    (hids : (d.sessions.map Session.id).Nodup)
    (hsid : sid ∈ (d.deleteUsers p).sessions.map Session.id) :
    d.SameTokens (d.deleteUsers p) sid := by
  have hids' : ((d.deleteAuthorizationCodes fun c =>
      d.users.any fun u => u.id = c.userId && p u).sessions.map Session.id).Nodup := by
    rwa [Database.deleteAuthorizationCodes_ids]
  exact Database.SameTokens.deleteSessions (hparents.of_subset (List.Subset.refl _)) hids' hsid

/-- A session the purge leaves was there, and keeps its tokens. -/
lemma Purged.sameTokens (h : Purged d d') (hparents : d.ParentsWithin)
    (hids : (d.sessions.map Session.id).Nodup)
    (hsid : sid ∈ d'.sessions.map Session.id) : d.SameTokens d' sid := by
  suffices h : (d'.sessions.map Session.id).Sublist (d.sessions.map Session.id) ∧
      (sid ∈ d'.sessions.map Session.id → d.SameTokens d' sid) from h.2 hsid
  clear hsid
  have hforget : ∀ (p : AuthorizationCode → Bool) (d : Database),
      (d.deleteAuthorizationCodes p).sessions.map Session.id = d.sessions.map Session.id :=
    Database.deleteAuthorizationCodes_ids
  induction h with
  | refl => exact ⟨.refl _, fun _ => .of_eq rfl⟩
  | @loginFlow d' _ id ih =>
    have hsessions : ((d'.deleteLoginFlows fun f => f.id = id).sessions.map Session.id) =
        d'.sessions.map Session.id := hforget _ _
    rw [hsessions]
    exact ⟨ih.1, fun hsid => (ih.2 hsid).trans (.of_eq rfl)⟩
  | emailChange _ id ih => exact ⟨ih.1, fun hsid => (ih.2 hsid).trans (.of_eq rfl)⟩
  | confirmation _ id ih => exact ⟨ih.1, fun hsid => (ih.2 hsid).trans (.of_eq rfl)⟩
  | @session d' hpurged id ih =>
    have hparents' := hparents.of_subset hpurged.refreshTokens.subset
    have hsub : ((d'.deleteSessions fun s => s.id = id).sessions.map Session.id).Sublist
        (d'.sessions.map Session.id) := List.filter_sublist.map _
    exact ⟨hsub.trans ih.1, fun hsid => (ih.2 (hsub.subset hsid)).trans
      (.deleteSessions hparents' (ih.1.nodup hids) hsid)⟩
  | @user d' hpurged id ih =>
    have hparents' := hparents.of_subset hpurged.refreshTokens.subset
    have hsub : ((d'.deleteUsers fun u => u.id = id).sessions.map Session.id).Sublist
        (d'.sessions.map Session.id) := by
      rw [← hforget (fun c => d'.users.any fun u => u.id = c.userId && u.id = id) d']
      exact List.filter_sublist.map _
    exact ⟨hsub.trans ih.1, fun hsid => (ih.2 (hsub.subset hsid)).trans
      (.deleteUsers hparents' (ih.1.nodup hids) hsid)⟩
  | signingKeys _ keys ih => exact ⟨ih.1, fun hsid => (ih.2 hsid).trans (.of_eq rfl)⟩

/-- A request that presents no token of a session it leaves in place leaves its tokens alone. -/
lemma Request.Outcome.sameTokens {env : Program.Env sig} {process : ℕ} {request : Request}
    {response : Response} {events : List Event}
    (h : request.Outcome app env process d response d' events) (htree : d.TokenTree)
    (hkeyed : d.Keyed app process 0) (huuid : Function.Injective app.uuid)
    (hother : ∀ T, request.Presents T → ∀ r ∈ d.refreshTokens, r.tokenHash = app.hash T →
      r.sessionId ≠ sid)
    (hbefore : sid ∈ d.sessions.map Session.id) (hafter : sid ∈ d'.sessions.map Session.id) :
    d.SameTokens d' sid := by
  have hparents := htree.parentsWithin hkeyed.uniqueIds.refreshTokens
  cases h with
  | createFlow h => cases h <;> exact .of_eq rfl
  | requestMagicLink h => cases h <;> exact .of_eq rfl
  | confirmMagicLink h =>
    cases h with
    | refused => exact .of_eq rfl
    | loggedIn _ _ _ hlogin =>
      obtain ⟨haccount, _⟩ := hlogin
      obtain ⟨users, rfl, -⟩ := haccount.tables
      exact .of_eq rfl
  | confirmMagicCode h =>
    cases h with
    | refused => exact .of_eq rfl
    | wrong => exact .of_eq rfl
    | loggedIn _ _ hlogin =>
      obtain ⟨haccount, _⟩ := hlogin
      obtain ⟨users, rfl, -⟩ := haccount.tables
      exact .of_eq rfl
  | exchange _ h =>
    cases h with
    | refused => exact .of_eq rfl
    | replayed => exact .of_eq rfl
    | issued _ _ _ _ _ _ _ _ _ _ i =>
      refine (Database.SameTokens.of_eq rfl).append ?_
      -- the new session has an identifier drawn just now
      rintro rfl
      exact not_drawn huuid (Nat.zero_le i) (hkeyed.sessions.drawn _ hbefore)
  | @refresh input _ _ _ hgrant h =>
    have hpresents : ∀ {client r s}, Presented app input d client r s → r ∈ d.refreshTokens ∧
        r.sessionId ≠ sid ∧ s.id = r.sessionId := by
      rintro client r s ⟨⟨T, hT, hr⟩, -, hs⟩
      have hmem := List.mem_of_find?_eq_some hr
      exact ⟨hmem, hother T ⟨_, rfl, hgrant, hT⟩ r hmem (by simpa using List.find?_some hr),
        by simpa using List.find?_some hs⟩
    cases h with
    | disabled hp =>
      obtain ⟨hr, hne, -⟩ := hpresents hp
      exact (Database.SameTokens.settle htree hkeyed.uniqueIds hr hne env.utc env.now).trans
        (.of_eq rfl)
    | issued hp =>
      obtain ⟨hr, hne, hid⟩ := hpresents hp
      exact (Database.SameTokens.settle htree hkeyed.uniqueIds hr hne env.utc env.now).append
        (hid ▸ hne)
    | _ => exact .of_eq rfl
  | revokeSession h => cases h <;> exact .of_eq rfl
  | requestConfirmation h => cases h <;> exact .of_eq rfl
  | changeEmail h => cases h <;> exact .of_eq rfl
  | deleteAccount h =>
    cases h with
    | refused => exact .of_eq rfl
    | wrong => exact .of_eq rfl
    | @deleted user c =>
      exact Database.SameTokens.deleteUsers (d := d.consumeConfirmation env.now c.id)
        (hparents.of_subset (List.Subset.refl _))
        hkeyed.sessions.nodup hafter
  | confirmEmailChange h => cases h <;> exact .of_eq rfl
  | purge h => exact h.sameTokens hparents hkeyed.sessions.nodup hafter
  | _ => exact .of_eq rfl

end Others

/-- The row of a session that stays only ages. -/
lemma serve_session {app : App} (huuid : Function.Injective app.uuid) {p : Served} (hp : p.Of app)
    (hkeyed : p.before.db.Keyed app p.before.served 0) {S : Session}
    (hS : S ∈ p.before.db.sessions) : ∀ S' ∈ p.after.db.sessions, S'.id = S.id → S.Ages S' := by
  rw [hp.serve]
  have hdrawn := hkeyed.sessions.drawn _ (List.mem_map_of_mem hS)
  have hkeeps : ∃ k, Drawn app p.before.served k S.id ∧
      ∀ S' ∈ (serve app p.time p.reply p.request p.before).after.db.sessions,
        S'.id = S.id → S.Ages S' := by
    refine serve_keeps
      (J := fun k d => Drawn app p.before.served k S.id ∧ ∀ S' ∈ d.sessions, S'.id = S.id → S.Ages S')
      (fun k d h => ⟨h.1.succ, h.2⟩) (fun q k d d' _ h hd => ⟨h.1.succ, fun S' hS' hid => ?_⟩)
      ⟨hdrawn, fun S' hS' hid => ?_⟩
    · rcases hd.sessions.mem hS' with ⟨S₀, hS₀, hstep⟩ | hnew
      · cases hstep with
        | same => exact h.2 _ hS₀ hid
        | revoke => exact (h.2 _ hS₀ hid).trans ⟨rfl, rfl, rfl, rfl, fun _ => rfl⟩
        | forget => exact (h.2 _ hS₀ hid).trans ⟨rfl, rfl, rfl, rfl, fun h => h⟩
      · have hdrawn' := h.1
        rw [← hid, hnew.2.1] at hdrawn'
        exact absurd hdrawn' (not_drawn huuid le_rfl)
    · obtain rfl := List.inj_on_of_nodup_map hkeyed.sessions.nodup hS' hS hid
      exact .refl _
  exact hkeeps.choose_spec.2

/-! ### The client and the others -/

/-- The client of the session `sid` presents `T`, a key can sign, the session is not expired and
its account enabled. -/
structure Served.ByClient (app : App) (client : Client) (sid : Uuid) (T : String) (p : Served) :
    Prop where
  of : p.Of app
  presents : p.request.PresentsFor app T client
  canSign : CanSign p.reply p.time
  alive : ∀ S ∈ p.before.db.sessions, S.id = sid →
    p.time < S.expiresAt ∧ p.before.db.Enabled S.userId

/-- Any other request: it presents no token of the session `sid`, and does not end it. -/
structure Served.ByOthers (app : App) (sid : Uuid) (p : Served) : Prop where
  of : p.Of app
  tokens : ∀ T, p.request.Presents T → ∀ r ∈ p.before.db.refreshTokens,
    r.tokenHash = app.hash T → r.sessionId ≠ sid
  session : (∃ S ∈ p.before.db.sessions, S.id = sid ∧ S.revokedAt = none) →
    ∃ S ∈ p.after.db.sessions, S.id = sid ∧ S.revokedAt = none

/-- A run of the client from the exchange `p₀` of its code, whose answer gave it `T₀`: the token
it holds, what it presented so far with the step that processed it, and the state. A request that
is never processed is no step; a response that is lost leaves the client its token. -/
inductive ClientRun (app : App) (client : Client) (sid : Uuid) (p₀ : Served) (T₀ : String) :
    String → List (String × Served) → Server → Prop
  | opened : ClientRun app client sid p₀ T₀ T₀ [] p₀.after
  | lost {T : String} {sent : List (String × Served)} {p : Served}
      (h : ClientRun app client sid p₀ T₀ T sent p.before) (hp : p.ByClient app client sid T) :
      ClientRun app client sid p₀ T₀ T (sent ++ [(T, p)]) p.after
  | received {T : String} {sent : List (String × Served)} {p : Served}
      (h : ClientRun app client sid p₀ T₀ T sent p.before) (hp : p.ByClient app client sid T)
      {response : OAuth.TokenResponse} (hresponse : p.response = .ok (.tokens response)) :
      ClientRun app client sid p₀ T₀ response.refreshToken (sent ++ [(T, p)]) p.after
  | others {T : String} {sent : List (String × Served)} {p : Served}
      (h : ClientRun app client sid p₀ T₀ T sent p.before) (hp : p.ByOthers app sid) :
      ClientRun app client sid p₀ T₀ T sent p.after

/-- The exchange `p₀` of a code by `client` opened the session `sid` and answered `T₀`. -/
structure Served.Opens (app : App) (client : Client) (sid : Uuid) (T₀ : String) (p₀ : Served) :
    Prop where
  of : p₀.Of app
  reachable : Reachable app p₀.before
  request : ∃ input, p₀.request = .token input ∧ input.grantType = "authorization_code" ∧
    app.client input.clientId = some client
  response : ∃ response, p₀.response = .ok (.tokens response) ∧ response.refreshToken = T₀
  session : sid ∉ p₀.before.db.sessions.map Session.id ∧ sid ∈ p₀.after.db.sessions.map Session.id

/-- What the client can count on: its token is not superseded, no token issued for it was used,
and its session is not revoked. -/
structure Server.Holds (app : App) (s : Server) (client : Client) (sid : Uuid) (T : String) :
    Prop where
  token : ∃ r ∈ s.db.refreshTokens, r.tokenHash = app.hash T ∧ r.sessionId = sid ∧
    r.supersededAt = none ∧ ∀ c ∈ s.db.refreshTokens, c.parentId = some r.id → c.rotatedAt = none
  session : ∃ S ∈ s.db.sessions, S.id = sid ∧ S.clientId = client.id ∧ S.revokedAt = none

section Holds

variable {app : App} {client : Client} {sid : Uuid} {T : String} {p : Served}

/-- No token replaces one that is not there yet. -/
lemma Database.TokenTree.no_child {d : Database} (htree : d.TokenTree) {id : Uuid}
    (hid : id ∉ d.refreshTokens.map RefreshToken.id) :
    ∀ c ∈ d.refreshTokens, c.parentId ≠ some id := by
  intro c hc hparent
  obtain ⟨r, hr, hrid, -⟩ := htree.parents c hc id hparent
  exact hid (List.mem_map.mpr ⟨r, hr, hrid⟩)

/-- The token of a new session is held. -/
lemma Served.Opens.holds (h : p.Opens app client sid T) (huuid : Function.Injective app.uuid) :
    p.after.Holds app client sid T := by
  obtain ⟨input, hinput, hgrant, hclient⟩ := h.request
  obtain ⟨response, hresponse, rfl⟩ := h.response
  have hkeyed := h.reachable.keyed huuid
  have htree := h.reachable.tokenTree huuid
  have houtcome := h.of.outcome huuid hkeyed
  have hafter := (h.reachable.run h.of.run).keyed huuid
  obtain ⟨hold, hnew⟩ := h.session
  rw [hinput, hresponse] at houtcome
  generalize hans : (Except.ok (Body.tokens response) : Response) = answer at houtcome
  generalize hdb : p.after.db = d' at houtcome
  cases houtcome with
  | refresh hrefresh h => simp [hgrant] at hrefresh
  | otherGrant hcode => exact absurd hgrant hcode
  | @exchange _ a _ _ _ h =>
    cases h with
    | @issued code redirectUri verifier client' c f _ _ _ hclient' _ _ _ _ _ _ i i' j =>
      obtain rfl : response = _ := by
        simpa [ofOAuth, Except.map, Except.mapError] using hans
      obtain rfl := Option.some.inj (hclient.symm.trans hclient')
      -- the session that is new is the one opened
      obtain rfl : app.uuid ⟨p.before.served, i⟩ = sid := by
        rw [hdb, List.map_append, List.mem_append] at hnew
        rcases hnew with hnew | hnew
        · exact absurd hnew hold
        · simpa [newSession, eq_comm] using hnew
      have hfresh : app.uuid ⟨p.before.served, i'⟩ ∉
          p.before.db.refreshTokens.map RefreshToken.id := fun hmem =>
        not_drawn huuid (Nat.zero_le i') (hkeyed.refreshTokens.drawn _ hmem)
      refine ⟨⟨newToken app p.before.served (app.uuid ⟨p.before.served, i⟩) none p.time i' j, ?_,
        rfl, rfl, rfl, fun c hc hparent => ?_⟩, ?_⟩
      · simp [hdb]
      · rw [hdb] at hc
        rcases List.mem_append.mp hc with hc | hc
        · exact absurd hparent (htree.no_child hfresh c hc)
        · obtain rfl := List.mem_singleton.mp hc
          rfl
      · exact ⟨newSession app p.before.served c.userId client.id c.id p.time p.time i, by simp [hdb],
          rfl, rfl, rfl⟩
    | _ => cases hans

/-- Other requests leave what the client counts on. -/
lemma Server.Holds.others (h : p.before.Holds app client sid T) (hp : p.ByOthers app sid)
    (hs : Reachable app p.before) (huuid : Function.Injective app.uuid) :
    p.after.Holds app client sid T := by
  have hkeyed := hs.keyed huuid
  obtain ⟨S, hS, rfl, hclient, hrevoked⟩ := h.session
  obtain ⟨S', hS', hid, hrevoked'⟩ := hp.session ⟨S, hS, rfl, hrevoked⟩
  have hages := serve_session huuid hp.of hkeyed hS S' hS' hid
  have hsame := (hp.of.outcome huuid hkeyed).sameTokens (hs.tokenTree huuid) hkeyed huuid hp.tokens
    (List.mem_map_of_mem hS) (List.mem_map.mpr ⟨S', hS', hid⟩)
  obtain ⟨r, hr, hhash, hsid, hsuperseded, hchildren⟩ := h.token
  refine ⟨⟨r, (hsame r hsid).mpr hr, hhash, hsid, hsuperseded, fun c hc hparent => ?_⟩, S', hS',
    hid, hages.clientId.trans hclient, hrevoked'⟩
  -- a child belongs to the session of its parent
  have htree := (hs.run hp.of.run).tokenTree huuid
  obtain ⟨r', hr', hrid, hsession, -⟩ := htree.parents c hc r.id hparent
  obtain rfl := List.inj_on_of_nodup_map ((hs.run hp.of.run).keyed huuid).uniqueIds.refreshTokens
    hr' ((hsame r hsid).mpr hr) hrid
  exact hchildren c ((hsame c (hsession ▸ hsid)).mp hc) hparent

/-- A token that is held is accepted, at any time. -/
lemma Server.Holds.verdict {s : Server} {r : RefreshToken} (hsuperseded : r.supersededAt = none)
    (hchildren : ∀ c ∈ s.db.refreshTokens, c.parentId = some r.id → c.rotatedAt = none)
    (utc : Time) : s.db.verdict r utc ≠ .stolen := by
  have hunused : s.db.usedSuccessor r.id = false := by
    rw [Database.usedSuccessor, List.any_eq_false]
    intro c hc
    simp only [Bool.and_eq_true, decide_eq_true_eq, not_and]
    exact fun hparent => by simp [hchildren c hc hparent]
  cases hrotated : r.rotatedAt with
  | none => simp [Database.verdict_of_unused utc ⟨hrotated, hsuperseded⟩]
  | some t =>
    simp only [Database.verdict, hsuperseded, hrotated, hunused, Bool.false_eq_true, if_false]
    split_ifs <;> simp

/-- Presenting the token it holds, the client gets a new one, and may go on holding either. -/
lemma Server.Holds.exchanges (h : p.before.Holds app client sid T)
    (hp : p.ByClient app client sid T) (hs : Reachable app p.before)
    (huuid : Function.Injective app.uuid) (hsecret : Function.Injective app.secret)
    (hsha : Function.Injective app.sha256) :
    ∃ X, p.Exchanges T X ∧ p.after.Holds app client sid T ∧ p.after.Holds app client sid X := by
  have hkeyed := hs.keyed huuid
  have htree := hs.tokenTree huuid
  have hids := ((hs.run hp.of.run).keyed huuid).uniqueIds.refreshTokens
  obtain ⟨S, hS, rfl, hclient, hrevoked⟩ := h.session
  obtain ⟨r, hr, hhash, hsid, hsuperseded, hchildren⟩ := h.token
  obtain ⟨hexpires, henabled⟩ := hp.alive S hS rfl
  have haccepts : p.before.Accepts app p.time T client r S :=
    { token := hr
      tokenHash := hhash
      session := hS
      id := hsid.symm
      live := ⟨hclient, hrevoked, hexpires⟩
      enabled := henabled
      verdict := Server.Holds.verdict hsuperseded hchildren p.time }
  obtain ⟨X, hX⟩ := haccepts.exchanges huuid hsecret hsha hs hp.presents hp.canSign
  rw [← hp.of.serve] at hX
  obtain ⟨r', S', x, hissues⟩ := hX.issues huuid hp.of hkeyed
  obtain rfl : r' = r := Option.some.inj
    (hissues.token.symm.trans ((find?_key_iff htree.hashes).mpr ⟨hr, hhash⟩))
  obtain rfl : S' = S := Option.some.inj
    (hissues.session.symm.trans ((find?_key_iff hkeyed.sessions.nodup).mpr ⟨hS, hsid.symm⟩))
  have hafter : p.after.db.refreshTokens =
      p.before.db.refreshTokens.map (p.before.db.settleRow r' p.time p.time) ++ [x] := by
    rw [hissues.after, Database.settle_eq_map]
  have hsession : ∃ S ∈ p.after.db.sessions, S.id = S'.id ∧ S.clientId = client.id ∧
      S.revokedAt = none := by
    refine ⟨S', ?_, rfl, hclient, hrevoked⟩
    rw [hissues.after]
    simpa using hS
  have hages := p.before.db.settleRow_ages r' p.time p.time
  refine ⟨X, hX, ⟨⟨p.before.db.settleRow r' p.time p.time r', ?_, ?_, ?_, ?_, ?_⟩, hsession⟩,
    ⟨⟨x, ?_, hissues.tokenHash, hissues.sessionId, hissues.unused.2, ?_⟩, hsession⟩⟩
  · rw [hafter]
    exact List.mem_append_left _ (List.mem_map_of_mem hr)
  · exact (hages r').tokenHash.trans hhash
  · exact (hages r').sessionId.trans hsid
  · rcases p.before.db.settleRow_cases r' p.time p.time r' with
      hrow | ⟨-, -, -, hrow⟩ | ⟨hretry, -, hunused, -⟩
    · rw [hrow, hsuperseded]
    · rw [hrow]
      exact hsuperseded
    · simp only [RefreshToken.unused, Bool.and_eq_true, Option.isNone_iff_eq_none] at hunused
      simp [Database.verdict_of_unused _ hunused] at hretry
  · intro c hc hparent
    rw [hafter] at hc
    rw [(hages r').id] at hparent
    rcases List.mem_append.mp hc with hc | hc
    · obtain ⟨c₀, hc₀, rfl⟩ := List.mem_map.mp hc
      rw [(hages c₀).parentId] at hparent
      have hnone := hchildren c₀ hc₀ hparent
      rcases p.before.db.settleRow_cases r' p.time p.time c₀ with
        hrow | ⟨-, hid, -, -⟩ | ⟨-, -, -, hrow⟩
      · rw [hrow, hnone]
      · -- `T` does not replace itself: its parent was exchanged before
        obtain rfl := List.inj_on_of_nodup_map hkeyed.uniqueIds.refreshTokens hc₀ hr hid
        obtain ⟨r'', hr'', hid', -, hrotated⟩ := htree.parents c₀ hc₀ c₀.id hparent
        obtain rfl := List.inj_on_of_nodup_map hkeyed.uniqueIds.refreshTokens hr'' hc₀ hid'
        simp [hnone] at hrotated
      · rw [hrow]
        exact hnone
    · obtain rfl := List.mem_singleton.mp hc
      exact hissues.unused.1
  · rw [hafter]
    simp
  · have hfresh : x.id ∉ p.before.db.refreshTokens.map RefreshToken.id := by
      rw [hafter, List.map_append, List.nodup_append] at hids
      have hcol : (p.before.db.refreshTokens.map (p.before.db.settleRow r' p.time p.time)).map
          RefreshToken.id = p.before.db.refreshTokens.map RefreshToken.id := by
        rw [List.map_map]
        exact List.map_congr_left fun c _ => (hages c).id
      rw [hcol] at hids
      exact fun hmem => hids.2.2 _ hmem _ (by simp) rfl
    intro c hc hparent
    rw [hafter] at hc
    rcases List.mem_append.mp hc with hc | hc
    · obtain ⟨c₀, hc₀, rfl⟩ := List.mem_map.mp hc
      rw [(hages c₀).parentId] at hparent
      exact absurd hparent (htree.no_child hfresh c₀ hc₀)
    · obtain rfl := List.mem_singleton.mp hc
      exact hissues.unused.1

/-- What the client holds after a run, with what it was answered. -/
lemma ClientRun.holds {p₀ : Served} {T₀ : String} {sent : List (String × Served)} {s : Server}
    (h : ClientRun app client sid p₀ T₀ T sent s) (hopens : p₀.Opens app client sid T₀)
    (huuid : Function.Injective app.uuid) (hsecret : Function.Injective app.secret)
    (hsha : Function.Injective app.sha256) :
    Reachable app s ∧ s.Holds app client sid T ∧ ∀ q ∈ sent, ∃ X, q.2.Exchanges q.1 X := by
  induction h with
  | opened =>
    exact ⟨hopens.reachable.run hopens.of.run, hopens.holds huuid, fun q hq => nomatch hq⟩
  | lost h hp ih =>
    obtain ⟨hs, hholds, hsent⟩ := ih
    obtain ⟨X, hX, hT, -⟩ := hholds.exchanges hp hs huuid hsecret hsha
    refine ⟨hs.run hp.of.run, hT, fun q hq => ?_⟩
    rcases List.mem_append.mp hq with hq | hq
    · exact hsent q hq
    · obtain rfl := List.mem_singleton.mp hq
      exact ⟨X, hX⟩
  | @received T sent p h hp received hresponse ih =>
    obtain ⟨hs, hholds, hsent⟩ := ih
    obtain ⟨X, hX, -, hnext⟩ := hholds.exchanges hp hs huuid hsecret hsha
    have hreceived : X = received.refreshToken := by
      obtain ⟨-, response, hresponse', rfl⟩ := hX
      rw [hresponse] at hresponse'
      cases hresponse'
      rfl
    refine ⟨hs.run hp.of.run, hreceived ▸ hnext, fun q hq => ?_⟩
    rcases List.mem_append.mp hq with hq | hq
    · exact hsent q hq
    · obtain rfl := List.mem_singleton.mp hq
      exact ⟨X, hX⟩
  | others h hp ih =>
    obtain ⟨hs, hholds, hsent⟩ := ih
    exact ⟨hs.run hp.of.run, hholds.others hp hs huuid, hsent⟩

/-- Whatever responses a client loses, and however late it retries, each refresh of its run that
was processed succeeded, and its session is not revoked. -/
theorem client_never_refused {p₀ : Served} {T₀ : String} {sent : List (String × Served)}
    {s : Server} (huuid : Function.Injective app.uuid) (hsecret : Function.Injective app.secret)
    (hsha : Function.Injective app.sha256) (hopens : p₀.Opens app client sid T₀)
    (h : ClientRun app client sid p₀ T₀ T sent s) :
    (∀ q ∈ sent, ∃ X, q.2.Exchanges q.1 X) ∧
      ∃ S ∈ s.db.sessions, S.id = sid ∧ S.revokedAt = none := by
  obtain ⟨-, hholds, hsent⟩ := h.holds hopens huuid hsecret hsha
  obtain ⟨S, hS, hid, -, hrevoked⟩ := hholds.session
  exact ⟨hsent, S, hS, hid, hrevoked⟩

end Holds

/-! ### A lost response on the example server -/

section Example

/-- The exchange that opened the session of `exampleServer`. -/
def exampleOpening : Served :=
  serve exampleApp 3 exampleReply
    (.token {
      grantType := "authorization_code", clientId := "app", code := some "pp-iiii"
      redirectUri := some "https://app/cb", codeVerifier := some exampleVerifier })
    (script exampleApp exampleReply .empty (exampleLogin.take 3)).2

lemma exampleOpening_opens : exampleOpening.Opens exampleApp exampleClient 14 "ppp-iii" where
  of := ⟨rfl, by decide +kernel⟩
  reachable := script_reachable (by decide)
  request := ⟨_, rfl, rfl, by decide⟩
  response := ⟨{ accessToken := "uuuuuuussssssssssssss", expiresIn := 900, refreshToken := "ppp-iii" },
    by decide +kernel, rfl⟩
  session := by decide +kernel

/-- The response to its first refresh is lost; the client retries it 31 seconds later. -/
theorem client_never_refused_retry :
    (∀ q ∈ [("ppp-iii", exampleFirst), ("ppp-iii", exampleSecond)], ∃ X, q.2.Exchanges q.1 X) ∧
      ∃ S ∈ exampleSecond.after.db.sessions, S.id = 14 ∧ S.revokedAt = none := by
  have hopened : exampleOpening.after = exampleFirst.before := by decide +kernel
  have hrun : ClientRun exampleApp exampleClient 14 exampleOpening "ppp-iii" "ppp-iii" []
      exampleFirst.before := hopened ▸ .opened
  have hfirst : exampleFirst.ByClient exampleApp exampleClient 14 "ppp-iii" :=
    { of := ⟨rfl, by decide⟩
      presents := ⟨_, rfl, rfl, rfl, rfl⟩
      canSign := exampleReply_canSign (by decide)
      alive := by decide +kernel }
  have hsecond : exampleSecond.ByClient exampleApp exampleClient 14 "ppp-iii" :=
    { of := ⟨rfl, by decide⟩
      presents := ⟨_, rfl, rfl, rfl, rfl⟩
      canSign := exampleReply_canSign (by decide)
      alive := by decide +kernel }
  exact client_never_refused exampleApp_uuid_injective exampleApp_secret_injective
    exampleApp_sha256_injective exampleOpening_opens ((hrun.lost hfirst).lost hsecond)

end Example

end Bauth
