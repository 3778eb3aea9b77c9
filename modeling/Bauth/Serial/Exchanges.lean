import Bauth.Serial.Tokens

/-!
# Exchanging refresh tokens

What a successful refresh is made of, what the verdict on a token depends on, and when a token is
accepted.
-/

namespace Bauth

open Transaction

/-! ### Presenting and exchanging -/

/-- The request presents the refresh token `T`. -/
def Request.Presents (request : Request) (T : String) : Prop :=
  ∃ input, request = .token input ∧ input.grantType = "refresh_token" ∧
    input.refreshToken = some T

lemma Request.Presents.unique {request : Request} {T X : String} (hT : request.Presents T)
    (hX : request.Presents X) : T = X := by
  obtain ⟨input, rfl, -, hT⟩ := hT
  obtain ⟨input', hrequest, -, hX⟩ := hX
  obtain rfl := Request.token.inj hrequest
  exact Option.some.inj (hT.symm.trans hX)

/-- The request presents the refresh token `T` for `client`. -/
def Request.PresentsFor (app : App) (request : Request) (T : String) (client : Client) : Prop :=
  ∃ input, request = .token input ∧ input.grantType = "refresh_token" ∧
    input.refreshToken = some T ∧ app.client input.clientId = some client

/-- The step exchanges `T` for `X`. -/
def Served.Exchanges (p : Served) (T X : String) : Prop :=
  p.request.Presents T ∧
    ∃ response, p.response = .ok (.tokens response) ∧ response.refreshToken = X

/-- What an exchange of `T` for `X` is made of: the rows of `T` and of its session, and the row
`x` of `X`. -/
structure Served.Issues (app : App) (p : Served) (T X : String) (r : RefreshToken) (s : Session)
    (x : RefreshToken) : Prop where
  token : p.before.db.refreshTokens.find? (fun r => r.tokenHash = app.hash T) = some r
  session : p.before.db.sessions.find? (fun s => s.id = r.sessionId) = some s
  client : ∃ client, p.request.PresentsFor app T client ∧ s.clientId = client.id
  revokedAt : s.revokedAt = none
  expiresAt : p.time < s.expiresAt
  enabled : p.before.db.Enabled s.userId
  verdict : p.before.db.verdict r p.time ≠ .stolen
  fresh : app.hash X ∉ p.before.db.refreshTokens.map RefreshToken.tokenHash
  tokenHash : x.tokenHash = app.hash X
  parentId : x.parentId = some r.id
  sessionId : x.sessionId = s.id
  unused : x.rotatedAt = none ∧ x.supersededAt = none
  after : p.after.db = { p.before.db.settle r p.time p.time with
    refreshTokens := (p.before.db.settle r p.time p.time).refreshTokens ++ [x] }

section Exchange

variable {app : App} {p : Served} {T X : String}

lemma Served.Exchanges.issues (h : p.Exchanges T X) (huuid : Function.Injective app.uuid)
    (hp : p.Of app) (hkeyed : p.before.db.Keyed app p.before.served 0) :
    ∃ r s x, p.Issues app T X r s x := by
  obtain ⟨⟨input, hrequest, hgrant, hT⟩, response, hresponse, rfl⟩ := h
  have houtcome := hp.outcome huuid hkeyed
  rw [hrequest, hresponse] at houtcome
  generalize hans : (Except.ok (Body.tokens response) : Response) = answer at houtcome
  generalize hdb : p.after.db = d' at houtcome
  cases houtcome with
  | exchange hcode h => simp [hgrant] at hcode
  | otherGrant hcode hrefresh => exact absurd hgrant hrefresh
  | @refresh _ a _ _ _ h =>
    cases h with
    | issued hpresented hlive hverdict henabled key i j k hnew =>
      obtain rfl : response = _ := by
        simpa [ofOAuth, Except.map, Except.mapError] using hans
      obtain ⟨T', hT', hr⟩ := hpresented.token
      obtain rfl : T = T' := Option.some.inj (hT.symm.trans hT')
      exact ⟨_, _, _, hr, hpresented.session,
        ⟨_, ⟨_, hrequest, hgrant, hT, hpresented.client⟩, hlive.client⟩, hlive.revoked,
        hlive.expires, henabled, hverdict, hnew, rfl, rfl, rfl, ⟨rfl, rfl⟩, hdb⟩
    | _ => cases hans

/-- A token issued for `T` is not `T`. -/
lemma Served.Issues.ne {r x : RefreshToken} {S : Session}
    (h : p.Issues app T X r S x) : T ≠ X := by
  rintro rfl
  refine h.fresh (List.mem_map.mpr ⟨r, List.mem_of_find?_eq_some h.token, ?_⟩)
  simpa using List.find?_some h.token

/-- An exchanged token is rotated, with the rest of its row. -/
lemma Served.Issues.rotated {r x : RefreshToken} {S : Session}
    (h : p.Issues app T X r S x) :
    ∃ r' ∈ p.after.db.refreshTokens, r.Ages r' ∧ r'.rotatedAt.isSome = true := by
  refine ⟨p.before.db.settleRow r p.time p.time r, ?_, p.before.db.settleRow_ages .., ?_⟩
  · rw [h.after, Database.settle_eq_map]
    exact List.mem_append_left _ (List.mem_map_of_mem (List.mem_of_find?_eq_some h.token))
  · exact Database.rotatedAt_settleRow h.verdict

end Exchange

/-! ### Verdicts -/

namespace Database

variable {d : Database} {r x : RefreshToken} {utc now t : Time}

lemma verdict_of_superseded (h : r.supersededAt.isSome = true) : d.verdict r utc = .stolen := by
  obtain ⟨t, ht⟩ := Option.isSome_iff_exists.mp h
  simp [verdict, ht]

/-- Past the grace, a token is stolen as soon as a successor was used. -/
lemma verdict_of_usedSuccessor (hr : r.rotatedAt = some t) (hlate : refreshReuseGrace < utc - t)
    (h : d.usedSuccessor r.id = true) : d.verdict r utc = .stolen := by
  cases hsuperseded : r.supersededAt with
  | some t => exact verdict_of_superseded (by simp [hsuperseded])
  | none => simp [verdict, hsuperseded, hr, not_le.mpr hlate, h]

/-- Past the grace, a token is only accepted for the last time before its successors are used. -/
lemma verdict_eq_retry (hr : r.rotatedAt = some t) (hlate : refreshReuseGrace < utc - t)
    (h : d.verdict r utc ≠ .stolen) :
    d.verdict r utc = .retry ∧ d.usedSuccessor r.id = false := by
  have hused : d.usedSuccessor r.id = false := by
    by_contra hused
    exact h (verdict_of_usedSuccessor hr hlate (by simpa using hused))
  cases hsuperseded : r.supersededAt with
  | some t => exact absurd (verdict_of_superseded (by simp [hsuperseded])) h
  | none => exact ⟨by simp [verdict, hsuperseded, hr, not_le.mpr hlate, hused], hused⟩

/-- A retry supersedes the successors nobody used. -/
lemma settleRow_of_retry (hverdict : d.verdict r utc = .retry) (hparent : x.parentId = some r.id)
    (hrotated : x.rotatedAt = none) : (d.settleRow r utc now x).supersededAt.isSome = true := by
  cases hsuperseded : x.supersededAt with
  | some t =>
    rw [(d.settleRow_ages r utc now x).supersededAt t hsuperseded]
    rfl
  | none => simp [settleRow, hverdict, hparent, RefreshToken.unused, hrotated, hsuperseded]

/-- Within the grace of its first rotation, a token is accepted again. -/
lemma verdict_of_grace (hsuperseded : r.supersededAt = none) (hrotated : r.rotatedAt = some t)
    (h : utc - t ≤ refreshReuseGrace) : d.verdict r utc = .grace := by
  simp [verdict, hsuperseded, hrotated, h]

/-- A token nobody used yet is accepted for the first time. -/
lemma verdict_of_unused (utc : Time) (h : r.rotatedAt = none ∧ r.supersededAt = none) : d.verdict r utc = .firstUse := by
  simp [verdict, h.1, h.2]

end Database

/-! ### What makes a refresh succeed -/

/-- Presented for `client` at `time`, the token `T` is accepted: its row is `r`, its session `S`. -/
structure Server.Accepts (app : App) (s : Server) (time : Time) (T : String) (client : Client)
    (r : RefreshToken) (S : Session) : Prop where
  token : r ∈ s.db.refreshTokens
  tokenHash : r.tokenHash = app.hash T
  session : S ∈ s.db.sessions
  id : S.id = r.sessionId
  live : S.Live client time
  enabled : s.db.Enabled S.userId
  verdict : s.db.verdict r time ≠ .stolen

/-- A key can sign at `time`. -/
def CanSign (reply : (q : Question) → Reply q) (time : Time) : Prop :=
  SigningKeys.signingKey (reply .signingKeys) time ≠ none

lemma exampleReply_canSign {t : Time} (ht : 0 ≤ t) : CanSign exampleReply t := by
  simp [CanSign, SigningKeys.signingKey, exampleReply, LoadedKey.canSign, ht]

section Accepts

variable {app : App} {s : Server} {time : Time} {reply : (q : Question) → Reply q}
  {request : Request} {T : String} {client : Client} {r : RefreshToken} {S : Session}

/-- An accepted token is exchanged. -/
theorem Server.Accepts.exchanges (h : s.Accepts app time T client r S)
    (huuid : Function.Injective app.uuid) (hsecret : Function.Injective app.secret)
    (hsha : Function.Injective app.sha256) (hs : Reachable app s)
    (hrequest : request.PresentsFor app T client) (hkey : CanSign reply time) :
    ∃ X, (serve app time reply request s).Exchanges T X := by
  obtain ⟨input, rfl, hgrant, hT, hclient⟩ := hrequest
  have hpresented : Presented app input s.db client r S :=
    ⟨⟨T, hT, (find?_key_iff (hs.tokenTree huuid).hashes).mpr ⟨h.token, h.tokenHash⟩⟩, hclient,
      (find?_key_iff (hs.keyed huuid).uniqueIds.sessions).mpr ⟨h.session, h.id⟩⟩
  have houtcome := serve_outcome huuid (hs.keyed huuid) time reply (.token input)
  unfold Served.Exchanges
  generalize (serve app time reply (.token input) s).response = response at houtcome ⊢
  generalize (serve app time reply (.token input) s).after.db = d' at houtcome
  generalize (serve app time reply (.token input) s).events = events at houtcome
  cases houtcome with
  | exchange hcode h => simp [hgrant] at hcode
  | otherGrant hcode hrefresh => exact absurd hgrant hrefresh
  | refresh _ h' =>
    cases h' with
    | missing hnone => simp [hT] at hnone
    | noClient hnone => simp [hclient] at hnone
    | unknown hnone => exact absurd hpresented (hnone _ _ _)
    | otherClient h' hother =>
      obtain ⟨rfl, rfl, rfl⟩ := hpresented.unique h'
      exact absurd h.live.client hother
    | dead h' hdead =>
      obtain ⟨rfl, rfl, rfl⟩ := hpresented.unique h'
      rcases hdead with hrevoked | hexpired
      · exact absurd h.live.revoked hrevoked
      · exact absurd h.live.expires (not_lt.mpr hexpired)
    | stolen h' _ hstolen =>
      obtain ⟨rfl, rfl, rfl⟩ := hpresented.unique h'
      exact absurd hstolen h.verdict
    | disabled h' _ _ huser =>
      obtain ⟨rfl, rfl, rfl⟩ := hpresented.unique h'
      exact absurd h.enabled huser
    | failed _ _ _ _ hfail =>
      rcases hfail with ⟨j, hcollides⟩ | hnone
      · exact absurd hcollides (hs.not_collides huuid hsecret hsha j)
      · exact absurd hnone hkey
    | issued => exact ⟨_, ⟨input, rfl, hgrant, hT⟩, _, rfl, rfl⟩

/-- Exchanging an unused token leaves the other tokens acceptable. -/
lemma Server.Accepts.after_exchange {p : Served} {X Y A : String} {x y : RefreshToken}
    {S : Session} {t : Time} (hp : p.Of app) (hs : Reachable app p.before)
    (huuid : Function.Injective app.uuid) (hexchanges : p.Exchanges X A)
    (hx : p.before.Accepts app p.time X client x S) (hxunused : x.rotatedAt = none ∧ x.supersededAt = none)
    (hy : p.before.Accepts app t Y client y S) (hyunused : y.rotatedAt = none ∧ y.supersededAt = none)
    (hne : y.id ≠ x.id) : p.after.Accepts app t Y client y S := by
  obtain ⟨r, S', a, h⟩ := hexchanges.issues huuid hp (hs.keyed huuid)
  obtain rfl : x = r := Option.some.inj
    (((find?_key_iff (hs.tokenTree huuid).hashes).mpr ⟨hx.token, hx.tokenHash⟩).symm.trans h.token)
  have hfirst : p.before.db.verdict x p.time = .firstUse := Database.verdict_of_unused _ hxunused
  have hyrow : p.before.db.settleRow x p.time p.time y = y := by
    simp [Database.settleRow, hfirst, hne]
  exact
    { token := by
        rw [h.after, Database.settle_eq_map]
        exact List.mem_append_left _ (hyrow ▸ List.mem_map_of_mem hy.token)
      tokenHash := hy.tokenHash
      session := by
        rw [h.after]
        simpa using hy.session
      id := hy.id
      live := hy.live
      enabled := by
        have henabled := hy.enabled
        unfold Database.Enabled at henabled ⊢
        rw [h.after]
        simpa using henabled
      verdict := by simp [Database.verdict_of_unused _ hyunused] }

end Accepts

end Bauth
