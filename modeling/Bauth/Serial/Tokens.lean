import Bauth.Alone.Outcome
import Bauth.Serial.Script

/-!
# The tree of refresh tokens

The tokens of a session form a tree: a token is created for the one it replaces, once that one was
exchanged. What a refresh does to the tree is described row by row, and every reachable database
holds such trees, each token found by its hash.
-/

namespace Bauth

open Transaction

/-! ### Accepting a token, row by row -/

namespace Database

variable (d : Database)

/-- What accepting the token `r` makes of the row `r'`. -/
def settleRow (r : RefreshToken) (utc now : Time) (r' : RefreshToken) : RefreshToken :=
  match d.verdict r utc with
  | .firstUse =>
    if r'.id = r.id && r'.rotatedAt.isNone then { r' with rotatedAt := some now } else r'
  | .retry =>
    if r'.parentId = some r.id && r'.unused then { r' with supersededAt := some now } else r'
  | .grace | .stolen => r'

variable {d} {r r' : RefreshToken} {utc now : Time}

lemma settle_eq_map :
    d.settle r utc now = { d with refreshTokens := d.refreshTokens.map (d.settleRow r utc now) } := by
  have hrow : d.settleRow r utc now = fun r' => d.settleRow r utc now r' := rfl
  rw [hrow]
  unfold settle settleRow
  cases d.verdict r utc with
  | firstUse => rfl
  | retry => rfl
  | grace => simp
  | stolen => simp

lemma settleRow_cases (d : Database) (r : RefreshToken) (utc now : Time) (r' : RefreshToken) :
    d.settleRow r utc now r' = r' ∨
      (d.verdict r utc = .firstUse ∧ r'.id = r.id ∧ r'.rotatedAt = none ∧
        d.settleRow r utc now r' = { r' with rotatedAt := some now }) ∨
      (d.verdict r utc = .retry ∧ r'.parentId = some r.id ∧ r'.unused = true ∧
        d.settleRow r utc now r' = { r' with supersededAt := some now }) := by
  unfold settleRow
  cases hv : d.verdict r utc with
  | firstUse =>
    dsimp only
    split_ifs with h
    · simp only [Bool.and_eq_true, decide_eq_true_eq, Option.isNone_iff_eq_none] at h
      exact .inr (.inl ⟨rfl, h.1, h.2, rfl⟩)
    · exact .inl rfl
  | retry =>
    dsimp only
    split_ifs with h
    · simp only [Bool.and_eq_true, decide_eq_true_eq] at h
      exact .inr (.inr ⟨rfl, h.1, h.2, rfl⟩)
    · exact .inl rfl
  | grace => exact .inl rfl
  | stolen => exact .inl rfl

end Database

/-! ### Ageing -/

/-- The row `r'` is the row `r` some time later. -/
structure RefreshToken.Ages (r r' : RefreshToken) : Prop where
  id : r'.id = r.id
  sessionId : r'.sessionId = r.sessionId
  parentId : r'.parentId = r.parentId
  tokenHash : r'.tokenHash = r.tokenHash
  rotatedAt : ∀ t, r.rotatedAt = some t → r'.rotatedAt = some t
  supersededAt : ∀ t, r.supersededAt = some t → r'.supersededAt = some t

lemma RefreshToken.Ages.refl (r : RefreshToken) : r.Ages r :=
  ⟨rfl, rfl, rfl, rfl, fun _ h => h, fun _ h => h⟩

lemma RefreshToken.Ages.trans {r r' r'' : RefreshToken} (h : r.Ages r') (h' : r'.Ages r'') :
    r.Ages r'' :=
  ⟨h'.id.trans h.id, h'.sessionId.trans h.sessionId, h'.parentId.trans h.parentId,
    h'.tokenHash.trans h.tokenHash, fun t ht => h'.rotatedAt t (h.rotatedAt t ht),
    fun t ht => h'.supersededAt t (h.supersededAt t ht)⟩

lemma Database.settleRow_ages (d : Database) (r : RefreshToken) (utc now : Time)
    (r' : RefreshToken) : r'.Ages (d.settleRow r utc now r') := by
  rcases d.settleRow_cases r utc now r' with
    h | ⟨-, -, hnone, h⟩ | ⟨-, -, hunused, h⟩
  · rw [h]
    exact .refl r'
  · rw [h]
    exact ⟨rfl, rfl, rfl, rfl, fun t ht => by simp [hnone] at ht, fun _ => id⟩
  · rw [h]
    refine ⟨rfl, rfl, rfl, rfl, fun _ => id, fun t ht => ?_⟩
    simp [RefreshToken.unused, ht] at hunused

/-- Once accepted, a token is rotated. -/
lemma Database.rotatedAt_settleRow {d : Database} {r : RefreshToken} {utc now : Time}
    (h : d.verdict r utc ≠ .stolen) : (d.settleRow r utc now r).rotatedAt.isSome = true := by
  cases hrotated : r.rotatedAt with
  | some t =>
    rw [(d.settleRow_ages r utc now r).rotatedAt t hrotated]
    rfl
  | none =>
    have hfirst : d.verdict r utc = .firstUse := by
      cases hsuperseded : r.supersededAt with
      | some t => simp [Database.verdict, hsuperseded] at h
      | none => simp [Database.verdict, hsuperseded, hrotated]
    simp [Database.settleRow, hfirst, hrotated]

/-! ### The trees of a reachable database -/

/-- A token is found by its hash, and replaces a token of its session that was exchanged. -/
structure Database.TokenTree (d : Database) : Prop where
  hashes : (d.refreshTokens.map RefreshToken.tokenHash).Nodup
  parents : ∀ r ∈ d.refreshTokens, ∀ p, r.parentId = some p →
    ∃ r' ∈ d.refreshTokens, r'.id = p ∧ r'.sessionId = r.sessionId ∧ r'.rotatedAt.isSome = true

namespace Database.TokenTree

variable {d d' : Database}

/-- Ageing row by row keeps the trees. -/
lemma map (h : d.TokenTree) (f : RefreshToken → RefreshToken) (hf : ∀ r : RefreshToken, r.Ages (f r)) :
    ({ d with refreshTokens := d.refreshTokens.map f }).TokenTree where
  hashes := by
    have : d.refreshTokens.map (RefreshToken.tokenHash ∘ f) =
        d.refreshTokens.map RefreshToken.tokenHash :=
      List.map_congr_left fun r _ => (hf r).tokenHash
    simpa [this] using h.hashes
  parents := by
    intro r hr p hp
    obtain ⟨r₀, hr₀, rfl⟩ := List.mem_map.mp hr
    rw [(hf r₀).parentId] at hp
    obtain ⟨r', hr', hid, hsession, hrotated⟩ := h.parents r₀ hr₀ p hp
    obtain ⟨t, ht⟩ := Option.isSome_iff_exists.mp hrotated
    refine ⟨f r', List.mem_map_of_mem hr', (hf r').id.trans hid, ?_, ?_⟩
    · rw [(hf r').sessionId, hsession, (hf r₀).sessionId]
    · rw [(hf r').rotatedAt t ht]
      rfl

/-- A token is deleted with the one it was rotated from. -/
lemma filter (h : d.TokenTree) {p : RefreshToken → Bool}
    (htokens : d'.refreshTokens = d.refreshTokens.filter p)
    (hp : ∀ r ∈ d.refreshTokens, ∀ r' ∈ d.refreshTokens, r.rotatedFrom r' = true → p r = true →
      p r' = true) : d'.TokenTree where
  hashes := by
    rw [htokens]
    exact (List.filter_sublist.map _).nodup h.hashes
  parents := by
    intro r hr id hid
    rw [htokens] at hr ⊢
    obtain ⟨hr, hkept⟩ := List.mem_filter.mp hr
    obtain ⟨r', hr', hid', hsession, hrotated⟩ := h.parents r hr id hid
    have hparent : r.rotatedFrom r' = true := decide_eq_true (hid.trans (congrArg some hid'.symm))
    exact ⟨r', List.mem_filter.mpr ⟨hr', hp r hr r' hr' hparent hkept⟩, hid', hsession, hrotated⟩

lemma of_eq (h : d.TokenTree) (htokens : d'.refreshTokens = d.refreshTokens) : d'.TokenTree := by
  refine h.filter (p := fun _ => true) ?_ fun _ _ _ _ _ h => h
  rw [htokens, List.filter_true]

lemma parentsWithin (h : d.TokenTree) (hids : (d.refreshTokens.map RefreshToken.id).Nodup) :
    d.ParentsWithin := by
  intro r hr p hp hparent
  obtain ⟨r', hr', hid, hsession, -⟩ := h.parents r hr p.id hparent
  rw [← hsession, List.inj_on_of_nodup_map hids hr' hp hid]

/-- A new token replaces an exchanged token of its session, or none. -/
lemma append (h : d.TokenTree) {r : RefreshToken}
    (htokens : d'.refreshTokens = d.refreshTokens ++ [r])
    (hhash : r.tokenHash ∉ d.refreshTokens.map RefreshToken.tokenHash)
    (hparent : ∀ p, r.parentId = some p → ∃ r' ∈ d.refreshTokens, r'.id = p ∧
      r'.sessionId = r.sessionId ∧ r'.rotatedAt.isSome = true) : d'.TokenTree where
  hashes := by
    rw [htokens, List.map_append, List.nodup_append]
    refine ⟨h.hashes, by simp, ?_⟩
    rintro x hx y hy rfl
    obtain rfl : x = r.tokenHash := by simpa using hy
    exact hhash hx
  parents := by
    intro r' hr' p hp
    rw [htokens] at hr' ⊢
    have hold : ∀ r'' ∈ d.refreshTokens, r'' ∈ d.refreshTokens ++ [r] := fun r'' hr'' =>
      List.mem_append_left _ hr''
    rcases List.mem_append.mp hr' with hr' | hr'
    · obtain ⟨r'', hr'', hrest⟩ := h.parents r' hr' p hp
      exact ⟨r'', hold r'' hr'', hrest⟩
    · obtain rfl := List.mem_singleton.mp hr'
      obtain ⟨r'', hr'', hrest⟩ := hparent p hp
      exact ⟨r'', hold r'' hr'', hrest⟩

lemma settle (h : d.TokenTree) (r : RefreshToken) (utc now : Time) :
    (d.settle r utc now).TokenTree := by
  rw [Database.settle_eq_map]
  exact h.map _ (d.settleRow_ages r utc now)

lemma deleteSessions (h : d.TokenTree) (p : Session → Bool) : (d.deleteSessions p).TokenTree := by
  refine h.filter rfl fun r hr r' hr' hrefers hkept => ?_
  simp only [Bool.not_eq_true', ← Bool.not_eq_true] at hkept ⊢
  exact fun hgone => hkept (cascades_of_refers hr hr' hrefers hgone)

lemma deleteUsers (h : d.TokenTree) (p : User → Bool) : (d.deleteUsers p).TokenTree := by
  refine deleteSessions ?_ _
  exact h.of_eq rfl

lemma purged (h : d.TokenTree) (hd : Purged d d') : d'.TokenTree := by
  induction hd with
  | refl => exact h
  | loginFlow _ id ih => exact ih.of_eq rfl
  | emailChange _ id ih => exact ih.of_eq rfl
  | confirmation _ id ih => exact ih.of_eq rfl
  | session _ id ih => exact ih.deleteSessions _
  | user _ id ih => exact ih.deleteUsers _
  | signingKeys _ keys ih => exact ih.of_eq rfl

end Database.TokenTree

/-- No request breaks the trees. -/
lemma Request.Outcome.tokenTree {app : App} {env : Program.Env sig} {process : ℕ} {d d' : Database}
    {request : Request} {response : Response} {events : List Event}
    (h : request.Outcome app env process d response d' events) (hd : d.TokenTree) :
    d'.TokenTree := by
  cases h with
  | createFlow h => cases h <;> exact hd.of_eq rfl
  | requestMagicLink h => cases h <;> exact hd.of_eq rfl
  | confirmMagicLink h =>
    cases h with
    | refused => exact hd
    | loggedIn _ _ _ hlogin =>
      obtain ⟨haccount, _⟩ := hlogin
      obtain ⟨users, rfl, -⟩ := haccount.tables
      exact hd.of_eq rfl
  | confirmMagicCode h =>
    cases h with
    | refused => exact hd
    | wrong => exact hd.of_eq rfl
    | loggedIn _ _ hlogin =>
      obtain ⟨haccount, _⟩ := hlogin
      obtain ⟨users, rfl, -⟩ := haccount.tables
      exact hd.of_eq rfl
  | exchange _ h =>
    cases h with
    | refused => exact hd
    | replayed => exact hd.of_eq rfl
    | issued _ _ _ _ _ _ _ _ _ _ i i' j k hnew =>
      exact hd.append rfl hnew fun p hp => nomatch hp
  | refresh _ h =>
    cases h with
    | stolen => exact hd.of_eq rfl
    | disabled => exact (hd.settle ..).of_eq rfl
    | @issued client r s hp hlive hverdict _ key i j k hnew =>
      refine (hd.settle r env.utc env.now).append rfl (mt (Database.settle_collides r _ _).mp hnew) ?_
      rintro p ⟨⟩
      obtain ⟨T, -, hr⟩ := hp.token
      have hmem : d.settleRow r env.utc env.now r ∈ (d.settle r env.utc env.now).refreshTokens := by
        rw [Database.settle_eq_map]
        exact List.mem_map_of_mem (List.mem_of_find?_eq_some hr)
      have hsession : s.id = r.sessionId := by simpa using List.find?_some hp.session
      have hages := d.settleRow_ages r env.utc env.now r
      exact ⟨_, hmem, hages.id, hages.sessionId.trans hsession.symm,
        Database.rotatedAt_settleRow hverdict⟩
    | _ => exact hd
  | otherGrant => exact hd
  | revoke => exact hd.of_eq rfl
  | revokeRefused => exact hd
  | getMe => exact hd
  | listSessions => exact hd
  | revokeSession h => cases h <;> exact hd.of_eq rfl
  | requestConfirmation h => cases h <;> exact hd.of_eq rfl
  | changeEmail h => cases h <;> exact hd.of_eq rfl
  | deleteAccount h =>
    cases h with
    | refused => exact hd
    | wrong => exact hd.of_eq rfl
    | @deleted user c => exact (@Database.TokenTree.of_eq _ (d.consumeConfirmation env.now c.id) hd rfl).deleteUsers _
  | confirmEmailChange h => cases h <;> exact hd.of_eq rfl
  | purge h => exact hd.purged h
  | setDisabled => exact hd.of_eq rfl

/-! ### Where tokens come from -/

/-- The tokens of `d'` are tokens of `d` some time later, and new ones. -/
def Database.TokensFrom (app : App) (process : ℕ) (now : Time) (d d' : Database) : Prop :=
  ∀ r' ∈ d'.refreshTokens, (∃ r ∈ d.refreshTokens, r.Ages r') ∨
    ∃ sessionId parentId i j, r' = newToken app process sessionId parentId now i j

namespace Database.TokensFrom

variable {app : App} {process : ℕ} {now : Time} {d d' : Database}

lemma of_subset (h : ∀ r ∈ d'.refreshTokens, r ∈ d.refreshTokens) :
    d.TokensFrom app process now d' := fun r hr => .inl ⟨r, h r hr, .refl r⟩

lemma of_eq (h : d'.refreshTokens = d.refreshTokens) : d.TokensFrom app process now d' :=
  of_subset fun _ hr => h ▸ hr

lemma settle (r : RefreshToken) (utc : Time) :
    d.TokensFrom app process now (d.settle r utc now) := by
  rw [Database.settle_eq_map]
  intro r' hr'
  obtain ⟨r₀, hr₀, rfl⟩ := List.mem_map.mp hr'
  exact .inl ⟨r₀, hr₀, d.settleRow_ages ..⟩

lemma append {d'' : Database} (h : d.TokensFrom app process now d') {sessionId : Uuid}
    {parentId : Option Uuid} {i j : ℕ} (htokens : d''.refreshTokens =
      d'.refreshTokens ++ [newToken app process sessionId parentId now i j]) :
    d.TokensFrom app process now d'' := by
  intro r hr
  rw [htokens] at hr
  rcases List.mem_append.mp hr with hr | hr
  · exact h r hr
  · exact .inr ⟨_, _, _, _, List.mem_singleton.mp hr⟩

lemma purged (h : Purged d d') : d.TokensFrom app process now d' := by
  refine of_subset ?_
  induction h with
  | refl => exact fun r hr => hr
  | session _ id ih => exact fun r hr => ih r (List.mem_of_mem_filter hr)
  | user _ id ih => exact fun r hr => ih r (List.mem_of_mem_filter hr)
  | loginFlow _ id ih => exact ih
  | emailChange _ id ih => exact ih
  | confirmation _ id ih => exact ih
  | signingKeys _ keys ih => exact ih

end Database.TokensFrom

lemma Request.Outcome.tokensFrom {app : App} {env : Program.Env sig} {process : ℕ}
    {d d' : Database} {request : Request} {response : Response} {events : List Event}
    (h : request.Outcome app env process d response d' events) :
    d.TokensFrom app process env.now d' := by
  cases h with
  | createFlow h => cases h <;> exact .of_eq rfl
  | requestMagicLink h => cases h <;> exact .of_eq rfl
  | confirmMagicLink h =>
    cases h with
    | refused => exact .of_eq rfl
    | loggedIn _ _ _ hlogin =>
      obtain ⟨haccount, _⟩ := hlogin
      obtain ⟨users, rfl, -⟩ := haccount.tables
      exact .of_eq rfl
  | confirmMagicCode h =>
    cases h with
    | refused => exact .of_eq rfl
    | wrong => exact .of_eq rfl
    | loggedIn _ _ hlogin =>
      obtain ⟨haccount, _⟩ := hlogin
      obtain ⟨users, rfl, -⟩ := haccount.tables
      exact .of_eq rfl
  | exchange _ h =>
    cases h with
    | refused => exact .of_eq rfl
    | replayed => exact .of_eq rfl
    | issued => exact (Database.TokensFrom.of_eq rfl).append rfl
  | refresh _ h =>
    cases h with
    | disabled => exact fun r hr => Database.TokensFrom.settle _ _ r hr
    | issued => exact (Database.TokensFrom.settle _ _).append rfl
    | _ => exact .of_eq rfl
  | revokeSession h => cases h <;> exact .of_eq rfl
  | requestConfirmation h => cases h <;> exact .of_eq rfl
  | changeEmail h => cases h <;> exact .of_eq rfl
  | deleteAccount h =>
    cases h with
    | refused => exact .of_eq rfl
    | wrong => exact .of_eq rfl
    | deleted => exact .of_subset fun r hr => List.mem_of_mem_filter hr
  | confirmEmailChange h => cases h <;> exact .of_eq rfl
  | purge h => exact .purged h
  | _ => exact .of_eq rfl

/-- The hash of every token is that of a secret drawn by a request served before. -/
theorem Reachable.tokens_drawn {app : App} (huuid : Function.Injective app.uuid) {s : Server}
    (hs : Reachable app s) : ∀ r ∈ s.db.refreshTokens, ∃ n : Draw, n.process < s.served ∧
      r.tokenHash = app.hash (app.secret n) := by
  refine hs.invariant (P := fun s => ∀ r ∈ s.db.refreshTokens, ∃ n : Draw, n.process < s.served ∧
    r.tokenHash = app.hash (app.secret n)) (fun _ _ hr => nomatch hr) fun p hp hreach h r hr => ?_
  have hserved : p.after.served = p.before.served + 1 := by
    rw [hp.serve]
    rfl
  rw [hserved]
  rcases (hp.outcome huuid (hreach.keyed huuid)).tokensFrom r hr with
    ⟨r₀, hr₀, hages⟩ | ⟨sessionId, parentId, i, j, rfl⟩
  · obtain ⟨n, hn, hhash⟩ := h r₀ hr₀
    exact ⟨n, by omega, hages.tokenHash.trans hhash⟩
  · exact ⟨⟨p.before.served, j⟩, by simp, rfl⟩

/-- A request does not draw the secret of a token that is there. -/
lemma Reachable.not_collides {app : App} (huuid : Function.Injective app.uuid)
    (hsecret : Function.Injective app.secret) (hsha : Function.Injective app.sha256) {s : Server}
    (hs : Reachable app s) (j : ℕ) : ¬s.db.Collides app s.served j := by
  intro h
  obtain ⟨r, hr, hhash⟩ := List.mem_map.mp h
  obtain ⟨n, hn, hhash'⟩ := hs.tokens_drawn huuid r hr
  obtain rfl := hsecret (asBytes_injective (hsha (hhash'.symm.trans hhash)))
  simp at hn

lemma Database.TokenTree.empty : ({} : Database).TokenTree :=
  ⟨List.nodup_nil, fun _ hr => nomatch hr⟩

theorem Reachable.tokenTree {app : App} (huuid : Function.Injective app.uuid) {s : Server}
    (hs : Reachable app s) : s.db.TokenTree :=
  hs.invariant (P := fun s => s.db.TokenTree) (fun _ => .empty) fun _ hp hreach h =>
    (hp.outcome huuid (hreach.keyed huuid)).tokenTree h

/-! ### Runs that use tokens -/

/-- The row `s'` is the row `s` some time later. -/
structure Session.Ages (s s' : Session) : Prop where
  id : s'.id = s.id
  userId : s'.userId = s.userId
  clientId : s'.clientId = s.clientId
  expiresAt : s'.expiresAt = s.expiresAt
  revokedAt : s.revokedAt.isSome = true → s'.revokedAt.isSome = true

/-- Every token and every session of `d` is in `d'`, some time later. -/
structure Database.Grows (d d' : Database) : Prop where
  refreshTokens : ∀ r ∈ d.refreshTokens, ∃ r' ∈ d'.refreshTokens, r.Ages r'
  sessions : ∀ s ∈ d.sessions, ∃ s' ∈ d'.sessions, s.Ages s'

lemma Session.Ages.refl (s : Session) : s.Ages s := ⟨rfl, rfl, rfl, rfl, fun h => h⟩

lemma Session.Ages.trans {s s' s'' : Session} (h : s.Ages s') (h' : s'.Ages s'') : s.Ages s'' :=
  ⟨h'.id.trans h.id, h'.userId.trans h.userId, h'.clientId.trans h.clientId,
    h'.expiresAt.trans h.expiresAt, fun hs => h'.revokedAt (h.revokedAt hs)⟩

namespace Database.Grows

variable {d d' d'' : Database}

lemma refl (d : Database) : d.Grows d :=
  ⟨fun r hr => ⟨r, hr, .refl r⟩, fun s hs => ⟨s, hs, .refl s⟩⟩

lemma trans (h : d.Grows d') (h' : d'.Grows d'') : d.Grows d'' where
  refreshTokens r hr := by
    obtain ⟨r', hr', hages⟩ := h.refreshTokens r hr
    obtain ⟨r'', hr'', hages'⟩ := h'.refreshTokens r' hr'
    exact ⟨r'', hr'', hages.trans hages'⟩
  sessions s hs := by
    obtain ⟨s', hs', hages⟩ := h.sessions s hs
    obtain ⟨s'', hs'', hages'⟩ := h'.sessions s' hs'
    exact ⟨s'', hs'', hages.trans hages'⟩

lemma revoke (d : Database) (p : Session → Bool) (now : Time) :
    d.Grows { d with sessions := updateWhere p (Session.revoke now) d.sessions } where
  refreshTokens := (refl d).refreshTokens
  sessions s hs := by
    refine ⟨if p s then s.revoke now else s, mem_updateWhere.mpr ⟨s, hs, rfl⟩, ?_⟩
    split_ifs
    · exact ⟨rfl, rfl, rfl, rfl, fun _ => rfl⟩
    · exact .refl s

lemma settle (d : Database) (r : RefreshToken) (utc now : Time) : d.Grows (d.settle r utc now) := by
  rw [Database.settle_eq_map]
  exact ⟨fun r' hr' => ⟨_, List.mem_map_of_mem hr', d.settleRow_ages r utc now r'⟩,
    (refl d).sessions⟩

lemma append (h : d.Grows d') (r : RefreshToken) :
    d.Grows { d' with refreshTokens := d'.refreshTokens ++ [r] } where
  refreshTokens r₀ hr₀ := by
    obtain ⟨r', hr', hages⟩ := h.refreshTokens r₀ hr₀
    exact ⟨r', List.mem_append_left _ hr', hages⟩
  sessions := h.sessions

end Database.Grows

/-- Refreshes, logouts and session revocations. -/
def Request.UsesTokens : Request → Prop
  | .token input => input.grantType = "refresh_token"
  | .revoke _ | .revokeSession .. => True
  | _ => False

/-- They forget no token and no session. -/
lemma Request.Outcome.grows {app : App} {env : Program.Env sig} {process : ℕ} {d d' : Database}
    {request : Request} {response : Response} {events : List Event}
    (h : request.Outcome app env process d response d' events) (huses : request.UsesTokens) :
    d.Grows d' := by
  cases h with
  | exchange hgrant h => simp [Request.UsesTokens, hgrant] at huses
  | refresh hgrant h =>
    cases h with
    | stolen => exact .revoke ..
    | disabled => exact (Database.Grows.settle ..).trans (.revoke ..)
    | issued => exact (Database.Grows.settle ..).append _
    | _ => exact .refl d
  | otherGrant => exact .refl d
  | revoke => exact .revoke ..
  | revokeRefused => exact .refl d
  | revokeSession h =>
    cases h with
    | refused => exact .refl d
    | revoked => exact .revoke ..
  | _ => exact huses.elim

lemma Run.grows {app : App} (huuid : Function.Injective app.uuid) {s s' : Server}
    {steps : List Served} (hs : Reachable app s) (hrun : Run app s steps s')
    (huses : ∀ p ∈ steps, p.request.UsesTokens) : s.db.Grows s'.db := by
  refine hrun.keeps (P := fun s' => s.db.Grows s'.db) (.refl s.db) fun p hp hof h => ?_
  obtain ⟨l, m, -, hl, -, -⟩ := hrun.before hp
  exact h.trans ((hof.outcome huuid ((hs.run hl).keyed huuid)).grows (huses p hp))

end Bauth
