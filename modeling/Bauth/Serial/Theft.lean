import Bauth.Serial.Exchanges

/-!
# Stolen refresh tokens

When a token is exchanged twice, the second time past the grace, the tokens issued for it cannot
both be used: the first one was superseded when the second one was issued, and presenting it shows
that two parties hold tokens of the session.
-/

namespace Bauth

open Transaction

section Detection

variable {app : App} {p : Served} {T X : String}

/-! ### Detection -/

/-- The step presents the token `T`, whose row is `r`, for the client of its session `S`, before
the session expires. -/
structure Served.PresentsOwn (app : App) (p : Served) (T : String) (r : RefreshToken)
    (S : Session) : Prop where
  request : ∃ client, p.request.PresentsFor app T client ∧ S.clientId = client.id
  token : r ∈ p.before.db.refreshTokens
  tokenHash : r.tokenHash = app.hash T
  session : S ∈ p.before.db.sessions
  id : S.id = r.sessionId
  expiresAt : p.time < S.expiresAt

/-- The step is answered `invalid_grant` and leaves the session `S` revoked. -/
def Served.Detects (p : Served) (S : Session) : Prop :=
  (∃ description, p.response = .error (.oauth (.invalidGrant description))) ∧
    ∃ S' ∈ p.after.db.sessions, S'.id = S.id ∧ S'.revokedAt.isSome = true

lemma Served.PresentsOwn.detects {r : RefreshToken} {S : Session} (h : p.PresentsOwn app T r S)
    (huuid : Function.Injective app.uuid) (hp : p.Of app) (hreach : Reachable app p.before)
    (hstolen : p.before.db.verdict r p.time = .stolen) : p.Detects S := by
  obtain ⟨client, ⟨input, hrequest, hgrant, hT, hclient⟩, hsame⟩ := h.request
  have hids := (hreach.keyed huuid).uniqueIds
  have hpresented : Presented app input p.before.db client r S :=
    ⟨⟨T, hT, (find?_key_iff (hreach.tokenTree huuid).hashes).mpr ⟨h.token, h.tokenHash⟩⟩, hclient,
      (find?_key_iff hids.sessions).mpr ⟨h.session, h.id⟩⟩
  have houtcome := hp.outcome huuid (hreach.keyed huuid)
  rw [hrequest] at houtcome
  generalize hresponse : p.response = response at houtcome
  generalize hdb : p.after.db = d' at houtcome
  unfold Served.Detects
  rw [hresponse, hdb]
  cases houtcome with
  | exchange hcode h => simp [hgrant] at hcode
  | otherGrant hcode hrefresh => exact absurd hgrant hrefresh
  | refresh _ h =>
    cases h with
    | missing hnone => simp [hT] at hnone
    | noClient hnone => simp [hclient] at hnone
    | unknown hnone => exact absurd hpresented (hnone _ _ _)
    | otherClient h' hother =>
      obtain ⟨rfl, rfl, rfl⟩ := hpresented.unique h'
      exact absurd hsame hother
    | dead h' hdead =>
      obtain ⟨rfl, rfl, rfl⟩ := hpresented.unique h'
      refine ⟨⟨_, rfl⟩, S, h.session, rfl, ?_⟩
      rcases hdead with hrevoked | hexpired
      · exact Option.isSome_iff_ne_none.mpr hrevoked
      · exact absurd h.expiresAt (not_lt.mpr hexpired)
    | stolen h' hlive _ =>
      obtain ⟨rfl, rfl, rfl⟩ := hpresented.unique h'
      refine ⟨⟨_, rfl⟩, S.revoke p.time, ?_, rfl, rfl⟩
      exact mem_updateWhere.mpr ⟨S, h.session, by simp [hlive.revoked]⟩
    | disabled h' _ hverdict _ =>
      obtain ⟨rfl, rfl, rfl⟩ := hpresented.unique h'
      exact absurd hstolen hverdict
    | failed h' _ hverdict _ _ =>
      obtain ⟨rfl, rfl, rfl⟩ := hpresented.unique h'
      exact absurd hstolen hverdict
    | issued h' _ hverdict _ =>
      obtain ⟨rfl, rfl, rfl⟩ := hpresented.unique h'
      exact absurd hstolen hverdict

end Detection

/-! ### A token retried too late -/

section LateRetry

variable {app : App} {s s' : Server}

/-- A token superseded before a step is not exchanged by it, and shows the theft when its own client
presents it. -/
lemma superseded_detected (huuid : Function.Injective app.uuid) {p : Served} (hp : p.Of app)
    (hreach : Reachable app p.before) {X : String} {x : RefreshToken}
    (hx : x ∈ p.before.db.refreshTokens) (hhash : x.tokenHash = app.hash X)
    (hsuperseded : x.supersededAt.isSome = true) :
    (∀ A, ¬p.Exchanges X A) ∧ ∀ r S, p.PresentsOwn app X r S → p.Detects S := by
  have hfind := (find?_key_iff (hreach.tokenTree huuid).hashes).mpr ⟨hx, hhash⟩
  refine ⟨fun A h => ?_, fun r S h => ?_⟩
  · obtain ⟨r, S, a, h⟩ := h.issues huuid hp (hreach.keyed huuid)
    obtain rfl := Option.some.inj (hfind.symm.trans h.token)
    exact h.verdict (Database.verdict_of_superseded hsuperseded)
  · have hr := (find?_key_iff (hreach.tokenTree huuid).hashes).mpr ⟨h.token, h.tokenHash⟩
    obtain rfl := Option.some.inj (hfind.symm.trans hr)
    exact h.detects huuid hp hreach (Database.verdict_of_superseded hsuperseded)

/-- What a step leaves grows until the end of the run. -/
lemma Run.grows_around (huuid : Function.Injective app.uuid) (hs : Reachable app s)
    {l m : List Served} {p : Served} (hrun : Run app s (l ++ p :: m) s')
    (huses : ∀ z ∈ l ++ p :: m, z.request.UsesTokens) :
    p.before.db.Grows p.after.db ∧ p.after.db.Grows s'.db := by
  obtain ⟨hl, hp, hm⟩ := hrun.around
  have hreach := hs.run hl
  have hp' := hp.run
  refine ⟨hp'.grows huuid hreach fun z hz => huses z ?_, ?_⟩
  · obtain rfl := List.mem_singleton.mp hz
    simp
  · exact hm.grows huuid (hreach.run hp') fun z hz => huses z (by simp [hz])

/-- A token is not exchanged before it exists. -/
lemma Served.Issues.not_exchanged_before {p : Served} {T X : String} {r x : RefreshToken}
    {S : Session} (h : p.Issues app T X r S x) (huuid : Function.Injective app.uuid)
    (hs : Reachable app s) {l : List Served} (hrun : Run app s l p.before)
    (huses : ∀ z ∈ l, z.request.UsesTokens) {z : Served} (hz : z ∈ l) (A : String) :
    ¬z.Exchanges X A := by
  intro hexchanges
  obtain ⟨l₁, l₂, rfl⟩ := List.append_of_mem hz
  obtain ⟨hl₁, hzof, -⟩ := hrun.around
  obtain ⟨rz, Sz, a, hissues⟩ := hexchanges.issues huuid hzof ((hs.run hl₁).keyed huuid)
  obtain ⟨hstep, hafter⟩ := hrun.grows_around huuid hs huses
  obtain ⟨r', hr', hages⟩ := (hstep.trans hafter).refreshTokens rz
    (List.mem_of_find?_eq_some hissues.token)
  have hhash : rz.tokenHash = app.hash X := by simpa using List.find?_some hissues.token
  exact h.fresh (List.mem_map.mpr ⟨r', hr', hages.tokenHash.trans hhash⟩)

/-- `T` is exchanged for `X` and, past the grace, for `Y`. -/
structure LateRetry (app : App) (p q : Served) (T X Y : String) : Prop where
  first : p.Exchanges T X
  second : q.Exchanges T Y
  late : ∃ r ∈ q.before.db.refreshTokens, r.tokenHash = app.hash T ∧
    ∃ t, r.rotatedAt = some t ∧ refreshReuseGrace < q.time - t

/-- When the second token is issued, the first one was not used, and is superseded. -/
lemma LateRetry.supersedes {l m n : List Served} {p q : Served} {T X Y : String}
    (h : LateRetry app p q T X Y) (huuid : Function.Injective app.uuid) (hs : Reachable app s)
    (hrun : Run app s (l ++ p :: (m ++ q :: n)) s')
    (huses : ∀ z ∈ l ++ p :: (m ++ q :: n), z.request.UsesTokens) :
    (∀ z ∈ l ++ p :: (m ++ [q]), ∀ A, ¬z.Exchanges X A) ∧
      ∃ x ∈ q.after.db.refreshTokens, x.tokenHash = app.hash X ∧ x.supersededAt.isSome = true := by
  obtain ⟨hl, hp, hrest⟩ := hrun.around
  obtain ⟨hm, hq, hn⟩ := hrest.around
  have hpreach := hs.run hl
  have hp' := hp.run
  have hqreach := (hpreach.run hp').run hm
  have huses_m : ∀ z ∈ m, z.request.UsesTokens := fun z hz => huses z (by simp [hz])
  obtain ⟨r, S, x, hX⟩ := h.first.issues huuid hp (hpreach.keyed huuid)
  obtain ⟨r', S', y, hY⟩ := h.second.issues huuid hq (hqreach.keyed huuid)
  have hgrows := hm.grows huuid (hpreach.run hp') huses_m
  -- the row of `T` is the same at both exchanges
  obtain ⟨r₁, hr₁, hages₁, -⟩ := hX.rotated
  obtain ⟨r₂, hr₂, hages₂⟩ := hgrows.refreshTokens r₁ hr₁
  have hashes := (hqreach.tokenTree huuid).hashes
  have hT : r.tokenHash = app.hash T := by simpa using List.find?_some hX.token
  have hr' : r₂ = r' := by
    have := (find?_key_iff hashes).mpr ⟨hr₂, hages₂.tokenHash.trans (hages₁.tokenHash.trans hT)⟩
    exact Option.some.inj (this.symm.trans hY.token)
  have hid : r'.id = r.id := hr' ▸ hages₂.id.trans hages₁.id
  -- the second exchange is a retry, so the child `x` was not used
  obtain ⟨r₃, hr₃, hhash₃, t, ht, hlate⟩ := h.late
  obtain rfl : r₃ = r' :=
    Option.some.inj (((find?_key_iff hashes).mpr ⟨hr₃, hhash₃⟩).symm.trans hY.token)
  obtain ⟨hretry, hunused⟩ := Database.verdict_eq_retry ht hlate hY.verdict
  have hx : x ∈ p.after.db.refreshTokens := by
    rw [hX.after]
    simp
  obtain ⟨x', hx', hxages⟩ := hgrows.refreshTokens x hx
  have hparent : x'.parentId = some r₃.id := by rw [hxages.parentId, hX.parentId, hid]
  have hrotated : x'.rotatedAt = none := by
    have := List.any_eq_false.mp hunused x' hx'
    simpa [hparent] using this
  have hxhash : x'.tokenHash = app.hash X := hxages.tokenHash.trans hX.tokenHash
  refine ⟨fun z hz A hexchanges => ?_, q.before.db.settleRow r₃ q.time q.time x', ?_, ?_, ?_⟩
  · simp only [List.mem_append, List.mem_cons, List.not_mem_nil, or_false] at hz
    rcases hz with hz | rfl | hz | rfl
    · exact hX.not_exchanged_before huuid hs hl (fun z hz => huses z (by simp [hz])) hz A hexchanges
    · exact hX.ne (h.first.1.unique hexchanges.1)
    · obtain ⟨m₁, m₂, rfl⟩ := List.append_of_mem hz
      obtain ⟨hm₁, hz, -⟩ := hm.around
      obtain ⟨rz, Sz, a, hissues⟩ := hexchanges.issues huuid hz
        (((hpreach.run hp').run hm₁).keyed huuid)
      obtain ⟨rz', hrz', hzages, hzrotated⟩ := hissues.rotated
      obtain ⟨rz'', hrz'', hzages'⟩ :=
        (hm.grows_around huuid (hpreach.run hp') huses_m).2.refreshTokens rz' hrz'
      have hzhash : rz''.tokenHash = app.hash X := by
        rw [hzages'.tokenHash, hzages.tokenHash]
        simpa using List.find?_some hissues.token
      obtain rfl := List.inj_on_of_nodup_map hashes hrz'' hx' (hzhash.trans hxhash.symm)
      obtain ⟨t', ht'⟩ := Option.isSome_iff_exists.mp hzrotated
      simp [hzages'.rotatedAt t' ht'] at hrotated
    · exact hX.ne (h.second.1.unique hexchanges.1)
  · rw [hY.after, Database.settle_eq_map]
    exact List.mem_append_left _ (List.mem_map_of_mem hx')
  · rw [(Database.settleRow_ages ..).tokenHash, hxhash]
  · exact Database.settleRow_of_retry hretry hparent hrotated

/-! ### The whole run -/

/-- The token `r` was issued for `id`, or for one of its successors. -/
inductive Database.Descends (d : Database) (id : Uuid) : RefreshToken → Prop
  | child {r : RefreshToken} (hr : r ∈ d.refreshTokens) (hparent : r.parentId = some id) :
      d.Descends id r
  | next {r r' : RefreshToken} (h : d.Descends id r) (hr' : r' ∈ d.refreshTokens)
      (hparent : r'.parentId = some r.id) : d.Descends id r'

/-- If a successor was used, so was the child it descends from. -/
lemma Database.TokenTree.usedSuccessor {d : Database} (htree : d.TokenTree)
    (hids : d.UniqueIds) {id : Uuid} {u : RefreshToken} (h : d.Descends id u)
    (hu : u.rotatedAt.isSome = true) : d.usedSuccessor id = true := by
  induction h with
  | child hr hparent => exact List.any_eq_true.mpr ⟨_, hr, by simp [hparent, hu]⟩
  | @next r r' h hr' hparent ih =>
    obtain ⟨r'', hr'', hid, -, hrotated⟩ := htree.parents r' hr' r.id hparent
    have hr : r ∈ d.refreshTokens := by cases h <;> assumption
    obtain rfl := List.inj_on_of_nodup_map hids.refreshTokens hr'' hr hid
    exact ih hrotated

/-- In a run of refreshes, logouts and session revocations, a token retried past the grace never
yields two tokens that are both used; presenting the first of them afterwards, or the token itself
once a successor was used, is detected. -/
theorem reuse_detected (huuid : Function.Injective app.uuid) (hs : Reachable app s)
    {steps : List Served} (hrun : Run app s steps s') (huses : ∀ z ∈ steps, z.request.UsesTokens) :
    (∀ l p m q n T X Y, steps = l ++ p :: (m ++ q :: n) → LateRetry app p q T X Y →
      ¬((∃ z ∈ steps, ∃ A, z.Exchanges X A) ∧ ∃ z ∈ steps, ∃ A, z.Exchanges Y A) ∧
        ∀ z ∈ n, ∀ r S, z.PresentsOwn app X r S → z.Detects S) ∧
      ∀ z ∈ steps, ∀ T r S t u, z.PresentsOwn app T r S → r.rotatedAt = some t →
        refreshReuseGrace < z.time - t → z.before.db.Descends r.id u →
          u.rotatedAt.isSome = true → z.Detects S := by
  refine ⟨?_, fun z hz T r S t u hown hr hlate hu hused => ?_⟩
  · rintro l p m q n T X Y rfl h
    obtain ⟨hnot, x, hx, hhash, hsuperseded⟩ := h.supersedes huuid hs hrun huses
    obtain ⟨hl, hq, hn⟩ := Run.around (l := l ++ p :: m) (p := q) (m := n) (by simpa using hrun)
    have hreach : Reachable app q.after := (hs.run hl).run (hq.run)
    have hafter : ∀ z ∈ n, (∀ A, ¬z.Exchanges X A) ∧
        ∀ r S, z.PresentsOwn app X r S → z.Detects S := by
      intro z hz
      obtain ⟨n₁, n₂, rfl⟩ := List.append_of_mem hz
      obtain ⟨hn₁, hzof, -⟩ := hn.around
      obtain ⟨x', hx', hages⟩ := (hn₁.grows huuid hreach fun z' hz' =>
        huses z' (by simp [hz'])).refreshTokens x hx
      obtain ⟨t, ht⟩ := Option.isSome_iff_exists.mp hsuperseded
      exact superseded_detected huuid hzof (hreach.run hn₁) hx' (hages.tokenHash.trans hhash)
        (by simp [hages.supersededAt t ht])
    refine ⟨?_, fun z hz => (hafter z hz).2⟩
    rintro ⟨⟨z, hz, A, hexchanges⟩, -⟩
    by_cases hzn : z ∈ n
    · exact (hafter z hzn).1 A hexchanges
    · refine hnot z ?_ A hexchanges
      simp only [List.mem_append, List.mem_cons, List.not_mem_nil, or_false] at hz ⊢
      tauto
  · obtain ⟨l, m, rfl, hl, hz, -⟩ := hrun.before hz
    have hreach := hs.run hl
    exact hown.detects huuid hz hreach (Database.verdict_of_usedSuccessor hr hlate
      ((hreach.tokenTree huuid).usedSuccessor (hreach.keyed huuid).uniqueIds hu hused))

end LateRetry

/-! ### A retry past the grace on the example server -/

section Example

/-- The first token is exchanged, and again 31 seconds later. -/
def exampleFirst : Served := serve exampleApp 4 exampleReply (refreshWith "app" "ppp-iii") exampleServer

def exampleSecond : Served :=
  serve exampleApp 31000005 exampleReply (refreshWith "app" "ppp-iii") exampleFirst.after

/-- Then the first of the two tokens issued for it is presented. -/
def exampleThird (clientId : String) : Served :=
  serve exampleApp 31000006 exampleReply (refreshWith clientId "pppp-iiii") exampleSecond.after

lemma example_run (clientId : String) :
    Run exampleApp exampleServer [exampleFirst, exampleSecond, exampleThird clientId]
      (exampleThird clientId).after :=
  ((Run.nil.snoc 4 exampleReply _ (by decide +kernel)).snoc 31000005 exampleReply _
    (by decide)).snoc 31000006 exampleReply _ (by decide)

lemma example_usesTokens (clientId : String) :
    ∀ z ∈ [exampleFirst, exampleSecond, exampleThird clientId], z.request.UsesTokens := by
  simp [exampleFirst, exampleSecond, exampleThird, serve, refreshWith, Request.UsesTokens]

/-- The row of the first token, and of the token first issued for it. -/
def exampleToken : RefreshToken where
  id := 19
  sessionId := 14
  parentId := none
  tokenHash := exampleApp.hash "ppp-iii"
  rotatedAt := some 4
  supersededAt := none
  createdAt := 3

def exampleIssued : RefreshToken where
  id := 29
  sessionId := 14
  parentId := some 19
  tokenHash := exampleApp.hash "pppp-iiii"
  rotatedAt := none
  supersededAt := some 31000005
  createdAt := 4

def exampleSession : Session where
  id := 14
  userId := 7
  clientId := "app"
  authorizationCodeId := some 27
  expiresAt := 2592000000003
  revokedAt := none
  createdAt := 3

lemma example_lateRetry :
    LateRetry exampleApp exampleFirst exampleSecond "ppp-iii" "pppp-iiii" "ppppp-iiiiii" where
  first := ⟨⟨_, rfl, rfl, rfl⟩,
    { accessToken := "uuuuuuussssssssssssss", expiresIn := 900, refreshToken := "pppp-iiii" },
    by decide +kernel, rfl⟩
  second := ⟨⟨_, rfl, rfl, rfl⟩,
    { accessToken := "uuuuuuussssssssssssss", expiresIn := 900, refreshToken := "ppppp-iiiiii" },
    by decide +kernel, rfl⟩
  late := ⟨exampleToken, by decide +kernel, by decide +kernel, 4, rfl, by decide⟩

/-- Presented by its own client, the first token issued is detected. -/
theorem reuse_detected_late : (exampleThird "app").Detects exampleSession :=
  ((reuse_detected exampleApp_uuid_injective exampleServer_reachable (example_run "app")
      (example_usesTokens "app")).1 [] exampleFirst [] exampleSecond [exampleThird "app"] "ppp-iii"
      "pppp-iiii" "ppppp-iiiiii" rfl example_lateRetry).2 _ (List.mem_singleton_self _) exampleIssued
    exampleSession
    { request := ⟨_, ⟨_, rfl, rfl, rfl, rfl⟩, rfl⟩
      token := by decide +kernel
      tokenHash := rfl
      session := by decide +kernel
      id := rfl
      expiresAt := by decide }

/-- Presented for another client, it is refused and the session stays: the client is compared
before the reuse is looked for. -/
theorem reuse_by_other_client_undetected :
    ¬∀ (s s' : Server) (l m n : List Served) (p q z : Served) (T X Y : String) (r : RefreshToken)
      (S : Session), Reachable exampleApp s → Run exampleApp s (l ++ p :: (m ++ q :: n)) s' →
      (∀ z ∈ l ++ p :: (m ++ q :: n), z.request.UsesTokens) → LateRetry exampleApp p q T X Y →
      z ∈ n → z.request.Presents X → r ∈ z.before.db.refreshTokens →
      r.tokenHash = exampleApp.hash X → S ∈ z.before.db.sessions → S.id = r.sessionId →
      z.time < S.expiresAt → z.Detects S := by
  intro h
  obtain ⟨-, S', hS', -, hrevoked⟩ := h exampleServer _ [] [] [exampleThird "other"] exampleFirst
    exampleSecond (exampleThird "other") "ppp-iii" "pppp-iiii" "ppppp-iiiiii" exampleIssued
    exampleSession exampleServer_reachable (example_run "other") (example_usesTokens "other")
    example_lateRetry (List.mem_singleton_self _) ⟨_, rfl, rfl, rfl⟩ (by decide +kernel) rfl
    (by decide +kernel) rfl (by decide)
  have hnone : ∀ S' ∈ (exampleThird "other").after.db.sessions, S'.revokedAt.isSome = false := by
    decide +kernel
  simp [hnone S' hS'] at hrevoked

end Example

end Bauth
