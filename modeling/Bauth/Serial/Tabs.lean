import Bauth.Serial.Theft

/-!
# Two tabs refreshing at the same moment

Within the grace a token can be exchanged twice, and both tokens issued for it stay usable. The
grace runs from the first rotation, so two tabs that retry a token long after its first answer was
lost supersede one another.
-/

namespace Bauth

open Transaction

/-! ### Two tabs -/

/-- The request `x` at `t₁` exchanges `X`, and then the request `y` at `t₂` exchanges `Y`. -/
def BothExchanged (app : App) (s : Server) (t₁ t₂ : Time)
    (reply₁ reply₂ : (q : Question) → Reply q) (x y : Request) (X Y : String) : Prop :=
  (∃ A, (serve app t₁ reply₁ x s).Exchanges X A) ∧
    ∃ B, (serve app t₂ reply₂ y (serve app t₁ reply₁ x s).after).Exchanges Y B

/-- `T` is exchanged for `X` by `p` and at once for `Y` by `q`, within the grace of one another. -/
structure TwoTabs (app : App) (p q : Served) (T X Y : String) : Prop where
  reachable : Reachable app p.before
  fst : p.Of app
  snd : q.Of app
  consecutive : q.before = p.after
  first : p.Exchanges T X
  second : q.Exchanges T Y
  close : q.time - p.time ≤ refreshReuseGrace

/-- `T` was not rotated before `p`, or the grace of its first rotation lasts until `q`. -/
def WithinGrace (app : App) (p q : Served) (T : String) : Prop :=
  ∀ r ∈ p.before.db.refreshTokens, r.tokenHash = app.hash T →
    ∀ t, r.rotatedAt = some t → q.time - t ≤ refreshReuseGrace

/-- The session that `T` belongs to. -/
def Server.SessionOf (app : App) (s : Server) (T : String) (S : Session) : Prop :=
  ∃ r ∈ s.db.refreshTokens, r.tokenHash = app.hash T ∧ S ∈ s.db.sessions ∧ S.id = r.sessionId

section TwoTabs

variable {app : App} {p q : Served} {T X Y : String} {client : Client}

/-- Both refreshes see the same session, and the second one the row the first one left of `T`. -/
lemma TwoTabs.same (h : TwoTabs app p q T X Y) (huuid : Function.Injective app.uuid)
    {r r' x y : RefreshToken} {S S' : Session} (hX : p.Issues app T X r S x)
    (hY : q.Issues app T Y r' S' y) :
    r' = p.before.db.settleRow r p.time p.time r ∧ S' = S := by
  have hafter : Reachable app p.after := h.reachable.run h.fst.run
  have hages := p.before.db.settleRow_ages r p.time p.time r
  have hr : p.before.db.settleRow r p.time p.time r ∈ q.before.db.refreshTokens := by
    rw [h.consecutive, hX.after, Database.settle_eq_map]
    exact List.mem_append_left _ (List.mem_map_of_mem (List.mem_of_find?_eq_some hX.token))
  have hhash : r.tokenHash = app.hash T := by simpa using List.find?_some hX.token
  have hr' : r' = p.before.db.settleRow r p.time p.time r := by
    have hfind := (find?_key_iff ((h.consecutive ▸ hafter).tokenTree huuid).hashes).mpr
      ⟨hr, hages.tokenHash.trans hhash⟩
    exact Option.some.inj (hY.token.symm.trans hfind)
  refine ⟨hr', ?_⟩
  have hsession := hY.session
  rw [h.consecutive, hX.after, hr', hages.sessionId] at hsession
  exact Option.some.inj (hsession.symm.trans (by simpa using hX.session))

/-- Within the grace, both tokens issued are there, and unused. -/
lemma TwoTabs.accepts (h : TwoTabs app p q T X Y) (huuid : Function.Injective app.uuid)
    (hgrace : WithinGrace app p q T) (hclient : p.request.PresentsFor app T client) :
    ∃ x y S, x.id ≠ y.id ∧ (x.rotatedAt = none ∧ x.supersededAt = none) ∧
      (y.rotatedAt = none ∧ y.supersededAt = none) ∧ q.after.SessionOf app T S ∧
      ∀ t, t < S.expiresAt →
        q.after.Accepts app t X client x S ∧ q.after.Accepts app t Y client y S := by
  have hqreach : Reachable app q.before := h.consecutive ▸ h.reachable.run h.fst.run
  obtain ⟨r, S, x, hX⟩ := h.first.issues huuid h.fst (h.reachable.keyed huuid)
  obtain ⟨r', S', y, hY⟩ := h.second.issues huuid h.snd (hqreach.keyed huuid)
  obtain ⟨hr', rfl⟩ := h.same huuid hX hY
  -- the second refresh finds `T` rotated within the grace
  have hsuperseded : r'.supersededAt = none := by
    by_contra hne
    exact hY.verdict (Database.verdict_of_superseded (Option.isSome_iff_ne_none.mpr hne))
  obtain ⟨t, ht⟩ := Option.isSome_iff_exists.mp (Database.rotatedAt_settleRow hX.verdict)
  rw [← hr'] at ht
  have hlate : q.time - t ≤ refreshReuseGrace := by
    rcases p.before.db.settleRow_cases r p.time p.time r with
      hsame | ⟨-, -, -, hrow⟩ | ⟨-, -, hunused, hrow⟩
    · have hhash : r.tokenHash = app.hash T := by simpa using List.find?_some hX.token
      exact hgrace r (List.mem_of_find?_eq_some hX.token) hhash t (by rw [← hsame, ← hr', ht])
    · obtain rfl : p.time = t := by simpa [hr', hrow] using ht
      exact h.close
    · simp [RefreshToken.unused, hr', hrow] at hunused ht
      simp [ht] at hunused
  have hverdict := Database.verdict_of_grace (d := q.before.db) hsuperseded ht hlate
  -- so it changes no row
  have hsettle : q.before.db.settle r' q.time q.time = q.before.db := by
    simp [Database.settle, hverdict]
  have hafter : q.after.db =
      { q.before.db with refreshTokens := q.before.db.refreshTokens ++ [y] } := by
    rw [hY.after, hsettle]
  have hx : x ∈ q.before.db.refreshTokens := by
    rw [h.consecutive, hX.after]
    simp
  have hne : x.id ≠ y.id := by
    intro hid
    have hxy : x = y := List.inj_on_of_nodup_map
      ((hqreach.run h.snd.run).keyed huuid).uniqueIds.refreshTokens (by simp [hafter, hx])
      (by simp [hafter]) hid
    refine hY.fresh (List.mem_map.mpr ⟨x, hx, ?_⟩)
    rw [hxy, hY.tokenHash]
  have hmem := List.mem_of_find?_eq_some hY.session
  have hid : S'.id = r'.sessionId := by simpa using List.find?_some hY.session
  have hsession : S'.clientId = client.id := by
    obtain ⟨client', hclient', hsame⟩ := hX.client
    obtain ⟨input, hinput, -, -, hc⟩ := hclient
    obtain ⟨input', hinput', -, -, hc'⟩ := hclient'
    obtain rfl := Request.token.inj (hinput.symm.trans hinput')
    obtain rfl := Option.some.inj (hc.symm.trans hc')
    exact hsame
  have henabled : q.after.db.Enabled S'.userId := by
    rw [hafter]
    exact hY.enabled
  refine ⟨x, y, S', hne, hX.unused, hY.unused, ⟨r', ?_, ?_, ?_, hid⟩, fun t₁ ht₁ => ⟨?_, ?_⟩⟩
  · rw [hafter]
    exact List.mem_append_left _ (List.mem_of_find?_eq_some hY.token)
  · simpa using List.find?_some hY.token
  · rwa [hafter]
  · exact
      { token := by simp [hafter, hx]
        tokenHash := hX.tokenHash
        session := by rwa [hafter]
        id := hX.sessionId.symm
        live := ⟨hsession, hY.revokedAt, ht₁⟩
        enabled := henabled
        verdict := by simp [Database.verdict_of_unused _ hX.unused] }
  · exact
      { token := by simp [hafter]
        tokenHash := hY.tokenHash
        session := by rwa [hafter]
        id := hY.sessionId.symm
        live := ⟨hsession, hY.revokedAt, ht₁⟩
        enabled := henabled
        verdict := by simp [Database.verdict_of_unused _ hY.unused] }

/-- A token whose first rotation is past the grace of the second refresh loses the first token
issued. -/
lemma TwoTabs.lateRetry (h : TwoTabs app p q T X Y) (huuid : Function.Injective app.uuid)
    (hlate : ¬WithinGrace app p q T) : LateRetry app p q T X Y := by
  simp only [WithinGrace, not_forall, not_le] at hlate
  obtain ⟨r, hr, hhash, t, ht, hlate⟩ := hlate
  have huses : p.request.UsesTokens := by
    obtain ⟨input, hinput, hgrant, -⟩ := h.first.1
    rw [hinput]
    exact hgrant
  obtain ⟨r', hr', hages⟩ :=
    ((h.fst.outcome huuid (h.reachable.keyed huuid)).grows huses).refreshTokens r hr
  refine ⟨h.first, h.second, r', h.consecutive ▸ hr', hages.tokenHash.trans hhash, t, ?_, hlate⟩
  exact hages.rotatedAt t ht

end TwoTabs

/-- Two tabs that refresh `T` within the grace of one another both keep a working token, whichever
they use first, exactly when the grace of the first rotation of `T` lasts until the second one. -/
theorem twoTabs_iff {app : App} {p q : Served} {T X Y : String} {client : Client}
    (huuid : Function.Injective app.uuid) (hsecret : Function.Injective app.secret)
    (hsha : Function.Injective app.sha256) (h : TwoTabs app p q T X Y)
    (hclient : p.request.PresentsFor app T client) {x y : Request}
    (hx : x.PresentsFor app X client) (hy : y.PresentsFor app Y client)
    {reply₁ reply₂ : (q : Question) → Reply q} {t₁ t₂ : Time} (ht₁ : q.time ≤ t₁)
    (ht₂ : t₁ ≤ t₂) (hkey₁ : CanSign reply₁ t₁) (hkey₂ : CanSign reply₂ t₂)
    (hexpires : ∀ S, q.after.SessionOf app T S → t₂ < S.expiresAt) :
    WithinGrace app p q T ↔
      BothExchanged app q.after t₁ t₂ reply₁ reply₂ x y X Y ∧
        BothExchanged app q.after t₁ t₂ reply₁ reply₂ y x Y X := by
  have hqreach : Reachable app q.before := h.consecutive ▸ h.reachable.run h.fst.run
  have hreach : Reachable app q.after := hqreach.run h.snd.run
  have hclock : q.after.clock = q.time := by
    rw [h.snd.serve]
    rfl
  constructor
  · intro hgrace
    obtain ⟨a, b, S, hne, ha, hb, hS, haccepts⟩ := h.accepts huuid hgrace hclient
    have hlt := hexpires S hS
    have hA := (haccepts t₁ (ht₂.trans_lt hlt)).1
    have hB := (haccepts t₁ (ht₂.trans_lt hlt)).2
    -- whichever goes first leaves the other acceptable
    have hstep : ∀ request : Request, (serve app t₁ reply₁ request q.after).Of app :=
      fun request => ⟨rfl, by rw [← hclock] at ht₁; exact ht₁⟩
    obtain ⟨A, hA'⟩ := hA.exchanges huuid hsecret hsha hreach hx hkey₁
    obtain ⟨B, hB'⟩ := hB.exchanges huuid hsecret hsha hreach hy hkey₁
    have hBafter := Server.Accepts.after_exchange (hstep x) hreach huuid hA' hA ha
      (haccepts t₂ hlt).2 hb hne.symm
    have hAafter := Server.Accepts.after_exchange (hstep y) hreach huuid hB' hB hb
      (haccepts t₂ hlt).1 ha hne
    exact ⟨⟨⟨A, hA'⟩, hBafter.exchanges huuid hsecret hsha (hreach.run (hstep x).run) hy hkey₂⟩,
      ⟨B, hB'⟩, hAafter.exchanges huuid hsecret hsha (hreach.run (hstep y).run) hx hkey₂⟩
  · rintro ⟨⟨⟨A, hA⟩, -⟩, -⟩
    by_contra hlate
    have hretry := h.lateRetry huuid hlate
    have hrun : Run app p.before ([] ++ p :: ([] ++ q :: [])) q.after :=
      h.fst.run.append (h.consecutive ▸ h.snd.run)
    have huses : ∀ z ∈ [] ++ p :: ([] ++ q :: []), z.request.UsesTokens := by
      obtain ⟨input, hinput, hgrant, -⟩ := h.first.1
      obtain ⟨input', hinput', hgrant', -⟩ := h.second.1
      simp [hinput, hinput', hgrant, hgrant', Request.UsesTokens]
    obtain ⟨-, x', hx', hhash, hsuperseded⟩ := hretry.supersedes huuid h.reachable hrun huses
    have hof : (serve app t₁ reply₁ x q.after).Of app := ⟨rfl, by rw [← hclock] at ht₁; exact ht₁⟩
    exact (superseded_detected huuid hof hreach hx' hhash hsuperseded).1 A hA

/-! ### Two tabs on the example server -/

section Example

/-- A second tab, a microsecond after the first one. -/
def exampleTab (first : Served) : Served :=
  serve exampleApp (first.time + 1) exampleReply (refreshWith "app" "ppp-iii") first.after

/-- The first two refreshes ever. -/
theorem twoTabs_iff_first :
    BothExchanged exampleApp (exampleTab exampleFirst).after 6 7 exampleReply exampleReply
        (refreshWith "app" "pppp-iiii") (refreshWith "app" "ppppp-iii") "pppp-iiii" "ppppp-iii" ∧
      BothExchanged exampleApp (exampleTab exampleFirst).after 6 7 exampleReply exampleReply
        (refreshWith "app" "ppppp-iii") (refreshWith "app" "pppp-iiii") "ppppp-iii" "pppp-iiii" := by
  have htabs : TwoTabs exampleApp exampleFirst (exampleTab exampleFirst) "ppp-iii" "pppp-iiii"
      "ppppp-iii" :=
    { reachable := exampleServer_reachable
      fst := ⟨rfl, by decide⟩
      snd := ⟨rfl, by decide⟩
      consecutive := rfl
      first := example_lateRetry.first
      second := ⟨⟨_, rfl, rfl, rfl⟩,
        { accessToken := "uuuuuuussssssssssssss", expiresIn := 900, refreshToken := "ppppp-iii" },
        by decide +kernel, rfl⟩
      close := by decide }
  have hexpires : ∀ S ∈ (exampleTab exampleFirst).after.db.sessions, (7 : Time) < S.expiresAt := by
    decide +kernel
  refine (twoTabs_iff exampleApp_uuid_injective exampleApp_secret_injective
    exampleApp_sha256_injective htabs ⟨_, rfl, rfl, rfl, rfl⟩ ⟨_, rfl, rfl, rfl, rfl⟩
    ⟨_, rfl, rfl, rfl, rfl⟩ (by decide) (by decide) (exampleReply_canSign (by decide))
    (exampleReply_canSign (by decide)) ?_).mp ?_
  · rintro S ⟨r, -, -, hS, -⟩
    exact hexpires S hS
  · intro r hr _ t ht
    have hnone : ∀ r ∈ exampleFirst.before.db.refreshTokens, r.rotatedAt = none := by
      decide +kernel
    simp [hnone r hr] at ht

/-- The response to the first refresh was lost; both tabs retry it more than 30 seconds later, and
the token of the first tab is refused. -/
theorem twoTabs_lost_response :
    ¬∀ (p q : Served) (T X Y : String) (client : Client) (x y : Request) (t₁ t₂ : Time),
      TwoTabs exampleApp p q T X Y → p.request.PresentsFor exampleApp T client →
      x.PresentsFor exampleApp X client → y.PresentsFor exampleApp Y client →
      q.time ≤ t₁ → t₁ ≤ t₂ → (∀ S, q.after.SessionOf exampleApp T S → t₂ < S.expiresAt) →
      BothExchanged exampleApp q.after t₁ t₂ exampleReply exampleReply x y X Y ∧
        BothExchanged exampleApp q.after t₁ t₂ exampleReply exampleReply y x Y X := by
  intro h
  have htabs : TwoTabs exampleApp exampleSecond (exampleTab exampleSecond) "ppp-iii"
      "ppppp-iiiiii" "pppppp-iiiiii" :=
    { reachable := exampleServer_reachable.run
        (Served.Of.run (p := exampleFirst) ⟨rfl, by decide⟩)
      fst := ⟨rfl, by decide⟩
      snd := ⟨rfl, by decide⟩
      consecutive := rfl
      first := example_lateRetry.second
      second := ⟨⟨_, rfl, rfl, rfl⟩,
        { accessToken := "uuuuuuussssssssssssss", expiresIn := 900
          refreshToken := "pppppp-iiiiii" }, by decide +kernel, rfl⟩
      close := by decide }
  have hexpires : ∀ S ∈ (exampleTab exampleSecond).after.db.sessions,
      (31000008 : Time) < S.expiresAt := by
    decide +kernel
  obtain ⟨⟨⟨A, -, response, hresponse, -⟩, -⟩, -⟩ := h exampleSecond (exampleTab exampleSecond)
    "ppp-iii" "ppppp-iiiiii" "pppppp-iiiiii" _ (refreshWith "app" "ppppp-iiiiii")
    (refreshWith "app" "pppppp-iiiiii") 31000007 31000008 htabs ⟨_, rfl, rfl, rfl, rfl⟩
    ⟨_, rfl, rfl, rfl, rfl⟩ ⟨_, rfl, rfl, rfl, rfl⟩ (by decide) (by decide) (by
      rintro S ⟨r, -, -, hS, -⟩
      exact hexpires S hS)
  have hrefused : (serve exampleApp 31000007 exampleReply (refreshWith "app" "ppppp-iiiiii")
      (exampleTab exampleSecond).after).response =
        .error (.oauth (.invalidGrant "refresh token was already used")) := by
    decide +kernel
  rw [hrefused] at hresponse
  cases hresponse

end Example

end Bauth
