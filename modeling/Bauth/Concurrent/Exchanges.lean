import Bauth.Concurrent.Handler
import Bauth.Alone.Refresh
import Bauth.Serial.Script
import Mathlib.Data.Int.ConditionallyCompleteOrder

/-!
# Exchanging one code side by side

Any number of requests present the same authorization code at the same time. The first one that
matches consumes it while it holds its row; the others find it consumed and revoke the session,
and those that do not match leave it as it was.
-/

namespace Bauth

open Transaction Transaction.Program Transition

/-- The sessions opened with a code. -/
def Database.openedBy (d : Database) (codeId : Uuid) : List Session :=
  d.sessions.filter fun s => s.authorizationCodeId = some codeId

/-- A code that was issued and not exchanged yet, and its flow. -/
structure Issued (d : Database) (c : AuthorizationCode) (f : LoginFlow) : Prop where
  mem : c ∈ d.authorizationCodes
  unique : ∀ c' ∈ d.authorizationCodes, c'.codeHash = c.codeHash → c' = c
  ids : (d.authorizationCodes.map AuthorizationCode.id).Nodup
  unused : c.consumedAt = none
  flow : d.loginFlows.find? (fun f => f.id = c.flowId) = some f
  unopened : d.openedBy c.id = []

/-- The request presents the code. -/
def OAuth.TokenRequest.Presents (app : App) (input : OAuth.TokenRequest) (c : AuthorizationCode) :
    Prop :=
  ∃ code, input.code = some code ∧ app.hash code = c.codeHash

/-- The request comes from the client the code was issued to, with what the flow was created
with. -/
structure OAuth.TokenRequest.Matches (app : App) (input : OAuth.TokenRequest) (f : LoginFlow) :
    Prop where
  client : ∃ client, app.client input.clientId = some client ∧ f.clientId = client.id
  redirectUri : input.redirectUri = some f.redirectUri
  verifier : ∃ verifier, input.codeVerifier = some verifier ∧
    app.pkceVerify verifier f.codeChallenge = true

/-- The codes once `c` is consumed. -/
def consumedCodes (c : AuthorizationCode) (now : Time) (codes : List AuthorizationCode) :
    List AuthorizationCode :=
  updateWhere (fun r => [c.id].contains r.id) (fun r => { r with consumedAt := some now }) codes

/-- Where the exchanges of `c` stand, whoever takes part: nobody consumed the code, or one of the
processes `W` opened its session. -/
structure Exchanging (app : App) (W : ℕ → Prop) (d₀ : Database) (c : AuthorizationCode)
    (d : Database) : Prop where
  users : d.users = d₀.users
  flows : d.loginFlows = d₀.loginFlows
  state : d.authorizationCodes = d₀.authorizationCodes ∧ d.refreshTokens = d₀.refreshTokens ∧
      d.openedBy c.id = [] ∨
    ∃ now S n, d.authorizationCodes = consumedCodes c now d₀.authorizationCodes ∧
      d.openedBy c.id = [S] ∧ S.id = app.uuid n ∧ W n.process

/-- The session of the code stays, and stays revoked. -/
def SessionKept (c : AuthorizationCode) (d d' : Database) : Prop :=
  ∀ S ∈ d.openedBy c.id, ∃ S', d'.openedBy c.id = [S'] ∧ S'.id = S.id ∧
    (S.revokedAt.isSome = true → S'.revokedAt.isSome = true)

/-- The winners other than process `i`. -/
def rivals (W : ℕ → Prop) (i : ℕ) : ℕ → Prop := fun j => W j ∧ j ≠ i

/-- The rules of the exchanges of one code: who locks its row keeps it as it is, and while a process
waits another one may open the session. While `K` holds, the keys that are loaded sign. -/
def exchangeRules (app : App) (W : ℕ → Prop) (K : Time → Prop) (d₀ : Database)
    (c : AuthorizationCode) : Rules sig where
  same l d d' := l.2 ≠ .keyShare → ∀ r : AuthorizationCode, l.1 = .authorizationCode r.id →
    (r ∈ d.authorizationCodes ↔ r ∈ d'.authorizationCodes)
  step i d d' := ∀ V : ℕ → Prop, (∀ j, rivals W i j → V j) → Exchanging app V d₀ c d →
    Exchanging app V d₀ c d' ∧ SessionKept c d d'
  expects _ _ _ _ := True
  replies
    | .signingKeys, t, keys => ∀ t', t ≤ t' → K t' → (keys.signingKey t').isSome = true
    | .limit _ _, _, _ => True
  same_refl _ _ _ _ _ := Iff.rfl
  same_trans _ _ _ _ h h' hmode r hr := (h hmode r hr).trans (h' hmode r hr)
  step_refl i d V _ h := by
    refine ⟨h, fun S hS => ?_⟩
    rcases h.state with ⟨-, -, hnone⟩ | ⟨now, S', n, -, hsome, -⟩
    · rw [hnone] at hS
      cases hS
    · rw [hsome] at hS
      obtain rfl := List.mem_singleton.mp hS
      exact ⟨S, hsome, rfl, id⟩
  step_trans i a b e h h' V hV ha := by
    obtain ⟨hb, hab⟩ := h V hV ha
    obtain ⟨he, hbe⟩ := h' V hV hb
    refine ⟨he, fun S hS => ?_⟩
    obtain ⟨S', hS', hid, hrevoked⟩ := hab S hS
    obtain ⟨S'', hS'', hid', hrevoked'⟩ := hbe S' (hS' ▸ List.mem_singleton_self S')
    exact ⟨S'', hS'', hid'.trans hid, hrevoked' ∘ hrevoked⟩

/-- How an exchange of `c` ends. -/
structure ExchangeEnded (app : App) (W : ℕ → Prop) (K : Time → Prop) (d₀ : Database)
    (c : AuthorizationCode) (f : LoginFlow) (i : ℕ) (input : OAuth.TokenRequest)
    (a : Except OAuthError OAuth.TokenResponse) (L : Place sig) (t : Time) (d : Database) : Prop where
  /-- With tokens, of the session it opened. -/
  tokens : ∀ response, a = .ok response → ∃ S n, d.openedBy c.id = [S] ∧ S.id = app.uuid ⟨i, n⟩
  /-- A matching one is refused for its own reasons, or because another one got the session. -/
  refused : input.Matches app f → ∀ e, a = .error e → e = .serverError ∧ ¬K t ∨
    (∃ S n, d.openedBy c.id = [S] ∧ S.id = app.uuid n ∧ rivals W i n.process) ∨
    (∃ x ∈ L.sights, x.label = .authorizationCodesConsume ∧ c.expiresAt ≤ x.now) ∨
    ¬d₀.Enabled c.userId
  /-- One that comes after the session was opened revokes it. -/
  replayed : (∃ x ∈ L.sights, x.label = .authorizationCodesConsume ∧ x.db.openedBy c.id ≠ []) →
    ∃ S ∈ d.openedBy c.id, S.revokedAt.isSome = true

section Exchange

variable {app : App} {W : ℕ → Prop} {K : Time → Prop} {d₀ d d' : Database} {c : AuthorizationCode} {f : LoginFlow}
  {i : ℕ} {input : OAuth.TokenRequest} {L : Place sig} {t t' : Time}

lemma Exchanging.unopened (hd : Exchanging app W d₀ c d)
    (hcodes : d.authorizationCodes = d₀.authorizationCodes) (hissued : Issued d₀ c f) :
    d.refreshTokens = d₀.refreshTokens ∧ d.openedBy c.id = [] := by
  rcases hd.state with ⟨-, hnone⟩ | ⟨now, S, n, hconsumed, -⟩
  · exact hnone
  · -- the row of the code cannot be both
    have hmem : c ∈ consumedCodes c now d₀.authorizationCodes := by
      rw [← hconsumed, hcodes]
      exact hissued.mem
    obtain ⟨r, hr, hsame⟩ := mem_updateWhere.mp hmem
    split_ifs at hsame with hid
    · have hnone := hissued.unused
      rw [← hsame] at hnone
      cases hnone
    · subst hsame
      simp at hid

lemma Exchanging.mono {V : ℕ → Prop} (hd : Exchanging app V d₀ c d) (hV : ∀ j, V j → W j) :
    Exchanging app W d₀ c d := by
  refine ⟨hd.users, hd.flows, ?_⟩
  rcases hd.state with hnone | ⟨now, S, n, hcodes, hS, hid, hn⟩
  · exact .inl hnone
  · exact .inr ⟨now, S, n, hcodes, hS, hid, hV _ hn⟩

/-- Who holds the row of the code before it was consumed finds it so later. -/
lemma Exchanging.others (hd : Exchanging app (rivals W i) d₀ c d) (hissued : Issued d₀ c f)
    (hcodes : d.authorizationCodes = d₀.authorizationCodes)
    (ho : (exchangeRules app W K d₀ c).Others i L t d t' d')
    (hheld : (.authorizationCode c.id, .noKeyUpdate) ∈ L.held) :
    Exchanging app (rivals W i) d₀ c d' ∧ d'.authorizationCodes = d₀.authorizationCodes := by
  have hd' := (ho.step _ (fun _ => id) hd).1
  have hmem : c ∈ d'.authorizationCodes := by
    refine (ho.same _ hheld nofun c rfl).mp ?_
    rw [hcodes]
    exact hissued.mem
  refine ⟨hd', ?_⟩
  rcases hd'.state with ⟨hsame, -⟩ | ⟨now, S, n, hconsumed, -⟩
  · exact hsame
  · rw [hconsumed] at hmem
    obtain ⟨r, hr, hsame⟩ := mem_updateWhere.mp hmem
    split_ifs at hsame with hid
    · have hnone := hissued.unused
      rw [← hsame] at hnone
      cases hnone
    · subst hsame
      simp at hid

/-! ### The statements -/

lemma within_of_codes {β : Type} {st : Statement sig β}
    (h : ∀ now n d e, ((st.run now n d).1 e).authorizationCodes = e.authorizationCodes) :
    (exchangeRules app W K d₀ c).Within st := by
  intro now n d l e _ _ r _
  rw [h]

lemma within_consume (codeHash : Bytes) :
    (exchangeRules app W K d₀ c).Within (AuthorizationCodes.consume codeHash) := by
  rintro now n d ⟨l, mode⟩ e hl hmode r rfl
  simp only [AuthorizationCodes.consume, update, Table.modify, Table.authorizationCodes] at hl ⊢
  have hfree : ∀ r' : AuthorizationCode, r'.id = r.id →
      (((d.authorizationCodes.filter fun c' => c'.codeHash = codeHash && c'.usable now &&
        d.loginFlows.any fun f => f.id = c'.flowId).map AuthorizationCode.id).contains r'.id) =
          false := by
    intro r' hr'
    rw [Bool.eq_false_iff]
    intro hmem
    obtain ⟨r₀, hr₀, hid⟩ := List.mem_map.mp (List.contains_iff_mem.mp hmem)
    have hconflict := hl _ (List.mem_map_of_mem hr₀)
    simp only [RowLock.conflict, hid, hr', decide_true, Bool.true_and] at hconflict
    cases mode with
    | keyShare => exact hmode rfl
    | noKeyUpdate => cases hconflict
    | update => cases hconflict
  rw [mem_updateWhere]
  constructor
  · exact fun hr => ⟨r, hr, by rw [hfree r rfl]; rfl⟩
  · rintro ⟨r₀, hr₀, hsame⟩
    by_cases hid : r₀.id = r.id
    · rw [hfree r₀ hid] at hsame
      exact hsame ▸ hr₀
    · split_ifs at hsame
      · exact absurd (congrArg AuthorizationCode.id hsame) hid
      · exact absurd (congrArg AuthorizationCode.id hsame) hid

/-- What `consume` finds: the code, or nothing. -/
lemma consume_cases (hissued : Issued d₀ c f) (hd : Exchanging app W d₀ c d) (now : Time) (n : Draw) :
    (d.authorizationCodes = d₀.authorizationCodes ∧ now < c.expiresAt ∧
      (AuthorizationCodes.consume c.codeHash).locks now d =
        [(.authorizationCode c.id, .noKeyUpdate)] ∧
      (AuthorizationCodes.consume c.codeHash).run now n d =
        (fun e => { e with authorizationCodes := consumedCodes c now e.authorizationCodes },
          some { id := c.id, userId := c.userId, clientId := f.clientId
                 redirectUri := f.redirectUri, codeChallenge := f.codeChallenge })) ∨
    ((d.openedBy c.id ≠ [] ∨ c.expiresAt ≤ now) ∧
      ((AuthorizationCodes.consume c.codeHash).run now n d).2 = none) := by
  have hids : (d.authorizationCodes.filter fun c' => c'.codeHash = c.codeHash && c'.usable now &&
      d.loginFlows.any fun f => f.id = c'.flowId) = [c] ∧
        d.authorizationCodes = d₀.authorizationCodes ∧ now < c.expiresAt ∨
      (d.authorizationCodes.filter fun c' => c'.codeHash = c.codeHash && c'.usable now &&
        d.loginFlows.any fun f => f.id = c'.flowId) = [] ∧
        (d.openedBy c.id ≠ [] ∨ c.expiresAt ≤ now) := by
    rcases hd.state with ⟨hsame, -⟩ | ⟨at', S, k, hconsumed, hopened, -⟩
    · rw [hsame, hd.flows]
      by_cases hexpired : now < c.expiresAt
      · refine .inl ⟨filter_eq_singleton hissued.ids hissued.mem ?_ ?_, rfl, hexpired⟩
        · have hid := List.find?_some hissued.flow
          have hflow : (d₀.loginFlows.any fun f => f.id = c.flowId) = true :=
            List.any_eq_true.mpr ⟨f, List.mem_of_find?_eq_some hissued.flow, hid⟩
          simp [AuthorizationCode.usable, hissued.unused, hexpired, hflow]
        · intro c' hc' hfound
          simp only [Bool.and_eq_true, decide_eq_true_eq] at hfound
          rw [hissued.unique c' hc' hfound.1.1]
      · refine .inr ⟨?_, .inr (not_lt.mp hexpired)⟩
        rw [List.filter_eq_nil_iff]
        intro c' hc' hfound
        simp only [Bool.and_eq_true, decide_eq_true_eq] at hfound
        obtain rfl := hissued.unique c' hc' hfound.1.1
        simp [AuthorizationCode.usable, hexpired] at hfound
    · refine .inr ⟨?_, .inl (by simp [hopened])⟩
      rw [hconsumed, List.filter_eq_nil_iff]
      intro c' hc' hfound
      simp only [Bool.and_eq_true, decide_eq_true_eq] at hfound
      obtain ⟨r, hr, rfl⟩ := mem_updateWhere.mp hc'
      split_ifs at hfound with hid
      · simp [AuthorizationCode.usable] at hfound
      · obtain rfl := hissued.unique r hr hfound.1.1
        simp at hid
  simp only [AuthorizationCodes.consume, update, Table.authorizationCodes]
  rcases hids with ⟨hhit, hsame, hlive⟩ | ⟨hhit, hwhy⟩
  · rw [hhit]
    refine .inl ⟨hsame, hlive, rfl, ?_⟩
    simp only [List.head?_cons, hd.flows, Option.bind_eq_bind, Option.bind_some, hissued.flow]
    rfl
  · rw [hhit]
    exact .inr ⟨hwhy, rfl⟩

/-! ### Holding the code -/

/-- A change that adds sessions and refresh tokens, and leaves the users, the flows and the codes. -/
def Opens (w : Database → Database) (sessions : List Session) (tokens : List RefreshToken) : Prop :=
  ∀ e, (w e).users = e.users ∧ (w e).loginFlows = e.loginFlows ∧
    (w e).authorizationCodes = e.authorizationCodes ∧ (w e).sessions = e.sessions ++ sessions ∧
    (w e).refreshTokens = e.refreshTokens ++ tokens

lemma opens_none : Opens (fun d => d) [] [] :=
  fun _ => ⟨rfl, rfl, rfl, (List.append_nil _).symm, (List.append_nil _).symm⟩

/-- An open transaction that consumed the code while nobody else had, and added `own` and `tokens`. -/
structure Holding (app : App) (W : ℕ → Prop) (i : ℕ) (d₀ : Database) (c : AuthorizationCode)
    (L : Place sig) (d : Database) (own : List Session) (tokens : List RefreshToken) : Prop where
  exchanging : Exchanging app (rivals W i) d₀ c d
  unused : d.authorizationCodes = d₀.authorizationCodes
  tx : ∃ tx, L.tx = some tx ∧ (.authorizationCode c.id, .noKeyUpdate) ∈ tx.locks ∧
    ∀ e, (tx.writes e).users = e.users ∧ (tx.writes e).loginFlows = e.loginFlows ∧
      (tx.writes e).authorizationCodes = consumedCodes c tx.start e.authorizationCodes ∧
      (tx.writes e).sessions = e.sessions ++ own ∧
      (tx.writes e).refreshTokens = e.refreshTokens ++ tokens
  sights : ∀ x ∈ L.sights, x.label = .authorizationCodesConsume → x.db.openedBy c.id = []

/-- What the transaction that holds the code sees. -/
structure HeldView (d₀ : Database) (c : AuthorizationCode) (own : List Session)
    (tokens : List RefreshToken) (v : Database) : Prop where
  users : v.users = d₀.users
  code : ∃ r ∈ v.authorizationCodes, r.id = c.id
  sessions : ∃ old, v.sessions = old ++ own ∧ ∀ s ∈ old, s.authorizationCodeId ≠ some c.id
  tokens : v.refreshTokens = d₀.refreshTokens ++ tokens

/-- How the exchange ends, wherever the exchanges of the code stand then. -/
def ExchangeDone (app : App) (W : ℕ → Prop) (K : Time → Prop) (d₀ : Database)
    (c : AuthorizationCode) (f : LoginFlow) (i : ℕ) (input : OAuth.TokenRequest) (a : Except OAuthError OAuth.TokenResponse)
    (L : Place sig) (t : Time) (d : Database) : Prop :=
  Exchanging app W d₀ c d ∧ ExchangeEnded app W K d₀ c f i input a L t d

lemma exchangeDone_stable (hK : ∀ t t', t ≤ t' → K t' → K t) :
    (exchangeRules app W K d₀ c).Stable i (ExchangeDone app W K d₀ c f i input) := by
  rintro a L L' t d t' d' ht hstep - hsights ⟨hd, hended⟩
  obtain ⟨hd', hkept⟩ := hstep W (fun j hj => hj.1) hd
  refine ⟨hd', fun response ha => ?_, fun hmatches e he => ?_, fun hreplay => ?_⟩
  · obtain ⟨S, n, hS, hid⟩ := hended.tokens response ha
    obtain ⟨S', hS', hsame, -⟩ := hkept S (hS ▸ List.mem_singleton_self S)
    exact ⟨S', n, hS', hsame.trans hid⟩
  · rcases hended.refused hmatches e he with ⟨he, hK'⟩ | ⟨S, n, hS, hid, hn⟩ | hexpired | hdisabled
    · exact .inl ⟨he, fun h => hK' (hK t t' ht h)⟩
    · obtain ⟨S', hS', hsame, -⟩ := hkept S (hS ▸ List.mem_singleton_self S)
      exact .inr (.inl ⟨S', n, hS', hsame.trans hid, hn⟩)
    · rw [hsights]
      exact .inr (.inr (.inl hexpired))
    · exact .inr (.inr (.inr hdisabled))
  · rw [hsights] at hreplay
    obtain ⟨S, hS, hrevoked⟩ := hended.replayed hreplay
    obtain ⟨S', hS', -, hkeeps⟩ := hkept S hS
    exact ⟨S', hS' ▸ List.mem_singleton_self S', hkeeps hrevoked⟩

lemma Holding.others {own : List Session} {tokens : List RefreshToken}
    (h : Holding app W i d₀ c L d own tokens) (hissued : Issued d₀ c f)
    (ho : (exchangeRules app W K d₀ c).Others i L t d t' d') :
    Holding app W i d₀ c L d' own tokens := by
  have htx := h.tx
  obtain ⟨tx, hL, hlock, -⟩ := htx
  have hheld : (.authorizationCode c.id, .noKeyUpdate) ∈ L.held := by
    rw [Place.held, hL]
    exact hlock
  obtain ⟨hd', hunused⟩ := h.exchanging.others hissued h.unused ho hheld
  exact ⟨hd', hunused, h.tx, h.sights⟩

/-- A statement of the transaction that holds the code. -/
lemma safe_holding {β : Type} {st : Statement sig β} {own : List Session}
    {tokens : List RefreshToken} {Q : β → Place sig → Time → Database → Prop}
    (h : Holding app W i d₀ c L d own tokens) (hissued : Issued d₀ c f)
    (hlabel : st.label ≠ .authorizationCodesConsume)
    (hst : ∀ now k v, HeldView d₀ c own tokens v → ∃ sessions tokens',
      Opens (st.run now ⟨i, k⟩ v).1 sessions tokens' ∧
      ∀ L' t' d', Holding app W i d₀ c L' d' (own ++ sessions) (tokens ++ tokens') →
        Q (st.run now ⟨i, k⟩ v).2 L' t' d')
    (hwithin : (exchangeRules app W K d₀ c).Within st) :
    (query st).safe (exchangeRules app W K d₀ c) i L t d Q := by
  obtain ⟨tx, hL, -⟩ := h.tx
  rw [Rules.safe_query_open hL]
  refine ⟨hwithin, fun t' d' ho _ => ?_⟩
  have h' := h.others hissued ho
  obtain ⟨tx', hL', hlock, hwrites⟩ := h'.tx
  obtain rfl := Option.some.inj (hL.symm.trans hL')
  have hview : HeldView d₀ c own tokens (tx.writes d') := by
    obtain ⟨husers, -, hcodes, hsessions, htokens⟩ := hwrites d'
    obtain ⟨hsame, hnone⟩ := h'.exchanging.unopened h'.unused hissued
    refine ⟨husers.trans h'.exchanging.users, ?_, ⟨d'.sessions, hsessions, fun s hs hcode => ?_⟩, ?_⟩
    · rw [hcodes, h'.unused]
      exact ⟨_, mem_updateWhere.mpr ⟨c, hissued.mem, rfl⟩, by split_ifs <;> rfl⟩
    · refine List.filter_eq_nil_iff.mp hnone s hs ?_
      simpa using hcode
    · rw [htokens, hsame]
  obtain ⟨sessions, tokens', hopens, hQ⟩ := hst tx.start L.draws (tx.writes d') hview
  refine hQ _ _ _ ⟨h'.exchanging, h'.unused, ⟨_, rfl, List.mem_append_left _ hlock, fun e => ?_⟩, ?_⟩
  · obtain ⟨husers, hflows, hcodes, hsessions, htokens⟩ := hopens (tx.writes e)
    obtain ⟨husers', hflows', hcodes', hsessions', htokens'⟩ := hwrites e
    refine ⟨husers.trans husers', hflows.trans hflows', hcodes.trans hcodes', ?_, ?_⟩
    · rw [hsessions, hsessions', List.append_assoc]
    · rw [htokens, htokens', List.append_assoc]
  · intro x hx hconsume
    rcases List.mem_append.mp hx with hx | hx
    · exact h'.sights x hx hconsume
    · rw [List.mem_singleton.mp hx] at hconsume
      exact absurd hconsume hlabel

/-- The transaction that holds the code fails. -/
lemma Holding.failed {own : List Session} {tokens : List RefreshToken}
    (h : Holding app W i d₀ c L d own tokens) (t : Time) {e : OAuthError}
    (hwhy : input.Matches app f → e = .serverError ∧ ¬K t ∨ ¬d₀.Enabled c.userId) :
    ExchangeDone app W K d₀ c f i input (.error e) L t d := by
  refine ⟨h.exchanging.mono fun j hj => hj.1, nofun, fun hmatches e' he => ?_,
    fun ⟨x, hx, hlabel, hopened⟩ => ?_⟩
  · obtain rfl := Except.error.inj he
    rcases hwhy hmatches with he | hdisabled
    · exact .inl he
    · exact .inr (.inr (.inr hdisabled))
  · exact absurd (h.sights x hx hlabel) hopened

/-! ### Coming too late -/

/-- An exchange that did not find the code usable, and why. -/
structure Losing (app : App) (W : ℕ → Prop) (i : ℕ) (d₀ : Database) (c : AuthorizationCode)
    (L : Place sig) (d : Database) : Prop where
  exchanging : Exchanging app (rivals W i) d₀ c d
  opened : (∃ x ∈ L.sights, x.label = .authorizationCodesConsume ∧ x.db.openedBy c.id ≠ []) →
    d.openedBy c.id ≠ []
  why : d.openedBy c.id ≠ [] ∨
    ∃ x ∈ L.sights, x.label = .authorizationCodesConsume ∧ c.expiresAt ≤ x.now

lemma SessionKept.opened (h : SessionKept c d d') (hopened : d.openedBy c.id ≠ []) :
    d'.openedBy c.id ≠ [] := by
  obtain ⟨S, hS⟩ := List.exists_mem_of_ne_nil _ hopened
  obtain ⟨S', hS', -⟩ := h S hS
  simp [hS']

lemma Losing.kept {L' : Place sig} (h : Losing app W i d₀ c L d)
    (hd' : Exchanging app (rivals W i) d₀ c d') (hkept : SessionKept c d d')
    (hsights : ∀ x, x.label = .authorizationCodesConsume → (x ∈ L'.sights ↔ x ∈ L.sights)) :
    Losing app W i d₀ c L' d' := by
  refine ⟨hd', fun ⟨x, hx, hlabel, hopened⟩ => ?_, ?_⟩
  · exact hkept.opened (h.opened ⟨x, (hsights x hlabel).mp hx, hlabel, hopened⟩)
  · rcases h.why with hopened | ⟨x, hx, hlabel, hexpired⟩
    · exact .inl (hkept.opened hopened)
    · exact .inr ⟨x, (hsights x hlabel).mpr hx, hlabel, hexpired⟩

lemma Losing.step {M : Place sig} (h : Losing app W i d₀ c L d)
    (hstep : (exchangeRules app W K d₀ c).step i d d')
    (hsights : ∀ x, x.label = .authorizationCodesConsume → (x ∈ M.sights ↔ x ∈ L.sights)) :
    Losing app W i d₀ c M d' := by
  obtain ⟨hd', hkept⟩ := hstep _ (fun _ => id) h.exchanging
  exact h.kept hd' hkept hsights

/-- A statement that is not `consume` adds nothing to what a late exchange saw. -/
lemma mem_sights_append (label : Query) (hlabel : label ≠ .authorizationCodesConsume) {x : Sight sig}
    {sights : List (Sight sig)} {now : Time} (hx : x.label = .authorizationCodesConsume) :
    x ∈ sights ++ [⟨label, now, d⟩] ↔ x ∈ sights := by
  rw [List.mem_append, List.mem_singleton, or_iff_left]
  rintro rfl
  exact hlabel hx

/-- Revoking by the code revokes its session. -/
lemma revoke_opened (hd : Exchanging app W d₀ c d) (hopened : d.openedBy c.id ≠ []) (now : Time)
    (n : Draw) {st : Statement sig (List Uuid)}
    (hst : st = Sessions.revokeWhere .sessionsRevokeByAuthorizationCode fun _ s =>
      s.authorizationCodeId = some c.id) :
    Exchanging app W d₀ c ((st.run now n d).1 d) ∧ SessionKept c d ((st.run now n d).1 d) ∧
      ∃ S ∈ ((st.run now n d).1 d).openedBy c.id, S.revokedAt.isSome = true := by
  subst hst
  rcases hd.state with ⟨-, -, hnone⟩ | ⟨at', S, k, hcodes, hS, hid, hW⟩
  · exact absurd hnone hopened
  generalize hids : ((d.sessions.filter fun s =>
    s.authorizationCodeId = some c.id && s.revokedAt.isNone).map Session.id) = ids
  have hrun : ((Sessions.revokeWhere .sessionsRevokeByAuthorizationCode fun _ s =>
      s.authorizationCodeId = some c.id).run now n d).1 d =
      { d with sessions := updateWhere (fun s => ids.contains s.id) (Session.revoke now) d.sessions } := by
    rw [← hids]
    rfl
  rw [hrun]
  have hfilter : Database.openedBy
      { d with sessions := updateWhere (fun s => ids.contains s.id) (Session.revoke now) d.sessions }
      c.id = [if ids.contains S.id then S.revoke now else S] := by
    have hmap : Database.openedBy
        { d with sessions := updateWhere (fun s => ids.contains s.id) (Session.revoke now) d.sessions }
        c.id = (d.openedBy c.id).map fun s => if ids.contains s.id then s.revoke now else s := by
      simp only [Database.openedBy, updateWhere, List.filter_map]
      refine congrArg _ (List.filter_congr fun s _ => ?_)
      simp only [Function.comp_apply]
      split_ifs <;> rfl
    rw [hmap, hS]
    rfl
  have hrevoked : (if ids.contains S.id then S.revoke now else S).revokedAt.isSome = true := by
    split_ifs with hin
    · rfl
    · -- it was revoked already
      by_contra hlive
      refine hin (List.contains_iff_mem.mpr ?_)
      have hmem : S ∈ d.openedBy c.id := by
        rw [hS]
        exact List.mem_singleton_self S
      obtain ⟨hmem, hcode⟩ := List.mem_filter.mp hmem
      rw [← hids]
      refine List.mem_map_of_mem (List.mem_filter.mpr ⟨hmem, ?_⟩)
      rw [hcode, Bool.true_and]
      simpa using hlive
  have hsame : (if ids.contains S.id then S.revoke now else S).id = S.id := by
    split_ifs <;> rfl
  refine ⟨⟨hd.users, hd.flows, .inr ⟨at', _, k, hcodes, hfilter, hsame.trans hid, hW⟩⟩, ?_, ?_⟩
  · intro S' hS'
    rw [hS] at hS'
    obtain rfl := List.mem_singleton.mp hS'
    exact ⟨_, hfilter, hsame, fun _ => hrevoked⟩
  · exact ⟨_, hfilter ▸ List.mem_singleton_self _, hrevoked⟩

/-- The row that `find_consumed` finds. -/
lemma findConsumed_cases (hissued : Issued d₀ c f) (hd : Exchanging app W d₀ c d) :
    ((d.authorizationCodes.find? fun r => r.codeHash = c.codeHash && r.consumedAt.isSome).map
      AuthorizationCode.id = none ∧ d.openedBy c.id = []) ∨
    ((d.authorizationCodes.find? fun r => r.codeHash = c.codeHash && r.consumedAt.isSome).map
      AuthorizationCode.id = some c.id ∧ d.openedBy c.id ≠ []) := by
  rcases hd.state with ⟨hsame, -, hnone⟩ | ⟨now, S, n, hconsumed, hS, -⟩
  · refine .inl ⟨?_, hnone⟩
    rw [Option.map_eq_none_iff, List.find?_eq_none, hsame]
    intro r hr hfound
    simp only [Bool.and_eq_true, decide_eq_true_eq] at hfound
    obtain rfl := hissued.unique r hr hfound.1
    rw [hissued.unused] at hfound
    cases hfound.2
  · refine .inr ⟨?_, by simp [hS]⟩
    have hfind : (d.authorizationCodes.find? fun r =>
        r.codeHash = c.codeHash && r.consumedAt.isSome).isSome = true := by
      rw [List.find?_isSome, hconsumed]
      refine ⟨{ c with consumedAt := some now }, ?_, by simp⟩
      exact mem_updateWhere.mpr ⟨c, hissued.mem, if_pos (by simp)⟩
    obtain ⟨r, hr⟩ := Option.isSome_iff_exists.mp hfind
    have hmem := List.mem_of_find?_eq_some hr
    have hfound := List.find?_some hr
    simp only [Bool.and_eq_true, decide_eq_true_eq] at hfound
    rw [hr, Option.map_some]
    rw [hconsumed] at hmem
    obtain ⟨r₀, hr₀, rfl⟩ := mem_updateWhere.mp hmem
    split_ifs at hfound ⊢ with hin
    · have hid : r₀.id = c.id := by simpa using hin
      exact congrArg some hid
    · rw [hissued.unique r₀ hr₀ hfound.1]

/-- A late exchange is refused, wherever it stands when the session is revoked. -/
lemma Losing.done (h : Losing app W i d₀ c L d) (t : Time) {e : OAuthError}
    (hrevoked : d.openedBy c.id ≠ [] → ∃ S ∈ d.openedBy c.id, S.revokedAt.isSome = true) :
    ExchangeDone app W K d₀ c f i input (.error e) L t d := by
  refine ⟨h.exchanging.mono fun j hj => hj.1, nofun, fun _ _ _ => ?_,
    fun hreplay => hrevoked (h.opened hreplay)⟩
  rcases h.why with hopened | hexpired
  · rcases h.exchanging.state with ⟨-, -, hnone⟩ | ⟨now, S, n, -, hS, hid, hn⟩
    · exact absurd hnone hopened
    · exact .inr (.inl ⟨S, n, hS, hid, hn⟩)
  · exact .inr (.inr (.inl hexpired))

/-- A late exchange revokes the session that was opened, if one was. -/
lemma reject_safe (hissued : Issued d₀ c f) (h : Losing app W i d₀ c L d) :
    Handler.safe (exchangeRules app W K d₀ c) i (do
      perform Program.abandon
      throw (← OAuth.rejectUnusableCode c.codeHash)) L t d
      (ExchangeDone app W K d₀ c f i input) := by
  simp only [OAuth.rejectUnusableCode, safe_bind, safe_perform, safe_run, Rules.safe_abandon]
  intro t₁ d₁ ho₁
  have h₁ : Losing app W i d₀ c { L with tx := none } d₁ := h.step ho₁.step fun _ _ => Iff.rfl
  rw [Rules.safe_query_closed rfl]
  refine ⟨Rules.within_select _ _, fun t₂ d₂ ho₂ _ => ⟨.refl, ?_⟩⟩
  simp only [AuthorizationCodes.findConsumed, Statement.select, id]
  have h₂ := h₁.step (M := ⟨none, L.draws + 1, L.events, L.sights ++
    [⟨.authorizationCodesFindConsumed, t₂, d₂⟩]⟩) ho₂.step fun x =>
    mem_sights_append .authorizationCodesFindConsumed (by decide)
  rcases findConsumed_cases hissued h₂.exchanging with ⟨hfind, hopened⟩ | ⟨hfind, hopened⟩
  · rw [hfind]
    exact h₂.done t₂ fun h => absurd hopened h
  · rw [hfind]
    simp only [safe_bind, safe_perform, Sessions.revokeByAuthorizationCode, Rules.safe_bind]
    rw [Rules.safe_query_closed rfl]
    refine ⟨within_of_codes fun _ _ _ _ => rfl, fun t₃ d₃ ho₃ _ => ?_⟩
    have h₃ := h₂.step (M := ⟨none, L.draws + 1, L.events, L.sights ++
      [⟨.authorizationCodesFindConsumed, t₂, d₂⟩]⟩) ho₃.step fun _ _ => Iff.rfl
    have hopened₃ := (ho₃.step _ (fun _ => id) h₂.exchanging).2.opened hopened
    obtain ⟨hd, hkept, hrevoked⟩ := revoke_opened h₃.exchanging hopened₃ t₃ ⟨i, L.draws + 1⟩ rfl
    refine ⟨fun j _ V _ hV => ?_, ?_⟩
    · obtain ⟨hd, hkept, -⟩ := revoke_opened hV hopened₃ t₃ ⟨i, L.draws + 1⟩ rfl
      exact ⟨hd, hkept⟩
    exact (h₃.kept hd hkept fun x =>
      mem_sights_append .sessionsRevokeByAuthorizationCode (by decide)).done t₃ fun _ => hrevoked

/-! ### The exchange -/

/-- `sessions::open`, in the transaction that holds the code: only a hash drawn before fails it. -/
lemma openSession_safe (hissued : Issued d₀ c f)
    (hfresh : ∀ t, K t → ∀ n, (app.generateToken n).hash ∉ d₀.refreshTokens.map RefreshToken.tokenHash)
    (h : Holding app W i d₀ c L d [] []) (huser : ∃ u ∈ d₀.users, u.id = c.userId)
    {clientId : String} {Q : Except OAuthError OpenedSession → Place sig → Time → Database → Prop}
    (hfail : ∀ L t d own tokens, Holding app W i d₀ c L d own tokens → ¬K t →
      Q (.error .serverError) L t d)
    (hopen : ∀ S token n tokens L t d, S.authorizationCodeId = some c.id → S.id = app.uuid ⟨i, n⟩ →
      Holding app W i d₀ c L d [S] tokens → Q (.ok ⟨S.id, token⟩) L t d) :
    Handler.safe (exchangeRules app W K d₀ c) i (openSession app c.userId clientId c.id) L t d Q := by
  simp only [openSession, newRefreshToken, safe_bind, safe_perform, safe_runChecked,
    Rules.safe_clock, Rules.safe_fresh]
  intro t₁ d₁ ho₁
  refine safe_holding (h.others hissued ho₁) hissued (by rintro ⟨⟩) (fun now k v hv => ?_)
    (within_of_codes fun now n d e => ?_)
  · obtain ⟨old, hold, hnone⟩ := hv.sessions
    have hunopened : ¬(v.sessions.any fun s => s.authorizationCodeId = some c.id) = true := by
      rw [hold, List.append_nil]
      simpa using hnone
    have hrefs : ((v.users.any fun u => u.id = c.userId) &&
        v.authorizationCodes.any fun r => r.id = c.id) = true := by
      have hcode := hv.code
      rw [hv.users]
      simpa using And.intro huser hcode
    simp only [Sessions.create, if_neg hunopened, if_pos hrefs]
    refine ⟨[_], [], fun e => ⟨rfl, rfl, rfl, rfl, (List.append_nil _).symm⟩,
      fun L₂ t₂ d₂ h₂ t₃ d₃ ho₃ => ?_⟩
    have h₃ := h₂.others hissued ho₃
    refine safe_holding (L := { L₂ with draws := L₂.draws + 1 })
      ⟨h₃.exchanging, h₃.unused, h₃.tx, h₃.sights⟩ hissued (by rintro ⟨⟩) (fun now' k' v' hv' => ?_)
      (within_of_codes fun now n d e => ?_)
    · obtain ⟨old', hold', -⟩ := hv'.sessions
      have hsession : ((v'.sessions.any fun s => s.id = app.uuid ⟨i, k⟩) &&
          (none : Option Uuid).all fun p => v'.refreshTokens.any fun r => r.id = p) = true := by
        rw [hold']
        simp
      by_cases hcollides : (v'.refreshTokens.any fun r =>
          r.tokenHash = (app.generateToken ⟨i, L₂.draws⟩).hash) = true
      · simp only [RefreshTokens.create, if_pos hcollides]
        refine ⟨[], [], opens_none, fun L₄ t₄ d₄ h₄ => hfail L₄ t₄ d₄ _ _ h₄ fun hK => ?_⟩
        rw [hv'.tokens, List.append_nil, List.any_eq_true] at hcollides
        obtain ⟨r, hr, hsame⟩ := hcollides
        refine hfresh t₄ hK ⟨i, L₂.draws⟩ (List.mem_map.mpr ⟨r, by simpa using hr, ?_⟩)
        simpa using hsame
      · simp only [RefreshTokens.create, if_neg hcollides, if_pos hsession]
        refine ⟨[], [_], fun e => ⟨rfl, rfl, rfl, (List.append_nil _).symm, rfl⟩,
          fun L₄ t₄ d₄ h₄ => ?_⟩
        exact hopen _ _ k _ L₄ t₄ d₄ rfl rfl h₄
    · simp only [RefreshTokens.create]
      split_ifs <;> rfl
  · simp only [Sessions.create]
    split_ifs <;> rfl

/-- The transaction that holds the code commits. -/
lemma Holding.commit {S : Session} {n : Draw} {tokens : List RefreshToken}
    (h : Holding app W i d₀ c L d [S] tokens) (hissued : Issued d₀ c f) (hcode : S.authorizationCodeId = some c.id)
    (hid : S.id = app.uuid n) (hn : n.process = i) (hW : W i) :
    (exchangeRules app W K d₀ c).Allows i d (L.conn i d).view ∧
      Exchanging app W d₀ c (L.conn i d).view ∧ (L.conn i d).view.openedBy c.id = [S] := by
  obtain ⟨tx, hL, -, hwrites⟩ := h.tx
  obtain ⟨husers, hflows, hcodes, hsessions, -⟩ := hwrites d
  have hview : (L.conn i d).view = tx.writes d := by simp only [Place.conn, Conn.view, hL]
  obtain ⟨-, hnone⟩ := h.exchanging.unopened h.unused hissued
  have hopened : (tx.writes d).openedBy c.id = [S] := by
    unfold Database.openedBy at hnone ⊢
    rw [hsessions, List.filter_append, hnone]
    simp [hcode]
  have hd : ∀ V : ℕ → Prop, V i → Exchanging app V d₀ c (tx.writes d) := by
    intro V hV
    refine ⟨husers.trans h.exchanging.users, hflows.trans h.exchanging.flows, .inr ?_⟩
    exact ⟨tx.start, S, n, by rw [hcodes, h.unused], hopened, hid, hn ▸ hV⟩
  rw [hview]
  refine ⟨fun _ hj V hV _ => ⟨hd V (hV i ⟨hW, Ne.symm hj⟩), fun S' hS' => ?_⟩, hd W hW, hopened⟩
  rw [hnone] at hS'
  cases hS'

/-- A request that does not match is refused before it sends anything. -/
lemma refused_early (hd : Exchanging app (rivals W i) d₀ c d) {e : OAuthError} (t : Time)
    (hmatches : ¬input.Matches app f) :
    ExchangeDone app W K d₀ c f i input (.error e) {} t d :=
  ⟨hd.mono fun _ hj => hj.1, nofun, fun h => absurd h hmatches, fun ⟨_, hx, _⟩ => nomatch hx⟩

/-- Whatever the other exchanges of the code do, this one ends as it should. -/
theorem exchange_safe (hissued : Issued d₀ c f)
    (hfresh : ∀ t, K t → ∀ n, (app.generateToken n).hash ∉ d₀.refreshTokens.map RefreshToken.tokenHash)
    (hpresents : input.Presents app c)
    (hW : input.Matches app f → W i) (hd : Exchanging app (rivals W i) d₀ c d) :
    Handler.safe (exchangeRules app W K d₀ c) i (OAuth.authorizationCode app input) {} t d
      (ExchangeDone app W K d₀ c f i input) := by
  obtain ⟨code, hcode, hhash⟩ := hpresents
  simp only [OAuth.authorizationCode, OAuth.required, hcode]
  cases hredirect : input.redirectUri with
  | none =>
    refine refused_early hd t fun h => ?_
    cases hredirect.symm.trans h.redirectUri
  | some redirectUri =>
  cases hverifier : input.codeVerifier with
  | none =>
    refine refused_early hd t fun h => ?_
    obtain ⟨verifier, hsome, -⟩ := h.verifier
    cases hverifier.symm.trans hsome
  | some verifier =>
  cases hclient : app.client input.clientId with
  | none =>
    refine refused_early hd t fun h => ?_
    obtain ⟨client, hsome, -⟩ := h.client
    cases hclient.symm.trans hsome
  | some client =>
  simp only [pure_bind, safe_bind, safe_perform, Rules.safe_start, safe_run, hhash]
  intro t₁ d₁ ho₁
  have hd₁ := (ho₁.step _ (fun _ => id) hd).1
  rw [Rules.safe_query_open rfl]
  refine ⟨within_consume _, fun t₂ d₂ ho₂ _ => ?_⟩
  have hd₂ := (ho₂.step _ (fun _ => id) hd₁).1
  rcases consume_cases hissued hd₂ t₁ ⟨i, 0⟩ with ⟨hsame, -, hlocks, hrun⟩ | ⟨hwhy, hrun⟩
  · simp only [hrun, hlocks, List.nil_append, throw_bind, safe_ite, safe_throw]
    have h₂ : Holding app W i d₀ c
        { tx := some ⟨t₁, fun e => { e with
            authorizationCodes := consumedCodes c t₁ e.authorizationCodes },
            [(.authorizationCode c.id, .noKeyUpdate)]⟩
          draws := 0 + 1
          sights := [⟨.authorizationCodesConsume, t₁, d₂⟩] } d₂ [] [] := by
      refine ⟨hd₂, hsame, ⟨_, rfl, List.mem_singleton_self _, fun e => ?_⟩, fun x hx _ => ?_⟩
      · exact ⟨rfl, rfl, rfl, (List.append_nil _).symm, (List.append_nil _).symm⟩
      · obtain rfl := List.mem_singleton.mp hx
        exact (hd₂.unopened hsame hissued).2
    refine ⟨fun hmismatch => h₂.failed t₂ fun h => ?_, fun hsameClient => ⟨fun hmismatch =>
      h₂.failed t₂ fun h => ?_, fun hsameUri => ⟨fun hmismatch => h₂.failed t₂ fun h => ?_, fun hproof => ?_⟩⟩⟩
    · obtain ⟨client', hsome, hid⟩ := h.client
      obtain rfl := Option.some.inj (hclient.symm.trans hsome)
      exact absurd hid hmismatch
    · have hsome := hredirect.symm.trans h.redirectUri
      exact absurd (Option.some.inj hsome).symm hmismatch
    · obtain ⟨verifier', hsome, hproof⟩ := h.verifier
      obtain rfl := Option.some.inj (hverifier.symm.trans hsome)
      rw [hproof] at hmismatch
      cases hmismatch
    have hw : W i := by
      refine hW ⟨⟨client, hclient, not_not.mp hsameClient⟩, ?_, ⟨verifier, hverifier, ?_⟩⟩
      · rw [hredirect, not_not.mp hsameUri]
      · simpa using hproof
    rw [safe_bind, safe_run]
    refine safe_holding h₂ hissued (by rintro ⟨⟩) (fun now k v hv => ⟨[], [], opens_none,
      fun L₃ t₃ d₃ h₃ => ?_⟩) (Rules.within_select _ _)
    simp only [Users.findById, Statement.select, hv.users, safe_ite, safe_throw]
    refine ⟨fun hdisabled => h₃.failed t₃ fun _ => .inr ?_, fun henabled => ?_⟩
    · rw [Database.enabled_iff, hdisabled]
      simp
    · rw [safe_bind]
      rw [Bool.not_eq_true, ← Database.enabled_iff] at henabled
      obtain ⟨u, hu, -⟩ := henabled
      have hid := List.find?_some hu
      have huser : ∃ u ∈ d₀.users, u.id = c.userId :=
        ⟨u, List.mem_of_find?_eq_some hu, by simpa using hid⟩
      refine openSession_safe hissued hfresh h₃ huser
        (fun L t d own tokens h hK => h.failed t fun _ => .inl ⟨rfl, hK⟩)
        fun S token n tokens L₄ t₄ d₄ hcode hid h₄ => ?_
      simp only [safe_bind, safe_perform, Rules.safe_clock]
      intro t₅ d₅ keys ho₅ hkeys t₆ d₆ ho₆
      have h₆ := (h₄.others hissued ho₅).others hissued ho₆
      unfold issue
      cases hkey : keys.signingKey t₆ with
      | none =>
        refine h₆.failed t₆ fun _ => .inl ⟨rfl, fun hK => ?_⟩
        have hsigns := hkeys t₆ ho₆.clock hK
        rw [hkey] at hsigns
        cases hsigns
      | some key =>
        simp only [Rules.safe_bind, Rules.safe_fresh, safe_bind, safe_perform, pure_eq,
          Rules.safe_ret, Rules.safe_finish, safe_pure]
        intro t₇ d₇ ho₇ t₈ d₈ ho₈
        have h₇ := h₆.others hissued ho₇
        have h₈ : Holding app W i d₀ c { L₄ with draws := L₄.draws + 1 } d₈ [S] tokens :=
          Holding.others ⟨h₇.exchanging, h₇.unused, h₇.tx, h₇.sights⟩ hissued ho₈
        obtain ⟨hstep, hended, hopened⟩ := h₈.commit hissued hcode hid rfl hw
        refine ⟨hstep, hended, fun _ _ => ⟨S, n, hopened, hid⟩, ?_, ?_⟩
        · rintro hmatches e ⟨⟩
        · rintro ⟨x, hx, hlabel, h⟩
          exact absurd (h₈.sights x hx hlabel) h
  · rw [hrun]
    refine reject_safe hissued ⟨hd₂, ?_, ?_⟩
    · rintro ⟨x, hx, -, hopened⟩
      obtain rfl := List.mem_singleton.mp hx
      exact hopened
    · rcases hwhy with hopened | hexpired
      · exact .inl hopened
      · exact .inr ⟨_, List.mem_singleton_self _, rfl, hexpired⟩

end Exchange

/-! ### Any number of exchanges -/

abbrev Exchange := Proc sig OAuth.TokenRequest (Except OAuthError OAuth.TokenResponse)

abbrev ExchangePool := Pool sig OAuth.TokenRequest (Except OAuthError OAuth.TokenResponse)

abbrev ExchangeAction := Pool.Action sig OAuth.TokenRequest

/-- `POST /oauth/token` with `grant_type=authorization_code`, side by side. -/
def exchanges (app : App) : System ExchangePool ExchangeAction :=
  Pool.system fun input => (OAuth.authorizationCode app input).run

/-- What a server needs to answer with tokens: the keys it loads sign until the end of the run, and
no hash it draws is taken. -/
structure Working (app : App) (d₀ : Database) (steps : List (Step ExchangePool ExchangeAction))
    (last : Time) : Prop where
  keys : ∀ p ∈ steps, ∀ i reply, p.action = .advance i reply → ∀ t, p.before.clock ≤ t → t ≤ last →
    (SigningKeys.signingKey (reply .signingKeys) t).isSome = true
  tokens : ∀ n, (app.generateToken n).hash ∉ d₀.refreshTokens.map RefreshToken.tokenHash

lemma safe_of_answer {α ι : Type} {p : Proc sig ι α} {a : α} (h : p.answer = some a) :
    p.program = some (.ret a) := by
  unfold Proc.answer at h
  split at h
  · rename_i a' hprogram
    rw [hprogram, Option.some.inj h]
  · cases h

/-- A code opens one session at most, for one exchange at most. A request that matches is refused
only when the server fails, when another one that matches opened the session, when it comes after
the code expired, or when the account is not enabled: requests that do not match change nothing for
it. A request that finds the code unusable after the session was opened leaves it revoked. -/
theorem exchanged_once {app : App} {d₀ : Database} {c : AuthorizationCode} {f : LoginFlow}
    {clock : Time} {s : ExchangePool} {steps : List (Step ExchangePool ExchangeAction)}
    (hinjective : Function.Injective app.uuid) (hissued : Issued d₀ c f)
    (hrun : (exchanges app).Run (Pool.start clock d₀) steps s)
    (hpresents : ∀ p ∈ s.procs, p.request.Presents app c) :
    (s.db.openedBy c.id).length ≤ 1 ∧
    (∀ (i j : ℕ) (p q : Exchange) response response', s.procs[i]? = some p →
      s.procs[j]? = some q → p.answer = some (.ok response) → q.answer = some (.ok response') →
      i = j) ∧
    (∀ (i : ℕ) (p : Exchange) e, s.procs[i]? = some p → p.answer = some (.error e) →
      p.request.Matches app f →
      e = .serverError ∧ ¬Working app d₀ steps s.clock ∨
      (∃ (j : ℕ) (q : Exchange), j ≠ i ∧ s.procs[j]? = some q ∧ q.request.Matches app f ∧
        ∃ S n, s.db.openedBy c.id = [S] ∧ S.id = app.uuid ⟨j, n⟩) ∨
      (∃ x ∈ p.place.sights, x.label = .authorizationCodesConsume ∧ c.expiresAt ≤ x.now) ∨
      ¬d₀.Enabled c.userId) ∧
    (∀ (i : ℕ) (p : Exchange) a, s.procs[i]? = some p → p.answer = some a →
      (∃ x ∈ p.place.sights, x.label = .authorizationCodesConsume ∧ x.db.openedBy c.id ≠ []) →
      ∃ S, s.db.openedBy c.id = [S] ∧ S.revokedAt.isSome = true) := by
  let W : ℕ → Prop := fun j => ∃ q : Exchange, s.procs[j]? = some q ∧ q.request.Matches app f
  let K : Time → Prop := fun t => t ≤ s.clock ∧ Working app d₀ steps s.clock
  have hK : ∀ t t', t ≤ t' → K t' → K t := fun t t' ht h => ⟨ht.trans h.1, h.2⟩
  have hd₀ : ∀ V : ℕ → Prop, Exchanging app V d₀ c d₀ := fun V =>
    ⟨rfl, rfl, .inl ⟨rfl, rfl, hissued.unopened⟩⟩
  have hmeets : ∀ p ∈ steps, (exchangeRules app W K d₀ c).Meets p := by
    intro p hp i reply haction
    refine ⟨fun q => ?_, fun _ _ _ _ _ _ => trivial⟩
    cases q with
    | signingKeys =>
      exact fun t ht hworking => hworking.2.keys p hp i reply haction t ht hworking.1
    | limit limiter key => exact trivial
  have hspawn : ∀ i input t d, (s.procs[i]?).map Proc.request = some input → clock ≤ t →
      (exchangeRules app W K d₀ c).step i d₀ d →
      (OAuth.authorizationCode app input).run.safe (exchangeRules app W K d₀ c) i {} t d
        (ExchangeDone app W K d₀ c f i input) := by
    intro i input t d hrequest _ hd
    obtain ⟨q, hq, rfl⟩ := Option.map_eq_some_iff.mp hrequest
    exact exchange_safe hissued (fun t hworking => hworking.2.tokens)
      (hpresents q (List.mem_of_getElem? hq)) (fun hmatches => ⟨q, hq, hmatches⟩)
      (hd (rivals W i) (fun _ => id) (hd₀ _)).1
  obtain ⟨hguarded, hstep, -⟩ := Rules.guarded_of_run Rules.guarded_start hrun hmeets
    (Rules.requests_of_run hrun) RowLock.conflict_comm (fun i input => exchangeDone_stable hK) hspawn
  have hd : Exchanging app W d₀ c s.db :=
    (hstep _ le_rfl W (fun j hj => hj.1) (hd₀ W)).1
  have hdone : ∀ (i : ℕ) (p : Exchange) a, s.procs[i]? = some p → p.answer = some a →
      ExchangeEnded app W K d₀ c f i p.request a p.place s.clock s.db := fun i p a hp ha =>
    (hguarded.safe i p _ hp (safe_of_answer ha)).2
  have hlength : (s.db.openedBy c.id).length ≤ 1 := by
    rcases hd.state with ⟨-, -, hnone⟩ | ⟨now, S, n, -, hS, -⟩
    · simp [hnone]
    · simp [hS]
  refine ⟨hlength, ?_, ?_, ?_⟩
  · intro i j p q response response' hp hq ha hb
    obtain ⟨S, n, hS, hid⟩ := (hdone i p _ hp ha).tokens response rfl
    obtain ⟨S', n', hS', hid'⟩ := (hdone j q _ hq hb).tokens response' rfl
    obtain rfl := List.singleton_inj.mp (hS.symm.trans hS')
    exact congrArg Draw.process (hinjective (hid.symm.trans hid'))
  · intro i p e hp ha hmatches
    rcases (hdone i p _ hp ha).refused hmatches e rfl with
      ⟨he, hfails⟩ | ⟨S, n, hS, hid, ⟨q, hq, hrival⟩, hne⟩ | hrest
    · exact .inl ⟨he, fun hworking => hfails ⟨le_rfl, hworking⟩⟩
    · exact .inr (.inl ⟨n.process, q, hne, hq, hrival, S, n.index, hS, hid⟩)
    · exact .inr (.inr hrest)
  · intro i p a hp ha hreplayed
    obtain ⟨S, hS, hrevoked⟩ := (hdone i p a hp ha).replayed hreplayed
    obtain ⟨S', hS'⟩ := List.length_eq_one_iff.mp
      (le_antisymm hlength (List.length_pos_of_mem hS))
    rw [hS'] at hS
    obtain rfl := List.mem_singleton.mp hS
    exact ⟨S, hS', hrevoked⟩

/-- The database of `exampleLogin` before its code is exchanged. -/
def exampleUnused : Database := (script exampleApp exampleReply .empty (exampleLogin.take 3)).2.db

def exampleExchange (redirectUri : String) : OAuth.TokenRequest where
  grantType := "authorization_code"
  clientId := "app"
  code := some "pp-iiii"
  redirectUri := some redirectUri
  codeVerifier := some exampleVerifier

/-- A request with another address, one that matches, and one that replays it. -/
def exampleExchanges : List ExchangeAction :=
  [.spawn (exampleExchange "https://other/cb"), .spawn (exampleExchange "https://app/cb"),
    .spawn (exampleExchange "https://app/cb")] ++
  List.replicate 3 (.advance 0 exampleReply) ++ List.replicate 11 (.advance 1 exampleReply) ++
  List.replicate 5 (.advance 2 exampleReply)

lemma exampleUnused_issued : ∃ c ∈ exampleUnused.authorizationCodes, ∃ f, c.id = 27 ∧
    c.codeHash = exampleApp.hash "pp-iiii" ∧ Issued exampleUnused c f := by
  refine ⟨⟨27, [1, 112, 112, 45, 105, 105, 105, 105], 0, 7, 60000002, none, 2⟩, by decide +kernel, ?_⟩
  have hflow : (exampleUnused.loginFlows.find? fun f => f.id = 0).isSome = true := by decide +kernel
  obtain ⟨f, hf⟩ := Option.isSome_iff_exists.mp hflow
  refine ⟨f, rfl, by decide, by decide +kernel, ?_, ?_, rfl, hf, ?_⟩
  · decide +kernel
  · decide +kernel
  · decide +kernel

/-- The matching request gets the session, and the replay revokes it. -/
theorem exchanged_once_replayed : ∃ steps s,
    (exchanges exampleApp).Run (Pool.start 3 exampleUnused) steps s ∧
      (∃ p ∈ s.procs, ∃ response, p.answer = some (.ok response)) ∧
      ∃ S, s.db.openedBy 27 = [S] ∧ S.revokedAt.isSome = true := by
  obtain ⟨c, -, f, hid, hhash, hissued⟩ := exampleUnused_issued
  have hexec : (((exchanges exampleApp).exec (Pool.start 3 exampleUnused) exampleExchanges).any
      fun r => (r.2.procs.all fun p => p.request.code = some "pp-iiii") &&
        (r.2.procs.any fun p => p.answer.any fun a => a.toBool) &&
        (r.2.procs[2]?).any fun p => p.answer.isSome && p.place.sights.any fun x =>
          (x.label : Query) = .authorizationCodesConsume && !(x.db.openedBy 27).isEmpty) = true := by
    decide +kernel
  obtain ⟨⟨steps, s⟩, hs, hchecks⟩ := (Option.any_eq_true _ _).mp hexec
  simp only [Bool.and_eq_true] at hchecks
  obtain ⟨⟨hcodes, htokens⟩, hreplay⟩ := hchecks
  have hpresents : ∀ p ∈ s.procs, p.request.Presents exampleApp c := by
    intro p hp
    have hcode := List.all_eq_true.mp hcodes p hp
    exact ⟨"pp-iiii", by simpa using hcode, hhash.symm⟩
  have hrun := System.exec_run hs
  refine ⟨steps, s, hrun, ?_, ?_⟩
  · obtain ⟨p, hp, hanswer⟩ := List.any_eq_true.mp htokens
    obtain ⟨a, ha, hok⟩ := (Option.any_eq_true _ _).mp hanswer
    cases a with
    | error e => cases hok
    | ok response => exact ⟨p, hp, response, ha⟩
  · obtain ⟨p, hp, hanswer⟩ := (Option.any_eq_true _ _).mp hreplay
    rw [Bool.and_eq_true, List.any_eq_true] at hanswer
    obtain ⟨hanswered, x, hx, hsaw⟩ := hanswer
    obtain ⟨a, ha⟩ := Option.isSome_iff_exists.mp hanswered
    rw [← hid]
    refine (exchanged_once exampleApp_uuid_injective hissued hrun hpresents).2.2.2 2 p a hp ha
      ⟨x, hx, ?_⟩
    rw [hid]
    simpa using hsaw

end Bauth
