import Bauth.Concurrent.Links

/-!
# Sessions expire thirty days after they open

Only the exchange of a code inserts a session, which expires thirty days after the clock was read
for it, before the insertion is committed; no other statement writes the column.
-/

namespace Bauth

open Transaction Transaction.Program Transition

/-- The rules of a run that ends at `last`: no session expires later than thirty days after. -/
def expiryRules (last : Time) : Rules sig where
  same _ _ _ := True
  step _ d d' := (∀ s ∈ d.sessions, s.expiresAt ≤ last + sessionTtl) →
    ∀ s ∈ d'.sessions, s.expiresAt ≤ last + sessionTtl
  expects _ _ _ _ := True
  replies _ t _ := t ≤ last
  same_refl _ _ := trivial
  same_trans _ _ _ _ _ _ := trivial
  step_refl _ _ h := h
  step_trans _ _ _ _ h h' := h' ∘ h

/-- The transaction adds no session that expires later than `bound`. -/
def Bounded (bound : Time) (tx : Program.Tx sig) : Prop :=
  ∀ e, ∀ s' ∈ (tx.writes e).sessions,
    (∃ s ∈ e.sessions, s.expiresAt = s'.expiresAt) ∨ s'.expiresAt ≤ bound

section Expiry

variable {app : App} {may : Query → Prop} {β : Type} {st : Statement sig β} {last bound : Time}
  {i : ℕ} {L : Place sig} {t : Time} {d : Database} {tx : Program.Tx sig}

/-- Statements other than the insertion of a session leave the expiries as they are. -/
lemma Sent.expires (h : Sent app may st) (hmay : ¬may .sessionsCreate) (now : Time) (n : Draw)
    (v d : Database) : ∀ s' ∈ ((st.run now n v).1 d).sessions,
      ∃ s ∈ d.sessions, s.expiresAt = s'.expiresAt := by
  intro s' hs'
  rcases h.may_or_reads with hlabel | hreads
  · rcases (h.evolves now n v d).sessions.mem hs' with ⟨s, hs, hstep⟩ | ⟨hq, -⟩
    · exact ⟨s, hs, by cases hstep <;> rfl⟩
    · exact absurd (hq ▸ hlabel) hmay
  · rw [hreads] at hs'
    exact ⟨s', hs', rfl⟩

lemma Bounded.sent (h : Bounded bound tx) (hst : Sent app may st) (hmay : ¬may .sessionsCreate)
    (n : Draw) (d : Database) : Bounded bound (Rules.sentIn tx st n d) := by
  intro e s' hs'
  obtain ⟨s, hs, hsame⟩ := hst.expires hmay _ n _ _ s' hs'
  rw [← hsame]
  exact h e s hs

lemma Bounded.allows (h : Bounded bound tx) (hbound : bound ≤ last + sessionTtl) :
    (expiryRules last).Allows i d (tx.writes d) := by
  intro j _ hd s' hs'
  rcases h d s' hs' with ⟨s, hs, hsame⟩ | hle
  · exact hsame ▸ hd s hs
  · exact hle.trans hbound

lemma expiry_within (st : Statement sig β) : (expiryRules last).Within st :=
  fun _ _ _ _ _ _ => trivial

/-- Programs that insert no session. -/
lemma carries_bounded (hmay : ¬may .sessionsCreate) :
    (expiryRules last).Carries i (Sent app may) fun tx _ => Bounded (last + sessionTtl) tx where
  within st _ := expiry_within st
  opens _ _ _ s' hs' := .inl ⟨s', hs', rfl⟩
  sends _ _ n d hst hJ _ := hJ.sent hst hmay n d
  others _ _ _ hJ _ _ := hJ
  commits _ _ hJ := hJ.allows le_rfl

lemma expiry_open (htx : L.tx = some tx) (hst : Sent app may st) (hmay : ¬may .sessionsCreate)
    {Q : β → Place sig → Time → Database → Prop}
    (h : ∀ b L' t' d' tx', t ≤ t' → L'.tx = some tx' →
      (∀ bound, Bounded bound tx → Bounded bound tx') → Q b L' t' d') :
    (query st).safe (expiryRules last) i L t d Q :=
  (Rules.safe_query_open htx).mpr ⟨expiry_within st, fun t' d' ho _ =>
    h _ _ t' d' _ ho.clock rfl fun _ hb => hb.sent hst hmay _ d'⟩

/-- The insertion of a session. -/
lemma Bounded.create (h : Bounded bound tx) (userId : Uuid) (clientId : String) (codeId : Uuid)
    (n : Draw) (d : Database) :
    Bounded bound (Rules.sentIn tx (Sessions.create app userId clientId codeId bound) n d) := by
  intro e s' hs'
  simp only [Rules.sentIn, Sessions.create] at hs'
  split_ifs at hs'
  · exact h e s' hs'
  · rcases List.mem_append.mp hs' with hs' | hs'
    · exact h e s' hs'
    · rw [List.mem_singleton.mp hs']
      exact .inr le_rfl
  · exact h e s' hs'

/-- Every statement but the insertion of a session. -/
def Query.InsertsNoSession (q : Query) : Prop := q ≠ .sessionsCreate

lemma not_insertsNoSession : ¬Query.InsertsNoSession .sessionsCreate := fun h => h rfl

lemma newRefreshToken_expiry (sessionId : Uuid) (htx : L.tx = some tx)
    {Q : Except OAuthError String → Place sig → Time → Database → Prop}
    (hQ : ∀ r L' t' d' tx', t ≤ t' → L'.tx = some tx' →
      (∀ bound, Bounded bound tx → Bounded bound tx') → Q r L' t' d') :
    Handler.safe (expiryRules last) i (newRefreshToken app sessionId none) L t d Q := by
  simp only [newRefreshToken, safe_bind, safe_perform, Rules.safe_fresh, safe_runChecked, safe_pure]
  intro t₁ d₁ ho₁
  have hcreate : Sent app Query.InsertsNoSession (RefreshTokens.create app sessionId
      (app.generateToken ⟨i, L.draws⟩).hash none) :=
    .refreshTokensCreate (by simp [Query.InsertsNoSession]) ..
  refine expiry_open (L := { L with draws := L.draws + 1 }) htx hcreate not_insertsNoSession
    fun r L₂ t₂ d₂ tx₂ ht₂ htx₂ hkept => ?_
  cases r with
  | error e => exact hQ _ _ _ _ _ (ho₁.clock.trans ht₂) htx₂ hkept
  | ok _ => exact hQ _ _ _ _ _ (ho₁.clock.trans ht₂) htx₂ hkept

lemma issue_expiry (keys : SigningKeys) (client : Client) (userId sessionId : Uuid) (now : Time)
    (htx : L.tx = some tx) {Q : Option IssuedAccessToken → Place sig → Time → Database → Prop}
    (hQ : ∀ r L' t' d', L'.tx = some tx → Q r L' t' d') :
    (issue app keys userId sessionId client now).safe (expiryRules last) i L t d Q := by
  simp only [issue]
  cases keys.signingKey now with
  | none => exact hQ _ _ _ _ htx
  | some key =>
    simp only [Rules.safe_bind, Rules.safe_fresh, Program.pure_eq, Rules.safe_ret]
    exact fun t₁ d₁ _ => hQ _ _ _ _ htx

lemma authorizationCode_expiry (input : OAuth.TokenRequest) :
    Handler.safe (expiryRules last) i (OAuth.authorizationCode app input) {} t d
      fun _ _ _ _ => True := by
  simp only [OAuth.authorizationCode]
  cases input.code with
  | none => trivial
  | some code =>
    cases input.redirectUri with
    | none => trivial
    | some redirectUri =>
      cases input.codeVerifier with
      | none => trivial
      | some verifier =>
        cases app.client input.clientId with
        | none => trivial
        | some client =>
          simp only [OAuth.required, pure_bind, safe_bind, safe_perform, Rules.safe_start, safe_run,
            throw_bind]
          intro t₁ d₁ _
          have hconsume : Sent app Query.InsertsNoSession
              (AuthorizationCodes.consume (app.hash code)) :=
            .authorizationCodesConsume (by simp [Query.InsertsNoSession]) _
          refine expiry_open rfl hconsume not_insertsNoSession
            fun consumed L₂ t₂ d₂ tx₂ _ htx₂ hkept₂ => ?_
          have hbounded₂ : ∀ bound, Bounded bound tx₂ := fun bound =>
            hkept₂ bound fun e s' hs' => .inl ⟨s', hs', rfl⟩
          cases consumed with
          | none =>
            simp only [safe_bind, safe_perform, Rules.safe_abandon]
            intro t₃ d₃ _
            have hsends : Handler.Sends app Query.InsertsNoSession
                (OAuth.rejectUnusableCode (app.hash code)) :=
              rejectUnusableCode_sends (by simp [Query.InsertsNoSession]) _
            have hreject : Handler.safe (expiryRules last) i
                (OAuth.rejectUnusableCode (app.hash code)) { L₂ with tx := none } t₃ d₃
                fun _ _ _ _ => True := (carries_bounded not_insertsNoSession).safe hsends (by simp)
            refine Rules.safe_mono hreject fun r _ _ _ _ => ?_
            cases r <;> trivial
          | some consumed =>
            simp only [safe_ite, safe_throw, safe_bind, safe_run]
            refine ⟨fun _ => trivial, fun _ => ⟨fun _ => trivial, fun _ => ⟨fun _ => trivial,
              fun _ => ?_⟩⟩⟩
            have hfind : Sent app Query.InsertsNoSession (Users.findById consumed.userId) :=
              .select ..
            refine expiry_open htx₂ hfind not_insertsNoSession
              fun user L₃ t₃ d₃ tx₃ _ htx₃ hkept₃ => ?_
            refine ⟨fun _ => trivial, fun _ => ?_⟩
            simp only [openSession, safe_bind, safe_perform, Rules.safe_clock, safe_runChecked]
            intro utc d₄ _
            refine (Rules.safe_query_open htx₃).mpr ⟨expiry_within _, fun t₅ d₅ ho₅ _ => ?_⟩
            have hbounded : Bounded (utc + sessionTtl) (Rules.sentIn tx₃ (Sessions.create app
                consumed.userId client.id consumed.id (utc + sessionTtl)) ⟨i, L₃.draws⟩ d₅) :=
              (hkept₃ _ (hbounded₂ _)).create _ _ _ _ _
            have hle : utc + sessionTtl ≤ t₅ + sessionTtl := Int.add_le_add_right ho₅.clock _
            generalize ((Sessions.create app consumed.userId client.id consumed.id
              (utc + sessionTtl)).run tx₃.start ⟨i, L₃.draws⟩ (tx₃.writes d₅)).2 = created
            cases created with
            | error e => trivial
            | ok sessionId =>
              refine newRefreshToken_expiry sessionId rfl
                fun r L₆ t₆ d₆ tx₆ ht₆ htx₆ hkept₆ => ?_
              cases r with
              | error e => trivial
              | ok refreshToken =>
                intro t₇ d₇ (keys : SigningKeys) ho₇ (hlast : t₇ ≤ last) now d₈ _
                refine issue_expiry keys client consumed.userId sessionId now htx₆
                  fun access L₉ t₉ d₉ htx₉ => ?_
                cases access with
                | none => trivial
                | some access =>
                  -- the clock was read for the session before the keys were
                  have hlast : utc + sessionTtl ≤ last + sessionTtl := hle.trans
                    (Int.add_le_add_right ((ht₆.trans ho₇.clock).trans hlast) _)
                  intro t₁₀ d₁₀ _
                  refine ⟨?_, trivial⟩
                  simp only [Place.conn, Conn.view, htx₉]
                  exact (hkept₆ _ hbounded).allows hlast

/-- Every request keeps to the rules. -/
lemma handle_expiry (r : Request) :
    (handle app r).safe (expiryRules last) i {} t d fun _ _ _ _ => True := by
  cases r with
  | token input =>
    refine (Rules.safe_bind _ _).mpr (Rules.safe_mono (Q := fun _ _ _ _ => True) ?_
      fun a _ _ _ _ => by cases a <;> trivial)
    change Handler.safe (expiryRules last) i (OAuth.token app input) {} t d fun _ _ _ _ => True
    simp only [OAuth.token, safe_ite, safe_throw]
    refine ⟨fun _ => authorizationCode_expiry input, fun _ => ⟨fun _ => ?_, fun _ => trivial⟩⟩
    have hsends : Handler.Sends app Query.InsertsNoSession (OAuth.refreshToken app input) := by
      refine refreshToken_sends (fun q hq => ?_) input
      rcases hq with rfl | rfl | ⟨p, id, rfl⟩ | ⟨id, rfl⟩ <;> simp [Query.InsertsNoSession]
    exact (carries_bounded not_insertsNoSession).safe hsends (by simp)
  | _ =>
    exact (carries_bounded (by simp [Request.may, Query.LogsIn, Query.ChecksCode])).safe
      (handle_sends app _) (by simp)

end Expiry

lemma clock_le_of_step {app : App} {p : ServerStep} (hp : (sideBySide app).Takes p) :
    p.before.clock ≤ p.after.clock := by
  obtain ⟨before, action, after⟩ := p
  have hstep : Pool.step (handle app) before action = some after := hp
  cases Pool.steps_of_step hstep with
  | tick h => exact h
  | spawn request => exact le_rfl
  | advance reply hi hp => exact le_rfl
  | drop hi => exact le_rfl

lemma clock_le_of_serverRun {app : App} {s s' : ServerPool} {steps : List ServerStep}
    (hrun : (sideBySide app).Run s steps s') : s.clock ≤ s'.clock :=
  hrun.rel (R := fun s s' => s.clock ≤ s'.clock) (fun _ => le_rfl) (fun _ _ _ => le_trans)
    fun _ _ => clock_le_of_step

/-- At any time, no session expires later than thirty days from then. -/
theorem expiry_of_run {app : App} {clock : Time} {s : ServerPool} {steps : List ServerStep}
    (hrun : (sideBySide app).Run (Pool.start clock {}) steps s) :
    ∀ S ∈ s.db.sessions, S.expiresAt ≤ s.clock + sessionTtl := by
  have hmeets : ∀ p ∈ steps, (expiryRules s.clock).Meets p := by
    intro p hp i reply _
    obtain ⟨l, m, rfl⟩ := List.append_of_mem hp
    obtain ⟨-, htakes, hrest⟩ := hrun.around
    have hle := (clock_le_of_step htakes).trans (clock_le_of_serverRun hrest)
    exact ⟨fun _ => hle, fun _ _ _ _ _ _ => trivial⟩
  obtain ⟨-, hstep, -⟩ := Rules.guarded_of_run (E := fun _ _ _ _ _ _ => True) Rules.guarded_start
    hrun hmeets (Rules.requests_of_run hrun) RowLock.conflict_comm
    (fun _ _ _ _ _ _ _ _ _ _ _ _ _ _ => trivial) fun i r t d _ _ _ => handle_expiry r
  exact hstep _ le_rfl fun S hS => absurd hS List.not_mem_nil

end Bauth
