import Bauth.Transaction.Draws
import Bauth.Concurrent.Links

/-!
# Rows side by side

Whatever requests and purges interleave, every row that is committed has an identifier of its own,
drawn once, and a row that was there takes only the steps of its table. What no step from later draws
undoes stays, in the database and in what open transactions see of it.
-/

namespace Bauth

open Transaction Transition

/-- What a statement given the draw `n` can make of the database. -/
def rowStep (app : App) (n : Draw) (d d' : Database) : Prop := ∃ q now, d.Evolves app q now n d'

/-- The identifiers of a table: distinct, and drawn already. -/
structure Stamped (app : App) (used : ℕ → ℕ) (ids : List Uuid) : Prop where
  nodup : ids.Nodup
  drawn : ∀ id ∈ ids, ∃ n : Draw, app.uuid n = id ∧ n.index < used n.process

namespace Stamped

variable {app : App} {used used' : ℕ → ℕ} {ids : List Uuid}

lemma mono (h : Stamped app used ids) (hused : ∀ i, used i ≤ used' i) : Stamped app used' ids := by
  refine ⟨h.nodup, fun id hid => ?_⟩
  obtain ⟨n, hn, hlt⟩ := h.drawn id hid
  exact ⟨n, hn, hlt.trans_le (hused _)⟩

/-- What a later draw gives is not there. -/
lemma not_mem (h : Stamped app used ids) (huuid : Function.Injective app.uuid) {n : Draw}
    (hn : used n.process ≤ n.index) : app.uuid n ∉ ids := by
  intro hmem
  obtain ⟨n', hid, hlt⟩ := h.drawn _ hmem
  obtain rfl := huuid hid
  omega

/-- Steps keep identifiers, and a new row takes the one just drawn. -/
lemma evolves (h : Stamped app used ids) (huuid : Function.Injective app.uuid) {ρ : Type}
    {id : ρ → Uuid} {step : ρ → ρ → Prop} {new : ρ → Prop} {rows rows' : List ρ} {i k : ℕ}
    (hids : ids = rows.map id) (hk : used i ≤ k) (hrows : Evolves step new rows rows')
    (hid : ∀ r r', step r r' → id r' = id r) (hnew : ∀ r, new r → id r = app.uuid ⟨i, k⟩) :
    Stamped app (Function.update used i (k + 1)) (rows'.map id) := by
  subst hids
  have hfree : app.uuid ⟨i, k⟩ ∉ rows.map id := h.not_mem huuid hk
  refine ⟨hrows.nodup id hid (fun r hr => hnew r hr ▸ hfree) h.nodup, fun x hx => ?_⟩
  obtain ⟨r, hr, rfl⟩ := List.mem_map.mp hx
  rcases hrows.mem hr with ⟨r₀, hr₀, hstep⟩ | hr
  · rw [hid _ _ hstep]
    exact (h.mono (le_update (hk.trans (Nat.le_succ k)))).drawn _ (List.mem_map_of_mem hr₀)
  · refine ⟨⟨i, k⟩, (hnew r hr).symm, ?_⟩
    rw [Function.update_self]
    exact Nat.lt_succ_self k

end Stamped

/-- The identifiers of every table are distinct and drawn already. -/
structure Database.Stamped (app : App) (used : ℕ → ℕ) (d : Database) : Prop where
  users : Bauth.Stamped app used (d.users.map User.id)
  loginFlows : Bauth.Stamped app used (d.loginFlows.map LoginFlow.id)
  magicLinks : Bauth.Stamped app used (d.magicLinks.map MagicLink.id)
  authorizationCodes : Bauth.Stamped app used (d.authorizationCodes.map AuthorizationCode.id)
  sessions : Bauth.Stamped app used (d.sessions.map Session.id)
  refreshTokens : Bauth.Stamped app used (d.refreshTokens.map RefreshToken.id)
  emailChanges : Bauth.Stamped app used (d.emailChanges.map EmailChange.id)
  confirmations : Bauth.Stamped app used (d.confirmations.map Confirmation.id)

lemma Database.stamped_invariant {app : App} (huuid : Function.Injective app.uuid) :
    DrawInvariant (rowStep app) fun used d => d.Stamped app used where
  mono used used' d hused h :=
    ⟨h.users.mono hused, h.loginFlows.mono hused, h.magicLinks.mono hused,
      h.authorizationCodes.mono hused, h.sessions.mono hused, h.refreshTokens.mono hused,
      h.emailChanges.mono hused, h.confirmations.mono hused⟩
  step := by
    rintro used i k d d' hk ⟨q, now, hd⟩ h
    refine ⟨?_, ?_, ?_, ?_, ?_, ?_, ?_, ?_⟩
    · refine h.users.evolves huuid rfl hk hd.users (fun r r' hr => ?_) ?_
      · cases hr <;> rfl
      · rintro r ⟨-, email, rfl⟩
        rfl
    · refine h.loginFlows.evolves huuid rfl hk hd.loginFlows (fun r r' hr => ?_) fun r hr => hr.2.1
      cases hr <;> rfl
    · refine h.magicLinks.evolves huuid rfl hk hd.magicLinks (fun r r' hr => ?_) fun r hr => hr.2.1
      cases hr <;> rfl
    · refine h.authorizationCodes.evolves huuid rfl hk hd.authorizationCodes (fun r r' hr => ?_)
        fun r hr => hr.2.1
      cases hr <;> rfl
    · refine h.sessions.evolves huuid rfl hk hd.sessions (fun r r' hr => ?_) fun r hr => hr.2.1
      cases hr <;> rfl
    · refine h.refreshTokens.evolves huuid rfl hk hd.refreshTokens (fun r r' hr => ?_)
        fun r hr => hr.2.1
      cases hr <;> rfl
    · refine h.emailChanges.evolves huuid rfl hk hd.emailChanges (fun r r' hr => ?_)
        fun r hr => hr.2.1
      cases hr <;> rfl
    · refine h.confirmations.evolves huuid rfl hk hd.confirmations (fun r r' hr => ?_)
        fun r hr => hr.2.1
      cases hr <;> rfl

/-- What later draws do not undo. -/
lemma invariant_after {app : App} {used : ℕ → ℕ} {P : Database → Prop}
    (hP : ∀ q now n d d', used n.process ≤ n.index → d.Evolves app q now n d' → P d → P d') :
    DrawInvariant (rowStep app) fun used' d => (∀ i, used i ≤ used' i) ∧ P d where
  mono used₁ used₂ d h₁₂ h := ⟨fun i => (h.1 i).trans (h₁₂ i), h.2⟩
  step := by
    rintro used₁ i k d d' hk ⟨q, now, hd⟩ ⟨hused, h⟩
    refine ⟨fun j => (hused j).trans (le_update (hk.trans (Nat.le_succ k)) j), ?_⟩
    exact hP q now ⟨i, k⟩ d d' ((hused i).trans hk) hd h

/-! ### The server -/

/-- A statement of some request. -/
def SentByAny (app : App) {β : Type} (st : Statement sig β) : Prop := ∃ may, Sent app may st

lemma SentByAny.rowStep {app : App} {β : Type} {st : Statement sig β} (h : SentByAny app st)
    (now : Time) (n : Draw) (v d : Database) : rowStep app n d ((st.run now n v).1 d) := by
  obtain ⟨may, h⟩ := h
  exact ⟨st.label, now, h.evolves now n v d⟩

/-- The draws of a pool of requests. -/
abbrev ServerFiled (app : App) (used : ℕ → ℕ) (s : ServerPool) : Prop :=
  Filed (fun {_} st => SentByAny app st) (rowStep app) used s

section Server

variable {app : App} {used : ℕ → ℕ} {s s' : ServerPool} {steps : List ServerStep}

lemma handle_sentByAny (app : App) (r : Request) :
    (handle app r).Sends (fun {_} st => SentByAny app st) fun _ => True :=
  (handle_sends app r).imp fun _ h => ⟨_, h⟩

/-- What the statements of the server keep, given how far its processes drew, a run keeps. -/
lemma ServerFiled.run {K : (ℕ → ℕ) → Database → Prop} (hs : ServerFiled app used s)
    (hrun : (sideBySide app).Run s steps s') (hK : DrawInvariant (rowStep app) K)
    (hd : K used s.db) :
    ∃ used', (∀ i, used i ≤ used' i) ∧ ServerFiled app used' s' ∧ K used' s'.db :=
  filed_of_run hrun hs (fun _ h now n v d => h.rowStep now n v d) (handle_sentByAny app) hK hd

/-- From an empty database on, every identifier is drawn once. -/
theorem stamped_of_run (huuid : Function.Injective app.uuid) {clock : Time}
    (hrun : (sideBySide app).Run (Pool.start clock {}) steps s) :
    ∃ used, ServerFiled app used s ∧ s.db.Stamped app used := by
  have hempty : Stamped app (fun _ => 0) [] := ⟨List.nodup_nil, nofun⟩
  obtain ⟨used, -, hfiled, hstamped⟩ := ServerFiled.run filed_start hrun
    (Database.stamped_invariant huuid)
    ⟨hempty, hempty, hempty, hempty, hempty, hempty, hempty, hempty⟩
  exact ⟨used, hfiled, hstamped⟩

end Server

end Bauth
