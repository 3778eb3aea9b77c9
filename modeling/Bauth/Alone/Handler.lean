import Bauth.Transaction.Alone
import Bauth.Server

/-!
# Handlers run alone

Rules that compute the weakest precondition of a handler from the operations it is written with.
-/

namespace Bauth

open Transaction Transaction.Program

variable {ε α β : Type}

/-- Whatever draws it gets, the handler run alone from `c` ends in `Q`. -/
def Handler.wp (env : Env sig) (process : ℕ) (h : Handler ε α) (c : Point sig)
    (Q : Except ε α → Point sig → Prop) : Prop :=
  Program.wp env process h.run c Q

section Handler

variable {env : Env sig} {process : ℕ} {c : Point sig} {Q : Except ε α → Point sig → Prop}

@[simp] lemma wp_pure (a : α) :
    Handler.wp env process (pure a : Handler ε α) c Q ↔ Q (.ok a) c := Iff.rfl

@[simp] lemma wp_throw (e : ε) :
    Handler.wp env process (throw e : Handler ε α) c Q ↔ Q (.error e) c := Iff.rfl

@[simp] lemma wp_bind (h : Handler ε β) (f : β → Handler ε α) :
    Handler.wp env process (h >>= f) c Q ↔
      Handler.wp env process h c fun r c =>
        match r with
        | .ok b => Handler.wp env process (f b) c Q
        | .error e => Q (.error e) c := by
  simp only [Handler.wp, ExceptT.run_bind, Program.wp_bind]
  refine iff_of_eq (congrArg _ ?_)
  funext r c
  cases r <;> rfl

@[simp] lemma wp_perform (p : Program sig α) :
    Handler.wp env process (perform p : Handler ε α) c Q ↔
      Program.wp env process p c fun a c => Q (.ok a) c := by
  simp only [Handler.wp, perform, ExceptT.run_lift, map_eq_pure_bind, Program.wp_bind]
  rfl

@[simp] lemma wp_run (s : Statement sig α) :
    Handler.wp env process (run s : Handler ε α) c Q ↔
      Program.wp env process (query s) c fun a c => Q (.ok a) c := wp_perform _

@[simp] lemma wp_runChecked [FromDbError ε] (s : Statement sig (Except DbError α)) :
    Handler.wp env process (runChecked s : Handler ε α) c Q ↔
      Program.wp env process (query s) c fun r c =>
        Q (r.mapError FromDbError.fromDbError) c := by
  simp only [Handler.wp, runChecked, ExceptT.run_mk, Program.wp_bind]
  refine iff_of_eq (congrArg _ ?_)
  funext r c
  cases r <;> rfl

@[simp] lemma wp_mk_pure (e : Except ε α) :
    Handler.wp env process (ExceptT.mk (pure e) : Handler ε α) c Q ↔ Q e c := Iff.rfl

@[simp] lemma wp_ite (p : Prop) [Decidable p] (h h' : Handler ε α) :
    Handler.wp env process (if p then h else h') c Q ↔
      (p → Handler.wp env process h c Q) ∧ (¬p → Handler.wp env process h' c Q) := by
  split <;> simp [*]

/-- The postcondition may be weakened. -/
lemma Handler.wp.mono {h : Handler ε α} {Q' : Except ε α → Point sig → Prop}
    (hw : Handler.wp env process h c Q) (hQ : ∀ r c, Q r c → Q' r c) :
    Handler.wp env process h c Q' :=
  Program.wp_mono env process c h.run hw hQ

end Handler

/-! ### Updates -/

/-- The rows of each table have distinct identifiers. -/
structure Database.UniqueIds (d : Database) : Prop where
  users : (d.users.map User.id).Nodup
  loginFlows : (d.loginFlows.map LoginFlow.id).Nodup
  magicLinks : (d.magicLinks.map MagicLink.id).Nodup
  authorizationCodes : (d.authorizationCodes.map AuthorizationCode.id).Nodup
  sessions : (d.sessions.map Session.id).Nodup
  refreshTokens : (d.refreshTokens.map RefreshToken.id).Nodup
  emailChanges : (d.emailChanges.map EmailChange.id).Nodup
  confirmations : (d.confirmations.map Confirmation.id).Nodup

/-- Rows with distinct identifiers are changed exactly when they satisfy the condition. -/
lemma wp_update {ρ β : Type} {env : Env sig} {process : ℕ} {c : Point sig}
    {Q : β → Point sig → Prop} {label : Query} {t : Table ρ} {p : Time → Database → ρ → Bool}
    {set : Time → ρ → ρ} {answer : Database → List ρ → β}
    (hids : ((t.rows c.view).map t.id).Nodup) :
    Program.wp env process (query (update label t p set answer)) c Q ↔
      Q (answer c.view ((t.rows c.view).filter (p env.now c.view)))
        (c.write fun d =>
          t.setRows (updateWhere (p env.now c.view) (set env.now) (t.rows d)) d) := by
  simp only [wp_query, update, forall_const]
  rw [Point.write_congr]
  rw [Table.modify, updateWhere_hit hids]

/-! ### Routes -/

section Routes

variable {env : Env sig} {process : ℕ} {c : Point sig} {Q : Response → Point sig → Prop}

lemma wp_apiRoute (body : α → Body) (h : Handler ApiError α) :
    Program.wp env process (apiRoute body h) c Q ↔
      Handler.wp env process h c fun r c => Q ((r.map body).mapError .api) c := by
  simp only [apiRoute, Program.wp_bind, Handler.wp]
  refine iff_of_eq (congrArg _ ?_)
  funext r c
  cases r <;> rfl

lemma wp_oauthRoute (body : α → Body) (h : Handler OAuthError α) :
    Program.wp env process (oauthRoute body h) c Q ↔
      Handler.wp env process h c fun r c => Q ((r.map body).mapError .oauth) c := by
  simp only [oauthRoute, Program.wp_bind, Handler.wp]
  refine iff_of_eq (congrArg _ ?_)
  funext r c
  cases r <;> rfl

end Routes

end Bauth
