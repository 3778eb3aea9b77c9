import Bauth.Transaction.Rely
import Bauth.Server

/-!
# Handlers side by side

Rules for what a handler does whatever the others do meanwhile, and what its statements lock.
-/

namespace Bauth

open Transaction Transaction.Program

variable {ε α β : Type}

/-- Whatever the others do, process `i` keeps to the rules while it runs the handler, and ends it
with `Q`. -/
def Handler.safe (D : Rules sig) (i : ℕ) (h : Handler ε α) (L : Place sig) (t : Time)
    (d : Database) (Q : Except ε α → Place sig → Time → Database → Prop) : Prop :=
  Program.safe D i h.run L t d Q

section Handler

variable {D : Rules sig} {i : ℕ} {L : Place sig} {t : Time} {d : Database}
  {Q : Except ε α → Place sig → Time → Database → Prop}

@[simp] lemma safe_pure (a : α) : Handler.safe D i (pure a : Handler ε α) L t d Q ↔ Q (.ok a) L t d :=
  Iff.rfl

@[simp] lemma safe_throw (e : ε) :
    Handler.safe D i (throw e : Handler ε α) L t d Q ↔ Q (.error e) L t d := Iff.rfl

@[simp] lemma safe_bind (h : Handler ε β) (f : β → Handler ε α) :
    Handler.safe D i (h >>= f) L t d Q ↔
      Handler.safe D i h L t d fun r L t d =>
        match r with
        | .ok b => Handler.safe D i (f b) L t d Q
        | .error e => Q (.error e) L t d := by
  simp only [Handler.safe, ExceptT.run_bind, Rules.safe_bind]
  refine iff_of_eq (congrArg _ ?_)
  funext r L t d
  cases r <;> rfl

@[simp] lemma safe_perform (p : Program sig α) :
    Handler.safe D i (perform p : Handler ε α) L t d Q ↔
      p.safe D i L t d fun a L t d => Q (.ok a) L t d := by
  simp only [Handler.safe, perform, ExceptT.run_lift, map_eq_pure_bind, Rules.safe_bind]
  rfl

@[simp] lemma safe_run (s : Statement sig α) :
    Handler.safe D i (run s : Handler ε α) L t d Q ↔
      (query s).safe D i L t d fun a L t d => Q (.ok a) L t d := safe_perform _

@[simp] lemma safe_runChecked [FromDbError ε] (s : Statement sig (Except DbError α)) :
    Handler.safe D i (runChecked s : Handler ε α) L t d Q ↔
      (query s).safe D i L t d fun r L t d => Q (r.mapError FromDbError.fromDbError) L t d := by
  simp only [Handler.safe, runChecked, ExceptT.run_mk, Rules.safe_bind]
  refine iff_of_eq (congrArg _ ?_)
  funext r L t d
  cases r <;> rfl

@[simp] lemma safe_ite (p : Prop) [Decidable p] (h h' : Handler ε α) :
    Handler.safe D i (if p then h else h') L t d Q ↔
      (p → Handler.safe D i h L t d Q) ∧ (¬p → Handler.safe D i h' L t d Q) := by
  split <;> simp [*]

lemma Handler.safe.mono {h : Handler ε α} {Q' : Except ε α → Place sig → Time → Database → Prop}
    (hs : Handler.safe D i h L t d Q) (hQ : ∀ r L t d, Q r L t d → Q' r L t d) :
    Handler.safe D i h L t d Q' :=
  Rules.safe_mono hs hQ

end Handler

end Bauth
