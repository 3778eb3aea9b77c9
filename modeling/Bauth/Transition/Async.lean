import Mathlib.Tactic.Common

/-!
# Asynchronous functions

An asynchronous function runs until it awaits something, and goes on with the answer or with the
error thrown. Between two of its steps anything else may run. `Async` is such a function as a
value: what it awaits next, and what it does then.
-/

namespace Transition

/-- What can be awaited, what each answers, and the errors thrown. -/
structure Awaits where
  Op : Type
  Answer : Op → Type
  Error : Type

inductive Async (A : Awaits) (α : Type) : Type where
  | done (result : Except A.Error α)
  | await (op : A.Op) (k : Except A.Error (A.Answer op) → Async A α)

namespace Async

variable {A : Awaits} {α β γ : Type}

/-- Run `f` on what `p` returns or throws. -/
def andThen : Async A α → (Except A.Error α → Async A β) → Async A β
  | done r, f => f r
  | await op k, f => await op fun r => (k r).andThen f

/-- Run `f` on what `p` returns. -/
def bind (p : Async A α) (f : α → Async A β) : Async A β :=
  p.andThen fun
    | .ok a => f a
    | .error e => done (.error e)

instance : Monad (Async A) where
  pure a := done (.ok a)
  bind := bind

/-- Await one thing. -/
def perform (op : A.Op) : Async A (A.Answer op) := await op done

/-- `try … catch`. -/
def catching (p : Async A α) (handler : A.Error → Async A α) : Async A α :=
  p.andThen fun
    | .ok a => done (.ok a)
    | .error e => handler e

/-- What `p` returns or throws, as a value. -/
def attempt (p : Async A α) : Async A (Except A.Error α) := p.andThen fun r => done (.ok r)

/-- Everything that `p` may await satisfies `P`. -/
def All (P : A.Op → Prop) : Async A α → Prop
  | done _ => True
  | await op k => P op ∧ ∀ r, (k r).All P

variable {P : A.Op → Prop}

@[simp] lemma all_done {r : Except A.Error α} : (done r).All P := trivial

@[simp] lemma all_pure {a : α} : (pure a : Async A α).All P := trivial

lemma All.andThen {p : Async A α} {f : Except A.Error α → Async A β} (hp : p.All P)
    (hf : ∀ r, (f r).All P) : (p.andThen f).All P := by
  induction p with
  | done r => exact hf r
  | await op k ih => exact ⟨hp.1, fun r => ih r (hp.2 r)⟩

lemma All.bind {p : Async A α} {f : α → Async A β} (hp : p.All P) (hf : ∀ a, (f a).All P) :
    (p >>= f).All P := by
  refine All.andThen hp fun r => ?_
  cases r with
  | ok a => exact hf a
  | error e => exact all_done

lemma All.catching {p : Async A α} {handler : A.Error → Async A α} (hp : p.All P)
    (hh : ∀ e, (handler e).All P) : (p.catching handler).All P := by
  refine All.andThen hp fun r => ?_
  cases r with
  | ok a => exact all_done
  | error e => exact hh e

lemma All.attempt {p : Async A α} (hp : p.All P) : p.attempt.All P :=
  hp.andThen fun _ => all_done

lemma all_perform {op : A.Op} (h : P op) : (perform op).All P := ⟨h, fun _ => all_done⟩

/-- What comes after one answer. -/
lemma All.next {op : A.Op} {k : Except A.Error (A.Answer op) → Async A α} (h : (await op k).All P)
    (r : Except A.Error (A.Answer op)) : (k r).All P := h.2 r

/-! ### Running alone -/

section RunWith

variable {W : Type} (answer : W → (op : A.Op) → Except A.Error (A.Answer op) × W)

/-- Run `p` with nothing in between: `answer` is what each operation answers in a world, and the
world it leaves. -/
def runWith : Async A α → W → Except A.Error α × W
  | done r, w => (r, w)
  | await op k, w => (k (answer w op).1).runWith (answer w op).2

variable {answer} {w : W}

@[simp] lemma runWith_pure (a : α) : (pure a : Async A α).runWith answer w = (.ok a, w) := rfl

@[simp] lemma runWith_perform (op : A.Op) : (perform op).runWith answer w = answer w op := rfl

lemma runWith_andThen (p : Async A α) (f : Except A.Error α → Async A β) :
    (p.andThen f).runWith answer w =
      (f (p.runWith answer w).1).runWith answer (p.runWith answer w).2 := by
  induction p generalizing w with
  | done r => rfl
  | await op k ih => exact ih _

lemma runWith_bind (p : Async A α) (f : α → Async A β) :
    (p >>= f).runWith answer w =
      match p.runWith answer w with
      | (.ok a, w') => (f a).runWith answer w'
      | (.error e, w') => (.error e, w') := by
  have h : (p >>= f).runWith answer w = _ := runWith_andThen p _
  rw [h]
  rcases p.runWith answer w with ⟨_ | a, w'⟩ <;> rfl

lemma runWith_catching (p : Async A α) (handler : A.Error → Async A α) :
    (p.catching handler).runWith answer w =
      match p.runWith answer w with
      | (.ok a, w') => (.ok a, w')
      | (.error e, w') => (handler e).runWith answer w' := by
  rw [catching, runWith_andThen]
  rcases p.runWith answer w with ⟨_ | a, w'⟩ <;> rfl

lemma runWith_attempt (p : Async A α) :
    p.attempt.runWith answer w = (.ok (p.runWith answer w).1, (p.runWith answer w).2) :=
  runWith_andThen p _

end RunWith

/-! ### Running alone, backwards -/

section Wp

variable {W : Type} (answer : W → (op : A.Op) → Except A.Error (A.Answer op) × W)

/-- What must hold for `p`, run with nothing in between, to end in `Q`. -/
def wp (p : Async A α) (w : W) (Q : Except A.Error α → W → Prop) : Prop :=
  Q (p.runWith answer w).1 (p.runWith answer w).2

variable {answer} {w : W}

@[simp] lemma wp_done {r : Except A.Error α} {Q : Except A.Error α → W → Prop} :
    (done r).wp answer w Q ↔ Q r w := Iff.rfl

@[simp] lemma wp_pure {a : α} {Q : Except A.Error α → W → Prop} :
    (pure a : Async A α).wp answer w Q ↔ Q (.ok a) w := Iff.rfl

lemma wp_perform (op : A.Op) {Q : Except A.Error (A.Answer op) → W → Prop} :
    (perform op).wp answer w Q ↔ Q (answer w op).1 (answer w op).2 := Iff.rfl

lemma wp_andThen {p : Async A α} {f : Except A.Error α → Async A β}
    {Q : Except A.Error β → W → Prop} :
    (p.andThen f).wp answer w Q ↔ p.wp answer w fun r w' => (f r).wp answer w' Q := by
  simp only [wp, runWith_andThen]

/-- An error skips what comes after. -/
lemma wp_bind {p : Async A α} {f : α → Async A β} {Q : Except A.Error β → W → Prop} :
    (p >>= f).wp answer w Q ↔ p.wp answer w fun r w' =>
      (∀ a, r = .ok a → (f a).wp answer w' Q) ∧ ∀ e, r = .error e → Q (.error e) w' := by
  refine wp_andThen.trans ?_
  show wp answer p w _ ↔ wp answer p w _
  unfold wp
  cases (p.runWith answer w).1 with
  | ok a => simp
  | error e => simp [runWith]

lemma wp_catching {p : Async A α} {handler : A.Error → Async A α}
    {Q : Except A.Error α → W → Prop} :
    (p.catching handler).wp answer w Q ↔ p.wp answer w fun r w' =>
      (∀ a, r = .ok a → Q (.ok a) w') ∧ ∀ e, r = .error e → (handler e).wp answer w' Q := by
  refine wp_andThen.trans ?_
  unfold wp
  cases (p.runWith answer w).1 with
  | ok a => simp [runWith]
  | error e => simp

lemma wp.mono {p : Async A α} {Q Q' : Except A.Error α → W → Prop} (h : p.wp answer w Q)
    (hQ : ∀ r w', Q r w' → Q' r w') : p.wp answer w Q' := hQ _ _ h

end Wp

end Async

end Transition
