import Mathlib.Data.List.Induction
import Mathlib.Tactic.Common

/-!
# Systems that take steps

A system is given by what each action makes of a state, when it can happen. A run is the list of
the steps taken, oldest first, so that a property of runs can speak of any two of them.
-/

namespace Transition

universe u v

/-- What an action makes of a state, `none` when it cannot happen there. -/
structure System (σ : Type u) (α : Type v) where
  step : σ → α → Option σ

/-- One step as it was taken. -/
structure Step (σ : Type u) (α : Type v) where
  before : σ
  action : α
  after : σ

/-- Two elements of a list: the same one, or one before the other. -/
lemma split_cases {α : Type u} {l₁ l₂ m₁ m₂ : List α} {a b : α}
    (h : l₁ ++ a :: m₁ = l₂ ++ b :: m₂) :
    l₁ = l₂ ∧ a = b ∧ m₁ = m₂ ∨ (∃ c, l₂ = l₁ ++ a :: c ∧ m₁ = c ++ b :: m₂) ∨
      ∃ c, l₁ = l₂ ++ b :: c ∧ m₂ = c ++ a :: m₁ := by
  rcases List.append_eq_append_iff.mp h with ⟨c, rfl, hc⟩ | ⟨c, rfl, hc⟩
  · cases c with
    | nil =>
      obtain ⟨rfl, rfl⟩ := List.cons_eq_cons.mp hc
      exact .inl ⟨by simp, rfl, rfl⟩
    | cons x c =>
      obtain ⟨rfl, rfl⟩ := List.cons_eq_cons.mp hc
      exact .inr (.inl ⟨c, rfl, rfl⟩)
  · cases c with
    | nil =>
      obtain ⟨rfl, rfl⟩ := List.cons_eq_cons.mp hc
      exact .inl ⟨by simp, rfl, rfl⟩
    | cons x c =>
      obtain ⟨rfl, rfl⟩ := List.cons_eq_cons.mp hc
      exact .inr (.inr ⟨c, rfl, rfl⟩)

namespace System

variable {σ : Type u} {α : Type v}

/-- The step is one of the system. -/
def Takes (M : System σ α) (p : Step σ α) : Prop := M.step p.before p.action = some p.after

inductive Run (M : System σ α) (s : σ) : List (Step σ α) → σ → Prop where
  | nil : Run M s [] s
  | snoc {steps : List (Step σ α)} {p : Step σ α} (h : Run M s steps p.before) (hp : M.Takes p) :
      Run M s (steps ++ [p]) p.after

/-- Take actions one after the other. -/
def exec (M : System σ α) (s : σ) : List α → Option (List (Step σ α) × σ)
  | [] => some ([], s)
  | a :: actions =>
    match M.step s a with
    | none => none
    | some s' => (M.exec s' actions).map fun r => (⟨s, a, s'⟩ :: r.1, r.2)

namespace Run

variable {M : System σ α} {s s' s'' : σ} {steps steps' : List (Step σ α)}

lemma single {p : Step σ α} (hp : M.Takes p) : Run M p.before [p] p.after := nil.snoc hp

lemma append (h : Run M s steps s') (h' : Run M s' steps' s'') :
    Run M s (steps ++ steps') s'' := by
  induction h' with
  | nil => simpa using h
  | snoc _ hp ih =>
    rw [← List.append_assoc]
    exact ih.snoc hp

/-- The last step of a run. -/
lemma last {p : Step σ α} (h : Run M s (steps ++ [p]) s') :
    Run M s steps p.before ∧ M.Takes p ∧ s' = p.after := by
  generalize hsteps : steps ++ [p] = all at h
  cases h with
  | nil => simp at hsteps
  | snoc h hp =>
    obtain ⟨rfl, hpq⟩ := List.append_inj' hsteps rfl
    obtain rfl := List.singleton_inj.mp hpq
    exact ⟨h, hp, rfl⟩

/-- A run around one of its steps. -/
lemma around {l m : List (Step σ α)} {p : Step σ α} (h : Run M s (l ++ p :: m) s') :
    Run M s l p.before ∧ M.Takes p ∧ Run M p.after m s' := by
  induction m using List.reverseRecOn generalizing s' with
  | nil =>
    obtain ⟨hl, hp, rfl⟩ := h.last
    exact ⟨hl, hp, .nil⟩
  | append_singleton m q ih =>
    have hlast : Run M s ((l ++ p :: m) ++ [q]) s' := by simpa using h
    obtain ⟨hm, hq, rfl⟩ := hlast.last
    obtain ⟨hl, hp, hrest⟩ := ih hm
    exact ⟨hl, hp, hrest.append (.single hq)⟩

/-- The part of a run from one of its steps to a later one. -/
lemma between {l c m : List (Step σ α)} {p q : Step σ α}
    (h : Run M s (l ++ p :: (c ++ q :: m)) s') : Run M p.before (p :: c) q.before := by
  obtain ⟨-, hp, hrest⟩ := h.around
  exact (single hp).append hrest.around.1

/-- What every step keeps, a run keeps. -/
theorem keeps {P : σ → Prop} (hrun : Run M s steps s') (hs : P s)
    (hstep : ∀ p ∈ steps, M.Takes p → P p.before → P p.after) : P s' := by
  induction hrun with
  | nil => exact hs
  | @snoc steps p h hp ih =>
    refine hstep p (by simp) hp (ih fun q hq => ?_)
    exact hstep q (List.mem_append_left _ hq)

/-- An invariant of states and of the steps that led to them. -/
theorem keeps_history {P : List (Step σ α) → σ → Prop} (hrun : Run M s steps s') (hs : P [] s)
    (hstep : ∀ l p, Run M s l p.before → M.Takes p → P l p.before → P (l ++ [p]) p.after) :
    P steps s' := by
  induction hrun with
  | nil => exact hs
  | snoc h hp ih => exact hstep _ _ h hp ih

/-- A relation that each step satisfies, and that is transitive, holds between the ends. -/
theorem rel {R : σ → σ → Prop} (hrun : Run M s steps s') (hrefl : ∀ s, R s s)
    (htrans : ∀ a b c, R a b → R b c → R a c)
    (hstep : ∀ p ∈ steps, M.Takes p → R p.before p.after) : R s s' := by
  induction hrun with
  | nil => exact hrefl s
  | @snoc steps p h hp ih =>
    refine htrans _ _ _ (ih fun q hq => ?_) (hstep p (by simp) hp)
    exact hstep q (List.mem_append_left _ hq)

end Run

/-- Executing actions is a run. -/
theorem exec_run {M : System σ α} {s s' : σ} {actions : List α} {steps : List (Step σ α)}
    (h : M.exec s actions = some (steps, s')) : M.Run s steps s' := by
  induction actions generalizing s steps with
  | nil =>
    obtain ⟨rfl, rfl⟩ := Prod.mk.inj (Option.some.inj h)
    exact .nil
  | cons a actions ih =>
    simp only [exec] at h
    split at h
    · cases h
    · rename_i t ht
      obtain ⟨⟨rest, t'⟩, hrest, hr⟩ := Option.map_eq_some_iff.mp h
      obtain ⟨rfl, rfl⟩ := Prod.mk.inj hr
      have hp : M.Takes ⟨s, a, t⟩ := ht
      exact (Run.single hp).append (ih hrest)

/-- The steps taken are the actions given. -/
theorem exec_actions {M : System σ α} {s s' : σ} {actions : List α} {steps : List (Step σ α)}
    (h : M.exec s actions = some (steps, s')) : steps.map Step.action = actions := by
  induction actions generalizing s steps with
  | nil =>
    obtain ⟨rfl, -⟩ := Prod.mk.inj (Option.some.inj h)
    rfl
  | cons a actions ih =>
    simp only [exec] at h
    split at h
    · cases h
    · obtain ⟨⟨rest, t'⟩, hrest, hr⟩ := Option.map_eq_some_iff.mp h
      obtain ⟨rfl, rfl⟩ := Prod.mk.inj hr
      rw [List.map_cons, ih hrest]

end System

end Transition
