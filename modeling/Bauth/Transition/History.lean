import Bauth.Transition.System

/-!
# What the steps of a path leave behind

A path is a list of steps that follow one another, oldest first. `Path.born` traces every row of
the state it ends in to the step that added it, and `Path.once` says that what uses something up
is done once: both from what one step does.
-/

namespace Transition

universe u v w

variable {σ : Type u} {τ : Type v} {ρ : Type w} {κ : Type*}

/-- Steps with what holds of each, from a state to another one. -/
inductive Path (before after : τ → σ) (ok : τ → Prop) (s : σ) : List τ → σ → Prop where
  | nil : Path before after ok s [] s
  | snoc {steps : List τ} {p : τ} (h : Path before after ok s steps (before p)) (hp : ok p) :
      Path before after ok s (steps ++ [p]) (after p)

namespace Path

variable {before after : τ → σ} {ok : τ → Prop} {s s' : σ} {steps : List τ} {p q : τ}

/-- The last step of a path. -/
lemma last (h : Path before after ok s (steps ++ [p]) s') :
    Path before after ok s steps (before p) ∧ ok p ∧ s' = after p := by
  generalize hsteps : steps ++ [p] = all at h
  cases h with
  | nil => simp at hsteps
  | snoc h hp =>
    obtain ⟨rfl, hpq⟩ := List.append_inj' hsteps rfl
    obtain rfl := List.singleton_inj.mp hpq
    exact ⟨h, hp, rfl⟩

lemma single (hp : ok p) : Path before after ok (before p) [p] (after p) := nil.snoc hp

/-- Two paths follow one another. -/
lemma append {s'' : σ} {steps' : List τ} (h : Path before after ok s steps s')
    (h' : Path before after ok s' steps' s'') : Path before after ok s (steps ++ steps') s'' := by
  induction h' with
  | nil => simpa using h
  | snoc _ hp ih =>
    rw [← List.append_assoc]
    exact ih.snoc hp

/-- A step before a path. -/
lemma cons (hp : ok p) (h : Path before after ok (after p) steps s') :
    Path before after ok (before p) (p :: steps) s' := (single hp).append h

/-- A path around one of its steps. -/
lemma around {l m : List τ} (h : Path before after ok s (l ++ p :: m) s') :
    Path before after ok s l (before p) ∧ ok p ∧ Path before after ok (after p) m s' := by
  induction m using List.reverseRecOn generalizing s' with
  | nil =>
    obtain ⟨hl, hp, rfl⟩ := h.last
    exact ⟨hl, hp, .nil⟩
  | append_singleton m q ih =>
    have hlast : Path before after ok s ((l ++ p :: m) ++ [q]) s' := by simpa using h
    obtain ⟨hm, hq, rfl⟩ := hlast.last
    obtain ⟨hl, hp, hrest⟩ := ih hm
    exact ⟨hl, hp, hrest.snoc hq⟩

/-- What every step of it keeps, a path keeps. -/
theorem keeps_of_mem {P : σ → Prop} (h : Path before after ok s steps s') (hs : P s)
    (hstep : ∀ p ∈ steps, ok p → P (before p) → P (after p)) : P s' := by
  induction h with
  | nil => exact hs
  | @snoc steps p h hp ih =>
    refine hstep p (by simp) hp (ih fun q hq => ?_)
    exact hstep q (List.mem_append_left _ hq)

/-- What every step keeps, a path keeps. -/
theorem keeps {P : σ → Prop} (h : Path before after ok s steps s') (hs : P s)
    (hstep : ∀ p, ok p → P (before p) → P (after p)) : P s' :=
  h.keeps_of_mem hs fun p _ => hstep p

/-! ### Rows -/

/-- Every row of the last state was added by a step of the path, and is the row that was added up
to what `col` forgets. -/
theorem born (h : Path before after ok s steps s') (rows : σ → List ρ) (col : ρ → κ)
    (adds : τ → ρ → Prop) (hs : rows s = [])
    (hstep : ∀ p, ok p → ∀ r ∈ rows (after p), (∃ r₀ ∈ rows (before p), col r₀ = col r) ∨
      ∃ r₀, adds p r₀ ∧ col r₀ = col r) :
    ∀ r ∈ rows s', ∃ l p m r₀, steps = l ++ p :: m ∧ adds p r₀ ∧ col r₀ = col r := by
  induction h with
  | nil => simp [hs]
  | @snoc steps p h hp ih =>
    intro r hr
    rcases hstep p hp r hr with ⟨r₁, hr₁, hcol⟩ | ⟨r₀, hadds, hcol⟩
    · obtain ⟨l, q, m, r₀, rfl, hadds, hcol₀⟩ := ih r₁ hr₁
      exact ⟨l, q, m ++ [p], r₀, by simp, hadds, hcol₀.trans hcol⟩
    · exact ⟨steps, p, [], r₀, rfl, hadds, hcol⟩

/-! ### What happens once -/

variable {l l' m m' : List τ}

/-- No step uses what an earlier one used up. -/
lemma not_uses_later {spent : σ → Prop} {uses : τ → Prop}
    (h : Path before after ok s (l ++ p :: m) s')
    (hkeeps : ∀ p, ok p → spent (before p) → spent (after p))
    (huses : ∀ p, ok p → uses p → ¬spent (before p) ∧ spent (after p)) (hp : uses p) :
    ∀ q ∈ m, ¬uses q := by
  intro q hq hused
  obtain ⟨m₁, m₂, rfl⟩ := List.append_of_mem hq
  obtain ⟨-, hokp, hrest⟩ := h.around
  obtain ⟨hbetween, hokq, -⟩ := hrest.around
  have hspent : spent (before q) := hbetween.keeps (huses p hokp hp).2 hkeeps
  exact (huses q hokq hused).1 hspent

/-- What needs something unspent and leaves it spent, for good, is done by one step at most. -/
theorem once (h : Path before after ok s steps s') (spent : σ → Prop) (uses : τ → Prop)
    (hkeeps : ∀ p, ok p → spent (before p) → spent (after p))
    (huses : ∀ p, ok p → uses p → ¬spent (before p) ∧ spent (after p))
    (hl : steps = l ++ p :: m) (hl' : steps = l' ++ q :: m') (hp : uses p) (hq : uses q) :
    l = l' ∧ p = q ∧ m = m' := by
  subst hl
  rcases split_cases hl' with hsame | ⟨c, rfl, rfl⟩ | ⟨c, rfl, rfl⟩
  · exact hsame
  · exact absurd hq (h.not_uses_later hkeeps huses hp q (by simp))
  · rw [hl'] at h
    exact absurd hp (h.not_uses_later hkeeps huses hq p (by simp))

/-- The same of steps given by the path. -/
theorem once_of_mem (h : Path before after ok s steps s') (spent : σ → Prop) (uses : τ → Prop)
    (hkeeps : ∀ p, ok p → spent (before p) → spent (after p))
    (huses : ∀ p, ok p → uses p → ¬spent (before p) ∧ spent (after p))
    (hp : p ∈ steps) (hq : q ∈ steps) (hup : uses p) (huq : uses q) : p = q := by
  obtain ⟨l, m, hl⟩ := List.append_of_mem hp
  obtain ⟨l', m', hl'⟩ := List.append_of_mem hq
  exact (h.once spent uses hkeeps huses hl hl' hup huq).2.1

end Path

end Transition
