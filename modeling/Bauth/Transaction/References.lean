import Bauth.Transaction.Table

/-!
# References between tables

A column of one table that names rows of another one: what updates, inserts and deletions with
their cascades do to it. A reference may be empty.
-/

namespace Transaction

variable {ρ τ κ : Type}

/-- Every reference of `rows` is to a row of `targets`. -/
def References (fk : ρ → Option κ) (id : τ → κ) (rows : List ρ) (targets : List τ) : Prop :=
  ∀ r ∈ rows, ∀ k ∈ fk r, ∃ t ∈ targets, id t = k

namespace References

variable {fk : ρ → Option κ} {id : τ → κ} {rows rows' : List ρ} {targets targets' : List τ}

lemma nil : References fk id [] targets := by simp [References]

/-- References may be dropped, and targets come. -/
lemma mono (h : References fk id rows targets)
    (hrows : ∀ r' ∈ rows', ∀ k ∈ fk r', ∃ r ∈ rows, k ∈ fk r)
    (htargets : ∀ t ∈ targets, ∃ t' ∈ targets', id t' = id t) :
    References fk id rows' targets' := by
  intro r' hr' k hk
  obtain ⟨r, hr, hkr⟩ := hrows r' hr' k hk
  obtain ⟨t, ht, rfl⟩ := h r hr k hkr
  exact htargets t ht

lemma append (h : References fk id rows targets) {r : ρ}
    (hr : ∀ k ∈ fk r, ∃ t ∈ targets, id t = k) : References fk id (rows ++ [r]) targets := by
  intro r' hr' k hk
  rcases List.mem_append.mp hr' with hr' | hr'
  · exact h r' hr' k hk
  · obtain rfl := List.mem_singleton.mp hr'
    exact hr k hk

lemma filter (h : References fk id rows targets) (p : ρ → Bool) :
    References fk id (rows.filter p) targets :=
  h.mono (fun r hr _ hk => ⟨r, List.mem_of_mem_filter hr, hk⟩) fun t ht => ⟨t, ht, rfl⟩

/-- Rows that lose references and rows that keep them. -/
lemma updateRows (h : References fk id rows targets) (p : ρ → Bool) (set : ρ → ρ)
    (hset : ∀ r, ∀ k ∈ fk (set r), k ∈ fk r) :
    References fk id (updateWhere p set rows) targets := by
  refine h.mono (fun r' hr' k hk => ?_) fun t ht => ⟨t, ht, rfl⟩
  obtain ⟨r, hr, rfl⟩ := mem_updateWhere.mp hr'
  refine ⟨r, hr, ?_⟩
  split_ifs at hk
  · exact hset r k hk
  · exact hk

lemma updateTargets (h : References fk id rows targets) (p : τ → Bool) (set : τ → τ)
    (hset : ∀ t, id (set t) = id t) : References fk id rows (updateWhere p set targets) := by
  refine h.mono (fun r hr _ hk => ⟨r, hr, hk⟩) fun t ht => ?_
  refine ⟨_, mem_updateWhere.mpr ⟨t, ht, rfl⟩, ?_⟩
  split_ifs
  · exact hset t
  · rfl

lemma appendTargets (h : References fk id rows targets) (t : τ) :
    References fk id rows (targets ++ [t]) :=
  h.mono (fun r hr _ hk => ⟨r, hr, hk⟩) fun t ht => ⟨t, List.mem_append_left _ ht, rfl⟩

/-- `ON DELETE CASCADE`: the rows that refer to a deleted target go with it. -/
lemma cascade [DecidableEq κ] (h : References fk id rows targets) (p : τ → Bool) :
    References fk id
      (rows.filter fun r => !(fk r).any fun k => targets.any fun t => decide (id t = k) && p t)
      (targets.filter fun t => !p t) := by
  intro r hr k hk
  obtain ⟨hmem, hkept⟩ := List.mem_filter.mp hr
  obtain ⟨t, ht, rfl⟩ := h r hmem k hk
  refine ⟨t, List.mem_filter.mpr ⟨ht, ?_⟩, rfl⟩
  rw [Option.mem_def.mp hk] at hkept
  simp only [Option.any_some, Bool.not_eq_true', List.any_eq_false, Bool.and_eq_true,
    decide_eq_true_eq, not_and] at hkept
  simpa using hkept t ht rfl

/-- `ON DELETE SET NULL`: the rows that refer to a deleted target forget it. -/
lemma forget [DecidableEq κ] (h : References fk id rows targets) (p : τ → Bool) (set : ρ → ρ)
    (hset : ∀ r, fk (set r) = none) :
    References fk id
      (updateWhere (fun r => (fk r).any fun k => targets.any fun t => decide (id t = k) && p t) set
        rows) (targets.filter fun t => !p t) := by
  intro r' hr' k hk
  obtain ⟨r, hr, rfl⟩ := mem_updateWhere.mp hr'
  split_ifs at hk with hgone
  · rw [hset] at hk
    cases hk
  · obtain ⟨t, ht, rfl⟩ := h r hr k hk
    refine ⟨t, List.mem_filter.mpr ⟨ht, ?_⟩, rfl⟩
    rw [Option.mem_def.mp hk] at hgone
    simp only [Option.any_some, Bool.not_eq_true, List.any_eq_false, Bool.and_eq_true,
      decide_eq_true_eq, not_and] at hgone
    simpa using hgone t ht rfl

end References

end Transaction
