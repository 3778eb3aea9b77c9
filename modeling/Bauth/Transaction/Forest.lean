import Bauth.Transaction.References
import Mathlib.Logic.Relation

/-!
# Trees of rows

Rows that refer to a parent row of their group, one tree for each group: the group has one row
without parent, and every row of it descends from that row.
-/

namespace Transaction

variable {ρ κ γ : Type} {id : ρ → κ} {parent : ρ → Option κ} {group : ρ → γ}
  {rows rows' : List ρ} {groups groups' : List γ} {g : γ}

section Defs

variable (id parent group rows)

/-- In the group, a row with the key `j` has the parent `i`. -/
def IsChild (g : γ) (i j : κ) : Prop :=
  ∃ r ∈ rows, group r = g ∧ id r = j ∧ parent r = some i

/-- In the group, `i` is `j` or an ancestor of it. -/
def Descends (g : γ) : κ → κ → Prop := Relation.ReflTransGen (IsChild id parent group rows g)

/-- Each group has one row without parent, and each row descends from such a row of its group. -/
structure Forest (groups : List γ) : Prop where
  root : ∀ g ∈ groups, ∃ r ∈ rows, group r = g ∧ parent r = none
  oneRoot : ∀ r ∈ rows, ∀ r' ∈ rows, group r = group r' → parent r = none → parent r' = none →
    id r = id r'
  descends : ∀ r ∈ rows, ∃ r₀ ∈ rows, group r₀ = group r ∧ parent r₀ = none ∧
    Descends id parent group rows (group r) (id r₀) (id r)

end Defs

lemma Descends.mono {i j : κ} (h : Descends id parent group rows g i j)
    (hrows : ∀ r ∈ rows, group r = g → ∃ r' ∈ rows', group r' = g ∧ id r' = id r ∧
      parent r' = parent r) : Descends id parent group rows' g i j := by
  refine Relation.ReflTransGen.mono ?_ _ _ h
  rintro i j ⟨r, hr, hg, rfl, hp⟩
  obtain ⟨r', hr', hg', hid, hparent⟩ := hrows r hr hg
  exact ⟨r', hr', hg', hid, hparent.trans hp⟩

namespace Forest

lemma nil : Forest id parent group [] [] := by
  constructor <;> simp

/-- The groups may become fewer. -/
lemma of_groups (h : Forest id parent group rows groups) (hgroups : ∀ g ∈ groups', g ∈ groups) :
    Forest id parent group rows groups' :=
  { h with root := fun g hg => h.root g (hgroups g hg) }

/-- Rows that keep their place. -/
lemma map (h : Forest id parent group rows groups) {f : ρ → ρ}
    (hf : ∀ r, id (f r) = id r ∧ parent (f r) = parent r ∧ group (f r) = group r) :
    Forest id parent group (rows.map f) groups where
  root g hg := by
    obtain ⟨r, hr, hgroup, hparent⟩ := h.root g hg
    exact ⟨f r, List.mem_map_of_mem hr, (hf r).2.2.trans hgroup, (hf r).2.1.trans hparent⟩
  oneRoot s hs s' hs' hgroup hparent hparent' := by
    obtain ⟨r, hr, rfl⟩ := List.mem_map.mp hs
    obtain ⟨r', hr', rfl⟩ := List.mem_map.mp hs'
    rw [(hf r).1, (hf r').1]
    exact h.oneRoot r hr r' hr' ((hf r).2.2.symm.trans (hgroup.trans (hf r').2.2))
      ((hf r).2.1.symm.trans hparent) ((hf r').2.1.symm.trans hparent')
  descends s hs := by
    obtain ⟨r, hr, rfl⟩ := List.mem_map.mp hs
    obtain ⟨r₀, hr₀, hgroup, hparent, hdescends⟩ := h.descends r hr
    refine ⟨f r₀, List.mem_map_of_mem hr₀, ?_, (hf r₀).2.1.trans hparent, ?_⟩
    · rw [(hf r₀).2.2, (hf r).2.2, hgroup]
    · rw [(hf r).2.2, (hf r₀).1, (hf r).1]
      refine hdescends.mono fun r' hr' hg => ?_
      exact ⟨f r', List.mem_map_of_mem hr', (hf r').2.2.trans hg, (hf r').1, (hf r').2.1⟩

/-- The rows of a group go together. -/
lemma filter (h : Forest id parent group rows groups) (p : γ → Bool) :
    Forest id parent group (rows.filter fun r => p (group r)) (groups.filter p) where
  root g hg := by
    obtain ⟨hg, hp⟩ := List.mem_filter.mp hg
    obtain ⟨r, hr, rfl, hparent⟩ := h.root g hg
    exact ⟨r, List.mem_filter.mpr ⟨hr, hp⟩, rfl, hparent⟩
  oneRoot r hr r' hr' :=
    h.oneRoot r (List.mem_of_mem_filter hr) r' (List.mem_of_mem_filter hr')
  descends r hr := by
    obtain ⟨hr, hp⟩ := List.mem_filter.mp hr
    obtain ⟨r₀, hr₀, hgroup, hparent, hdescends⟩ := h.descends r hr
    refine ⟨r₀, List.mem_filter.mpr ⟨hr₀, hgroup ▸ hp⟩, hgroup, hparent, hdescends.mono ?_⟩
    exact fun r' hr' hg => ⟨r', List.mem_filter.mpr ⟨hr', hg ▸ hp⟩, hg, rfl, rfl⟩

/-- A new group with its row. -/
lemma appendRoot (h : Forest id parent group rows groups) (r : ρ) (hparent : parent r = none)
    (hnew : ∀ r' ∈ rows, group r' ≠ group r) :
    Forest id parent group (rows ++ [r]) (groups ++ [group r]) where
  root g hg := by
    rcases List.mem_append.mp hg with hg | hg
    · obtain ⟨r', hr', hrest⟩ := h.root g hg
      exact ⟨r', List.mem_append_left _ hr', hrest⟩
    · exact ⟨r, by simp, (List.mem_singleton.mp hg).symm, hparent⟩
  oneRoot r₁ hr₁ r₂ hr₂ hgroup hp₁ hp₂ := by
    rcases List.mem_append.mp hr₁ with hr₁ | hr₁ <;> rcases List.mem_append.mp hr₂ with hr₂ | hr₂
    · exact h.oneRoot r₁ hr₁ r₂ hr₂ hgroup hp₁ hp₂
    · exact absurd (List.mem_singleton.mp hr₂ ▸ hgroup) (hnew r₁ hr₁)
    · exact absurd (List.mem_singleton.mp hr₁ ▸ hgroup.symm) (hnew r₂ hr₂)
    · rw [List.mem_singleton.mp hr₁, List.mem_singleton.mp hr₂]
  descends r' hr' := by
    rcases List.mem_append.mp hr' with hr' | hr'
    · obtain ⟨r₀, hr₀, hgroup, hp, hdescends⟩ := h.descends r' hr'
      exact ⟨r₀, List.mem_append_left _ hr₀, hgroup, hp,
        hdescends.mono fun r hr hg => ⟨r, List.mem_append_left _ hr, hg, rfl, rfl⟩⟩
    · obtain rfl := List.mem_singleton.mp hr'
      exact ⟨r', by simp, rfl, hparent, .refl⟩

/-- A new row below a row of its group. -/
lemma appendChild (h : Forest id parent group rows groups) {r p : ρ} (hp : p ∈ rows)
    (hgroup : group p = group r) (hparent : parent r = some (id p)) :
    Forest id parent group (rows ++ [r]) groups where
  root g hg := by
    obtain ⟨r', hr', hrest⟩ := h.root g hg
    exact ⟨r', List.mem_append_left _ hr', hrest⟩
  oneRoot r₁ hr₁ r₂ hr₂ hsame hp₁ hp₂ := by
    rcases List.mem_append.mp hr₁ with hr₁ | hr₁
    · rcases List.mem_append.mp hr₂ with hr₂ | hr₂
      · exact h.oneRoot r₁ hr₁ r₂ hr₂ hsame hp₁ hp₂
      · rw [List.mem_singleton.mp hr₂, hparent] at hp₂
        cases hp₂
    · rw [List.mem_singleton.mp hr₁, hparent] at hp₁
      cases hp₁
  descends r' hr' := by
    have hold : ∀ {g i j}, Descends id parent group rows g i j →
        Descends id parent group (rows ++ [r]) g i j := fun hdescends =>
      hdescends.mono fun r' hr' hg => ⟨r', List.mem_append_left _ hr', hg, rfl, rfl⟩
    rcases List.mem_append.mp hr' with hr' | hr'
    · obtain ⟨r₀, hr₀, hsame, hnone, hdescends⟩ := h.descends r' hr'
      exact ⟨r₀, List.mem_append_left _ hr₀, hsame, hnone, hold hdescends⟩
    · obtain rfl := List.mem_singleton.mp hr'
      obtain ⟨r₀, hr₀, hsame, hnone, hdescends⟩ := h.descends p hp
      refine ⟨r₀, List.mem_append_left _ hr₀, hsame.trans hgroup, hnone, ?_⟩
      rw [hgroup] at hdescends
      exact (hold hdescends).tail ⟨r', by simp, rfl, rfl, hparent⟩

/-- Every row of a group descends from its root. -/
lemma descends_root (h : Forest id parent group rows groups) {r root : ρ} (hr : r ∈ rows)
    (hroot : root ∈ rows) (hgroup : group root = group r) (hparent : parent root = none) :
    Descends id parent group rows (group r) (id root) (id r) := by
  obtain ⟨r₀, hr₀, hsame, hnone, hdescends⟩ := h.descends r hr
  rwa [h.oneRoot r₀ hr₀ root hroot (hsame.trans hgroup.symm) hnone hparent] at hdescends

end Forest

end Transaction
