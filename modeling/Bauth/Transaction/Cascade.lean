import Bauth.Transaction.References
import Mathlib.Data.List.Basic
import Mathlib.Order.Basic
import Mathlib.Tactic.Common
import Mathlib.Tactic.Tauto

/-!
# Cascades within a table

Rows that refer to rows of their own table with `ON DELETE CASCADE`: with the rows that are deleted
go those that refer to a row that goes, and so on.
-/

namespace Transaction

variable {ρ : Type}

section Defs

variable (refers : ρ → ρ → Bool) (rows : List ρ) (p : ρ → Bool)

/-- `p` holds of the row, or of a row that it refers to in `n` steps at most. -/
def reaches : ℕ → ρ → Bool
  | 0, r => p r
  | n + 1, r => p r || rows.any fun r' => refers r r' && reaches n r'

/-- The row goes when those satisfying `p` do. -/
def cascades (r : ρ) : Bool := reaches refers rows p rows.length r

/-- `p` holds of the row or of one that it refers to, in some number of steps. -/
inductive Reaches : ρ → Prop
  | hit {r : ρ} (h : p r = true) : Reaches r
  | step {r r' : ρ} (hr' : r' ∈ rows) (h : refers r r' = true) (hrest : Reaches r') : Reaches r

end Defs

variable {refers : ρ → ρ → Bool} {rows : List ρ} {p q : ρ → Bool} {r : ρ}

lemma reaches_succ_iff {n : ℕ} : reaches refers rows p (n + 1) r = true ↔
    p r = true ∨ ∃ r' ∈ rows, refers r r' = true ∧ reaches refers rows p n r' = true := by
  simp [reaches]

lemma reaches_succ {n : ℕ} (h : reaches refers rows p n r = true) :
    reaches refers rows p (n + 1) r = true := by
  induction n generalizing r with
  | zero => exact reaches_succ_iff.mpr (.inl h)
  | succ n ih =>
    rcases reaches_succ_iff.mp h with h | ⟨r', hr', hrefers, h⟩
    · exact reaches_succ_iff.mpr (.inl h)
    · exact reaches_succ_iff.mpr (.inr ⟨r', hr', hrefers, ih h⟩)

lemma reaches_mono {m n : ℕ} (hmn : m ≤ n) (h : reaches refers rows p m r = true) :
    reaches refers rows p n r = true := by
  induction hmn with
  | refl => exact h
  | step _ ih => exact reaches_succ ih

lemma Reaches.of_reaches {n : ℕ} (h : reaches refers rows p n r = true) :
    Reaches refers rows p r := by
  induction n generalizing r with
  | zero => exact .hit h
  | succ n ih =>
    rcases reaches_succ_iff.mp h with h | ⟨r', hr', hrefers, h⟩
    · exact .hit h
    · exact .step hr' hrefers (ih h)

/-- One more step reaches more rows, unless no number of steps does. -/
lemma count_reaches_or_closed (n : ℕ) :
    n ≤ rows.countP (reaches refers rows p n) ∨
      ∃ m < n, ∀ r ∈ rows, reaches refers rows p (m + 1) r = true →
        reaches refers rows p m r = true := by
  induction n with
  | zero => exact .inl (Nat.zero_le _)
  | succ n ih =>
    rcases ih with hcount | ⟨m, hm, hclosed⟩
    · by_cases hclosed : ∀ r ∈ rows, reaches refers rows p (n + 1) r = true →
          reaches refers rows p n r = true
      · exact .inr ⟨n, Nat.lt_succ_self n, hclosed⟩
      · push Not at hclosed
        obtain ⟨r, hr, hnew, hold⟩ := hclosed
        have hlt : rows.countP (reaches refers rows p n) <
            rows.countP (reaches refers rows p (n + 1)) := by
          rw [List.countP_eq_length_filter, List.countP_eq_length_filter]
          have hsub : (rows.filter (reaches refers rows p n)).Sublist
              (rows.filter (reaches refers rows p (n + 1))) :=
            List.monotone_filter_right rows fun _ h => reaches_succ h
          refine Nat.lt_of_le_of_ne hsub.length_le fun hlength => ?_
          have hmem : r ∈ rows.filter (reaches refers rows p (n + 1)) :=
            List.mem_filter.mpr ⟨hr, hnew⟩
          rw [← hsub.eq_of_length hlength] at hmem
          exact hold (List.mem_filter.mp hmem).2
        exact .inl (Nat.lt_of_le_of_lt hcount hlt)
    · exact .inr ⟨m, Nat.lt_succ_of_lt hm, hclosed⟩

/-- A chain of references is followed to its end. -/
theorem cascades_iff (hr : r ∈ rows) :
    cascades refers rows p r = true ↔ Reaches refers rows p r := by
  constructor
  · exact .of_reaches
  · intro h
    -- some number of steps, the number of rows at most, reaches what one more does
    obtain ⟨m, hm, hclosed⟩ : ∃ m ≤ rows.length, ∀ r ∈ rows,
        reaches refers rows p (m + 1) r = true → reaches refers rows p m r = true := by
      rcases @count_reaches_or_closed _ refers rows p (rows.length + 1) with hcount | ⟨m, hm, hclosed⟩
      · have hle := rows.countP_le_length (p := reaches refers rows p (rows.length + 1))
        omega
      · exact ⟨m, Nat.le_of_lt_succ hm, hclosed⟩
    have hreaches : ∀ r, Reaches refers rows p r → r ∈ rows →
        reaches refers rows p m r = true := by
      intro r h
      induction h with
      | hit h => exact fun _ => reaches_mono (Nat.zero_le m) h
      | step hr' hrefers _ ih =>
        intro hr
        exact hclosed _ hr (reaches_succ_iff.mpr (.inr ⟨_, hr', hrefers, ih hr'⟩))
    exact reaches_mono hm (hreaches r h hr)

lemma Reaches.mono (h : Reaches refers rows p r) (hp : ∀ r, p r = true → q r = true) :
    Reaches refers rows q r := by
  induction h with
  | hit h => exact .hit (hp _ h)
  | step hr' hrefers _ ih => exact .step hr' hrefers ih

lemma Reaches.exists (h : Reaches refers rows p r) : ∃ r', p r' = true := by
  induction h with
  | hit h => exact ⟨_, h⟩
  | step _ _ _ ih => exact ih

lemma cascades_of_hit (h : p r = true) : cascades refers rows p r = true :=
  reaches_mono (Nat.zero_le _) h

/-- A row goes with a row that it refers to. -/
lemma cascades_of_refers {r' : ρ} (hr : r ∈ rows) (hr' : r' ∈ rows) (hrefers : refers r r' = true)
    (h : cascades refers rows p r' = true) : cascades refers rows p r = true :=
  (cascades_iff hr).mpr (.step hr' hrefers ((cascades_iff hr').mp h))

/-- Where nothing is deleted nothing goes. -/
lemma cascades_of_forall_not (h : ∀ r, p r = false) : cascades refers rows p r = false := by
  rw [← Bool.not_eq_true]
  intro hgone
  obtain ⟨r', hr'⟩ := (Reaches.of_reaches hgone).exists
  simp [h] at hr'

/-- Where rows refer to rows that go with them only, the cascade takes no others. -/
theorem cascades_eq
    (h : ∀ r ∈ rows, ∀ r' ∈ rows, refers r r' = true → p r' = true → p r = true)
    (hr : r ∈ rows) : cascades refers rows p r = p r := by
  rw [Bool.eq_iff_iff, cascades_iff hr]
  constructor
  · intro hreaches
    induction hreaches with
    | hit h => exact h
    | step hr' hrefers _ ih => exact h _ hr _ hr' hrefers (ih hr')
  · exact .hit

/-- What is deleted after something else goes as it does when both are deleted at once. -/
theorem filter_cascades :
    ((rows.filter fun r => !cascades refers rows p r).filter fun r =>
        !cascades refers (rows.filter fun r => !cascades refers rows p r) q r) =
      rows.filter fun r => !cascades refers rows (fun r => p r || q r) r := by
  rw [List.filter_filter]
  refine List.filter_congr fun r hr => ?_
  rw [Bool.eq_iff_iff]
  simp only [Bool.and_eq_true, Bool.not_eq_true', ← Bool.not_eq_true]
  have hboth : Reaches refers rows (fun r => p r || q r) r ↔ Reaches refers rows p r ∨
      Reaches refers (rows.filter fun r => !cascades refers rows p r) q r := by
    constructor
    · intro h
      induction h with
      | hit h =>
        rcases Bool.or_eq_true_iff.mp h with h | h
        · exact .inl (.hit h)
        · exact .inr (.hit h)
      | @step r r' hr' hrefers _ ih =>
        rcases ih hr' with h | h
        · exact .inl (.step hr' hrefers h)
        · by_cases hgone : Reaches refers rows p r'
          · exact .inl (.step hr' hrefers hgone)
          · refine .inr (.step (List.mem_filter.mpr ⟨hr', ?_⟩) hrefers h)
            simpa [← cascades_iff hr'] using hgone
    · rintro (h | h)
      · exact h.mono fun r hp => by simp [hp]
      · induction h with
        | hit h => exact .hit (by simp [h])
        | step hr' hrefers _ ih =>
          have hmem := List.mem_of_mem_filter hr'
          exact .step hmem hrefers (ih hmem)
  rw [cascades_iff hr, cascades_iff hr, hboth]
  by_cases hgone : Reaches refers rows p r
  · simp [hgone]
  · have hmem : r ∈ rows.filter fun r => !cascades refers rows p r := by
      refine List.mem_filter.mpr ⟨hr, ?_⟩
      simpa [← cascades_iff hr] using hgone
    rw [cascades_iff hmem]
    tauto

/-- The rows that stay refer to rows that stay. -/
lemma References.cascadeSelf {κ : Type} {fk : ρ → Option κ} {id : ρ → κ}
    (h : References fk id rows rows) (hrefers : ∀ r r', fk r = some (id r') → refers r r' = true) :
    References fk id (rows.filter fun r => !cascades refers rows p r)
      (rows.filter fun r => !cascades refers rows p r) := by
  intro r hr k hk
  obtain ⟨hmem, hkept⟩ := List.mem_filter.mp hr
  obtain ⟨r', hr', rfl⟩ := h r hmem k hk
  refine ⟨r', List.mem_filter.mpr ⟨hr', ?_⟩, rfl⟩
  rw [Bool.not_eq_true', ← Bool.not_eq_true] at hkept ⊢
  intro hgone
  exact hkept (cascades_of_refers hmem hr' (hrefers r r' hk) hgone)

end Transaction
