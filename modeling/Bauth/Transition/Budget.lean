import Bauth.Transition.History
import Mathlib.Algebra.Order.BigOperators.Group.List
import Mathlib.Algebra.BigOperators.Group.List.Lemmas
import Mathlib.Algebra.GroupWithZero.Nat
import Mathlib.Algebra.Order.Group.Nat
import Mathlib.Data.List.Dedup
import Mathlib.Data.List.Flatten

/-!
# Budgets kept in rows

A step may spend on rows, which count what is spent on them. If a step spends only while the rows
of its last while have less than a budget, then no window of this while sees more than the budget,
as long as the rows spent on stay among those that count.
-/

namespace Transition

universe u v w x

variable {σ : Type u} {τ : Type v} {ρ : Type w} {κ : Type x} [DecidableEq κ]

/-! ### Lists -/

/-- A list of keys is as long as the keys among `keys` occur in it, if there are no others. -/
lemma length_le_occurrences {l keys : List κ} (h : ∀ k ∈ l, k ∈ keys) :
    l.length ≤ (keys.map fun k => l.count k).sum := by
  have hsub : l.dedup.Subperm keys :=
    List.subperm_of_subset l.nodup_dedup fun k hk => h k (List.mem_dedup.mp hk)
  obtain ⟨l', hperm, hsub⟩ := hsub
  have hsum := (hperm.map fun k => l.count k).sum_eq
  rw [List.sum_map_count_dedup_eq_length] at hsum
  rw [← hsum]
  exact (hsub.map _).sum_le_sum fun _ _ => Nat.zero_le _

variable (time : τ → ℤ) (spends : τ → List κ)

/-- What the steps from `since` on and before `till` spend. -/
def spentBetween (since till : ℤ) (steps : List τ) : List κ :=
  (steps.filter fun p => since ≤ time p && time p < till).flatMap spends

variable {time spends}

omit [DecidableEq κ] in
/-- If a step spends one at most, and only while less than the budget was spent in the window that
ends with it, then no window sees more than the budget. -/
lemma spentBetween_le {budget : ℕ} {window : ℤ} {steps : List τ}
    (hone : ∀ p ∈ steps, (spends p).length ≤ 1)
    (hlast : ∀ l p m, steps = l ++ p :: m → spends p ≠ [] →
      ((l.filter fun q => time p < time q + window).flatMap spends).length < budget) (since : ℤ) :
    (spentBetween time spends since (since + window) steps).length ≤ budget := by
  induction steps using List.reverseRecOn with
  | nil => exact Nat.zero_le _
  | append_singleton steps p ih =>
    have hprefix := ih (fun q hq => hone q (List.mem_append_left _ hq))
      fun l q m hsplit => hlast l q (m ++ [p]) (by simp [hsplit])
    rw [spentBetween, List.filter_append, List.flatMap_append, List.length_append]
    by_cases hin : since ≤ time p ∧ time p < since + window
    swap
    · rw [List.filter_cons_of_neg (by simpa using hin)]
      exact hprefix
    rw [List.filter_cons_of_pos (by simpa using hin), List.filter_nil, List.flatMap_singleton]
    by_cases hnone : spends p = []
    · rw [hnone]
      exact hprefix
    · have hrecent := hlast steps p [] rfl hnone
      have hsub : (steps.filter fun q => since ≤ time q && time q < since + window).Sublist
          (steps.filter fun q => time p < time q + window) := by
        apply List.monotone_filter_right
        intro q hq
        have hq := of_decide_eq_true (Bool.and_eq_true_iff.mp hq).1
        exact decide_eq_true (hin.2.trans_le (Int.add_le_add_right hq _))
      have hle := (hsub.flatMap spends).length_le
      have hone := hone p (by simp)
      omega

/-! ### Paths -/

section Path

variable {before after : τ → σ} {ok : τ → Prop} {s s' : σ} {steps : List τ}
  (rows : σ → List ρ) (key : ρ → κ) (counted : ρ → ℕ) (used : σ → κ → Prop)

/-- The rows count what a step spends on them, and a key that was used is given to no new row. -/
structure Counts (before after : τ → σ) (ok : τ → Prop) (spends : τ → List κ) : Prop where
  row : ∀ p, ok p → ∀ r ∈ rows (after p),
    (∃ r₀ ∈ rows (before p), key r₀ = key r ∧
      counted r₀ + (spends p).count (key r) ≤ counted r) ∨ ¬used (before p) (key r)
  spent : ∀ p, ok p → ∀ k ∈ spends p, used (before p) k
  stays : ∀ p, ok p → ∀ k, used (before p) k → used (after p) k

variable {rows key counted used}

/-- What was spent on a row, the row has counted. -/
lemma Path.counted_le (h : Path before after ok s steps s')
    (hcounts : Counts rows key counted used before after ok spends) :
    (∀ k ∈ steps.flatMap spends, used s' k) ∧
      ∀ r ∈ rows s', (steps.flatMap spends).count (key r) ≤ counted r := by
  induction h with
  | nil => simp
  | @snoc steps p h hp ih =>
    obtain ⟨hused, hrows⟩ := ih
    have hall : ∀ k ∈ (steps ++ [p]).flatMap spends, used (before p) k := by
      intro k hk
      rw [List.flatMap_append, List.flatMap_singleton] at hk
      rcases List.mem_append.mp hk with hk | hk
      · exact hused k hk
      · exact hcounts.spent p hp k hk
    constructor
    · exact fun k hk => hcounts.stays p hp k (hall k hk)
    · intro r hr
      rcases hcounts.row p hp r hr with ⟨r₀, hr₀, hkey, hle⟩ | hnew
      · have hold := hrows r₀ hr₀
        rw [hkey] at hold
        rw [List.flatMap_append, List.flatMap_singleton, List.count_append]
        exact (Nat.add_le_add_right hold _).trans hle
      · rw [List.count_eq_zero_of_not_mem fun hmem => hnew (hall _ hmem)]
        exact Nat.zero_le _

variable {total limit : ℕ} {window : ℤ}

/-- When a step spends, less than the budget was spent in the window that ends with it. -/
lemma Path.spent_lt {l : List τ} {p : τ} (counts : τ → ρ → Bool)
    (h : Path before after ok s l (before p))
    (hcounts : Counts rows key counted used before after ok spends)
    (hbudget : (((rows (before p)).filter (counts p)).map counted).sum < total)
    (hkept : ∀ q ∈ l, time p < time q + window → ∀ k ∈ spends q,
      ∃ r ∈ rows (before p), key r = k ∧ counts p r = true) :
    ((l.filter fun q => time p < time q + window).flatMap spends).length < total := by
  refine lt_of_le_of_lt ?_ hbudget
  have hsub : ((l.filter fun q => time p < time q + window).flatMap spends).Sublist
      (l.flatMap spends) := List.filter_sublist.flatMap _
  have hkeys : ∀ k ∈ (l.filter fun q => time p < time q + window).flatMap spends,
      k ∈ ((rows (before p)).filter (counts p)).map key := by
    intro k hk
    obtain ⟨q, hq, hk⟩ := List.mem_flatMap.mp hk
    obtain ⟨hq, htime⟩ := List.mem_filter.mp hq
    obtain ⟨r, hr, rfl, hcount⟩ := hkept q hq (of_decide_eq_true htime) k hk
    exact List.mem_map_of_mem (List.mem_filter.mpr ⟨hr, hcount⟩)
  have hlength := length_le_occurrences hkeys
  rw [List.map_map] at hlength
  refine hlength.trans (List.sum_le_sum fun r hr => ?_)
  exact (hsub.count_le _).trans ((h.counted_le hcounts).2 r (List.mem_of_mem_filter hr))

/-- Whatever window a path is looked at through, no more than the budget is spent in it, and no
more than the limit on one key. -/
theorem Path.keeps_budget (counts : τ → ρ → Bool) (h : Path before after ok s steps s')
    (hcounts : Counts rows key counted used before after ok spends)
    (hspend : ∀ l p m, steps = l ++ p :: m → spends p ≠ [] →
      (((rows (before p)).filter (counts p)).map counted).sum < total ∧
        (∃ r ∈ rows (before p), spends p = [key r] ∧ counted r < limit) ∧
        ∀ q ∈ l, time p < time q + window → ∀ k ∈ spends q,
          ∃ r ∈ rows (before p), key r = k ∧ counts p r = true) :
    (∀ since, (spentBetween time spends since (since + window) steps).length ≤ total) ∧
      ∀ k, (steps.flatMap spends).count k ≤ limit := by
  constructor
  · apply spentBetween_le
    · intro p hp
      obtain ⟨l, m, hsplit⟩ := List.append_of_mem hp
      by_cases hnone : spends p = []
      · simp [hnone]
      · obtain ⟨-, ⟨r, -, hone, -⟩, -⟩ := hspend l p m hsplit hnone
        simp [hone]
    · rintro l p m rfl hp
      obtain ⟨hbudget, -, hkept⟩ := hspend l p m rfl hp
      exact h.around.1.spent_lt counts hcounts hbudget hkept
  · intro k
    induction h with
    | nil => exact Nat.zero_le _
    | @snoc steps p h hp ih =>
      have hprefix := ih fun l q m hsplit => hspend l q (m ++ [p]) (by simp [hsplit])
      rw [List.flatMap_append, List.flatMap_singleton, List.count_append]
      by_cases hnone : spends p = []
      · simpa [hnone] using hprefix
      · obtain ⟨-, ⟨r, hr, hone, hlt⟩, -⟩ := hspend steps p [] rfl hnone
        have hrow := (h.counted_le hcounts).2 r hr
        rw [hone]
        by_cases hk : key r = k
        · subst hk
          simp
          omega
        · simpa [hk] using hprefix

end Path

end Transition
