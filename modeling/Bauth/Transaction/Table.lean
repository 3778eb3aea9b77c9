import Mathlib.Data.Int.Notation
import Mathlib.Data.List.Forall2
import Mathlib.Data.List.Nodup

/-!
# Tables

A table is the list of its rows. What one statement leaves of a table is described by
`Evolves`: some rows are gone, each other row is the same or takes a step of its own, and new rows
come last. Facts about a table that hold row by row, or that are counted over its rows, follow
from the steps of its rows.
-/

namespace Transaction

variable {ρ κ : Type}

/-- `ORDER BY created_at DESC, id DESC LIMIT 1`. -/
def newest (createdAt : ρ → ℤ) (id : ρ → ℕ) : List ρ → Option ρ
  | [] => none
  | r :: rows =>
    match newest createdAt id rows with
    | none => some r
    | some b =>
      if createdAt r < createdAt b || (createdAt r = createdAt b && id r < id b) then some b
      else some r

lemma mem_of_newest {createdAt : ρ → ℤ} {id : ρ → ℕ} {rows : List ρ} {r : ρ}
    (h : newest createdAt id rows = some r) : r ∈ rows := by
  induction rows with
  | nil => cases h
  | cons r' rows ih =>
    simp only [newest] at h
    split at h
    · obtain rfl := Option.some.inj h
      exact List.mem_cons_self
    · rename_i b hb
      split_ifs at h
      · exact List.mem_cons_of_mem _ (ih (hb.trans h))
      · obtain rfl := Option.some.inj h
        exact List.mem_cons_self

/-! ### Updates -/

/-- Apply `set` to the rows satisfying `p`: an `UPDATE … SET … WHERE p`. -/
def updateWhere (p : ρ → Bool) (set : ρ → ρ) (rows : List ρ) : List ρ :=
  rows.map fun r => if p r then set r else r

section updateWhere

variable {p : ρ → Bool} {set : ρ → ρ} {rows : List ρ}

lemma mem_updateWhere {r : ρ} :
    r ∈ updateWhere p set rows ↔ ∃ r₀ ∈ rows, (if p r₀ then set r₀ else r₀) = r := by
  simp only [updateWhere, List.mem_map]

@[simp] lemma updateWhere_nil : updateWhere p set [] = [] := rfl

/-- A column the update does not write keeps its values, in the same order. -/
lemma map_updateWhere (f : ρ → κ) (h : ∀ r, f (set r) = f r) :
    (updateWhere p set rows).map f = rows.map f := by
  simp only [updateWhere, List.map_map]
  refine List.map_congr_left fun r _ => ?_
  simp only [Function.comp_apply]
  split_ifs <;> simp [h]

lemma updateWhere_of_forall_not (h : ∀ r ∈ rows, p r = false) : updateWhere p set rows = rows := by
  simp only [updateWhere]
  conv_rhs => rw [← List.map_id rows]
  exact List.map_congr_left fun r hr => by simp [h r hr]

lemma updateWhere_congr {q : ρ → Bool} (h : ∀ r ∈ rows, p r = q r) :
    updateWhere p set rows = updateWhere q set rows :=
  List.map_congr_left fun r hr => by rw [h r hr]

/-- Two updates are one if the first takes its rows out of reach of the second. -/
lemma updateWhere_updateWhere {q : ρ → Bool} (h : ∀ r, q r → p (set r) = false) :
    updateWhere p set (updateWhere q set rows) = updateWhere (fun r => p r || q r) set rows := by
  simp only [updateWhere, List.map_map]
  refine List.map_congr_left fun r _ => ?_
  by_cases hq : q r = true
  · simp [hq, h r hq]
  · simp [hq]

end updateWhere

/-! ### Keys -/

section Keys

variable {κ : Type} [DecidableEq κ] {key : ρ → κ} {rows : List ρ}

lemma mem_hit {p : ρ → Bool} {r : ρ} :
    ((rows.filter p).map key).contains (key r) = true ↔
      ∃ r₀ ∈ rows, p r₀ = true ∧ key r₀ = key r := by
  simp [List.mem_filter, and_assoc]

/-- Rows with distinct keys are hit exactly when they were found. -/
lemma updateWhere_hit (h : (rows.map key).Nodup) (p : ρ → Bool) (set : ρ → ρ) :
    updateWhere (fun r => ((rows.filter p).map key).contains (key r)) set rows =
      updateWhere p set rows := by
  refine updateWhere_congr fun r hr => ?_
  rw [Bool.eq_iff_iff, mem_hit]
  constructor
  · rintro ⟨r₀, hr₀, hp, hkey⟩
    exact List.inj_on_of_nodup_map h hr₀ hr hkey ▸ hp
  · exact fun hp => ⟨r, hr, hp, rfl⟩

/-- Looking a key up finds the one row that has it. -/
lemma find?_key_iff (h : (rows.map key).Nodup) {k : κ} {r : ρ} :
    rows.find? (fun r => key r = k) = some r ↔ r ∈ rows ∧ key r = k := by
  constructor
  · exact fun hfind => ⟨List.mem_of_find?_eq_some hfind, by simpa using List.find?_some hfind⟩
  · rintro ⟨hr, rfl⟩
    obtain ⟨r', hr'⟩ := Option.isSome_iff_exists.mp
      (List.find?_isSome.mpr ⟨r, hr, by simp⟩ :
        (rows.find? fun x => decide (key x = key r)).isSome)
    have hkey : key r' = key r := by simpa using List.find?_some hr'
    rwa [List.inj_on_of_nodup_map h (List.mem_of_find?_eq_some hr') hr hkey] at hr'

omit [DecidableEq κ] in
/-- The one row with its identifier is the first one found. -/
lemma head?_filter_eq {p : ρ → Bool} {r : ρ}
    (h : (rows.map key).Nodup) (hr : r ∈ rows) (hp : p r = true)
    (huniq : ∀ r', p r' = true → key r' = key r) : (rows.filter p).head? = some r := by
  cases hhead : (rows.filter p).head? with
  | none =>
    rw [List.head?_eq_none_iff, List.filter_eq_nil_iff] at hhead
    exact absurd hp (hhead r hr)
  | some r' =>
    obtain ⟨hr', hp'⟩ := List.mem_filter.mp (List.mem_of_head? hhead)
    rw [List.inj_on_of_nodup_map h hr' hr (huniq r' hp')]

omit [DecidableEq κ] in
/-- A row is found at most once by its identifier. -/
lemma length_filter_le_one {p : ρ → Bool} {k : κ}
    (h : (rows.map key).Nodup) (hp : ∀ r, p r = true → key r = k) :
    (rows.filter p).length ≤ 1 := by
  have hnodup : ((rows.filter p).map key).Nodup := (List.filter_sublist.map key).nodup h
  have hrep : (rows.filter p).map key = List.replicate (rows.filter p).length k := by
    rw [List.eq_replicate_iff]
    refine ⟨List.length_map _, fun x hx => ?_⟩
    obtain ⟨r, hr, rfl⟩ := List.mem_map.mp hx
    exact hp r (List.mem_filter.mp hr).2
  rw [hrep] at hnodup
  exact List.nodup_replicate.mp hnodup

omit [DecidableEq κ] in
/-- The one row with its identifier is all that is found. -/
lemma filter_eq_singleton {test : ρ → Bool} {r : ρ} (h : (rows.map key).Nodup) (hr : r ∈ rows)
    (htest : test r = true) (hkey : ∀ r' ∈ rows, test r' = true → key r' = key r) :
    rows.filter test = [r] := by
  have hall : ∀ r' ∈ rows.filter test, r' = r := by
    intro r' hr'
    obtain ⟨hr', htest'⟩ := List.mem_filter.mp hr'
    exact List.inj_on_of_nodup_map h hr' hr (hkey r' hr' htest')
  have hnodup : (rows.filter test).Nodup := h.of_map.filter _
  cases hrows : rows.filter test with
  | nil =>
    have hmem : r ∈ rows.filter test := List.mem_filter.mpr ⟨hr, htest⟩
    simp [hrows] at hmem
  | cons r' rest =>
    rw [hrows] at hall hnodup
    obtain rfl := hall r' (by simp)
    cases rest with
    | nil => rfl
    | cons r'' rest =>
      obtain rfl := hall r'' (by simp)
      simp at hnodup

end Keys

/-! ### Evolution -/

/-- Some rows of `rows` are gone, the others took a step, and at most one new row came. -/
def Evolves (step : ρ → ρ → Prop) (new : ρ → Prop) (rows rows' : List ρ) : Prop :=
  ∃ kept stepped added, kept.Sublist rows ∧ List.Forall₂ step kept stepped ∧
    rows' = stepped ++ added ∧ (∀ r ∈ added, new r) ∧ added.length ≤ 1

namespace Evolves

variable {step : ρ → ρ → Prop} {new : ρ → Prop} {rows rows' : List ρ}

/-- Rows are changed one by one, then some are dropped. -/
lemma filter_map (f : ρ → ρ) (p : ρ → Bool) (h : ∀ r ∈ rows, step r (f r)) :
    Evolves step new rows ((rows.map f).filter p) := by
  refine ⟨rows.filter (p ∘ f), (rows.filter (p ∘ f)).map f, [], List.filter_sublist, ?_, ?_,
    by simp, by simp⟩
  · rw [List.forall₂_map_right_iff, List.forall₂_same]
    exact fun r hr => h r (List.mem_of_mem_filter hr)
  · rw [List.append_nil, List.filter_map]

lemma map (f : ρ → ρ) (h : ∀ r ∈ rows, step r (f r)) : Evolves step new rows (rows.map f) := by
  simpa using @filter_map _ step new rows f (fun _ => true) h

lemma update (p : ρ → Bool) (set : ρ → ρ) (hsame : ∀ r, step r r)
    (h : ∀ r ∈ rows, p r → step r (set r)) :
    Evolves step new rows (updateWhere p set rows) := by
  refine map _ fun r hr => ?_
  split_ifs with hp
  · exact h r hr hp
  · exact hsame r

lemma refl (hsame : ∀ r, step r r) : Evolves step new rows rows := by
  simpa using @map _ step new rows id fun r _ => hsame r

lemma filter (p : ρ → Bool) (hsame : ∀ r, step r r) : Evolves step new rows (rows.filter p) := by
  simpa using @filter_map _ step new rows id p fun r _ => hsame r

lemma append (hsame : ∀ r, step r r) {r : ρ} (h : new r) : Evolves step new rows (rows ++ [r]) := by
  refine ⟨rows, rows, [r], List.Sublist.refl _, List.forall₂_same.mpr fun r _ => hsame r, rfl, ?_,
    by simp⟩
  simpa using h

/-- A row of the new table is a new one or was there before its step. -/
lemma mem (h : Evolves step new rows rows') {r' : ρ} (hr' : r' ∈ rows') :
    (∃ r ∈ rows, step r r') ∨ new r' := by
  obtain ⟨kept, stepped, added, hsub, hstep, rfl, hnew, -⟩ := h
  rcases List.mem_append.mp hr' with hr' | hr'
  · obtain ⟨i, hi, rfl⟩ := List.getElem_of_mem hr'
    have hi' : i < kept.length := hstep.length_eq ▸ hi
    exact Or.inl ⟨kept[i], hsub.subset (List.getElem_mem hi'), hstep.get hi' hi⟩
  · exact Or.inr (hnew r' hr')

/-- What the rows of a table satisfy, if steps keep it and new rows come with it. -/
lemma forall_mem (h : Evolves step new rows rows') {P : ρ → Prop} (hP : ∀ r ∈ rows, P r)
    (hstep : ∀ r r', P r → step r r' → P r') (hnew : ∀ r, new r → P r) : ∀ r ∈ rows', P r := by
  intro r' hr'
  rcases h.mem hr' with ⟨r, hr, hrr'⟩ | hr'
  · exact hstep r r' (hP r hr) hrr'
  · exact hnew r' hr'

/-- The values of a column no step writes: those of a new row come after some of the old ones. -/
lemma map_eq (h : Evolves step new rows rows') (f : ρ → κ)
    (hf : ∀ r r', step r r' → f r' = f r) :
    ∃ old added, old.Sublist (rows.map f) ∧ rows'.map f = old ++ added ∧
      (∀ x ∈ added, ∃ r, new r ∧ f r = x) ∧ added.length ≤ 1 := by
  obtain ⟨kept, stepped, added, hsub, hstep, rfl, hnew, hlen⟩ := h
  refine ⟨kept.map f, added.map f, hsub.map f, ?_, ?_, by simpa using hlen⟩
  · rw [List.map_append, List.append_cancel_right_eq]
    induction hstep with
    | nil => rfl
    | cons hab _ ih => simpa [hf _ _ hab] using ih ((List.sublist_cons_self _ _).trans hsub)
  · intro x hx
    obtain ⟨r, hr, rfl⟩ := List.mem_map.mp hx
    exact ⟨r, hnew r hr, rfl⟩

/-- A key stays unique if no step writes it and new rows have an unused one. -/
lemma nodup (h : Evolves step new rows rows') (f : ρ → κ) (hf : ∀ r r', step r r' → f r' = f r)
    (hnew : ∀ r, new r → f r ∉ rows.map f) (hrows : (rows.map f).Nodup) : (rows'.map f).Nodup := by
  obtain ⟨old, added, hsub, heq, hadded, hlen⟩ := h.map_eq f hf
  rw [heq, List.nodup_append]
  refine ⟨hsub.nodup hrows, ?_, ?_⟩
  · match added, hlen with
    | [], _ => exact List.nodup_nil
    | [x], _ => simp
  · intro x hx y hy hxy
    obtain ⟨r, hr, rfl⟩ := hadded y hy
    exact hnew r hr (hxy ▸ hsub.subset hx)

end Evolves

end Transaction
