import Bauth.Keys.Step

/-!
# Signing never stops

From the first return of `ensure_and_load` on, some key of the table signs at every instant to
come: a rotation takes from the others only what its own key covers. Rotations follow one another
under the advisory lock, so that one key at most waits for its time.
-/

namespace Bauth

open Transaction Transition

namespace Keys

/-- A step of the key processes, as taken. -/
abbrev Taken := Transition.Step State Action

section Rotations

variable {v : Vault} {s s' : State} {i : ℕ}

/-! ### Rotations follow one another -/

/-- What the table is like for a process in this phase. -/
def Proc.Fits (s : State) : Proc → Prop
  | inserting row => row.activeAt ≤ s.clock
  | listing now => now ≤ s.clock
  | due _ => ∀ r ∈ s.rows, r.activeAt ≤ s.clock
  | inserted now row => (∀ r ∈ s.rows, r.activeAt ≤ s.clock) ∧ row.retiredAt = none ∧
      row.activeAt = now + prepublication
  | retiring now row _ => (∀ r ∈ s.rows, r.activeAt ≤ s.clock) ∧ row.retiredAt = none ∧
      row.activeAt = now + prepublication
  | _ => True

/-- The pending keys: those that sign later. -/
def State.pending (s : State) : List SigningKeyRow := s.rows.filter fun row => s.clock < row.activeAt

structure Orderly (s : State) : Prop where
  lock : ∀ (i j : ℕ) (p q : Proc), s.procs[i]? = some p → s.procs[j]? = some q →
    p.isRotating = true → q.isRotating = true → i = j
  lasting : ∀ row ∈ s.pending, row.retiredAt = none
  single : s.pending.length ≤ 1
  fits : ∀ (i : ℕ) (p : Proc), s.procs[i]? = some p → p.Fits s

lemma Proc.Fits.mono {p : Proc} (h : p.Fits s) (hclock : s.clock ≤ s'.clock)
    (hrows : p.isRotating = true → ∀ r ∈ s'.rows, r ∈ s.rows ∨ r.activeAt ≤ s'.clock) : p.Fits s' := by
  have hall : p.isRotating = true → (∀ r ∈ s.rows, r.activeAt ≤ s.clock) →
      ∀ r ∈ s'.rows, r.activeAt ≤ s'.clock := by
    intro hp hle r hr
    rcases hrows hp r hr with hr | hr
    · exact (hle r hr).trans hclock
    · exact hr
  cases p with
  | inserting row => exact le_trans h hclock
  | listing now => exact le_trans h hclock
  | due now => exact hall rfl h
  | inserted now row => exact ⟨hall rfl h.1, h.2⟩
  | retiring now row ids => exact ⟨hall rfl h.1, h.2⟩
  | _ => trivial

lemma set_cases {procs : List Proc} {p p' : Proc} {j : ℕ} (h : (procs.set i p)[j]? = some p') :
    j = i ∧ p' = p ∨ j ≠ i ∧ procs[j]? = some p' := by
  by_cases hji : i = j
  · subst hji
    rw [List.getElem?_set] at h
    simp only [if_true] at h
    split_ifs at h
    exact .inl ⟨rfl, (Option.some.inj h).symm⟩
  · rw [List.getElem?_set_ne hji] at h
    exact .inr ⟨fun h => hji h.symm, h⟩

lemma append_cases {procs : List Proc} {p p' : Proc} {j : ℕ} (h : (procs ++ [p])[j]? = some p') :
    procs[j]? = some p' ∨ p' = p := by
  by_cases hlt : j < procs.length
  · rw [List.getElem?_append_left hlt] at h
    exact .inl h
  · rw [List.getElem?_append_right (not_lt.mp hlt), List.getElem?_singleton] at h
    split_ifs at h
    exact .inr (Option.some.inj h).symm

/-- Nothing is pending when a rotation decides to go on. -/
lemma activeAt_le_of_isDue (h : Orderly s) {now : Time} (hnow : now ≤ s.clock)
    (hdue : isDue s.rows now = true) : ∀ r ∈ s.rows, r.activeAt ≤ s.clock := by
  intro r hr
  by_contra hlt
  rw [not_le] at hlt
  have hpending : r ∈ s.pending := List.mem_filter.mpr ⟨hr, decide_eq_true hlt⟩
  have hpublished : r ∈ listPublished s.rows now retiredKeyGrace :=
    mem_listPublished.mpr ⟨hr, outlasts_of_none (h.lasting r hpending)⟩
  rw [isDue, Bool.and_eq_true, Bool.not_eq_true', List.any_eq_false] at hdue
  exact hdue.1 r hpublished (decide_eq_true (lt_of_le_of_lt hnow hlt))

/-- A process that goes on fits its next phase. -/
lemma Goes.fits {p p' : Proc} (h : Goes v s p p') (hs : Orderly s) (hp : p.Fits s) : p'.Fits s := by
  cases h with
  | create => exact le_rfl
  | now => exact le_rfl
  | decide hdue => exact activeAt_le_of_isDue hs hp hdue
  | publish => exact ⟨hp, rfl, rfl⟩
  | update => exact hp
  | _ => trivial

lemma Goes.isRotating {p p' : Proc} (h : Goes v s p p') (hp : p'.isRotating = true) :
    p.isRotating = true ∨ s.isLocked = false := by
  cases h with
  | lock hfree => exact .inr hfree
  | now => exact .inl rfl
  | decide => exact .inl rfl
  | publish => exact .inl rfl
  | update => exact .inl rfl
  | _ => cases hp

/-- A process that moved on keeps the lock to itself. -/
lemma lock_set {p p' : Proc} (h : Orderly s) (hi : s.procs[i]? = some p)
    (hrotating : p'.isRotating = true → p.isRotating = true ∨ s.isLocked = false) :
    ∀ (j k : ℕ) (q r : Proc), (s.procs.set i p')[j]? = some q → (s.procs.set i p')[k]? = some r →
      q.isRotating = true → r.isRotating = true → j = k := by
  -- a rotating process next to `i` makes `i` the one that held the lock
  have hother : ∀ (j : ℕ) (q : Proc), s.procs[j]? = some q → q.isRotating = true → p'.isRotating = true → j = i := by
    intro j q hj hq hp'
    rcases hrotating hp' with hp | hfree
    · exact h.lock j i q p hj hi hq hp
    · rw [State.isLocked, List.any_eq_false] at hfree
      exact absurd hq (hfree q (List.mem_of_getElem? hj))
  intro j k q r hj hk hq hr
  rcases set_cases hj with ⟨rfl, rfl⟩ | ⟨-, hj'⟩
  · rcases set_cases hk with ⟨rfl, -⟩ | ⟨-, hk⟩
    · rfl
    · exact (hother k r hk hr hq).symm
  · rcases set_cases hk with ⟨rfl, rfl⟩ | ⟨-, hk⟩
    · exact hother j q hj' hq hr
    · exact h.lock j k q r hj' hk hq hr

lemma Steps.orderly {a : Action} (h : Steps v s a s') (hs : Orderly s) : Orderly s' := by
  cases h with
  | @tick time hle =>
    have hsub : State.pending { s with clock := time } =
        s.pending.filter fun row => time < row.activeAt := by
      simp only [State.pending, List.filter_filter]
      refine List.filter_congr fun row _ => ?_
      by_cases hrow : time < row.activeAt
      · simp [hrow, lt_of_le_of_lt hle hrow]
      · simp [hrow]
    refine ⟨hs.lock, ?_, ?_, fun i p hi => (hs.fits i p hi).mono hle fun _ r hr => .inl hr⟩
    · intro row hrow
      rw [hsub] at hrow
      exact hs.lasting row (List.mem_of_mem_filter hrow)
    · rw [hsub]
      exact (List.length_filter_le _ _).trans hs.single
  | call p hp =>
    have hnew : p.isRotating = false ∧ p.Fits s := by
      rcases hp with ⟨-, rfl⟩ | ⟨-, rfl⟩ <;> exact ⟨rfl, trivial⟩
    refine ⟨?_, hs.lasting, hs.single, ?_⟩
    · intro i j q r hi hj hq hr
      rcases append_cases hi with hi | rfl
      · rcases append_cases hj with hj | rfl
        · exact hs.lock i j q r hi hj hq hr
        · exact absurd hr (by simp [hnew.1])
      · exact absurd hq (by simp [hnew.1])
    · intro i q hi
      rcases append_cases hi with hi | rfl
      · exact (hs.fits i q hi).mono le_rfl fun _ r hr => .inl hr
      · exact hnew.2.mono le_rfl fun _ r hr => .inl hr
  | purge =>
    have hsub : (State.pending { s with rows := Keys.purge s.rows s.clock }).Sublist s.pending :=
      List.filter_sublist.filter _
    refine ⟨hs.lock, fun row hrow => hs.lasting row (hsub.subset hrow),
      hsub.length_le.trans hs.single, fun i p hi => ?_⟩
    exact (hs.fits i p hi).mono le_rfl fun _ r hr => .inl (mem_of_mem_purge hr)
  | @go a i p p' ha hi hgoes drawn hdrawn =>
    have hlock := lock_set hs hi hgoes.isRotating
    refine ⟨hlock, hs.lasting, hs.single, ?_⟩
    intro j q hj
    rcases set_cases hj with ⟨-, rfl⟩ | ⟨-, hj⟩
    · exact (hgoes.fits hs (hs.fits i p hi)).mono le_rfl fun _ r hr => .inl hr
    · exact (hs.fits j q hj).mono le_rfl fun _ r hr => .inl hr
  | @insert i row hi =>
    have hrow : row.activeAt ≤ s.clock := hs.fits i _ hi
    have hpending : State.pending { s with rows := s.rows ++ [row] } = s.pending := by
      simp [State.pending, List.filter_append, not_lt.mpr hrow]
    have hset : State.pending ({ s with rows := s.rows ++ [row] }.set i .reloading) = s.pending :=
      hpending
    have hlock := lock_set hs hi (show Proc.isRotating .reloading = true → _ by simp [Proc.isRotating])
    refine ⟨hlock, ?_, ?_, ?_⟩
    · rw [hset]
      exact hs.lasting
    · rw [hset]
      exact hs.single
    · intro j q hj
      rcases set_cases hj with ⟨-, rfl⟩ | ⟨-, hj⟩
      · trivial
      · refine (hs.fits j q hj).mono le_rfl fun _ r hr => ?_
        rcases List.mem_append.mp hr with hr | hr
        · exact .inl hr
        · rw [List.mem_singleton.mp hr]
          exact .inr hrow
  | @commit i now row ids hi =>
    obtain ⟨hle, hnone, hactive⟩ : (∀ r ∈ s.rows, r.activeAt ≤ s.clock) ∧ _ := hs.fits i _ hi
    have hpending : State.pending ({ s with rows := s.rows.map (retire ids (now + prepublication)) ++
        [row] }.set i (.rotated (some row.id))) = [row].filter fun row => s.clock < row.activeAt := by
      have hnil : (s.rows.map (retire ids (now + prepublication))).filter
          (fun row => s.clock < row.activeAt) = [] := by
        rw [List.filter_eq_nil_iff]
        intro r hr
        obtain ⟨r₀, hr₀, rfl⟩ := List.mem_map.mp hr
        simpa using hle r₀ hr₀
      have hrows : (s.rows.map (retire ids (now + prepublication)) ++ [row]).filter
          (fun row => s.clock < row.activeAt) = [row].filter fun row => s.clock < row.activeAt := by
        rw [List.filter_append, hnil, List.nil_append]
      exact hrows
    have hlock := lock_set hs hi
      (show Proc.isRotating (.rotated (some row.id)) = true → _ by simp [Proc.isRotating])
    refine ⟨hlock, ?_, ?_, ?_⟩
    · rw [hpending]
      intro r hr
      rw [List.mem_singleton.mp (List.mem_of_mem_filter hr)]
      exact hnone
    · rw [hpending]
      exact List.length_filter_le _ _
    · intro j q hj
      rcases set_cases hj with ⟨-, rfl⟩ | ⟨hji, hj⟩
      · trivial
      · refine (hs.fits j q hj).mono le_rfl fun hq r hr => ?_
        exact absurd (hs.lock j i q _ hj hi hq rfl) hji

lemma empty_orderly (clock : Time) : Orderly (empty clock) := by
  constructor
  · simp [empty]
  · simp [empty, State.pending]
  · simp [empty, State.pending]
  · simp [empty]

/-! ### Every instant to come has a signer -/

/-- From `a` on, some key of the table signs at every instant to come. -/
def Covered (s : State) (a : Time) : Prop :=
  ∀ u, a ≤ u → s.clock ≤ u → ∃ row ∈ s.rows, row.canSign u = true

lemma Covered.mono {a b : Time} (h : Covered s a) (hle : a ≤ b) : Covered s b :=
  fun u hu hclock => h u (hle.trans hu) hclock

/-- A key that is not retired covers all that follows its start. -/
lemma covered_of_mem {row : SigningKeyRow} (h : row ∈ s.rows) (hrow : row.retiredAt = none) :
    Covered s row.activeAt :=
  fun _ hu _ => ⟨row, h, canSign_iff.mpr ⟨hu, outlasts_of_none hrow⟩⟩

/-- What is covered stays so: a rotation's own key covers what it takes from the others. -/
lemma Covered.step {a : Action} {start : Time} (h : Covered s start) (hsteps : Steps v s a s')
    (hs : Orderly s) : Covered s' start := by
  intro u hu hclock
  cases hsteps with
  | tick hle => exact h u hu (hle.trans hclock)
  | call => exact h u hu hclock
  | purge =>
    obtain ⟨row, hrow, hsign⟩ := h u hu hclock
    refine ⟨row, mem_purge hrow (canSign_iff.mp hsign).2 (hclock.trans ?_), hsign⟩
    exact le_add_of_nonneg_right (by decide)
  | go => exact h u hu hclock
  | insert =>
    obtain ⟨row, hrow, hsign⟩ := h u hu hclock
    exact ⟨row, List.mem_append_left _ hrow, hsign⟩
  | @commit i now row ids hi =>
    obtain ⟨-, hnone, hactive⟩ : _ ∧ row.retiredAt = none ∧ row.activeAt = now + prepublication :=
      hs.fits i _ hi
    by_cases hlt : u < now + prepublication
    · obtain ⟨r, hr, hsign⟩ := h u hu hclock
      obtain ⟨hle, hlasts⟩ := canSign_iff.mp hsign
      refine ⟨retire ids (now + prepublication) r, ?_, canSign_iff.mpr ⟨?_, ?_⟩⟩
      · exact List.mem_append_left _ (List.mem_map_of_mem hr)
      · rw [retire_activeAt]
        exact hle
      · exact outlasts_retire hlasts hlt
    · have hrow : row ∈ s.rows.map (retire ids (now + prepublication)) ++ [row] := by simp
      refine ⟨row, hrow, canSign_iff.mpr ⟨?_, outlasts_of_none hnone⟩⟩
      exact hactive ▸ not_lt.mp hlt

/-- What the processes know of the keys: those they loaded cover what follows their start, and so
does the one that `ensure_and_load` created. -/
def Proc.Knows (s : State) : Proc → Prop
  | checking keys _ => ∀ key ∈ keys.keys, Covered s key.activeAt
  | inserting row => row.retiredAt = none
  | reloading => Covered s s.clock
  | requerying _ => Covered s s.clock
  | loaded _ _ => Covered s s.clock
  | _ => True

structure Covers (s : State) : Prop where
  rows : ∀ row ∈ s.rows, Covered s row.activeAt
  knows : ∀ (i : ℕ) (p : Proc), s.procs[i]? = some p → p.Knows s

lemma Proc.Knows.mono {p : Proc} (h : p.Knows s) (hclock : s.clock ≤ s'.clock)
    (hcovered : ∀ a, Covered s a → Covered s' a) : p.Knows s' := by
  cases p with
  | checking keys loadedAt => exact fun key hkey => hcovered _ (h key hkey)
  | inserting row => exact h
  | reloading => exact (hcovered _ h).mono hclock
  | requerying now => exact (hcovered _ h).mono hclock
  | loaded keys loadedAt => exact (hcovered _ h).mono hclock
  | _ => trivial

lemma Goes.knows {p p' : Proc} (h : Goes v s p p') (hs : Covers s) (hp : p.Knows s) :
    p'.Knows s := by
  cases h with
  | query hload =>
    intro key hkey
    obtain ⟨row, hrow, -, hactive, -⟩ := mem_of_load hload hkey
    rw [hactive]
    exact hs.rows row hrow
  | @found keys loadedAt hfound =>
    obtain ⟨key, hkey⟩ := Option.isSome_iff_exists.mp hfound
    rw [SigningKeys.signingKey] at hkey
    have hcovered := hp key (List.mem_of_find?_eq_some hkey)
    have hsign := List.find?_some hkey
    rw [LoadedKey.canSign, Bool.and_eq_true, decide_eq_true_eq] at hsign
    exact hcovered.mono hsign.1
  | create => exact rfl
  | restart => exact hp
  | requery => exact hp
  | _ => trivial

lemma Steps.covers {a : Action} (h : Steps v s a s') (hs : Orderly s) (hc : Covers s) :
    Covers s' := by
  have hstep : ∀ start, Covered s start → Covered s' start := fun start hcovered =>
    hcovered.step h hs
  have hknows : ∀ p : Proc, p.Knows s → p.Knows s' := by
    intro p hp
    refine hp.mono ?_ hstep
    cases h with
    | tick hle => exact hle
    | _ => exact le_rfl
  cases h with
  | tick => exact ⟨fun row hrow => hstep _ (hc.rows row hrow), fun i p hi => hknows p (hc.knows i p hi)⟩
  | @call _ p hp =>
    refine ⟨fun row hrow => hstep _ (hc.rows row hrow), fun i q hi => ?_⟩
    rcases append_cases hi with hi | rfl
    · exact hknows q (hc.knows i q hi)
    · rcases hp with ⟨-, rfl⟩ | ⟨-, rfl⟩ <;> trivial
  | purge =>
    refine ⟨fun row hrow => hstep _ (hc.rows row (mem_of_mem_purge hrow)), fun i p hi => ?_⟩
    exact hknows p (hc.knows i p hi)
  | @go _ i p p' _ hi hgoes =>
    refine ⟨fun row hrow => hstep _ (hc.rows row hrow), fun j q hj => ?_⟩
    rcases set_cases hj with ⟨-, rfl⟩ | ⟨-, hj⟩
    · exact hknows q (hgoes.knows hc (hc.knows i p hi))
    · exact hknows q (hc.knows j q hj)
  | @insert i row hi =>
    have hrow : row ∈ s.rows ++ [row] := by simp
    have hnone : row.retiredAt = none := hc.knows i _ hi
    have hnew := covered_of_mem (s := { s with rows := s.rows ++ [row] }.set i .reloading) hrow hnone
    have hle : row.activeAt ≤ s.clock := hs.fits i _ hi
    refine ⟨fun r hr => ?_, fun j q hj => ?_⟩
    · rcases List.mem_append.mp hr with hr | hr
      · exact hstep _ (hc.rows r hr)
      · rw [List.mem_singleton.mp hr]
        exact hnew
    · rcases set_cases hj with ⟨-, rfl⟩ | ⟨-, hj⟩
      · exact hnew.mono hle
      · exact hknows q (hc.knows j q hj)
  | @commit i now row ids hi =>
    obtain ⟨-, hnone, -⟩ : _ ∧ row.retiredAt = none ∧ row.activeAt = now + prepublication :=
      hs.fits i _ hi
    refine ⟨fun r hr => ?_, fun j q hj => ?_⟩
    · rcases List.mem_append.mp hr with hr | hr
      · obtain ⟨r₀, hr₀, rfl⟩ := List.mem_map.mp hr
        rw [retire_activeAt]
        exact hstep _ (hc.rows r₀ hr₀)
      · have hrow : row ∈ s.rows.map (retire ids (now + prepublication)) ++ [row] := by simp
        rw [List.mem_singleton.mp hr]
        exact covered_of_mem hrow hnone
    · rcases set_cases hj with ⟨-, rfl⟩ | ⟨-, hj⟩
      · trivial
      · exact hknows q (hc.knows j q hj)

lemma Taken.steps {p : Taken} (hp : (system v).Takes p) : Steps v p.before p.action p.after :=
  steps_of_step hp

lemma invariants_of_run {clock : Time} {steps : List Taken}
    (hrun : (system v).Run (empty clock) steps s) : Orderly s ∧ Covers s := by
  refine hrun.keeps (P := fun s => Orderly s ∧ Covers s) ⟨empty_orderly clock, ?_⟩ ?_
  · constructor <;> simp [empty]
  · rintro p - hp ⟨hs, hc⟩
    have hsteps := Taken.steps hp
    exact ⟨hsteps.orderly hs, hsteps.covers hs hc⟩

/-! ### Only old keys are replaced -/

/-- The decision of the rotation that now carries `now`, in the steps before. -/
def Decided (steps : List Taken) (i : ℕ) (now : Time) : Prop :=
  ∃ q ∈ steps, q.action = .advance i ∧ q.before.procs[i]? = some (.listing now) ∧
    ∀ r ∈ q.before.rows, r.canSign now = true → rotationInterval ≤ now - r.activeAt

/-- A rotation that creates a key found every signing key `rotationInterval` old, and the new one
takes over `prepublication` later. -/
def RotatesOldKeys (steps : List Taken) : Prop :=
  ∀ l p n i now row ids, steps = l ++ p :: n → p.action = .advance i →
    p.before.procs[i]? = some (.retiring now row ids) →
      row.activeAt = now + prepublication ∧ Decided l i now

lemma old_of_isDue {rows : List SigningKeyRow} {now : Time} (h : isDue rows now = true) :
    ∀ r ∈ rows, r.canSign now = true → rotationInterval ≤ now - r.activeAt := by
  intro r hr hsign
  have hgrace : now - retiredKeyGrace ≤ now := sub_le_self now (by decide)
  have hpublished : r ∈ rows.filter fun row => row.outlasts (now - retiredKeyGrace) :=
    List.mem_filter.mpr ⟨hr, outlasts_mono (canSign_iff.mp hsign).2 hgrace⟩
  rw [isDue, Bool.and_eq_true, Option.all_eq_true] at h
  cases hcurrent : (listPublished rows now retiredKeyGrace).find? fun row => row.canSign now with
  | none =>
    rw [List.find?_eq_none] at hcurrent
    exact absurd hsign (hcurrent r (mem_listPublished.mpr (List.mem_filter.mp hpublished)))
  | some key =>
    have hold := of_decide_eq_true (h.2 key hcurrent)
    have hnewest := newest_of_find? hcurrent hpublished hsign
    exact hold.trans (sub_le_sub_left hnewest now)

/-- What the phase of a rotation says of its past. -/
def Proc.Decides (steps : List Taken) (i : ℕ) : Proc → Prop
  | due now => Decided steps i now
  | inserted now row => row.activeAt = now + prepublication ∧ Decided steps i now
  | retiring now row _ => row.activeAt = now + prepublication ∧ Decided steps i now
  | _ => True

lemma Decided.snoc {l : List Taken} {p : Taken} {now : Time} (h : Decided l i now) :
    Decided (l ++ [p]) i now := by
  obtain ⟨q, hq, hdecides⟩ := h
  exact ⟨q, List.mem_append_left _ hq, hdecides⟩

lemma Proc.Decides.snoc {l : List Taken} {p : Taken} {q : Proc} (h : q.Decides l i) :
    q.Decides (l ++ [p]) i := by
  cases q with
  | due now => exact Decided.snoc h
  | inserted now row => exact ⟨h.1, h.2.snoc⟩
  | retiring now row ids => exact ⟨h.1, h.2.snoc⟩
  | _ => trivial

lemma decides_of_run {clock : Time} {steps : List Taken}
    (hrun : (system v).Run (empty clock) steps s) :
    ∀ (i : ℕ) (q : Proc), s.procs[i]? = some q → q.Decides steps i := by
  refine hrun.keeps_history
    (P := fun l s => ∀ (i : ℕ) (q : Proc), s.procs[i]? = some q → q.Decides l i) ?_ ?_
  · simp [empty]
  · intro l p _ hp ih i q hi
    have hsteps := Taken.steps hp
    generalize haction : p.action = action at hsteps
    generalize p.after = after at hsteps hi
    cases hsteps with
    | tick => exact (ih i q hi).snoc
    | purge => exact (ih i q hi).snoc
    | call _ hcall =>
      rcases append_cases hi with hi | rfl
      · exact (ih i q hi).snoc
      · rcases hcall with ⟨-, rfl⟩ | ⟨-, rfl⟩ <;> trivial
    | @go _ j q₀ _ ha hj hgoes =>
      rcases set_cases hi with ⟨rfl, rfl⟩ | ⟨-, hi⟩
      · have hbefore := ih i q₀ hj
        cases hgoes with
        | decide hdue =>
          have hadvance : p.action = .advance i := by
            rcases ha with rfl | ⟨-, hfailed⟩
            · exact haction
            · cases hfailed
          exact ⟨p, by simp, hadvance, hj, old_of_isDue hdue⟩
        | publish => exact ⟨rfl, hbefore.snoc⟩
        | update => exact ⟨hbefore.1, hbefore.2.snoc⟩
        | _ => trivial
      · exact (ih i q hi).snoc
    | insert =>
      rcases set_cases hi with ⟨-, rfl⟩ | ⟨-, hi⟩
      · trivial
      · exact (ih i q hi).snoc
    | commit =>
      rcases set_cases hi with ⟨-, rfl⟩ | ⟨-, hi⟩
      · trivial
      · exact (ih i q hi).snoc

/-- Once `ensure_and_load` has returned, every instant to come has a signer; one key at most is
pending; and only old keys are replaced. -/
theorem signing_never_stops {clock : Time} {steps : List Taken}
    (hrun : (system v).Run (empty clock) steps s) :
    (∀ (i : ℕ) keys loadedAt, s.procs[i]? = some (Proc.loaded keys loadedAt) →
      ∀ u, s.clock ≤ u → ∃ row ∈ s.rows, row.canSign u = true) ∧
    s.pending.length ≤ 1 ∧ RotatesOldKeys steps := by
  obtain ⟨hs, hc⟩ := invariants_of_run hrun
  refine ⟨?_, hs.single, ?_⟩
  · intro i keys loadedAt hi u hu
    have hcovered : Covered s s.clock := hc.knows i _ hi
    exact hcovered u hu hu
  · rintro l p n i now row ids rfl - hi
    exact decides_of_run hrun.around.1 i _ hi

end Rotations

section Example

/-- Keys of zeros, stored as they are. -/
def exampleVault : Vault where
  showUuid := toString
  seed _ := List.replicate seedLen 0
  publicKey kid := [UInt8.ofNat kid]
  encrypt seed _ := seed
  decrypt stored _ := some stored

/-- The first start of an instance. -/
def exampleStart : List Action :=
  [.ensureAndLoad, .advance 0, .advance 0, .advance 0, .advance 0, .advance 0, .advance 0]

/-- An instance starts; a month later the key is rotated, and loaded again when the new one
starts to sign. -/
def exampleRotation : List Action :=
  exampleStart ++ [.tick (days 30), .rotateIfDue, .advance 1, .advance 1, .advance 1, .advance 1,
    .advance 1, .advance 1, .tick (days 31), .ensureAndLoad, .advance 2, .advance 2]

/-- Before and after the rotation there is a key that signs, and the rotated one was old. -/
theorem signing_never_stops_rotated :
    ∃ steps s, (system exampleVault).Run (empty 0) steps s ∧ s.rows.length = 2 ∧
      (∀ u, days 31 ≤ u → ∃ row ∈ s.rows, row.canSign u = true) ∧ s.pending.length ≤ 1 ∧
      RotatesOldKeys steps := by
  have hrun := System.exec_run
    (rfl : (system exampleVault).exec (empty 0) exampleRotation = some (_, _))
  obtain ⟨hcovered, hpending, hold⟩ := signing_never_stops hrun
  exact ⟨_, _, hrun, by decide, hcovered 0 _ 0 rfl, hpending, hold⟩

end Example

end Keys

end Bauth
