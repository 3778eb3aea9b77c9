import Bauth.Keys.Coverage

/-!
# Instances that create keys together

`ensure_and_load` looks whether a key signs, then inserts one, then loads the keys again, without a
lock. An instance that inserts the newest key after another one's last load signs with a key the
other does not know.
-/

namespace Bauth

open Transaction Transition

namespace Keys

/-- A database whose keys were edited by hand. -/
def start (clock : Time) (rows : List SigningKeyRow) (drawn : Uuid) : State :=
  { clock, rows, drawn, procs := [] }

namespace Taken

/-- Process `i` loads the keys. -/
def Loads (p : Taken) (i : ℕ) : Prop :=
  p.action = .advance i ∧ ∃ now, p.before.procs[i]? = some (.querying now) ∨
    p.before.procs[i]? = some (.requerying now)

/-- Process `i` inserts a key. -/
def Inserts (p : Taken) (i : ℕ) (row : SigningKeyRow) : Prop :=
  p.action = .advance i ∧ p.before.procs[i]? = some (.inserting row)

end Taken

/-- Only calls of `ensure_and_load`. -/
def OnlyEnsures (steps : List Taken) : Prop :=
  ∀ p ∈ steps, p.action ≠ .rotateIfDue ∧ p.action ≠ .purge

/-- All calls returned their keys. -/
def AllLoaded (s : State) : Prop := ∀ p ∈ s.procs, ∃ keys loadedAt, p = .loaded keys loadedAt

/-- The key that an instance signs with from now on is in the JWKS of the others. -/
def Agree (v : Vault) (s : State) : Prop :=
  ∀ (i j : ℕ) ki ti kj tj, s.procs[i]? = some (Proc.loaded ki ti) →
    s.procs[j]? = some (Proc.loaded kj tj) →
    ∀ now, s.clock ≤ now → ∀ key, SigningKeys.signingKey ki now = some key →
      ∃ row : SigningKeyRow, row.id = key.kid ∧ jwk v row ∈ kj.jwks

/-- A key inserted after the last load of some process is older than a key that signs by then. -/
def LateInsertsOlder (steps : List Taken) : Prop :=
  ∀ l q m p n j i row, steps = l ++ q :: (m ++ p :: n) → Taken.Loads q j →
    (∀ f ∈ m ++ p :: n, ¬Taken.Loads f j) → Taken.Inserts p i row →
      ∃ r ∈ p.before.rows, r.retiredAt = none ∧ r.canSign p.before.clock = true ∧
        row.activeAt < r.activeAt

section Runs

variable {v : Vault} {s s' : State} {i j : ℕ}

lemma Steps.clock_le {a : Action} (h : Steps v s a s') : s.clock ≤ s'.clock := by
  cases h with
  | tick h => exact h
  | _ => exact le_rfl

lemma clock_le_of_run {m : List Taken} (hrun : (system v).Run s m s') : s.clock ≤ s'.clock :=
  hrun.rel (R := fun s s' => s.clock ≤ s'.clock) (fun _ => le_rfl) (fun _ _ _ => le_trans)
    fun _ _ hp => (Taken.steps hp).clock_le

/-! ### The table grows -/

/-- No process rotates the keys. -/
def NoRotation (s : State) : Prop :=
  ∀ (i : ℕ) (p : Proc), s.procs[i]? = some p → p.isRotating = false ∧ p ≠ .starting

lemma Goes.noRotation {p p' : Proc} (h : Goes v s p p')
    (hp : p.isRotating = false ∧ p ≠ .starting) : p'.isRotating = false ∧ p' ≠ .starting := by
  obtain ⟨hrotating, hstarting⟩ := hp
  cases h with
  | lock => exact absurd rfl hstarting
  | now => cases hrotating
  | decide => cases hrotating
  | publish => cases hrotating
  | update => cases hrotating
  | _ => exact ⟨rfl, nofun⟩

lemma noRotation_of_run {clock : Time} {rows : List SigningKeyRow} {drawn : Uuid}
    {steps : List Taken} (hrun : (system v).Run (start clock rows drawn) steps s)
    (hensures : OnlyEnsures steps) : NoRotation s := by
  refine hrun.keeps (P := NoRotation) (by simp [NoRotation, start]) fun p hp htakes ih => ?_
  obtain ⟨hrotate, -⟩ := hensures p hp
  have hsteps := Taken.steps htakes
  intro j q hj
  generalize haction : p.action = action at hsteps
  generalize p.after = after at hsteps hj
  cases hsteps with
  | tick => exact ih j q hj
  | purge => exact ih j q hj
  | call _ hcall =>
    rcases append_cases hj with hj | rfl
    · exact ih j q hj
    · rcases hcall with ⟨-, rfl⟩ | ⟨rfl, -⟩
      · exact ⟨rfl, nofun⟩
      · exact absurd haction hrotate
  | @go _ i p₀ _ _ hi hgoes =>
    rcases set_cases hj with ⟨-, rfl⟩ | ⟨-, hj⟩
    · exact hgoes.noRotation (ih i p₀ hi)
    · exact ih j q hj
  | insert =>
    rcases set_cases hj with ⟨-, rfl⟩ | ⟨-, hj⟩
    · exact ⟨rfl, nofun⟩
    · exact ih j q hj
  | commit =>
    rcases set_cases hj with ⟨-, rfl⟩ | ⟨-, hj⟩
    · exact ⟨rfl, nofun⟩
    · exact ih j q hj

/-- The table after a step: the same, or with one more key. -/
lemma rows_of_step {p : Taken} (hp : (system v).Takes p) (hrotation : NoRotation p.before)
    (hpurge : p.action ≠ .purge) :
    p.after.rows = p.before.rows ∨
      ∃ i row, p.Inserts i row ∧ p.after.rows = p.before.rows ++ [row] := by
  have hsteps := Taken.steps hp
  generalize haction : p.action = action at hsteps
  generalize p.after = after at hsteps
  cases hsteps with
  | purge => exact absurd haction hpurge
  | @insert i row hi => exact .inr ⟨i, row, ⟨haction, hi⟩, rfl⟩
  | commit hi => cases (hrotation _ _ hi).1
  | _ => exact .inl rfl

/-- Loading the keys does not change them. -/
lemma Taken.Loads.rows {p : Taken} (h : p.Loads i) (hp : (system v).Takes p) :
    p.after.rows = p.before.rows := by
  obtain ⟨haction, now, hi⟩ := h
  have hsteps := Taken.steps hp
  rw [haction] at hsteps
  generalize p.after = after at hsteps
  cases hsteps with
  | insert hj => rcases hi with hi | hi <;> cases hi.symm.trans hj
  | commit hj => rcases hi with hi | hi <;> cases hi.symm.trans hj
  | _ => rfl

/-- A key of a later table is in the earlier one, or was inserted in between. -/
lemma inserted_of_run {m : List Taken} {r : SigningKeyRow} (hrun : (system v).Run s m s')
    (hrotation : ∀ p ∈ m, NoRotation p.before) (hpurge : ∀ p ∈ m, p.action ≠ .purge)
    (hr : r ∈ s'.rows) : r ∈ s.rows ∨ ∃ m₁ p m₂ i, m = m₁ ++ p :: m₂ ∧ Taken.Inserts p i r := by
  induction hrun with
  | nil => exact .inl hr
  | @snoc m p hm hp ih =>
    rcases rows_of_step hp (hrotation p (by simp)) (hpurge p (by simp)) with
      hrows | ⟨i, row, hinserts, hrows⟩
    · rw [hrows] at hr
      rcases ih (fun q hq => hrotation q (by simp [hq])) (fun q hq => hpurge q (by simp [hq])) hr
        with hr | ⟨m₁, q, m₂, i, rfl, hq⟩
      · exact .inl hr
      · exact .inr ⟨m₁, q, m₂ ++ [p], i, by simp, hq⟩
    · rw [hrows] at hr
      rcases List.mem_append.mp hr with hr | hr
      · rcases ih (fun q hq => hrotation q (by simp [hq])) (fun q hq => hpurge q (by simp [hq])) hr
          with hr | ⟨m₁, q, m₂, i, rfl, hq⟩
        · exact .inl hr
        · exact .inr ⟨m₁, q, m₂ ++ [p], i, by simp, hq⟩
      · rw [List.mem_singleton.mp hr]
        exact .inr ⟨m, p, [], i, rfl, hinserts⟩

lemma rows_subset_of_run {m : List Taken} (hrun : (system v).Run s m s')
    (hrotation : ∀ p ∈ m, NoRotation p.before) (hpurge : ∀ p ∈ m, p.action ≠ .purge) :
    s.rows ⊆ s'.rows := by
  refine hrun.rel (R := fun s s' => s.rows ⊆ s'.rows) (fun _ => List.Subset.refl _)
    (fun _ _ _ => List.Subset.trans) fun p hp htakes => ?_
  rcases rows_of_step htakes (hrotation p hp) (hpurge p hp) with hrows | ⟨i, row, -, hrows⟩
  · rw [hrows]
    exact List.Subset.refl _
  · rw [hrows]
    exact List.subset_append_left _ _

/-! ### Where the keys of a process come from -/

def LoadedIn (v : Vault) (steps : List Taken) (i : ℕ) (keys : SigningKeys) (loadedAt : Time) :
    Prop :=
  ∃ l q m, steps = l ++ q :: m ∧ Taken.Loads q i ∧ (∀ f ∈ m, ¬Taken.Loads f i) ∧
    load v q.before.rows loadedAt = some keys ∧ loadedAt ≤ q.before.clock

/-- What a phase says of the loads before it. -/
def Proc.Remembers (v : Vault) (steps : List Taken) (s : State) (i : ℕ) : Proc → Prop
  | querying now => now ≤ s.clock
  | requerying now => now ≤ s.clock
  | checking keys loadedAt => LoadedIn v steps i keys loadedAt
  | loaded keys loadedAt => LoadedIn v steps i keys loadedAt
  | _ => True

lemma LoadedIn.snoc {l : List Taken} {p : Taken} {keys : SigningKeys} {loadedAt : Time}
    (h : LoadedIn v l i keys loadedAt) (hp : ¬p.Loads i) : LoadedIn v (l ++ [p]) i keys loadedAt := by
  obtain ⟨l₁, q, m, rfl, hq, hnone, hload⟩ := h
  refine ⟨l₁, q, m ++ [p], by simp, hq, fun f hf => ?_, hload⟩
  rcases List.mem_append.mp hf with hf | hf
  · exact hnone f hf
  · rw [List.mem_singleton.mp hf]
    exact hp

lemma Proc.Remembers.snoc {l : List Taken} {p : Taken} {q : Proc}
    (h : q.Remembers v l p.before i) (hclock : p.before.clock ≤ s'.clock) (hp : ¬p.Loads i) :
    q.Remembers v (l ++ [p]) s' i := by
  cases q with
  | querying now => exact le_trans h hclock
  | requerying now => exact le_trans h hclock
  | checking keys loadedAt => exact LoadedIn.snoc h hp
  | loaded keys loadedAt => exact LoadedIn.snoc h hp
  | _ => trivial

lemma remembers_of_run {clock : Time} {rows : List SigningKeyRow} {drawn : Uuid}
    {steps : List Taken} (hrun : (system v).Run (start clock rows drawn) steps s) :
    ∀ (i : ℕ) (q : Proc), s.procs[i]? = some q → q.Remembers v steps s i := by
  refine hrun.keeps_history
    (P := fun l s => ∀ (i : ℕ) (q : Proc), s.procs[i]? = some q → q.Remembers v l s i) ?_ ?_
  · simp [start]
  · intro l p _ hp ih i q hi
    have hsteps := Taken.steps hp
    have hclock := hsteps.clock_le
    -- a process that does not move keeps what it remembers
    have hstill : p.before.procs[i]? = some q → p.action ≠ .advance i →
        q.Remembers v (l ++ [p]) p.after i :=
      fun hq hne => (ih i q hq).snoc hclock fun hloads => hne hloads.1
    generalize haction : p.action = action at hsteps hstill
    generalize p.after = after at hsteps hi hclock hstill
    cases hsteps with
    | tick => exact hstill hi nofun
    | purge => exact hstill hi nofun
    | call _ hcall =>
      rcases append_cases hi with hi | rfl
      · refine hstill hi ?_
        rcases hcall with ⟨rfl, -⟩ | ⟨rfl, -⟩ <;> nofun
      · rcases hcall with ⟨-, rfl⟩ | ⟨-, rfl⟩ <;> trivial
    | @go _ j q₀ _ ha hj hgoes =>
      rcases set_cases hi with ⟨rfl, rfl⟩ | ⟨hne, hi⟩
      · have hbefore := ih i q₀ hj
        have hadvance : q ≠ .failed → p.action = .advance i := by
          intro hq
          rcases ha with rfl | ⟨-, rfl⟩
          · exact haction
          · exact absurd rfl hq
        cases hgoes with
        | start => exact le_rfl
        | restart => exact le_rfl
        | query hload =>
          exact ⟨l, p, [], rfl, ⟨hadvance nofun, _, .inl hj⟩, by simp, hload, hbefore⟩
        | requery hload =>
          exact ⟨l, p, [], rfl, ⟨hadvance nofun, _, .inr hj⟩, by simp, hload, hbefore⟩
        | found =>
          refine LoadedIn.snoc hbefore ?_
          rintro ⟨-, now, hloading | hloading⟩ <;> cases hloading.symm.trans hj
        | _ => trivial
      · refine hstill hi ?_
        rcases ha with rfl | ⟨rfl, -⟩
        · rintro ⟨⟩
          exact hne rfl
        · nofun
    | insert =>
      rcases set_cases hi with ⟨-, rfl⟩ | ⟨hne, hi⟩
      · trivial
      · exact hstill hi fun h => hne (Action.advance.inj h).symm
    | commit =>
      rcases set_cases hi with ⟨-, rfl⟩ | ⟨hne, hi⟩
      · trivial
      · exact hstill hi fun h => hne (Action.advance.inj h).symm

/-! ### The signing key -/

/-- The key that a set signs with is the newest of the rows that sign. -/
lemma signingKey_newest {rows : List SigningKeyRow} {loadedAt now : Time} {keys : SigningKeys}
    {key : LoadedKey} (hload : load v rows loadedAt = some keys)
    (hkey : keys.signingKey now = some key) :
    ∃ row ∈ rows, row.id = key.kid ∧ row.canSign now = true ∧
      ∀ r ∈ rows, r.outlasts loadedAt = true → r.canSign now = true →
        r.activeAt ≤ row.activeAt := by
  obtain ⟨loaded, hloaded, rfl⟩ := load_eq_some hload
  obtain ⟨row, hfind, hid⟩ := find?_of_decryptKeys hloaded hkey
  have hmem := List.mem_of_mem_filter (List.mem_of_find?_eq_some hfind)
  have hsign := List.find?_some hfind
  refine ⟨row, (mem_listPublished.mp hmem).1, hid, hsign, fun r hr hlasts hr' => ?_⟩
  rw [List.find?_filter] at hfind
  have hgrace : loadedAt - retiredKeyGrace ≤ loadedAt := sub_le_self loadedAt (by decide)
  have hpublished : r ∈ rows.filter fun row => row.outlasts (loadedAt - retiredKeyGrace) :=
    List.mem_filter.mpr ⟨hr, outlasts_mono hlasts hgrace⟩
  exact newest_of_find? hfind hpublished (by simp [hlasts, hr'])

/-- A row that still signs later is in the JWKS of a load that sees it. -/
lemma mem_jwks {rows : List SigningKeyRow} {row : SigningKeyRow} {loadedAt now : Time}
    {keys : SigningKeys} (hload : load v rows loadedAt = some keys) (hrow : row ∈ rows)
    (hsign : row.outlasts now = true) (hle : loadedAt ≤ now) : jwk v row ∈ keys.jwks := by
  obtain ⟨loaded, -, rfl⟩ := load_eq_some hload
  refine List.mem_map_of_mem (mem_listPublished.mpr ⟨hrow, outlasts_mono hsign ?_⟩)
  exact (sub_le_self loadedAt (by decide)).trans hle

/-- Instances that create keys together agree when no key inserted after the last load of one of
them is the newest. -/
theorem ensures_agree {clock : Time} {rows : List SigningKeyRow} {drawn : Uuid}
    {steps : List Taken} (hrun : (system v).Run (start clock rows drawn) steps s)
    (hensures : OnlyEnsures steps) (holder : LateInsertsOlder steps) : Agree v s := by
  have hall : ∀ {l p n}, steps = l ++ p :: n →
      (system v).Run (start clock rows drawn) l p.before ∧ (system v).Takes p ∧
        (system v).Run p.after n s ∧ NoRotation p.before := by
    rintro l p n rfl
    obtain ⟨hl, hp, hn⟩ := hrun.around
    exact ⟨hl, hp, hn, noRotation_of_run hl fun q hq => hensures q (List.mem_append_left _ hq)⟩
  have hrotation : ∀ p ∈ steps, NoRotation p.before := by
    intro p hp
    obtain ⟨l, n, hsplit⟩ := List.append_of_mem hp
    exact (hall hsplit).2.2.2
  intro i j ki ti kj tj hi hj now hnow key hkey
  obtain ⟨li, qi, mi, hsi, -, -, hloadi, hti⟩ : LoadedIn v steps i ki ti := remembers_of_run hrun i _ hi
  obtain ⟨lj, qj, mj, hsj, hloads, hlast, hloadj, htj⟩ : LoadedIn v steps j kj tj :=
    remembers_of_run hrun j _ hj
  obtain ⟨row, hrow, hid, hsign, hnewest⟩ := signingKey_newest hloadi hkey
  refine ⟨row, hid, ?_⟩
  have hlate : qj.before.clock ≤ now :=
    ((clock_le_of_run (hall hsj).2.2.1).trans' (Taken.steps (hall hsj).2.1).clock_le).trans hnow
  by_cases hknown : row ∈ qj.before.rows
  · exact mem_jwks hloadj hknown (canSign_iff.mp hsign).2 (htj.trans hlate)
  exfalso
  rcases split_cases (hsi.symm.trans hsj) with ⟨-, rfl, -⟩ | ⟨c, rfl, rfl⟩ | ⟨c, rfl, rfl⟩
  · exact hknown hrow
  · -- what the earlier load saw is still there
    subst hsi
    obtain ⟨-, htakes, hc⟩ := (hall hsj).1.around
    have hin : ∀ p ∈ c, p ∈ li ++ qi :: (c ++ qj :: mj) := by simp +contextual
    have hsub := rows_subset_of_run (System.Run.append (.single htakes) hc)
      (fun p hp => hrotation p ?_) fun p hp => (hensures p ?_).2
    · exact hknown (hsub hrow)
    all_goals
      rcases List.mem_append.mp hp with hp | hp
      · rw [List.mem_singleton.mp hp]
        simp
      · exact hin p hp
  · -- the row was inserted after the other's last load
    subst hsj
    obtain ⟨-, htakes, hc⟩ := (hall hsi).1.around
    have hin : ∀ p ∈ c, p ∈ lj ++ qj :: (c ++ qi :: mi) := by simp +contextual
    rcases inserted_of_run hc (fun p hp => hrotation p (hin p hp))
      (fun p hp => (hensures p (hin p hp)).2) hrow with hrow' | ⟨m₁, p, m₂, k, rfl, hinserts⟩
    · exact hknown ((hloads.rows htakes) ▸ hrow')
    · have hsplit : lj ++ qj :: ((m₁ ++ p :: m₂) ++ qi :: mi) =
          lj ++ qj :: (m₁ ++ p :: (m₂ ++ qi :: mi)) := by simp
      obtain ⟨r, hr, hnone, hsigns, hlt⟩ := holder lj qj m₁ p (m₂ ++ qi :: mi) j k row hsplit hloads
        (by simpa using hlast) hinserts
      obtain ⟨-, hp, hm₂⟩ := hc.around
      have hin' : ∀ f ∈ m₂, f ∈ lj ++ qj :: ((m₁ ++ p :: m₂) ++ qi :: mi) := by simp +contextual
      have hsub := rows_subset_of_run (System.Run.append (.single hp) hm₂)
        (fun f hf => hrotation f ?_) fun f hf => (hensures f ?_).2
      · have hle : p.before.clock ≤ now :=
          ((Taken.steps hp).clock_le.trans (clock_le_of_run hm₂)).trans
            (((Taken.steps (hall hsi).2.1).clock_le.trans (clock_le_of_run (hall hsi).2.2.1)).trans
              hnow)
        have hsigns' : r.canSign now = true :=
          canSign_iff.mpr ⟨(canSign_iff.mp hsigns).1.trans hle, outlasts_of_none hnone⟩
        exact absurd (hnewest r (hsub hr) (outlasts_of_none hnone) hsigns') (not_le.mpr hlt)
      all_goals
        rcases List.mem_append.mp hf with hf | hf
        · rw [List.mem_singleton.mp hf]
          simp
        · exact hin' f hf

end Runs

section Example

lemma onlyEnsures_of_exec {v : Vault} {s s' : State} {actions : List Action} {steps : List Taken}
    (h : (system v).exec s actions = some (steps, s'))
    (hactions : ∀ a ∈ actions, a ≠ .rotateIfDue ∧ a ≠ .purge) : OnlyEnsures steps := by
  intro p hp
  refine hactions p.action ?_
  rw [← System.exec_actions h]
  exact List.mem_map_of_mem hp

/-- Two instances find no key; the first one inserts its own and loads it before the second one
inserts a newer one. -/
def exampleRace : List Action :=
  [.ensureAndLoad, .ensureAndLoad, .advance 0, .advance 0, .advance 1, .advance 1, .advance 0,
    .tick 1, .advance 1, .advance 0, .advance 0, .advance 0, .advance 1, .advance 1, .advance 1]

/-- Instances that create keys together may not know each other's. -/
theorem ensures_disagree :
    ¬∀ (v : Vault) (clock : Time) (rows : List SigningKeyRow) (drawn : Uuid) (steps : List Taken)
      (s : State), (∀ r ∈ rows, r.id < drawn ∧ r.canSign clock = false) →
        (system v).Run (start clock rows drawn) steps s → OnlyEnsures steps → AllLoaded s →
          Agree v s := by
  intro h
  have hexec : (system exampleVault).exec (start 0 [] 0) exampleRace = some (_, _) := rfl
  have hagree := h exampleVault 0 [] 0 _ _ (by simp) (System.exec_run hexec)
    (onlyEnsures_of_exec hexec (by decide))
    (List.forall_mem_cons.mpr ⟨⟨_, _, rfl⟩, List.forall_mem_cons.mpr ⟨⟨_, _, rfl⟩, by simp⟩⟩)
  obtain ⟨row, hid, hmem⟩ := hagree 1 0 _ _ _ _ rfl rfl 1 le_rfl _ rfl
  have hkid : ("1", row.publicKey) ∈ [("0", [(0 : UInt8)])] := by
    have hjwk : jwk exampleVault row = ("1", row.publicKey) := by
      rw [jwk, hid]
      rfl
    exact hjwk ▸ hmem
  simp at hkid

/-- The process that a step loads the keys for. -/
def Taken.loader (p : Taken) : Option ℕ :=
  match p.action with
  | .advance i =>
    match p.before.procs[i]? with
    | some (.querying _) | some (.requerying _) => some i
    | _ => none
  | _ => none

/-- The key that a step inserts. -/
def Taken.insertion (p : Taken) : Option SigningKeyRow :=
  match p.action with
  | .advance i =>
    match p.before.procs[i]? with
    | some (.inserting row) => some row
    | _ => none
  | _ => none

lemma Taken.Loads.loader {p : Taken} {i : ℕ} (h : p.Loads i) : p.loader = some i := by
  obtain ⟨haction, now, hi | hi⟩ := h <;> simp [Taken.loader, haction, hi]

lemma Taken.Loads.of_loader {p : Taken} {i : ℕ} (h : p.loader = some i) : p.Loads i := by
  unfold Taken.loader at h
  split at h
  · rename_i j haction
    split at h
    · rename_i now hj
      cases h
      exact ⟨haction, now, .inl hj⟩
    · rename_i now hj
      cases h
      exact ⟨haction, now, .inr hj⟩
    · cases h
  · cases h

lemma Taken.Inserts.insertion {p : Taken} {i : ℕ} {row : SigningKeyRow} (h : p.Inserts i row) :
    p.insertion = some row := by
  simp [Taken.insertion, h.1, h.2]

/-- Decided on the steps of a run: when a key is inserted, the loads before are not the last ones,
or an older key signs. -/
lemma lateInsertsOlder_of_steps {steps : List Taken}
    (h : ∀ b ∈ List.range steps.length, ∀ p ∈ steps[b]?, ∀ row ∈ p.insertion,
      (∀ q ∈ steps.take b, ∀ j ∈ q.loader, ∃ f ∈ steps.drop b, f.loader = some j) ∨
        ∃ r ∈ p.before.rows, r.retiredAt = none ∧ r.canSign p.before.clock = true ∧
          row.activeAt < r.activeAt) : LateInsertsOlder steps := by
  intro l q m p n j i row hsplit hloads hnone hinserts
  have hsteps : steps = (l ++ q :: m) ++ p :: n := by
    rw [hsplit]
    simp
  have htake : steps.take (l ++ q :: m).length = l ++ q :: m := by
    rw [hsteps]
    exact List.take_left' rfl
  have hdrop : steps.drop (l ++ q :: m).length = p :: n := by
    rw [hsteps]
    exact List.drop_left' rfl
  have hb := h (l ++ q :: m).length (by rw [hsteps]; simp) p (by rw [hsteps]; simp) row
    hinserts.insertion
  rw [htake, hdrop] at hb
  rcases hb with hagain | holder
  · obtain ⟨f, hf, hloads'⟩ := hagain q (by simp) j hloads.loader
    exact absurd (Taken.Loads.of_loader hloads') (hnone f (List.mem_append_right m hf))
  · exact holder

/-- Two instances find no key, and the older key is inserted after the instance with the newer one
has returned. -/
def exampleLate : List Action :=
  [.ensureAndLoad, .ensureAndLoad, .advance 0, .advance 0, .advance 1, .advance 1, .advance 1,
    .tick 1, .advance 0, .advance 0, .advance 0, .advance 0, .advance 1, .advance 1, .advance 1]

/-- Both sign with the newer key, which both know. -/
theorem ensures_agree_late :
    ∃ steps s, (system exampleVault).Run (start 0 [] 0) steps s ∧ s.rows.length = 2 ∧
      s.procs.length = 2 ∧ AllLoaded s ∧ Agree exampleVault s := by
  have hexec : (system exampleVault).exec (start 0 [] 0) exampleLate = some (_, _) := rfl
  have hensures := onlyEnsures_of_exec hexec (by decide)
  refine ⟨_, _, System.exec_run hexec, by decide, by decide, ?_,
    ensures_agree (System.exec_run hexec) hensures (lateInsertsOlder_of_steps (by decide +kernel))⟩
  exact List.forall_mem_cons.mpr ⟨⟨_, _, rfl⟩, List.forall_mem_cons.mpr ⟨⟨_, _, rfl⟩, by simp⟩⟩

end Example

end Keys

end Bauth
