import Bauth.Keys.Agreement
import Mathlib.Tactic.Linarith

/-!
# The life of a rotated key

A key is published well before it signs and well after it stops: a key set loaded within hours of
the time it signs has it.
-/

namespace Bauth

open Transaction Transition

namespace Keys

/-- The identifier of a key that a process created and did not commit yet. -/
def Proc.carried : Proc → Option Uuid
  | inserting row => some row.id
  | inserted _ row => some row.id
  | retiring _ row _ => some row.id
  | _ => none

/-- The time that a process works with, which it read before. -/
def Proc.began : Proc → Option Time
  | querying now => some now
  | requerying now => some now
  | listing now => some now
  | due now => some now
  | inserted now _ => some now
  | retiring now _ _ => some now
  | _ => none

/-- A bound on the duration of a load or of a rotation. -/
def callTimeout : Time := hours 20

/-- No load and no rotation takes longer than `callTimeout`. -/
def Prompt (steps : List Taken) : Prop :=
  ∀ p ∈ steps, ∀ time, p.action = .tick time → ∀ q ∈ p.before.procs, ∀ now,
    Proc.began q = some now → time ≤ now + callTimeout

section Runs

variable {v : Vault} {s s' : State} {i j : ℕ} {x : Uuid} {t : Time}

/-! ### Identifiers -/

structure Distinct (s : State) : Prop where
  rows : ∀ r ∈ s.rows, r.id < s.drawn
  unique : (s.rows.map SigningKeyRow.id).Nodup
  carried : ∀ (i : ℕ) (p : Proc) (x : Uuid), s.procs[i]? = some p → p.carried = some x →
    x < s.drawn ∧ ∀ r ∈ s.rows, r.id ≠ x
  single : ∀ (i j : ℕ) (p q : Proc) (x : Uuid), s.procs[i]? = some p → s.procs[j]? = some q →
    p.carried = some x → q.carried = some x → i = j

/-- A process carries what it did, or the identifier it draws. -/
lemma Goes.carried {p p' : Proc} (h : Goes v s p p') (hx : p'.carried = some x) :
    p.carried = some x ∨ x = s.drawn ∧ ((∃ row, p' = .inserting row) ∨
      ∃ now row, p' = .inserted now row) := by
  cases h with
  | create => exact .inr ⟨(Option.some.inj hx).symm, .inl ⟨_, rfl⟩⟩
  | publish => exact .inr ⟨(Option.some.inj hx).symm, .inr ⟨_, _, rfl⟩⟩
  | update => exact .inl hx
  | _ => cases hx

/-- The key that a process carried enters the table. -/
lemma Distinct.settle (hs : Distinct s) {p p' : Proc} {rows : List SigningKeyRow}
    (hi : s.procs[i]? = some p) (hx : p.carried = some x) (hp' : p'.carried = none)
    (hids : rows.map SigningKeyRow.id = s.rows.map SigningKeyRow.id ++ [x]) :
    Distinct ({ s with rows := rows }.set i p') := by
  obtain ⟨hlt, hfresh⟩ := hs.carried i p x hi hx
  have hrows : ∀ r ∈ rows, r.id = x ∨ ∃ r₀ ∈ s.rows, r₀.id = r.id := by
    intro r hr
    have hmem : r.id ∈ s.rows.map SigningKeyRow.id ++ [x] := hids ▸ List.mem_map_of_mem hr
    rcases List.mem_append.mp hmem with hmem | hmem
    · exact .inr (List.mem_map.mp hmem)
    · exact .inl (List.mem_singleton.mp hmem)
  refine ⟨fun r hr => ?_, ?_, fun k q y hk hy => ?_, fun k k' q r y hk hk' hy hy' => ?_⟩
  · rcases hrows r hr with hid | ⟨r₀, hr₀, hid⟩
    · exact hid ▸ hlt
    · exact hid ▸ hs.rows r₀ hr₀
  · have hnodup : (s.rows.map SigningKeyRow.id ++ [x]).Nodup := by
      refine hs.unique.append (List.nodup_singleton x) fun y hy hyx => ?_
      obtain ⟨r, hr, rfl⟩ := List.mem_map.mp hy
      exact hfresh r hr (List.mem_singleton.mp hyx)
    exact hids ▸ hnodup
  · rcases set_cases hk with ⟨rfl, rfl⟩ | ⟨hne, hk⟩
    · cases hp'.symm.trans hy
    · obtain ⟨hlt', hother⟩ := hs.carried k q y hk hy
      refine ⟨hlt', fun r hr hid => ?_⟩
      rcases hrows r hr with hid' | ⟨r₀, hr₀, hid'⟩
      · obtain rfl := hid'.symm.trans hid
        exact hne (hs.single k i q p _ hk hi hy hx)
      · exact hother r₀ hr₀ (hid'.trans hid)
  · rcases set_cases hk with ⟨rfl, rfl⟩ | ⟨-, hk⟩
    · cases hp'.symm.trans hy
    · rcases set_cases hk' with ⟨rfl, rfl⟩ | ⟨-, hk'⟩
      · cases hp'.symm.trans hy'
      · exact hs.single k k' q r y hk hk' hy hy'

lemma Steps.distinct {a : Action} (h : Steps v s a s') (hs : Distinct s) : Distinct s' := by
  cases h with
  | tick => exact ⟨hs.rows, hs.unique, hs.carried, hs.single⟩
  | call p hp =>
    have hnew : p.carried = none := by rcases hp with ⟨-, rfl⟩ | ⟨-, rfl⟩ <;> rfl
    refine ⟨hs.rows, hs.unique, fun i q x hi hx => ?_, fun i j q r x hi hj hx hx' => ?_⟩
    · rcases append_cases hi with hi | rfl
      · exact hs.carried i q x hi hx
      · cases hnew.symm.trans hx
    · rcases append_cases hi with hi | rfl
      · rcases append_cases hj with hj | rfl
        · exact hs.single i j q r x hi hj hx hx'
        · cases hnew.symm.trans hx'
      · cases hnew.symm.trans hx
  | purge =>
    refine ⟨fun r hr => hs.rows r (mem_of_mem_purge hr),
      hs.unique.sublist (List.filter_sublist.map _), fun i q x hi hx => ?_, hs.single⟩
    obtain ⟨hlt, hne⟩ := hs.carried i q x hi hx
    exact ⟨hlt, fun r hr => hne r (mem_of_mem_purge hr)⟩
  | @go _ i p p' _ hi hgoes drawn hdrawn =>
    have hle : s.drawn ≤ drawn := by
      rcases hdrawn with ⟨rfl, -⟩ | rfl
      · exact le_rfl
      · exact Nat.le_succ _
    -- what the process carries now, it carried, or just drew
    have hcases : ∀ {x}, p'.carried = some x → p.carried = some x ∨ x = s.drawn ∧ x < drawn := by
      intro x hx
      rcases hgoes.carried hx with hx | ⟨rfl, hnew⟩
      · exact .inl hx
      · refine .inr ⟨rfl, ?_⟩
        rcases hdrawn with ⟨-, hno, hno'⟩ | rfl
        · rcases hnew with ⟨row, hp'⟩ | ⟨now, row, hp'⟩
          · exact absurd hp' (hno row)
          · exact absurd hp' (hno' now row)
        · exact Nat.lt_succ_self _
    have hother : ∀ {k q x}, s.procs[k]? = some q → q.carried = some x → p'.carried = some x →
        k = i := by
      intro k q x hk hq hx
      rcases hcases hx with hx | ⟨rfl, -⟩
      · exact hs.single k i q p x hk hi hq hx
      · exact absurd (hs.carried k q _ hk hq).1 (lt_irrefl _)
    refine ⟨fun r hr => (hs.rows r hr).trans_le hle, hs.unique, fun k q x hk hx => ?_,
      fun k k' q r x hk hk' hx hx' => ?_⟩
    · rcases set_cases hk with ⟨rfl, rfl⟩ | ⟨-, hk⟩
      · rcases hcases hx with hx | ⟨rfl, hlt⟩
        · obtain ⟨hlt, hne⟩ := hs.carried k p x hi hx
          exact ⟨hlt.trans_le hle, hne⟩
        · exact ⟨hlt, fun r hr => (hs.rows r hr).ne⟩
      · obtain ⟨hlt, hne⟩ := hs.carried k q x hk hx
        exact ⟨hlt.trans_le hle, hne⟩
    · rcases set_cases hk with ⟨rfl, rfl⟩ | ⟨-, hk₀⟩
      · rcases set_cases hk' with ⟨rfl, -⟩ | ⟨-, hk'⟩
        · rfl
        · exact (hother hk' hx' hx).symm
      · rcases set_cases hk' with ⟨rfl, rfl⟩ | ⟨-, hk'⟩
        · exact hother hk₀ hx hx'
        · exact hs.single k k' q r x hk₀ hk' hx hx'
  | insert hi => exact hs.settle hi rfl rfl (by simp)
  | @commit i now row ids hi =>
    have hsame : SigningKeyRow.id ∘ retire ids (now + prepublication) = SigningKeyRow.id :=
      funext fun r => retire_id
    exact hs.settle hi rfl rfl (by simp [hsame])

lemma Distinct.eq_of_id (hs : Distinct s) {r r' : SigningKeyRow} (hr : r ∈ s.rows)
    (hr' : r' ∈ s.rows) (hid : r.id = r'.id) : r = r' :=
  List.inj_on_of_nodup_map hs.unique hr hr' hid

/-- Identifier `x` was committed, in whatever row. -/
def Settled (x : Uuid) (s : State) : Prop :=
  x < s.drawn ∧ ∀ (i : ℕ) (p : Proc), s.procs[i]? = some p → p.carried ≠ some x

lemma Distinct.settled_of_mem (hs : Distinct s) {r : SigningKeyRow} (hr : r ∈ s.rows) :
    Settled r.id s :=
  ⟨hs.rows r hr, fun i p hi hp => (hs.carried i p r.id hi hp).2 r hr rfl⟩

lemma Steps.settled {a : Action} (h : Steps v s a s') (hs : Settled x s) : Settled x s' := by
  obtain ⟨hlt, hnone⟩ := hs
  cases h with
  | tick => exact ⟨hlt, hnone⟩
  | purge => exact ⟨hlt, hnone⟩
  | call p hp =>
    refine ⟨hlt, fun i q hi => ?_⟩
    rcases append_cases hi with hi | rfl
    · exact hnone i q hi
    · rcases hp with ⟨-, rfl⟩ | ⟨-, rfl⟩ <;> nofun
  | @go _ i p p' _ hi hgoes drawn hdrawn =>
    have hle : s.drawn ≤ drawn := by
      rcases hdrawn with ⟨rfl, -⟩ | rfl
      · exact le_rfl
      · exact Nat.le_succ _
    refine ⟨hlt.trans_le hle, fun j q hj hx => ?_⟩
    rcases set_cases hj with ⟨rfl, rfl⟩ | ⟨-, hj⟩
    · rcases hgoes.carried hx with hx | ⟨rfl, -⟩
      · exact hnone j p hi hx
      · exact lt_irrefl _ hlt
    · exact hnone j q hj hx
  | insert =>
    refine ⟨hlt, fun j q hj => ?_⟩
    rcases set_cases hj with ⟨-, rfl⟩ | ⟨-, hj⟩
    · nofun
    · exact hnone j q hj
  | commit =>
    refine ⟨hlt, fun j q hj => ?_⟩
    rcases set_cases hj with ⟨-, rfl⟩ | ⟨-, hj⟩
    · nofun
    · exact hnone j q hj

/-! ### What a rotation knows -/

/-- The `now` of a process is recent, and the key it rotates in starts `prepublication` later. -/
structure Proc.Timely (s : State) (p : Proc) : Prop where
  began : ∀ now, p.began = some now → now ≤ s.clock ∧ s.clock ≤ now + callTimeout
  inserted : ∀ now row, p = .inserted now row → row.activeAt = now + prepublication
  retiring : ∀ now row ids, p = .retiring now row ids → row.activeAt = now + prepublication ∧
    ∀ r ∈ s.rows, r.id ∈ ids → r.outlasts (now + prepublication) = true

structure Kept (s : State) : Prop where
  orderly : Orderly s
  distinct : Distinct s
  timely : ∀ (i : ℕ) (p : Proc), s.procs[i]? = some p → p.Timely s

lemma Proc.Timely.mono {p : Proc} (h : p.Timely s) (hle : s.clock ≤ s'.clock)
    (hclock : ∀ now, p.began = some now → s'.clock ≤ now + callTimeout)
    (hrows : p.isRotating = true → ∀ r ∈ s'.rows, r ∈ s.rows ∨ r.retiredAt = none) :
    p.Timely s' := by
  refine ⟨fun now hnow => ⟨(h.began now hnow).1.trans hle, hclock now hnow⟩, h.inserted, ?_⟩
  rintro now row ids rfl
  obtain ⟨hactive, hlasts⟩ := h.retiring now row ids rfl
  refine ⟨hactive, fun r hr hid => ?_⟩
  rcases hrows rfl r hr with hr | hr
  · exact hlasts r hr hid
  · exact outlasts_of_none hr

/-- A process that works with no time yet. -/
lemma Proc.timely_of_began {p : Proc} (h : p.began = none) : p.Timely s := by
  refine ⟨fun now hnow => ?_, ?_, ?_⟩
  · cases h.symm.trans hnow
  · rintro now row rfl
    cases h
  · rintro now row ids rfl
    cases h

/-- A process that just read the time. -/
lemma timely_now {p : Proc} (h : p = .querying s.clock ∨ p = .requerying s.clock ∨
    p = .listing s.clock) : p.Timely s := by
  have hle : s.clock ≤ s.clock + callTimeout := le_add_of_nonneg_right (by decide)
  rcases h with rfl | rfl | rfl <;>
    exact ⟨fun now hnow => Option.some.inj hnow ▸ ⟨le_rfl, hle⟩, nofun, nofun⟩

lemma Goes.timely {p p' : Proc} (h : Goes v s p p') (hs : Distinct s) (hp : p.Timely s) :
    p'.Timely s := by
  cases h with
  | start => exact timely_now (.inl rfl)
  | restart => exact timely_now (.inr (.inl rfl))
  | now => exact timely_now (.inr (.inr rfl))
  | decide => exact ⟨hp.began, nofun, nofun⟩
  | publish =>
    refine ⟨hp.began, ?_, nofun⟩
    rintro now row ⟨⟩
    rfl
  | update =>
    refine ⟨hp.began, nofun, ?_⟩
    rintro now row ids ⟨⟩
    refine ⟨hp.inserted _ _ rfl, fun r hr hid => ?_⟩
    obtain ⟨r', hr', hsame⟩ := List.mem_map.mp hid
    obtain ⟨hr', hlasts⟩ := List.mem_filter.mp hr'
    rw [Bool.and_eq_true] at hlasts
    rw [← hs.eq_of_id hr' hr hsame]
    exact hlasts.2
  | _ => exact Proc.timely_of_began rfl

lemma Steps.kept {a : Action} (h : Steps v s a s') (hs : Kept s) (hc : Covers s)
    (htick : ∀ time, a = .tick time → ∀ q ∈ s.procs, ∀ now, Proc.began q = some now →
      time ≤ now + callTimeout) : Kept s' := by
  refine ⟨h.orderly hs.orderly, h.distinct hs.distinct, fun j q hj => ?_⟩
  have hstill : s.procs[j]? = some q → s'.clock = s.clock → (q.isRotating = true →
      ∀ r ∈ s'.rows, r ∈ s.rows ∨ r.retiredAt = none) → q.Timely s' :=
    fun hj hclock hrows => (hs.timely j q hj).mono hclock.ge
      (fun now hnow => hclock.le.trans ((hs.timely j q hj).began now hnow).2) hrows
  cases h with
  | tick hle =>
    exact (hs.timely j q hj).mono hle (htick _ rfl q (List.mem_of_getElem? hj))
      fun _ r hr => .inl hr
  | call p hp =>
    rcases append_cases hj with hj | rfl
    · exact hstill hj rfl fun _ r hr => .inl hr
    · rcases hp with ⟨-, rfl⟩ | ⟨-, rfl⟩ <;> exact Proc.timely_of_began rfl
  | purge => exact hstill hj rfl fun _ r hr => .inl (mem_of_mem_purge hr)
  | @go _ i p p' _ hi hgoes =>
    rcases set_cases hj with ⟨-, rfl⟩ | ⟨-, hj⟩
    · have htimely := hgoes.timely hs.distinct (hs.timely i p hi)
      exact htimely.mono le_rfl (fun now hnow => (htimely.began now hnow).2) fun _ r hr => .inl hr
    · exact hstill hj rfl fun _ r hr => .inl hr
  | @insert i row hi =>
    rcases set_cases hj with ⟨-, rfl⟩ | ⟨-, hj⟩
    · exact Proc.timely_of_began rfl
    · refine hstill hj rfl fun _ r hr => ?_
      rcases List.mem_append.mp hr with hr | hr
      · exact .inl hr
      · have hnone : row.retiredAt = none := hc.knows i _ hi
        exact .inr (List.mem_singleton.mp hr ▸ hnone)
  | @commit i now row ids hi =>
    rcases set_cases hj with ⟨-, rfl⟩ | ⟨hji, hj⟩
    · exact Proc.timely_of_began rfl
    · refine hstill hj rfl fun hq => ?_
      exact absurd (hs.orderly.lock j i q _ hj hi hq rfl) hji

lemma kept_of_run {clock : Time} {steps : List Taken}
    (hrun : (system v).Run (empty clock) steps s) (hprompt : Prompt steps) : Kept s ∧ Covers s := by
  refine hrun.keeps (P := fun s => Kept s ∧ Covers s) ⟨⟨empty_orderly clock, ?_, ?_⟩, ?_⟩ ?_
  · constructor <;> simp [empty]
  · simp [empty]
  · constructor <;> simp [empty]
  · rintro p hp htakes ⟨hs, hc⟩
    have hsteps := Taken.steps htakes
    exact ⟨hsteps.kept hs hc (hprompt p hp), hsteps.covers hs.orderly hc⟩

/-! ### A key before and after a step -/

/-- The table has the key `x`, not retired at `t`. -/
def Lasting (x : Uuid) (t : Time) (s : State) : Prop :=
  ∃ r ∈ s.rows, r.id = x ∧ r.outlasts t = true

/-- A key that lasts after a step did so before it, unless it is a new one. -/
lemma Steps.lasting_before {a : Action} (h : Steps v s a s') (hs : Kept s) (hx : Settled x s)
    (hafter : Lasting x t s') : Lasting x t s := by
  obtain ⟨r, hr, hid, hlasts⟩ := hafter
  cases h with
  | purge => exact ⟨r, mem_of_mem_purge hr, hid, hlasts⟩
  | @insert i row hi =>
    rcases List.mem_append.mp hr with hr | hr
    · exact ⟨r, hr, hid, hlasts⟩
    · rw [List.mem_singleton.mp hr] at hid
      exact absurd (congrArg some hid) (hx.2 i _ hi)
  | @commit i now row ids hi =>
    rcases List.mem_append.mp hr with hr | hr
    · obtain ⟨r₀, hr₀, rfl⟩ := List.mem_map.mp hr
      rw [retire_id] at hid
      refine ⟨r₀, hr₀, hid, ?_⟩
      by_cases hmem : r₀.id ∈ ids
      · have hlater := ((hs.timely i _ hi).retiring now row ids rfl).2 r₀ hr₀ hmem
        rw [retire, if_pos hmem] at hlasts
        have hlt : t < now + prepublication := by simpa [SigningKeyRow.outlasts] using hlasts
        exact outlasts_mono hlater hlt.le
      · rw [retire, if_neg hmem] at hlasts
        exact hlasts
    · rw [List.mem_singleton.mp hr] at hid
      exact absurd (congrArg some hid) (hx.2 i _ hi)
  | _ => exact ⟨r, hr, hid, hlasts⟩

/-- A key lasts through a step that is not too early to retire it, nor too late to purge it. -/
lemma Steps.lasting_after {a : Action} (h : Steps v s a s') (hs : Kept s)
    (hearly : t + callTimeout < s.clock + prepublication) (hlate : s.clock ≤ t + retention)
    (hbefore : Lasting x t s) : Lasting x t s' := by
  obtain ⟨r, hr, hid, hlasts⟩ := hbefore
  cases h with
  | purge => exact ⟨r, mem_purge hr hlasts hlate, hid, hlasts⟩
  | insert => exact ⟨r, List.mem_append_left _ hr, hid, hlasts⟩
  | @commit i now row ids hi =>
    obtain ⟨-, hnow⟩ := (hs.timely i _ hi).began now rfl
    refine ⟨retire ids (now + prepublication) r, ?_, retire_id.trans hid, ?_⟩
    · exact List.mem_append_left _ (List.mem_map_of_mem hr)
    · refine outlasts_retire hlasts ?_
      linarith
  | _ => exact ⟨r, hr, hid, hlasts⟩

lemma settled_of_run {m : List Taken} (hrun : (system v).Run s m s') (hx : Settled x s) :
    Settled x s' :=
  hrun.keeps hx fun _ _ hp h => (Taken.steps hp).settled h

lemma lasting_before_run {m : List Taken} (hrun : (system v).Run s m s')
    (hkept : ∀ p ∈ m, Kept p.before) (hx : Settled x s) (hafter : Lasting x t s') :
    Lasting x t s := by
  induction hrun with
  | nil => exact hafter
  | @snoc m p hm hp ih =>
    refine ih (fun q hq => hkept q (by simp [hq])) ?_
    exact (Taken.steps hp).lasting_before (hkept p (by simp)) (settled_of_run hm hx) hafter

lemma lasting_after_run {m : List Taken} (hrun : (system v).Run s m s')
    (hkept : ∀ p ∈ m, Kept p.before) (hearly : t + callTimeout < s.clock + prepublication)
    (hlate : s'.clock ≤ t + retention) (hbefore : Lasting x t s) : Lasting x t s' := by
  induction hrun with
  | nil => exact hbefore
  | @snoc m p hm hp ih =>
    have hle := (Taken.steps hp).clock_le.trans hlate
    have hlasting := ih (fun q hq => hkept q (by simp [hq])) hle
    refine (Taken.steps hp).lasting_after (hkept p (by simp)) ?_ hle hlasting
    exact hearly.trans_le (add_le_add_left (clock_le_of_run hm) _)

/-! ### The start of a key -/

namespace Taken

/-- A rotation commits the key `x`. -/
def Publishes (p : Taken) (x : Uuid) : Prop :=
  ∃ i now row ids, p.action = .advance i ∧
    p.before.procs[i]? = some (Proc.retiring now row ids) ∧ row.id = x

/-- Process `i` loads these keys. -/
def LoadsKeys (v : Vault) (p : Taken) (i : ℕ) (keys : SigningKeys) : Prop :=
  p.action = .advance i ∧ ∃ now, (p.before.procs[i]? = some (.querying now) ∨
    p.before.procs[i]? = some (.requerying now)) ∧ load v p.before.rows now = some keys

end Taken

/-- The key `x` of the table signs from `start` on. -/
def StartsAt (x : Uuid) (start : Time) (s : State) : Prop :=
  ∀ r ∈ s.rows, r.id = x → r.activeAt = start

lemma Steps.startsAt {a : Action} {start : Time} (h : Steps v s a s') (hx : Settled x s)
    (hs : StartsAt x start s) : StartsAt x start s' := by
  intro r hr hid
  cases h with
  | purge => exact hs r (mem_of_mem_purge hr) hid
  | @insert i row hi =>
    rcases List.mem_append.mp hr with hr | hr
    · exact hs r hr hid
    · rw [List.mem_singleton.mp hr] at hid
      exact absurd (congrArg some hid) (hx.2 i _ hi)
  | @commit i now row ids hi =>
    rcases List.mem_append.mp hr with hr | hr
    · obtain ⟨r₀, hr₀, rfl⟩ := List.mem_map.mp hr
      rw [retire_id] at hid
      rw [retire_activeAt]
      exact hs r₀ hr₀ hid
    · rw [List.mem_singleton.mp hr] at hid
      exact absurd (congrArg some hid) (hx.2 i _ hi)
  | _ => exact hs r hr hid

lemma startsAt_of_run {m : List Taken} {start : Time} (hrun : (system v).Run s m s')
    (hx : Settled x s) (hs : StartsAt x start s) : StartsAt x start s' := by
  refine (hrun.keeps (P := fun s => Settled x s ∧ StartsAt x start s) ⟨hx, hs⟩ ?_).2
  rintro p - hp ⟨hx, hs⟩
  exact ⟨(Taken.steps hp).settled hx, (Taken.steps hp).startsAt hx hs⟩

/-- A published key is settled, and signs `prepublication` after its rotation began. -/
lemma Taken.Publishes.after {p : Taken} (h : p.Publishes x) (hp : (system v).Takes p)
    (hs : Kept p.before) : Settled x p.after ∧ ∃ start, StartsAt x start p.after ∧
      p.before.clock + prepublication ≤ start + callTimeout := by
  obtain ⟨i, now, row, ids, haction, hi, rfl⟩ := h
  obtain ⟨hlt, hfresh⟩ := hs.distinct.carried i _ row.id hi rfl
  obtain ⟨-, hnow⟩ := (hs.timely i _ hi).began now rfl
  obtain ⟨hactive, -⟩ := (hs.timely i _ hi).retiring now row ids rfl
  have hstep : step v p.before p.action = some p.after := hp
  simp only [haction, step, hi, advance, Option.some.injEq] at hstep
  rw [← hstep]
  refine ⟨⟨hlt, fun j q hj hx => ?_⟩, now + prepublication, fun r hr hid => ?_, ?_⟩
  · rcases set_cases hj with ⟨-, rfl⟩ | ⟨hne, hj⟩
    · cases hx
    · exact hne (hs.distinct.single j i q _ _ hj hi hx rfl)
  · rcases List.mem_append.mp hr with hr | hr
    · obtain ⟨r₀, hr₀, rfl⟩ := List.mem_map.mp hr
      rw [retire_id] at hid
      exact absurd hid (hfresh r₀ hr₀)
    · rw [List.mem_singleton.mp hr, hactive]
  · linarith

/-- Nobody publishes a settled key. -/
lemma Settled.not_publishes {p : Taken} (hs : Settled x p.before) : ¬p.Publishes x := by
  rintro ⟨i, now, row, ids, -, hi, rfl⟩
  exact hs.2 i _ hi rfl

/-- A key was published before anyone loaded it. -/
lemma published_before {steps : List Taken} {p q : Taken} (hrun : (system v).Run s steps s')
    (hp : p ∈ steps) (hpublishes : p.Publishes x) (hq : q ∈ steps) (hs : Settled x q.before) :
    ∃ l c m, steps = l ++ p :: (c ++ q :: m) := by
  obtain ⟨l, m, hsplit⟩ := List.append_of_mem hp
  obtain ⟨l', m', hsplit'⟩ := List.append_of_mem hq
  rcases split_cases (hsplit.symm.trans hsplit') with ⟨-, rfl, -⟩ | ⟨c, -, rfl⟩ | ⟨c, rfl, -⟩
  · exact absurd hpublishes hs.not_publishes
  · exact ⟨l, c, m', hsplit⟩
  · subst hsplit
    have hbetween := System.Run.between (p := q) (q := p) (by simpa using hrun)
    exact absurd hpublishes (settled_of_run hbetween hs).not_publishes

/-! ### Public keys -/

/-- The row that a process is about to commit. -/
def Proc.row : Proc → Option SigningKeyRow
  | inserting row => some row
  | inserted _ row => some row
  | retiring _ row _ => some row
  | _ => none

/-- Every row has the public key of its identifier. -/
structure Genuine (v : Vault) (s : State) : Prop where
  rows : ∀ r ∈ s.rows, r.publicKey = v.publicKey r.id
  pending : ∀ p ∈ s.procs, ∀ r, Proc.row p = some r → r.publicKey = v.publicKey r.id

lemma Goes.genuine {p p' : Proc} (h : Goes v s p p')
    (hp : ∀ r, p.row = some r → r.publicKey = v.publicKey r.id) :
    ∀ r, p'.row = some r → r.publicKey = v.publicKey r.id := by
  intro r hr
  cases h with
  | create => exact Option.some.inj hr ▸ rfl
  | publish => exact Option.some.inj hr ▸ rfl
  | update => exact hp r hr
  | _ => cases hr

lemma mem_set_cases {p q : Proc} (h : q ∈ (s.set i p).procs) : q = p ∨ q ∈ s.procs :=
  (List.mem_or_eq_of_mem_set h).symm

lemma Steps.genuine {a : Action} (h : Steps v s a s') (hs : Genuine v s) : Genuine v s' := by
  cases h with
  | tick => exact ⟨hs.rows, hs.pending⟩
  | purge => exact ⟨fun r hr => hs.rows r (mem_of_mem_purge hr), hs.pending⟩
  | call p hp =>
    refine ⟨hs.rows, fun q hq r hr => ?_⟩
    rcases List.mem_append.mp hq with hq | hq
    · exact hs.pending q hq r hr
    · rw [List.mem_singleton.mp hq] at hr
      rcases hp with ⟨-, rfl⟩ | ⟨-, rfl⟩ <;> cases hr
  | go _ hi hgoes =>
    refine ⟨hs.rows, fun q hq => ?_⟩
    rcases mem_set_cases hq with rfl | hq
    · exact hgoes.genuine (hs.pending _ (List.mem_of_getElem? hi))
    · exact hs.pending q hq
  | insert hi =>
    refine ⟨fun r hr => ?_, fun q hq => ?_⟩
    · rcases List.mem_append.mp hr with hr | hr
      · exact hs.rows r hr
      · rw [List.mem_singleton.mp hr]
        exact hs.pending _ (List.mem_of_getElem? hi) _ rfl
    · rcases mem_set_cases hq with rfl | hq
      · nofun
      · exact hs.pending q hq
  | commit hi =>
    refine ⟨fun r hr => ?_, fun q hq => ?_⟩
    · rcases List.mem_append.mp hr with hr | hr
      · obtain ⟨r₀, hr₀, rfl⟩ := List.mem_map.mp hr
        rw [retire_id, retire_publicKey]
        exact hs.rows r₀ hr₀
      · rw [List.mem_singleton.mp hr]
        exact hs.pending _ (List.mem_of_getElem? hi) _ rfl
    · rcases mem_set_cases hq with rfl | hq
      · nofun
      · exact hs.pending q hq

lemma genuine_of_run {clock : Time} {steps : List Taken}
    (hrun : (system v).Run (empty clock) steps s) : Genuine v s :=
  hrun.keeps ⟨by simp [empty], by simp [empty]⟩ fun _ _ hp h => (Taken.steps hp).genuine h

/-! ### Around the time of a token -/

/-- The schedule of the reload job. -/
def reloadInterval : Time := hours 1

/-- A reloading instance has these keys at `t`. -/
def HasKeys (v : Vault) (steps : List Taken) (keys : SigningKeys) (t : Time) : Prop :=
  ∃ q ∈ steps, ∃ i, Taken.LoadsKeys v q i keys ∧ q.before.clock ≤ t ∧
    t ≤ q.before.clock + reloadInterval

/-- The keys loaded near a time at which a rotated key signs have it. -/
theorem published_around {clock : Time} {steps : List Taken}
    (hrun : (system v).Run (empty clock) steps s) (hprompt : Prompt steps) {keys keys' : SigningKeys}
    (hkeys : HasKeys v steps keys t) {key : LoadedKey} (hkey : keys.signingKey t = some key)
    (hrotated : ∃ p ∈ steps, Taken.Publishes p key.kid) {q : Taken} (hq : q ∈ steps)
    (hloads : q.LoadsKeys v j keys') (hearly : t ≤ q.before.clock + hours 3)
    (hlate : q.before.clock ≤ t + hours 1) :
    (v.showUuid key.kid, v.publicKey key.kid) ∈ keys'.jwks := by
  have hall : ∀ {l f m}, steps = l ++ f :: m → (system v).Takes f ∧ Kept f.before ∧
      Genuine v f.before := by
    rintro l f m rfl
    obtain ⟨hl, hf, -⟩ := hrun.around
    obtain ⟨hkept, -⟩ := kept_of_run hl fun g hg => hprompt g (List.mem_append_left _ hg)
    exact ⟨hf, hkept, genuine_of_run hl⟩
  have hkept : ∀ f ∈ steps, Kept f.before := by
    intro f hf
    obtain ⟨l, m, hsplit⟩ := List.append_of_mem hf
    exact (hall hsplit).2.1
  obtain ⟨q₀, hq₀, i, ⟨-, now₀, hi, hload₀⟩, hle, hage⟩ := hkeys
  obtain ⟨row, hrow, hid, hsign, -⟩ := signingKey_newest hload₀ hkey
  obtain ⟨hactive, hlasts⟩ := canSign_iff.mp hsign
  obtain ⟨p, hp, hpublishes⟩ := hrotated
  have hsettled₀ : Settled key.kid q₀.before := hid ▸ (hkept q₀ hq₀).distinct.settled_of_mem hrow
  have hlasting₀ : Lasting key.kid t q₀.before := ⟨row, hrow, hid, hlasts⟩
  obtain ⟨l, c, m, hsplit⟩ := published_before hrun hp hpublishes hq₀ hsettled₀
  obtain ⟨htakes, hkept₁, -⟩ := hall hsplit
  obtain ⟨hsettled, start, hstart, hprepublished⟩ := hpublishes.after htakes hkept₁
  have hclock := (Taken.steps htakes).clock_le
  -- by the time it signs, the key has been in the table for hours
  have hc : (system v).Run p.after c q₀.before := (hsplit ▸ hrun).around.2.2.around.1
  have hsigned : start ≤ t := by
    have hsame := startsAt_of_run hc hsettled hstart row hrow hid
    exact hsame ▸ hactive
  have hlong : p.before.clock + hours 4 ≤ t := by
    have hhours : prepublication = hours 4 + callTimeout := by decide
    linarith
  obtain ⟨l', m', hsplit'⟩ := List.append_of_mem hq
  obtain ⟨-, hkept', hgenuine⟩ := hall hsplit'
  have hlasting : Lasting key.kid t q.before := by
    rcases split_cases (hsplit'.symm.trans hsplit) with ⟨-, rfl, -⟩ | ⟨d, hd, hm'⟩ | ⟨d, rfl, hd⟩
    · have hhours : hours 3 < hours 4 := by decide
      linarith
    · -- a load before the key was published is too early
      have hle' : q.before.clock ≤ p.before.clock := by
        rw [hsplit, hd] at hrun
        exact clock_le_of_run (System.Run.between (p := q) (q := p) (by simpa using hrun))
      have hhours : hours 3 < hours 4 := by decide
      linarith
    · rcases split_cases hd with ⟨rfl, rfl, -⟩ | ⟨e, rfl, rfl⟩ | ⟨e, rfl, rfl⟩
      · exact hlasting₀
      · -- too early to retire it, if it was loaded before
        subst hsplit
        have hbetween : (system v).Run q₀.before (q₀ :: e) q.before :=
          System.Run.between (l := l ++ p :: c) (m := m') (by simpa using hrun)
        have hin : ∀ f ∈ q₀ :: e, f ∈ l ++ p :: (c ++ q₀ :: (e ++ q :: m')) := by simp +contextual
        have hhours : hours 1 + callTimeout < prepublication := by decide
        have hhours' : hours 1 ≤ retention := by decide
        refine lasting_after_run hbetween (fun f hf => hkept f (hin f hf)) ?_ ?_ hlasting₀
        · have hinterval : reloadInterval = hours 1 := rfl
          linarith
        · linarith
      · subst hsplit
        have hbetween : (system v).Run q.before (q :: e) q₀.before :=
          System.Run.between (l := l ++ p :: d) (m := m) (by simpa using hrun)
        have hin : ∀ f ∈ q :: e, f ∈ l ++ p :: (d ++ q :: e ++ q₀ :: m) := by simp +contextual
        have hsettled' : Settled key.kid q.before := settled_of_run hc.around.1 hsettled
        exact lasting_before_run hbetween (fun f hf => hkept f (hin f hf)) hsettled' hlasting₀
  obtain ⟨r, hr, hrid, hrlasts⟩ := hlasting
  obtain ⟨-, now, hj, hload⟩ := hloads
  have hnow : now ≤ q.before.clock := by
    rcases hj with hj | hj <;> exact ((hkept'.timely j _ hj).began now rfl).1
  obtain ⟨loaded, -, rfl⟩ := load_eq_some hload
  have hjwk : (v.showUuid key.kid, v.publicKey key.kid) = jwk v r := by
    rw [jwk, hgenuine.rows r hr, hrid]
  rw [hjwk]
  refine List.mem_map_of_mem (mem_listPublished.mpr ⟨hr, outlasts_mono hrlasts ?_⟩)
  have hhours : hours 1 ≤ retiredKeyGrace := by decide
  linarith

end Runs

end Keys

end Bauth
