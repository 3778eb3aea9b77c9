import Bauth.Transaction.Pool
import Bauth.Transaction.Sends
import Mathlib.Logic.Function.Basic

/-!
# What a pool draws

Every statement is given a draw of its own. A pool keeps apart the draws that the committed contents
were written with and those that its open transactions hold, so that what is committed can be shown
to hold what was drawn once, whatever the pool interleaves.
-/

namespace Transaction

open Transition Program

/-- What a process makes of the contents with its draws from `a` on, below `b`. -/
inductive Wrote {σ : Type} (step : Draw → σ → σ → Prop) (i a : ℕ) : ℕ → σ → σ → Prop
  | refl (d : σ) : Wrote step i a a d d
  | skip {b : ℕ} {d d' : σ} (h : Wrote step i a b d d') : Wrote step i a (b + 1) d d'
  | write {b : ℕ} {d d' d'' : σ} (h : Wrote step i a b d d') (hd : step ⟨i, b⟩ d' d'') :
      Wrote step i a (b + 1) d d''

namespace Wrote

variable {σ : Type} {step : Draw → σ → σ → Prop} {i a b : ℕ} {d d' : σ}

lemma le (h : Wrote step i a b d d') : a ≤ b := by
  induction h with
  | refl => exact le_rfl
  | skip _ ih => exact ih.trans (Nat.le_succ _)
  | write _ _ ih => exact ih.trans (Nat.le_succ _)

lemma idle (hab : a ≤ b) (d : σ) : Wrote step i a b d d := by
  induction b, hab using Nat.le_induction with
  | base => exact .refl d
  | succ b _ ih => exact ih.skip

end Wrote

/-- What holds of the contents, given how far each process drew, if statements keep it. -/
structure DrawInvariant {σ : Type} (step : Draw → σ → σ → Prop) (K : (ℕ → ℕ) → σ → Prop) :
    Prop where
  mono : ∀ used used' d, (∀ i, used i ≤ used' i) → K used d → K used' d
  step : ∀ used i k d d', used i ≤ k → step ⟨i, k⟩ d d' → K used d →
    K (Function.update used i (k + 1)) d'

section Pools

variable {S : Signature} {ι α : Type} {step : Draw → S.State → S.State → Prop}
  {Φ : ∀ {β : Type}, Statement S β → Prop} {used : ℕ → ℕ} {K : (ℕ → ℕ) → S.State → Prop}

lemma le_update {i b : ℕ} (h : used i ≤ b) (j : ℕ) : used j ≤ Function.update used i b j := by
  by_cases hj : j = i
  · subst hj
    simpa using h
  · rw [Function.update_of_ne hj]

lemma DrawInvariant.wrote (hK : DrawInvariant step K) {i a b : ℕ} {d d' : S.State}
    (ha : used i ≤ a) (h : Wrote step i a b d d') (hd : K used d) :
    K (Function.update used i b) d' := by
  induction h with
  | refl => exact hK.mono _ _ _ (le_update ha) hd
  | @skip b _ _ h ih =>
    refine hK.mono _ _ _ (fun j => ?_) (ih hd)
    by_cases hj : j = i
    · subst hj
      simp
    · rw [Function.update_of_ne hj, Function.update_of_ne hj]
  | write h hstep ih =>
    have hkept := hK.step _ i _ _ _ (by rw [Function.update_self]) hstep (ih hd)
    rwa [Function.update_idem] at hkept

/-- The contents were written with draws below `used`; what a process drew since is in its open
transaction. -/
structure Filed (Φ : ∀ {β : Type}, Statement S β → Prop) (step : Draw → S.State → S.State → Prop)
    (used : ℕ → ℕ) (s : Pool S ι α) : Prop where
  sends : ∀ (i : ℕ) (p : Proc S ι α) program, s.procs[i]? = some p → p.program = some program →
    program.Sends Φ fun _ => True
  le : ∀ (i : ℕ) (p : Proc S ι α), s.procs[i]? = some p → used i ≤ p.place.draws
  writes : ∀ (i : ℕ) (p : Proc S ι α) tx, s.procs[i]? = some p → p.place.tx = some tx →
    ∀ d, Wrote step i (used i) p.place.draws d (tx.writes d)
  new : ∀ i, s.procs.length ≤ i → used i = 0

/-- One operation of a process writes with the draws it made since the contents were last written,
or keeps them for its transaction. -/
lemma wrote_next {i a : ℕ} {program : Program S α} {L : Place S} {d : S.State}
    (hΦ : ∀ {β : Type} (st : Statement S β), Φ st → ∀ now n v d, step n d ((st.run now n v).1 d))
    (hsends : program.Sends Φ fun _ => True) (hle : a ≤ L.draws)
    (hwrites : ∀ tx, L.tx = some tx → ∀ d, Wrote step i a L.draws d (tx.writes d)) (env : Env S) :
    ∃ b, a ≤ b ∧ b ≤ (program.next env (L.conn i d)).2.draws ∧
      Wrote step i a b d (program.next env (L.conn i d)).2.db ∧
      ∀ tx, (program.next env (L.conn i d)).2.tx = some tx → ∀ e,
        Wrote step i b (program.next env (L.conn i d)).2.draws e (tx.writes e) := by
  obtain ⟨tx, draws, events, sights⟩ := L
  cases program with
  | ret a => exact ⟨_, le_rfl, hle, .refl d, nofun⟩
  | stmt st k =>
    cases tx with
    | none =>
      refine ⟨draws + 1, hle.trans (Nat.le_succ _), le_rfl, ?_, nofun⟩
      exact (Wrote.idle hle d).write (hΦ st hsends.1 _ _ _ _)
    | some tx =>
      refine ⟨_, le_rfl, hle.trans (Nat.le_succ _), .refl d, ?_⟩
      rintro _ ⟨⟩ e
      exact (hwrites tx rfl e).write (hΦ st hsends.1 _ _ _ _)
  | utcNow k => exact ⟨_, le_rfl, hle, .refl d, hwrites⟩
  | draw k =>
    refine ⟨_, le_rfl, hle.trans (Nat.le_succ _), .refl d, fun tx htx e => ?_⟩
    exact (hwrites tx htx e).skip
  | ask q k => exact ⟨_, le_rfl, hle, .refl d, hwrites⟩
  | emit e k => exact ⟨_, le_rfl, hle, .refl d, hwrites⟩
  | begin k =>
    refine ⟨_, le_rfl, hle, .refl d, ?_⟩
    rintro _ ⟨⟩ e
    exact .idle hle e
  | commit k =>
    refine ⟨draws, hle, le_rfl, ?_, nofun⟩
    cases tx with
    | none => exact .idle hle d
    | some tx => exact hwrites tx rfl d
  | rollback k => exact ⟨_, le_rfl, hle, .refl d, nofun⟩

variable {handle : ι → Program S α} {s s' : Pool S ι α}

lemma Filed.operate (hs : Filed Φ step used s)
    (hΦ : ∀ {β : Type} (st : Statement S β), Φ st → ∀ now n v d, step n d ((st.run now n v).1 d))
    {i : ℕ} {p : Proc S ι α} {program : Program S α} (hi : s.procs[i]? = some p)
    (hp : p.program = some program) (reply : (q : S.Question) → S.Reply q) :
    ∃ b, used i ≤ b ∧ Filed Φ step (Function.update used i b) (s.operate i reply p program) ∧
      Wrote step i (used i) b s.db (s.operate i reply p program).db := by
  obtain ⟨b, hab, hb, hdb, hwrites⟩ := wrote_next (i := i) (d := s.db) hΦ
    (hs.sends i p program hi hp) (hs.le i p hi) (fun tx htx => hs.writes i p tx hi htx)
    ⟨s.clock, s.clock, reply⟩
  have hlt := (List.getElem?_eq_some_iff.mp hi).1
  have hother : ∀ {j : ℕ} {q : Proc S ι α}, j ≠ i →
      (s.operate i reply p program).procs[j]? = some q → s.procs[j]? = some q := by
    intro j q hne hj
    rwa [Pool.operate, Pool.set, List.getElem?_set_ne (Ne.symm hne)] at hj
  have hself : (s.operate i reply p program).procs[i]? = some
      { p with
        program := some (program.next ⟨s.clock, s.clock, reply⟩ (p.place.conn i s.db)).1
        place := { p.place.after (program.next ⟨s.clock, s.clock, reply⟩
          (p.place.conn i s.db)).2 with
            sights := p.place.sights ++ program.sees (p.place.conn i s.db) s.clock } } := by
    simp only [Pool.operate, Pool.set, List.getElem?_set_self', hi]
    rfl
  refine ⟨b, hab, ⟨fun j q program' hj hq => ?_, fun j q hj => ?_, fun j q tx hj htx => ?_,
    fun j hj => ?_⟩, hdb⟩
  · by_cases hji : j = i
    · subst hji
      obtain rfl := Option.some.inj (hself.symm.trans hj)
      obtain rfl := Option.some.inj hq
      exact (hs.sends _ p program hi hp).next _ _
    · exact hs.sends j q program' (hother hji hj) hq
  · by_cases hji : j = i
    · subst hji
      obtain rfl := Option.some.inj (hself.symm.trans hj)
      rw [Function.update_self]
      exact hb
    · rw [Function.update_of_ne hji]
      exact hs.le j q (hother hji hj)
  · by_cases hji : j = i
    · subst hji
      obtain rfl := Option.some.inj (hself.symm.trans hj)
      rw [Function.update_self]
      exact hwrites tx htx
    · rw [Function.update_of_ne hji]
      exact hs.writes j q tx (hother hji hj) htx
  · have hj' : s.procs.length ≤ j := by simpa [Pool.operate, Pool.set] using hj
    rw [Function.update_of_ne (hlt.trans_le hj').ne']
    exact hs.new j hj'

lemma Filed.drop (hs : Filed Φ step used s) (i : ℕ) (p : Proc S ι α) (hi : s.procs[i]? = some p) :
    Filed Φ step used
      (s.set i { p with program := none, place := { p.place with tx := none } }) := by
  have hcases : ∀ {j : ℕ} {q : Proc S ι α}, (s.procs.set i
      { p with program := none, place := { p.place with tx := none } })[j]? = some q →
        (q.program = none ∧ q.place.tx = none ∧ used j ≤ q.place.draws) ∨ s.procs[j]? = some q := by
    intro j q hj
    by_cases hji : j = i
    · subst hji
      rw [List.getElem?_set_self', hi] at hj
      obtain rfl := Option.some.inj hj
      exact .inl ⟨rfl, rfl, hs.le j p hi⟩
    · rw [List.getElem?_set_ne (Ne.symm hji)] at hj
      exact .inr hj
  refine ⟨fun j q program hj hq => ?_, fun j q hj => ?_, fun j q tx hj htx => ?_, fun j hj => ?_⟩
  · rcases hcases hj with ⟨hnone, -⟩ | hj
    · cases hnone.symm.trans hq
    · exact hs.sends j q program hj hq
  · rcases hcases hj with ⟨-, -, hle⟩ | hj
    · exact hle
    · exact hs.le j q hj
  · rcases hcases hj with ⟨-, hnone, -⟩ | hj
    · cases hnone.symm.trans htx
    · exact hs.writes j q tx hj htx
  · exact hs.new j (by simpa [Pool.set] using hj)

lemma Filed.spawn (hs : Filed Φ step used s) {request : ι} {program : Program S α}
    (h : program.Sends Φ fun _ => True) :
    Filed Φ step used { s with procs := s.procs ++ [⟨request, some program, {}⟩] } := by
  have hcases : ∀ {j : ℕ} {q : Proc S ι α}, (s.procs ++ [⟨request, some program, {}⟩])[j]? = some q →
      s.procs[j]? = some q ∨ s.procs.length ≤ j ∧ q = ⟨request, some program, {}⟩ := by
    intro j q hj
    by_cases hlt : j < s.procs.length
    · rw [List.getElem?_append_left hlt] at hj
      exact .inl hj
    · rw [List.getElem?_append_right (not_lt.mp hlt)] at hj
      exact .inr ⟨not_lt.mp hlt, List.mem_singleton.mp (List.mem_of_getElem? hj)⟩
  refine ⟨fun j q program' hj hq => ?_, fun j q hj => ?_, fun j q tx hj htx => ?_, fun j hj => ?_⟩
  · rcases hcases hj with hj | ⟨-, rfl⟩
    · exact hs.sends j q program' hj hq
    · obtain rfl := Option.some.inj hq
      exact h
  · rcases hcases hj with hj | ⟨hle, rfl⟩
    · exact hs.le j q hj
    · exact (hs.new j hle).le
  · rcases hcases hj with hj | ⟨-, rfl⟩
    · exact hs.writes j q tx hj htx
    · cases htx
  · rw [List.length_append] at hj
    exact hs.new j ((Nat.le_add_right _ _).trans hj)

lemma filed_start {clock : Time} {d : S.State} :
    Filed Φ step (fun _ => 0) (Pool.start clock d : Pool S ι α) := by
  refine ⟨?_, ?_, ?_, fun _ _ => rfl⟩ <;> simp [Pool.start]

/-- What the statements of a pool keep, given how far its processes drew, a run keeps. -/
theorem filed_of_run {steps : List (Step (Pool S ι α) (Pool.Action S ι))}
    (hrun : (Pool.system handle).Run s steps s') (hs : Filed Φ step used s)
    (hΦ : ∀ {β : Type} (st : Statement S β), Φ st → ∀ now n v d, step n d ((st.run now n v).1 d))
    (hhandle : ∀ r, (handle r).Sends Φ fun _ => True) (hK : DrawInvariant step K)
    (hd : K used s.db) :
    ∃ used', (∀ i, used i ≤ used' i) ∧ Filed Φ step used' s' ∧ K used' s'.db := by
  refine hrun.keeps (P := fun s' => ∃ used', (∀ i, used i ≤ used' i) ∧ Filed Φ step used' s' ∧
    K used' s'.db) ⟨used, fun _ => le_rfl, hs, hd⟩ ?_
  rintro ⟨before, action, after⟩ - htakes ⟨used', hused, hs', hd'⟩
  have hstep : Pool.step handle before action = some after := htakes
  cases Pool.steps_of_step hstep with
  | tick h => exact ⟨used', hused, ⟨hs'.sends, hs'.le, hs'.writes, hs'.new⟩, hd'⟩
  | spawn request => exact ⟨used', hused, hs'.spawn (hhandle request), hd'⟩
  | advance reply hi hp =>
    obtain ⟨b, hb, hfiled, hdb⟩ := hs'.operate hΦ hi hp reply
    exact ⟨_, fun j => (hused j).trans (le_update hb j), hfiled, hK.wrote le_rfl hdb hd'⟩
  | @drop i p hi => exact ⟨used', hused, hs'.drop i p hi, hd'⟩

/-- The same of what an open transaction sees. -/
lemma Filed.view (hs : Filed Φ step used s) (hK : DrawInvariant step K) (hd : K used s.db) {i : ℕ}
    {p : Proc S ι α} (hi : s.procs[i]? = some p) :
    ∃ used', (∀ j, used j ≤ used' j) ∧ K used' (p.place.conn i s.db).view := by
  cases htx : p.place.tx with
  | none =>
    refine ⟨used, fun _ => le_rfl, ?_⟩
    simpa only [Place.conn, Conn.view, htx] using hd
  | some tx =>
    refine ⟨_, le_update (hs.le i p hi), ?_⟩
    simpa only [Place.conn, Conn.view, htx] using
      hK.wrote le_rfl (hs.writes i p tx hi htx s.db) hd

end Pools

end Transaction
