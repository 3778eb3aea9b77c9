import Bauth.Transaction.Program

/-!
# Weakest preconditions of a run alone

`Program.wp` is what must hold before a program for its run alone to end well, computed from its
operations. Which draws the run gets is left open, apart from the process they are made by, so
that what is proved does not depend on how many operations come before.
-/

namespace Transaction

namespace Program

variable {S : Signature} {α β : Type}

/-- What a run alone depends on: the committed contents, those its open transaction sees, and
the effects so far. -/
structure Point (S : Signature) where
  db : S.State
  tx : Option S.State
  events : List S.Event

namespace Point

@[simp] def view (c : Point S) : S.State := c.tx.getD c.db

@[simp] def write (c : Point S) (e : S.State → S.State) : Point S :=
  match c.tx with
  | some w => { c with tx := some (e w) }
  | none => { c with db := e c.db }

/-- Only what a change makes of the view counts. -/
lemma write_congr {c : Point S} {e e' : S.State → S.State} (h : e c.view = e' c.view) :
    c.write e = c.write e' := by
  obtain ⟨db, _ | w, events⟩ := c
  · exact congrArg (fun d => (⟨d, none, events⟩ : Point S)) h
  · exact congrArg (fun w => (⟨db, some w, events⟩ : Point S)) h

end Point

/-- The point a connection has reached. -/
def Conn.point (c : Conn S) : Point S := ⟨c.db, c.tx.map fun t => t.writes c.db, c.events⟩

/-- Whatever draws it gets, the run of the program by `process` from `c` ends in `Q`. -/
def wp (env : Env S) (process : ℕ) : Program S α → Point S → (α → Point S → Prop) → Prop
  | ret a, c, Q => Q a c
  | stmt s k, c, Q => ∀ i,
    (k (s.run env.now ⟨process, i⟩ c.view).2).wp env process
      (c.write (s.run env.now ⟨process, i⟩ c.view).1) Q
  | utcNow k, c, Q => (k env.utc).wp env process c Q
  | draw k, c, Q => ∀ i, (k ⟨process, i⟩).wp env process c Q
  | ask q k, c, Q => (k (env.reply q)).wp env process c Q
  | emit e k, c, Q => k.wp env process { c with events := c.events ++ [e] } Q
  | begin k, c, Q => k.wp env process { c with tx := some c.db } Q
  | commit k, c, Q => k.wp env process { c with db := c.view, tx := none } Q
  | rollback k, c, Q => k.wp env process { c with tx := none } Q

section wp

variable (env : Env S) (process : ℕ) (c : Point S)

lemma wp_bind (p : Program S α) (f : α → Program S β) (Q : β → Point S → Prop) :
    (p >>= f).wp env process c Q ↔
      p.wp env process c fun a c => (f a).wp env process c Q := by
  induction p generalizing c with
  | ret a => rfl
  | stmt s k ih => exact forall_congr' fun i => ih _ _
  | utcNow k ih => exact ih _ _
  | draw k ih => exact forall_congr' fun i => ih _ _
  | ask q k ih => exact ih _ _
  | emit e k ih => exact ih _
  | begin k ih => exact ih _
  | commit k ih => exact ih _
  | rollback k ih => exact ih _

/-- The postcondition may be weakened. -/
lemma wp_mono (p : Program S α) {Q Q' : α → Point S → Prop} (h : p.wp env process c Q)
    (hQ : ∀ a c, Q a c → Q' a c) : p.wp env process c Q' := by
  induction p generalizing c with
  | ret a => exact hQ a c h
  | stmt s k ih => exact fun i => ih _ _ (h i)
  | utcNow k ih => exact ih _ _ h
  | draw k ih => exact fun i => ih _ _ (h i)
  | ask q k ih => exact ih _ _ h
  | emit e k ih => exact ih _ h
  | begin k ih => exact ih _ h
  | commit k ih => exact ih _ h
  | rollback k ih => exact ih _ h

variable {env process c} {Q : β → Point S → Prop}

@[simp] lemma wp_ret (a : β) : (ret a).wp env process c Q ↔ Q a c := Iff.rfl

lemma wp_query (s : Statement S β) :
    (query s).wp env process c Q ↔
      ∀ i, Q (s.run env.now ⟨process, i⟩ c.view).2
        (c.write (s.run env.now ⟨process, i⟩ c.view).1) := Iff.rfl

@[simp] lemma wp_select (label : S.Label) (read : Time → S.State → β) :
    (query (.select label read)).wp env process c Q ↔ Q (read env.now c.view) c := by
  obtain ⟨db, _ | w, events⟩ := c <;>
    simp [Statement.select, wp_query]

@[simp] lemma wp_clock {Q : Time → Point S → Prop} :
    (clock : Program S Time).wp env process c Q ↔ Q env.utc c := Iff.rfl

@[simp] lemma wp_fresh {Q : Draw → Point S → Prop} :
    (fresh : Program S Draw).wp env process c Q ↔ ∀ i, Q ⟨process, i⟩ c := Iff.rfl

@[simp] lemma wp_inquire (q : S.Question) {Q : S.Reply q → Point S → Prop} :
    (inquire q).wp env process c Q ↔ Q (env.reply q) c := Iff.rfl

@[simp] lemma wp_signal (e : S.Event) {Q : Unit → Point S → Prop} :
    (signal e).wp env process c Q ↔ Q () { c with events := c.events ++ [e] } := Iff.rfl

@[simp] lemma wp_start {Q : Unit → Point S → Prop} :
    (start : Program S Unit).wp env process c Q ↔ Q () { c with tx := some c.db } := Iff.rfl

@[simp] lemma wp_finish {Q : Unit → Point S → Prop} :
    (finish : Program S Unit).wp env process c Q ↔ Q () { c with db := c.view, tx := none } :=
  Iff.rfl

@[simp] lemma wp_abandon {Q : Unit → Point S → Prop} :
    (abandon : Program S Unit).wp env process c Q ↔ Q () { c with tx := none } := Iff.rfl

end wp

/-- A connection whose transaction, if open, started at `env.now`. -/
def Conn.StartedAt (now : Time) (c : Conn S) : Prop := ∀ t ∈ c.tx, t.start = now

@[simp] lemma Conn.view_point (c : Conn S) : c.point.view = c.view := by
  obtain ⟨db, _ | t, process, draws, events⟩ := c <;> rfl

/-- A statement moves the point as the connection. -/
lemma Conn.send_point {now : Time} {c : Conn S} (h : c.StartedAt now) (s : Statement S β) :
    (c.send now s).1 = (s.run now ⟨c.process, c.draws⟩ c.point.view).2 ∧
      (c.send now s).2.point = c.point.write (s.run now ⟨c.process, c.draws⟩ c.point.view).1 ∧
      (c.send now s).2.StartedAt now ∧ (c.send now s).2.process = c.process := by
  obtain ⟨db, _ | ⟨start, writes, locks⟩, process, draws, events⟩ := c
  · exact ⟨rfl, rfl, by simp [StartedAt, send, write], rfl⟩
  · have hstart : start = now := h _ rfl
    subst hstart
    exact ⟨rfl, rfl, by simp [StartedAt, send, write], rfl⟩

/-- What `wp` promises, the run does. -/
theorem wp_exec {env : Env S} {p : Program S α} {c : Conn S} {Q : α → Point S → Prop}
    (hc : c.StartedAt env.now) (h : p.wp env c.process c.point Q) :
    Q (p.exec env c).1 (p.exec env c).2.point := by
  induction p generalizing c with
  | ret a => exact h
  | stmt s k ih =>
    obtain ⟨hans, hpoint, hstart, hproc⟩ := Conn.send_point hc s
    have h' := h c.draws
    rw [← hans, ← hpoint, ← hproc] at h'
    exact ih _ hstart h'
  | utcNow k ih => exact ih _ hc h
  | draw k ih => exact ih _ hc (h c.draws)
  | ask q k ih => exact ih _ hc h
  | emit e k ih => exact ih hc h
  | begin k ih =>
    refine ih ?_ h
    rintro t ⟨⟩
    rfl
  | commit k ih =>
    refine ih (fun t ht => nomatch ht) ?_
    simp only [wp, Conn.view_point] at h
    exact h
  | rollback k ih => exact ih (fun t ht => nomatch ht) h

/-- What `wp` promises of a whole run. -/
theorem wp_serve {env : Env S} {process : ℕ} {p : Program S α} {db : S.State}
    {Q : α → S.State → List S.Event → Prop}
    (h : p.wp env process ⟨db, none, []⟩ fun a c => Q a c.db c.events) :
    Q (serve env process p db).answer (serve env process p db).db
      (serve env process p db).events :=
  wp_exec (c := ⟨db, none, process, 0, []⟩) (fun _ ht => nomatch ht) h

end Program

end Transaction
