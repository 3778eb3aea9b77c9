import Bauth.Transaction.Alone

/-!
# The statements a program sends

`Program.Sends Φ p Q` says that every statement `p` may send satisfies `Φ`, whatever was answered
before, and that whatever `p` returns satisfies `Q`. A fact kept by each of these statements is
kept by every run of the program.
-/

namespace Transaction

namespace Program

variable {S : Signature} {α β : Type}

def Sends (Φ : ∀ {β : Type}, Statement S β → Prop) : Program S α → (α → Prop) → Prop
  | ret a, Q => Q a
  | stmt s k, Q => Φ s ∧ ∀ b, (k b).Sends Φ Q
  | utcNow k, Q => ∀ t, (k t).Sends Φ Q
  | draw k, Q => ∀ n, (k n).Sends Φ Q
  | ask _ k, Q => ∀ r, (k r).Sends Φ Q
  | emit _ k, Q => k.Sends Φ Q
  | begin k, Q => k.Sends Φ Q
  | commit k, Q => k.Sends Φ Q
  | rollback k, Q => k.Sends Φ Q

section Sends

variable {Φ : ∀ {β : Type}, Statement S β → Prop} {Q : β → Prop}

@[simp] lemma sends_bind (p : Program S α) (f : α → Program S β) :
    (p >>= f).Sends Φ Q ↔ p.Sends Φ fun a => (f a).Sends Φ Q := by
  induction p with
  | ret a => rfl
  | stmt s k ih => exact and_congr Iff.rfl (forall_congr' ih)
  | utcNow k ih => exact forall_congr' ih
  | draw k ih => exact forall_congr' ih
  | ask q k ih => exact forall_congr' ih
  | emit e k ih => exact ih
  | begin k ih => exact ih
  | commit k ih => exact ih
  | rollback k ih => exact ih

@[simp] lemma sends_ret (a : β) : (ret a).Sends Φ Q ↔ Q a := Iff.rfl

@[simp] lemma sends_query (s : Statement S β) : (query s).Sends Φ Q ↔ Φ s ∧ ∀ b, Q b := Iff.rfl

@[simp] lemma sends_clock {Q : Time → Prop} :
    (clock : Program S Time).Sends Φ Q ↔ ∀ t, Q t := Iff.rfl

@[simp] lemma sends_fresh {Q : Draw → Prop} :
    (fresh : Program S Draw).Sends Φ Q ↔ ∀ n, Q n := Iff.rfl

@[simp] lemma sends_inquire (q : S.Question) {Q : S.Reply q → Prop} :
    (inquire q).Sends Φ Q ↔ ∀ r, Q r := Iff.rfl

@[simp] lemma sends_signal (e : S.Event) {Q : Unit → Prop} :
    (signal e).Sends Φ Q ↔ Q () := Iff.rfl

@[simp] lemma sends_start {Q : Unit → Prop} :
    (start : Program S Unit).Sends Φ Q ↔ Q () := Iff.rfl

@[simp] lemma sends_finish {Q : Unit → Prop} :
    (finish : Program S Unit).Sends Φ Q ↔ Q () := Iff.rfl

@[simp] lemma sends_abandon {Q : Unit → Prop} :
    (abandon : Program S Unit).Sends Φ Q ↔ Q () := Iff.rfl

lemma Sends.mono {p : Program S β} {Q' : β → Prop} (h : p.Sends Φ Q) (hQ : ∀ a, Q a → Q' a) :
    p.Sends Φ Q' := by
  induction p with
  | ret a => exact hQ a h
  | stmt s k ih => exact ⟨h.1, fun b => ih b (h.2 b)⟩
  | utcNow k ih => exact fun t => ih t (h t)
  | draw k ih => exact fun n => ih n (h n)
  | ask q k ih => exact fun r => ih r (h r)
  | emit e k ih => exact ih h
  | begin k ih => exact ih h
  | commit k ih => exact ih h
  | rollback k ih => exact ih h

end Sends

/-- Other statements may be allowed. -/
lemma Sends.imp {Φ Φ' : ∀ {β : Type}, Statement S β → Prop} {p : Program S α} {Q : α → Prop}
    (h : p.Sends Φ Q) (hΦ : ∀ {β : Type} (st : Statement S β), Φ st → Φ' st) : p.Sends Φ' Q := by
  induction p with
  | ret a => exact h
  | stmt s k ih => exact ⟨hΦ s h.1, fun b => ih b (h.2 b)⟩
  | utcNow k ih => exact fun t => ih t (h t)
  | draw k ih => exact fun n => ih n (h n)
  | ask q k ih => exact fun r => ih r (h r)
  | emit e k ih => exact ih h
  | begin k ih => exact ih h
  | commit k ih => exact ih h
  | rollback k ih => exact ih h

/-- The rest of a program sends what the program may. -/
lemma Sends.next {Φ : ∀ {β : Type}, Statement S β → Prop} {Q : α → Prop} {p : Program S α}
    (h : p.Sends Φ Q) (env : Env S) (c : Conn S) : (p.next env c).1.Sends Φ Q := by
  cases p with
  | ret a => exact h
  | stmt s k => exact h.2 _
  | utcNow k => exact h _
  | draw k => exact h _
  | ask q k => exact h _
  | emit e k => exact h
  | begin k => exact h
  | commit k => exact h
  | rollback k => exact h

/-- A run answers what the program may return. -/
lemma Sends.answer {Φ : ∀ {β : Type}, Statement S β → Prop} {Q : α → Prop} {p : Program S α}
    (h : p.Sends Φ Q) (env : Env S) (process : ℕ) (db : S.State) :
    Q (serve env process p db).answer := by
  suffices hexec : ∀ c, Q (p.exec env c).1 from hexec _
  induction p with
  | ret a => exact fun _ => h
  | stmt s k ih => exact fun _ => ih _ (h.2 _) _
  | utcNow k ih => exact fun _ => ih _ (h _) _
  | draw k ih => exact fun _ => ih _ (h _) _
  | ask q k ih => exact fun _ => ih _ (h _) _
  | emit e k ih => exact fun _ => ih h _
  | begin k ih => exact fun _ => ih h _
  | commit k ih => exact fun _ => ih h _
  | rollback k ih => exact fun _ => ih h _

/-! ### What every statement keeps -/

section Keeps

variable {Φ : ∀ {β : Type}, Statement S β → Prop} {J : ℕ → S.State → Prop} {env : Env S}

/-- If each statement of a program keeps `J`, which may speak of the draws made so far, so does
its run alone, in the committed contents and in those its transaction sees. -/
theorem exec_keeps {process : ℕ} (hdraw : ∀ k d, J k d → J (k + 1) d)
    (hstep : ∀ {β : Type} (s : Statement S β), Φ s → ∀ k d, J k d →
      J (k + 1) ((s.run env.now ⟨process, k⟩ d).1 d))
    {p : Program S α} {Q : α → Prop} (h : p.Sends Φ Q) {c : Conn S} (hc : c.StartedAt env.now)
    (hproc : c.process = process) (hdb : J c.draws c.db) (hview : J c.draws c.view) :
    J (p.exec env c).2.draws (p.exec env c).2.db := by
  induction p generalizing c with
  | ret a => exact hdb
  | stmt s k ih =>
    obtain ⟨-, -, hstart, hproc'⟩ := Conn.send_point hc s
    have hs := hstep s h.1
    subst hproc
    obtain ⟨db, _ | ⟨start, writes, locks⟩, pid, draws, events⟩ := c
    · exact ih _ (h.2 _) hstart hproc' (hs _ _ hdb) (hs _ _ hdb)
    · obtain rfl : start = env.now := hc _ rfl
      exact ih _ (h.2 _) hstart hproc' (hdraw _ _ hdb) (hs _ _ hview)
  | utcNow k ih => exact ih _ (h _) hc hproc hdb hview
  | draw k ih =>
    refine ih _ (h _) hc hproc (hdraw _ _ hdb) ?_
    exact hdraw _ _ hview
  | ask q k ih => exact ih _ (h _) hc hproc hdb hview
  | emit e k ih => exact ih h hc hproc hdb hview
  | begin k ih =>
    refine ih h ?_ hproc hdb hdb
    rintro t ⟨⟩
    rfl
  | commit k ih => exact ih h (fun t ht => nomatch ht) hproc hview hview
  | rollback k ih => exact ih h (fun t ht => nomatch ht) hproc hdb hdb

/-- The same of a run from its first operation. -/
theorem serve_keeps {process : ℕ} (hdraw : ∀ k d, J k d → J (k + 1) d)
    (hstep : ∀ {β : Type} (s : Statement S β), Φ s → ∀ k d, J k d →
      J (k + 1) ((s.run env.now ⟨process, k⟩ d).1 d))
    {p : Program S α} {Q : α → Prop} (h : p.Sends Φ Q) {db : S.State} (hdb : J 0 db) :
    ∃ k, J k (serve env process p db).db :=
  ⟨_, exec_keeps hdraw hstep h (c := ⟨db, none, process, 0, []⟩) (fun _ ht => nomatch ht) rfl hdb
    hdb⟩

end Keeps

end Program

end Transaction
