import Bauth.Transaction.Program

/-!
# What a program asks and signals

The log of a run alone: the questions asked outside the store with their answers, and the effects,
in order. `Program.Emits` is what holds of each effect given the log before it, whatever the store
holds and whatever is answered: a statement answers what it can answer on some contents.
-/

namespace Transaction

variable {S : Signature}

inductive Entry (S : Signature) where
  | asked (q : S.Question) (r : S.Reply q)
  | emitted (e : S.Event)

/-- The effect of an entry. -/
def Entry.event : Entry S → Option S.Event
  | asked _ _ => none
  | emitted e => some e

namespace Program

variable {α β : Type}

/-- What a run alone asks and signals. -/
def log (env : Env S) : Program S α → Conn S → List (Entry S)
  | ret _, _ => []
  | stmt s k, c => (k (c.send env.now s).1).log env (c.send env.now s).2
  | utcNow k, c => (k env.utc).log env c
  | draw k, c => (k c.nextDraw).log env { c with draws := c.draws + 1 }
  | ask q k, c => .asked q (env.reply q) :: (k (env.reply q)).log env c
  | emit e k, c => .emitted e :: k.log env { c with events := c.events ++ [e] }
  | begin k, c => k.log env { c with tx := some ⟨env.now, fun d => d, []⟩ }
  | commit k, c => k.log env { c with db := c.view, tx := none }
  | rollback k, c => k.log env { c with tx := none }

/-- The effects of a run are those of its log. -/
lemma events_exec (env : Env S) (p : Program S α) (c : Conn S) :
    (p.exec env c).2.events = c.events ++ (p.log env c).filterMap Entry.event := by
  induction p generalizing c with
  | ret a => simp [exec, log]
  | stmt s k ih =>
    have hevents : (c.send env.now s).2.events = c.events := by
      obtain ⟨db, _ | t, process, draws, events⟩ := c <;> rfl
    simp [exec, log, ih, hevents]
  | utcNow k ih => exact ih _ _
  | draw k ih => exact ih _ _
  | ask q k ih =>
    simp only [exec, log]
    rw [List.filterMap_cons_none rfl]
    exact ih _ _
  | emit e k ih => simp [exec, log, ih, Entry.event]
  | begin k ih => exact ih _
  | commit k ih => exact ih _
  | rollback k ih => exact ih _

/-- Every effect satisfies `Φ` after the log before it, and the program ends in `Q`. -/
def Emits (Φ : List (Entry S) → S.Event → Prop) :
    Program S α → List (Entry S) → (α → List (Entry S) → Prop) → Prop
  | ret a, l, Q => Q a l
  | stmt s k, l, Q => ∀ now n d, (k (s.run now n d).2).Emits Φ l Q
  | utcNow k, l, Q => ∀ t, (k t).Emits Φ l Q
  | draw k, l, Q => ∀ n, (k n).Emits Φ l Q
  | ask q k, l, Q => ∀ r, (k r).Emits Φ (l ++ [.asked q r]) Q
  | emit e k, l, Q => Φ l e ∧ k.Emits Φ (l ++ [.emitted e]) Q
  | begin k, l, Q => k.Emits Φ l Q
  | commit k, l, Q => k.Emits Φ l Q
  | rollback k, l, Q => k.Emits Φ l Q

section Emits

variable {Φ : List (Entry S) → S.Event → Prop} {l : List (Entry S)}

lemma emits_bind (p : Program S α) (f : α → Program S β) (Q : β → List (Entry S) → Prop) :
    (p >>= f).Emits Φ l Q ↔ p.Emits Φ l fun a l => (f a).Emits Φ l Q := by
  induction p generalizing l with
  | ret a => rfl
  | stmt s k ih => exact forall_congr' fun now => forall_congr' fun n => forall_congr' fun d => ih _
  | utcNow k ih => exact forall_congr' fun t => ih _
  | draw k ih => exact forall_congr' fun n => ih _
  | ask q k ih => exact forall_congr' fun r => ih _
  | emit e k ih => exact and_congr_right fun _ => ih
  | begin k ih => exact ih
  | commit k ih => exact ih
  | rollback k ih => exact ih

lemma Emits.mono {p : Program S α} {Q Q' : α → List (Entry S) → Prop} (h : p.Emits Φ l Q)
    (hQ : ∀ a l, Q a l → Q' a l) : p.Emits Φ l Q' := by
  induction p generalizing l with
  | ret a => exact hQ a l h
  | stmt s k ih => exact fun now n d => ih _ (h now n d)
  | utcNow k ih => exact fun t => ih _ (h t)
  | draw k ih => exact fun n => ih _ (h n)
  | ask q k ih => exact fun r => ih _ (h r)
  | emit e k ih => exact ⟨h.1, ih h.2⟩
  | begin k ih => exact ih h
  | commit k ih => exact ih h
  | rollback k ih => exact ih h

/-- What is promised of each effect holds of the log of a run. -/
theorem Emits.log {env : Env S} {p : Program S α} {c : Conn S} {Q : α → List (Entry S) → Prop}
    (h : p.Emits Φ l Q) {l₁ l₂ : List (Entry S)} {e : S.Event}
    (hlog : p.log env c = l₁ ++ .emitted e :: l₂) : Φ (l ++ l₁) e := by
  induction p generalizing l l₁ c with
  | ret a => simp [Program.log] at hlog
  | stmt s k ih => exact ih _ (h _ _ _) hlog
  | utcNow k ih => exact ih _ (h _) hlog
  | draw k ih => exact ih _ (h _) hlog
  | ask q k ih =>
    cases l₁ with
    | nil => simp [Program.log] at hlog
    | cons x l₁ =>
      simp only [Program.log, List.cons_append, List.cons.injEq] at hlog
      obtain ⟨rfl, hlog⟩ := hlog
      simpa using ih _ (h _) hlog
  | emit e' k ih =>
    cases l₁ with
    | nil =>
      simp only [Program.log, List.nil_append, List.cons.injEq, Entry.emitted.injEq] at hlog
      obtain ⟨rfl, -⟩ := hlog
      simpa using h.1
    | cons x l₁ =>
      simp only [Program.log, List.cons_append, List.cons.injEq] at hlog
      obtain ⟨rfl, hlog⟩ := hlog
      simpa using ih h.2 hlog
  | begin k ih => exact ih h hlog
  | commit k ih => exact ih h hlog
  | rollback k ih => exact ih h hlog

end Emits

end Program

end Transaction
