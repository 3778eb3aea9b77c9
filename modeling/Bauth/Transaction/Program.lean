import Mathlib.Algebra.Order.Ring.Int

/-!
# Programs over a transactional store

A request handler talks to its store one statement at a time, and between two statements other
handlers may run. `Program S α` is such a handler as a value: a tree of operations, each
followed by a continuation on its answer. What an operation does to the store is given by its
`Statement`, so that the same program can be run alone (`Program.exec`) or interleaved with
others (`Transaction.Config`).
-/

namespace Transaction

/-- Instants and durations, in microseconds. -/
abbrev Time := ℤ

/-- What a generated value is made from: the process drawing it, and how many it drew before. -/
structure Draw where
  process : ℕ
  index : ℕ
  deriving DecidableEq, Repr

/-- What a family of programs is written over: the contents of the store, the locks its
statements take, the names of the statements, the effects seen outside (`Event`) and the
questions answered by the process itself, outside the store. -/
structure Signature where
  State : Type
  Lock : Type
  conflict : Lock → Lock → Bool
  Label : Type
  Event : Type
  Question : Type
  Reply : Question → Type

/-- One statement sent to the store. `locks` are the locks it needs on the rows it finds in the
view it is given; `run` reads that view and returns the change to apply and the answer. Both
receive the start time of the transaction, and `run` a draw of its own. -/
structure Statement (S : Signature) (β : Type) where
  label : S.Label
  locks : Time → S.State → List S.Lock
  run : Time → Draw → S.State → (S.State → S.State) × β

/-- A statement that only reads. -/
def Statement.select {S : Signature} {β : Type} (label : S.Label)
    (read : Time → S.State → β) : Statement S β where
  label := label
  locks _ _ := []
  run now _ d := (id, read now d)

inductive Program (S : Signature) (α : Type) : Type 1 where
  | ret (a : α)
  | stmt {β : Type} (s : Statement S β) (k : β → Program S α)
  | utcNow (k : Time → Program S α)
  | draw (k : Draw → Program S α)
  | ask (q : S.Question) (k : S.Reply q → Program S α)
  | emit (e : S.Event) (k : Program S α)
  | begin (k : Program S α)
  | commit (k : Program S α)
  | rollback (k : Program S α)

namespace Program

variable {S : Signature} {α β γ : Type}

/-- Run `p`, then the program its answer selects. -/
def bind : Program S α → (α → Program S β) → Program S β
  | ret a, f => f a
  | stmt s k, f => stmt s fun b => (k b).bind f
  | utcNow k, f => utcNow fun t => (k t).bind f
  | draw k, f => draw fun n => (k n).bind f
  | ask q k, f => ask q fun r => (k r).bind f
  | emit e k, f => emit e (k.bind f)
  | begin k, f => begin (k.bind f)
  | commit k, f => commit (k.bind f)
  | rollback k, f => rollback (k.bind f)

instance : Monad (Program S) where
  pure := ret
  bind := bind

@[simp] lemma pure_eq (a : α) : (pure a : Program S α) = ret a := rfl

@[simp] lemma ret_bind (a : α) (f : α → Program S β) : (ret a >>= f) = f a := rfl

@[simp] lemma stmt_bind {δ : Type} (s : Statement S δ) (k : δ → Program S α)
    (f : α → Program S β) : (stmt s k >>= f) = stmt s fun b => k b >>= f := rfl

@[simp] lemma utcNow_bind (k : Time → Program S α) (f : α → Program S β) :
    (utcNow k >>= f) = utcNow fun t => k t >>= f := rfl

@[simp] lemma draw_bind (k : Draw → Program S α) (f : α → Program S β) :
    (draw k >>= f) = draw fun n => k n >>= f := rfl

@[simp] lemma ask_bind (q : S.Question) (k : S.Reply q → Program S α) (f : α → Program S β) :
    (ask q k >>= f) = ask q fun r => k r >>= f := rfl

@[simp] lemma emit_bind (e : S.Event) (k : Program S α) (f : α → Program S β) :
    (emit e k >>= f) = emit e (k >>= f) := rfl

@[simp] lemma begin_bind (k : Program S α) (f : α → Program S β) :
    (begin k >>= f) = begin (k >>= f) := rfl

@[simp] lemma commit_bind (k : Program S α) (f : α → Program S β) :
    (commit k >>= f) = commit (k >>= f) := rfl

@[simp] lemma rollback_bind (k : Program S α) (f : α → Program S β) :
    (rollback k >>= f) = rollback (k >>= f) := rfl

lemma bind_ret (p : Program S α) : p >>= ret = p := by
  induction p with
  | ret a => rfl
  | stmt s k ih => simp [ih]
  | utcNow k ih => simp [ih]
  | draw k ih => simp [ih]
  | ask q k ih => simp [ih]
  | emit e k ih => simp [ih]
  | begin k ih => simp [ih]
  | commit k ih => simp [ih]
  | rollback k ih => simp [ih]

lemma bind_assoc (p : Program S α) (f : α → Program S β) (g : β → Program S γ) :
    p >>= f >>= g = p >>= fun a => f a >>= g := by
  induction p with
  | ret a => rfl
  | stmt s k ih => simp [ih]
  | utcNow k ih => simp [ih]
  | draw k ih => simp [ih]
  | ask q k ih => simp [ih]
  | emit e k ih => simp [ih]
  | begin k ih => simp [ih]
  | commit k ih => simp [ih]
  | rollback k ih => simp [ih]

instance : LawfulMonad (Program S) :=
  LawfulMonad.mk' (Program S) (fun p => bind_ret p) (fun _ _ => rfl)
    (fun p f g => bind_assoc p f g)

/-! ### Operations as programs -/

/-- Send one statement and return its answer. -/
def query (s : Statement S β) : Program S β := stmt s ret

/-- The wall clock of the process. -/
def clock : Program S Time := utcNow ret

/-- A draw never made before. -/
def fresh : Program S Draw := draw ret

def inquire (q : S.Question) : Program S (S.Reply q) := ask q ret

def signal (e : S.Event) : Program S Unit := emit e (ret ())

def start : Program S Unit := begin (ret ())

def finish : Program S Unit := commit (ret ())

def abandon : Program S Unit := rollback (ret ())

/-! ### Running alone -/

/-- What one run takes from its surroundings: the wall clock, the clock of the store when the
transaction starts, and the answers given outside the store. -/
structure Env (S : Signature) where
  utc : Time
  now : Time
  reply : (q : S.Question) → S.Reply q

/-- An open transaction: when it started, what it wrote and the locks it holds. -/
structure Tx (S : Signature) where
  start : Time
  writes : S.State → S.State
  locks : List S.Lock

/-- A connection to the store: the committed contents, the open transaction if there is one, who
is connected, how many draws it made and the effects seen outside. -/
structure Conn (S : Signature) where
  db : S.State
  tx : Option (Tx S)
  process : ℕ
  draws : ℕ
  events : List S.Event

namespace Conn

/-- The contents a statement sees: the committed ones, with the writes of its own transaction. -/
def view (c : Conn S) : S.State :=
  match c.tx with
  | some t => t.writes c.db
  | none => c.db

/-- `now()`: fixed when the transaction starts. -/
def now (c : Conn S) (clock : Time) : Time :=
  match c.tx with
  | some t => t.start
  | none => clock

def held (c : Conn S) : List S.Lock :=
  match c.tx with
  | some t => t.locks
  | none => []

def nextDraw (c : Conn S) : Draw := ⟨c.process, c.draws⟩

/-- Apply a change where statements write, to the open transaction or at once, and keep the locks
it needed until the transaction ends. -/
def write (c : Conn S) (locks : List S.Lock) (e : S.State → S.State) : Conn S :=
  match c.tx with
  | some t =>
    { c with
      tx := some { t with writes := fun d => e (t.writes d), locks := t.locks ++ locks }
      draws := c.draws + 1 }
  | none => { c with db := e c.db, draws := c.draws + 1 }

/-- Send one statement. -/
def send (c : Conn S) (clock : Time) (s : Statement S β) : β × Conn S :=
  let r := s.run (c.now clock) c.nextDraw c.view
  (r.2, c.write (s.locks (c.now clock) c.view) r.1)

@[simp] lemma send_select (c : Conn S) (clock : Time) (label : S.Label)
    (read : Time → S.State → β) :
    c.send clock (.select label read) =
      (read (c.now clock) c.view, { c with draws := c.draws + 1 }) := by
  obtain ⟨db, _ | t, process, draws, events⟩ := c
  · rfl
  · simp [send, write, Statement.select, view, now]

end Conn

/-- The next operation of a program. A transaction still open when the program returns is dropped
with everything it wrote. -/
def next (env : Env S) : Program S α → Conn S → Program S α × Conn S
  | ret a, c => (ret a, { c with tx := none })
  | stmt s k, c => (k (c.send env.now s).1, (c.send env.now s).2)
  | utcNow k, c => (k env.utc, c)
  | draw k, c => (k c.nextDraw, { c with draws := c.draws + 1 })
  | ask q k, c => (k (env.reply q), c)
  | emit e k, c => (k, { c with events := c.events ++ [e] })
  | begin k, c => (k, { c with tx := some ⟨env.now, fun d => d, []⟩ })
  | commit k, c => (k, { c with db := c.view, tx := none })
  | rollback k, c => (k, { c with tx := none })

/-- Run a program with nobody else using the store. -/
def exec (env : Env S) : Program S α → Conn S → α × Conn S
  | ret a, c => (a, c)
  | stmt s k, c => (k (c.send env.now s).1).exec env (c.send env.now s).2
  | utcNow k, c => (k env.utc).exec env c
  | draw k, c => (k c.nextDraw).exec env { c with draws := c.draws + 1 }
  | ask q k, c => (k (env.reply q)).exec env c
  | emit e k, c => k.exec env { c with events := c.events ++ [e] }
  | begin k, c => k.exec env { c with tx := some ⟨env.now, fun d => d, []⟩ }
  | commit k, c => k.exec env { c with db := c.view, tx := none }
  | rollback k, c => k.exec env { c with tx := none }

@[simp] lemma exec_ret (env : Env S) (a : α) (c : Conn S) : (ret a).exec env c = (a, c) := rfl

@[simp] lemma exec_query (env : Env S) (s : Statement S β) (c : Conn S) :
    (query s).exec env c = c.send env.now s := rfl

@[simp] lemma exec_clock (env : Env S) (c : Conn S) :
    (clock : Program S Time).exec env c = (env.utc, c) := rfl

@[simp] lemma exec_fresh (env : Env S) (c : Conn S) :
    (fresh : Program S Draw).exec env c = (c.nextDraw, { c with draws := c.draws + 1 }) := rfl

@[simp] lemma exec_inquire (env : Env S) (q : S.Question) (c : Conn S) :
    (inquire q).exec env c = (env.reply q, c) := rfl

@[simp] lemma exec_signal (env : Env S) (e : S.Event) (c : Conn S) :
    (signal e).exec env c = ((), { c with events := c.events ++ [e] }) := rfl

@[simp] lemma exec_start (env : Env S) (c : Conn S) :
    (start : Program S Unit).exec env c =
      ((), { c with tx := some ⟨env.now, fun d => d, []⟩ }) := rfl

@[simp] lemma exec_finish (env : Env S) (c : Conn S) :
    (finish : Program S Unit).exec env c = ((), { c with db := c.view, tx := none }) := rfl

@[simp] lemma exec_abandon (env : Env S) (c : Conn S) :
    (abandon : Program S Unit).exec env c = ((), { c with tx := none }) := rfl

/-- The outcome of a whole run: the answer, the committed contents and the effects. -/
structure Outcome (S : Signature) (α : Type) where
  answer : α
  db : S.State
  events : List S.Event

/-- Run a program from its first operation, as process `process`. -/
def serve (env : Env S) (process : ℕ) (p : Program S α) (db : S.State) : Outcome S α :=
  let (answer, c) := p.exec env ⟨db, none, process, 0, []⟩
  ⟨answer, c.db, c.events⟩

end Program

end Transaction
