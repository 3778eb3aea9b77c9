import Bauth.Transaction.Program
import Bauth.Transition.System

/-!
# Programs side by side

A pool runs programs over one store, one operation of one of them at a time. A statement waits
while another transaction holds a lock that conflicts with those it needs; then it sees what is
committed, and the writes of its own transaction. A program whose connection is dropped loses its
transaction.
-/

namespace Transaction

open Transition Program

/-- What a statement saw: `now()`, and the committed contents. -/
structure Sight (S : Signature) where
  label : S.Label
  now : Time
  db : S.State

/-- Where a program stands: its transaction, its draws and effects so far, and what its statements
saw. -/
structure Place (S : Signature) where
  tx : Option (Tx S) := none
  draws : ℕ := 0
  events : List S.Event := []
  sights : List (Sight S) := []

namespace Place

variable {S : Signature}

/-- The connection of process `i`. -/
def conn (L : Place S) (i : ℕ) (db : S.State) : Conn S := ⟨db, L.tx, i, L.draws, L.events⟩

/-- After an operation on that connection. -/
def after (L : Place S) (c : Conn S) : Place S :=
  { L with tx := c.tx, draws := c.draws, events := c.events }

def held (L : Place S) : List S.Lock :=
  match L.tx with
  | some t => t.locks
  | none => []

end Place

/-- A program serving a request; without a program once its connection was dropped. -/
structure Proc (S : Signature) (ι α : Type) where
  request : ι
  program : Option (Program S α)
  place : Place S

structure Pool (S : Signature) (ι α : Type) where
  clock : Time
  db : S.State
  procs : List (Proc S ι α)

namespace Program

variable {S : Signature} {α : Type}

/-- The locks that the next operation needs. -/
def needs (c : Conn S) (clock : Time) : Program S α → List S.Lock
  | stmt st _ => st.locks (c.now clock) c.view
  | _ => []

/-- What the next operation sees, if it is a statement. -/
def sees (c : Conn S) (clock : Time) : Program S α → List (Sight S)
  | stmt st _ => [⟨st.label, c.now clock, c.db⟩]
  | _ => []

end Program

namespace Pool

variable {S : Signature} {ι α : Type}

inductive Action (S : Signature) (ι : Type) where
  | tick (time : Time)
  | spawn (request : ι)
  | advance (i : ℕ) (reply : (q : S.Question) → S.Reply q)
  | drop (i : ℕ)

/-- Another transaction holds a lock that conflicts with one of `locks`. -/
def waits (s : Pool S ι α) (i : ℕ) (locks : List S.Lock) : Bool :=
  (s.procs.eraseIdx i).any fun q => q.place.held.any fun m => locks.any fun l => S.conflict m l

def set (s : Pool S ι α) (i : ℕ) (p : Proc S ι α) : Pool S ι α :=
  { s with procs := s.procs.set i p }

/-- The next operation of process `i`. -/
def operate (s : Pool S ι α) (i : ℕ) (reply : (q : S.Question) → S.Reply q) (p : Proc S ι α)
    (program : Program S α) : Pool S ι α :=
  let c := p.place.conn i s.db
  let r := program.next ⟨s.clock, s.clock, reply⟩ c
  let L := { p.place.after r.2 with sights := p.place.sights ++ program.sees c s.clock }
  { s with db := r.2.db }.set i { p with program := some r.1, place := L }

def step (handle : ι → Program S α) (s : Pool S ι α) : Action S ι → Option (Pool S ι α)
  | .tick time => if s.clock ≤ time then some { s with clock := time } else none
  | .spawn request =>
    some { s with procs := s.procs ++ [⟨request, some (handle request), {}⟩] }
  | .advance i reply =>
    match s.procs[i]? with
    | none => none
    | some p =>
      match p.program with
      | none => none
      | some program =>
        if s.waits i (program.needs (p.place.conn i s.db) s.clock) then none
        else some (s.operate i reply p program)
  | .drop i =>
    match s.procs[i]? with
    | none => none
    | some p => some (s.set i { p with program := none, place := { p.place with tx := none } })

def system (handle : ι → Program S α) : System (Pool S ι α) (Action S ι) := ⟨step handle⟩

/-- What a step of a pool does, with what it depends on. -/
inductive Steps (handle : ι → Program S α) (s : Pool S ι α) : Action S ι → Pool S ι α → Prop
  | tick {time : Time} (h : s.clock ≤ time) : Steps handle s (.tick time) { s with clock := time }
  | spawn (request : ι) : Steps handle s (.spawn request)
      { s with procs := s.procs ++ [⟨request, some (handle request), {}⟩] }
  | advance {i : ℕ} (reply : (q : S.Question) → S.Reply q) {p : Proc S ι α}
      {program : Program S α} (hi : s.procs[i]? = some p) (hp : p.program = some program)
      (hwaits : s.waits i (program.needs (p.place.conn i s.db) s.clock) = false) :
      Steps handle s (.advance i reply) (s.operate i reply p program)
  | drop {i : ℕ} {p : Proc S ι α} (hi : s.procs[i]? = some p) : Steps handle s (.drop i)
      (s.set i { p with program := none, place := { p.place with tx := none } })

lemma steps_of_step {handle : ι → Program S α} {s s' : Pool S ι α} {a : Action S ι}
    (h : step handle s a = some s') : Steps handle s a s' := by
  cases a with
  | tick time =>
    simp only [step, Option.ite_none_right_eq_some, Option.some.injEq] at h
    obtain ⟨hle, rfl⟩ := h
    exact .tick hle
  | spawn request =>
    simp only [step, Option.some.injEq] at h
    rw [← h]
    exact .spawn request
  | advance i reply =>
    simp only [step] at h
    split at h
    · cases h
    · rename_i p hi
      split at h
      · cases h
      · rename_i program hp
        split_ifs at h with hwaits
        rw [← Option.some.inj h]
        exact .advance reply hi hp (by simpa using hwaits)
  | drop i =>
    simp only [step] at h
    split at h
    · cases h
    · rename_i p hi
      rw [← Option.some.inj h]
      exact .drop hi

/-- A pool without programs. -/
def start (clock : Time) (db : S.State) : Pool S ι α := ⟨clock, db, []⟩

end Pool

/-- The answer of a process. -/
def Proc.answer {S : Signature} {ι α : Type} (p : Proc S ι α) : Option α :=
  match p.program with
  | some (.ret a) => some a
  | _ => none

end Transaction
