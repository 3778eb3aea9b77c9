import Bauth.Transition.System
import Bauth.Model.Server
import Mathlib.Data.List.Sort

/-!
# The keys that sign access tokens

`ensure_and_load`, `rotate_if_due` and the purge of the keys, one statement at a time over one
table. A rotation is one transaction: nobody sees what it writes before it commits.
-/

namespace Bauth

open Transaction Transition

/-- Not retired at `t`. -/
def SigningKeyRow.outlasts (row : SigningKeyRow) (t : Time) : Bool :=
  row.retiredAt.all fun retiredAt => t < retiredAt

/-- The key signs at `now`. -/
def SigningKeyRow.canSign (row : SigningKeyRow) (now : Time) : Bool :=
  row.activeAt ≤ now && row.outlasts now

namespace Keys

def rotationInterval : Time := days 30

def prepublication : Time := hours 24

def retiredKeyGrace : Time := hours 24

/-- How long the purge keeps a retired key. -/
def retention : Time := days 30

def seedLen : ℕ := 32

/-- What `generate` and the master key make: of a new identifier its key pair, of a seed what is
stored, and back. -/
structure Vault where
  showUuid : Uuid → String
  seed : Uuid → Bytes
  publicKey : Uuid → Bytes
  encrypt : Bytes → Uuid → Bytes
  decrypt : Bytes → Uuid → Option Bytes

/-- The row of a key created with `kid`, to sign from `activeAt` on. -/
def Vault.newRow (v : Vault) (kid : Uuid) (activeAt : Time) : SigningKeyRow where
  id := kid
  publicKey := v.publicKey kid
  encryptedPrivateKey := v.encrypt (v.seed kid) kid
  activeAt := activeAt
  retiredAt := none

/-! ### The queries -/

/-- `ORDER BY active_at DESC`. -/
def newestFirst : List SigningKeyRow → List SigningKeyRow :=
  List.insertionSort fun a b => b.activeAt ≤ a.activeAt

def listPublished (rows : List SigningKeyRow) (now grace : Time) : List SigningKeyRow :=
  newestFirst (rows.filter fun row => row.outlasts (now - grace))

/-- The rows that `retire_all_except` finds. -/
def toRetire (rows : List SigningKeyRow) (keep : Uuid) (retiredAt : Time) : List Uuid :=
  (rows.filter fun row => row.id ≠ keep && row.outlasts retiredAt).map SigningKeyRow.id

def retire (ids : List Uuid) (retiredAt : Time) (row : SigningKeyRow) : SigningKeyRow :=
  if row.id ∈ ids then { row with retiredAt := some retiredAt } else row

/-- `DELETE … WHERE retired_at < now() - interval '30 days'`. -/
def purge (rows : List SigningKeyRow) (now : Time) : List SigningKeyRow :=
  rows.filter fun row => !row.retiredAt.any fun retiredAt => retiredAt < now - retention

/-! ### Loading -/

def decryptKey (v : Vault) (row : SigningKeyRow) : Option LoadedKey := do
  let seed ← v.decrypt row.encryptedPrivateKey row.id
  if seed.length ≠ seedLen then none
  else some { kid := row.id, encodingKey := seed, activeAt := row.activeAt, retiredAt := row.retiredAt }

/-- Decrypt every row, or fail. -/
def decryptKeys (v : Vault) : List SigningKeyRow → Option (List LoadedKey)
  | [] => some []
  | row :: rows => do return (← decryptKey v row) :: (← decryptKeys v rows)

def jwk (v : Vault) (row : SigningKeyRow) : String × Bytes := (v.showUuid row.id, row.publicKey)

/-- `SigningKeys::load` with the rows that its query returns. -/
def load (v : Vault) (rows : List SigningKeyRow) (now : Time) : Option SigningKeys := do
  let published := listPublished rows now retiredKeyGrace
  let keys ← decryptKeys v (published.filter fun row => row.outlasts now)
  return { keys, jwks := published.map (jwk v) }

/-! ### The processes -/

/-- How far one call of `ensure_and_load` or of `rotate_if_due` got. A key set comes with the time
of its load. -/
inductive Proc where
  | loading
  /-- `Utc::now()` of `load` is taken. -/
  | querying (now : Time)
  | checking (keys : SigningKeys) (loadedAt : Time)
  | inserting (row : SigningKeyRow)
  | reloading
  | requerying (now : Time)
  | loaded (keys : SigningKeys) (loadedAt : Time)
  | starting
  | locked
  | listing (now : Time)
  | due (now : Time)
  | inserted (now : Time) (row : SigningKeyRow)
  | retiring (now : Time) (row : SigningKeyRow) (ids : List Uuid)
  | rotated (kid : Option Uuid)
  /-- It returned an error, or was dropped. -/
  | failed
  deriving DecidableEq

/-- It holds the advisory lock. -/
def Proc.isRotating : Proc → Bool
  | locked | listing _ | due _ | inserted .. | retiring .. => true
  | _ => false

/-- It returned. -/
def Proc.isDone : Proc → Bool
  | loaded .. | rotated _ | failed => true
  | _ => false

structure State where
  clock : Time
  rows : List SigningKeyRow
  /-- The identifiers drawn so far are those below. -/
  drawn : Uuid
  procs : List Proc
  deriving DecidableEq

inductive Action where
  | tick (time : Time)
  | ensureAndLoad
  | rotateIfDue
  | purge
  /-- A process goes on. -/
  | advance (proc : ℕ)
  /-- It fails, and its transaction is rolled back. -/
  | abort (proc : ℕ)
  deriving DecidableEq

def State.set (s : State) (i : ℕ) (p : Proc) : State := { s with procs := s.procs.set i p }

/-- The advisory lock is taken. -/
def State.isLocked (s : State) : Bool := s.procs.any Proc.isRotating

/-- The decision of `rotate_if_due`. -/
def isDue (rows : List SigningKeyRow) (now : Time) : Bool :=
  let published := listPublished rows now retiredKeyGrace
  let pending := published.any fun row => now < row.activeAt
  let current := published.find? fun row => row.canSign now
  let due := current.all fun key => rotationInterval ≤ now - key.activeAt
  !pending && due

/-- The next statement of process `i`. -/
def advance (v : Vault) (s : State) (i : ℕ) : Proc → Option State
  | .loading => some (s.set i (.querying s.clock))
  | .querying now =>
    match load v s.rows now with
    | some keys => some (s.set i (.checking keys now))
    | none => some (s.set i .failed)
  | .checking keys loadedAt =>
    if (keys.signingKey s.clock).isSome then some (s.set i (.loaded keys loadedAt))
    else
      let row := v.newRow s.drawn s.clock
      some ({ s with drawn := s.drawn + 1 }.set i (.inserting row))
  | .inserting row => some ({ s with rows := s.rows ++ [row] }.set i .reloading)
  | .reloading => some (s.set i (.requerying s.clock))
  | .requerying now =>
    match load v s.rows now with
    | some keys => some (s.set i (.loaded keys now))
    | none => some (s.set i .failed)
  | .loaded _ _ => none
  | .starting => some (s.set i (if s.isLocked then .rotated none else .locked))
  | .locked => some (s.set i (.listing s.clock))
  | .listing now => some (s.set i (if isDue s.rows now then .due now else .rotated none))
  | .due now =>
    let row := v.newRow s.drawn (now + prepublication)
    some ({ s with drawn := s.drawn + 1 }.set i (.inserted now row))
  | .inserted now row =>
    some (s.set i (.retiring now row (toRetire s.rows row.id (now + prepublication))))
  | .retiring now row ids =>
    let rows := s.rows.map (retire ids (now + prepublication)) ++ [row]
    some ({ s with rows }.set i (.rotated (some row.id)))
  | .rotated _ => none
  | .failed => none

def step (v : Vault) (s : State) : Action → Option State
  | .tick time => if s.clock ≤ time then some { s with clock := time } else none
  | .ensureAndLoad => some { s with procs := s.procs ++ [.loading] }
  | .rotateIfDue => some { s with procs := s.procs ++ [.starting] }
  | .purge => some { s with rows := purge s.rows s.clock }
  | .advance i =>
    match s.procs[i]? with
    | some p => advance v s i p
    | none => none
  | .abort i =>
    match s.procs[i]? with
    | some p => if p.isDone then none else some (s.set i .failed)
    | none => none

def system (v : Vault) : System State Action := ⟨step v⟩

/-- A database without keys. -/
def empty (clock : Time) : State := { clock, rows := [], drawn := 0, procs := [] }

end Keys

end Bauth
