import Bauth.Queries.Users

/-!
# `jobs::purge`

Deletes rows that stopped being useful. A `DELETE … WHERE id IN (SELECT …)` computes the
identifiers from its snapshot, then deletes the rows one after the other, each once it is locked;
all of them in the transaction of the statement.
-/

namespace Bauth

open Transaction

namespace Purge

/-- Rows per `DELETE`. -/
def batchSize : ℕ := 1000

structure PurgeReport where
  loginFlows : ℕ
  emailChanges : ℕ
  confirmations : ℕ
  sessions : ℕ
  signingKeys : ℕ
  unverifiedUsers : ℕ
  deriving DecidableEq

/-- Delete the row `id` through `del`, if it is still there when its turn comes. Answers whether
it was. -/
def deleteRow (present : Database → Uuid → Bool) (del : Uuid → Database → Database)
    (id : Uuid) : Statement sig Bool where
  label := .purgeDelete
  locks _ d := d.lost (del id d)
  run _ _ d := if present d id then (del id, true) else (fun d => d, false)

/-- The row is deleted, or was gone. -/
lemma deleteRow_cases {present : Database → Uuid → Bool} {del : Uuid → Database → Database}
    {id : Uuid} {now : Time} {n : Draw} {v d : Database} {P : Database → Prop}
    (hdel : P (del id d)) (hgone : P d) : P (((deleteRow present del id).run now n v).1 d) := by
  simp only [deleteRow]
  split
  · exact hdel
  · exact hgone

/-- Delete the selected rows and count them. -/
def deleteEach (present : Database → Uuid → Bool) (del : Uuid → Database → Database) :
    List Uuid → Program sig ℕ
  | [] => return 0
  | id :: ids => do
    let deleted ← Program.query (deleteRow present del id)
    let n ← deleteEach present del ids
    return (if deleted then n + 1 else n)

/-- One `DELETE` over the identifiers that `select` finds, `batchSize` of them at most. -/
def deleteBatch (select : Time → Database → List Uuid) (present : Database → Uuid → Bool)
    (del : Uuid → Database → Database) : Program sig ℕ := do
  Program.start
  let ids ← Program.query (.select .purgeSelect fun now (d : Database) =>
    (select now d).take batchSize)
  let n ← deleteEach present del ids
  Program.finish
  return n

/-- Repeats a batched `DELETE` until a batch comes back short. Returns the total deleted, `none`
if `fuel` batches were all full. -/
def inBatches (batch : Program sig ℕ) : ℕ → ℕ → Program sig (Option ℕ)
  | 0, _ => return none
  | fuel + 1, total => do
    let deleted ← batch
    if deleted < batchSize then return some (total + deleted)
    inBatches batch fuel (total + deleted)

/-- `expires_at < now() - ttl OR used_at < now() - ttl`. -/
def past (ttl now expiresAt : Time) (usedAt : Option Time) : Bool :=
  expiresAt < now - ttl || usedAt.any fun t => t < now - ttl

def loginFlows : Program sig ℕ :=
  deleteBatch
    (fun now d => (d.loginFlows.filter fun f => f.expiresAt < now - days 1).map LoginFlow.id)
    (fun d id => d.loginFlows.any fun f => f.id = id)
    (fun id => Database.deleteLoginFlows fun f => f.id = id)

def emailChanges : Program sig ℕ :=
  deleteBatch
    (fun now d => (d.emailChanges.filter fun c =>
      past (days 7) now c.expiresAt c.consumedAt).map EmailChange.id)
    (fun d id => d.emailChanges.any fun c => c.id = id)
    (fun id d => { d with emailChanges := d.emailChanges.filter fun c => c.id ≠ id })

def confirmations : Program sig ℕ :=
  deleteBatch
    (fun now d => (d.confirmations.filter fun c =>
      past (days 7) now c.expiresAt c.consumedAt).map Confirmation.id)
    (fun d id => d.confirmations.any fun c => c.id = id)
    (fun id d => { d with confirmations := d.confirmations.filter fun c => c.id ≠ id })

def sessions : Program sig ℕ :=
  deleteBatch
    (fun now d => (d.sessions.filter fun s =>
      past (days 30) now s.expiresAt s.revokedAt).map Session.id)
    (fun d id => d.sessions.any fun s => s.id = id)
    (fun id => Database.deleteSessions fun s => s.id = id)

def unverifiedUsers : Program sig ℕ :=
  deleteBatch
    (fun now d => (d.users.filter fun u =>
      u.emailVerifiedAt.isNone && u.createdAt < now - days 7).map User.id)
    (fun d id => d.users.any fun u => u.id = id)
    (fun id => Database.deleteUsers fun u => u.id = id)

/-- `DELETE FROM bauth.signing_keys WHERE retired_at < now() - interval '30 days'`. -/
def signingKeys : Statement sig ℕ where
  label := .purgeDelete
  locks now d :=
    (d.signingKeys.filter fun k => k.retiredAt.any fun t => t < now - days 30).map fun k =>
      (.signingKey k.id, .update)
  run now _ d :=
    (fun d => { d with
      signingKeys := d.signingKeys.filter fun k => !k.retiredAt.any fun t => t < now - days 30 },
      (d.signingKeys.filter fun k => k.retiredAt.any fun t => t < now - days 30).length)

/-- `purge`, each loop stopped after `fuel` batches. -/
def purge (fuel : ℕ) : Program sig (Option PurgeReport) := do
  let some loginFlows ← inBatches loginFlows fuel 0 | return none
  let some emailChanges ← inBatches emailChanges fuel 0 | return none
  let some confirmations ← inBatches confirmations fuel 0 | return none
  let some sessions ← inBatches sessions fuel 0 | return none
  let some unverifiedUsers ← inBatches unverifiedUsers fuel 0 | return none
  let signingKeys ← Program.query signingKeys
  return some { loginFlows, emailChanges, confirmations, sessions, signingKeys, unverifiedUsers }

end Purge

end Bauth
