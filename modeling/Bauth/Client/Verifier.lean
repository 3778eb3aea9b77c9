import Bauth.Transition.System
import Bauth.Model.Server

/-!
# `bauth_client::Verifier`

The key cache of a verifier and the calls going through its lock. A call first looks for its key
under the read lock; failing that it waits for the write lock, under which it may fetch the JWKS.
Readers hold their lock for an instant only, the writer as long as its fetch.
-/

namespace Bauth

open Transaction Transition

namespace Verifier

def jwksMaxAge : Time := seconds (60 * 60)

def minRefetchInterval : Time := seconds 30

def httpTimeout : Time := seconds 5

inductive VerifyError where
  | malformed
  | unknownKey
  | jwks
  deriving DecidableEq, Repr

/-- A served key: its `kid`, and what `DecodingKey::from_jwk` makes of it. -/
structure Jwk where
  keyId : Option String
  decodingKey : Option Bytes
  deriving DecidableEq, Repr

abbrev JwkSet := List Jwk

/-- The pairs `KeyCache::replace` collects. -/
def JwkSet.pairs (jwks : JwkSet) : List (String × Bytes) :=
  jwks.filterMap fun jwk => do return (← jwk.keyId, ← jwk.decodingKey)

/-- Reading a `HashMap` collected from pairs: the last pair of a key counts. -/
def lookup (keys : List (String × Bytes)) (kid : String) : Option Bytes :=
  (keys.reverse.find? fun k => k.1 = kid).map Prod.snd

structure KeyCache where
  keys : List (String × Bytes) := []
  fetchedAt : Option Time := none
  deriving DecidableEq, Repr

namespace KeyCache

def isStale (c : KeyCache) (now : Time) : Bool :=
  c.fetchedAt.all fun t => jwksMaxAge ≤ now - t

def canRefetch (c : KeyCache) (now : Time) : Bool :=
  c.fetchedAt.all fun t => minRefetchInterval ≤ now - t

def replace (jwks : JwkSet) (now : Time) : KeyCache where
  keys := jwks.pairs
  fetchedAt := some now

def get (c : KeyCache) (kid : String) : Option Bytes := lookup c.keys kid

/-- Does a call for `kid` need the JWKS again? -/
def needsRefresh (c : KeyCache) (kid : String) (now : Time) : Bool :=
  c.isStale now || (c.get kid).isNone

/-- The last line of `decoding_key`. -/
def answer (c : KeyCache) (kid : String) : Except VerifyError Bytes :=
  match c.get kid with
  | some key => .ok key
  | none => .error .unknownKey

end KeyCache

/-- How far one call of `decoding_key` got. -/
inductive Call where
  | reading (kid : String)
  | waiting (kid : String)
  | fetching (kid : String) (startedAt : Time)
  | answered (result : Except VerifyError Bytes)
  deriving DecidableEq

def Call.isFetching : Call → Bool
  | fetching .. => true
  | _ => false

/-- The `kid` of a token that may be an access token (`verify`). -/
def kidOf (header : Option TokenHeader) : Option String := do
  let header ← header
  if header.alg ≠ "EdDSA" || header.typ ≠ some "at+jwt" then none else header.kid

structure State where
  clock : Time
  cache : KeyCache
  calls : List Call
  deriving DecidableEq

/-- The write lock is held. -/
def State.busy (s : State) : Bool := s.calls.any Call.isFetching

inductive Action where
  | tick (time : Time)
  /-- A call of `verify`, with the header of its token if it has one. -/
  | verify (header : Option TokenHeader)
  /-- Call number `call` gets the read lock. -/
  | read (call : ℕ)
  /-- It gets the write lock. -/
  | write (call : ℕ)
  /-- Its fetch ends: with a JWKS, or with an error. -/
  | fetched (call : ℕ) (outcome : Option JwkSet)
  deriving DecidableEq

/-- The call goes on. -/
def State.set (s : State) (i : ℕ) (c : Call) : State := { s with calls := s.calls.set i c }

/-- `decoding_key` under the read lock. -/
def readStep (s : State) (i : ℕ) (kid : String) : State :=
  match s.cache.get kid with
  | some key => if s.cache.isStale s.clock then s.set i (.waiting kid) else
      s.set i (.answered (.ok key))
  | none => s.set i (.waiting kid)

/-- `decoding_key` once it has the write lock: fetch, or answer from the cache. -/
def writeStep (s : State) (i : ℕ) (kid : String) : State :=
  if s.cache.needsRefresh kid s.clock && s.cache.canRefetch s.clock then
    s.set i (.fetching kid s.clock)
  else s.set i (.answered (s.cache.answer kid))

/-- `decoding_key` when its fetch ends. -/
def fetchedStep (s : State) (i : ℕ) (kid : String) : Option JwkSet → State
  | some jwks =>
    let cache := KeyCache.replace jwks s.clock
    { s.set i (.answered (cache.answer kid)) with cache }
  -- bauth unreachable: keep verifying with the keys we already have
  | none =>
    if s.cache.keys.isEmpty then s.set i (.answered (.error .jwks))
    else s.set i (.answered (s.cache.answer kid))

def step (s : State) : Action → Option State
  | .tick time => if s.clock ≤ time then some { s with clock := time } else none
  | .verify header =>
    let call := match kidOf header with
      | some kid => .reading kid
      | none => .answered (.error .malformed)
    some { s with calls := s.calls ++ [call] }
  | .read i =>
    match s.calls[i]? with
    | some (.reading kid) => if s.busy then none else some (readStep s i kid)
    | _ => none
  | .write i =>
    match s.calls[i]? with
    | some (.waiting kid) => if s.busy then none else some (writeStep s i kid)
    | _ => none
  | .fetched i outcome =>
    match s.calls[i]? with
    | some (.fetching kid _) => some (fetchedStep s i kid outcome)
    | _ => none

def system : System State Action := ⟨step⟩

/-- A verifier just made (`Verifier::new`). -/
def new (clock : Time) : State := { clock, cache := {}, calls := [] }

/-- What a step of the verifier does, with what it depends on. -/
inductive Steps (s : State) : Action → State → Prop
  | tick {time : Time} (h : s.clock ≤ time) : Steps s (.tick time) { s with clock := time }
  | verify {header : Option TokenHeader} (c : Call) (hc : c.isFetching = false) :
      Steps s (.verify header) { s with calls := s.calls ++ [c] }
  | found {i : ℕ} {kid : String} {key : Bytes} (hi : s.calls[i]? = some (.reading kid))
      (hbusy : s.busy = false) (hkey : s.cache.get kid = some key)
      (hfresh : s.cache.isStale s.clock = false) :
      Steps s (.read i) (s.set i (.answered (.ok key)))
  | queued {i : ℕ} {kid : String} (hi : s.calls[i]? = some (.reading kid))
      (hbusy : s.busy = false) : Steps s (.read i) (s.set i (.waiting kid))
  | attempt {i : ℕ} {kid : String} (hi : s.calls[i]? = some (.waiting kid))
      (hbusy : s.busy = false) (hneeds : s.cache.needsRefresh kid s.clock = true)
      (hcan : s.cache.canRefetch s.clock = true) :
      Steps s (.write i) (s.set i (.fetching kid s.clock))
  | cached {i : ℕ} {kid : String} (hi : s.calls[i]? = some (.waiting kid))
      (hbusy : s.busy = false)
      (hno : ¬(s.cache.needsRefresh kid s.clock = true ∧ s.cache.canRefetch s.clock = true)) :
      Steps s (.write i) (s.set i (.answered (s.cache.answer kid)))
  | replaced {i : ℕ} {kid : String} {start : Time} (hi : s.calls[i]? = some (.fetching kid start))
      (jwks : JwkSet) : Steps s (.fetched i (some jwks))
        { s.set i (.answered ((KeyCache.replace jwks s.clock).answer kid)) with
          cache := KeyCache.replace jwks s.clock }
  | failed {i : ℕ} {kid : String} {start : Time} (hi : s.calls[i]? = some (.fetching kid start))
      (c : Call) (hc : c = .answered (.error .jwks) ∨ c = .answered (s.cache.answer kid)) :
      Steps s (.fetched i none) (s.set i c)

lemma steps_of_step {s s' : State} {a : Action} (h : step s a = some s') : Steps s a s' := by
  cases a with
  | tick time =>
    simp only [step, Option.ite_none_right_eq_some, Option.some.injEq] at h
    obtain ⟨hle, rfl⟩ := h
    exact .tick hle
  | verify header =>
    simp only [step, Option.some.injEq] at h
    rw [← h]
    refine .verify _ ?_
    cases kidOf header <;> rfl
  | read i =>
    simp only [step] at h
    split at h
    · rename_i kid hi
      obtain ⟨hbusy, rfl⟩ := by simpa using h
      unfold readStep
      split
      · rename_i key hkey
        by_cases hstale : s.cache.isStale s.clock = true
        · rw [if_pos hstale]
          exact .queued hi hbusy
        · rw [if_neg hstale]
          exact .found hi hbusy hkey (by simpa using hstale)
      · exact .queued hi hbusy
    · cases h
  | write i =>
    simp only [step] at h
    split at h
    · rename_i kid hi
      obtain ⟨hbusy, rfl⟩ := by simpa using h
      unfold writeStep
      split_ifs with hfetch
      · obtain ⟨hneeds, hcan⟩ := by simpa using hfetch
        exact .attempt hi hbusy hneeds hcan
      · exact .cached hi hbusy (by simpa using hfetch)
    · cases h
  | fetched i outcome =>
    simp only [step] at h
    split at h
    · rename_i kid start hi
      obtain rfl := Option.some.inj h
      cases outcome with
      | some jwks => exact .replaced hi jwks
      | none =>
        unfold fetchedStep
        dsimp only
        split_ifs
        · exact .failed hi _ (.inl rfl)
        · exact .failed hi _ (.inr rfl)
    · cases h

end Verifier

end Bauth
