import Bauth.Client.Refetch
import Mathlib.Tactic.Linarith

/-!
# What a verifier answers

The cache is what the last successful fetch returned. A call that finds it stale fetches before it
answers, so that an answer is older than `jwksMaxAge` only when its own fetch failed; and a key is
unknown only to a call that fetched, or that was kept from it by a recent fetch.
-/

namespace Bauth

open Transaction Transition

namespace Verifier

/-! ### Looking a key up -/

/-- A key for `kid` is among the served ones. -/
def JwkSet.Serves (jwks : JwkSet) (kid : String) : Prop :=
  ∃ jwk ∈ jwks, jwk.keyId = some kid ∧ jwk.decodingKey.isSome = true

lemma JwkSet.mem_pairs {jwks : JwkSet} {kid : String} {key : Bytes} :
    (kid, key) ∈ jwks.pairs ↔ ∃ jwk ∈ jwks, jwk.keyId = some kid ∧ jwk.decodingKey = some key := by
  rw [JwkSet.pairs, List.mem_filterMap]
  refine exists_congr fun jwk => and_congr_right fun _ => ?_
  cases jwk.keyId <;> cases jwk.decodingKey <;> simp

lemma lookup_isSome {keys : List (String × Bytes)} {kid : String} :
    (lookup keys kid).isSome = true ↔ ∃ key, (kid, key) ∈ keys := by
  rw [lookup, Option.isSome_map, List.find?_isSome]
  constructor
  · rintro ⟨⟨k, key⟩, hmem, hk⟩
    obtain rfl : k = kid := of_decide_eq_true hk
    exact ⟨key, List.mem_reverse.mp hmem⟩
  · rintro ⟨key, hmem⟩
    exact ⟨(kid, key), List.mem_reverse.mpr hmem, decide_eq_true rfl⟩

lemma mem_of_lookup {keys : List (String × Bytes)} {kid : String} {key : Bytes}
    (h : lookup keys kid = some key) : (kid, key) ∈ keys := by
  obtain ⟨⟨k, _⟩, hfind, rfl⟩ := Option.map_eq_some_iff.mp h
  have hk := List.find?_some hfind
  obtain rfl : k = kid := of_decide_eq_true hk
  exact List.mem_reverse.mp (List.mem_of_find?_eq_some hfind)

/-- The cache of a fetch has the keys that were served. -/
lemma JwkSet.serves_iff {jwks : JwkSet} {kid : String} (now : Time) :
    jwks.Serves kid ↔ ((KeyCache.replace jwks now).get kid).isSome = true := by
  rw [KeyCache.get, KeyCache.replace, lookup_isSome]
  simp only [JwkSet.mem_pairs]
  constructor
  · rintro ⟨jwk, hmem, hkid, hkey⟩
    obtain ⟨key, hkey⟩ := Option.isSome_iff_exists.mp hkey
    exact ⟨key, jwk, hmem, hkid, hkey⟩
  · rintro ⟨key, jwk, hmem, hkid, hkey⟩
    exact ⟨jwk, hmem, hkid, by simp [hkey]⟩

lemma KeyCache.answer_ok {c : KeyCache} {kid : String} {key : Bytes} :
    c.answer kid = .ok key ↔ c.get kid = some key := by
  rw [KeyCache.answer]
  cases c.get kid <;> simp

lemma KeyCache.answer_error {c : KeyCache} {kid : String} {error : VerifyError}
    (h : c.answer kid = .error error) : c.get kid = none ∧ error = .unknownKey := by
  rw [KeyCache.answer] at h
  cases hget : c.get kid with
  | some key => simp [hget] at h
  | none =>
    rw [hget] at h
    exact ⟨rfl, (Except.error.inj h).symm⟩

/-- A stale cache is old enough to be fetched again. -/
lemma KeyCache.canRefetch_of_isStale {c : KeyCache} {now : Time} (h : c.isStale now = true) :
    c.canRefetch now = true := by
  rw [KeyCache.isStale, Option.all_eq_true] at h
  rw [KeyCache.canRefetch, Option.all_eq_true]
  intro t ht
  have hold := of_decide_eq_true (h t ht)
  exact decide_eq_true (le_trans (by decide) hold)

lemma KeyCache.lt_of_fresh {c : KeyCache} {now t : Time} (h : c.isStale now = false)
    (ht : c.fetchedAt = some t) : now - t < jwksMaxAge := by
  rw [KeyCache.isStale, ht] at h
  exact not_le.mp (of_decide_eq_false h)

/-! ### Answers and fetches -/

/-- The `kid` that a call still asks for. -/
def Call.asks : Call → Option String
  | reading kid => some kid
  | waiting kid => some kid
  | fetching kid _ => some kid
  | answered _ => none

namespace Taken

/-- The call `i` for `kid` is answered. -/
def Answers (p : Taken) (i : ℕ) (kid : String) (result : Except VerifyError Bytes) : Prop :=
  (∃ c, p.before.calls[i]? = some c ∧ c.asks = some kid) ∧
    p.after.calls[i]? = some (.answered result)

/-- A fetch succeeds with this JWKS. -/
def Fetches (p : Taken) (jwks : JwkSet) : Prop := ∃ j, p.action = .fetched j (some jwks)

end Taken

/-- The last successful fetch of these steps, and what it returned. -/
def LastFetch (steps : List Taken) (f : Taken) (jwks : JwkSet) : Prop :=
  ∃ l m, steps = l ++ f :: m ∧ f.Fetches jwks ∧ ∀ g ∈ m, ∀ jwks', ¬g.Fetches jwks'

/-- Every fetch ends within `httpTimeout`, and a JWKS that it returns was served meanwhile. -/
def FetchedFrom (served : Time → JwkSet) (steps : List Taken) : Prop :=
  ∀ f ∈ steps, ∀ i outcome kid start, f.action = .fetched i outcome →
    f.before.calls[i]? = some (.fetching kid start) →
    f.before.clock - start ≤ httpTimeout ∧
      ∀ jwks, outcome = some jwks → ∃ τ, start ≤ τ ∧ τ ≤ f.before.clock ∧ jwks = served τ

section Runs

variable {s : State} {l steps : List Taken} {p q : Taken} {i : ℕ} {kid : String}

/-- The cache is what the last successful fetch returned. -/
def CacheFrom (steps : List Taken) (c : KeyCache) : Prop :=
  c = {} ∨ ∃ f jwks, LastFetch steps f jwks ∧ f ∈ steps ∧ c = KeyCache.replace jwks f.before.clock

lemma LastFetch.snoc {f : Taken} {jwks : JwkSet} (h : LastFetch l f jwks)
    (hp : ∀ jwks', ¬p.Fetches jwks') : LastFetch (l ++ [p]) f jwks := by
  obtain ⟨before, after, rfl, hf, hnone⟩ := h
  refine ⟨before, after ++ [p], by simp, hf, fun g hg => ?_⟩
  rcases List.mem_append.mp hg with hg | hg
  · exact hnone g hg
  · rw [List.mem_singleton.mp hg]
    exact hp

lemma lastFetch_self {jwks : JwkSet} (h : p.Fetches jwks) : LastFetch (l ++ [p]) p jwks :=
  ⟨l, [], rfl, h, by simp⟩

lemma cacheFrom_of_run {clock : Time} (hrun : system.Run (new clock) steps s) :
    CacheFrom steps s.cache := by
  refine hrun.keeps_history (P := fun l s => CacheFrom l s.cache) (.inl rfl) ?_
  intro l (p : Taken) _ hp ih
  have hsteps := Taken.steps hp
  by_cases hfetches : ∃ jwks, p.Fetches jwks
  · obtain ⟨jwks, j, haction⟩ := hfetches
    refine .inr ⟨p, jwks, lastFetch_self ⟨j, haction⟩, by simp, ?_⟩
    rw [haction] at hsteps
    generalize p.after = after at hsteps
    cases hsteps with
    | replaced => rfl
  · have hnone : ∀ jwks', ¬p.Fetches jwks' := fun jwks' h => hfetches ⟨jwks', h⟩
    have hcache : p.after.cache = p.before.cache :=
      hsteps.cache_eq fun j jwks h => hnone jwks ⟨j, h⟩
    rw [hcache]
    rcases ih with hempty | ⟨f, jwks, hf, hmem, hsame⟩
    · exact .inl hempty
    · exact .inr ⟨f, jwks, hf.snoc hnone, List.mem_append_left _ hmem, hsame⟩

/-- How a call comes by its answer. -/
inductive Answered (s : State) (i : ℕ) (kid : String) (result : Except VerifyError Bytes) :
    Action → Prop
  | found (key : Bytes) (hkey : s.cache.get kid = some key)
      (hfresh : s.cache.isStale s.clock = false) (hresult : result = .ok key) :
      Answered s i kid result (.read i)
  | cached
      (hno : ¬(s.cache.needsRefresh kid s.clock = true ∧ s.cache.canRefetch s.clock = true))
      (hresult : result = s.cache.answer kid) : Answered s i kid result (.write i)
  | fetched {start : Time} (hi : s.calls[i]? = some (.fetching kid start))
      (jwks : JwkSet) (hresult : result = (KeyCache.replace jwks s.clock).answer kid) :
      Answered s i kid result (.fetched i (some jwks))
  | failed (hresult : result = .error .jwks ∨ result = s.cache.answer kid) :
      Answered s i kid result (.fetched i none)

lemma Taken.Answers.answered {result : Except VerifyError Bytes} (h : p.Answers i kid result)
    (hp : system.Takes p) : Answered p.before i kid result p.action := by
  obtain ⟨⟨c, hc, hasks⟩, hafter⟩ := h
  have hsteps := Taken.steps hp
  generalize p.action = action at hsteps
  generalize p.after = after at hsteps hafter
  -- the answered call is the one that goes on
  have hset : ∀ {j c' c''}, p.before.calls[j]? = some c' →
      (p.before.set j c'').calls[i]? = some (.answered result) →
      j = i ∧ c'' = .answered result ∧ c'.asks = some kid := by
    intro j c' c'' hj hi
    by_cases hji : j = i
    · subst hji
      rw [State.set_self hj] at hi
      obtain rfl := Option.some.inj (hc.symm.trans hj)
      exact ⟨rfl, Option.some.inj hi, hasks⟩
    · rw [State.set_ne hji, hc] at hi
      obtain rfl := Option.some.inj hi
      simp [Call.asks] at hasks
  cases hsteps with
  | tick =>
    obtain rfl := Option.some.inj (hc.symm.trans hafter)
    simp [Call.asks] at hasks
  | verify c' =>
    obtain ⟨hlt, -⟩ := List.getElem?_eq_some_iff.mp hc
    rw [List.getElem?_append_left hlt] at hafter
    obtain rfl := Option.some.inj (hc.symm.trans hafter)
    simp [Call.asks] at hasks
  | found hj _ hkey hfresh =>
    obtain ⟨rfl, hresult, hkid⟩ := hset hj hafter
    obtain rfl := Option.some.inj hkid
    exact .found _ hkey hfresh (Call.answered.inj hresult).symm
  | queued hj =>
    obtain ⟨-, hresult, -⟩ := hset hj hafter
    cases hresult
  | attempt hj =>
    obtain ⟨-, hresult, -⟩ := hset hj hafter
    cases hresult
  | cached hj _ hno =>
    obtain ⟨rfl, hresult, hkid⟩ := hset hj hafter
    obtain rfl := Option.some.inj hkid
    exact .cached hno (Call.answered.inj hresult).symm
  | replaced hj jwks =>
    obtain ⟨rfl, hresult, hkid⟩ := hset hj hafter
    obtain rfl := Option.some.inj hkid
    exact .fetched hj jwks (Call.answered.inj hresult).symm
  | failed hj c' hc' =>
    obtain ⟨rfl, rfl, hkid⟩ := hset hj hafter
    obtain rfl := Option.some.inj hkid
    refine .failed ?_
    rcases hc' with hc' | hc'
    · exact .inl (Call.answered.inj hc')
    · exact .inr (Call.answered.inj hc')

/-- A key comes from the last successful fetch. -/
lemma get_lastFetch {key : Bytes} (h : CacheFrom l p.before.cache)
    (hkey : p.before.cache.get kid = some key) (hp : ∀ jwks, ¬p.Fetches jwks) :
    ∃ f jwks, LastFetch (l ++ [p]) f jwks ∧ lookup jwks.pairs kid = some key ∧
      p.before.cache.fetchedAt = some f.before.clock := by
  rcases h with hempty | ⟨f, jwks, hf, -, hcache⟩
  · rw [hempty] at hkey
    cases hkey
  · refine ⟨f, jwks, hf.snoc hp, ?_, by rw [hcache]; rfl⟩
    rwa [hcache] at hkey

/-- An answered key is the one of the last successful fetch, and fresh unless the call's own fetch
failed. -/
lemma answers_fresh {key : Bytes} (hcache : CacheFrom l p.before.cache)
    (hanswers : p.Answers i kid (.ok key)) (hp : system.Takes p) :
    ∃ f jwks, LastFetch (l ++ [p]) f jwks ∧ lookup jwks.pairs kid = some key ∧
      (p.before.clock - f.before.clock < jwksMaxAge ∨ p.Fails i) := by
  have hanswered := hanswers.answered hp
  generalize haction : p.action = action at hanswered
  cases hanswered with
  | found key' hkey hfresh hresult =>
    obtain rfl := Except.ok.inj hresult
    have hnone : ∀ jwks, ¬p.Fetches jwks := by simp [Taken.Fetches, haction]
    obtain ⟨f, jwks, hf, hlookup, hat⟩ := get_lastFetch hcache hkey hnone
    exact ⟨f, jwks, hf, hlookup, .inl (KeyCache.lt_of_fresh hfresh hat)⟩
  | cached hno hresult =>
    have hnone : ∀ jwks, ¬p.Fetches jwks := by simp [Taken.Fetches, haction]
    obtain ⟨f, jwks, hf, hlookup, hat⟩ :=
      get_lastFetch hcache (KeyCache.answer_ok.mp hresult.symm) hnone
    refine ⟨f, jwks, hf, hlookup, .inl (KeyCache.lt_of_fresh ?_ hat)⟩
    by_contra hstale
    rw [Bool.not_eq_false] at hstale
    refine hno ⟨?_, KeyCache.canRefetch_of_isStale hstale⟩
    rw [KeyCache.needsRefresh, hstale, Bool.true_or]
  | fetched _ jwks hresult =>
    refine ⟨p, jwks, lastFetch_self ⟨_, haction⟩, KeyCache.answer_ok.mp hresult.symm, .inl ?_⟩
    rw [sub_self]
    decide
  | failed hresult =>
    have hnone : ∀ jwks, ¬p.Fetches jwks := by simp [Taken.Fetches, haction]
    rcases hresult with hresult | hresult
    · cases hresult
    · obtain ⟨f, jwks, hf, hlookup, -⟩ :=
        get_lastFetch hcache (KeyCache.answer_ok.mp hresult.symm) hnone
      exact ⟨f, jwks, hf, hlookup, .inr haction⟩

/-- A call whose fetch, if it makes one, succeeds does not know a key that no cache it may have
used has: the one of its own fetch, or of one less than `minRefetchInterval` ago. -/
lemma answers_unknown {error : VerifyError} (hcache : CacheFrom l p.before.cache)
    (hanswers : p.Answers i kid (.error error)) (hp : system.Takes p)
    (hown : ¬p.Fails i) :
    error = .unknownKey ∧ ∃ f jwks, f ∈ l ++ [p] ∧ f.Fetches jwks ∧ ¬jwks.Serves kid ∧
      p.before.clock - f.before.clock < minRefetchInterval := by
  have hunserved : ∀ {jwks : JwkSet} {now : Time}, (KeyCache.replace jwks now).get kid = none →
      ¬jwks.Serves kid := by
    intro jwks now hget hserves
    rw [JwkSet.serves_iff now, hget] at hserves
    cases hserves
  have hanswered := hanswers.answered hp
  generalize haction : p.action = action at hanswered
  cases hanswered with
  | found key hkey hfresh hresult => cases hresult
  | cached hno hresult =>
    obtain ⟨hget, rfl⟩ := KeyCache.answer_error hresult.symm
    have hneeds : p.before.cache.needsRefresh kid p.before.clock = true := by
      simp [KeyCache.needsRefresh, hget]
    have hcan : ¬p.before.cache.canRefetch p.before.clock = true := fun hcan => hno ⟨hneeds, hcan⟩
    rcases hcache with hempty | ⟨f, jwks, ⟨_, _, _, hf, _⟩, hmem, hsame⟩
    · rw [hempty] at hcan
      exact absurd rfl hcan
    · rw [hsame] at hget hcan
      refine ⟨rfl, f, jwks, List.mem_append_left _ hmem, hf, hunserved hget, ?_⟩
      by_contra hle
      exact hcan (decide_eq_true (not_lt.mp hle))
  | fetched _ jwks hresult =>
    obtain ⟨hget, rfl⟩ := KeyCache.answer_error hresult.symm
    refine ⟨rfl, p, jwks, by simp, ⟨_, haction⟩, hunserved hget, ?_⟩
    rw [sub_self]
    decide
  | failed => exact absurd haction hown

/-- A successful fetch returns what was served at most `httpTimeout` before it ended. -/
lemma Taken.Fetches.served {served : Time → JwkSet} {jwks : JwkSet}
    (hserved : FetchedFrom served steps) (hmem : p ∈ steps) (hp : system.Takes p)
    (hfetches : p.Fetches jwks) :
    ∃ τ, p.before.clock - httpTimeout ≤ τ ∧ τ ≤ p.before.clock ∧ jwks = served τ := by
  obtain ⟨j, haction⟩ := hfetches
  have hsteps := Taken.steps hp
  rw [haction] at hsteps
  generalize p.after = after at hsteps
  cases hsteps with
  | @replaced _ kid start hj =>
    obtain ⟨htimeout, hserves⟩ := hserved p hmem j _ kid start haction hj
    obtain ⟨τ, hstart, hτ, rfl⟩ := hserves jwks rfl
    exact ⟨τ, (sub_le_comm.mp htimeout).trans hstart, hτ, rfl⟩

/-- What a verifier answers is fresh and complete, whatever is served and whichever fetches fail:
a key is the one of the last successful fetch, less than `jwksMaxAge` old unless the call's own
fetch failed; a key no longer served is refused after that and the time of a fetch; a key served
for long enough is found. -/
theorem answers_fresh_complete {clock : Time} {served : Time → JwkSet}
    (hrun : system.Run (new clock) steps s) (hserved : FetchedFrom served steps)
    {l n : List Taken} {q : Taken} {i : ℕ} {kid : String} {result : Except VerifyError Bytes}
    (hsteps : steps = l ++ q :: n) (hanswers : q.Answers i kid result) :
    (∀ key, result = .ok key →
      ∃ f jwks, LastFetch (l ++ [q]) f jwks ∧ lookup jwks.pairs kid = some key ∧
        (q.before.clock - f.before.clock < jwksMaxAge ∨ q.Fails i)) ∧
    (¬q.Fails i →
      ∀ t, (∀ τ, t ≤ τ → τ ≤ q.before.clock → ¬(served τ).Serves kid) →
        t + jwksMaxAge + httpTimeout ≤ q.before.clock → result = .error .unknownKey) ∧
    (¬q.Fails i →
      (∀ τ, q.before.clock - (minRefetchInterval + httpTimeout) ≤ τ → τ ≤ q.before.clock →
        (served τ).Serves kid) → result ≠ .error .unknownKey) := by
  subst hsteps
  obtain ⟨hl, hq, hn⟩ := hrun.around
  have hcache := cacheFrom_of_run hl
  have hmem : ∀ f ∈ l ++ [q], f ∈ l ++ q :: n := by
    intro f hf
    rcases List.mem_append.mp hf with hf | hf
    · exact List.mem_append_left _ hf
    · rw [List.mem_singleton.mp hf]
      simp
  -- a fetch of these steps is one of the run, and ended before the answer
  have hfetch : ∀ f ∈ l ++ [q], system.Takes f ∧ f.before.clock ≤ q.before.clock := by
    intro f hf
    rcases List.mem_append.mp hf with hf | hf
    · obtain ⟨l₁, l₂, rfl⟩ := List.append_of_mem hf
      obtain ⟨-, htakes, hrest⟩ := hl.around
      exact ⟨htakes, (Taken.steps htakes).clock_le.trans (Run.clock_le hrest)⟩
    · rw [List.mem_singleton.mp hf]
      exact ⟨hq, le_rfl⟩
  refine ⟨?_, ?_, ?_⟩
  · rintro key rfl
    exact answers_fresh hcache hanswers hq
  · intro hown t hremoved ht
    cases result with
    | error error =>
      obtain ⟨rfl, -⟩ := answers_unknown hcache hanswers hq hown
      rfl
    | ok key =>
      obtain ⟨f, jwks, hf, hlookup, hage⟩ := answers_fresh hcache hanswers hq
      have hage' := hage.resolve_right hown
      obtain ⟨l₁, l₂, hsplit, hfetches, -⟩ := hf
      have hin : f ∈ l ++ [q] := by rw [hsplit]; simp
      obtain ⟨htakes, hle⟩ := hfetch f hin
      obtain ⟨τ, hτ, hτ', rfl⟩ := hfetches.served hserved (hmem f hin) htakes
      have hserves : (served τ).Serves kid := by
        rw [JwkSet.serves_iff f.before.clock]
        exact Option.isSome_iff_exists.mpr ⟨key, hlookup⟩
      refine absurd hserves (hremoved τ ?_ (hτ'.trans hle))
      linarith
  · rintro hown hserves rfl
    obtain ⟨-, f, jwks, hin, hfetches, hnot, hrecent⟩ := answers_unknown hcache hanswers hq hown
    obtain ⟨htakes, hle⟩ := hfetch f hin
    obtain ⟨τ, hτ, hτ', rfl⟩ := hfetches.served hserved (hmem f hin) htakes
    refine hnot (hserves τ (le_trans ?_ hτ) (hτ'.trans hle))
    linarith

end Runs

section Example

def exampleJwks : JwkSet := [⟨some "kid", some []⟩]

/-- The end of the first fetch of a verifier, two seconds after it started. -/
def exampleFetched : Taken where
  before := ⟨seconds 2, {}, [.fetching "kid" 0]⟩
  action := .fetched 0 (some exampleJwks)
  after := ⟨seconds 2, ⟨[("kid", [])], some (seconds 2)⟩, [.answered (.ok [])]⟩

/-- The steps before it. -/
def exampleSteps : List Taken :=
  [⟨new 0, .verify (some exampleHeader), ⟨0, {}, [.reading "kid"]⟩⟩,
    ⟨⟨0, {}, [.reading "kid"]⟩, .read 0, ⟨0, {}, [.waiting "kid"]⟩⟩,
    ⟨⟨0, {}, [.waiting "kid"]⟩, .write 0, ⟨0, {}, [.fetching "kid" 0]⟩⟩,
    ⟨⟨0, {}, [.fetching "kid" 0]⟩, .tick (seconds 2), exampleFetched.before⟩]

/-- A call for a key that has always been served fetches it, and finds it. -/
theorem answers_fresh_complete_first :
    ∃ f jwks, LastFetch (exampleSteps ++ [exampleFetched]) f jwks ∧
      lookup jwks.pairs "kid" = some [] := by
  have hrun : system.Run (new 0) (exampleSteps ++ [exampleFetched]) exampleFetched.after :=
    System.exec_run (rfl : system.exec (new 0) [.verify (some exampleHeader), .read 0, .write 0,
      .tick (seconds 2), .fetched 0 (some exampleJwks)] = some (_, _))
  have hserved : FetchedFrom (fun _ => exampleJwks) (exampleSteps ++ [exampleFetched]) := by
    intro f hf i outcome kid start haction hi
    simp only [exampleSteps, List.cons_append, List.nil_append, List.mem_cons, List.not_mem_nil,
      or_false] at hf
    rcases hf with rfl | rfl | rfl | rfl | rfl
    iterate 4 cases haction
    obtain ⟨rfl, rfl⟩ := Action.fetched.inj haction
    obtain ⟨-, rfl⟩ := Call.fetching.inj (Option.some.inj hi)
    refine ⟨by decide, fun jwks hjwks => ⟨0, le_rfl, by decide, (Option.some.inj hjwks).symm⟩⟩
  have hanswers : exampleFetched.Answers 0 "kid" (.ok []) := ⟨⟨_, rfl, rfl⟩, rfl⟩
  obtain ⟨hfresh, -⟩ := answers_fresh_complete hrun hserved rfl hanswers
  obtain ⟨f, jwks, hf, hlookup, -⟩ := hfresh [] rfl
  exact ⟨f, jwks, hf, hlookup⟩

end Example

end Verifier

end Bauth
