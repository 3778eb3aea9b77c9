import Bauth.Client.Verifier

/-!
# How often a verifier fetches

A fetch that succeeds keeps the next one away for `minRefetchInterval`. A fetch that fails leaves
the cache as it was, so that the next call that needs a key may fetch at once.
-/

namespace Bauth

open Transaction Transition

namespace Verifier

/-! ### What happens at one step -/

section Steps

variable {s s' : State} {a : Action} {i j : ℕ}

/-- Call `i` fetches, since `t`. -/
def State.Fetching (s : State) (i : ℕ) (kid : String) (t : Time) : Prop :=
  s.calls[i]? = some (.fetching kid t)

/-- One call at most holds the write lock. -/
def State.Single (s : State) : Prop :=
  ∀ i j kid kid' t t', s.Fetching i kid t → s.Fetching j kid' t' → i = j

lemma not_busy {kid : String} {t : Time} (h : s.busy = false) : ¬s.Fetching i kid t := by
  intro hi
  have := List.any_eq_false.mp h _ (List.mem_of_getElem? hi)
  simp [Call.isFetching] at this

lemma State.set_self {c c' : Call} (h : s.calls[i]? = some c) : (s.set i c').calls[i]? = some c' := by
  obtain ⟨hi, -⟩ := List.getElem?_eq_some_iff.mp h
  simp [State.set, hi]

lemma State.set_idle {c : Call} (h : s.busy = false) (hc : c.isFetching = false) :
    (s.set i c).busy = false := by
  rw [State.busy, List.any_eq_false] at h ⊢
  intro c' hc'
  rcases List.mem_or_eq_of_mem_set hc' with hc' | rfl
  · exact h c' hc'
  · simp [hc]

lemma State.set_ne {c' : Call} (h : i ≠ j) : (s.set i c').calls[j]? = s.calls[j]? := by
  simp [State.set, h]

/-- A call becomes the only one that may be fetching. -/
lemma State.Single.set (h : s.Single) {c c' : Call} (hi : s.calls[i]? = some c)
    (hc : c'.isFetching = true → s.busy = false) : (s.set i c').Single := by
  intro j k kid kid' t t' hj hk
  unfold State.Fetching at hj hk
  by_cases hji : i = j
  · subst hji
    rw [State.set_self hi] at hj
    have hbusy := hc (by rw [Option.some.inj hj]; rfl)
    by_contra hik
    rw [State.set_ne hik] at hk
    exact not_busy hbusy hk
  · by_cases hki : i = k
    · subst hki
      rw [State.set_self hi] at hk
      rw [State.set_ne hji] at hj
      exact absurd hj (not_busy (hc (by rw [Option.some.inj hk]; rfl)))
    · rw [State.set_ne hji] at hj
      rw [State.set_ne hki] at hk
      exact h j k kid kid' t t' hj hk

lemma Steps.single (h : Steps s a s') (hs : s.Single) : s'.Single := by
  cases h with
  | tick h => exact hs
  | verify c hc =>
    intro i j kid kid' t t' hi hj
    have hold : ∀ {i kid t}, (s.calls ++ [c])[i]? = some (.fetching kid t) → s.Fetching i kid t := by
      intro i kid t hi
      rcases lt_trichotomy i s.calls.length with hlt | rfl | hlt
      · rwa [List.getElem?_append_left hlt] at hi
      · obtain rfl : c = .fetching kid t := by simpa using hi
        cases hc
      · rw [List.getElem?_eq_none (by rw [List.length_append]; exact hlt)] at hi
        cases hi
    exact hs i j kid kid' t t' (hold hi) (hold hj)
  | found hi => exact hs.set hi nofun
  | queued hi => exact hs.set hi nofun
  | attempt hi hbusy => exact hs.set hi fun _ => hbusy
  | cached hi => exact hs.set hi nofun
  | @replaced i kid start hi jwks =>
    have hset : (s.set i (.answered ((KeyCache.replace jwks s.clock).answer kid))).Single :=
      hs.set hi nofun
    exact hset
  | failed hi c hc =>
    refine hs.set hi fun hf => ?_
    rcases hc with rfl | rfl <;> cases hf

/-- Without a fetch, starting one is the only step that takes the lock or changes the cache. -/
lemma Steps.idle (h : Steps s a s') (hs : s.busy = false)
    (hno : ∀ j kid, a = .write j → ¬s'.Fetching j kid s.clock) :
    s'.busy = false ∧ s'.cache = s.cache := by
  cases h with
  | tick h => exact ⟨hs, rfl⟩
  | verify c hc =>
    refine ⟨?_, rfl⟩
    have hs' : s.calls.any Call.isFetching = false := hs
    simp [State.busy, List.any_append, hs', hc]
  | found hi => exact ⟨State.set_idle hs rfl, rfl⟩
  | queued hi => exact ⟨State.set_idle hs rfl, rfl⟩
  | attempt hi => exact absurd (State.set_self hi) (hno _ _ rfl)
  | cached hi => exact ⟨State.set_idle hs rfl, rfl⟩
  | replaced hi => exact absurd hi (not_busy hs)
  | failed hi => exact absurd hi (not_busy hs)

lemma Steps.clock_le (h : Steps s a s') : s.clock ≤ s'.clock := by
  cases h with
  | tick h => exact h
  | _ => exact le_rfl

/-- The cache changes when a fetch succeeds, and at no other step. -/
lemma Steps.cache_eq (h : Steps s a s') (ha : ∀ i jwks, a ≠ .fetched i (some jwks)) :
    s'.cache = s.cache := by
  cases h with
  | replaced hi jwks => exact absurd rfl (ha _ jwks)
  | _ => rfl

/-- A call that fetches goes on doing so until its own fetch ends. -/
lemma Steps.fetching (h : Steps s a s') {kid : String} {t : Time}
    (hi : s.calls[i]? = some (.fetching kid t)) (ha : ∀ outcome, a ≠ .fetched i outcome) :
    s'.calls[i]? = some (.fetching kid t) := by
  have hset : ∀ {j c c'}, s.calls[j]? = some c → c ≠ .fetching kid t →
      (s.set j c').calls[i]? = some (.fetching kid t) := by
    intro j c c' hj hc
    rw [State.set_ne, hi]
    rintro rfl
    exact hc (Option.some.inj (hj.symm.trans hi))
  cases h with
  | tick => exact hi
  | verify c hc =>
    obtain ⟨hlt, -⟩ := List.getElem?_eq_some_iff.mp hi
    exact (List.getElem?_append_left hlt).trans hi
  | found hj => exact hset hj (by simp)
  | queued hj => exact hset hj (by simp)
  | attempt hj => exact hset hj (by simp)
  | cached hj => exact hset hj (by simp)
  | @replaced j _ _ hj jwks =>
    have hne : j ≠ i := fun h => ha (some jwks) (by rw [h])
    exact (State.set_ne hne).trans hi
  | @failed j _ _ hj c hc =>
    have hne : j ≠ i := fun h => ha none (by rw [h])
    exact (State.set_ne hne).trans hi

/-- A call that was answered is not fetching again. -/
lemma Steps.answered (h : Steps s a s') {result : Except VerifyError Bytes}
    (hi : s.calls[i]? = some (.answered result)) : s'.calls[i]? = some (.answered result) := by
  have hset : ∀ {j c c'}, s.calls[j]? = some c → c ≠ .answered result →
      (s.set j c').calls[i]? = some (.answered result) := by
    intro j c c' hj hc
    rw [State.set_ne, hi]
    rintro rfl
    exact hc (Option.some.inj (hj.symm.trans hi))
  cases h with
  | tick => exact hi
  | verify c hc =>
    obtain ⟨hlt, -⟩ := List.getElem?_eq_some_iff.mp hi
    exact (List.getElem?_append_left hlt).trans hi
  | found hj => exact hset hj (by simp)
  | queued hj => exact hset hj (by simp)
  | attempt hj => exact hset hj (by simp)
  | cached hj => exact hset hj (by simp)
  | replaced hj => exact hset hj (by simp)
  | failed hj => exact hset hj (by simp)

end Steps

/-! ### Attempts and failures -/

/-- A step of the verifier, as taken. -/
abbrev Taken := Transition.Step State Action

namespace Taken

/-- Call `i` starts a fetch. -/
def Attempts (p : Taken) (i : ℕ) : Prop :=
  p.action = .write i ∧ ∃ kid, p.after.calls[i]? = some (.fetching kid p.before.clock)

/-- The fetch of call `i` fails. -/
def Fails (p : Taken) (i : ℕ) : Prop := p.action = .fetched i none

/-- A call that holds the write lock finds the cache stale, or without its key. -/
def NeedsJwks (p : Taken) : Prop :=
  ∃ i kid, p.action = .write i ∧ p.before.calls[i]? = some (.waiting kid) ∧
    p.before.cache.needsRefresh kid p.before.clock = true

end Taken

/-- Any two fetches of a run start `minRefetchInterval` apart. -/
def Spaced (steps : List Taken) : Prop :=
  ∀ l p m q n i j, steps = l ++ p :: (m ++ q :: n) → p.Attempts i → q.Attempts j →
    minRefetchInterval ≤ q.before.clock - p.before.clock

/-- After the start of a fetch that fails, no call needs the JWKS for `minRefetchInterval`. -/
def FailuresSpaced (steps : List Taken) : Prop :=
  ∀ l p m q n i, steps = l ++ p :: (m ++ q :: n) → p.Attempts i → (∃ f ∈ m, f.Fails i) →
    q.NeedsJwks → minRefetchInterval ≤ q.before.clock - p.before.clock

section Runs

variable {s s' : State} {p : Taken} {i : ℕ}

lemma Taken.steps (hp : system.Takes p) : Steps p.before p.action p.after := steps_of_step hp

lemma Run.single {l : List Taken} (hrun : system.Run s l s') (hs : s.Single) : s'.Single :=
  hrun.keeps hs fun _ _ hp h => (Taken.steps hp).single h

lemma Run.clock_le {l : List Taken} (hrun : system.Run s l s') : s.clock ≤ s'.clock :=
  hrun.rel (R := fun s s' => s.clock ≤ s'.clock) (fun _ => le_rfl) (fun _ _ _ => le_trans)
    fun _ _ hp => (Taken.steps hp).clock_le

lemma new_single (clock : Time) : (new clock).Single := by
  intro i j kid kid' t t' hi
  simp [State.Fetching, new] at hi

/-- A fetch starts when the cache allows it, for a call that needs it. -/
lemma Taken.Attempts.inv (h : p.Attempts i) (hp : system.Takes p) :
    p.NeedsJwks ∧ p.before.busy = false ∧ p.before.cache.canRefetch p.before.clock = true ∧
      p.after.cache = p.before.cache ∧ p.after.clock = p.before.clock := by
  obtain ⟨haction, kid, hfetching⟩ := h
  have hsteps := Taken.steps hp
  rw [haction] at hsteps
  unfold Taken.NeedsJwks
  generalize p.after = after at hsteps hfetching
  cases hsteps with
  | attempt hi hbusy hneeds hcan => exact ⟨⟨i, _, haction, hi, hneeds⟩, hbusy, hcan, rfl, rfl⟩
  | cached hi =>
    rw [State.set_self hi] at hfetching
    cases hfetching

/-- A call that needs the JWKS fetches it if the cache allows it. -/
lemma Taken.NeedsJwks.attempts (h : p.NeedsJwks) (hp : system.Takes p)
    (hcan : p.before.cache.canRefetch p.before.clock = true) : ∃ j, p.Attempts j := by
  obtain ⟨j, kid, haction, hj, hneeds⟩ := h
  have hsteps := Taken.steps hp
  rw [haction] at hsteps
  refine ⟨j, haction, kid, ?_⟩
  generalize p.after = after at hsteps
  cases hsteps with
  | attempt hj' =>
    obtain rfl := Call.waiting.inj (Option.some.inj (hj.symm.trans hj'))
    exact State.set_self hj
  | cached hj' _ hno =>
    obtain rfl := Call.waiting.inj (Option.some.inj (hj.symm.trans hj'))
    exact absurd ⟨hneeds, hcan⟩ hno

/-- It holds the write lock alone. -/
lemma Taken.NeedsJwks.idle (h : p.NeedsJwks) (hp : system.Takes p) : p.before.busy = false := by
  obtain ⟨j, kid, haction, hj, -⟩ := h
  have hsteps := Taken.steps hp
  rw [haction] at hsteps
  generalize p.after = after at hsteps
  cases hsteps with
  | attempt _ hbusy => exact hbusy
  | cached _ hbusy => exact hbusy

/-- Where the fetch that `p` starts for call `i` is after the steps `m`: it goes on, under the
lock; it succeeded, and the cache is as young as it; or it failed, and the cache is as it was until
another fetch starts. -/
inductive Since (p : Taken) (i : ℕ) (m : List Taken) (s : State) : Prop
  | pending (kid : String) (h : s.calls[i]? = some (.fetching kid p.before.clock))
      (hcache : s.cache = p.before.cache) (hnone : ∀ f ∈ m, ¬f.Fails i)
  | succeeded (result : Except VerifyError Bytes) (h : s.calls[i]? = some (.answered result))
      (t : Time) (ht : s.cache.fetchedAt = some t) (hle : p.before.clock ≤ t)
      (hnone : ∀ f ∈ m, ¬f.Fails i)
  | failed (hfails : ∃ f ∈ m, f.Fails i)
      (hcache : s.cache = p.before.cache ∧ s.busy = false ∨
        ∃ m₁ q m₂ j, m = m₁ ++ q :: m₂ ∧ q.Attempts j)

/-- Nobody else fetches while call `i` does. -/
lemma idle_of_answered {s s' : State} (hs : s.Single)
    {kid : String} {t : Time} (hi : s.calls[i]? = some (.fetching kid t))
    {result : Except VerifyError Bytes} (hi' : s'.calls[i]? = some (.answered result))
    (hrest : ∀ j, j ≠ i → s'.calls[j]? = s.calls[j]?) : s'.busy = false := by
  rw [State.busy, List.any_eq_false]
  intro c hc
  obtain ⟨j, hj⟩ := List.getElem?_of_mem hc
  by_cases hji : j = i
  · subst hji
    obtain rfl := Option.some.inj (hj.symm.trans hi')
    simp [Call.isFetching]
  · rw [hrest j hji] at hj
    cases c with
    | fetching kid' t' => exact absurd (hs j i kid' kid t' t hj hi) hji
    | _ => simp [Call.isFetching]

lemma since_of_run {m : List Taken} (hp : system.Takes p) (hs : p.before.Single)
    (hattempts : p.Attempts i) (hrun : system.Run p.after m s) : Since p i m s := by
  have hpsteps := Taken.steps hp
  have hsingle : p.after.Single := hpsteps.single hs
  obtain ⟨-, -, -, hcache, hclock⟩ := hattempts.inv hp
  obtain ⟨-, kid₀, hfetching₀⟩ := hattempts
  refine hrun.keeps_history (P := Since p i) ?_ fun l q hl hq ih => ?_
  · exact .pending kid₀ hfetching₀ hcache fun f hf => nomatch hf
  have hsteps := Taken.steps hq
  have hle : p.before.clock ≤ q.before.clock := hclock ▸ Run.clock_le hl
  have hmem : ∀ {f : Taken}, f ∈ l ++ [q] → f ∈ l ∨ f = q := by simp
  cases ih with
  | pending kid hi hsame hnone =>
    by_cases hends : ∃ outcome, q.action = .fetched i outcome
    · obtain ⟨outcome, haction⟩ := hends
      have hsteps' := hsteps
      rw [haction] at hsteps'
      generalize hafter : q.after = after at hsteps'
      cases hsteps' with
      | replaced hi' jwks =>
        refine .succeeded _ (State.set_self hi') q.before.clock rfl hle fun f hf hfails => ?_
        rcases hmem hf with hf | rfl
        · exact hnone f hf hfails
        · simp [Taken.Fails, haction] at hfails
      | failed hi' c hc =>
        have hset : (q.before.set i c).calls[i]? = some c := State.set_self hi'
        refine .failed ⟨q, by simp, haction⟩ (.inl ⟨hsame, ?_⟩)
        rcases hc with rfl | rfl <;>
          exact idle_of_answered (Run.single hl hsingle) hi' hset
            fun j hj => State.set_ne (Ne.symm hj)
    · have hother : ∀ outcome, q.action ≠ .fetched i outcome := fun o h => hends ⟨o, h⟩
      refine .pending kid (hsteps.fetching hi hother) ?_ fun f hf hfails => ?_
      · rw [hsteps.cache_eq, hsame]
        rintro j jwks haction
        -- another call cannot be fetching
        rw [haction] at hsteps
        generalize q.after = after at hsteps
        cases hsteps with
        | replaced hj =>
          have hji := Run.single hl hsingle j i _ _ _ _ hj hi
          exact hother (some jwks) (hji ▸ haction)
      · rcases hmem hf with hf | rfl
        · exact hnone f hf hfails
        · exact hother none hfails
  | succeeded result hi t ht hle' hnone =>
    have hnone' : ∀ f ∈ l ++ [q], ¬Taken.Fails f i := by
      intro f hf hfails
      rcases hmem hf with hf | rfl
      · exact hnone f hf hfails
      · rw [show f.action = .fetched i none from hfails] at hsteps
        generalize f.after = after at hsteps
        cases hsteps with
        | failed hi' => simp [hi] at hi'
    by_cases hreplaced : ∃ j jwks, q.action = .fetched j (some jwks)
    · obtain ⟨j, jwks, haction⟩ := hreplaced
      have hanswered := hsteps.answered hi
      rw [haction] at hsteps
      generalize q.after = after at hsteps hanswered ⊢
      cases hsteps with
      | replaced => exact .succeeded result hanswered q.before.clock rfl hle hnone'
    · refine .succeeded result (hsteps.answered hi) t ?_ hle' hnone'
      rw [hsteps.cache_eq fun j jwks h => hreplaced ⟨j, jwks, h⟩, ht]
  | failed hfails hsame =>
    obtain ⟨f, hf, hfails⟩ := hfails
    refine .failed ⟨f, by simp [hf], hfails⟩ ?_
    rcases hsame with ⟨hsame, hidle⟩ | ⟨m₁, r, m₂, j, rfl, hr⟩
    · by_cases hq' : ∃ j, Taken.Attempts q j
      · obtain ⟨j, hj⟩ := hq'
        exact .inr ⟨l, q, [], j, rfl, hj⟩
      · obtain ⟨hidle', hcache⟩ := hsteps.idle hidle fun j kid haction hj =>
          hq' ⟨j, haction, kid, hj⟩
        exact .inl ⟨hcache.trans hsame, hidle'⟩
    · exact .inr ⟨m₁, r, m₂ ++ [q], j, by simp, hr⟩

/-- A younger cache keeps the next fetch away. -/
lemma le_of_canRefetch {c : KeyCache} {now t : Time} (h : c.canRefetch now = true)
    (ht : c.fetchedAt = some t) : minRefetchInterval ≤ now - t := by
  simpa [KeyCache.canRefetch, ht] using h

lemma canRefetch_mono {c : KeyCache} {now now' : Time} (h : c.canRefetch now = true)
    (hle : now ≤ now') : c.canRefetch now' = true := by
  rw [KeyCache.canRefetch, Option.all_eq_true] at h ⊢
  intro t ht
  have hthen := of_decide_eq_true (h t ht)
  exact decide_eq_true (hthen.trans (sub_le_sub_right hle t))

/-- The fetches of a verifier are `minRefetchInterval` apart exactly when no call needs the JWKS
within that time of a fetch that fails. -/
theorem spaced_iff {clock : Time} {steps : List Taken} (hrun : system.Run (new clock) steps s) :
    Spaced steps ↔ FailuresSpaced steps := by
  have hbetween : ∀ {l p m q n}, steps = l ++ p :: (m ++ q :: n) →
      system.Takes p ∧ p.before.Single ∧ system.Run p.after m q.before ∧ system.Takes q := by
    rintro l p m q n rfl
    obtain ⟨hl, hp, hrest⟩ := hrun.around
    obtain ⟨hm, hq, -⟩ := hrest.around
    exact ⟨hp, Run.single hl (new_single clock), hm, hq⟩
  constructor
  · rintro h l p m q n i rfl hattempts ⟨f, hf, hfails⟩ hneeds
    obtain ⟨hp, hsingle, hm, hq⟩ := hbetween rfl
    obtain ⟨-, -, hcan, -, hclock⟩ := hattempts.inv hp
    have hle : p.before.clock ≤ q.before.clock := hclock ▸ Run.clock_le hm
    cases since_of_run hp hsingle hattempts hm with
    | pending _ _ _ hnone => exact absurd hfails (hnone f hf)
    | succeeded _ _ _ _ _ hnone => exact absurd hfails (hnone f hf)
    | failed _ hcache =>
      rcases hcache with ⟨hcache, -⟩ | ⟨m₁, r, m₂, j, rfl, hr⟩
      · have hcan' : q.before.cache.canRefetch q.before.clock = true :=
          hcache ▸ canRefetch_mono hcan hle
        obtain ⟨j, hj⟩ := hneeds.attempts hq hcan'
        exact h l p m q n i j rfl hattempts hj
      · have hspaced := h l p m₁ r (m₂ ++ q :: n) i j (by simp) hattempts hr
        obtain ⟨-, -, hrest⟩ := hm.around
        have hr' := (hm.around).2.1
        have hle' : r.before.clock ≤ q.before.clock :=
          (Taken.steps hr').clock_le.trans (Run.clock_le hrest)
        exact hspaced.trans (sub_le_sub_right hle' _)
  · rintro h l p m q n i j rfl hp' hq'
    obtain ⟨hp, hsingle, hm, hq⟩ := hbetween rfl
    obtain ⟨hneeds, hidle, hcan, -, -⟩ := hq'.inv hq
    cases since_of_run hp hsingle hp' hm with
    | pending kid hi => exact absurd hi (not_busy hidle)
    | succeeded _ _ t ht hle _ =>
      have hafter := le_of_canRefetch hcan ht
      exact hafter.trans (sub_le_sub_left hle _)
    | failed hfails _ => exact h l p m q n i rfl hp' hfails hneeds

end Runs

/-! ### bauth unreachable -/

section Example

def exampleHeader : TokenHeader where
  alg := "EdDSA"
  typ := some "at+jwt"
  kid := some "kid"

/-- Two calls; the fetch of the first one fails, and the second one fetches at once. -/
def exampleActions : List Action :=
  [.verify (some exampleHeader), .verify (some exampleHeader), .read 0, .read 1, .write 0,
    .fetched 0 none, .write 1]

/-- While bauth is unreachable, every call fetches. -/
theorem failures_unspaced :
    ¬∀ (clock : Time) (steps : List Taken) (s : State),
      system.Run (new clock) steps s → Spaced steps := by
  intro h
  have hrun := System.exec_run (rfl : system.exec (new 0) exampleActions = some (_, _))
  have hspaced := h 0 _ _ hrun [_, _, _, _] _ [_] _ [] 0 1 rfl ⟨rfl, _, rfl⟩ ⟨rfl, _, rfl⟩
  exact absurd hspaced (by decide)

/-- Two calls, and a third one half a minute later; no fetch fails. -/
def exampleFetches : List Action :=
  [.verify (some exampleHeader), .verify (some exampleHeader), .read 0, .read 1, .write 0,
    .fetched 0 (some []), .write 1, .tick minRefetchInterval, .verify (some exampleHeader), .read 2,
    .write 2]

/-- The fetch of the first call succeeds, without its key: the second one does not fetch, and the
third one does. -/
theorem spaced_iff_success : ∃ steps s, system.Run (new 0) steps s ∧
    s.calls.map Call.isFetching = [false, false, true] ∧ Spaced steps := by
  have hexec : ((system.exec (new 0) exampleFetches).any fun r =>
      decide (r.2.calls.map Call.isFetching = [false, false, true])) = true := by
    decide +kernel
  obtain ⟨⟨steps, s⟩, hsteps, hcalls⟩ := (Option.any_eq_true _ _).mp hexec
  have hrun := System.exec_run hsteps
  refine ⟨steps, s, hrun, of_decide_eq_true hcalls, (spaced_iff hrun).mpr ?_⟩
  rintro l p m q n i rfl - ⟨f, hf, hfails⟩
  have hmem : f.action ∈ exampleFetches := by
    rw [← System.exec_actions hsteps]
    exact List.mem_map_of_mem (by simp [hf])
  rw [hfails] at hmem
  simp [exampleFetches] at hmem

end Example

end Verifier

end Bauth
