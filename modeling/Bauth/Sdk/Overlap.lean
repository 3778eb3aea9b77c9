import Bauth.Sdk.SingleFlight

/-!
# A refresh that overlaps a login or a logout

A refresh writes the store some time after it read it. What `save` or `logout` wrote in between is
lost, unless bauth's answer leaves the refresh nothing to write.
-/

namespace Bauth

open Transition

namespace Sdk

/-- A call of `save` or `logout` writes the store. -/
def Taken.CallWrites (p : Taken) (value : Option StoredTokens) : Prop :=
  ∃ i k, p.action = .perform i ∧ p.before.threads[i]? = some (.await (.write value) k)

/-- A refresh that began before the write of a `save` or a `logout` does not change the store after
it. -/
def Respected (steps : List Taken) : Prop :=
  ∀ l p m q n value t, steps = l ++ p :: (m ++ q :: n) → p.CallWrites value →
    t < p.before.tasks.length → q.action = .taskWrite t → q.after.store = q.before.store

/-- After the write of a `logout` the store stays empty until the next `save`, up to `s`. -/
def StaysEmpty (steps : List Taken) (s : State) : Prop :=
  ∀ l p m, steps = l ++ p :: m → p.CallWrites none →
    (∀ q ∈ m, ∀ stored, ¬q.CallWrites (some stored)) → s.store = none

/-- When a `save` or a `logout` writes the store, no refresh is about to write it, and those under
way are not answered with tokens, nor, for a `save`, refused. A refresh that only clears the store
does not disturb a `logout`. -/
def Clear (steps : List Taken) : Prop :=
  ∀ l p n value, steps = l ++ p :: n → Taken.CallWrites p value →
    (∀ (t : ℕ) (v : Option StoredTokens) (token : Option String),
      p.before.tasks[t]? = some (Refresh.writing v token) → v = none ∧ value = none) ∧
    ∀ q ∈ n, ∀ t, t < p.before.tasks.length →
      (∀ tokens, q.action ≠ .taskAnswer t (.ok tokens)) ∧ (q.Refuses t → value = none)

section Runs

variable {o : Options} {s s' : State} {p : Taken} {t : ℕ}

lemma Steps.length_le {a : Action} (h : Steps o s a s') : s.tasks.length ≤ s'.tasks.length := by
  cases h with
  | started => simp [State.resume]
  | taskRead => simp [State.setTask]
  | taskReadFails => simp [State.setTask]
  | loggedOut => simp [State.setTask]
  | taskSend => simp [State.setTask]
  | taskAnswer => simp [State.setTask]
  | taskWrite => simp [State.setTask]
  | taskWriteFails => simp [State.setTask]
  | taskFinally => simp [State.setTask]
  | _ => exact Nat.le_refl _

lemma length_le_of_run {m : List Taken} (hrun : (system o).Run s m s') :
    s.tasks.length ≤ s'.tasks.length :=
  hrun.rel (R := fun s s' => s.tasks.length ≤ s'.tasks.length) (fun _ => Nat.le_refl _)
    (fun _ _ _ => Nat.le_trans) fun _ _ hp => (Taken.steps hp).length_le

/-- A write of a call is what the store then has; the refreshes are as they were. -/
lemma Taken.CallWrites.after {value : Option StoredTokens} (h : p.CallWrites value)
    (hp : (system o).Takes p) : p.after.store = value ∧ p.after.tasks = p.before.tasks := by
  obtain ⟨i, k, haction, hi⟩ := h
  have hsteps := Taken.steps hp
  rw [haction] at hsteps
  generalize p.after = after at hsteps
  cases hsteps with
  | go ha hj hwrite =>
    obtain rfl := Option.some.inj ha
    have hop := (Async.await.inj (Option.some.inj (hi.symm.trans hj))).1
    exact absurd hop.symm (hwrite value rfl)
  | write hj =>
    have hop := (Async.await.inj (Option.some.inj (hi.symm.trans hj))).1
    exact ⟨(Op.write.inj hop).symm, rfl⟩
  | @joined _ _ m _ hj =>
    cases m <;> cases (Async.await.inj (Option.some.inj (hi.symm.trans hj))).1
  | @started _ m _ hj =>
    cases m <;> cases (Async.await.inj (Option.some.inj (hi.symm.trans hj))).1
  | resolved hj => cases (Async.await.inj (Option.some.inj (hi.symm.trans hj))).1

/-- A refresh that a step starts has read nothing yet. -/
lemma Steps.task_new {a : Action} {r : Refresh} (h : Steps o s a s') (hs : s.tasks[t]? = none)
    (ht : s'.tasks[t]? = some r) : r = .reading := by
  have hset : ∀ {t' : ℕ} {r' : Refresh}, (s.tasks.set t' r')[t]? = none := by
    intro t' r'
    rw [List.getElem?_eq_none_iff, List.length_set]
    exact List.getElem?_eq_none_iff.mp hs
  cases h with
  | started =>
    have hle := List.getElem?_eq_none_iff.mp hs
    rw [State.resume, List.getElem?_append_right hle, List.getElem?_singleton] at ht
    split_ifs at ht
    exact (Option.some.inj ht).symm
  | taskRead => cases hset.symm.trans ht
  | taskReadFails => cases hset.symm.trans ht
  | loggedOut => cases hset.symm.trans ht
  | taskSend => cases hset.symm.trans ht
  | taskAnswer => cases hset.symm.trans ht
  | taskWrite => cases hset.symm.trans ht
  | taskWriteFails => cases hset.symm.trans ht
  | taskFinally => cases hset.symm.trans ht
  | _ => cases hs.symm.trans ht

lemma writing_of_caught {e : Error} {v : Option StoredTokens} {token : Option String}
    (h : Refresh.caught e = .writing v token) : v = none ∧ e = invalidGrant := by
  rw [Refresh.caught] at h
  split_ifs at h with he
  exact ⟨(Refresh.writing.inj h).1.symm, he⟩

/-- How a refresh comes to write: it had to already, or bauth answers with tokens or refuses, or a
write of tokens fails as a refusal would. -/
lemma Steps.writing {a : Action} (h : Steps o s a s') {v : Option StoredTokens}
    {token : Option String} (ht : s'.tasks[t]? = some (.writing v token)) :
    s.tasks[t]? = some (.writing v token) ∨ (∃ tokens, a = .taskAnswer t (.ok tokens)) ∨
      v = none ∧ (a = .taskAnswer t (.error invalidGrant) ∨
        ∃ stored token', s.tasks[t]? = some (.writing (some stored) token')) := by
  cases hs : s.tasks[t]? with
  | none => cases h.task_new hs ht
  | some r =>
    by_cases htask : a.task = some t
    · obtain ⟨r', hr', hmoves⟩ := h.moves htask hs
      obtain rfl := Option.some.inj (hr'.symm.trans ht)
      generalize hw : Refresh.writing v token = w at hmoves
      cases hmoves with
      | taskAnswer stored answer =>
        cases answer with
        | ok tokens => exact .inr (.inl ⟨tokens, rfl⟩)
        | error e =>
          obtain ⟨rfl, rfl⟩ := writing_of_caught hw.symm
          exact .inr (.inr ⟨rfl, .inl rfl⟩)
      | taskWriteFails value token' e =>
        cases value with
        | none => cases hw
        | some stored =>
          obtain ⟨rfl, -⟩ := writing_of_caught hw.symm
          exact .inr (.inr ⟨rfl, .inr ⟨stored, token', rfl⟩⟩)
      | _ => cases hw
    · exact .inl ((h.task_frame htask hs).symm.trans ht ▸ rfl)

/-- What the refreshes that began before a write of `value` may still write. -/
def Harmless (count : ℕ) (value : Option StoredTokens) (s : State) : Prop :=
  ∀ t v token, t < count → s.tasks[t]? = some (.writing v token) → v = none ∧ value = none

lemma harmless_of_run {m : List Taken} {count : ℕ} {value : Option StoredTokens}
    (hrun : (system o).Run s m s') (hs : Harmless count value s)
    (hclear : ∀ q ∈ m, ∀ t, t < count →
      (∀ tokens, q.action ≠ .taskAnswer t (.ok tokens)) ∧ (q.Refuses t → value = none)) :
    Harmless count value s' := by
  refine hrun.keeps hs fun q hq htakes ih t v token ht hwriting => ?_
  obtain ⟨htokens, hrefuses⟩ := hclear q hq t ht
  rcases (Taken.steps htakes).writing hwriting with
    hwriting | ⟨tokens, haction⟩ | ⟨rfl, haction | ⟨stored, token', hwriting⟩⟩
  · exact ih t v token ht hwriting
  · exact absurd haction (htokens tokens)
  · exact ⟨rfl, hrefuses haction⟩
  · exact absurd (ih t _ _ ht hwriting).1 (by simp)

/-- A refresh that found the store empty, or has nothing left to do. -/
def Refresh.isEmpty : Refresh → Bool
  | reading | hasRead none | settled _ | finished _ => true
  | _ => false

/-- The store is empty, and the refreshes that began since found it so. -/
def Emptied (count : ℕ) (s : State) : Prop :=
  s.store = none ∧ ∀ t r, count ≤ t → s.tasks[t]? = some r → r.isEmpty = true

lemma Emptied.task {a : Action} {count : ℕ} {r : Refresh} (h : Emptied count s)
    (hsteps : Steps o s a s') (ht : count ≤ t) (hr : s'.tasks[t]? = some r) : r.isEmpty = true := by
  obtain ⟨hstore, htasks⟩ := h
  cases hs : s.tasks[t]? with
  | none =>
    rw [hsteps.task_new hs hr]
    rfl
  | some r₀ =>
    have hempty := htasks t r₀ ht hs
    by_cases htask : a.task = some t
    · obtain ⟨r', hr', hmoves⟩ := hsteps.moves htask hs
      obtain rfl := Option.some.inj (hr'.symm.trans hr)
      cases hmoves with
      | taskRead =>
        rw [hstore]
        rfl
      | taskSend => cases hempty
      | taskAnswer => cases hempty
      | taskWriteFails => cases hempty
      | _ => rfl
    · obtain rfl := Option.some.inj ((hsteps.task_frame htask hs).symm.trans hr)
      exact hempty

/-- The store changes by a call's write or by a refresh's. -/
lemma Steps.store_eq {a : Action} (h : Steps o s a s') (hwrite : ∀ i value k, a = .perform i →
      s.threads[i]? ≠ some (.await (.write value) k))
    (htask : ∀ t, a ≠ .taskWrite t) : s'.store = s.store := by
  cases h with
  | write hi => exact absurd hi (hwrite _ _ _ rfl)
  | taskWrite => exact absurd rfl (htask _)
  | _ => rfl

/-- A refresh writes what it was about to. -/
lemma Steps.taskWrite_store (h : Steps o s (.taskWrite t) s') :
    ∃ token, s.tasks[t]? = some (.writing s'.store token) := by
  generalize ha : Action.taskWrite t = a at h
  cases h with
  | go hthread =>
    subst ha
    cases hthread
  | taskWrite ht =>
    obtain rfl := Action.taskWrite.inj ha
    exact ⟨_, ht⟩
  | _ => cases ha

/-- From the write of a `logout` on, the store stays empty until a `save` writes it. -/
lemma emptied_of_run {m : List Taken} {count : ℕ} (hrun : (system o).Run s m s')
    (hs : Emptied count s) (hharmless : Harmless count none s)
    (hclear : ∀ q ∈ m, ∀ t, t < count → ∀ tokens, q.action ≠ .taskAnswer t (.ok tokens))
    (hsaves : ∀ q ∈ m, ∀ stored, ¬q.CallWrites (some stored)) : Emptied count s' := by
  induction hrun with
  | nil => exact hs
  | @snoc m q hm hq ih =>
    have hclear' : ∀ q : Taken, q ∈ m → ∀ t, t < count →
        (∀ tokens, q.action ≠ .taskAnswer t (.ok tokens)) ∧
          (q.Refuses t → (none : Option StoredTokens) = none) :=
      fun f hf t ht => ⟨hclear f (List.mem_append_left _ hf) t ht, fun _ => rfl⟩
    have hempty := ih (fun f hf => hclear f (List.mem_append_left _ hf))
      fun f hf => hsaves f (List.mem_append_left _ hf)
    have hharmless' := harmless_of_run hm hharmless hclear'
    have hsteps := Taken.steps hq
    refine ⟨?_, fun t r ht hr => hempty.task hsteps ht hr⟩
    by_cases hwrites : ∃ value, Taken.CallWrites q value
    · obtain ⟨value, hwrites⟩ := hwrites
      rw [(hwrites.after hq).1]
      cases value with
      | none => rfl
      | some stored => exact absurd hwrites (hsaves q (by simp) stored)
    by_cases htask : ∃ t, q.action = .taskWrite t
    · obtain ⟨t, haction⟩ := htask
      rw [haction] at hsteps
      obtain ⟨token, ht⟩ := hsteps.taskWrite_store
      by_cases hlt : t < count
      · exact (hharmless' t _ _ hlt ht).1
      · cases hempty.2 t _ (Nat.le_of_not_lt hlt) ht
    · rw [hsteps.store_eq (fun i value k ha hi => hwrites ⟨value, i, k, ha, hi⟩)
        fun t ha => htask ⟨t, ha⟩]
      exact hempty.1

/-- A session whose logins and logouts meet no refresh that has something to write keeps what they
wrote. -/
theorem refresh_respects {clock : ℤ} {store : Option StoredTokens} {steps : List Taken}
    (hrun : (system o).Run (createSession clock store) steps s) (hclear : Clear steps) :
    Respected steps ∧ StaysEmpty steps s := by
  have hempty : ∀ {l p m n}, steps = l ++ p :: (m ++ n) → Taken.CallWrites p none →
      (∀ q ∈ m, ∀ stored, ¬Taken.CallWrites q (some stored)) →
        ∀ {s'}, (system o).Run p.after m s' → s'.store = none := by
    rintro l p m n rfl hwrites hsaves s' hm
    obtain ⟨-, hp, -⟩ := hrun.around
    obtain ⟨hwriting, hanswers⟩ := hclear l p _ none rfl hwrites
    obtain ⟨hstore, htasks⟩ := hwrites.after hp
    have hemptied : Emptied p.before.tasks.length p.after := by
      refine ⟨hstore, fun t r ht hr => ?_⟩
      rw [htasks, List.getElem?_eq_none_iff.mpr ht] at hr
      cases hr
    have hharmless : Harmless p.before.tasks.length none p.after := by
      intro t v token _ ht
      exact hwriting t v token (htasks ▸ ht)
    refine (emptied_of_run hm hemptied hharmless (fun q hq t ht => ?_) hsaves).1
    exact (hanswers q (List.mem_append_left _ hq) t ht).1
  constructor
  · rintro l p m q n value t rfl hwrites ht haction
    obtain ⟨-, hp, hrest⟩ := hrun.around
    obtain ⟨hm, hq, -⟩ := hrest.around
    have hsteps := Taken.steps hq
    rw [haction] at hsteps
    obtain ⟨token, hwriting⟩ := hsteps.taskWrite_store
    -- what the refresh may write after a write of `value`
    have hharmless : ∀ {l' p' m' value'}, l ++ p :: m = l' ++ p' :: m' →
        Taken.CallWrites p' value' → t < p'.before.tasks.length →
          q.after.store = none ∧ value' = none := by
      rintro l' p' m' value' hsplit hwrites' ht'
      have hall : l ++ p :: (m ++ q :: n) = l' ++ p' :: (m' ++ q :: n) := by
        rw [← List.cons_append, ← List.append_assoc, hsplit]
        simp
      rw [hall] at hrun hclear
      obtain ⟨-, hp', hrest'⟩ := hrun.around
      obtain ⟨hm', -, -⟩ := hrest'.around
      obtain ⟨hnone, hanswers⟩ := hclear l' p' _ value' rfl hwrites'
      have hafter := (hwrites'.after hp').2
      have hthen : Harmless p'.before.tasks.length value' p'.after := by
        intro t' v token' _ hv
        exact hnone t' v token' (hafter ▸ hv)
      exact harmless_of_run hm' hthen (fun f hf => hanswers f (List.mem_append_left _ hf)) t _ token
        ht' hwriting
    obtain ⟨hnone, rfl⟩ := hharmless rfl hwrites ht
    rw [hnone]
    refine (hempty rfl hwrites (fun f hf stored hsave => ?_) hm).symm
    -- a `save` in between would have met the refresh
    obtain ⟨m₁, m₂, rfl⟩ := List.append_of_mem hf
    obtain ⟨hm₁, -, -⟩ := hm.around
    have hle := length_le_of_run hm₁
    rw [(hwrites.after hp).2] at hle
    have hsplit : l ++ p :: (m₁ ++ f :: m₂) = (l ++ p :: m₁) ++ f :: m₂ := by simp
    cases (hharmless hsplit hsave (Nat.lt_of_lt_of_le ht hle)).2
  · rintro l p m rfl hwrites hsaves
    obtain ⟨-, -, hm⟩ := hrun.around
    have hsplit : l ++ p :: m = l ++ p :: (m ++ []) := by simp
    exact hempty hsplit hwrites hsaves hm

end Runs

section Example

/-- Tokens arrive for a refresh after a `logout`. -/
def exampleOverlap : List Action :=
  [.call .refresh, .perform 0, .taskRead 0, .taskSend 0, .call .logout, .perform 1, .perform 1,
    .taskAnswer 0 (.ok exampleTokens), .taskWrite 0]

/-- A `logout` during a refresh is undone: the tokens that bauth answers are stored. -/
theorem logout_undone :
    ¬∀ (o : Options) (clock : ℤ) (store : Option StoredTokens) (steps : List Taken) (s : State),
      (system o).Run (createSession clock store) steps s →
        Respected steps ∧ StaysEmpty steps s := by
  intro h
  have hrun := System.exec_run (rfl : (system exampleOptions).exec
    (createSession 0 (some exampleStored)) exampleOverlap = some (_, _))
  have hrespected := (h _ _ _ _ _ hrun).1 [_, _, _, _, _, _] _ [_] _ [] none 0 rfl
    ⟨1, _, rfl, rfl⟩ (by decide) rfl
  cases hrespected

/-- What a step writes for a call of `save` or `logout`. -/
def Taken.callWrite (p : Taken) : Option (Option StoredTokens) :=
  match p.action with
  | .perform i =>
    match p.before.threads[i]? with
    | some (.await (.write value) _) => some value
    | _ => none
  | _ => none

lemma Taken.CallWrites.callWrite {p : Taken} {value : Option StoredTokens}
    (h : p.CallWrites value) : p.callWrite = some value := by
  obtain ⟨i, k, haction, hi⟩ := h
  simp [Taken.callWrite, haction, hi]

/-- The refresh has nothing to write, or clears the store after a `logout`. -/
def Refresh.yields (value : Option StoredTokens) : Refresh → Bool
  | .writing v _ => v.isNone && value.isNone
  | _ => true

/-- The step leaves the first `count` refreshes nothing to write. -/
def Action.yields (count : ℕ) (value : Option StoredTokens) : Action → Bool
  | .taskAnswer t (.ok _) => count ≤ t
  | .taskAnswer t (.error e) => count ≤ t || e ≠ invalidGrant || value.isNone
  | _ => true

/-- `Clear`, decided on the steps. -/
def isClear : List Taken → Bool
  | [] => true
  | p :: n =>
    p.callWrite.all (fun value => p.before.tasks.all (Refresh.yields value) &&
      n.all fun q => q.action.yields p.before.tasks.length value) && isClear n

lemma clear_of_isClear {steps : List Taken} (h : isClear steps = true) : Clear steps := by
  induction steps with
  | nil => exact fun l p n value hsplit => by simp at hsplit
  | cons p' steps ih =>
    obtain ⟨hhead, hrest⟩ := Bool.and_eq_true_iff.mp h
    rintro (_ | ⟨p₁, l⟩) p n value hsplit hwrites
    · obtain ⟨rfl, rfl⟩ := List.cons_eq_cons.mp hsplit
      rw [hwrites.callWrite, Option.all_some, Bool.and_eq_true, List.all_eq_true,
        List.all_eq_true] at hhead
      constructor
      · intro t v token ht
        have hyields := hhead.1 _ (List.mem_of_getElem? ht)
        simpa [Refresh.yields] using hyields
      · intro q hq t ht
        have hyields := hhead.2 q hq
        constructor
        · intro tokens haction
          rw [haction] at hyields
          simp only [Action.yields, decide_eq_true_eq] at hyields
          omega
        · intro hrefuses
          rw [Taken.Refuses] at hrefuses
          rw [hrefuses] at hyields
          simp only [Action.yields, ne_eq, not_true_eq_false, decide_false, Bool.or_false,
            Bool.or_eq_true, decide_eq_true_eq, Option.isNone_iff_eq_none] at hyields
          exact hyields.resolve_left (by omega)
    · obtain ⟨rfl, rfl⟩ := List.cons_eq_cons.mp hsplit
      exact ih hrest l p n value rfl hwrites

/-- A refresh that a `save` overtakes fails, and one that a `logout` overtakes is refused. -/
def exampleYielding : List Action :=
  [.call .refresh, .perform 0, .taskRead 0, .taskSend 0, .call (.save exampleTokens), .perform 1,
    .perform 1, .taskAnswer 0 (.error .other), .taskFinally 0,
    .call .refresh, .perform 2, .taskRead 1, .taskSend 1, .call .logout, .perform 3, .perform 3,
    .taskAnswer 1 (.error invalidGrant), .taskWrite 1, .taskFinally 1]

/-- Neither of them changes what the call wrote. -/
theorem refresh_respects_yielding : ∃ steps s,
    (system exampleOptions).Run (createSession 0 (some exampleStored)) steps s ∧
      Respected steps ∧ StaysEmpty steps s ∧ s.store = none ∧
      s.tasks = [.finished (.error .other), .finished (.ok none)] := by
  have hrun := System.exec_run (rfl : (system exampleOptions).exec
    (createSession 0 (some exampleStored)) exampleYielding = some (_, _))
  obtain ⟨hrespected, hempty⟩ := refresh_respects hrun (clear_of_isClear (by decide +kernel))
  exact ⟨_, _, hrun, hrespected, hempty, rfl, rfl⟩

end Example

end Sdk

end Bauth
