import Bauth.Sdk.Session

/-!
# What a step of a session does

The store changes when a call or a refresh writes it, a refresh is started when there is none, and
everything else moves one call or one refresh on.
-/

namespace Bauth

open Transition

namespace Sdk

/-- The thread that moves on. -/
def Action.thread : Action → Option ℕ
  | perform i => some i
  | fail i _ => some i
  | respond i _ => some i
  | _ => none

/-- The refresh that a step moves on. -/
def Action.task : Action → Option ℕ
  | taskRead t => some t
  | taskReadFails t _ => some t
  | taskSend t => some t
  | taskAnswer t _ => some t
  | taskWrite t => some t
  | taskWriteFails t _ => some t
  | taskFinally t => some t
  | _ => none

/-- The operations that call or await a refresh. -/
def Op.isRefresh : Op → Bool
  | refresh | refreshOnce _ | promise _ _ => true
  | _ => false

/-- Thread `i` is about to call `refresh`, through `refreshOnce` of a middleware or not. -/
def State.Calls (s : State) (i : ℕ) (k : Except Error (Option String) → Async awaits Outcome) :
    Option ℕ → Prop
  | none => s.threads[i]? = some (.await .refresh k)
  | some m => s.threads[i]? = some (.await (.refreshOnce m) k)

/-- Thread `i` waits for refresh `t`. -/
def State.Waits (s : State) (i t : ℕ) (k : Except Error (Option String) → Async awaits Outcome) :
    Prop :=
  ∃ m, s.threads[i]? = some (.await (.promise t m) k)

/-- What a step does, with what it depends on. -/
inductive Steps (o : Options) (s : State) : Action → State → Prop
  | tick {time : ℤ} (h : s.clock ≤ time) : Steps o s (.tick time) { s with clock := time }
  | middleware : Steps o s .middleware { s with middlewares := s.middlewares ++ [{}] }
  | call (c : Call) : Steps o s (.call c) { s with threads := s.threads ++ [c.run o] }
  | go {a : Action} {i : ℕ} {op : Op} {k : Except Error op.Answer → Async awaits Outcome}
      (ha : a.thread = some i) (hi : s.threads[i]? = some (.await op k))
      (hwrite : ∀ value, a = .perform i → op ≠ .write value) (hop : op.isRefresh = false)
      (r : Except Error op.Answer) (ms : List Middleware) :
      Steps o s a ({ s with middlewares := ms }.resume i (k r))
  | write {i : ℕ} {value : Option StoredTokens} {k : Except Error Unit → Async awaits Outcome}
      (hi : s.threads[i]? = some (.await (.write value) k)) :
      Steps o s (.perform i) ({ s with store := value }.resume i (k (.ok ())))
  | joined {i t : ℕ} {m : Option ℕ} {k : Except Error (Option String) → Async awaits Outcome}
      (hi : s.Calls i k m) (ht : m = none → s.refreshing = some t)
      (ms : List Middleware) :
      Steps o s (.perform i) ({ s with middlewares := ms }.resume i (.await (.promise t m) k))
  | started {i : ℕ} {m : Option ℕ} {k : Except Error (Option String) → Async awaits Outcome}
      (hi : s.Calls i k m) (hnone : s.refreshing = none) (ms : List Middleware) :
      Steps o s (.perform i)
        ({ s with refreshing := some s.tasks.length, tasks := s.tasks ++ [Refresh.reading],
                  middlewares := ms }.resume i (.await (.promise s.tasks.length m) k))
  | resolved {i t : ℕ} {m : Option ℕ} {k : Except Error (Option String) → Async awaits Outcome}
      (hi : s.threads[i]? = some (.await (.promise t m) k))
      {result : Except Error (Option String)} (ht : s.tasks[t]? = some (.finished result)) :
      Steps o s (.perform i) (s.resume i (k result))
  | release {m : ℕ} (ms : List Middleware) : Steps o s (.release m) { s with middlewares := ms }
  | taskRead {t : ℕ} (ht : s.tasks[t]? = some .reading) :
      Steps o s (.taskRead t) (s.setTask t (.hasRead s.store))
  | taskReadFails {t : ℕ} (ht : s.tasks[t]? = some .reading) (e : Error) :
      Steps o s (.taskReadFails t e) (s.setTask t (.settled (.error e)))
  | loggedOut {t : ℕ} (ht : s.tasks[t]? = some (.hasRead none)) :
      Steps o s (.taskSend t) (s.setTask t (.settled (.ok none)))
  | taskSend {t : ℕ} {stored : StoredTokens} (ht : s.tasks[t]? = some (.hasRead (some stored))) :
      Steps o s (.taskSend t) (s.setTask t (.sent stored))
  | taskAnswer {t : ℕ} {stored : StoredTokens} (ht : s.tasks[t]? = some (.sent stored))
      (answer : Except Error Tokens) :
      Steps o s (.taskAnswer t answer) (s.setTask t (.answered s.clock answer))
  | taskWrite {t : ℕ} {value : Option StoredTokens} {token : Option String}
      (ht : s.tasks[t]? = some (.writing value token)) :
      Steps o s (.taskWrite t) ({ s with store := value }.setTask t (.settled (.ok token)))
  | taskWriteFails {t : ℕ} {value : Option StoredTokens} {token : Option String}
      (ht : s.tasks[t]? = some (.writing value token)) (e : Error) :
      Steps o s (.taskWriteFails t e) (s.setTask t (.writeFailed value e))
  | taskFinally {t : ℕ} {result : Except Error (Option String)}
      (ht : s.tasks[t]? = some (.settled result)) :
      Steps o s (.taskFinally t) ({ s with refreshing := none }.setTask t (.finished result))

variable {o : Options} {s s' : State}

lemma Op.isRefresh_of_canFail {op : Op} (h : op.canFail = true) : op.isRefresh = false := by
  cases op <;> first | rfl | cases h

lemma State.startRefresh_some {t : ℕ} (h : s.refreshing = some t) : s.startRefresh = (s, t) := by
  simp [startRefresh, h]

lemma State.startRefresh_none (h : s.refreshing = none) : s.startRefresh =
    ({ s with refreshing := some s.tasks.length, tasks := s.tasks ++ [.reading] },
      s.tasks.length) := by
  simp [startRefresh, h]

lemma steps_of_perform {i : ℕ} {op : Op} {k : Except Error op.Answer → Async awaits Outcome}
    (hi : s.threads[i]? = some (.await op k)) (h : perform s i op k = some s') :
    Steps o s (.perform i) s' := by
  cases op with
  | read =>
    obtain rfl := Option.some.inj h
    exact .go rfl hi (by simp) rfl (.ok s.store) s.middlewares
  | write value =>
    obtain rfl := Option.some.inj h
    exact .write hi
  | refresh =>
    cases hrefreshing : s.refreshing with
    | some t =>
      rw [perform, State.startRefresh_some hrefreshing] at h
      obtain rfl := Option.some.inj h
      exact .joined (m := none) hi (fun _ => hrefreshing) s.middlewares
    | none =>
      rw [perform, State.startRefresh_none hrefreshing] at h
      obtain rfl := Option.some.inj h
      exact .started (m := none) hi hrefreshing s.middlewares
  | refreshOnce m =>
    simp only [perform] at h
    split at h
    · cases h
    · split at h
      · obtain rfl := Option.some.inj h
        exact .joined (m := some m) hi (by simp) s.middlewares
      · cases hrefreshing : s.refreshing with
        | some t =>
          rw [State.startRefresh_some hrefreshing] at h
          obtain rfl := Option.some.inj h
          exact .joined (m := some m) hi (by simp) _
        | none =>
          rw [State.startRefresh_none hrefreshing] at h
          obtain rfl := Option.some.inj h
          exact .started (m := some m) hi hrefreshing _
  | promise t m =>
    simp only [perform] at h
    split at h
    · rename_i result ht
      split_ifs at h
      obtain rfl := Option.some.inj h
      exact .resolved hi ht
    · cases h
  | send => cases h
  | revoke =>
    obtain rfl := Option.some.inj h
    exact .go rfl hi (by simp) rfl (.ok ()) s.middlewares
  | now =>
    obtain rfl := Option.some.inj h
    exact .go rfl hi (by simp) rfl (.ok s.clock) s.middlewares
  | keep m id =>
    obtain rfl := Option.some.inj h
    exact .go rfl hi (by simp) rfl (.ok ()) _
  | take m id =>
    obtain rfl := Option.some.inj h
    exact .go rfl hi (by simp) rfl (.ok _) _

/-- Every step of a session is one of them. -/
lemma steps_of_step {a : Action} (h : step o s a = some s') : Steps o s a s' := by
  cases a with
  | tick time =>
    simp only [step, Option.ite_none_right_eq_some, Option.some.injEq] at h
    obtain ⟨hle, rfl⟩ := h
    exact .tick hle
  | middleware =>
    obtain rfl := Option.some.inj h
    exact .middleware
  | call c =>
    obtain rfl := Option.some.inj h
    exact .call c
  | perform i =>
    simp only [step] at h
    split at h
    · rename_i op k hi
      exact steps_of_perform hi h
    · cases h
  | fail i e =>
    simp only [step] at h
    split at h
    · rename_i op k hi
      split_ifs at h with hfail
      obtain rfl := Option.some.inj h
      exact .go rfl hi (by simp) (Op.isRefresh_of_canFail hfail) (.error e) s.middlewares
    · cases h
  | respond i status =>
    simp only [step] at h
    split at h
    · rename_i authorization k hi
      obtain rfl := Option.some.inj h
      exact .go rfl hi (by simp) rfl (.ok status) s.middlewares
    · cases h
  | release m =>
    simp only [step] at h
    split at h
    · split at h
      · obtain rfl := Option.some.inj h
        exact .release _
      · cases h
    · cases h
  | taskRead t =>
    simp only [step] at h
    split at h
    · rename_i ht
      obtain rfl := Option.some.inj h
      exact .taskRead ht
    · cases h
  | taskReadFails t e =>
    simp only [step] at h
    split at h
    · rename_i ht
      obtain rfl := Option.some.inj h
      exact .taskReadFails ht e
    · cases h
  | taskSend t =>
    simp only [step] at h
    split at h
    · rename_i ht
      obtain rfl := Option.some.inj h
      exact .loggedOut ht
    · rename_i ht
      obtain rfl := Option.some.inj h
      exact .taskSend ht
    · cases h
  | taskAnswer t answer =>
    simp only [step] at h
    split at h
    · rename_i ht
      obtain rfl := Option.some.inj h
      exact .taskAnswer ht answer
    · cases h
  | taskWrite t =>
    simp only [step] at h
    split at h
    · rename_i ht
      obtain rfl := Option.some.inj h
      exact .taskWrite ht
    · cases h
  | taskWriteFails t e =>
    simp only [step] at h
    split at h
    · rename_i ht
      obtain rfl := Option.some.inj h
      exact .taskWriteFails ht e
    · cases h
  | taskFinally t =>
    simp only [step] at h
    split at h
    · rename_i ht
      obtain rfl := Option.some.inj h
      exact .taskFinally ht
    · cases h

/-! ### One refresh, one call -/

section Frame

variable {a : Action} {t : ℕ} {r r' : Refresh}

lemma setTask_self (h : s.tasks[t]? = some r) : (s.setTask t r').tasks[t]? = some r' := by
  obtain ⟨ht, -⟩ := List.getElem?_eq_some_iff.mp h
  simp [State.setTask, ht]

lemma setTask_ne {t' : ℕ} (h : t ≠ t') : (s.setTask t r).tasks[t']? = s.tasks[t']? := by
  simp [State.setTask, h]

/-- A refresh stays as it is at the steps of the others. -/
lemma Steps.task_frame (h : Steps o s a s') (ha : a.task ≠ some t) (ht : s.tasks[t]? = some r) :
    s'.tasks[t]? = some r := by
  have hset : ∀ {t' : ℕ} {r' : Refresh} {store : Option StoredTokens} {refreshing : Option ℕ},
      some t' ≠ some t →
      ({ s with store := store, refreshing := refreshing }.setTask t' r').tasks[t]? = some r := by
    intro t' r' store refreshing hne
    rw [setTask_ne (fun h => hne (congrArg some h))]
    exact ht
  cases h with
  | started =>
    obtain ⟨hlt, -⟩ := List.getElem?_eq_some_iff.mp ht
    exact (List.getElem?_append_left hlt).trans ht
  | taskRead => exact hset ha
  | taskReadFails => exact hset ha
  | loggedOut => exact hset ha
  | taskSend => exact hset ha
  | taskAnswer => exact hset ha
  | taskWrite => exact hset ha
  | taskWriteFails => exact hset ha
  | taskFinally => exact hset ha
  | _ => exact ht

lemma Action.thread_of_task (h : a.task = some t) : a.thread = none := by
  cases a <;> first | rfl | cases h

/-- How refresh `t` moves on. -/
inductive Moves (s : State) (t : ℕ) : Action → Refresh → Refresh → Prop
  | taskRead : Moves s t (.taskRead t) .reading (.hasRead s.store)
  | taskReadFails (e : Error) : Moves s t (.taskReadFails t e) .reading (.settled (.error e))
  | loggedOut : Moves s t (.taskSend t) (.hasRead none) (.settled (.ok none))
  | taskSend (stored : StoredTokens) :
      Moves s t (.taskSend t) (.hasRead (some stored)) (.sent stored)
  | taskAnswer (stored : StoredTokens) (answer : Except Error Tokens) :
      Moves s t (.taskAnswer t answer) (.sent stored) (.answered s.clock answer)
  | taskWrite (value : Option StoredTokens) (token : Option String) :
      Moves s t (.taskWrite t) (.writing value token) (.settled (.ok token))
  | taskWriteFails (value : Option StoredTokens) (token : Option String) (e : Error) :
      Moves s t (.taskWriteFails t e) (.writing value token) (.writeFailed value e)
  | taskFinally (result : Except Error (Option String)) :
      Moves s t (.taskFinally t) (.settled result) (.finished result)

lemma Steps.moves (h : Steps o s a s') (ha : a.task = some t) (ht : s.tasks[t]? = some r) :
    ∃ r', s'.tasks[t]? = some r' ∧ Moves s t a r r' := by
  cases h with
  | go hthread => cases (Action.thread_of_task ha).symm.trans hthread
  | taskRead ht' =>
    obtain rfl := Option.some.inj ha
    obtain rfl := Option.some.inj (ht.symm.trans ht')
    exact ⟨_, setTask_self ht', .taskRead⟩
  | taskReadFails ht' e =>
    obtain rfl := Option.some.inj ha
    obtain rfl := Option.some.inj (ht.symm.trans ht')
    exact ⟨_, setTask_self ht', .taskReadFails e⟩
  | loggedOut ht' =>
    obtain rfl := Option.some.inj ha
    obtain rfl := Option.some.inj (ht.symm.trans ht')
    exact ⟨_, setTask_self ht', .loggedOut⟩
  | taskSend ht' =>
    obtain rfl := Option.some.inj ha
    obtain rfl := Option.some.inj (ht.symm.trans ht')
    exact ⟨_, setTask_self ht', .taskSend _⟩
  | taskAnswer ht' answer =>
    obtain rfl := Option.some.inj ha
    obtain rfl := Option.some.inj (ht.symm.trans ht')
    exact ⟨_, setTask_self ht', .taskAnswer _ answer⟩
  | taskWrite ht' =>
    obtain rfl := Option.some.inj ha
    obtain rfl := Option.some.inj (ht.symm.trans ht')
    exact ⟨_, setTask_self ht', .taskWrite _ _⟩
  | taskWriteFails ht' e =>
    obtain rfl := Option.some.inj ha
    obtain rfl := Option.some.inj (ht.symm.trans ht')
    exact ⟨_, setTask_self ht', .taskWriteFails _ _ e⟩
  | taskFinally ht' =>
    obtain rfl := Option.some.inj ha
    obtain rfl := Option.some.inj (ht.symm.trans ht')
    exact ⟨_, setTask_self ht', .taskFinally _⟩
  | _ => cases ha

/-- A call that waits for a refresh goes on with its result. -/
lemma Steps.waits (h : Steps o s a s') {i : ℕ}
    {k : Except Error (Option String) → Async awaits Outcome} (hi : s.Waits i t k)
    (hmoved : s'.threads[i]? ≠ s.threads[i]?) :
    ∃ result, s.tasks[t]? = some (.finished result) ∧ s'.threads[i]? = some (k result) := by
  obtain ⟨m, hi⟩ := hi
  have hset : ∀ {j : ℕ} {q p : Async awaits Outcome}, s.threads[j]? = some q →
      (s.threads.set j p)[i]? ≠ s.threads[i]? → j = i ∧ q = .await (.promise t m) k := by
    intro j q p hj hne
    by_cases hji : j = i
    · subst hji
      exact ⟨rfl, Option.some.inj (hj.symm.trans hi)⟩
    · exact absurd (List.getElem?_set_ne hji) hne
  cases h with
  | call c =>
    obtain ⟨hlt, -⟩ := List.getElem?_eq_some_iff.mp hi
    exact absurd (List.getElem?_append_left hlt) hmoved
  | go _ hj _ hop =>
    obtain ⟨rfl, hq⟩ := hset hj hmoved
    obtain ⟨rfl, -⟩ := Async.await.inj hq
    cases hop
  | write hj =>
    obtain ⟨rfl, hq⟩ := hset hj hmoved
    cases (Async.await.inj hq).1
  | @joined _ _ m' _ hj =>
    cases m' <;>
    · obtain ⟨rfl, hq⟩ := hset hj hmoved
      cases (Async.await.inj hq).1
  | @started _ m' _ hj =>
    cases m' <;>
    · obtain ⟨rfl, hq⟩ := hset hj hmoved
      cases (Async.await.inj hq).1
  | resolved hj ht =>
    obtain ⟨rfl, hq⟩ := hset hj hmoved
    obtain ⟨hpromise, hk⟩ := Async.await.inj hq
    cases hpromise
    cases hk
    obtain ⟨hlt, -⟩ := List.getElem?_eq_some_iff.mp hj
    exact ⟨_, ht, List.getElem?_set_self hlt⟩
  | _ => exact absurd rfl hmoved

end Frame

end Sdk

end Bauth
