import Bauth.Sdk.Step

/-!
# One refresh at a time

While nobody else writes the store, the calls of a session share one request at most, and a
refresh token that bauth has rotated or refused is not sent again.
-/

namespace Bauth

open Transition

namespace Sdk

/-- A step of the session, as taken. -/
abbrev Taken := Transition.Step State Action

/-- The `invalid_grant` of bauth. -/
def invalidGrant : Error := .bauth "invalid_grant"

/-- What the callers of a refresh get. -/
def resultOf : Except Error Tokens → Except Error (Option String)
  | .ok tokens => .ok (some tokens.accessToken)
  | .error e => if e = invalidGrant then .ok none else .error e

namespace Taken

/-- Refresh `t` sends `token`. -/
def Sends (p : Taken) (t : ℕ) (token : String) : Prop :=
  p.action = .taskSend t ∧
    ∃ stored, p.before.tasks[t]? = some (.hasRead (some stored)) ∧ stored.refreshToken = token

/-- The request of refresh `t` fails, and not with `invalid_grant`. -/
def Excuses (p : Taken) (t : ℕ) : Prop :=
  ∃ e, p.action = .taskAnswer t (.error e) ∧ e ≠ invalidGrant

/-- The request of refresh `t` is refused. -/
def Refuses (p : Taken) (t : ℕ) : Prop := p.action = .taskAnswer t (.error invalidGrant)

end Taken

/-- The request of refresh `t` is in flight. -/
def State.InFlight (s : State) (t : ℕ) : Prop := ∃ stored, s.tasks[t]? = some (.sent stored)

/-- No call of `save` or `logout`, and no write of the store fails. -/
def Undisturbed (steps : List Taken) : Prop :=
  ∀ p ∈ steps, (∀ tokens, p.action ≠ .call (.save tokens)) ∧ p.action ≠ .call .logout ∧
    ∀ t e, p.action ≠ .taskWriteFails t e

/-- bauth answers with refresh tokens it was never sent. -/
def FreshTokens (steps : List Taken) : Prop :=
  ∀ l p n t tokens, steps = l ++ p :: n → p.action = .taskAnswer t (.ok tokens) →
    ∀ q ∈ l, ∀ t', ¬Taken.Sends q t' tokens.refreshToken

/-! ### Spent tokens -/

section Spent

variable {l : List Taken} {p : Taken} {t : ℕ} {token : String}

/-- Refresh `t` sent `token`, and its request did not fail. -/
def Spent (l : List Taken) (t : ℕ) (token : String) : Prop :=
  ∃ l₁ p l₂, l = l₁ ++ p :: l₂ ∧ p.Sends t token ∧ ∀ q ∈ l₂, ¬Taken.Excuses q t

def Ended (l : List Taken) : Prop := ∃ p ∈ l, ∃ t, Taken.Refuses p t

/-- The token of the store may be sent. -/
def Clean (l : List Taken) (store : Option StoredTokens) : Prop :=
  ∀ stored, store = some stored → (∀ t, ¬Spent l t stored.refreshToken) ∧ ¬Ended l

lemma Spent.of_snoc (h : Spent (l ++ [p]) t token) :
    p.Sends t token ∨ Spent l t token ∧ ¬p.Excuses t := by
  obtain ⟨l₁, q, l₂, hsplit, hq, hnone⟩ := h
  rcases List.eq_nil_or_concat l₂ with rfl | ⟨l₃, r, rfl⟩
  · obtain ⟨-, hpq⟩ := List.append_inj' hsplit rfl
    obtain rfl := List.singleton_inj.mp hpq
    exact .inl hq
  · have hsplit' : l ++ [p] = (l₁ ++ q :: l₃) ++ [r] := by simpa using hsplit
    obtain ⟨rfl, hpr⟩ := List.append_inj' hsplit' rfl
    obtain rfl := List.singleton_inj.mp hpr
    exact .inr ⟨⟨l₁, q, l₃, rfl, hq, fun f hf => hnone f (by simp [hf])⟩, hnone p (by simp)⟩

/-- A step that sends nothing spends nothing. -/
lemma Spent.of_silent (h : Spent (l ++ [p]) t token) (hp : ∀ t, p.action ≠ .taskSend t) :
    Spent l t token :=
  (h.of_snoc.resolve_left fun hsends => hp t hsends.1).1

lemma Ended.of_snoc (h : Ended (l ++ [p])) (hp : ∀ t, ¬p.Refuses t) : Ended l := by
  obtain ⟨q, hq, t, hrefuses⟩ := h
  rcases List.mem_append.mp hq with hq | hq
  · exact ⟨q, hq, t, hrefuses⟩
  · obtain rfl := List.mem_singleton.mp hq
    exact absurd hrefuses (hp t)

lemma Clean.snoc {store : Option StoredTokens} (h : Clean l store)
    (hsend : ∀ t, p.action ≠ .taskSend t) (hanswer : ∀ t, ¬p.Refuses t) :
    Clean (l ++ [p]) store := by
  intro stored hstored
  obtain ⟨hspent, hended⟩ := h stored hstored
  exact ⟨fun t ht => hspent t (ht.of_silent hsend), fun he => hended (he.of_snoc hanswer)⟩

lemma clean_none : Clean l none := by
  intro stored h
  cases h

end Spent

/-! ### The invariant -/

/-- What refresh `t` may still do to the store. -/
def Good (l : List Taken) (store : Option StoredTokens) (t : ℕ) : Refresh → Prop
  | .reading => Clean l store
  | .hasRead stored => Clean l store ∧ store = stored
  | .sent stored => store = some stored ∧ (∀ t', t' ≠ t → ¬Spent l t' stored.refreshToken) ∧ ¬Ended l
  | .writing value _ => Clean l value
  | .settled _ => Clean l store
  | .finished _ => False

def Op.isWrite : Op → Bool
  | write _ => true
  | _ => false

/-- No write of the store is awaited. -/
abbrev Quiet {α : Type} (p : Async awaits α) : Prop := p.All fun op : Op => op.isWrite = false

/-- Refreshes and calls after the steps `l`: one refresh at most is under way, that of
`refreshing`, and no call writes the store. -/
structure Flight (l : List Taken) (s : State) : Prop where
  quiet : ∀ p ∈ s.threads, Quiet p
  others : ∀ t r, s.tasks[t]? = some r → s.refreshing = some t ∨ ∃ result, r = .finished result
  idle : s.refreshing = none → Clean l s.store
  busy : ∀ t, s.refreshing = some t → ∃ r, s.tasks[t]? = some r ∧ Good l s.store t r

section Calls

lemma quiet_perform {op : Op} (h : op.isWrite = false) :
    Quiet (Async.perform (A := awaits) op) := Async.all_perform h

lemma quiet_readStore : Quiet readStore := Async.all_perform rfl

lemma quiet_now : Quiet dateNow := Async.all_perform rfl

lemma quiet_refresh : Quiet refresh := Async.all_perform rfl

lemma quiet_refreshOnce (m : ℕ) : Quiet (refreshOnce m) :=
  Async.all_perform rfl

lemma quiet_send (a : Option String) : Quiet (send a) :=
  Async.all_perform rfl

lemma quiet_accessToken (o : Options) : Quiet (accessToken o) := by
  refine quiet_readStore.bind fun stored => ?_
  cases stored with
  | none => exact Async.all_pure
  | some stored =>
    refine quiet_now.bind fun now => ?_
    split_ifs
    · exact Async.all_pure
    · exact quiet_refresh.catching fun e => quiet_now.bind fun now => Async.all_pure

lemma quiet_fetcher (o : Options) : Quiet (fetcher o) := by
  refine (quiet_accessToken o).bind fun token => ?_
  split
  · exact (quiet_send _).bind fun status => Async.all_pure
  · refine (quiet_send _).bind fun status => ?_
    split_ifs
    · exact Async.all_pure
    · refine quiet_readStore.bind fun stored => ?_
      refine Async.All.bind (Async.All.attempt ?_) fun next => ?_
      · split_ifs
        · exact Async.all_pure
        · exact quiet_refresh
      · split
        · exact Async.all_pure
        · split
          · exact Async.all_pure
          · exact (quiet_send _).bind fun retried => Async.all_pure

lemma quiet_isAccessTokenExpiring (o : Options) : Quiet (isAccessTokenExpiring o) := by
  refine quiet_readStore.bind fun stored => ?_
  cases stored with
  | none => exact Async.all_pure
  | some stored => exact quiet_now.bind fun now => Async.all_pure

lemma quiet_requestToken (o : Options) (m : ℕ) : Quiet (requestToken o m) := by
  refine quiet_readStore.bind fun stored => ?_
  dsimp only
  split
  · exact Async.all_pure
  · refine (quiet_isAccessTokenExpiring o).bind fun expiring => ?_
    split_ifs
    · refine Async.All.bind ?_ fun refreshed => Async.all_pure
      exact (quiet_refreshOnce m).catching fun e => Async.all_pure
    · exact Async.all_pure

lemma quiet_onRequest (o : Options) (m id : ℕ) : Quiet (onRequest o m id) := by
  refine (quiet_requestToken o m).bind fun token => ?_
  exact (quiet_perform rfl).bind fun _ => Async.all_pure

lemma quiet_onResponse (m id status : ℕ) : Quiet (onResponse m id status) := by
  refine (quiet_perform rfl).bind fun request => ?_
  split_ifs
  · exact Async.all_pure
  · refine (quiet_refreshOnce m).bind fun token => ?_
    split
    · exact Async.all_pure
    · exact (quiet_send _).bind fun retried => Async.all_pure

/-- Only `save` and `logout` write the store. -/
lemma quiet_call (o : Options) {c : Call} (hsave : ∀ tokens, c ≠ .save tokens)
    (hlogout : c ≠ .logout) : Quiet (c.run o) := by
  cases c with
  | save tokens => exact absurd rfl (hsave tokens)
  | logout => exact absurd rfl hlogout
  | accessToken => exact (quiet_accessToken o).bind fun _ => Async.all_pure
  | refresh => exact quiet_refresh.bind fun _ => Async.all_pure
  | fetch => exact quiet_fetcher o
  | onRequest m id => exact quiet_onRequest o m id
  | onResponse m id status => exact quiet_onResponse m id status
  | onError m id => exact (quiet_perform rfl).bind fun _ => Async.all_pure

end Calls

section Runs

variable {o : Options} {l : List Taken} {p : Taken} {s s' : State} {t : ℕ} {r r' : Refresh}

lemma Taken.steps (hp : (system o).Takes p) : Steps o p.before p.action p.after := steps_of_step hp

lemma Good.snoc {store : Option StoredTokens} (h : Good l store t r)
    (hsend : ∀ t, p.action ≠ .taskSend t) (hanswer : ∀ t, ¬p.Refuses t) :
    Good (l ++ [p]) store t r := by
  cases r with
  | reading => exact Clean.snoc h hsend hanswer
  | hasRead stored => exact ⟨h.1.snoc hsend hanswer, h.2⟩
  | sent stored =>
    obtain ⟨hstore, hspent, hended⟩ := h
    exact ⟨hstore, fun t' ht' hs => hspent t' ht' (hs.of_silent hsend),
      fun he => hended (he.of_snoc hanswer)⟩
  | writing value token => exact Clean.snoc h hsend hanswer
  | settled result => exact Clean.snoc h hsend hanswer
  | finished result => exact h

/-- The refresh under way is the one of `refreshing`. -/
lemma Flight.current (h : Flight l s) (ht : s.tasks[t]? = some r)
    (hr : ∀ result, r ≠ .finished result) : s.refreshing = some t ∧ Good l s.store t r := by
  rcases h.others t r ht with hrefreshing | ⟨result, rfl⟩
  · obtain ⟨r', ht', hgood⟩ := h.busy t hrefreshing
    obtain rfl := Option.some.inj (ht.symm.trans ht')
    exact ⟨hrefreshing, hgood⟩
  · exact absurd rfl (hr result)

/-- A step that only moves calls on. -/
lemma Flight.frame (h : Flight l s) (hquiet : ∀ q ∈ s'.threads, Quiet q)
    (hstore : s'.store = s.store) (hrefreshing : s'.refreshing = s.refreshing)
    (htasks : s'.tasks = s.tasks) (hsend : ∀ t, p.action ≠ .taskSend t)
    (hanswer : ∀ t, ¬p.Refuses t) : Flight (l ++ [p]) s' := by
  constructor
  · exact hquiet
  · intro t r ht
    rw [hrefreshing]
    rw [htasks] at ht
    exact h.others t r ht
  · intro hnone
    rw [hrefreshing] at hnone
    rw [hstore]
    exact (h.idle hnone).snoc hsend hanswer
  · intro t ht
    rw [hrefreshing] at ht
    obtain ⟨r, hr, hgood⟩ := h.busy t ht
    rw [htasks, hstore]
    exact ⟨r, hr, hgood.snoc hsend hanswer⟩

/-- The refresh under way moves on. -/
lemma Flight.setTask (h : Flight l s) {l' : List Taken} (hrefreshing : s.refreshing = some t)
    (ht : s.tasks[t]? = some r) {store : Option StoredTokens} (hgood : Good l' store t r') :
    Flight l' ({ s with store }.setTask t r') := by
  constructor
  · exact h.quiet
  · intro t' r'' ht'
    by_cases hne : t = t'
    · exact .inl (hne ▸ hrefreshing)
    · rw [setTask_ne hne] at ht'
      exact h.others t' r'' ht'
  · intro hnone
    exact absurd (hrefreshing.symm.trans hnone) (by simp)
  · intro t' ht'
    obtain rfl := Option.some.inj (hrefreshing.symm.trans ht')
    exact ⟨r', setTask_self (s := { s with store }) ht, hgood⟩

lemma quiet_set {threads : List (Async awaits Outcome)} {i : ℕ} {q : Async awaits Outcome}
    (h : ∀ q ∈ threads, Quiet q) (hq : Quiet q) : ∀ q' ∈ threads.set i q, Quiet q' := by
  intro q' hq'
  rcases List.mem_or_eq_of_mem_set hq' with hq' | rfl
  · exact h q' hq'
  · exact hq

lemma State.Calls.quiet {i : ℕ} {m : Option ℕ}
    {k : Except Error (Option String) → Async awaits Outcome} (hi : s.Calls i k m) (h : ∀ q ∈ s.threads, Quiet q) (t : ℕ) :
    Quiet (.await (.promise t m) k) := by
  refine ⟨rfl, ?_⟩
  cases m with
  | none => exact (h _ (List.mem_of_getElem? hi)).2
  | some m => exact (h _ (List.mem_of_getElem? hi)).2

/-- One step keeps the invariant. -/
lemma flight_step (h : Flight l p.before) (hp : (system o).Takes p)
    (hsave : ∀ tokens, p.action ≠ .call (.save tokens)) (hlogout : p.action ≠ .call .logout)
    (hwrites : ∀ t e, p.action ≠ .taskWriteFails t e)
    (hfresh : ∀ t tokens, p.action = .taskAnswer t (.ok tokens) →
      ∀ q ∈ l, ∀ t', ¬Taken.Sends q t' tokens.refreshToken) :
    Flight (l ++ [p]) p.after := by
  have hsteps := Taken.steps hp
  have hquiet := h.quiet
  generalize haction : p.action = action at hsteps
  generalize p.after = after at hsteps
  -- most steps neither send nor are refused
  have hsend : (∀ t, action ≠ .taskSend t) → ∀ t, p.action ≠ .taskSend t := by
    rw [haction]
    exact id
  have hrefuse : (∀ t answer, action ≠ .taskAnswer t answer) → ∀ t, ¬p.Refuses t := by
    rintro hne t hrefuses
    exact hne t _ (haction.symm.trans hrefuses)
  cases hsteps with
  | tick => exact h.frame hquiet rfl rfl rfl (hsend (by simp)) (hrefuse (by simp))
  | middleware => exact h.frame hquiet rfl rfl rfl (hsend (by simp)) (hrefuse (by simp))
  | call c =>
    refine h.frame ?_ rfl rfl rfl (hsend (by simp)) (hrefuse (by simp))
    intro q hq
    rcases List.mem_append.mp hq with hq | hq
    · exact hquiet q hq
    · rw [List.mem_singleton.mp hq]
      refine quiet_call o (fun tokens hc => hsave tokens ?_) (fun hc => hlogout ?_)
      · rw [haction, hc]
      · rw [haction, hc]
  | go ha hi _ _ r ms =>
    refine h.frame (quiet_set hquiet ?_) rfl rfl rfl (hsend ?_) (hrefuse ?_)
    · exact (hquiet _ (List.mem_of_getElem? hi)).next r
    · rintro t rfl
      cases ha
    · rintro t answer rfl
      cases ha
  | write hi => exact absurd (hquiet _ (List.mem_of_getElem? hi)).1 (by simp [Op.isWrite])
  | joined hi _ ms =>
    exact h.frame (quiet_set hquiet (hi.quiet hquiet _)) rfl rfl rfl (hsend (by simp))
      (hrefuse (by simp))
  | started hi hnone ms =>
    have hclean := (h.idle hnone).snoc (p := p) (hsend (by simp)) (hrefuse (by simp))
    constructor
    · exact quiet_set hquiet (hi.quiet hquiet _)
    · intro t r ht
      rcases Nat.lt_trichotomy t p.before.tasks.length with hlt | rfl | hlt
      · rw [State.resume, List.getElem?_append_left hlt] at ht
        rcases h.others t r ht with hrefreshing | hfinished
        · exact absurd (hnone.symm.trans hrefreshing) (by simp)
        · exact .inr hfinished
      · exact .inl rfl
      · rw [State.resume, List.getElem?_eq_none (by rw [List.length_append]; exact hlt)] at ht
        cases ht
    · intro hrefreshing
      cases hrefreshing
    · rintro t ⟨⟩
      exact ⟨.reading, by simp [State.resume], hclean⟩
  | resolved hi =>
    refine h.frame (quiet_set hquiet ?_) rfl rfl rfl (hsend (by simp)) (hrefuse (by simp))
    exact (hquiet _ (List.mem_of_getElem? hi)).2 _
  | release => exact h.frame hquiet rfl rfl rfl (hsend (by simp)) (hrefuse (by simp))
  | taskRead ht =>
    obtain ⟨hrefreshing, hgood⟩ := h.current ht (by simp)
    exact h.setTask hrefreshing ht ⟨Clean.snoc hgood (hsend (by simp)) (hrefuse (by simp)), rfl⟩
  | taskReadFails ht =>
    obtain ⟨hrefreshing, hgood⟩ := h.current ht (by simp)
    exact h.setTask hrefreshing ht (Clean.snoc hgood (hsend (by simp)) (hrefuse (by simp)))
  | loggedOut ht =>
    obtain ⟨hrefreshing, hgood⟩ := h.current ht (by simp)
    refine h.setTask hrefreshing ht ?_
    rw [hgood.2]
    exact clean_none
  | @taskSend t stored ht =>
    obtain ⟨hrefreshing, hclean, hstore⟩ := h.current ht (by simp)
    obtain ⟨hspent, hended⟩ := hclean stored hstore
    refine h.setTask hrefreshing ht ⟨hstore, ?_, ?_⟩
    · intro t' hne hs
      rcases hs.of_snoc with ⟨hsends, -⟩ | ⟨hs, -⟩
      · exact hne (Action.taskSend.inj (hsends.symm.trans haction))
      · exact hspent t' hs
    · intro he
      exact hended (he.of_snoc (hrefuse (by simp)))
  | @taskAnswer t stored ht answer =>
    obtain ⟨hrefreshing, hstore, hspent, hended⟩ := h.current ht (by simp)
    refine h.setTask hrefreshing ht ?_
    have hsilent : ∀ t, p.action ≠ .taskSend t := hsend (by simp)
    cases answer with
    | ok tokens =>
      rintro stored' ⟨⟩
      refine ⟨fun t' hs => ?_, fun he => hended (he.of_snoc ?_)⟩
      · obtain ⟨l₁, q, l₂, rfl, hsends, -⟩ := hs.of_silent hsilent
        exact hfresh t tokens haction q (by simp) t' hsends
      · intro t' hrefuses
        cases haction.symm.trans hrefuses
    | error e =>
      rw [Refresh.answered, Refresh.caught]
      split_ifs with he
      · exact clean_none
      · have hanswer : ∀ t, ¬p.Refuses t := by
          intro t' hrefuses
          cases haction.symm.trans hrefuses
          exact he rfl
        rw [Good, hstore]
        rintro stored' ⟨⟩
        refine ⟨fun t' hs => ?_, fun he => hended (he.of_snoc hanswer)⟩
        by_cases hne : t' = t
        · subst hne
          rcases hs.of_snoc with ⟨hsends, -⟩ | ⟨-, hnot⟩
          · exact hsilent t' hsends
          · exact hnot ⟨e, haction, he⟩
        · exact hspent t' hne (hs.of_silent hsilent)
  | taskWrite ht =>
    obtain ⟨hrefreshing, hgood⟩ := h.current ht (by simp)
    exact h.setTask hrefreshing ht (Clean.snoc hgood (hsend (by simp)) (hrefuse (by simp)))
  | taskWriteFails ht e => exact absurd haction (hwrites _ e)
  | @taskFinally t result ht =>
    obtain ⟨hrefreshing, hgood⟩ := h.current ht (by simp)
    constructor
    · exact hquiet
    · intro t' r ht'
      by_cases hne : t = t'
      · subst hne
        rw [setTask_self (s := { p.before with refreshing := none }) ht] at ht'
        exact .inr ⟨result, (Option.some.inj ht').symm⟩
      · rw [setTask_ne hne] at ht'
        rcases h.others t' r ht' with hrefreshing' | hfinished
        · exact absurd (Option.some.inj (hrefreshing.symm.trans hrefreshing')) hne
        · exact .inr hfinished
    · intro _
      exact Clean.snoc hgood (hsend (by simp)) (hrefuse (by simp))
    · intro t' ht'
      cases ht'

lemma flight_of_run {clock : ℤ} {store : Option StoredTokens} {steps : List Taken}
    (hrun : (system o).Run (createSession clock store) steps s) (hkept : Undisturbed steps)
    (hfresh : FreshTokens steps) : Flight steps s := by
  induction hrun with
  | nil =>
    constructor
    · simp [createSession]
    · simp [createSession]
    · rintro - stored -
      constructor
      · rintro t ⟨l₁, q, l₂, h, -⟩
        simp at h
      · rintro ⟨q, hq, -⟩
        simp at hq
    · simp [createSession]
  | @snoc l p hl hp ih =>
    have hflight := ih (fun q hq => hkept q (List.mem_append_left _ hq)) fun l' q n t tokens h =>
      hfresh l' q (n ++ [p]) t tokens (by simp [h])
    obtain ⟨hsave, hlogout, hwrites⟩ := hkept p (by simp)
    exact flight_step hflight hp hsave hlogout hwrites fun t tokens haction =>
      hfresh l p [] t tokens rfl haction

/-- What a refresh comes to, once bauth answered. -/
def Refresh.result : Refresh → Option (Except Error (Option String))
  | writing _ token => some (.ok token)
  | settled result => some result
  | finished result => some result
  | _ => none

lemma result_answered (now : ℤ) (answer : Except Error Tokens) :
    (Refresh.answered now answer).result = some (resultOf answer) := by
  cases answer with
  | ok tokens => rfl
  | error e =>
    rw [Refresh.answered, Refresh.caught, resultOf]
    change (if e = invalidGrant then _ else _ : Refresh).result = _
    split_ifs <;> rfl

/-- From when its request is in flight, a refresh waits for bauth, then keeps the result. -/
lemma followed {m : List Taken} (hrun : (system o).Run s' m s) (hs : s'.InFlight t)
    (hwrites : ∀ q ∈ m, ∀ t e, q.action ≠ .taskWriteFails t e) :
    s.InFlight t ∨ ∃ f ∈ m, ∃ answer, f.action = .taskAnswer t answer ∧
      ∃ r, s.tasks[t]? = some r ∧ r.result = some (resultOf answer) := by
  induction hrun with
  | nil => exact .inl hs
  | @snoc m q hm hq ih =>
    have hsteps := Taken.steps hq
    have hwrite := hwrites q (by simp)
    rcases ih fun f hf => hwrites f (List.mem_append_left _ hf) with
      ⟨stored, ht⟩ | ⟨f, hf, answer, haction, r, ht, hr⟩
    · by_cases htask : q.action.task = some t
      · obtain ⟨r', ht', hmoves⟩ := hsteps.moves htask ht
        generalize haction : q.action = action at hmoves
        cases hmoves with
        | taskAnswer _ answer =>
          exact .inr ⟨q, by simp, answer, haction, _, ht', result_answered _ _⟩
      · exact .inl ⟨stored, hsteps.task_frame htask ht⟩
    · refine .inr ⟨f, List.mem_append_left _ hf, answer, haction, ?_⟩
      by_cases htask : q.action.task = some t
      · obtain ⟨r', ht', hmoves⟩ := hsteps.moves htask ht
        refine ⟨r', ht', ?_⟩
        generalize haction' : q.action = action at hmoves
        cases hmoves with
        | taskWriteFails _ _ e => exact absurd haction' (hwrite t e)
        | taskWrite => exact hr
        | taskFinally => exact hr
        | _ => cases hr
      · exact ⟨r, hsteps.task_frame htask ht, hr⟩

/-- Calls of `refresh` made while a request is in flight wait for it, and whoever waits for a
request in flight gets its result. -/
def Joins (steps : List Taken) : Prop :=
  (∀ p ∈ steps, ∀ i t k, p.before.InFlight t → p.before.Calls i k none → p.action = .perform i →
    p.after.Waits i t k) ∧
  ∀ l p m q n i t k, steps = l ++ p :: (m ++ q :: n) → p.after.InFlight t →
    q.before.Waits i t k → q.after.threads[i]? ≠ q.before.threads[i]? →
      ∃ f ∈ m, ∃ answer, f.action = .taskAnswer t answer ∧
        q.after.threads[i]? = some (k (resultOf answer))

/-- A refresh token is sent again only when the earlier request failed, and not by a refusal. -/
def NoReplay (steps : List Taken) : Prop :=
  ∀ l p m q n t t' token, steps = l ++ p :: (m ++ q :: n) → p.Sends t token → q.Sends t' token →
    ∃ f ∈ m, f.Excuses t

/-- Nothing is sent after a refusal. -/
def EndsRefused (steps : List Taken) : Prop :=
  ∀ l p n t, steps = l ++ p :: n → p.Refuses t → ∀ q ∈ n, ∀ t' token, ¬q.Sends t' token

/-- The calls of a session share one request, and replay no token. -/
theorem single_flight {clock : ℤ} {store : Option StoredTokens} {steps : List Taken}
    (hrun : (system o).Run (createSession clock store) steps s) (hkept : Undisturbed steps)
    (hfresh : FreshTokens steps) :
    (∀ t t', s.InFlight t → s.InFlight t' → t = t') ∧ Joins steps ∧ NoReplay steps ∧
      EndsRefused steps := by
  -- the invariant at any step of the run
  have hflight : ∀ {l p n}, steps = l ++ p :: n →
      Flight l p.before ∧ (system o).Takes p ∧ (system o).Run p.after n s := by
    rintro l p n rfl
    obtain ⟨hl, hp, hn⟩ := hrun.around
    refine ⟨flight_of_run hl (fun q hq => hkept q (List.mem_append_left _ hq)) ?_, hp, hn⟩
    intro l' q n' t tokens h
    exact hfresh l' q (n' ++ p :: n) t tokens (by simp [h])
  -- a token that is sent is a clean one
  have hclean : ∀ {l q n t token}, steps = l ++ q :: n → Taken.Sends q t token →
      (∀ t', ¬Spent l t' token) ∧ ¬Ended l := by
    rintro l q n t token hsplit ⟨-, stored, ht, rfl⟩
    obtain ⟨-, hclean, hstore⟩ := (hflight hsplit).1.current ht (by simp)
    exact hclean stored hstore
  refine ⟨?_, ⟨?_, ?_⟩, ?_, ?_⟩
  · rintro t t' ⟨stored, ht⟩ ⟨stored', ht'⟩
    have h := flight_of_run hrun hkept hfresh
    exact Option.some.inj ((h.current ht (by simp)).1.symm.trans (h.current ht' (by simp)).1)
  · rintro p hp i t k ⟨stored, ht⟩ hi haction
    obtain ⟨l, n, rfl⟩ := List.append_of_mem hp
    obtain ⟨h, htakes, -⟩ := hflight rfl
    have hrefreshing := (h.current ht (by simp)).1
    have hsteps := Taken.steps htakes
    rw [haction] at hsteps
    generalize p.after = after at hsteps
    obtain ⟨hlt, -⟩ := List.getElem?_eq_some_iff.mp hi
    cases hsteps with
    | go ha hj _ hop =>
      obtain rfl := Option.some.inj ha
      obtain ⟨rfl, -⟩ := Async.await.inj (Option.some.inj (hi.symm.trans hj))
      cases hop
    | write hj => cases (Async.await.inj (Option.some.inj (hi.symm.trans hj))).1
    | @joined _ t' m' _ hj ht' =>
      cases m' with
      | none =>
        obtain rfl := Option.some.inj (hrefreshing.symm.trans (ht' rfl))
        obtain ⟨-, hk⟩ := Async.await.inj (Option.some.inj (hi.symm.trans hj))
        cases hk
        exact ⟨none, List.getElem?_set_self hlt⟩
      | some m' => cases (Async.await.inj (Option.some.inj (hi.symm.trans hj))).1
    | started _ hnone => cases hrefreshing.symm.trans hnone
    | resolved hj => cases (Async.await.inj (Option.some.inj (hi.symm.trans hj))).1
  · rintro l p m q n i t k rfl hinflight hwaits hmoved
    obtain ⟨-, -, hrest⟩ := hrun.around
    obtain ⟨hm, hq, -⟩ := hrest.around
    obtain ⟨result, ht, hresult⟩ := (Taken.steps hq).waits hwaits hmoved
    rcases followed hm hinflight fun f hf => (hkept f (by simp [hf])).2.2 with
      ⟨stored, ht'⟩ | ⟨f, hf, answer, haction, r, ht', hr⟩
    · cases ht.symm.trans ht'
    · obtain rfl := Option.some.inj (ht.symm.trans ht')
      refine ⟨f, hf, answer, haction, ?_⟩
      rw [hresult, Option.some.inj hr]
  · rintro l p m q n t t' token rfl hp hq
    have hsplit : l ++ p :: (m ++ q :: n) = (l ++ p :: m) ++ q :: n := by simp
    have hunspent := (hclean hsplit hq).1 t
    by_contra hnone
    refine hunspent ⟨l, p, m, rfl, hp, fun f hf hexcuses => ?_⟩
    exact hnone ⟨f, hf, hexcuses⟩
  · rintro l p n t rfl hrefuses q hq t' token hsends
    obtain ⟨n₁, n₂, rfl⟩ := List.append_of_mem hq
    have hsplit : l ++ p :: (n₁ ++ q :: n₂) = (l ++ p :: n₁) ++ q :: n₂ := by simp
    have hended := (hclean hsplit hsends).2
    exact hended ⟨p, by simp, t, hrefuses⟩

end Runs

section Example

def exampleOptions : Options := { accessTokenExpiry := fun _ => none }

def exampleStored : StoredTokens := ⟨"a0", "r0", some 0⟩

def exampleTokens : Tokens := ⟨"a1", "r1", 900⟩

/-- Two calls share a request, which is lost; a third one sends the token again. -/
def exampleRetries : List Action :=
  [.call .refresh, .call .refresh, .perform 0, .taskRead 0, .taskSend 0, .perform 1,
    .taskAnswer 0 (.error .other), .taskFinally 0, .perform 0, .perform 1, .call .refresh,
    .perform 2, .taskRead 1, .taskSend 1, .taskAnswer 1 (.ok exampleTokens), .taskWrite 1,
    .taskFinally 1, .perform 2]

/-- What a call returned, once it did. -/
def exampleResult : Async awaits Outcome → Option (Except Error Outcome)
  | .done result => some result
  | .await _ _ => none

/-- The check of a step: does no refresh have the new token to send? -/
def keepsNew (p : Taken) : Bool :=
  p.before.tasks.all fun r =>
    match r with
    | .hasRead (some stored) => stored.refreshToken ≠ exampleTokens.refreshToken
    | _ => true

lemma not_sends_of_keepsNew {p : Taken} (h : keepsNew p = true) (t : ℕ) :
    ¬p.Sends t exampleTokens.refreshToken := by
  rintro ⟨-, stored, ht, htoken⟩
  have hkept := List.all_eq_true.mp h _ (List.mem_of_getElem? ht)
  exact of_decide_eq_true hkept htoken

/-- The check of a run: the first two calls fail, and the third one gets the new token. -/
def retried (r : List Taken × State) : Bool :=
  decide (r.2.threads.map exampleResult =
    [some (.error .other), some (.error .other), some (.ok (.token (some "a1")))]) &&
      r.1.all keepsNew

/-- Both calls share the request that is lost; the token is sent again, and bauth answers. -/
theorem single_flight_refreshed : ∃ steps s,
    (system exampleOptions).Run (createSession 0 (some exampleStored)) steps s ∧
      steps.map Step.action = exampleRetries ∧ s.threads.map exampleResult =
        [some (.error .other), some (.error .other), some (.ok (.token (some "a1")))] ∧
      Joins steps ∧ NoReplay steps := by
  have hexec : (((system exampleOptions).exec (createSession 0 (some exampleStored))
      exampleRetries).any retried) = true := by
    decide +kernel
  obtain ⟨⟨steps, s⟩, hsteps, hchecks⟩ := (Option.any_eq_true _ _).mp hexec
  simp only [retried, Bool.and_eq_true, decide_eq_true_eq, List.all_eq_true] at hchecks
  obtain ⟨hresults, hkeeps⟩ := hchecks
  have hrun := System.exec_run hsteps
  have hactions := System.exec_actions hsteps
  have hmem : ∀ p ∈ steps, p.action ∈ exampleRetries := fun p hp =>
    hactions ▸ List.mem_map_of_mem hp
  have hkept : Undisturbed steps := by
    intro p hp
    have haction := hmem p hp
    simp only [exampleRetries, List.mem_cons, List.not_mem_nil, or_false] at haction
    refine ⟨fun tokens h => ?_, fun h => ?_, fun t e h => ?_⟩ <;> simp [h] at haction
  have hfresh : FreshTokens steps := by
    rintro l p n t tokens rfl hanswer q hq t'
    have haction := hmem p (by simp)
    rw [hanswer] at haction
    obtain ⟨-, rfl⟩ : t = 1 ∧ tokens = exampleTokens := by simpa [exampleRetries] using haction
    exact not_sends_of_keepsNew (hkeeps q (by simp [hq])) t'
  obtain ⟨-, hjoins, hreplay, -⟩ := single_flight hrun hkept hfresh
  exact ⟨steps, s, hrun, hactions, hresults, hjoins, hreplay⟩

end Example

end Sdk

end Bauth
