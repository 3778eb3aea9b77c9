import Bauth.Serial.Addresses

/-!
# Stale email change links

A confirmation compares the account's address with the one its link was requested from. An account
that comes back to that address makes the link good again; where that never happens to a live link,
a link is applied only to an account that did not move since.
-/

namespace Bauth

open Transaction

/-- The step confirms this email change. -/
structure Served.Applies (app : App) (p : Served) (c : EmailChange) : Prop where
  request : ∃ ip token, p.request = .confirmEmailChange ip token ∧ c.tokenHash = app.hash token
  row : c ∈ p.before.db.emailChanges
  done : p.response = .ok .done

/-- Since the change was requested its account stayed at the address, and confirmed no change. -/
structure Unmoved (app : App) (steps : List Served) (c : EmailChange) : Prop where
  address : ∀ q ∈ steps, (∃ c' ∈ q.after.db.emailChanges, c'.id = c.id) →
    ∀ u ∈ q.after.db.users, u.id = c.userId → u.email = c.fromEmail
  applied : ∀ q ∈ steps, ∀ c₀, q.Applies app c₀ → c₀.userId = c.userId →
    ∀ c' ∈ q.before.db.emailChanges, c'.id ≠ c.id

/-- The request presents a live link to an address that another live link of the account was
requested from. -/
def Served.Returns (app : App) (p : Served) : Prop :=
  ∃ ip token, p.request = .confirmEmailChange ip token ∧
    ∃ c ∈ p.before.db.emailChanges, c.tokenHash = app.hash token ∧ c.usable p.time = true ∧
      ∃ c' ∈ p.before.db.emailChanges, c'.id ≠ c.id ∧ c'.userId = c.userId ∧
        c'.fromEmail = c.toEmail ∧ c'.usable p.time = true

/-! ### One request -/

section Step

variable {app : App} {p : Served}

/-- The users after a request that moves none: those there were, at the same address, and new
ones. -/
lemma users_of_may (hp : p.Of app) (hmay : ∀ q, p.request.may q → q ≠ .usersChangeEmail) :
    ∀ u ∈ p.after.db.users, (∃ u₀ ∈ p.before.db.users, u₀.id = u.id ∧ u₀.email = u.email) ∨
      ∃ i, u.id = app.uuid ⟨p.before.served, i⟩ := by
  have hkeeps : ∃ _ : ℕ, ∀ u ∈ p.after.db.users,
      (∃ u₀ ∈ p.before.db.users, u₀.id = u.id ∧ u₀.email = u.email) ∨
        ∃ i, u.id = app.uuid ⟨p.before.served, i⟩ := by
    rw [hp.serve]
    refine serve_keeps (J := fun _ d => ∀ u ∈ d.users,
      (∃ u₀ ∈ p.before.db.users, u₀.id = u.id ∧ u₀.email = u.email) ∨
        ∃ i, u.id = app.uuid ⟨p.before.served, i⟩) (fun _ _ h => h)
      (fun q k d d' hq hd hstep u hu => ?_) fun u hu => .inl ⟨u, hu, rfl, rfl⟩
    rcases hstep.users.mem hu with ⟨u₀, hu₀, hrow⟩ | ⟨-, email, rfl⟩
    · cases hrow with
      | same => exact hd u hu₀
      | verify => exact hd u₀ hu₀
      | move hq' => exact absurd hq' (hmay q hq)
      | disable => exact hd u₀ hu₀
    · exact .inr ⟨k, rfl⟩
  exact hkeeps.choose_spec

/-- A request that requests no change keeps the hashes of the changes distinct. -/
lemma hashes_of_may (hp : p.Of app) (hmay : ∀ q, p.request.may q → q ≠ .emailChangesCreate)
    (h : (p.before.db.emailChanges.map EmailChange.tokenHash).Nodup) :
    (p.after.db.emailChanges.map EmailChange.tokenHash).Nodup := by
  have hkeeps : ∃ _ : ℕ, (p.after.db.emailChanges.map EmailChange.tokenHash).Nodup := by
    rw [hp.serve]
    refine serve_keeps (J := fun _ d => (d.emailChanges.map EmailChange.tokenHash).Nodup)
      (fun _ _ h => h) (fun q k d d' hq hd hstep => ?_) h
    refine hstep.emailChanges.nodup EmailChange.tokenHash (fun c c' hrow => ?_)
      (fun c hnew => absurd hnew.1 (hmay q hq)) hd
    cases hrow <;> rfl
  exact hkeeps.choose_spec

/-- An unused change of the new state was there before, as it is. -/
lemma unused_of_may (hp : p.Of app) (hmay : ∀ q, p.request.may q → q ≠ .emailChangesCreate)
    {c : EmailChange} (hc : c ∈ p.after.db.emailChanges) (hunused : c.consumedAt = none) :
    c ∈ p.before.db.emailChanges := by
  refine changes_of_may hp hmay (P := fun c => c.consumedAt = none → c ∈ p.before.db.emailChanges)
    (fun q now c c' hrow h => ?_) (fun c hc _ => hc) c hc hunused
  cases hrow with
  | same => exact h
  | consume => exact nofun

lemma Served.Applies.may {c : EmailChange} (h : p.Applies app c) :
    p.request.may .usersChangeEmail := by
  obtain ⟨ip, token, hrequest, -⟩ := h.request
  rw [hrequest]
  simp [Request.may]

/-- What a confirmed change found: it was live, and its account at the address. -/
lemma Served.Applies.found {c : EmailChange} (h : p.Applies app c) (hp : p.Of app)
    (huuid : Function.Injective app.uuid) (hkeyed : p.before.db.Keyed app p.before.served 0)
    (hhashes : (p.before.db.emailChanges.map EmailChange.tokenHash).Nodup) :
    c.usable p.time = true ∧ (∃ u ∈ p.before.db.users, u.id = c.userId ∧ u.email = c.fromEmail) ∧
      p.after.db = (p.before.db.consumeChange p.time c.tokenHash).moveAddress p.time c.userId
        c.fromEmail c.toEmail := by
  obtain ⟨ip, token, hrequest, htoken⟩ := h.request
  have hout := hp.outcome huuid hkeyed
  have hdone := h.done
  rw [hrequest] at hout
  generalize p.after.db = d', p.response = a at hout hdone
  cases hout with
  | confirmEmailChange hout =>
    cases hout with
    | refused e => cases hdone
    | @moved c' hc' htoken' husable huser hfree =>
      obtain rfl : c' = c :=
        List.inj_on_of_nodup_map hhashes hc' h.row (htoken'.trans htoken.symm)
      obtain ⟨u, hu, hid, hemail, -⟩ := huser
      exact ⟨husable, ⟨u, hu, hid, hemail⟩, by rw [htoken]⟩

/-- The changes after a request for one: those there were, and perhaps a new one of an account at
its address. -/
lemma changes_of_changeEmail (hp : p.Of app) (huuid : Function.Injective app.uuid)
    (hkeyed : p.before.db.Keyed app p.before.served 0)
    (hcreates : p.request.may .emailChangesCreate) :
    p.after.db.users = p.before.db.users ∧
      (p.after.db.emailChanges = p.before.db.emailChanges ∨
        ∃ c i, p.after.db.emailChanges = p.before.db.emailChanges ++ [c] ∧
          c.id = app.uuid ⟨p.before.served, i⟩ ∧
          (∃ u ∈ p.before.db.users, u.id = c.userId ∧ u.email = c.fromEmail) ∧
          ∀ c' ∈ p.before.db.emailChanges, c'.tokenHash ≠ c.tokenHash) := by
  have hout := hp.outcome huuid hkeyed
  cases hr : p.request with
  | changeEmail ip authorization code newEmail =>
    rw [hr] at hout
    generalize p.after.db = d', p.response = a at hout ⊢
    cases hout with
    | changeEmail hout hmail =>
      cases hout with
      | refused => exact ⟨rfl, .inl rfl⟩
      | wrong => exact ⟨rfl, .inl rfl⟩
      | spent => exact ⟨rfl, .inl rfl⟩
      | @mailed user confirmation page huser hvalid hc i j hnew =>
        obtain ⟨u, hu, hid, hemail, -⟩ := huser.account
        exact ⟨rfl, .inr ⟨_, i, rfl, rfl, ⟨u, hu, hid, hemail⟩, hnew⟩⟩
  | _ =>
    rw [hr] at hcreates
    simp [Request.may, Query.LogsIn, Query.ChecksCode] at hcreates

/-- A request that confirms no change leaves the users where they are. -/
lemma users_of_not_applies (hp : p.Of app) (huuid : Function.Injective app.uuid)
    (hkeyed : p.before.db.Keyed app p.before.served 0) (hnot : ∀ c, ¬p.Applies app c) :
    ∀ u ∈ p.after.db.users, (∃ u₀ ∈ p.before.db.users, u₀.id = u.id ∧ u₀.email = u.email) ∨
      ∃ i, u.id = app.uuid ⟨p.before.served, i⟩ := by
  by_cases hmoves : p.request.may .usersChangeEmail
  · have hout := hp.outcome huuid hkeyed
    cases hr : p.request with
    | confirmEmailChange ip token =>
      rw [hr] at hout
      generalize hd : p.after.db = d', ha : p.response = a at hout
      cases hout with
      | confirmEmailChange hout =>
        cases hout with
        | refused => exact fun u hu => .inl ⟨u, hu, rfl, rfl⟩
        | moved hc htoken => exact absurd ⟨⟨ip, token, hr, htoken⟩, hc, ha⟩ (hnot _)
    | _ =>
      rw [hr] at hmoves
      simp [Request.may, Query.LogsIn, Query.ChecksCode] at hmoves
  · exact users_of_may hp fun q hq hmove => hmoves (hmove ▸ hq)

end Step

/-! ### Runs -/

section Runs

variable {app : App} {clock : Time} {s : Server} {steps : List Served}

/-- What the steps of a run left: a live change whose account is at its address never saw it
move. -/
structure Unreturned (app : App) (steps : List Served) (s : Server) : Prop where
  hashes : (s.db.emailChanges.map EmailChange.tokenHash).Nodup
  account : ∀ c ∈ s.db.emailChanges, Drawn app s.served 0 c.userId
  past : ∀ q ∈ steps, ∀ c ∈ q.before.db.emailChanges ++ q.after.db.emailChanges,
    Drawn app s.served 0 c.id
  live : ∀ c ∈ s.db.emailChanges, c.consumedAt = none → s.clock < c.expiresAt →
    (∃ u ∈ s.db.users, u.id = c.userId ∧ u.email = c.fromEmail) → Unmoved app steps c

variable {p : Served} {c : EmailChange}

lemma Unmoved.append (h : Unmoved app steps c)
    (haddress : ∀ u ∈ p.after.db.users, u.id = c.userId → u.email = c.fromEmail)
    (happlied : ∀ c₀, p.Applies app c₀ → c₀.userId ≠ c.userId) :
    Unmoved app (steps ++ [p]) c where
  address q hq := by
    rcases List.mem_append.mp hq with hq | hq
    · exact h.address q hq
    · obtain rfl := List.mem_singleton.mp hq
      exact fun _ => haddress
  applied q hq := by
    rcases List.mem_append.mp hq with hq | hq
    · exact h.applied q hq
    · obtain rfl := List.mem_singleton.mp hq
      exact fun c₀ hc₀ hsame => absurd hsame (happlied c₀ hc₀)

/-- A change just requested was in no state before. -/
lemma unmoved_new (huuid : Function.Injective app.uuid) (h : Unreturned app steps p.before) {i : ℕ}
    (hid : c.id = app.uuid ⟨p.before.served, i⟩) : Unmoved app steps c := by
  have hnew : ∀ q ∈ steps, ∀ c' ∈ q.before.db.emailChanges ++ q.after.db.emailChanges,
      c'.id ≠ c.id := by
    intro q hq c' hc' hsame
    have hdrawn := h.past q hq c' hc'
    rw [hsame, hid] at hdrawn
    exact not_drawn huuid (Nat.zero_le i) hdrawn
  constructor
  · rintro q hq ⟨c', hc', hsame⟩
    exact absurd hsame (hnew q hq c' (List.mem_append_right _ hc'))
  · exact fun q hq _ _ _ c' hc' => hnew q hq c' (List.mem_append_left _ hc')

/-- A live change whose account is at its address after the request was so before, and no change of
the account was confirmed. -/
lemma live_before (hp : p.Of app) (huuid : Function.Injective app.uuid)
    (hkeyed : p.before.db.Keyed app p.before.served 0) (h : Unreturned app steps p.before)
    (hreturn : ¬p.Returns app) (hc : c ∈ p.before.db.emailChanges)
    (hafter : c ∈ p.after.db.emailChanges) (hunused : c.consumedAt = none)
    (hlive : p.time < c.expiresAt)
    (hu : ∃ u ∈ p.after.db.users, u.id = c.userId ∧ u.email = c.fromEmail) :
    (∃ u ∈ p.before.db.users, u.id = c.userId ∧ u.email = c.fromEmail) ∧
      ∀ c₀, p.Applies app c₀ → c₀.userId ≠ c.userId := by
  have hnotnew {u : User} (hid : u.id = c.userId) : ¬∃ i, u.id = app.uuid ⟨p.before.served, i⟩ := by
    rintro ⟨i, hi⟩
    have hdrawn := h.account c hc
    rw [← hid, hi] at hdrawn
    exact not_drawn huuid (Nat.zero_le i) hdrawn
  obtain ⟨u, hu, hid, hemail⟩ := hu
  have hother : ∀ c₀, p.Applies app c₀ → c₀.userId ≠ c.userId := by
    intro c₀ hc₀ hsame
    obtain ⟨husable, ⟨u₁, hu₁, hid₁, hemail₁⟩, hdb⟩ := hc₀.found hp huuid hkeyed h.hashes
    rw [hdb] at hu hafter
    obtain ⟨u₀, hu₀, hset⟩ := mem_updateWhere.mp hu
    -- the account is the one moved, so its address is now the one of `c₀`
    have hid₀ : u₀.id = c.userId := by
      rw [← hid, ← hset]
      split_ifs <;> rfl
    obtain rfl : u₀ = u₁ :=
      List.inj_on_of_nodup_map hkeyed.users.nodup hu₀ hu₁ (hid₀.trans (hsame.symm.trans hid₁.symm))
    have hfrom : c.fromEmail = c₀.toEmail := by
      rw [← hemail, ← hset, if_pos (by simp [hid₁, hemail₁])]
    have hne : c.id ≠ c₀.id := by
      intro hrow
      obtain rfl : c = c₀ :=
        List.inj_on_of_nodup_map hkeyed.emailChanges.nodup hc hc₀.row hrow
      obtain ⟨r, -, hr⟩ := mem_updateWhere.mp hafter
      split_ifs at hr with hconsumed
      · rw [← hr] at hunused
        cases hunused
      · rw [hr] at hconsumed
        simp [husable] at hconsumed
    obtain ⟨ip, token, hrequest, htoken⟩ := hc₀.request
    have husable' : c.usable p.time = true := by simp [EmailChange.usable, hunused, hlive]
    exact hreturn ⟨ip, token, hrequest, c₀, hc₀.row, htoken, husable, c, hc, hne, hsame.symm, hfrom,
      husable'⟩
  refine ⟨?_, hother⟩
  by_cases happlies : ∃ c₀, p.Applies app c₀
  · obtain ⟨c₀, hc₀⟩ := happlies
    obtain ⟨-, -, hdb⟩ := hc₀.found hp huuid hkeyed h.hashes
    rw [hdb] at hu
    obtain ⟨u₀, hu₀, rfl⟩ := mem_updateWhere.mp hu
    split_ifs at hid hemail with hmoves
    · simp only [Bool.and_eq_true, decide_eq_true_eq] at hmoves
      exact absurd (hmoves.1.symm.trans hid) (hother c₀ hc₀)
    · exact ⟨u₀, hu₀, hid, hemail⟩
  · push Not at happlies
    rcases users_of_not_applies hp huuid hkeyed happlies u hu with ⟨u₀, hu₀, hid₀, hemail₀⟩ | hnew
    · exact ⟨u₀, hu₀, hid₀.trans hid, hemail₀.trans hemail⟩
    · exact absurd hnew (hnotnew hid)

lemma unreturned_step (hp : p.Of app) (huuid : Function.Injective app.uuid)
    (hkeyed : p.before.db.Keyed app p.before.served 0)
    (hkeyed' : p.after.db.Keyed app p.after.served 0) (h : Unreturned app steps p.before)
    (hreturn : ¬p.Returns app) : Unreturned app (steps ++ [p]) p.after := by
  have hserved := hp.after_served
  -- the live changes that were there already
  have hold : ∀ c ∈ p.before.db.emailChanges, c ∈ p.after.db.emailChanges → c.consumedAt = none →
      p.time < c.expiresAt → (∃ u ∈ p.after.db.users, u.id = c.userId ∧ u.email = c.fromEmail) →
        Unmoved app (steps ++ [p]) c := by
    intro c hc hafter hunused hlive hu
    obtain ⟨hbefore, hother⟩ := live_before hp huuid hkeyed h hreturn hc hafter hunused hlive hu
    have hclock := lt_of_le_of_lt hp.clock hlive
    refine (h.live c hc hunused hclock hbefore).append (fun u' hu' hid' => ?_) hother
    obtain ⟨u, hu, hid, hemail⟩ := hu
    rw [List.inj_on_of_nodup_map hkeyed'.users.nodup hu' hu (hid'.trans hid.symm), hemail]
  have hpast : ∀ q ∈ steps ++ [p], ∀ c ∈ q.before.db.emailChanges ++ q.after.db.emailChanges,
      Drawn app p.after.served 0 c.id := by
    intro q hq c hc
    rw [hserved]
    rcases List.mem_append.mp hq with hq | hq
    · exact (h.past q hq c hc).next
    · obtain rfl := List.mem_singleton.mp hq
      rcases List.mem_append.mp hc with hc | hc
      · exact (hkeyed.emailChanges.drawn _ (List.mem_map_of_mem hc)).next
      · rw [← hserved]
        exact hkeyed'.emailChanges.drawn _ (List.mem_map_of_mem hc)
  by_cases hcreates : p.request.may .emailChangesCreate
  · obtain ⟨husers, hrows | ⟨c₁, i, hrows, hid, haccount, hnew⟩⟩ :=
      changes_of_changeEmail hp huuid hkeyed hcreates
    · refine ⟨hrows ▸ h.hashes, fun c hc => ?_, hpast, fun c hc hunused hlive hu => ?_⟩
      · rw [hserved]
        exact (h.account c (hrows ▸ hc)).next
      · exact hold c (hrows ▸ hc) hc hunused (hp.after_clock ▸ hlive) hu
    · obtain ⟨u₁, hu₁, hid₁, hemail₁⟩ := haccount
      refine ⟨?_, fun c hc => ?_, hpast, fun c hc hunused hlive hu => ?_⟩
      · rw [hrows, List.map_append, List.nodup_append]
        refine ⟨h.hashes, List.nodup_singleton _, ?_⟩
        intro x hx y hy
        obtain ⟨c', hc', rfl⟩ := List.mem_map.mp hx
        obtain rfl := List.mem_singleton.mp hy
        exact hnew c' hc'
      · rw [hserved]
        rw [hrows] at hc
        rcases List.mem_append.mp hc with hc | hc
        · exact (h.account c hc).next
        · obtain rfl := List.mem_singleton.mp hc
          rw [← hid₁]
          exact (hkeyed.users.drawn _ (List.mem_map_of_mem hu₁)).next
      · have hc' := hc
        rw [hrows] at hc'
        rcases List.mem_append.mp hc' with hc' | hc'
        · exact hold c hc' hc hunused (hp.after_clock ▸ hlive) hu
        · obtain rfl := List.mem_singleton.mp hc'
          refine (unmoved_new huuid h hid).append (fun u' hu' hid' => ?_) fun c₀ hc₀ => ?_
          · rw [husers] at hu'
            rw [List.inj_on_of_nodup_map hkeyed.users.nodup hu' hu₁ (hid'.trans hid₁.symm), hemail₁]
          · obtain ⟨ip, token, hrequest, -⟩ := hc₀.request
            rw [hrequest] at hcreates
            simp [Request.may] at hcreates
  · have hmay : ∀ q, p.request.may q → q ≠ .emailChangesCreate :=
      fun q hq hcreate => hcreates (hcreate ▸ hq)
    refine ⟨hashes_of_may hp hmay h.hashes, ?_, hpast, fun c hc hunused hlive hu => ?_⟩
    · refine changes_of_may hp hmay (fun _ _ c c' hrow hdrawn => ?_) fun c hc => ?_
      · cases hrow <;> exact hdrawn
      · rw [hserved]
        exact (h.account c hc).next
    · exact hold c (unused_of_may hp hmay hc hunused) hc hunused (hp.after_clock ▸ hlive) hu

lemma unreturned_of_run (huuid : Function.Injective app.uuid)
    (hrun : Run app { db := {}, served := 0, clock } steps s)
    (hreturn : ∀ p ∈ steps, ¬p.Returns app) : Unreturned app steps s := by
  induction hrun with
  | nil =>
    have hnone (c : EmailChange) : c ∉ [] := List.not_mem_nil
    exact ⟨List.nodup_nil, fun c hc => absurd hc (hnone c), fun _ hq => absurd hq List.not_mem_nil,
      fun c hc => absurd hc (hnone c)⟩
  | @snoc steps s' hrun time reply request hclock ih =>
    have h := ih fun p hp => hreturn p (List.mem_append_left _ hp)
    have hlast := hreturn (serve app time reply request s') (by simp)
    have hp : (serve app time reply request s').Of app := ⟨rfl, hclock⟩
    have hkeyed : s'.db.Keyed app s'.served 0 := Reachable.keyed huuid ⟨clock, steps, hrun⟩
    have hkeyed' := Reachable.keyed huuid ⟨clock, _, hrun.snoc time reply request hclock⟩
    generalize hserve : serve app time reply request s' = p at hp hlast hkeyed'
    obtain rfl : p.before = s' := hserve ▸ rfl
    exact unreturned_step hp huuid hkeyed hkeyed' h hlast

/-- A confirmed change was requested by an account that did not move since, and that confirmed no
change since. -/
theorem applied_unmoved (huuid : Function.Injective app.uuid)
    (hrun : Run app { db := {}, served := 0, clock } steps s)
    (hreturn : ∀ p ∈ steps, ¬p.Returns app) {l m : List Served} (hsplit : steps = l ++ p :: m)
    (h : p.Applies app c) : Unmoved app l c := by
  subst hsplit
  obtain ⟨hl, hp, -⟩ := hrun.around
  have hbefore := unreturned_of_run huuid hl fun q hq => hreturn q (List.mem_append_left _ hq)
  have hkeyed := Reachable.keyed huuid ⟨clock, l, hl⟩
  obtain ⟨husable, hu, -⟩ := h.found hp huuid hkeyed hbefore.hashes
  simp only [EmailChange.usable, Bool.and_eq_true, Option.isNone_iff_eq_none,
    decide_eq_true_eq] at husable
  exact hbefore.live c h.row husable.1 (lt_of_le_of_lt hp.clock husable.2) hu

end Runs

section Example

/-- The user of `exampleLogin` asks for a code and, with it, to move to an address. -/
def moveRequests (first second : Time) (code newEmail : String) : List (Time × Request) :=
  let authorization := some "Bearer uuuuuuussssssssssssss"
  [(first, .requestConfirmation "ip" authorization .changeEmail),
    (second, .changeEmail "ip" authorization code newEmail)]

/-- The first link requested, in process 5. -/
def confirmFirst : Request := .confirmEmailChange "ip" "ppppp-iiiii"

/-- After the requests of `r`, the first link can be confirmed at `time`. -/
def confirmsFirst (time : Time) (r : List Served × Server) : Bool :=
  r.2.clock ≤ time &&
    (serve exampleApp time exampleReply confirmFirst r.2).response = .ok .done &&
      r.2.db.emailChanges.any fun c =>
        c.id = 41 && c.userId = 7 && c.fromEmail = "bob@x.fr" &&
          c.tokenHash = exampleApp.hash "ppppp-iiiii"

lemma applies_of_confirmsFirst {time : Time} {r : List Served × Server}
    (h : confirmsFirst time r = true) :
    r.2.clock ≤ time ∧ ∃ c, c.id = 41 ∧ c.userId = 7 ∧ c.fromEmail = "bob@x.fr" ∧
      (serve exampleApp time exampleReply confirmFirst r.2).Applies exampleApp c := by
  simp only [confirmsFirst, Bool.and_eq_true, decide_eq_true_eq, List.any_eq_true] at h
  obtain ⟨⟨hclock, hdone⟩, c, hc, ⟨⟨hid, huser⟩, hfrom⟩, htoken⟩ := h
  exact ⟨hclock, c, hid, huser, hfrom, ⟨"ip", "ppppp-iiiii", rfl, htoken⟩, hc, hdone⟩

/-- The check of a step: no live link goes to an address that a live link comes from. -/
def Served.steady (p : Served) : Bool :=
  p.before.db.emailChanges.all fun c => p.before.db.emailChanges.all fun c' =>
    !(c.usable p.time && c'.usable p.time && decide (c'.fromEmail = c.toEmail))

lemma not_returns_of_steady {app : App} {p : Served} (h : p.steady = true) : ¬p.Returns app := by
  rintro ⟨ip, token, -, c, hc, -, hlive, c', hc', -, -, hfrom, hlive'⟩
  have hpair := List.all_eq_true.mp (List.all_eq_true.mp h c hc) c' hc'
  simp [hlive, hlive', hfrom] at hpair

/-- The user asks to move to `cy`, moves to `al` with a second link, and asks to move to `di`. -/
def exampleMoves : List (Time × Request) :=
  exampleLogin ++ moveRequests 4 5 "000041" "cy@x.fr" ++ moveRequests 6 7 "000061" "al@x.fr" ++
    [(8, .confirmEmailChange "ip" "ppppppp-iiiii")] ++ moveRequests 9 10 "000091" "di@x.fr"

/-- The request that confirms the link to `di`. -/
def confirmLast : Request := .confirmEmailChange "ip" "pppppppppp-iiiii"

/-- After the requests of `r`, all of them steady, the link to `di` can be confirmed. -/
def confirmsLast (r : List Served × Server) : Bool :=
  decide (r.2.clock ≤ 11) && r.1.all Served.steady &&
    (serve exampleApp 11 exampleReply confirmLast r.2).steady &&
    decide ((serve exampleApp 11 exampleReply confirmLast r.2).response = .ok .done) &&
    (r.2.db.emailChanges.any fun c =>
      decide (c.tokenHash = exampleApp.hash "pppppppppp-iiiii") && decide (c.fromEmail = "al@x.fr")) &&
    r.2.db.emailChanges.any fun c => decide (c.fromEmail = "bob@x.fr") && c.usable 11

/-- The link to `di` is confirmed, while the one to `cy` is still live. -/
theorem applied_unmoved_once : ∃ l s p c, Run exampleApp Server.empty (l ++ [p]) s ∧
    p.Applies exampleApp c ∧ c.fromEmail = "al@x.fr" ∧
    (∃ c' ∈ p.before.db.emailChanges, c'.fromEmail = "bob@x.fr" ∧ c'.usable p.time = true) ∧
    Unmoved exampleApp l c := by
  have hrun : Run exampleApp Server.empty (script exampleApp exampleReply .empty exampleMoves).1
      (script exampleApp exampleReply .empty exampleMoves).2 :=
    script_run (by
      simp [exampleMoves, moveRequests, exampleLogin, exampleLink, InOrder, Server.empty])
  have hchecks : confirmsLast (script exampleApp exampleReply .empty exampleMoves) = true := by
    decide +kernel
  generalize script exampleApp exampleReply .empty exampleMoves = r at hrun hchecks
  simp only [confirmsLast, Bool.and_eq_true, decide_eq_true_eq, List.all_eq_true,
    List.any_eq_true] at hchecks
  obtain ⟨⟨⟨⟨⟨hclock, hsteady⟩, hlast⟩, hdone⟩, c, hc, htoken, hfrom⟩, c', hc', hfrom', hlive⟩ :=
    hchecks
  have hrun' := hrun.snoc 11 exampleReply confirmLast hclock
  have happlies : (serve exampleApp 11 exampleReply confirmLast r.2).Applies exampleApp c :=
    ⟨⟨"ip", "pppppppppp-iiiii", rfl, htoken⟩, hc, hdone⟩
  refine ⟨_, _, _, c, hrun', happlies, hfrom, ⟨c', hc', hfrom', hlive⟩, ?_⟩
  refine applied_unmoved exampleApp_uuid_injective hrun' (fun p hp => ?_) rfl happlies
  rcases List.mem_append.mp hp with hp | hp
  · exact not_returns_of_steady (hsteady p hp)
  · exact not_returns_of_steady (List.mem_singleton.mp hp ▸ hlast)

/-- The user asks to move to `cy`, moves to `al` and back with links of their own, and then confirms
the first link. -/
def exampleReturn : List (Time × Request) :=
  exampleLogin ++ moveRequests 4 5 "000041" "cy@x.fr" ++ moveRequests 6 7 "000061" "al@x.fr" ++
    [(8, .confirmEmailChange "ip" "ppppppp-iiiii")] ++ moveRequests 9 10 "000091" "bob@x.fr" ++
    [(11, .confirmEmailChange "ip" "pppppppppp-iiiii")]

/-- A link is applied to an account that moved away and came back since. -/
theorem revived_change : ¬∀ l p m s c, Run exampleApp Server.empty (l ++ p :: m) s →
    p.Applies exampleApp c → Unmoved exampleApp l c := by
  intro h
  have hrun : Run exampleApp Server.empty (script exampleApp exampleReply .empty exampleReturn).1
      (script exampleApp exampleReply .empty exampleReturn).2 :=
    script_run (by
      simp [exampleReturn, moveRequests, exampleLogin, exampleLink, InOrder, Server.empty])
  have hchecks : (fun r => confirmsFirst 12 r && r.1.any fun q =>
      (q.after.db.emailChanges.any fun c => c.id = 41) &&
        q.after.db.users.any fun u => u.id = 7 && u.email = "al@x.fr")
      (script exampleApp exampleReply .empty exampleReturn) = true := by
    decide +kernel
  generalize script exampleApp exampleReply .empty exampleReturn = r at hrun hchecks
  simp only [Bool.and_eq_true, List.any_eq_true, decide_eq_true_eq] at hchecks
  obtain ⟨hfirst, q, hq, ⟨c', hc', hid'⟩, u, hu, huser, hemail⟩ := hchecks
  obtain ⟨hclock, c, hid, hcuser, hfrom, happlies⟩ := applies_of_confirmsFirst hfirst
  have hunmoved := h r.1 _ [] _ c (hrun.snoc 12 exampleReply confirmFirst hclock) happlies
  have hstayed := hunmoved.address q hq ⟨c', hc', hid'.trans hid.symm⟩ u hu (huser.trans hcuser.symm)
  rw [hemail, hfrom] at hstayed
  exact absurd hstayed (by decide)

end Example

end Bauth
