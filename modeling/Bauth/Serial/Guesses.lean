import Bauth.Serial.Kept
import Bauth.Transition.Budget
import Mathlib.Tactic.Linarith

/-!
# The wrong codes of an account

`find_code_candidate` refuses an account whose confirmations of the last day have ten failures.
Those that a code was checked against during the last day, less the time a code is valid, are all
still there and of the last day. So the ten failures are ten wrong codes.
-/

namespace Bauth

open Transaction

/-! ### Checking a code, and saying so -/

section Alone

open Transaction.Program

variable {app : App} {env : Env sig} {process : ℕ} {d : Database} {events : List Event}

/-- What checking a code answers, leaves and signals. -/
inductive CodeVerified (app : App) (env : Env sig) (user : CurrentUser)
    (action : Me.ConfirmationAction) (code : String) (d : Database) :
    Except ApiError Unit → Database → List Event → Prop
  | refused (e : ApiError) : CodeVerified app env user action code d (.error e) d []
  | wrong {c : Confirmation} (hc : d.Pending user action env.now c)
      (hwrong : app.verifyCode app.confirmationKey user.sessionId code c.codeHash = false) :
      CodeVerified app env user action code d (.error .invalidCode)
        (d.failConfirmation env.now c.id) [.codeVerified .confirmation c.id]
  | right {c : Confirmation} (hc : d.Pending user action env.now c)
      (hright : app.verifyCode app.confirmationKey user.sessionId code c.codeHash = true) :
      CodeVerified app env user action code d (.ok ()) (d.consumeConfirmation env.now c.id)
        [.codeVerified .confirmation c.id]

lemma wp_checkCode_verified (hids : d.UniqueIds) (ip : String) (user : CurrentUser)
    (action : Me.ConfirmationAction) (code : String) {Q : Except ApiError Unit → Point sig → Prop}
    (h : ∀ a d' tx sent, CodeVerified app env user action code d a d' sent →
      (a = .ok () → tx = none) → Q a ⟨d', tx, events ++ sent⟩) :
    Handler.wp env process (Me.checkCode app ip user action code) ⟨d, none, events⟩ Q := by
  have hrefused : ∀ e tx, Q (.error e) ⟨d, tx, events⟩ := by
    intro e tx
    have hQ := h _ d tx [] (.refused e) fun ha => by cases ha
    rwa [List.append_nil] at hQ
  simp only [Me.checkCode, wp_bind]
  refine wp_checkLimit_of ?_ fun _ => hrefused _ _
  rw [wp_checkFormat]
  refine ⟨fun _ => ?_, fun _ => hrefused _ _⟩
  simp only [wp_perform, wp_start]
  refine wp_findConfirmation (fun _ => hrefused _ _) fun c hnewest hpending => ?_
  have hmem := (mem_of_newestConfirmation hnewest).1
  simp only [wp_ite, wp_throw, wp_bind, wp_verifyCode, wp_runChecked, wp_run, throw_bind]
  refine ⟨fun _ => hrefused _ _, fun haddress => ?_⟩
  have hc := hpending (not_not.mp haddress)
  refine ⟨fun hwrong => ?_, fun hright => ?_⟩
  · rw [Confirmations.recordCodeFailure, wp_update hids.confirmations]
    have hhit : (d.confirmations.filter fun c' => decide (c'.id = c.id)).head? = some c :=
      head?_filter_eq hids.confirmations hmem (by simp) fun c' hc' => by simpa using hc'
    simp only [Table.confirmations, Point.view, Option.getD_some, hhit, Except.mapError,
      Point.write, wp_perform, wp_finish]
    exact h _ _ _ _ (.wrong hc (by simpa using hwrong)) fun _ => rfl
  · rw [Confirmations.consumeById, wp_update hids.confirmations]
    simp only [wp_perform, wp_finish]
    exact h _ _ _ _ (.right hc (by simpa using hright)) fun _ => rfl

/-- A request with a code checks it against one confirmation of its user at most, and records it
when it is wrong. -/
inductive ConfirmationTried (app : App) (env : Env sig) (authorization : Option String)
    (action : Me.ConfirmationAction) (code : String) (d : Database) :
    Database → List Event → Prop
  | none {d' : Database} {events : List Event}
      (h : ∀ id, .codeVerified .confirmation id ∉ events) :
      ConfirmationTried app env authorization action code d d' events
  | one {user : CurrentUser} {c : Confirmation} {d' : Database} {events : List Event}
      (huser : Authenticated app env authorization d user)
      (hc : d.Pending user action env.now c)
      (h : ∀ id, .codeVerified .confirmation id ∈ events ↔ id = c.id)
      (hwrong : app.verifyCode app.confirmationKey user.sessionId code c.codeHash = false →
        d' = d.failConfirmation env.now c.id) :
      ConfirmationTried app env authorization action code d d' events

lemma changeEmail_tried (hids : d.UniqueIds) (ip : String) (authorization : Option String)
    (code newEmail : String) :
    Handler.wp env process (Me.changeEmail app ip authorization code newEmail) ⟨d, none, []⟩
      fun _ c => ConfirmationTried app env authorization .changeEmail code d c.db c.events := by
  have hnone : ∀ d', ConfirmationTried app env authorization .changeEmail code d d' [] :=
    fun d' => .none fun id hid => by cases hid
  simp only [Me.changeEmail, wp_bind]
  refine wp_currentUser (hnone _) fun user huser => ?_
  simp only [wp_ite, wp_throw, throw_bind, Bool.not_eq_true', Bool.not_eq_false]
  refine ⟨fun _ => hnone _, fun hvalid => ⟨fun _ => hnone _, fun _ => ?_⟩⟩
  cases hclient : app.client user.clientId with
  | none => exact hnone _
  | some client =>
    simp only [wp_bind, wp_mk_pure]
    cases hpage : EmailChange.page client with
    | error e => exact hnone _
    | ok page =>
      refine wp_checkLimit_of ?_ fun _ => hnone _
      refine wp_checkCode_verified hids ip user .changeEmail code fun a d' tx sent hcode htx => ?_
      cases hcode with
      | refused e => exact hnone _
      | wrong hc hwrong => exact .one huser hc (by simp) fun _ => rfl
      | @right c hc hright =>
        have hdone : ∀ d' sent, (∀ id, .codeVerified .confirmation id ∉ sent) →
            ConfirmationTried app env authorization .changeEmail code d d'
              ([.codeVerified .confirmation c.id] ++ sent) := by
          intro d' sent hsent
          refine .one huser hc (fun id => ?_) fun hwrong => ?_
          · simp [hsent id]
          · cases hright.symm.trans hwrong
        obtain rfl := htx rfl
        simp only [wp_run, Users.findByEmail, wp_select, wp_ite, wp_bind, wp_perform, wp_fresh,
          wp_clock, wp_runChecked, wp_pure]
        refine ⟨fun _ j => ?_, fun _ => hdone _ [] (by simp)⟩
        refine wp_emailChangesCreate huser (hdone _ [] (by simp)) fun i hnew => ?_
        simp only [wp_sendInBackground, Except.mapError]
        exact hdone _ [_] (by simp)

lemma deleteAccount_tried (hids : d.UniqueIds) (ip : String) (authorization : Option String)
    (code : String) :
    Handler.wp env process (Me.deleteAccount app ip authorization code) ⟨d, none, []⟩
      fun _ c => ConfirmationTried app env authorization .deleteAccount code d c.db c.events := by
  have hnone : ∀ d', ConfirmationTried app env authorization .deleteAccount code d d' [] :=
    fun d' => .none fun id hid => by cases hid
  simp only [Me.deleteAccount, wp_bind]
  refine wp_currentUser (hnone _) fun user huser => ?_
  refine wp_checkCode_verified hids ip user .deleteAccount code fun a d' tx sent hcode htx => ?_
  cases hcode with
  | refused e => exact hnone _
  | wrong hc hwrong => exact .one huser hc (by simp) fun _ => rfl
  | right hc hright =>
    obtain rfl := htx rfl
    simp only [wp_run, wp_query, wp_sendInBackground, Users.delete, Point.write]
    intro i
    refine .one huser hc (fun id => by simp) fun hwrong => ?_
    cases hright.symm.trans hwrong

end Alone

/-! ### Wrong codes -/

/-- The code that a request has checked. -/
def Request.confirmationCode : Request → Option String
  | .changeEmail _ _ code _ | .deleteAccount _ _ code => some code
  | _ => none

/-- The confirmations of the account that a request is checked against and whose code it has
not. -/
def Served.wrongCodes (app : App) (userId : Uuid) (p : Served) : List Uuid :=
  match p.request.confirmationCode with
  | some code => (p.before.db.confirmations.filter fun c => c.userId = userId &&
      p.events.contains (.codeVerified .confirmation c.id) &&
      !app.verifyCode app.confirmationKey c.sessionId code c.codeHash).map Confirmation.id
  | none => []

section Wrong

open Transition

variable {app : App} {p : Served} {userId : Uuid}

/-- The user of a wrong code, and the confirmation that has recorded it. -/
structure Served.Misses (app : App) (userId : Uuid) (p : Served) (user : CurrentUser)
    (action : Me.ConfirmationAction) (c : Confirmation) : Prop where
  session : ∃ authorization, Authenticated app ⟨p.time, p.time, p.reply⟩ authorization p.before.db
    user
  pending : p.before.db.Pending user action p.time c
  row : c ∈ p.before.db.confirmations ∧ c.sessionId = user.sessionId
  account : c.userId = userId ∧ user.id = userId
  wrong : p.wrongCodes app userId = [c.id]
  recorded : p.after.db = p.before.db.failConfirmation p.time c.id

lemma misses_of_tried (hids : p.before.db.UniqueIds) (hcoherent : p.before.db.Coherent)
    (authorization : Option String) (action : Me.ConfirmationAction) {code : String}
    (hcode : p.request.confirmationCode = some code)
    (h : ConfirmationTried app ⟨p.time, p.time, p.reply⟩ authorization action code p.before.db
      p.after.db p.events) :
    p.wrongCodes app userId = [] ∨ ∃ user action c, p.Misses app userId user action c := by
  have hwrongs : p.wrongCodes app userId = (p.before.db.confirmations.filter fun c =>
      c.userId = userId && p.events.contains (.codeVerified .confirmation c.id) &&
        !app.verifyCode app.confirmationKey c.sessionId code c.codeHash).map Confirmation.id := by
    rw [Served.wrongCodes, hcode]
  generalize hafter : p.after.db = d', hevents : p.events = events at h hwrongs
  cases h with
  | none h =>
    left
    rw [hwrongs, List.map_eq_nil_iff, List.filter_eq_nil_iff]
    intro c _ hc
    simp only [Bool.and_eq_true, List.contains_iff_mem] at hc
    exact h c.id hc.1.2
  | @one user c _ _ huser hc h hwrong =>
    obtain ⟨hmem, hsession, -⟩ := mem_of_newestConfirmation hc.newest
    by_cases hmiss : c.userId = userId ∧
        app.verifyCode app.confirmationKey user.sessionId code c.codeHash = false
    · right
      obtain ⟨howner, hfalse⟩ := hmiss
      obtain ⟨S, hS, hSid, hSuser, -⟩ := huser.session
      have huserId : user.id = c.userId :=
        hSuser.symm.trans (hcoherent.confirmed c hmem S hS (hSid.trans hsession.symm))
      refine ⟨user, action, c, ⟨authorization, huser⟩, hc, ⟨hmem, hsession⟩,
        ⟨howner, huserId.trans howner⟩, ?_, hafter.trans (hwrong hfalse)⟩
      rw [hwrongs, filter_eq_singleton hids.confirmations hmem]
      · rfl
      · simp [howner, hsession, hfalse, (h c.id).mpr rfl]
      · intro c' _ hc'
        simp only [Bool.and_eq_true, List.contains_iff_mem] at hc'
        exact (h c'.id).mp hc'.1.2
    · left
      rw [hwrongs, List.map_eq_nil_iff, List.filter_eq_nil_iff]
      intro c' hc' hboth
      simp only [Bool.and_eq_true, List.contains_iff_mem, decide_eq_true_eq, Bool.not_eq_true']
        at hboth
      obtain rfl := List.inj_on_of_nodup_map hids.confirmations hc' hmem ((h c'.id).mp hboth.1.2)
      exact hmiss ⟨hboth.1.1, hsession ▸ hboth.2⟩

/-- A request misses one confirmation of an account at most. -/
lemma wrongCodes_cases (hp : p.Taken app) (huuid : Function.Injective app.uuid) (userId : Uuid) :
    p.wrongCodes app userId = [] ∨ ∃ user action c, p.Misses app userId user action c := by
  have hids := (hp.2.keyed huuid).uniqueIds
  have hcoherent := hp.2.coherent huuid
  cases hrequest : p.request with
  | changeEmail ip authorization code newEmail =>
    refine misses_of_tried hids hcoherent authorization .changeEmail (by rw [hrequest]; rfl) ?_
    have htried : ConfirmationTried app ⟨p.time, p.time, p.reply⟩ authorization .changeEmail code
        p.before.db (serve app p.time p.reply p.request p.before).after.db
        (serve app p.time p.reply p.request p.before).events := by
      rw [hrequest]
      exact serve_wp (Q := fun _ db events => ConfirmationTried app ⟨p.time, p.time, p.reply⟩
        authorization .changeEmail code p.before.db db events)
        ((wp_apiRoute _ _).mpr (changeEmail_tried hids ip authorization code newEmail))
    rwa [← hp.1.serve] at htried
  | deleteAccount ip authorization code =>
    refine misses_of_tried hids hcoherent authorization .deleteAccount (by rw [hrequest]; rfl) ?_
    have htried : ConfirmationTried app ⟨p.time, p.time, p.reply⟩ authorization .deleteAccount code
        p.before.db (serve app p.time p.reply p.request p.before).after.db
        (serve app p.time p.reply p.request p.before).events := by
      rw [hrequest]
      exact serve_wp (Q := fun _ db events => ConfirmationTried app ⟨p.time, p.time, p.reply⟩
        authorization .deleteAccount code p.before.db db events)
        ((wp_apiRoute _ _).mpr (deleteAccount_tried hids ip authorization code))
    rwa [← hp.1.serve] at htried
  | _ => exact .inl (by rw [Served.wrongCodes, hrequest]; rfl)

/-- The confirmations of a state have counted the wrong codes before it. -/
lemma confirmations_count (huuid : Function.Injective app.uuid) (userId : Uuid) :
    Counts (fun s => s.db.confirmations) Confirmation.id Confirmation.codeFailures
      (fun s k => Server.HasDrawn app k s) Served.before Served.after (Served.Taken app)
      (Served.wrongCodes app userId) where
  row p hp r hr := by
    have hkept : (∃ x ∈ p.before.db.confirmations, x.id = r.id ∧
        x.codeFailures ≤ r.codeFailures) ∨ ∃ i, r.id = app.uuid ⟨p.before.served, i⟩ := by
      rw [hp.1.serve] at hr
      obtain ⟨k, hk⟩ := @serve_keeps app p.time p.reply p.request p.before
        (fun _ d => ∀ y ∈ d.confirmations, (∃ x ∈ p.before.db.confirmations, x.id = y.id ∧
          x.codeFailures ≤ y.codeFailures) ∨ ∃ i, y.id = app.uuid ⟨p.before.served, i⟩)
        (fun _ _ h => h) (fun q k d d' _ h hd => by
          refine hd.confirmations.forall_mem h ?_ fun y hy => .inr ⟨k, hy.2.1⟩
          rintro y y' hy hstep
          cases hstep with
          | same => exact hy
          | consume => exact hy
          | fail =>
            rcases hy with ⟨x, hx, hid, hle⟩ | hnew
            · exact .inl ⟨x, hx, hid, hle.trans (Nat.le_succ _)⟩
            · exact .inr hnew) fun y hy => .inl ⟨y, hy, rfl, le_rfl⟩
      exact hk r hr
    rcases wrongCodes_cases hp huuid userId with hnone | ⟨user, action, c, hmiss⟩
    · rcases hkept with ⟨x, hx, hid, hle⟩ | ⟨i, hi⟩
      · exact .inl ⟨x, hx, hid, by simpa [hnone] using hle⟩
      · right
        rw [Server.HasDrawn, hi]
        exact not_drawn huuid (Nat.zero_le i)
    · -- the recorded failure
      left
      rw [hmiss.recorded] at hr
      obtain ⟨x, hx, rfl⟩ := mem_updateWhere.mp hr
      refine ⟨x, hx, ?_⟩
      rw [hmiss.wrong]
      by_cases hid : x.id = c.id
      · simp [hid]
      · simp [hid, Ne.symm hid]
  spent p hp k hk := by
    rcases wrongCodes_cases hp huuid userId with hnone | ⟨user, action, c, hmiss⟩
    · rw [hnone] at hk
      cases hk
    · rw [hmiss.wrong, List.mem_singleton] at hk
      subst hk
      exact (hp.2.keyed huuid).confirmations.drawn _ (List.mem_map_of_mem hmiss.row.1)
  stays p hp k hk := hp.1.hasDrawn hk

/-- A confirmation that was missed is kept from then on. -/
lemma Served.Misses.keeps {user : CurrentUser} {action : Me.ConfirmationAction} {c : Confirmation}
    (h : p.Misses app userId user action c) (hcoherent : p.before.db.Coherent) :
    p.time < c.expiresAt ∧ p.after.db.Keeps p.time c := by
  have husable := h.pending.usable
  rw [Confirmation.usable, Bool.and_eq_true, Option.isNone_iff_eq_none, decide_eq_true_eq]
    at husable
  refine ⟨husable.2, ?_⟩
  obtain ⟨authorization, huser⟩ := h.session
  obtain ⟨S, hS, hSid, -, hrevoked, hexpires⟩ := huser.session
  have hsession : S.id = c.sessionId := hSid.trans h.row.2.symm
  have hbefore : p.before.db.Keeps p.time c :=
    { row := ⟨c, h.row.1, rfl, rfl, rfl, rfl, rfl, by simp [husable.1]⟩
      session := ⟨S, hS, hsession, hcoherent.confirmed c h.row.1 S hS hsession, hexpires,
        by simp [hrevoked]⟩ }
  rw [h.recorded]
  exact hbefore.fails le_rfl _

variable {clock : Time} {steps : List Served} {s : Server}

/-- A confirmation expires with its code. -/
lemma Run.confirmation_ttl (h : Run app { db := {}, served := 0, clock } steps s) :
    ∀ c ∈ s.db.confirmations, c.expiresAt = c.createdAt + codeTtl := by
  intro c hc
  obtain ⟨-, p, -, c₀, -, ⟨user, action, hasks⟩, hsame⟩ := (h.path (.start app clock)).born
    (fun s => s.db.confirmations) Confirmation.asAsked
    (fun p c => ∃ user action, p.Asks app user action c) rfl (fun p hp => asks_or_before hp.1) c hc
  have hcreated : c₀.createdAt = c.createdAt := by
    have hrow := congrArg Confirmation.createdAt hsame
    exact hrow
  have hexpires : c₀.expiresAt = c.expiresAt := by
    have hrow := congrArg Confirmation.expiresAt hsame
    exact hrow
  rw [← hcreated, ← hexpires, hasks.created.2.1]
  exact hasks.created.2.2

/-- A confirmation whose code was missed during the last day is there, and counts, as long as its
account is there. -/
lemma Run.missed_counts (huuid : Function.Injective app.uuid)
    (h : Run app { db := {}, served := 0, clock } steps s) {now : Time} (hnow : s.clock ≤ now)
    (huser : ∃ u ∈ s.db.users, u.id = userId) {q : Served} (hq : q ∈ steps)
    (htime : now < q.time + (days 1 - codeTtl)) {k : Uuid} (hk : k ∈ q.wrongCodes app userId) :
    ∃ x ∈ s.db.confirmations, x.id = k ∧
      (x.userId = userId && now - days 1 < x.createdAt) = true := by
  obtain ⟨a, b, rfl⟩ := List.append_of_mem hq
  obtain ⟨hbefore, -, -⟩ := h.around
  obtain ⟨-, hqt, hrest⟩ := (h.path (.start app clock)).around
  have hcoherent := hqt.2.coherent huuid
  rcases wrongCodes_cases hqt huuid userId with hnone | ⟨user', action', c', hmiss'⟩
  · rw [hnone] at hk
    cases hk
  rw [hmiss'.wrong, List.mem_singleton] at hk
  subst hk
  obtain ⟨hexpires, hkeeps⟩ := hmiss'.keeps hcoherent
  have hclock : q.after.clock = q.time := by
    rw [hqt.1.serve]
    rfl
  have hdrawn : q.after.HasDrawn app c'.userId := by
    obtain ⟨authorization, huser'⟩ := hmiss'.session
    obtain ⟨u, hu, huid, -⟩ := huser'.account
    apply hqt.1.hasDrawn
    rw [hmiss'.account.1, ← hmiss'.account.2, ← huid]
    exact (hqt.2.keyed huuid).users.drawn _ (List.mem_map_of_mem hu)
  have hweek : s.clock - days 7 ≤ q.time := by
    have hlt : days 1 - codeTtl ≤ days 7 := by decide
    linarith
  obtain ⟨-, -, hkept | hgone⟩ := hkeeps.path huuid hrest hexpires hclock.ge hdrawn hweek
  · obtain ⟨x, hx, hid, hxuser, -, hcreated, -⟩ := hkept.row
    refine ⟨x, hx, hid, ?_⟩
    have httl := hbefore.confirmation_ttl c' hmiss'.row.1
    rw [hxuser, hmiss'.account.1, hcreated, Bool.and_eq_true, decide_eq_true_eq, decide_eq_true_eq]
    refine ⟨rfl, ?_⟩
    rw [httl] at hexpires
    linarith
  · obtain ⟨u, hu, huid⟩ := huser
    exact absurd (huid.trans hmiss'.account.1.symm) (hgone u hu)

/-- However the purge and the other requests come in between, no more than ten wrong codes are
checked for an account in any window of a day less the time a code is valid, and no more than five
against one confirmation. What was checked during the window before the last request is still
counted, unless the account is gone. -/
theorem confirmation_codes_capped (huuid : Function.Injective app.uuid)
    (hrun : Run app { db := {}, served := 0, clock } steps s) (userId : Uuid) :
    (∀ since, (spentBetween Served.time (Served.wrongCodes app userId) since
      (since + (days 1 - codeTtl)) steps).length ≤ maxFailuresPerDay) ∧
    (∀ id, (steps.flatMap (Served.wrongCodes app userId)).count id ≤ maxFailuresPerCode) ∧
    ∀ q ∈ steps, s.clock < q.time + (days 1 - codeTtl) → (∃ u ∈ s.db.users, u.id = userId) →
      ∀ id ∈ q.wrongCodes app userId, ∃ c ∈ s.db.confirmations, c.id = id ∧ c.userId = userId ∧
        s.clock - days 1 < c.createdAt ∧
        (steps.flatMap (Served.wrongCodes app userId)).count id ≤ c.codeFailures := by
  have hpath := hrun.path (.start app clock)
  have hcounts := confirmations_count huuid userId
  rw [← and_assoc]
  refine ⟨Path.keeps_budget (fun p x => x.userId = userId && p.time - days 1 < x.createdAt) hpath
    hcounts ?_, fun q hq htime huser id hid => ?_⟩
  · rintro l p m rfl hp
    obtain ⟨-, hpt, -⟩ := hpath.around
    rcases wrongCodes_cases hpt huuid userId with hnone | ⟨user, action, c, hmiss⟩
    · exact absurd hnone hp
    refine ⟨?_, ⟨c, hmiss.row.1, hmiss.wrong, hmiss.pending.failures⟩, ?_⟩
    · have hbudget := hmiss.pending.budget
      rw [hmiss.account.2, Database.confirmationFailures] at hbudget
      exact hbudget
    · intro q hq htime k hk
      obtain ⟨authorization, huser⟩ := hmiss.session
      obtain ⟨u, hu, huid, -⟩ := huser.account
      exact hrun.around.1.missed_counts huuid hpt.1.clock ⟨u, hu, huid.trans hmiss.account.2⟩ hq
        htime hk
  · obtain ⟨c, hc, rfl, hcount⟩ := hrun.missed_counts huuid le_rfl huser hq htime hid
    rw [Bool.and_eq_true, decide_eq_true_eq, decide_eq_true_eq] at hcount
    exact ⟨c, hc, rfl, hcount.1, hcount.2, (hpath.counted_le hcounts).2 c hc⟩

end Wrong

section Example

open Transition

/-- Wrong codes typed for a change of address. -/
def exampleMisses : List Served × Server :=
  let authorization := some "Bearer uuuuuuussssssssssssss"
  script exampleApp exampleReply Server.empty (exampleLogin ++
    (4, .requestConfirmation "ip" authorization .changeEmail) ::
      List.replicate 3 (5, .changeEmail "ip" authorization "999999" "cy@x.fr"))

example : (exampleMisses.1.flatMap (Served.wrongCodes exampleApp 7)).length = 3 := by
  decide +kernel

/-- Three wrong codes of an account, which its confirmation has counted. -/
theorem confirmation_codes_capped_example :
    (∀ since, (spentBetween Served.time (Served.wrongCodes exampleApp 7) since
      (since + (days 1 - codeTtl)) exampleMisses.1).length ≤ maxFailuresPerDay) ∧
    ∃ c ∈ exampleMisses.2.db.confirmations, 3 ≤ c.codeFailures ∧
      c.codeFailures ≤ maxFailuresPerCode := by
  have hrun : Run exampleApp { db := {}, served := 0, clock := 0 } exampleMisses.1
      exampleMisses.2 :=
    script_run (s := Server.empty) (by decide +kernel)
  obtain ⟨hday, -, hkept⟩ := confirmation_codes_capped exampleApp_uuid_injective hrun 7
  have hmissed : exampleMisses.1.any (fun q => exampleMisses.2.clock < q.time + (days 1 - codeTtl) &&
      (q.wrongCodes exampleApp 7).any fun id =>
        3 ≤ (exampleMisses.1.flatMap (Served.wrongCodes exampleApp 7)).count id) = true := by
    decide +kernel
  have hcapped : ∀ c ∈ exampleMisses.2.db.confirmations, c.codeFailures ≤ maxFailuresPerCode := by
    decide +kernel
  simp only [List.any_eq_true, Bool.and_eq_true, decide_eq_true_eq] at hmissed
  obtain ⟨q, hq, htime, id, hid, hthree⟩ := hmissed
  obtain ⟨c, hc, -, -, -, hcount⟩ := hkept q hq htime (by decide +kernel) id hid
  exact ⟨hday, c, hc, hthree.trans hcount, hcapped c hc⟩

end Example

end Bauth
