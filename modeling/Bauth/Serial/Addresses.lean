import Bauth.Alone.Outcome
import Bauth.Serial.Script

/-!
# Where a verified address was proven

Every link and every email change of a reachable database was mailed, and every verified account
has the address that such an email went to, unless an email change wrote another address than the
one it mailed.
-/

namespace Bauth

open Transaction

/-- The email carries the secret that the request presents, as the server checks it. -/
inductive Served.Proves (app : App) (q : Served) (e : Email) : Request → Prop
  | token {client : Client} {userId : Option Uuid} {mailed code ip token : String}
      (he : e = linkMail client userId e.recipient mailed code)
      (htoken : app.hash token = app.hash mailed) : Proves app q e (.confirmMagicLink ip token)
  | code {client : Client} {userId : Option Uuid} {mailed ip ip' code email : String} {n : Draw}
      {flowId : Uuid} (hrequest : q.request = .requestMagicLink ip' flowId email)
      (he : e = linkMail client userId e.recipient mailed (app.plainCode n))
      (hcode : app.verifyCode app.magicLinkKey flowId code
        (app.codeHash app.magicLinkKey flowId n) = true) :
      Proves app q e (.confirmMagicCode ip flowId code)
  | change {page mailed ip token : String}
      (he : e = .confirmEmailChange e.recipient (MagicLink.linkWith page mailed))
      (htoken : app.hash token = app.hash mailed) : Proves app q e (.confirmEmailChange ip token)

/-- A verified account of this identifier and address. -/
def Database.Verified (d : Database) (id : Uuid) (email : String) : Prop :=
  ∃ u ∈ d.users, u.id = id ∧ u.email = email ∧ u.emailVerifiedAt.isSome = true

/-- The run mailed a secret to the address, and a later request that presented it verified the
account at this address, or moved it there. -/
def Proven (app : App) (steps : List Served) (id : Uuid) (email : String) : Prop :=
  ∃ l q c p m e, steps = l ++ q :: (c ++ p :: m) ∧ .sent e ∈ q.events ∧ e.recipient = email ∧
    q.Proves app e p.request ∧ ¬p.before.db.Verified id email ∧ p.after.db.Verified id email

/-- The address an email change mails is the one it writes. -/
def Served.SameAddress (app : App) (p : Served) : Prop :=
  ∀ ip authorization code newEmail, p.request = .changeEmail ip authorization code newEmail →
    app.unicode.emailKey newEmail = app.unicode.normalize newEmail

/-- The link was mailed to its address. -/
def LinkMailed (app : App) (steps : List Served) (l : MagicLink) : Prop :=
  ∃ q ∈ steps, ∃ client userId token n ip email, q.request = .requestMagicLink ip l.flowId email ∧
    .sent (linkMail client userId l.email token (app.plainCode n)) ∈ q.events ∧
    l.tokenHash = app.hash token ∧ l.codeHash = app.codeHash app.magicLinkKey l.flowId n

/-- The email change was mailed to the address it writes. -/
def ChangeMailed (app : App) (steps : List Served) (c : EmailChange) : Prop :=
  ∃ q ∈ steps, ∃ page token, .sent (.confirmEmailChange c.toEmail (MagicLink.linkWith page token)) ∈
    q.events ∧ c.tokenHash = app.hash token

/-! ### One request -/

@[simp] lemma linkMail_recipient (client : Client) (userId : Option Uuid) (address token code : String) :
    (linkMail client userId address token code).recipient = address := by
  cases userId <;> rfl

section Step

variable {app : App} {p : Served}

/-- What the rows of a request that does not verify keep. -/
lemma verified_of_may (hp : p.Of app)
    (hmay : ∀ q, p.request.may q → q ≠ .usersMarkEmailVerified ∧ q ≠ .usersChangeEmail)
    {id : Uuid} {email : String} (h : p.after.db.Verified id email) :
    p.before.db.Verified id email := by
  have hkeeps : ∃ _ : ℕ, ∀ u ∈ p.after.db.users, u.emailVerifiedAt.isSome = true →
      p.before.db.Verified u.id u.email := by
    rw [hp.serve]
    refine serve_keeps (J := fun _ d => ∀ u ∈ d.users, u.emailVerifiedAt.isSome = true →
      p.before.db.Verified u.id u.email) (fun _ _ h => h) (fun q k d d' hq hd hstep u hu hv => ?_)
      fun u hu hv => ⟨u, hu, rfl, rfl, hv⟩
    obtain ⟨hverify, hmove⟩ := hmay q hq
    rcases hstep.users.mem hu with ⟨u₀, hu₀, hrow⟩ | ⟨-, email, rfl⟩
    · cases hrow with
      | same => exact hd u hu₀ hv
      | verify hq => exact absurd hq hverify
      | move hq => exact absurd hq hmove
      | disable hq disabledAt => exact hd u₀ hu₀ hv
    · cases hv
  obtain ⟨-, hkeeps⟩ := hkeeps
  obtain ⟨u, hu, rfl, rfl, hv⟩ := h
  exact hkeeps u hu hv

/-- What the steps of links keep, a request that mails none keeps. -/
lemma links_of_may (hp : p.Of app) (hmay : ∀ q, p.request.may q → q ≠ .magicLinksCreate)
    {P : MagicLink → Prop} (hP : ∀ q now l l', MagicLink.Step q now l l' → P l → P l')
    (h : ∀ l ∈ p.before.db.magicLinks, P l) : ∀ l ∈ p.after.db.magicLinks, P l := by
  have hkeeps : ∃ _ : ℕ, ∀ l ∈ p.after.db.magicLinks, P l := by
    rw [hp.serve]
    refine serve_keeps (J := fun _ d => ∀ l ∈ d.magicLinks, P l) (fun _ _ h => h)
      (fun q k d d' hq hd hstep l hl => ?_) h
    rcases hstep.magicLinks.mem hl with ⟨l₀, hl₀, hrow⟩ | ⟨hcreate, -⟩
    · exact hP _ _ _ _ hrow (hd l₀ hl₀)
    · exact absurd hcreate (hmay q hq)
  exact hkeeps.choose_spec

lemma changes_of_may (hp : p.Of app) (hmay : ∀ q, p.request.may q → q ≠ .emailChangesCreate)
    {P : EmailChange → Prop} (hP : ∀ q now c c', EmailChange.Step q now c c' → P c → P c')
    (h : ∀ c ∈ p.before.db.emailChanges, P c) : ∀ c ∈ p.after.db.emailChanges, P c := by
  have hkeeps : ∃ _ : ℕ, ∀ c ∈ p.after.db.emailChanges, P c := by
    rw [hp.serve]
    refine serve_keeps (J := fun _ d => ∀ c ∈ d.emailChanges, P c) (fun _ _ h => h)
      (fun q k d d' hq hd hstep c hc => ?_) h
    rcases hstep.emailChanges.mem hc with ⟨c₀, hc₀, hrow⟩ | ⟨hcreate, -⟩
    · exact hP _ _ _ _ hrow (hd c₀ hc₀)
    · exact absurd hcreate (hmay q hq)
  exact hkeeps.choose_spec

lemma LinkMailed.step {steps : List Served} {q : Query} {now : Time} {l l' : MagicLink}
    (hstep : MagicLink.Step q now l l') (h : LinkMailed app steps l) : LinkMailed app steps l' := by
  cases hstep with
  | same => exact h
  | consume => exact h
  | fail => exact h

lemma ChangeMailed.step {steps : List Served} {q : Query} {now : Time} {c c' : EmailChange}
    (hstep : EmailChange.Step q now c c') (h : ChangeMailed app steps c) :
    ChangeMailed app steps c' := by
  cases hstep with
  | same => exact h
  | consume => exact h

lemma LinkMailed.append {steps : List Served} {l : MagicLink} (h : LinkMailed app steps l)
    (p : Served) : LinkMailed app (steps ++ [p]) l := by
  obtain ⟨q, hq, hrest⟩ := h
  exact ⟨q, List.mem_append_left _ hq, hrest⟩

lemma ChangeMailed.append {steps : List Served} {c : EmailChange} (h : ChangeMailed app steps c)
    (p : Served) : ChangeMailed app (steps ++ [p]) c := by
  obtain ⟨q, hq, hrest⟩ := h
  exact ⟨q, List.mem_append_left _ hq, hrest⟩

lemma Proven.append {steps : List Served} {id : Uuid} {email : String}
    (h : Proven app steps id email) (p : Served) : Proven app (steps ++ [p]) id email := by
  obtain ⟨l, q, c, p', m, e, rfl, hrest⟩ := h
  exact ⟨l, q, c, p', m ++ [p], e, by simp, hrest⟩

/-- The links after a request: it mailed those that are new. -/
lemma links_mailed (hp : p.Of app) (huuid : Function.Injective app.uuid)
    (hkeyed : p.before.db.Keyed app p.before.served 0) {steps : List Served}
    (h : ∀ l ∈ p.before.db.magicLinks, LinkMailed app steps l) :
    ∀ l ∈ p.after.db.magicLinks, LinkMailed app (steps ++ [p]) l := by
  have hold : ∀ l ∈ p.before.db.magicLinks, LinkMailed app (steps ++ [p]) l :=
    fun l hl => (h l hl).append p
  by_cases hcreates : p.request.may .magicLinksCreate
  · have hout := hp.outcome huuid hkeyed
    cases hr : p.request with
    | requestMagicLink ip flowId email =>
      rw [hr] at hout
      generalize p.after.db = d', p.response = a, hevents : p.events = events at hout ⊢
      cases hout with
      | requestMagicLink hout =>
        cases hout with
        | refused => exact hold
        | failed => exact hold
        | counted => exact hold
        | @mailed f client userId hf hclient huser i j n hnew =>
          intro l hl
          rcases List.mem_append.mp hl with hl | hl
          · exact hold l hl
          · obtain rfl := List.mem_singleton.mp hl
            refine ⟨p, List.mem_append_right _ (List.mem_singleton_self p), client, userId, _, _, ip,
              email, hr, ?_, rfl, rfl⟩
            rw [hevents]
            exact List.mem_singleton_self _
    | _ =>
      rw [hr] at hcreates
      simp [Request.may, Query.LogsIn, Query.ChecksCode] at hcreates
  · exact links_of_may hp (fun q hq hcreate => hcreates (hcreate ▸ hq))
      (fun _ _ _ _ hstep h => h.step hstep) hold

/-- The email changes after a request: it mailed those that are new. -/
lemma changes_mailed (hp : p.Of app) (huuid : Function.Injective app.uuid)
    (hkeyed : p.before.db.Keyed app p.before.served 0) (hsame : p.SameAddress app)
    {steps : List Served} (h : ∀ c ∈ p.before.db.emailChanges, ChangeMailed app steps c) :
    ∀ c ∈ p.after.db.emailChanges, ChangeMailed app (steps ++ [p]) c := by
  have hold : ∀ c ∈ p.before.db.emailChanges, ChangeMailed app (steps ++ [p]) c :=
    fun c hc => (h c hc).append p
  by_cases hcreates : p.request.may .emailChangesCreate
  · have hout := hp.outcome huuid hkeyed
    cases hr : p.request with
    | changeEmail ip authorization code newEmail =>
      have haddress := hsame ip authorization code newEmail hr
      rw [hr] at hout
      generalize p.after.db = d', p.response = a, hevents : p.events = events at hout ⊢
      cases hout with
      | changeEmail hout hmail =>
        cases hout with
        | refused => exact hold
        | wrong => exact hold
        | spent => exact hold
        | @mailed user confirmation page huser hvalid hc i j hnew =>
          intro c hc
          rcases List.mem_append.mp hc with hc | hc
          · exact hold c hc
          · obtain rfl := List.mem_singleton.mp hc
            refine ⟨p, List.mem_append_right _ (List.mem_singleton_self p), page, _, ?_, rfl⟩
            rw [hevents]
            have hsent := hmail _ rfl
            rw [haddress] at hsent
            exact hsent
    | _ =>
      rw [hr] at hcreates
      simp [Request.may, Query.LogsIn, Query.ChecksCode] at hcreates
  · exact changes_of_may hp (fun q hq hcreate => hcreates (hcreate ▸ hq))
      (fun _ _ _ _ hstep h => h.step hstep) hold

/-- A login verifies the account at the address its link was mailed to. -/
lemma LoggedIn.verified {env : Program.Env sig} {process : ℕ} {flowId : Uuid} {userId : Option Uuid}
    {email : String} {d d' : Database} {response : Login.LoginResponse}
    (h : LoggedIn app env process flowId userId email d response d') {id : Uuid} {email' : String}
    (hafter : d'.Verified id email') (hbefore : ¬d.Verified id email') : email' = email := by
  cases h with
  | @intro u f w haccount henabled hemail hf hid hpending i j hnew =>
    obtain ⟨u', hu', hid', hsame, hv⟩ := hafter
    obtain ⟨u₀, hu₀, rfl⟩ := mem_updateWhere.mp hu'
    split_ifs at hid' hsame hv with hverify
    · simp only [Bool.and_eq_true, decide_eq_true_eq] at hverify
      exact hsame.symm.trans (hverify.2.trans hemail)
    · -- a row that the login left alone
      cases haccount with
      | known hid hu => exact absurd ⟨u₀, hu₀, hid', hsame, hv⟩ hbefore
      | sameAddress hid hu => exact absurd ⟨u₀, hu₀, hid', hsame, hv⟩ hbefore
      | created hid hfree k =>
        rcases List.mem_append.mp hu₀ with hu₀ | hu₀
        · exact absurd ⟨u₀, hu₀, hid', hsame, hv⟩ hbefore
        · obtain rfl := List.mem_singleton.mp hu₀
          cases hv

/-- A request that verifies an account at an address presents a secret that was mailed there. -/
lemma proves_of_verified (hp : p.Of app) (huuid : Function.Injective app.uuid)
    (hkeyed : p.before.db.Keyed app p.before.served 0) {steps : List Served}
    (hlinks : ∀ l ∈ p.before.db.magicLinks, LinkMailed app steps l)
    (hchanges : ∀ c ∈ p.before.db.emailChanges, ChangeMailed app steps c) {id : Uuid} {email : String}
    (hbefore : ¬p.before.db.Verified id email) (hafter : p.after.db.Verified id email) :
    ∃ q ∈ steps, ∃ e, .sent e ∈ q.events ∧ e.recipient = email ∧ q.Proves app e p.request := by
  by_cases hverifies : p.request.may .usersMarkEmailVerified ∨ p.request.may .usersChangeEmail
  · have hout := hp.outcome huuid hkeyed
    cases hr : p.request with
    | confirmMagicLink ip token =>
      rw [hr] at hout
      generalize p.after.db = d', p.response = a at hout hafter
      cases hout with
      | confirmMagicLink hout =>
        cases hout with
        | refused => exact absurd hafter hbefore
        | @loggedIn l response d' hl htoken husable hlogin =>
          obtain ⟨q, hq, client, userId, mailed, n, ip', email', -, hsent, hhash, -⟩ := hlinks l hl
          have hemail : email = l.email := hlogin.verified hafter hbefore
          have he : linkMail client userId l.email mailed (app.plainCode n) = linkMail client userId
              (linkMail client userId l.email mailed (app.plainCode n)).recipient mailed
              (app.plainCode n) := by
            rw [linkMail_recipient]
          refine ⟨q, hq, _, hsent, ?_, .token he (htoken.symm.trans hhash)⟩
          rw [linkMail_recipient, hemail]
    | confirmMagicCode ip flowId code =>
      rw [hr] at hout
      generalize p.after.db = d', p.response = a at hout hafter
      cases hout with
      | confirmMagicCode hout =>
        cases hout with
        | refused => exact absurd hafter hbefore
        | wrong => exact absurd hafter hbefore
        | @loggedIn l response d' hl hright hlogin =>
          obtain ⟨hmem, hflow⟩ := mem_of_newestLink hl.newest
          obtain ⟨q, hq, client, userId, mailed, n, ip', email', hrequest, hsent, -, hhash⟩ :=
            hlinks l hmem
          have hemail : email = l.email := hlogin.verified hafter hbefore
          have he : linkMail client userId l.email mailed (app.plainCode n) = linkMail client userId
              (linkMail client userId l.email mailed (app.plainCode n)).recipient mailed
              (app.plainCode n) := by
            rw [linkMail_recipient]
          rw [hflow] at hrequest hhash
          refine ⟨q, hq, _, hsent, ?_, .code hrequest he (hhash ▸ hright)⟩
          rw [linkMail_recipient, hemail]
    | confirmEmailChange ip token =>
      rw [hr] at hout
      generalize p.after.db = d', p.response = a at hout hafter
      cases hout with
      | confirmEmailChange hout =>
        cases hout with
        | refused => exact absurd hafter hbefore
        | @moved c hc htoken husable huser hfree =>
          obtain ⟨q, hq, page, mailed, hsent, hhash⟩ := hchanges c hc
          refine ⟨q, hq, _, hsent, ?_, .change rfl (htoken.symm.trans hhash)⟩
          obtain ⟨u', hu', hid', hsame, hv⟩ := hafter
          obtain ⟨u₀, hu₀, rfl⟩ := mem_updateWhere.mp hu'
          split_ifs at hid' hsame hv with hmoves
          · exact hsame
          · exact absurd ⟨u₀, hu₀, hid', hsame, hv⟩ hbefore
    | _ =>
      rw [hr] at hverifies
      simp [Request.may, Query.ChecksCode] at hverifies
  · push Not at hverifies
    exact absurd (verified_of_may hp (fun q hq => ⟨fun h => hverifies.1 (h ▸ hq),
      fun h => hverifies.2 (h ▸ hq)⟩) hafter) hbefore

end Step

/-! ### Runs -/

section Runs

variable {app : App} {clock : Time} {s : Server} {steps : List Served}

/-- What a run mailed, and the accounts it verified. -/
structure Mailed (app : App) (steps : List Served) (s : Server) : Prop where
  links : ∀ l ∈ s.db.magicLinks, LinkMailed app steps l
  changes : ∀ c ∈ s.db.emailChanges, ChangeMailed app steps c
  verified : ∀ id email, s.db.Verified id email → Proven app steps id email

lemma mailed_of_run (huuid : Function.Injective app.uuid)
    (hrun : Run app { db := {}, served := 0, clock } steps s)
    (hsame : ∀ p ∈ steps, p.SameAddress app) : Mailed app steps s := by
  induction hrun with
  | nil => exact ⟨nofun, nofun, fun id email ⟨u, hu, _⟩ => nomatch hu⟩
  | @snoc steps s' hrun time reply request hclock ih =>
    have hmailed := ih fun p hp => hsame p (List.mem_append_left _ hp)
    have hp : (serve app time reply request s').Of app := ⟨rfl, hclock⟩
    have hkeyed : s'.db.Keyed app s'.served 0 := Reachable.keyed huuid ⟨clock, steps, hrun⟩
    have hsame' := hsame _ (List.mem_append_right _ (List.mem_singleton_self _))
    generalize hserve : serve app time reply request s' = p at hp hsame'
    obtain rfl : p.before = s' := hserve ▸ rfl
    refine ⟨links_mailed hp huuid hkeyed hmailed.links,
      changes_mailed hp huuid hkeyed hsame' hmailed.changes, fun id email hafter => ?_⟩
    by_cases hbefore : p.before.db.Verified id email
    · exact (hmailed.verified id email hbefore).append p
    · obtain ⟨q, hq, e, hsent, hrecipient, hproves⟩ :=
        proves_of_verified hp huuid hkeyed hmailed.links hmailed.changes hbefore hafter
      obtain ⟨l, c, rfl⟩ := List.append_of_mem hq
      exact ⟨l, q, c, p, [], e, by simp, hsent, hrecipient, hproves, hbefore, hafter⟩

/-- Every verified address was proven: a secret was mailed to it, and presented. -/
theorem verified_proven (huuid : Function.Injective app.uuid)
    (hrun : Run app { db := {}, served := 0, clock } steps s)
    (hsame : ∀ p ∈ steps, p.SameAddress app) {u : User} (hu : u ∈ s.db.users)
    (hverified : u.emailVerifiedAt.isSome = true) : Proven app steps u.id u.email :=
  (mailed_of_run huuid hrun hsame).verified u.id u.email ⟨u, hu, rfl, rfl, hverified⟩

end Runs

section Example

/-- The user of `exampleLogin` moves to another address. -/
def exampleMove (newEmail : String) : List (Time × Request) :=
  let authorization := some "Bearer uuuuuuussssssssssssss"
  exampleLogin ++
    [(4, .requestConfirmation "ip" authorization .changeEmail),
    (5, .changeEmail "ip" authorization "000041" newEmail),
    (6, .confirmEmailChange "ip" "ppppp-iiiii")]

lemma exampleMove_run (newEmail : String) :
    Run exampleApp Server.empty (script exampleApp exampleReply .empty (exampleMove newEmail)).1
      (script exampleApp exampleReply .empty (exampleMove newEmail)).2 :=
  script_run (by simp [exampleMove, exampleLogin, exampleLink, InOrder, Server.empty])

/-- The new address was proven. -/
theorem verified_proven_moved : ∃ steps s, Run exampleApp Server.empty steps s ∧
    Proven exampleApp steps 7 "al@x.fr" := by
  refine ⟨_, _, exampleMove_run "al@x.fr", ?_⟩
  have hchecks : (((script exampleApp exampleReply .empty (exampleMove "al@x.fr")).2.db.users.any
        fun u => u.id = 7 && u.email = "al@x.fr" && u.emailVerifiedAt.isSome) &&
      (script exampleApp exampleReply .empty (exampleMove "al@x.fr")).1.all fun p =>
        match p.request with
        | .changeEmail _ _ _ newEmail =>
          exampleApp.unicode.emailKey newEmail = exampleApp.unicode.normalize newEmail
        | _ => true) = true := by
    decide +kernel
  rw [Bool.and_eq_true, List.any_eq_true, List.all_eq_true] at hchecks
  obtain ⟨⟨u, hu, huser⟩, hsame⟩ := hchecks
  simp only [Bool.and_eq_true, decide_eq_true_eq] at huser
  obtain ⟨⟨hid, hemail⟩, hverified⟩ := huser
  have hproven := verified_proven exampleApp_uuid_injective (exampleMove_run "al@x.fr")
    (fun p hp ip authorization code newEmail hrequest => ?_) hu hverified
  · rw [hid, hemail] at hproven
    exact hproven
  · have h := hsame p hp
    rw [hrequest] at h
    exact of_decide_eq_true h

/-- Whom an event mails something to. -/
def Event.recipient : Event → Option String
  | .sent e => some e.recipient
  | .codeVerified .. => none

/-- An account has a verified address that nothing was mailed to: the change was mailed to the full
lower case of what was typed, and writes the simple one. -/
theorem unproven_address : ¬∀ steps s u, Run exampleApp Server.empty steps s → u ∈ s.db.users →
    u.emailVerifiedAt.isSome = true → Proven exampleApp steps u.id u.email := by
  intro h
  have hchecks : (((script exampleApp exampleReply .empty (exampleMove "İ@x.fr")).2.db.users.any
        fun u => u.email = "i@x.fr" && u.emailVerifiedAt.isSome) &&
      (script exampleApp exampleReply .empty (exampleMove "İ@x.fr")).1.all fun p =>
        p.events.all fun event => event.recipient ≠ some "i@x.fr") = true := by
    decide +kernel
  rw [Bool.and_eq_true, List.any_eq_true, List.all_eq_true] at hchecks
  obtain ⟨⟨u, hu, huser⟩, hmails⟩ := hchecks
  simp only [Bool.and_eq_true, decide_eq_true_eq] at huser
  obtain ⟨l, q, c, p, m, e, hsteps, hsent, hrecipient, -⟩ :=
    h _ _ u (exampleMove_run "İ@x.fr") hu huser.2
  have hq := hmails q (by rw [hsteps]; simp)
  have hother := List.all_eq_true.mp hq _ hsent
  exact of_decide_eq_true hother (congrArg some (hrecipient.trans huser.1))

end Example

end Bauth
