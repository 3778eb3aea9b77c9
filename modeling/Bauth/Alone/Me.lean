import Bauth.Alone.Login

/-!
# The routes of an account, run alone

What the routes behind an access token and the confirmation of an email change answer and leave in
the database, case by case, when nothing else runs.
-/

namespace Bauth

open Transaction Transaction.Program

/-! ### Rows and updates -/

def newConfirmation (app : App) (process : ℕ) (user : CurrentUser)
    (action : Me.ConfirmationAction) (utc now : Time) (i n : ℕ) : Confirmation where
  id := app.uuid ⟨process, i⟩
  userId := user.id
  sessionId := user.sessionId
  action := action.asStr
  email := user.email
  codeHash := app.codeHash app.confirmationKey user.sessionId ⟨process, n⟩
  codeFailures := 0
  expiresAt := utc + codeTtl
  consumedAt := none
  createdAt := now

def newEmailChange (app : App) (process : ℕ) (user : CurrentUser) (newEmail : String)
    (utc now : Time) (i j : ℕ) : EmailChange where
  id := app.uuid ⟨process, i⟩
  userId := user.id
  fromEmail := user.email
  toEmail := app.unicode.normalize newEmail
  tokenHash := (app.generateToken ⟨process, j⟩).hash
  expiresAt := utc + Me.emailChangeTtl
  consumedAt := none
  createdAt := now

namespace Database

variable (d : Database) (now : Time)

/-- `sessions::revoke_for_user`. -/
def revokeForUser (id userId : Uuid) : Database :=
  { d with
    sessions := updateWhere (fun s => s.id = id && s.userId = userId && s.revokedAt.isNone)
      (Session.revoke now) d.sessions }

/-- `confirmations::consume_by_id`. -/
def consumeConfirmation (id : Uuid) : Database :=
  { d with
    confirmations := updateWhere (fun c => c.id = id) (fun c => { c with consumedAt := some now })
      d.confirmations }

/-- `confirmations::record_code_failure`. -/
def failConfirmation (id : Uuid) : Database :=
  { d with
    confirmations := updateWhere (fun c => c.id = id)
      (fun c => { c with
        codeFailures := c.codeFailures + 1
        consumedAt := if maxFailuresPerCode ≤ c.codeFailures + 1 then some now else none })
      d.confirmations }

/-- `email_changes::consume`. -/
def consumeChange (tokenHash : Bytes) : Database :=
  { d with
    emailChanges := updateWhere (fun c => c.tokenHash = tokenHash && c.usable now)
      (fun c => { c with consumedAt := some now }) d.emailChanges }

/-- `users::change_email`. -/
def moveAddress (id : Uuid) (fromEmail toEmail : String) : Database :=
  { d with
    users := updateWhere (fun u => u.id = id && u.email = fromEmail)
      (fun u => { u with email := toEmail, emailVerifiedAt := some now, updatedAt := now })
      d.users }

end Database

/-! ### `current_user` -/

/-- Whom a request acts for: an enabled account with a live session. -/
structure Authenticated (app : App) (env : Env sig) (authorization : Option String)
    (d : Database) (user : CurrentUser) : Prop where
  claims : ∃ claims,
    authenticate app (env.reply .signingKeys) authorization env.utc = some claims ∧
      user.id = claims.sub ∧ user.sessionId = claims.sid ∧ user.clientId = claims.clientId
  session : ∃ s ∈ d.sessions, s.id = user.sessionId ∧ s.userId = user.id ∧ s.revokedAt = none ∧
    env.now < s.expiresAt
  account : ∃ u ∈ d.users, u.id = user.id ∧ u.email = user.email ∧ u.disabledAt = none

section Pieces

variable {app : App} {env : Env sig} {process : ℕ} {d v : Database} {events : List Event}

/-- A request acts for one user. -/
lemma Authenticated.unique {authorization : Option String} {user user' : CurrentUser}
    (h : Authenticated app env authorization d user)
    (h' : Authenticated app env authorization d user') (hids : d.UniqueIds) : user = user' := by
  obtain ⟨claims, hclaims, hid, hsession, hclient⟩ := h.claims
  obtain ⟨claims', hclaims', hid', hsession', hclient'⟩ := h'.claims
  obtain rfl := Option.some.inj (hclaims.symm.trans hclaims')
  obtain ⟨u, hu, huid, hemail, -⟩ := h.account
  obtain ⟨u', hu', huid', hemail', -⟩ := h'.account
  have hsame : u = u' := by
    refine List.inj_on_of_nodup_map hids.users hu hu' ?_
    rw [huid, huid', hid, hid']
  obtain ⟨id, email, sessionId, clientId⟩ := user
  obtain ⟨id', email', sessionId', clientId'⟩ := user'
  simp_all

lemma wp_currentUser {authorization : Option String}
    {Q : Except ApiError CurrentUser → Point sig → Prop}
    (herr : Q (.error .unauthorized) ⟨d, none, events⟩)
    (hok : ∀ user, Authenticated app env authorization d user → Q (.ok user) ⟨d, none, events⟩) :
    Handler.wp env process (currentUser app authorization) ⟨d, none, events⟩ Q := by
  simp only [currentUser, wp_bind, wp_perform, throw_bind]
  refine (wp_inquire (S := sig) .signingKeys).mpr ?_
  simp only [wp_clock]
  cases hclaims : authenticate app (env.reply .signingKeys) authorization env.utc with
  | none => exact herr
  | some claims =>
    simp only [wp_bind, wp_run, Sessions.findAuthenticated, wp_select, Point.view,
      Option.getD_none, Option.bind_eq_bind]
    cases hs : d.sessions.find? fun s =>
        decide (s.id = claims.sid) && s.revokedAt.isNone && decide (env.now < s.expiresAt) with
    | none => exact herr
    | some s =>
      simp only [Option.bind_some]
      cases hu : d.users.find? fun u => decide (u.id = s.userId) && u.disabledAt.isNone with
      | none => exact herr
      | some u =>
        simp only [Option.bind_some, Option.pure_def, wp_ite, wp_throw, wp_pure]
        refine ⟨fun _ => herr, fun hsub => hok _ ?_⟩
        have hs' := List.find?_some hs
        have hu' := List.find?_some hu
        simp only [Bool.and_eq_true, decide_eq_true_eq, Option.isNone_iff_eq_none] at hs' hu'
        exact ⟨⟨claims, hclaims, not_not.mp hsub, rfl, rfl⟩,
          ⟨s, List.mem_of_find?_eq_some hs, hs'.1.1, rfl, hs'.1.2, hs'.2⟩,
          ⟨u, List.mem_of_find?_eq_some hu, hu'.1, rfl, hu'.2⟩⟩

/-! ### Reading -/

theorem get_reads (authorization : Option String) :
    Handler.wp env process (Me.get app authorization) ⟨d, none, events⟩
      fun _ c => c.db = d ∧ c.events = events := by
  simp only [Me.get, wp_bind]
  refine wp_currentUser ⟨rfl, rfl⟩ fun user _ => ?_
  simp only [wp_run, Users.findById, wp_select, Point.view, Option.getD_none]
  cases d.users.find? fun u => decide (u.id = user.id) <;> exact ⟨rfl, rfl⟩

theorem listSessions_reads (authorization : Option String) :
    Handler.wp env process (Me.listSessions app authorization) ⟨d, none, events⟩
      fun _ c => c.db = d ∧ c.events = events := by
  simp only [Me.listSessions, wp_bind]
  refine wp_currentUser ⟨rfl, rfl⟩ fun user _ => ?_
  simp only [wp_run, Sessions.listActiveForUser, wp_select, wp_pure, and_self]

/-! ### `DELETE /me/sessions/{session_id}` -/

/-- What it answers and leaves. -/
inductive SessionEnded (app : App) (env : Env sig) (authorization : Option String)
    (sessionId : Uuid) (d : Database) : Except ApiError Unit → Database → Prop
  | refused (e : ApiError) : SessionEnded app env authorization sessionId d (.error e) d
  | revoked {user : CurrentUser} (huser : Authenticated app env authorization d user) :
      SessionEnded app env authorization sessionId d (.ok ())
        (d.revokeForUser env.now sessionId user.id)

theorem revokeSession_ended (hids : d.UniqueIds) (authorization : Option String)
    (sessionId : Uuid) :
    Handler.wp env process (Me.revokeSession app authorization sessionId) ⟨d, none, events⟩
      fun a c => SessionEnded app env authorization sessionId d a c.db ∧ c.events = events := by
  simp only [Me.revokeSession, wp_bind]
  refine wp_currentUser ⟨.refused _, rfl⟩ fun user huser => ?_
  simp only [wp_perform, Sessions.revokeForUser, Program.wp_bind, Sessions.revokeWhere]
  rw [wp_update hids.sessions]
  simp only [Program.pure_eq, wp_ret, Bool.not_eq_true', decide_eq_false_iff_not, wp_ite, wp_throw,
    wp_pure, List.length_map]
  refine ⟨fun hnone => ⟨?_, rfl⟩, fun _ => ⟨.revoked huser, rfl⟩⟩
  have hone := length_filter_le_one (p := fun s => decide (s.id = sessionId) &&
    decide (s.userId = user.id) && s.revokedAt.isNone) (k := sessionId) hids.sessions
    (by simp +contextual)
  have hempty := List.length_eq_zero_iff.mp (Nat.le_zero.mp (Nat.lt_one_iff.mp
    (lt_of_le_of_ne hone hnone)).le)
  have hunchanged : d.revokeForUser env.now sessionId user.id = d := by
    simp only [Database.revokeForUser]
    rw [updateWhere_of_forall_not fun s hs =>
      Bool.eq_false_iff.mpr (List.filter_eq_nil_iff.mp hempty s hs)]
  change SessionEnded app env authorization sessionId d _ (d.revokeForUser env.now sessionId user.id)
  rw [hunchanged]
  exact .refused _

/-! ### `POST /me/confirmation` -/

/-- What it answers, leaves and mails. -/
inductive CodeMailed (app : App) (env : Env sig) (process : ℕ) (authorization : Option String)
    (action : Me.ConfirmationAction) (d : Database) :
    Except ApiError Unit → Database → List Event → Prop
  | refused (e : ApiError) : CodeMailed app env process authorization action d (.error e) d []
  | mailed {user : CurrentUser} (huser : Authenticated app env authorization d user) (i n : ℕ) :
      CodeMailed app env process authorization action d (.ok ())
        { d with
          confirmations := d.confirmations ++
            [newConfirmation app process user action env.utc env.now i n] }
        [.sent (.confirmationCode user.email action.describe (app.plainCode ⟨process, n⟩))]

theorem requestConfirmation_mails (ip : String) (authorization : Option String)
    (action : Me.ConfirmationAction) :
    Handler.wp env process (Me.requestConfirmation app ip authorization action) ⟨d, none, events⟩
      fun a c => ∃ sent, CodeMailed app env process authorization action d a c.db sent ∧
        c.events = events ++ sent := by
  have hrefused : ∀ e : ApiError, ∃ sent,
      CodeMailed app env process authorization action d (.error e) d sent ∧
        events = events ++ sent := fun e => ⟨[], .refused e, by simp⟩
  simp only [Me.requestConfirmation, wp_bind]
  refine wp_currentUser (hrefused _) fun user huser => ?_
  refine wp_checkLimit_of (wp_checkLimit_of ?_ fun _ => hrefused _) fun _ => hrefused _
  simp only [wp_perform, wp_fresh, wp_clock, wp_runChecked, wp_query, Point.view, Option.getD_none]
  intro n i
  have hrun : (Confirmations.create app user.id user.sessionId action.asStr user.email
      (app.codeHash app.confirmationKey user.sessionId ⟨process, n⟩) (env.utc + codeTtl)).run
      env.now ⟨process, i⟩ d = (fun d => { d with
        confirmations := d.confirmations ++
          [newConfirmation app process user action env.utc env.now i n] }, .ok ()) := by
    obtain ⟨u, hu, huid, -⟩ := huser.account
    obtain ⟨s, hs, hsid, -⟩ := huser.session
    refine if_pos ?_
    rw [Bool.and_eq_true, List.any_eq_true, List.any_eq_true]
    exact ⟨⟨u, hu, by simpa using huid⟩, ⟨s, hs, by simpa using hsid⟩⟩
  rw [hrun]
  simp only [Except.mapError, wp_sendInBackground, Point.write]
  exact ⟨_, .mailed huser i n, rfl⟩

/-- What it answers and leaves. -/
inductive ConfirmationRequested (app : App) (env : Env sig) (process : ℕ)
    (authorization : Option String) (action : Me.ConfirmationAction) (d : Database) :
    Except ApiError Unit → Database → Prop
  | refused (e : ApiError) :
      ConfirmationRequested app env process authorization action d (.error e) d
  | requested {user : CurrentUser} (huser : Authenticated app env authorization d user) (i n : ℕ) :
      ConfirmationRequested app env process authorization action d (.ok ())
        { d with
          confirmations := d.confirmations ++
            [newConfirmation app process user action env.utc env.now i n] }

theorem requestConfirmation_requested (ip : String) (authorization : Option String)
    (action : Me.ConfirmationAction) :
    Handler.wp env process (Me.requestConfirmation app ip authorization action) ⟨d, none, events⟩
      fun a c => ConfirmationRequested app env process authorization action d a c.db := by
  refine (requestConfirmation_mails ip authorization action).mono fun a c h => ?_
  obtain ⟨sent, h, -⟩ := h
  generalize c.db = d' at h
  cases h with
  | refused e => exact .refused e
  | mailed huser i n => exact .requested huser i n

/-! ### Checking a code -/

/-- The confirmation a code is checked against. -/
structure Database.Pending (d : Database) (user : CurrentUser) (action : Me.ConfirmationAction)
    (now : Time) (c : Confirmation) : Prop where
  newest : d.newestConfirmation user.sessionId action.asStr = some c
  usable : c.usable now = true
  failures : c.codeFailures < maxFailuresPerCode
  budget : d.confirmationFailures user.id (now - days 1) < maxFailuresPerDay
  address : c.email = user.email

/-- What checking a code answers and leaves. -/
inductive CodeChecked (app : App) (env : Env sig) (user : CurrentUser)
    (action : Me.ConfirmationAction) (code : String) (d : Database) :
    Except ApiError Unit → Database → Prop
  | refused (e : ApiError) (h : e = .invalidCode → ∀ c, d.Pending user action env.now c →
        app.verifyCode app.confirmationKey user.sessionId code c.codeHash = true) :
      CodeChecked app env user action code d (.error e) d
  | wrong {c : Confirmation} (hc : d.Pending user action env.now c)
      (hwrong : app.verifyCode app.confirmationKey user.sessionId code c.codeHash = false) :
      CodeChecked app env user action code d (.error .invalidCode)
        (d.failConfirmation env.now c.id)
  | right {c : Confirmation} (hc : d.Pending user action env.now c)
      (hright : app.verifyCode app.confirmationKey user.sessionId code c.codeHash = true) :
      CodeChecked app env user action code d (.ok ()) (d.consumeConfirmation env.now c.id)

/-- A code is presented in the session it was asked from, for the action it was asked for. -/
structure Consent (app : App) (env : Env sig) (authorization : Option String)
    (action : Me.ConfirmationAction) (code : String) (d : Database) (user : CurrentUser)
    (c : Confirmation) : Prop where
  session : Authenticated app env authorization d user
  pending : d.Pending user action env.now c
  matched : app.verifyCode app.confirmationKey user.sessionId code c.codeHash = true

lemma mem_of_newestConfirmation {sessionId : Uuid} {action : String} {c : Confirmation}
    (h : d.newestConfirmation sessionId action = some c) :
    c ∈ d.confirmations ∧ c.sessionId = sessionId ∧ c.action = action := by
  simpa using List.mem_filter.mp (mem_of_newest h)

lemma wp_usersLock (id : Uuid) {Q : Unit → Point sig → Prop} :
    Program.wp env process (query (Users.lock id)) ⟨d, some v, events⟩ Q ↔
      Q () ⟨d, some v, events⟩ := by
  simp only [wp_query, Users.lock, Point.write, forall_const]

lemma wp_findConfirmation {user : CurrentUser} {action : Me.ConfirmationAction}
    {Q : Option Confirmations.CodeCandidate → Point sig → Prop}
    (hnone : (∀ c, ¬v.Pending user action env.now c) → Q none ⟨d, some v, events⟩)
    (hsome : ∀ c, v.newestConfirmation user.sessionId action.asStr = some c →
      (c.email = user.email → v.Pending user action env.now c) →
      Q (some { id := c.id, email := c.email, codeHash := c.codeHash }) ⟨d, some v, events⟩) :
    Program.wp env process
      (Confirmations.findCodeCandidate user.id user.sessionId action.asStr maxFailuresPerCode
        maxFailuresPerDay) ⟨d, some v, events⟩ Q := by
  simp only [Confirmations.findCodeCandidate, Program.wp_bind]
  rw [wp_usersLock]
  refine (wp_select _ _).mpr ?_
  -- the view is `v`, left folded so that the conditions keep their decidability
  cases hc : Database.newestConfirmation (Point.view (S := sig) ⟨d, some v, events⟩) user.sessionId
      action.asStr with
  | none => exact hnone fun c h => by cases hc.symm.trans h.newest
  | some c =>
    dsimp only
    split_ifs with h
    · simp only [Bool.and_eq_true, decide_eq_true_eq] at h
      exact hsome c hc fun haddress => ⟨hc, h.1.1, h.1.2, h.2, haddress⟩
    · refine hnone fun c' hc' => h ?_
      obtain rfl := Option.some.inj (hc.symm.trans hc'.newest)
      simp only [Bool.and_eq_true, decide_eq_true_eq]
      exact ⟨⟨hc'.usable, hc'.failures⟩, hc'.budget⟩

lemma wp_checkCode (hids : d.UniqueIds) (ip : String) (user : CurrentUser)
    (action : Me.ConfirmationAction) (code : String) {Q : Except ApiError Unit → Point sig → Prop}
    (h : ∀ a d' tx events', CodeChecked app env user action code d a d' → (a = .ok () → tx = none) →
      (∀ e, .sent e ∈ events' → .sent e ∈ events) → Q a ⟨d', tx, events'⟩) :
    Handler.wp env process (Me.checkCode app ip user action code) ⟨d, none, events⟩ Q := by
  have hrefused : ∀ e tx, (e = .invalidCode → ∀ c, d.Pending user action env.now c →
      app.verifyCode app.confirmationKey user.sessionId code c.codeHash = true) →
      Q (.error e) ⟨d, tx, events⟩ := fun e tx he =>
    h _ _ _ _ (.refused e he) (fun ha => nomatch ha) fun _ => id
  simp only [Me.checkCode, wp_bind]
  refine wp_checkLimit_of ?_ fun _ => hrefused _ _ (by simp)
  rw [wp_checkFormat]
  refine ⟨fun _ => ?_, fun _ => hrefused _ _ (by simp)⟩
  simp only [wp_perform, wp_start]
  refine wp_findConfirmation (fun hnone => hrefused _ _ fun _ c hc => absurd hc (hnone c))
    fun c hnewest hpending => ?_
  have hmem := (mem_of_newestConfirmation hnewest).1
  simp only [wp_ite, wp_throw, wp_bind, wp_verifyCode, wp_runChecked, wp_run, throw_bind]
  refine ⟨fun hmoved => hrefused _ _ fun _ c' hc' => ?_, fun haddress => ?_⟩
  · obtain rfl := Option.some.inj (hnewest.symm.trans hc'.newest)
    exact absurd hc'.address hmoved
  have hc := hpending (not_not.mp haddress)
  refine ⟨fun hwrong => ?_, fun hright => ?_⟩
  · rw [Confirmations.recordCodeFailure, wp_update hids.confirmations]
    have hhit : (d.confirmations.filter fun c' => decide (c'.id = c.id)).head? = some c :=
      head?_filter_eq hids.confirmations hmem (by simp) fun c' hc' => by simpa using hc'
    simp only [Table.confirmations, Point.view, Option.getD_some, hhit, Except.mapError,
      Point.write, wp_perform, wp_finish]
    exact h _ _ _ _ (.wrong hc (by simpa using hwrong)) (fun _ => rfl) fun e he => by simpa using he
  · rw [Confirmations.consumeById, wp_update hids.confirmations]
    simp only [wp_perform, wp_finish]
    exact h _ _ _ _ (.right hc (by simpa using hright)) (fun _ => rfl) fun e he => by simpa using he

/-! ### `POST /me/email` -/

/-- What it answers, leaves and mails. -/
inductive ChangeRequested (app : App) (env : Env sig) (process : ℕ) (authorization : Option String)
    (code newEmail : String) (d : Database) :
    Except ApiError Unit → Database → Option Email → Prop
  | refused (e : ApiError) (h : e = .invalidCode → ∀ user c, Authenticated app env authorization d user →
        d.Pending user .changeEmail env.now c →
          app.verifyCode app.confirmationKey user.sessionId code c.codeHash = true) :
      ChangeRequested app env process authorization code newEmail d (.error e) d none
  | wrong {user : CurrentUser} {c : Confirmation}
      (huser : Authenticated app env authorization d user)
      (hc : d.Pending user .changeEmail env.now c)
      (hwrong : app.verifyCode app.confirmationKey user.sessionId code c.codeHash = false) :
      ChangeRequested app env process authorization code newEmail d (.error .invalidCode)
        (d.failConfirmation env.now c.id) none
  | spent {user : CurrentUser} {c : Confirmation} (hc : d.Pending user .changeEmail env.now c)
      (a : Except ApiError Unit) (ha : a = .ok () ∨ a = .error .internal) :
      ChangeRequested app env process authorization code newEmail d a
        (d.consumeConfirmation env.now c.id) none
  | mailed {user : CurrentUser} {c : Confirmation} {page : String}
      (huser : Authenticated app env authorization d user) (hvalid : isValidEmail newEmail = true)
      (hc : d.Pending user .changeEmail env.now c) (i j : ℕ)
      (hnew : ∀ e ∈ d.emailChanges, e.tokenHash ≠ (app.generateToken ⟨process, j⟩).hash) :
      ChangeRequested app env process authorization code newEmail d (.ok ())
        { d.consumeConfirmation env.now c.id with
          emailChanges := d.emailChanges ++
            [newEmailChange app process user newEmail env.utc env.now i j] }
        (some (.confirmEmailChange (app.unicode.emailKey newEmail)
          (MagicLink.linkWith page (app.generateToken ⟨process, j⟩).plain)))

lemma wp_emailChangesCreate {user : CurrentUser} {authorization : Option String}
    (huser : Authenticated app env authorization d user) {newEmail : String} {tokenHash : Bytes}
    {expiresAt : Time} {id : Uuid} {Q : Except DbError Unit → Point sig → Prop}
    (hfail : Q (.error .uniqueViolation) ⟨d.consumeConfirmation env.now id, none, events⟩)
    (hok : ∀ i, (∀ c ∈ d.emailChanges, c.tokenHash ≠ tokenHash) →
      Q (.ok ()) ⟨{ d.consumeConfirmation env.now id with
        emailChanges := d.emailChanges ++ [{
          id := app.uuid ⟨process, i⟩, userId := user.id, fromEmail := user.email
          toEmail := app.unicode.normalize newEmail, tokenHash, expiresAt, consumedAt := none
          createdAt := env.now }] }, none, events⟩) :
    Program.wp env process
      (query (EmailChanges.create app user.id user.email newEmail tokenHash expiresAt))
      ⟨d.consumeConfirmation env.now id, none, events⟩ Q := by
  obtain ⟨u, hu, huid, -⟩ := huser.account
  have hany : (d.users.any fun u => u.id = user.id) = true :=
    List.any_eq_true.mpr ⟨u, hu, by simpa using huid⟩
  rw [wp_query]
  intro i
  by_cases hold : (d.emailChanges.any fun c => c.tokenHash = tokenHash) = true
  · have hrun : (EmailChanges.create app user.id user.email newEmail tokenHash expiresAt).run
        env.now ⟨process, i⟩ (d.consumeConfirmation env.now id) =
          (fun d => d, .error .uniqueViolation) := if_pos hold
    rw [show Point.view _ = d.consumeConfirmation env.now id from rfl, hrun]
    exact hfail
  · have hrun : (EmailChanges.create app user.id user.email newEmail tokenHash expiresAt).run
        env.now ⟨process, i⟩ (d.consumeConfirmation env.now id) = (fun d => { d with
          emailChanges := d.emailChanges ++ [{
            id := app.uuid ⟨process, i⟩, userId := user.id, fromEmail := user.email
            toEmail := app.unicode.normalize newEmail, tokenHash, expiresAt, consumedAt := none
            createdAt := env.now }] }, .ok ()) := (if_neg hold).trans (if_pos hany)
    rw [show Point.view _ = d.consumeConfirmation env.now id from rfl, hrun]
    exact hok i (by simpa using hold)

/-- What it answers, leaves and mails. -/
inductive MoveRequested (app : App) (env : Env sig) (process : ℕ) (authorization : Option String)
    (code newEmail : String) (d : Database) :
    Except ApiError Unit → Database → List Event → Prop
  | refused (e : ApiError) (h : e = .invalidCode → ∀ user c, Authenticated app env authorization d user →
        d.Pending user .changeEmail env.now c →
          app.verifyCode app.confirmationKey user.sessionId code c.codeHash = true)
      (events : List Event) :
      MoveRequested app env process authorization code newEmail d (.error e) d events
  | wrong {user : CurrentUser} {c : Confirmation}
      (huser : Authenticated app env authorization d user)
      (hc : d.Pending user .changeEmail env.now c)
      (hwrong : app.verifyCode app.confirmationKey user.sessionId code c.codeHash = false)
      (events : List Event) :
      MoveRequested app env process authorization code newEmail d (.error .invalidCode)
        (d.failConfirmation env.now c.id) events
  | spent {user : CurrentUser} {c : Confirmation}
      (h : Consent app env authorization .changeEmail code d user c) (a : Except ApiError Unit)
      (ha : a = .ok () ∨ a = .error .internal) (events : List Event) :
      MoveRequested app env process authorization code newEmail d a
        (d.consumeConfirmation env.now c.id) events
  | mailed {user : CurrentUser} {c : Confirmation} {client : Client} {page : String}
      (h : Consent app env authorization .changeEmail code d user c)
      (hvalid : isValidEmail newEmail = true) (hclient : app.client user.clientId = some client)
      (hpage : EmailChange.page client = .ok page) (i j : ℕ)
      (hnew : ∀ e ∈ d.emailChanges, e.tokenHash ≠ (app.generateToken ⟨process, j⟩).hash)
      (events : List Event)
      (hmail : .sent (.confirmEmailChange (app.unicode.emailKey newEmail)
        (MagicLink.linkWith page (app.generateToken ⟨process, j⟩).plain)) ∈ events) :
      MoveRequested app env process authorization code newEmail d (.ok ())
        { d.consumeConfirmation env.now c.id with
          emailChanges := d.emailChanges ++
            [newEmailChange app process user newEmail env.utc env.now i j] } events

theorem changeEmail_consented (hids : d.UniqueIds) (ip : String) (authorization : Option String)
    (code newEmail : String) :
    Handler.wp env process (Me.changeEmail app ip authorization code newEmail) ⟨d, none, events⟩
      fun a c => MoveRequested app env process authorization code newEmail d a c.db c.events := by
  simp only [Me.changeEmail, wp_bind]
  refine wp_currentUser (.refused _ (by simp) _) fun user huser => ?_
  simp only [wp_ite, wp_throw, throw_bind, Bool.not_eq_true', Bool.not_eq_false]
  refine ⟨fun _ => .refused _ (by simp) _,
    fun hvalid => ⟨fun _ => .refused _ (by simp) _, fun _ => ?_⟩⟩
  cases hclient : app.client user.clientId with
  | none => exact .refused _ (by simp) _
  | some client =>
    simp only [wp_bind, wp_mk_pure]
    cases hpage : EmailChange.page client with
    | error e =>
      have he : e ≠ .invalidCode := by
        unfold EmailChange.page at hpage
        split at hpage <;> cases hpage
        simp
      exact .refused _ (fun h => absurd h he) _
    | ok page =>
      refine wp_checkLimit_of ?_ fun _ => .refused _ (by simp) _
      refine wp_checkCode hids ip user .changeEmail code fun a d' tx events' hcode htx _ => ?_
      cases hcode with
      | refused e h =>
        refine .refused _ (fun he user' c hu hc => ?_) _
        obtain rfl := huser.unique hu hids
        exact h he c hc
      | wrong hc hwrong => exact .wrong huser hc hwrong _
      | right hc hright =>
        obtain rfl := htx rfl
        simp only [wp_run, Users.findByEmail, wp_select, wp_ite, wp_bind, wp_perform, wp_fresh,
          wp_clock, wp_runChecked, wp_pure]
        have hconsent : Consent app env authorization .changeEmail code d user _ :=
          ⟨huser, hc, hright⟩
        refine ⟨fun _ j => ?_, fun _ => .spent hconsent _ (.inl rfl) _⟩
        refine wp_emailChangesCreate huser (.spent hconsent _ (.inr rfl) _) fun i hnew => ?_
        simp only [wp_sendInBackground, Except.mapError]
        exact .mailed hconsent hvalid hclient hpage i j hnew _ (by simp)

theorem changeEmail_requested (hids : d.UniqueIds) (ip : String) (authorization : Option String)
    (code newEmail : String) :
    Handler.wp env process (Me.changeEmail app ip authorization code newEmail) ⟨d, none, events⟩
      fun a c => ∃ mail, ChangeRequested app env process authorization code newEmail d a c.db mail ∧
        ∀ e ∈ mail, .sent e ∈ c.events := by
  refine (changeEmail_consented hids ip authorization code newEmail).mono fun a c h => ?_
  generalize c.db = d', c.events = events' at h
  cases h with
  | refused e h => exact ⟨none, .refused e h, fun _ he => nomatch he⟩
  | wrong huser hc hwrong => exact ⟨none, .wrong huser hc hwrong, fun _ he => nomatch he⟩
  | spent h a ha => exact ⟨none, .spent h.pending a ha, fun _ he => nomatch he⟩
  | @mailed user c client page h hvalid hclient hpage i j hnew _ hmail =>
    refine ⟨_, @ChangeRequested.mailed app env process authorization code newEmail d user c page
      h.session hvalid h.pending i j hnew, fun e he => ?_⟩
    obtain rfl := Option.mem_some_iff.mp he
    exact hmail

/-! ### `DELETE /me` -/

/-- What it answers and leaves. -/
inductive AccountDeleted (app : App) (env : Env sig) (authorization : Option String)
    (code : String) (d : Database) : Except ApiError Unit → Database → Prop
  | refused (e : ApiError) (h : e = .invalidCode → ∀ user c, Authenticated app env authorization d user →
        d.Pending user .deleteAccount env.now c →
          app.verifyCode app.confirmationKey user.sessionId code c.codeHash = true) :
      AccountDeleted app env authorization code d (.error e) d
  | wrong {user : CurrentUser} {c : Confirmation}
      (huser : Authenticated app env authorization d user)
      (hc : d.Pending user .deleteAccount env.now c)
      (hwrong : app.verifyCode app.confirmationKey user.sessionId code c.codeHash = false) :
      AccountDeleted app env authorization code d (.error .invalidCode)
        (d.failConfirmation env.now c.id)
  | deleted {user : CurrentUser} {c : Confirmation}
      (huser : Authenticated app env authorization d user)
      (hc : d.Pending user .deleteAccount env.now c) :
      AccountDeleted app env authorization code d (.ok ())
        ((d.consumeConfirmation env.now c.id).deleteUsers fun u => u.id = user.id)

/-- What it answers, leaves and mails. -/
inductive AccountClosed (app : App) (env : Env sig) (authorization : Option String)
    (code : String) (d : Database) : Except ApiError Unit → Database → List Event → Prop
  | refused (e : ApiError) (h : e = .invalidCode → ∀ user c, Authenticated app env authorization d user →
        d.Pending user .deleteAccount env.now c →
          app.verifyCode app.confirmationKey user.sessionId code c.codeHash = true)
      (events : List Event) :
      AccountClosed app env authorization code d (.error e) d events
  | wrong {user : CurrentUser} {c : Confirmation}
      (huser : Authenticated app env authorization d user)
      (hc : d.Pending user .deleteAccount env.now c)
      (hwrong : app.verifyCode app.confirmationKey user.sessionId code c.codeHash = false)
      (events : List Event) : AccountClosed app env authorization code d (.error .invalidCode)
        (d.failConfirmation env.now c.id) events
  | deleted {user : CurrentUser} {c : Confirmation}
      (h : Consent app env authorization .deleteAccount code d user c) (events : List Event)
      (hmail : .sent (.accountDeleted user.email) ∈ events) :
      AccountClosed app env authorization code d (.ok ())
        ((d.consumeConfirmation env.now c.id).deleteUsers fun u => u.id = user.id) events

theorem deleteAccount_consented (hids : d.UniqueIds) (ip : String) (authorization : Option String)
    (code : String) :
    Handler.wp env process (Me.deleteAccount app ip authorization code) ⟨d, none, events⟩
      fun a c => AccountClosed app env authorization code d a c.db c.events := by
  simp only [Me.deleteAccount, wp_bind]
  refine wp_currentUser (.refused _ (by simp) _) fun user huser => ?_
  refine wp_checkCode hids ip user .deleteAccount code fun a d' tx events' hcode htx _ => ?_
  cases hcode with
  | refused e h =>
    refine .refused _ (fun he user' c hu hc => ?_) _
    obtain rfl := huser.unique hu hids
    exact h he c hc
  | wrong hc hwrong => exact .wrong huser hc hwrong _
  | right hc hright =>
    obtain rfl := htx rfl
    simp only [wp_run, wp_query, wp_sendInBackground, Users.delete, Point.write]
    exact fun _ => .deleted ⟨huser, hc, hright⟩ _ (by simp)

theorem deleteAccount_deleted (hids : d.UniqueIds) (ip : String) (authorization : Option String)
    (code : String) :
    Handler.wp env process (Me.deleteAccount app ip authorization code) ⟨d, none, events⟩
      fun a c => AccountDeleted app env authorization code d a c.db := by
  refine (deleteAccount_consented hids ip authorization code).mono fun a c h => ?_
  generalize c.db = d', c.events = events' at h
  cases h with
  | refused e h => exact .refused e h
  | wrong huser hc hwrong => exact .wrong huser hc hwrong
  | deleted h => exact .deleted h.session h.pending

/-! ### `POST /email-change/confirm` -/

/-- What it answers and leaves. -/
inductive ChangeConfirmed (app : App) (env : Env sig) (token : String) (d : Database) :
    Except ApiError Unit → Database → Prop
  | refused (e : ApiError) : ChangeConfirmed app env token d (.error e) d
  | moved {c : EmailChange} (hc : c ∈ d.emailChanges) (htoken : c.tokenHash = app.hash token)
      (husable : c.usable env.now = true)
      (huser : ∃ u ∈ d.users, u.id = c.userId ∧ u.email = c.fromEmail ∧ u.disabledAt = none)
      (hfree : ∀ u ∈ d.users, u.email = c.toEmail → u.id = c.userId) :
      ChangeConfirmed app env token d (.ok ())
        ((d.consumeChange env.now (app.hash token)).moveAddress env.now c.userId c.fromEmail
          c.toEmail)

lemma wp_usersChangeEmail {id : Uuid} {fromEmail toEmail : String}
    (hids : (v.users.map User.id).Nodup) {Q : Except DbError Bool → Point sig → Prop}
    (hstale : Q (.ok false) ⟨d, some v, events⟩)
    (htaken : Q (.error .uniqueViolation) ⟨d, some v, events⟩)
    (hmoved : (∃ u ∈ v.users, u.id = id ∧ u.email = fromEmail) →
      (∀ u ∈ v.users, u.email = toEmail → u.id = id) →
      Q (.ok true) ⟨d, some (v.moveAddress env.now id fromEmail toEmail), events⟩) :
    Program.wp env process (query (Users.changeEmail id fromEmail toEmail)) ⟨d, some v, events⟩
      Q := by
  rw [wp_query]
  intro i
  rw [show Point.view _ = v from rfl]
  change Q ((Users.changeEmail id fromEmail toEmail).run env.now ⟨process, i⟩ v).2
    ⟨d, some (((Users.changeEmail id fromEmail toEmail).run env.now ⟨process, i⟩ v).1 v), events⟩
  have hone := length_filter_le_one
    (p := fun u => decide (u.id = id) && decide (u.email = fromEmail)) (k := id) hids
    (by simp +contextual)
  by_cases hhit : (v.users.filter fun u =>
      decide (u.id = id) && decide (u.email = fromEmail)) = []
  · have hrun : (Users.changeEmail id fromEmail toEmail).run env.now ⟨process, i⟩ v =
        (Table.users.modify [] fun u =>
          { u with email := toEmail, emailVerifiedAt := some env.now, updatedAt := env.now },
          .ok false) := by
      simp only [Users.changeEmail, hhit]
      rfl
    have hsame : Table.users.modify [] (fun u =>
        { u with email := toEmail, emailVerifiedAt := some env.now, updatedAt := env.now }) v = v := by
      simp only [Table.modify, Table.users]
      rw [updateWhere_of_forall_not fun u hu => by simp]
    rw [hrun]
    dsimp only
    rw [hsame]
    exact hstale
  · have hlength : (v.users.filter fun u =>
        decide (u.id = id) && decide (u.email = fromEmail)).length = 1 :=
      le_antisymm hone (List.length_pos_iff.mpr hhit)
    obtain ⟨u, hu⟩ := List.exists_mem_of_ne_nil _ hhit
    simp only [List.mem_filter, Bool.and_eq_true, decide_eq_true_eq] at hu
    by_cases htake : (v.users.any fun u => decide (u.id ≠ id) && decide (u.email = toEmail)) = true
    · have hrun : (Users.changeEmail id fromEmail toEmail).run env.now ⟨process, i⟩ v =
          (fun d => d, .error .uniqueViolation) := by
        refine if_pos ?_
        rw [Bool.and_eq_true]
        exact ⟨by simpa using hhit, htake⟩
      rw [hrun]
      exact htaken
    · have hrun : (Users.changeEmail id fromEmail toEmail).run env.now ⟨process, i⟩ v =
          (Table.users.modify ((v.users.filter fun u =>
              decide (u.id = id) && decide (u.email = fromEmail)).map User.id) (fun u =>
            { u with email := toEmail, emailVerifiedAt := some env.now, updatedAt := env.now }),
            .ok true) := by
        refine (if_neg ?_).trans ?_
        · rw [Bool.and_eq_true]
          exact fun h => htake h.2
        · rw [hlength]
          rfl
      have hmoved' : Table.users.modify ((v.users.filter fun u =>
            decide (u.id = id) && decide (u.email = fromEmail)).map User.id) (fun u =>
          { u with email := toEmail, emailVerifiedAt := some env.now, updatedAt := env.now }) v =
            v.moveAddress env.now id fromEmail toEmail := by
        simp only [Table.modify, Table.users, Database.moveAddress]
        rw [updateWhere_hit hids]
      rw [hrun]
      dsimp only
      rw [hmoved']
      refine hmoved ⟨u, hu.1, hu.2.1, hu.2.2⟩ fun u' hu' hemail => ?_
      by_contra hne
      exact htake (List.any_eq_true.mpr ⟨u', hu', by simp [hne, hemail]⟩)

/-- What it answers, leaves and mails. -/
inductive AddressMoved (app : App) (env : Env sig) (token : String) (d : Database) :
    Except ApiError Unit → Database → List Event → Prop
  | refused (e : ApiError) (events : List Event) :
      AddressMoved app env token d (.error e) d events
  | moved {c : EmailChange} (hc : c ∈ d.emailChanges) (htoken : c.tokenHash = app.hash token)
      (husable : c.usable env.now = true)
      (huser : ∃ u ∈ d.users, u.id = c.userId ∧ u.email = c.fromEmail ∧ u.disabledAt = none)
      (hfree : ∀ u ∈ d.users, u.email = c.toEmail → u.id = c.userId)
      (events : List Event) (hmail : .sent (.emailChanged c.fromEmail c.toEmail) ∈ events) :
      AddressMoved app env token d (.ok ())
        ((d.consumeChange env.now (app.hash token)).moveAddress env.now c.userId c.fromEmail
          c.toEmail) events

theorem confirmEmailChange_moves (hids : d.UniqueIds) (ip token : String) :
    Handler.wp env process (EmailChange.confirm app ip token) ⟨d, none, events⟩
      fun a c => AddressMoved app env token d a c.db c.events := by
  simp only [EmailChange.confirm, wp_bind]
  refine wp_checkLimit_of ?_ fun _ => .refused _ _
  simp only [wp_perform, wp_start, wp_run]
  rw [EmailChanges.consume, wp_update hids.emailChanges]
  simp only [Point.view, Option.getD_some, Table.emailChanges, Point.write]
  cases hhit : (d.emailChanges.filter fun c =>
      decide (c.tokenHash = app.hash token) && c.usable env.now).head? with
  | none => exact .refused _ _
  | some c =>
    have hmem := List.mem_of_head? hhit
    simp only [List.mem_filter, Bool.and_eq_true, decide_eq_true_eq] at hmem
    obtain ⟨hc, htoken, husable⟩ := hmem
    simp only [Option.map_some, wp_bind, wp_run, Users.findById, wp_select, Point.view,
      Option.getD_some]
    cases hu : d.users.find? fun u => decide (u.id = c.userId) with
    | none => exact .refused _ _
    | some u =>
      simp only [wp_ite, wp_throw, throw_bind]
      refine ⟨fun _ => .refused _ _, fun henabled => ?_⟩
      have hid : u.id = c.userId := by simpa using List.find?_some hu
      simp only [wp_bind, wp_run]
      refine wp_usersChangeEmail (v := d.consumeChange env.now (app.hash token)) hids.users ?_ ?_
        fun hthere hfree => ?_
      · exact .refused _ _
      · exact .refused _ _
      · rw [hid] at hthere hfree ⊢
        obtain ⟨u', hu', hid', hemail⟩ := hthere
        have hsame : u' = u := List.inj_on_of_nodup_map hids.users hu' (List.mem_of_find?_eq_some hu)
          (hid'.trans hid.symm)
        have huser : ∃ u ∈ d.users, u.id = c.userId ∧ u.email = c.fromEmail ∧ u.disabledAt = none :=
          ⟨u', hu', hid', hemail, by simpa [hsame] using henabled⟩
        exact .moved hc htoken husable huser hfree _ (by simp)

theorem confirmEmailChange_confirmed (hids : d.UniqueIds) (ip token : String) :
    Handler.wp env process (EmailChange.confirm app ip token) ⟨d, none, events⟩
      fun a c => ChangeConfirmed app env token d a c.db := by
  refine (confirmEmailChange_moves hids ip token).mono fun a c h => ?_
  generalize c.db = d', c.events = events' at h
  cases h with
  | refused e => exact .refused e
  | moved hc htoken husable huser hfree => exact .moved hc htoken husable huser hfree

end Pieces

end Bauth
