import Bauth.Alone.Refresh

/-!
# Logging in, run alone

What starting a flow, asking for a magic link and using it by its token or its code answer and
leave in the database, case by case, when nothing else runs.
-/

namespace Bauth

open Transaction Transaction.Program

/-! ### Rows and updates -/

section Rows

variable (app : App) (process : ℕ) (now : Time)

def newUser (email : String) (i : ℕ) : User where
  id := app.uuid ⟨process, i⟩
  email := app.unicode.normalize email
  emailVerifiedAt := none
  disabledAt := none
  createdAt := now
  updatedAt := now

def newFlow (input : Login.CreateFlowRequest) (clientId : String) (utc : Time) (i : ℕ) :
    LoginFlow where
  id := app.uuid ⟨process, i⟩
  clientId := clientId
  redirectUri := input.redirectUri
  codeChallenge := input.codeChallenge
  state := input.state
  magicLinkRequests := 0
  expiresAt := utc + Login.flowTtl
  completedAt := none
  createdAt := now

/-- The link of three draws: its identifier, its token and its code. -/
def newLink (flowId : Uuid) (userId : Option Uuid) (email : String) (utc : Time) (i j n : ℕ) :
    MagicLink where
  id := app.uuid ⟨process, i⟩
  flowId := flowId
  userId := userId
  email := app.unicode.normalize email
  tokenHash := (app.generateToken ⟨process, j⟩).hash
  codeHash := app.codeHash app.magicLinkKey flowId ⟨process, n⟩
  codeFailures := 0
  expiresAt := utc + codeTtl
  consumedAt := none
  createdAt := now

def newCode (flowId userId : Uuid) (utc : Time) (i j : ℕ) : AuthorizationCode where
  id := app.uuid ⟨process, i⟩
  codeHash := (app.generateToken ⟨process, j⟩).hash
  flowId := flowId
  userId := userId
  expiresAt := utc + Login.authorizationCodeTtl
  consumedAt := none
  createdAt := now

end Rows

namespace Database

variable (d : Database) (now : Time)

/-- `login_flows::count_magic_link_request`. -/
def countRequest (flowId : Uuid) (linkExpiresAt : Time) : Database :=
  { d with
    loginFlows := updateWhere
      (fun f => f.id = flowId && f.pending now && f.magicLinkRequests < MagicLink.maxEmailsPerFlow)
      (fun f => { f with
        magicLinkRequests := f.magicLinkRequests + 1
        expiresAt := max f.expiresAt linkExpiresAt }) d.loginFlows }

/-- `magic_links::consume`. -/
def consumeLink (tokenHash : Bytes) : Database :=
  { d with
    magicLinks := updateWhere (fun l => l.tokenHash = tokenHash && l.usable now)
      (fun l => { l with consumedAt := some now }) d.magicLinks }

/-- `magic_links::consume_by_id`. -/
def consumeLinkById (id : Uuid) : Database :=
  { d with
    magicLinks := updateWhere (fun l => l.id = id) (fun l => { l with consumedAt := some now })
      d.magicLinks }

/-- `magic_links::record_code_failure`. -/
def failLink (id : Uuid) : Database :=
  { d with
    magicLinks := updateWhere (fun l => l.id = id)
      (fun l => { l with
        codeFailures := l.codeFailures + 1
        consumedAt := if maxFailuresPerCode ≤ l.codeFailures + 1 then some now else none })
      d.magicLinks }

/-- `users::mark_email_verified`. -/
def verifyEmail (id : Uuid) (email : String) : Database :=
  { d with
    users := updateWhere (fun u => u.id = id && u.email = email)
      (fun u => { u with emailVerifiedAt := some (u.emailVerifiedAt.getD now), updatedAt := now })
      d.users }

/-- `login_flows::complete`. -/
def completeFlow (id : Uuid) : Database :=
  { d with
    loginFlows := updateWhere (fun f => f.id = id && f.pending now)
      (fun f => { f with completedAt := some now }) d.loginFlows }

end Database

/-! ### Checks before a transaction -/

section Checks

variable {env : Env sig} {process : ℕ} {c : Point sig}

lemma wp_checkLimit (limiter : Limiter) (key : String)
    {Q : Except ApiError Unit → Point sig → Prop} :
    Handler.wp env process (checkLimit limiter key) c Q ↔
      match env.reply (.limit limiter key) with
      | none => Q (.ok ()) c
      | some retryAfter => Q (.error (.rateLimited retryAfter)) c := by
  simp only [checkLimit, wp_bind, wp_perform]
  refine (wp_inquire (S := sig) (.limit limiter key)).trans ?_
  cases env.reply (.limit limiter key) <;> rfl

/-- A check passes, or refuses the request and nothing happens. -/
lemma wp_checkLimit_of {limiter : Limiter} {key : String}
    {Q : Except ApiError Unit → Point sig → Prop} (hok : Q (.ok ()) c)
    (herr : ∀ retryAfter, Q (.error (.rateLimited retryAfter)) c) :
    Handler.wp env process (checkLimit limiter key) c Q := by
  rw [wp_checkLimit]
  cases env.reply (.limit limiter key) with
  | none => exact hok
  | some retryAfter => exact herr retryAfter

lemma wp_checkFormat (code : String) {Q : Except ApiError Unit → Point sig → Prop} :
    Handler.wp env process (checkFormat code) c Q ↔
      (isWellFormed code = true → Q (.ok ()) c) ∧
        (isWellFormed code = false → Q (.error (.invalidRequest "code must be 6 digits")) c) := by
  simp [checkFormat]

lemma wp_verifyCode (app : App) (purpose : CodePurpose) (row owner : Uuid) (code : String)
    (hash : Bytes) {Q : Except ApiError Bool → Point sig → Prop} :
    Handler.wp env process (verifyCode app purpose row owner code hash) c Q ↔
      Q (.ok (app.verifyCode (match purpose with
          | .magicLink => app.magicLinkKey
          | .confirmation => app.confirmationKey) owner code hash))
        { c with events := c.events ++ [.codeVerified purpose row] } := by
  cases purpose with
  | magicLink => simp only [verifyCode, wp_bind, wp_perform, wp_signal, wp_pure]
  | confirmation => simp only [verifyCode, wp_bind, wp_perform, wp_signal, wp_pure]

lemma wp_sendInBackground (email : Email) {Q : Except ApiError Unit → Point sig → Prop} :
    Handler.wp env process (sendInBackground email) c Q ↔
      Q (.ok ()) { c with events := c.events ++ [.sent email] } := by
  simp only [sendInBackground, wp_perform, wp_signal]

end Checks

/-! ### Starting a flow -/

/-- What `POST /flows/login` answers and leaves. -/
inductive FlowCreated (app : App) (env : Env sig) (process : ℕ)
    (input : Login.CreateFlowRequest) (d : Database) :
    Except ApiError Login.FlowResponse → Database → Prop
  | refused (e : ApiError) : FlowCreated app env process input d (.error e) d
  | created {client : Client} (hclient : app.client input.clientId = some client)
      (hredirect : client.allowsRedirectUri input.redirectUri = true) (i : ℕ) :
      FlowCreated app env process input d
        (.ok { flowId := app.uuid ⟨process, i⟩, expiresAt := env.utc + Login.flowTtl })
        { d with
          loginFlows := d.loginFlows ++ [newFlow app process env.now input client.id env.utc i] }

theorem createFlow_created {app : App} {env : Env sig} {process : ℕ} {d : Database}
    {events : List Event} (input : Login.CreateFlowRequest) :
    Handler.wp env process (Login.createFlow app input) ⟨d, none, events⟩
      fun a c => FlowCreated app env process input d a c.db ∧ c.events = events := by
  simp only [Login.createFlow]
  cases hclient : app.client input.clientId with
  | none => exact ⟨.refused _, rfl⟩
  | some client =>
    simp only [wp_bind, wp_ite, wp_throw, wp_perform, wp_clock, wp_run, wp_query, wp_pure,
      throw_bind, Point.view, Point.write]
    refine ⟨fun _ => ⟨.refused _, trivial⟩, fun hredirect => ?_⟩
    refine ⟨fun _ => ⟨.refused _, trivial⟩, fun _ => ⟨fun _ => ⟨.refused _, trivial⟩, fun _ i => ?_⟩⟩
    refine ⟨.created hclient ?_ i, trivial⟩
    simpa using hredirect

/-! ### Asking for a link -/

/-- Whom a link is sent to: the enabled account with this address, or a sign-up. -/
inductive Addressee (app : App) (client : Client) (email : String) (d : Database) :
    Option Uuid → Prop
  | account {u : User}
      (hu : d.users.find? (fun u => u.email = app.unicode.normalize email) = some u)
      (henabled : u.disabledAt = none) : Addressee app client email d (some u.id)
  | signUp (hfree : d.users.find? (fun u => u.email = app.unicode.normalize email) = none)
      (hsignup : client.allowSignup = true) : Addressee app client email d none

/-- The email that carries a link's token and code. -/
def linkMail (client : Client) (userId : Option Uuid) (address token code : String) : Email :=
  match userId with
  | some _ => .magicLink address client.name (MagicLink.linkWith client.magicLinkUrl token) code
  | none => .magicSignup address client.name (MagicLink.linkWith client.magicLinkUrl token) code

/-- The flow a request is counted on. -/
def Database.countable (d : Database) (flowId : Uuid) (now : Time) (f : LoginFlow) : Prop :=
  f ∈ d.loginFlows ∧ f.id = flowId ∧ f.pending now = true ∧
    f.magicLinkRequests < MagicLink.maxEmailsPerFlow

/-- What `POST /flows/login/{flow_id}/magic-link` answers, leaves and mails. -/
inductive LinkRequested (app : App) (env : Env sig) (process : ℕ) (flowId : Uuid) (email : String)
    (d : Database) : Except ApiError MagicLink.MagicLinkResponse → Database → List Event → Prop
  | refused (e : ApiError) (h : e.status < 500) :
      LinkRequested app env process flowId email d (.error e) d []
  | failed : LinkRequested app env process flowId email d (.error .internal)
      (d.countRequest env.now flowId (env.utc + codeTtl)) []
  | counted {f : LoginFlow} (hf : d.countable flowId env.now f) :
      LinkRequested app env process flowId email d
        (.ok { expiresAt := max f.expiresAt (env.utc + codeTtl) })
        (d.countRequest env.now flowId (env.utc + codeTtl)) []
  | mailed {f : LoginFlow} {client : Client} {userId : Option Uuid}
      (hf : d.countable flowId env.now f) (hclient : app.client f.clientId = some client)
      (huser : Addressee app client email d userId) (i j n : ℕ)
      (hnew : ∀ l ∈ d.magicLinks, l.tokenHash ≠ (app.generateToken ⟨process, j⟩).hash) :
      LinkRequested app env process flowId email d
        (.ok { expiresAt := max f.expiresAt (env.utc + codeTtl) })
        { d.countRequest env.now flowId (env.utc + codeTtl) with
          magicLinks := d.magicLinks ++
            [newLink app process env.now flowId userId email env.utc i j n] }
        [.sent (linkMail client userId (app.unicode.normalize email)
          (app.generateToken ⟨process, j⟩).plain (app.plainCode ⟨process, n⟩))]

/-- The account a link is sent to, if it has one. -/
def MagicLink.Recipient.userId : MagicLink.Recipient → Option Uuid
  | .account userId => some userId
  | .signUp => none

/-- The recipient the handler picks. -/
lemma addressee_of_recipient {app : App} {client : Client} {email : String} {d : Database}
    {recipient : MagicLink.Recipient}
    (h : (match d.users.find? fun u => u.email = app.unicode.normalize email with
      | some user =>
        if user.disabledAt.isNone then some (MagicLink.Recipient.account user.id) else none
      | none => if client.allowSignup then some .signUp else none) = some recipient) :
    Addressee app client email d recipient.userId := by
  cases hu : d.users.find? fun u => u.email = app.unicode.normalize email with
  | none =>
    simp only [hu, Option.ite_none_right_eq_some, Option.some.injEq] at h
    obtain ⟨hsignup, rfl⟩ := h
    exact .signUp hu hsignup
  | some u =>
    simp only [hu, Option.ite_none_right_eq_some, Option.some.injEq] at h
    obtain ⟨henabled, rfl⟩ := h
    exact .account hu (by simpa using henabled)

lemma Addressee.exists_user {app : App} {client : Client} {email : String} {d : Database}
    {userId : Option Uuid} (h : Addressee app client email d userId) :
    ∀ id ∈ userId, ∃ u ∈ d.users, u.id = id := by
  cases h with
  | account hu henabled =>
    rintro id ⟨⟩
    exact ⟨_, List.mem_of_find?_eq_some hu, rfl⟩
  | signUp hfree hsignup => exact fun id hid => nomatch hid

section Request

variable {app : App} {env : Env sig} {process : ℕ} {d v : Database} {events : List Event}

lemma wp_magicLinksCreate {flowId : Uuid} (userId : Option Uuid) {email : String}
    {tokenHash codeHash : Bytes} {expiresAt : Time} {c : Point sig}
    (hflow : ∃ f ∈ c.view.loginFlows, f.id = flowId)
    (huser : ∀ id ∈ userId, ∃ u ∈ c.view.users, u.id = id)
    {Q : Except DbError String → Point sig → Prop}
    (hfail : Q (.error .uniqueViolation) c)
    (hok : ∀ i, (∀ l ∈ c.view.magicLinks, l.tokenHash ≠ tokenHash) →
      Q (.ok (app.unicode.normalize email)) (c.write fun d => { d with
        magicLinks := d.magicLinks ++ [{
          id := app.uuid ⟨process, i⟩, flowId, userId, email := app.unicode.normalize email
          tokenHash, codeHash, codeFailures := 0, expiresAt, consumedAt := none
          createdAt := env.now }] })) :
    Program.wp env process
      (query (MagicLinks.create app flowId userId email tokenHash codeHash expiresAt)) c Q := by
  have hf : (c.view.loginFlows.any fun f => f.id = flowId) = true := by simpa using hflow
  have hu : (userId.all fun u => c.view.users.any fun r => r.id = u) = true := by
    simpa [Option.all_eq_true] using huser
  rw [wp_query]
  intro i
  by_cases hold : (c.view.magicLinks.any fun l => l.tokenHash = tokenHash) = true
  · have hrun : (MagicLinks.create app flowId userId email tokenHash codeHash expiresAt).run
        env.now ⟨process, i⟩ c.view = (fun d => d, .error .uniqueViolation) := if_pos hold
    have hwrite : c.write (fun d => d) = c := by
      obtain ⟨db, _ | w, events⟩ := c <;> rfl
    rw [hrun, hwrite]
    exact hfail
  · have hrun : (MagicLinks.create app flowId userId email tokenHash codeHash expiresAt).run
        env.now ⟨process, i⟩ c.view = (fun d => { d with
          magicLinks := d.magicLinks ++ [{
            id := app.uuid ⟨process, i⟩, flowId, userId, email := app.unicode.normalize email
            tokenHash, codeHash, codeFailures := 0, expiresAt, consumedAt := none
            createdAt := env.now }] }, .ok (app.unicode.normalize email)) := by
      refine (if_neg hold).trans (if_pos ?_)
      rw [hf, hu, Bool.and_self]
    rw [hrun]
    exact hok i (by simpa using hold)

theorem request_requested (hids : d.UniqueIds) (ip : String) (flowId : Uuid) (email : String) :
    Handler.wp env process (MagicLink.request app ip flowId email) ⟨d, none, events⟩
      fun a c => ∃ sent, LinkRequested app env process flowId email d a c.db sent ∧
        c.events = events ++ sent := by
  have hrefused : ∀ e : ApiError, e.status < 500 → ∃ sent,
      LinkRequested app env process flowId email d (.error e) d sent ∧
        events = events ++ sent := fun e he => ⟨[], .refused e he, (List.append_nil _).symm⟩
  simp only [MagicLink.request, wp_bind]
  refine wp_checkLimit_of ?_ fun _ => hrefused _ (by simp [ApiError.status])
  simp only [wp_ite, wp_throw, wp_bind, wp_run, LoginFlows.findPendingMagicLinkFlow, wp_select,
    Point.view, Option.getD_none, throw_bind]
  refine ⟨fun _ => hrefused _ (by decide), fun _ => ?_⟩
  cases hf : d.loginFlows.find? fun f => f.id = flowId && f.pending env.now with
  | none => exact hrefused _ (by decide)
  | some f =>
    have hmem := List.mem_of_find?_eq_some hf
    obtain ⟨hid, hpending⟩ : f.id = flowId ∧ f.pending env.now = true := by
      simpa using List.find?_some hf
    simp only [Option.map_some, wp_ite, wp_bind, wp_perform, wp_clock, wp_pure, wp_throw]
    refine ⟨fun _ => hrefused _ (by simp [ApiError.status]), fun hcount => ?_⟩
    cases hclient : app.client f.clientId with
    | none => exact hrefused _ (by decide)
    | some client =>
      simp only [wp_bind]
      refine wp_checkLimit_of ?_ fun _ => hrefused _ (by simp [ApiError.status])
      have hcountable : d.countable flowId env.now f := ⟨hmem, hid, hpending, by simpa using hcount⟩
      have hhit : (d.loginFlows.filter fun f => f.id = flowId && f.pending env.now &&
          decide (f.magicLinkRequests < MagicLink.maxEmailsPerFlow)).head? = some f :=
        head?_filter_eq hids.loginFlows hmem (by simpa [hid, hpending] using hcount) fun f' hf' => by
          simp only [Bool.and_eq_true, decide_eq_true_eq] at hf'
          exact hf'.1.1.trans hid.symm
      simp only [wp_perform, wp_clock, wp_run, LoginFlows.countMagicLinkRequest]
      rw [wp_update hids.loginFlows]
      simp only [Table.loginFlows, Point.view, Option.getD_none, Point.write, hhit,
        Option.map_some, wp_bind, wp_run, Users.findByEmail, wp_select]
      split
      · rename_i recipient hrecipient
        have haddressee := addressee_of_recipient hrecipient
        simp only [wp_bind, wp_perform, wp_fresh, wp_runChecked, wp_sendInBackground, wp_pure]
        intro j n
        refine wp_magicLinksCreate recipient.userId ?_ ?_ ?_ fun i hnew => ?_
        · have hids : f.id ∈ (d.countRequest env.now flowId (env.utc + codeTtl)).loginFlows.map
              LoginFlow.id := by
            simp only [Database.countRequest]
            rw [map_updateWhere]
            · exact List.mem_map_of_mem hmem
            · exact fun _ => rfl
          rw [hid] at hids
          exact List.mem_map.mp hids
        · exact haddressee.exists_user
        · exact ⟨[], .failed, (List.append_nil _).symm⟩
        · refine ⟨_, .mailed hcountable hclient haddressee i j n hnew, ?_⟩
          cases recipient <;> rfl
      · exact ⟨[], .counted hcountable, (List.append_nil _).symm⟩

end Request

/-! ### Logging in on a flow -/

/-- The account a link or a code logs in on, and the database once a sign-up has created it. -/
inductive Account (app : App) (process : ℕ) (now : Time) (userId : Option Uuid) (email : String)
    (d : Database) : User → Database → Prop
  | known {id : Uuid} {u : User} (hid : userId = some id)
      (hu : d.users.find? (fun u => u.id = id) = some u) : Account app process now userId email d u d
  | sameAddress {u : User} (hid : userId = none)
      (hu : d.users.find? (fun u => u.email = app.unicode.normalize email) = some u) :
      Account app process now userId email d u d
  | created (hid : userId = none) (hfree : ∀ u ∈ d.users, u.email ≠ app.unicode.normalize email)
      (i : ℕ) : Account app process now userId email d (newUser app process now email i)
        { d with users := d.users ++ [newUser app process now email i] }

/-- What a checked link or code of `flowId`, mailed to `email`, makes of the database. -/
inductive LoggedIn (app : App) (env : Env sig) (process : ℕ) (flowId : Uuid)
    (userId : Option Uuid) (email : String) (d : Database) : Login.LoginResponse → Database → Prop
  | intro {u : User} {f : LoginFlow} {w : Database}
      (haccount : Account app process env.now userId email d u w) (henabled : u.disabledAt = none)
      (hemail : u.email = email) (hf : f ∈ d.loginFlows) (hid : f.id = flowId)
      (hpending : f.pending env.now = true) (i j : ℕ)
      (hnew : ∀ c ∈ d.authorizationCodes,
        c.codeHash ≠ (app.generateToken ⟨process, j⟩).hash ∧ c.flowId ≠ flowId) :
      LoggedIn app env process flowId userId email d
        { code := (app.generateToken ⟨process, j⟩).plain }
        { (w.verifyEmail env.now u.id u.email).completeFlow env.now flowId with
          authorizationCodes := d.authorizationCodes ++
            [newCode app process env.now flowId u.id env.utc i j] }

section LogIn

variable {app : App} {env : Env sig} {process : ℕ} {d v : Database} {events : List Event}

/-- No identifier the process can draw is in the table of accounts. -/
def Database.FreshUsers (d : Database) (app : App) (process : ℕ) : Prop :=
  ∀ i, app.uuid ⟨process, i⟩ ∉ d.users.map User.id

lemma wp_account {userId : Option Uuid} {email : String}
    {Q : Except ApiError (Option User) → Point sig → Prop}
    (hnone : Q (.ok none) ⟨d, some v, events⟩)
    (hsome : ∀ u w, Account app process env.now userId email v u w →
      Q (.ok (some u)) ⟨d, some w, events⟩) :
    Handler.wp env process (MagicLink.account app userId email) ⟨d, some v, events⟩ Q := by
  cases userId with
  | some id =>
    simp only [MagicLink.account, wp_run, Users.findById, wp_select, Point.view, Option.getD_some]
    cases hu : v.users.find? fun u => u.id = id with
    | none => exact hnone
    | some u => exact hsome u v (.known rfl hu)
  | none =>
    simp only [MagicLink.account, wp_bind, wp_run, wp_query]
    intro i
    cases hu : v.users.find? fun u => u.email = app.unicode.normalize email with
    | some u =>
      have hany : (v.users.any fun u => u.email = app.unicode.normalize email) = true :=
        List.any_eq_true.mpr ⟨u, List.mem_of_find?_eq_some hu, by simpa using List.find?_some hu⟩
      simp only [Users.create, Point.view, Option.getD_some, hany, if_true, wp_run,
        Users.findByEmail, wp_select, Point.write, hu]
      exact hsome u v (.sameAddress rfl hu)
    | none =>
      have hfree : ∀ u ∈ v.users, u.email ≠ app.unicode.normalize email := by
        simpa using List.find?_eq_none.mp hu
      have hany : (v.users.any fun u => u.email = app.unicode.normalize email) = false := by
        simpa using hfree
      simp only [Users.create, Point.view, Option.getD_some, hany, Bool.false_eq_true, if_false,
        wp_pure, Point.write]
      exact hsome _ _ (.created rfl hfree i)

lemma Account.tables {userId : Option Uuid} {email : String} {now : Time} {u : User} {w : Database}
    (h : Account app process now userId email d u w) :
    ∃ users, w = { d with users } ∧ u ∈ users := by
  cases h with
  | known hid hu => exact ⟨d.users, rfl, List.mem_of_find?_eq_some hu⟩
  | sameAddress hid hu => exact ⟨d.users, rfl, List.mem_of_find?_eq_some hu⟩
  | created hid hfree i => exact ⟨_, rfl, by simp⟩

lemma Account.uniqueIds {userId : Option Uuid} {email : String} {now : Time} {u : User}
    {w : Database} (h : Account app process now userId email d u w) (hids : d.UniqueIds)
    (hfresh : d.FreshUsers app process) : w.UniqueIds := by
  cases h with
  | known hid hu => exact hids
  | sameAddress hid hu => exact hids
  | created hid hfree i =>
    refine { hids with users := ?_ }
    rw [List.map_append, List.nodup_append]
    refine ⟨hids.users, by simp, ?_⟩
    rintro x hx y hy rfl
    simp only [List.map_cons, List.map_nil, List.mem_singleton] at hy
    exact hfresh i (hy ▸ hx : (newUser app process now email i).id ∈ d.users.map User.id)

lemma wp_complete {flowId userId : Uuid} (hids : v.UniqueIds)
    (huser : ∃ u ∈ v.users, u.id = userId)
    {Q : Except ApiError (Option Login.LoginResponse) → Point sig → Prop}
    (hnone : ∀ w, Q (.ok none) ⟨d, some w, events⟩) (herr : ∀ e w, Q (.error e) ⟨d, some w, events⟩)
    (hok : ∀ f ∈ v.loginFlows, f.id = flowId → f.pending env.now = true → ∀ i j,
      (∀ c ∈ v.authorizationCodes,
        c.codeHash ≠ (app.generateToken ⟨process, j⟩).hash ∧ c.flowId ≠ flowId) →
      Q (.ok (some { code := (app.generateToken ⟨process, j⟩).plain }))
        ⟨d, some { v.completeFlow env.now flowId with
          authorizationCodes := v.authorizationCodes ++
            [newCode app process env.now flowId userId env.utc i j] }, events⟩) :
    Handler.wp env process (Login.complete app flowId userId) ⟨d, some v, events⟩ Q := by
  simp only [Login.complete, wp_bind, wp_run]
  rw [LoginFlows.complete, wp_update hids.loginFlows]
  simp only [Bool.not_eq_true', decide_eq_false_iff_not, wp_ite]
  refine ⟨fun _ => hnone _, fun hhit => ?_⟩
  obtain ⟨f, hf⟩ := List.length_eq_one_iff.mp (not_not.mp hhit)
  have hmem := hf ▸ List.mem_singleton_self f
  simp only [Table.loginFlows, Point.view, Option.getD_some, List.mem_filter, Bool.and_eq_true,
    decide_eq_true_eq] at hmem
  obtain ⟨hf, hid, hpending⟩ := hmem
  have hflow : ((v.completeFlow env.now flowId).loginFlows.any fun f => f.id = flowId) = true := by
    have hids : f.id ∈ (v.completeFlow env.now flowId).loginFlows.map LoginFlow.id := by
      simp only [Database.completeFlow]
      rw [map_updateWhere]
      · exact List.mem_map_of_mem hf
      · exact fun _ => rfl
    rw [hid] at hids
    simpa using hids
  have huser' : (v.users.any fun u => u.id = userId) = true := by simpa using huser
  simp only [wp_bind, wp_perform, wp_fresh, wp_clock, wp_runChecked, wp_query]
  intro j i
  by_cases hold : (v.authorizationCodes.any fun c =>
      c.codeHash = (app.generateToken ⟨process, j⟩).hash || c.flowId = flowId) = true
  · have hrun : (AuthorizationCodes.create app (app.generateToken ⟨process, j⟩).hash flowId userId
        (env.utc + Login.authorizationCodeTtl)).run env.now ⟨process, i⟩
        (v.completeFlow env.now flowId) = (fun d => d, .error .uniqueViolation) := if_pos hold
    rw [show Point.view _ = v.completeFlow env.now flowId from rfl, hrun]
    exact herr _ _
  · have hrun : (AuthorizationCodes.create app (app.generateToken ⟨process, j⟩).hash flowId userId
        (env.utc + Login.authorizationCodeTtl)).run env.now ⟨process, i⟩
        (v.completeFlow env.now flowId) = (fun d => { d with
          authorizationCodes := d.authorizationCodes ++
            [newCode app process env.now flowId userId env.utc i j] }, .ok ()) := by
      refine (if_neg hold).trans (if_pos ?_)
      rw [hflow, Bool.true_and]
      exact huser'
    rw [show Point.view _ = v.completeFlow env.now flowId from rfl, hrun]
    exact hok f hf hid hpending i j (by simpa [not_or] using hold)

lemma wp_logIn {flowId : Uuid} {userId : Option Uuid} {email : String} {stale : ApiError}
    (hids : v.UniqueIds) (hfresh : v.FreshUsers app process)
    {Q : Except ApiError Login.LoginResponse → Point sig → Prop}
    (herr : ∀ e w, Q (.error e) ⟨d, some w, events⟩)
    (hok : ∀ response w, LoggedIn app env process flowId userId email v response w →
      Q (.ok response) ⟨d, some w, events⟩) :
    Handler.wp env process (MagicLink.logIn app flowId userId email stale) ⟨d, some v, events⟩
      Q := by
  simp only [MagicLink.logIn, wp_bind, throw_bind]
  refine wp_account (herr _ _) fun u w haccount => ?_
  simp only [wp_ite, wp_throw, wp_bind, wp_run]
  refine ⟨fun _ => herr _ _, fun hdisabled => ⟨fun _ => herr _ _, fun hemail => ?_⟩⟩
  have hwids := haccount.uniqueIds hids hfresh
  rw [Users.markEmailVerified, wp_update hwids.users]
  obtain ⟨users, rfl, hu⟩ := haccount.tables
  refine wp_complete ?_ ?_ (fun w => herr _ w) herr fun f hf hid hpending i j hnew => ?_
  · refine { hwids with users := ?_ }
    simp only [Table.users]
    rw [map_updateWhere]
    · exact hwids.users
    · exact fun _ => rfl
  · have hmem : u.id ∈ (updateWhere (fun u' => u'.id = u.id && u'.email = u.email)
        (fun u => { u with emailVerifiedAt := some (u.emailVerifiedAt.getD env.now)
                           updatedAt := env.now }) users).map User.id := by
      rw [map_updateWhere]
      · exact List.mem_map_of_mem hu
      · exact fun _ => rfl
    exact List.mem_map.mp hmem
  · exact hok _ _ (.intro haccount (by simpa using hdisabled) (by simpa using hemail) hf hid
      hpending i j hnew)

/-- What `POST /magic-link/confirm` answers and leaves. -/
inductive LinkConfirmed (app : App) (env : Env sig) (process : ℕ) (token : String) (d : Database) :
    Except ApiError Login.LoginResponse → Database → Prop
  | refused (e : ApiError) : LinkConfirmed app env process token d (.error e) d
  | loggedIn {l : MagicLink} {response : Login.LoginResponse} {d' : Database}
      (hl : l ∈ d.magicLinks) (htoken : l.tokenHash = app.hash token)
      (husable : l.usable env.now = true)
      (hlogin : LoggedIn app env process l.flowId l.userId l.email
        (d.consumeLink env.now (app.hash token)) response d') :
      LinkConfirmed app env process token d (.ok response) d'

theorem confirm_confirmed (hids : d.UniqueIds) (hfresh : d.FreshUsers app process)
    (ip token : String) :
    Handler.wp env process (MagicLink.confirm app ip token) ⟨d, none, events⟩
      fun a c => LinkConfirmed app env process token d a c.db ∧ c.events = events := by
  simp only [MagicLink.confirm, wp_bind]
  refine wp_checkLimit_of ?_ fun _ => ⟨.refused _, rfl⟩
  simp only [wp_perform, wp_start, wp_run]
  rw [MagicLinks.consume, wp_update hids.magicLinks]
  simp only [Point.view, Option.getD_some, Table.magicLinks, Point.write]
  cases hhit : (d.magicLinks.filter fun l =>
      decide (l.tokenHash = app.hash token) && l.usable env.now).head? with
  | none => exact ⟨.refused _, rfl⟩
  | some l =>
    have hmem := List.mem_of_head? hhit
    simp only [List.mem_filter, Bool.and_eq_true, decide_eq_true_eq] at hmem
    obtain ⟨hl, htoken, husable⟩ := hmem
    simp only [Option.map_some, wp_bind]
    refine wp_logIn (v := d.consumeLink env.now (app.hash token)) ?_ hfresh
      (fun e w => ⟨.refused e, rfl⟩) fun response w hlogin => ?_
    · refine { hids with magicLinks := ?_ }
      simp only [Database.consumeLink]
      rw [map_updateWhere]
      · exact hids.magicLinks
      · exact fun _ => rfl
    · exact ⟨.loggedIn hl htoken husable hlogin, rfl⟩

/-- The link a code typed on a flow is checked against. -/
structure Database.Candidate (d : Database) (flowId : Uuid) (now : Time) (l : MagicLink) :
    Prop where
  newest : d.newestLink flowId = some l
  usable : l.usable now = true
  failures : l.codeFailures < maxFailuresPerCode
  budget : d.linkFailures l.email (now - days 1) < maxFailuresPerDay

/-- What `POST /flows/login/{flow_id}/magic-code` answers and leaves. -/
inductive CodeConfirmed (app : App) (env : Env sig) (process : ℕ) (flowId : Uuid) (code : String)
    (d : Database) : Except ApiError Login.LoginResponse → Database → Prop
  | refused (e : ApiError) (h : e = .invalidCode → ∀ l, d.Candidate flowId env.now l →
        app.verifyCode app.magicLinkKey flowId code l.codeHash = true) :
      CodeConfirmed app env process flowId code d (.error e) d
  | wrong {l : MagicLink} (hl : d.Candidate flowId env.now l)
      (hwrong : app.verifyCode app.magicLinkKey flowId code l.codeHash = false) :
      CodeConfirmed app env process flowId code d (.error .invalidCode) (d.failLink env.now l.id)
  | loggedIn {l : MagicLink} {response : Login.LoginResponse} {d' : Database}
      (hl : d.Candidate flowId env.now l)
      (hright : app.verifyCode app.magicLinkKey flowId code l.codeHash = true)
      (hlogin : LoggedIn app env process flowId l.userId l.email (d.consumeLinkById env.now l.id)
        response d') :
      CodeConfirmed app env process flowId code d (.ok response) d'

lemma wp_lockAddress (email : String) {Q : Unit → Point sig → Prop} :
    Program.wp env process (query (MagicLinks.lockAddress email)) ⟨d, some v, events⟩ Q ↔
      Q () ⟨d, some v, events⟩ := by
  simp only [wp_query, MagicLinks.lockAddress, Point.write, forall_const]

lemma wp_findCodeCandidate {flowId : Uuid}
    {Q : Option MagicLinks.CodeCandidate → Point sig → Prop}
    (hnone : (∀ l, ¬v.Candidate flowId env.now l) → Q none ⟨d, some v, events⟩)
    (hsome : ∀ l, v.Candidate flowId env.now l →
      Q (some { id := l.id, userId := l.userId, email := l.email, codeHash := l.codeHash })
        ⟨d, some v, events⟩) :
    Program.wp env process
      (MagicLinks.findCodeCandidate flowId maxFailuresPerCode maxFailuresPerDay)
      ⟨d, some v, events⟩ Q := by
  simp only [MagicLinks.findCodeCandidate, Program.wp_bind, MagicLinks.newestEmail, wp_select,
    Point.view, Option.getD_some]
  cases hl : v.newestLink flowId with
  | none => exact hnone fun l h => by cases hl.symm.trans h.newest
  | some l =>
    simp only [Option.map_some, Program.wp_bind]
    rw [wp_lockAddress]
    simp only [MagicLinks.selectCandidate, wp_select, Point.view, Option.getD_some, hl]
    split_ifs with h
    · simp only [Bool.and_eq_true, decide_eq_true_eq] at h
      exact hsome l ⟨hl, h.1.1.2, h.1.2, of_decide_eq_true h.2⟩
    · refine hnone fun l' hl' => h ?_
      obtain rfl := Option.some.inj (hl.symm.trans hl'.newest)
      simp only [Bool.and_eq_true, decide_eq_true_eq]
      exact ⟨⟨⟨trivial, hl'.usable⟩, hl'.failures⟩, decide_eq_true hl'.budget⟩

lemma mem_of_newestLink {flowId : Uuid} {l : MagicLink} (h : d.newestLink flowId = some l) :
    l ∈ d.magicLinks ∧ l.flowId = flowId := by
  simpa using List.mem_filter.mp (mem_of_newest h)

theorem confirmCode_confirmed (hids : d.UniqueIds) (hfresh : d.FreshUsers app process)
    (ip : String) (flowId : Uuid) (code : String) :
    Handler.wp env process (MagicLink.confirmCode app ip flowId code) ⟨d, none, events⟩
      fun a c => CodeConfirmed app env process flowId code d a c.db := by
  simp only [MagicLink.confirmCode, wp_bind]
  refine wp_checkLimit_of ?_ fun _ => .refused _ (by simp)
  rw [wp_checkFormat]
  refine ⟨fun _ => ?_, fun _ => .refused _ (by simp)⟩
  simp only [wp_perform, wp_start]
  refine wp_findCodeCandidate (fun hnone => .refused _ fun _ l hl => absurd hl (hnone l))
    fun l hl => ?_
  have hmem := (mem_of_newestLink hl.newest).1
  simp only [wp_bind, wp_verifyCode, wp_ite, wp_runChecked, wp_run, throw_bind]
  refine ⟨fun hwrong => ?_, fun hright => ?_⟩
  · rw [MagicLinks.recordCodeFailure, wp_update hids.magicLinks]
    have hhit : (d.magicLinks.filter fun l' => decide (l'.id = l.id)).head? = some l :=
      head?_filter_eq hids.magicLinks hmem (by simp) fun l' hl' => by simpa using hl'
    simp only [Table.magicLinks, Point.view, Option.getD_some, hhit, Except.mapError, Point.write,
      wp_perform, wp_finish, wp_throw]
    exact .wrong hl (by simpa using hwrong)
  · rw [MagicLinks.consumeById, wp_update hids.magicLinks]
    have hright : app.verifyCode app.magicLinkKey flowId code l.codeHash = true := by
      simpa using hright
    refine wp_logIn (v := d.consumeLinkById env.now l.id) ?_ hfresh
      (fun e w => .refused e fun _ l' hl' => ?_) fun response w hlogin => ?_
    · refine { hids with magicLinks := ?_ }
      simp only [Database.consumeLinkById]
      rw [map_updateWhere]
      · exact hids.magicLinks
      · exact fun _ => rfl
    · obtain rfl := Option.some.inj (hl.newest.symm.trans hl'.newest)
      exact hright
    · exact .loggedIn hl hright hlogin

end LogIn

end Bauth
