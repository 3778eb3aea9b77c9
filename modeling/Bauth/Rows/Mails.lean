import Bauth.Transaction.Log
import Bauth.Server

/-!
# The emails of each handler

Magic link, confirmation code and email change emails are counted against the address they go to.
`handle_charges` shows that a request hands at most one of them to the mailer, after the limiter of
addresses let the key of that very address pass, when the address is written so that its key is
that of the address the email goes to.
-/

namespace Bauth

open Transaction

/-- The emails that a limiter of addresses counts. -/
def Email.counted : Email → Bool
  | .magicLink .. | .magicSignup .. | .confirmationCode .. | .confirmEmailChange .. => true
  | .emailChanged .. | .accountDeleted .. => false

/-- An event that hands no counted email to the mailer. -/
def Event.uncounted : Event → Bool
  | .sent m => !m.counted
  | .codeVerified .. => true

abbrev Log := List (Entry sig)

/-- The limiter of addresses let this key pass. -/
def passed (key : String) : Entry sig := .asked (.limit .emailPerAddress key) (none : Option Time)

/-- No counted email was handed over. -/
def Calm (l : Log) : Prop := ∀ e, .emitted e ∈ l → e.uncounted = true

/-- What holds when an event is signalled: a counted email is the first one, and the key of its
recipient passed. -/
def Charged (app : App) (l : Log) (e : Event) : Prop :=
  ∀ m, e = .sent m → m.counted = true → passed (app.unicode.emailKey m.recipient) ∈ l ∧ Calm l

/-- The key that the request charges for an address is that of the address its email goes to. -/
def Request.SameKey (app : App) : Request → Prop
  | .requestMagicLink _ _ email =>
    app.unicode.emailKey email = app.unicode.emailKey (app.unicode.normalize email)
  | .changeEmail _ _ _ newEmail =>
    app.unicode.emailKey newEmail = app.unicode.emailKey (app.unicode.emailKey newEmail)
  | _ => True

variable {ε α β : Type} {app : App}

/-- The program hands over no counted email. -/
def Quiet (app : App) (p : Program sig α) : Prop :=
  ∀ l, Calm l → p.Emits (Charged app) l fun _ l' => Calm l' ∧ l ⊆ l'

/-- Once `keys` have passed, each event of the program is as `Charged` says. -/
def Charges (app : App) (keys : List String) (p : Program sig α) : Prop :=
  ∀ l, Calm l → (∀ key ∈ keys, passed key ∈ l) → p.Emits (Charged app) l fun _ _ => True

/-! ### Rules -/

section Rules

lemma Calm.asked {l : Log} (h : Calm l) (q : Question) (r : Reply q) :
    Calm (l ++ [.asked q r]) := by
  intro e he
  rcases List.mem_append.mp he with he | he
  · exact h e he
  · cases List.mem_singleton.mp he

lemma Calm.emitted {l : Log} (h : Calm l) {e : Event} (he : e.uncounted = true) :
    Calm (l ++ [.emitted e]) := by
  intro e' he'
  rcases List.mem_append.mp he' with he' | he'
  · exact h e' he'
  · cases List.mem_singleton.mp he'
    exact he

lemma charged_of_uncounted {l : Log} {e : Event} (he : e.uncounted = true) : Charged app l e := by
  rintro m rfl hm
  simp [Event.uncounted, hm] at he

lemma quiet_ret (a : α) : Quiet app (.ret a) := fun l hl => ⟨hl, List.Subset.refl l⟩

lemma quiet_bind {p : Program sig β} {f : β → Program sig α} (hp : Quiet app p)
    (hf : ∀ b, Quiet app (f b)) : Quiet app (p >>= f) := by
  intro l hl
  rw [Program.emits_bind]
  refine (hp l hl).mono fun b l' ⟨hcalm, hsub⟩ => ?_
  exact (hf b l' hcalm).mono fun _ _ ⟨hcalm', hsub'⟩ => ⟨hcalm', List.Subset.trans hsub hsub'⟩

lemma quiet_query (s : Statement sig α) : Quiet app (.query s) :=
  fun l hl _ _ _ => ⟨hl, List.Subset.refl l⟩

lemma quiet_revokes (q : Query) (p : Database → Session → Bool) (f : List Uuid → α) :
    Quiet app (do return f (← Program.query (Sessions.revokeWhere q p))) :=
  quiet_bind (quiet_query _) fun _ => quiet_ret _

lemma quiet_clock : Quiet app Program.clock := fun l hl _ => ⟨hl, List.Subset.refl l⟩

lemma quiet_fresh : Quiet app Program.fresh := fun l hl _ => ⟨hl, List.Subset.refl l⟩

lemma quiet_start : Quiet app Program.start := fun l hl => ⟨hl, List.Subset.refl l⟩

lemma quiet_finish : Quiet app Program.finish := fun l hl => ⟨hl, List.Subset.refl l⟩

lemma quiet_abandon : Quiet app Program.abandon := fun l hl => ⟨hl, List.Subset.refl l⟩

lemma quiet_inquire (q : Question) : Quiet app (Program.inquire (S := sig) q) :=
  fun _ hl r => ⟨hl.asked q r, List.subset_append_left ..⟩

lemma quiet_signal {e : Event} (he : e.uncounted = true) :
    Quiet app (Program.signal (S := sig) e) :=
  fun _ hl => ⟨charged_of_uncounted he, hl.emitted he, List.subset_append_left ..⟩

lemma Quiet.charges {p : Program sig α} (h : Quiet app p) (keys : List String) :
    Charges app keys p := fun l hl _ => (h l hl).mono fun _ _ _ => trivial

lemma charges_bind {keys : List String} {p : Program sig β} {f : β → Program sig α}
    (hp : Quiet app p) (hf : ∀ b, Charges app keys (f b)) : Charges app keys (p >>= f) := by
  intro l hl hkeys
  rw [Program.emits_bind]
  exact (hp l hl).mono fun b l' ⟨hcalm, hsub⟩ =>
    hf b l' hcalm fun key hkey => hsub (hkeys key hkey)

/-- What a statement answers is what it can answer. -/
lemma charges_query_bind {keys : List String} {s : Statement sig β} {f : β → Program sig α}
    (hf : ∀ now n d, Charges app keys (f (s.run now n d).2)) :
    Charges app keys (Program.query s >>= f) := by
  intro l hl hkeys
  rw [Program.emits_bind]
  exact fun now n d => hf now n d l hl hkeys

/-- A key that passed is charged from there on. -/
lemma charges_inquire_bind {keys : List String} {key : String}
    {f : Option Time → Program sig α} (hpass : Charges app (key :: keys) (f none))
    (hwait : ∀ wait, Quiet app (f (some wait))) :
    Charges app keys (Program.inquire (S := sig) (.limit .emailPerAddress key) >>= f) := by
  intro l hl hkeys
  rw [Program.emits_bind]
  intro wait
  have hcalm : Calm (l ++ [.asked (.limit .emailPerAddress key) wait]) := hl.asked _ _
  cases wait with
  | none =>
    refine hpass _ hcalm fun key' hkey' => ?_
    rcases List.mem_cons.mp hkey' with rfl | hkey'
    · exact List.mem_append_right _ (List.mem_singleton_self _)
    · exact List.mem_append_left _ (hkeys key' hkey')
  | some wait => exact (hwait wait).charges [] _ hcalm fun _ h => absurd h List.not_mem_nil

lemma charges_signal {keys : List String} {m : Email}
    (hkey : app.unicode.emailKey m.recipient ∈ keys) :
    Charges app keys (Program.signal (S := sig) (.sent m)) := by
  intro l hl hkeys
  refine ⟨?_, trivial⟩
  rintro m' hm' -
  cases hm'
  exact ⟨hkeys _ hkey, hl⟩

end Rules

/-! ### Rules of handlers -/

section HandlerRules

def Handler.Quiet (app : App) (h : Handler ε α) : Prop := Bauth.Quiet app h.run

def Handler.Charges (app : App) (keys : List String) (h : Handler ε α) : Prop :=
  Bauth.Charges app keys h.run

lemma quiet_pure (a : α) : Handler.Quiet app (pure a : Handler ε α) := quiet_ret _

lemma quiet_throw (e : ε) : Handler.Quiet app (throw e : Handler ε α) := quiet_ret _

lemma quiet_then {h : Handler ε β} {f : β → Handler ε α} (hh : Handler.Quiet app h)
    (hf : ∀ b, Handler.Quiet app (f b)) : Handler.Quiet app (h >>= f) := by
  simp only [Handler.Quiet, ExceptT.run_bind]
  refine quiet_bind hh fun r => ?_
  cases r with
  | ok b => exact hf b
  | error e => exact quiet_ret _

lemma quiet_perform {p : Program sig α} (hp : Quiet app p) :
    Handler.Quiet app (perform p : Handler ε α) := by
  simp only [Handler.Quiet, perform, ExceptT.run_lift, map_eq_pure_bind]
  exact quiet_bind hp fun a => quiet_ret _

lemma quiet_run (s : Statement sig α) : Handler.Quiet app (run s : Handler ε α) :=
  quiet_perform (quiet_query s)

lemma quiet_runChecked [FromDbError ε] (s : Statement sig (Except DbError α)) :
    Handler.Quiet app (runChecked s : Handler ε α) := by
  simp only [Handler.Quiet, runChecked, ExceptT.run_mk]
  refine quiet_bind (quiet_query s) fun r => ?_
  cases r <;> exact quiet_ret _

lemma Handler.Quiet.charges {h : Handler ε α} (hh : Handler.Quiet app h) (keys : List String) :
    Handler.Charges app keys h := Bauth.Quiet.charges hh keys

lemma charges_then {keys : List String} {h : Handler ε β} {f : β → Handler ε α}
    (hh : Handler.Quiet app h) (hf : ∀ b, Handler.Charges app keys (f b)) :
    Handler.Charges app keys (h >>= f) := by
  simp only [Handler.Charges, ExceptT.run_bind]
  refine charges_bind hh fun r => ?_
  cases r with
  | ok b => exact hf b
  | error e => exact (quiet_ret _).charges keys

lemma charges_return {keys : List String} {h : Handler ε β} (hh : Handler.Charges app keys h)
    (f : β → α) : Handler.Charges app keys (do return f (← h)) := by
  intro l hl hkeys
  simp only [ExceptT.run_bind, Program.emits_bind]
  refine (hh l hl hkeys).mono fun r _ _ => ?_
  cases r <;> trivial

lemma charges_runChecked [FromDbError ε] {keys : List String}
    {s : Statement sig (Except DbError β)} {f : β → Handler ε α}
    (hf : ∀ now n d b, (s.run now n d).2 = .ok b → Handler.Charges app keys (f b)) :
    Handler.Charges app keys (runChecked s >>= f) := by
  simp only [Handler.Charges, runChecked, ExceptT.run_bind, ExceptT.run_mk, bind_assoc]
  refine charges_query_bind fun now n d => ?_
  cases hr : (s.run now n d).2 with
  | ok b => exact hf now n d b hr
  | error e => exact (quiet_ret _).charges keys

lemma charges_checkLimit {keys : List String} {key : String} {f : Unit → Handler ApiError α}
    (hf : Handler.Charges app (key :: keys) (f ())) :
    Handler.Charges app keys (checkLimit .emailPerAddress key >>= f) := by
  simp only [Handler.Charges, checkLimit, perform, ExceptT.run_bind, ExceptT.run_lift,
    map_eq_pure_bind, bind_assoc]
  refine charges_inquire_bind ?_ fun wait => quiet_ret _
  exact hf

lemma charges_send {keys : List String} {m : Email}
    (hkey : app.unicode.emailKey m.recipient ∈ keys) :
    Handler.Charges app keys (sendInBackground m) := by
  intro l hl hkeys
  simp only [sendInBackground, perform, ExceptT.run_lift, map_eq_pure_bind, Program.emits_bind]
  exact (charges_signal hkey l hl hkeys).mono fun _ _ _ => trivial

end HandlerRules

/-! ### Handlers -/

section Handlers

lemma checkLimit_quiet (limiter : Limiter) (key : String) :
    Handler.Quiet app (checkLimit limiter key) := by
  refine quiet_then (quiet_perform (quiet_inquire _)) fun wait => ?_
  split
  · exact quiet_pure _
  · exact quiet_throw _

lemma checkFormat_quiet (code : String) : Handler.Quiet app (checkFormat code) := by
  simp only [checkFormat]
  split
  · exact quiet_pure _
  · exact quiet_throw _

lemma createFlow_quiet (input : Login.CreateFlowRequest) :
    Handler.Quiet app (Login.createFlow app input) := by
  simp only [Login.createFlow, throw_bind]
  repeat' split
  all_goals try exact quiet_throw _
  refine quiet_then (quiet_perform quiet_clock) fun now => ?_
  exact quiet_then (quiet_run _) fun id => quiet_pure _

lemma complete_quiet (flowId userId : Uuid) :
    Handler.Quiet app (Login.complete app flowId userId) := by
  simp only [Login.complete]
  refine quiet_then (quiet_run _) fun b => ?_
  split
  · exact quiet_pure _
  · refine quiet_then (quiet_perform quiet_fresh) fun n => ?_
    refine quiet_then (quiet_perform quiet_clock) fun now => ?_
    exact quiet_then (quiet_runChecked _) fun _ => quiet_pure _

lemma verifyCode_quiet (purpose : CodePurpose) (row owner : Uuid) (code : String) (hash : Bytes) :
    Handler.Quiet app (verifyCode app purpose row owner code hash) :=
  quiet_then (quiet_perform (quiet_signal rfl)) fun _ => quiet_pure _

lemma logIn_quiet (flowId : Uuid) (userId : Option Uuid) (email : String) (stale : ApiError) :
    Handler.Quiet app (MagicLink.logIn app flowId userId email stale) := by
  simp only [MagicLink.logIn, MagicLink.account, throw_bind]
  refine quiet_then ?_ fun user => ?_
  · split
    · exact quiet_run _
    · refine quiet_then (quiet_run _) fun user => ?_
      split
      · exact quiet_pure _
      · exact quiet_run _
  repeat' split
  all_goals try exact quiet_throw _
  refine quiet_then (quiet_run _) fun _ => ?_
  refine quiet_then (complete_quiet _ _) fun response => ?_
  split
  · exact quiet_pure _
  · exact quiet_throw _

lemma confirm_quiet (ip token : String) : Handler.Quiet app (MagicLink.confirm app ip token) := by
  simp only [MagicLink.confirm]
  refine quiet_then (checkLimit_quiet _ _) fun _ => ?_
  refine quiet_then (quiet_perform quiet_start) fun _ => quiet_then (quiet_run _) fun link => ?_
  split
  · refine quiet_then (logIn_quiet _ _ _ _) fun response => ?_
    exact quiet_then (quiet_perform quiet_finish) fun _ => quiet_pure _
  · exact quiet_throw _

lemma confirmCode_quiet (ip : String) (flowId : Uuid) (code : String) :
    Handler.Quiet app (MagicLink.confirmCode app ip flowId code) := by
  simp only [MagicLink.confirmCode, MagicLinks.findCodeCandidate, throw_bind]
  refine quiet_then (checkLimit_quiet _ _) fun _ => quiet_then (checkFormat_quiet _) fun _ => ?_
  refine quiet_then (quiet_perform quiet_start) fun _ => ?_
  refine quiet_then (quiet_perform (quiet_bind (quiet_query _) fun email => ?_)) fun link => ?_
  · split
    · exact quiet_ret _
    · exact quiet_bind (quiet_query _) fun _ => quiet_query _
  split
  · refine quiet_then (verifyCode_quiet _ _ _ _ _) fun right => ?_
    split
    · refine quiet_then (quiet_runChecked _) fun _ => ?_
      exact quiet_then (quiet_perform quiet_finish) fun _ => quiet_throw _
    · refine quiet_then (quiet_run _) fun _ => quiet_then (logIn_quiet _ _ _ _) fun response => ?_
      exact quiet_then (quiet_perform quiet_finish) fun _ => quiet_pure _
  · exact quiet_throw _

lemma required_quiet (value : Option String) (name : String) :
    Handler.Quiet app (OAuth.required value name) := by
  simp only [OAuth.required]
  split
  · exact quiet_pure _
  · exact quiet_throw _

lemma newRefreshToken_quiet (sessionId : Uuid) (parentId : Option Uuid) :
    Handler.Quiet app (newRefreshToken app sessionId parentId) := by
  refine quiet_then (quiet_perform quiet_fresh) fun n => ?_
  exact quiet_then (quiet_runChecked _) fun _ => quiet_pure _

lemma issue_quiet (keys : SigningKeys) (userId sessionId : Uuid) (client : Client) (now : Time) :
    Quiet app (issue app keys userId sessionId client now) := by
  simp only [issue]
  split
  · exact quiet_bind quiet_fresh fun _ => quiet_ret _
  · exact quiet_ret _

lemma authorizationCode_quiet (input : OAuth.TokenRequest) :
    Handler.Quiet app (OAuth.authorizationCode app input) := by
  simp only [OAuth.authorizationCode, OAuth.rejectUnusableCode, openSession, throw_bind]
  refine quiet_then (required_quiet _ _) fun code => ?_
  refine quiet_then (required_quiet _ _) fun uri => ?_
  refine quiet_then (required_quiet _ _) fun verifier => ?_
  split
  · refine quiet_then (quiet_perform quiet_start) fun _ => ?_
    refine quiet_then (quiet_run _) fun consumed => ?_
    split
    · repeat' split
      all_goals try exact quiet_throw _
      refine quiet_then (quiet_run _) fun user => ?_
      split
      · exact quiet_throw _
      refine quiet_then (quiet_then (quiet_perform quiet_clock) fun now => ?_) fun session => ?_
      · refine quiet_then (quiet_runChecked _) fun id => ?_
        exact quiet_then (newRefreshToken_quiet _ _) fun token => quiet_pure _
      refine quiet_then (quiet_perform (quiet_inquire _)) fun keys => ?_
      refine quiet_then (quiet_perform quiet_clock) fun now => ?_
      refine quiet_then (quiet_perform (issue_quiet _ _ _ _ _)) fun access => ?_
      split
      · exact quiet_then (quiet_perform quiet_finish) fun _ => quiet_pure _
      · exact quiet_throw _
    · refine quiet_then (quiet_perform quiet_abandon) fun _ => quiet_then ?_ fun _ => quiet_throw _
      refine quiet_then (quiet_run _) fun id => ?_
      split
      · exact quiet_then (quiet_perform (quiet_revokes _ _ _)) fun _ => quiet_pure _
      · exact quiet_pure _
  · exact quiet_throw _

lemma supersedeEach_quiet (parent : Uuid) (ids : List Uuid) :
    Quiet app (RefreshTokens.supersedeEach parent ids) := by
  induction ids with
  | nil => exact quiet_ret _
  | cons id ids ih => exact quiet_bind (quiet_query _) fun _ => ih

lemma isStolen_quiet (current : RefreshTokens.RefreshTokenWithSession) (now : Time) :
    Quiet app (OAuth.isStolen current now) := by
  simp only [OAuth.isStolen]
  split
  · exact quiet_ret _
  · exact quiet_bind (quiet_query _) fun _ => quiet_ret _
  · split
    · exact quiet_ret _
    refine quiet_bind (quiet_query _) fun stolen => ?_
    cases stolen with
    | true => exact quiet_ret _
    | false =>
      refine quiet_bind ?_ fun _ => quiet_ret _
      exact quiet_bind (quiet_query _) fun ids => supersedeEach_quiet _ ids

lemma refreshToken_quiet (input : OAuth.TokenRequest) :
    Handler.Quiet app (OAuth.refreshToken app input) := by
  simp only [OAuth.refreshToken, RefreshTokens.findForUpdate, throw_bind]
  refine quiet_then (required_quiet _ _) fun T => ?_
  split
  · refine quiet_then (quiet_perform quiet_clock) fun now => ?_
    refine quiet_then (quiet_perform quiet_start) fun _ => ?_
    refine quiet_then (quiet_perform (quiet_bind (quiet_query _) fun row => ?_)) fun current => ?_
    · cases row with
      | none => exact quiet_ret _
      | some row =>
        refine quiet_bind (quiet_query _) fun locked => ?_
        cases locked <;> exact quiet_ret _
    split
    · repeat' split
      all_goals try exact quiet_throw _
      refine quiet_then (quiet_perform (isStolen_quiet _ _)) fun stolen => ?_
      split
      · refine quiet_then (quiet_perform (quiet_revokes _ _ _)) fun _ => ?_
        exact quiet_then (quiet_perform quiet_finish) fun _ => quiet_throw _
      refine quiet_then (quiet_run _) fun user => ?_
      split
      · refine quiet_then (quiet_perform (quiet_revokes _ _ _)) fun _ => ?_
        exact quiet_then (quiet_perform quiet_finish) fun _ => quiet_throw _
      refine quiet_then (newRefreshToken_quiet _ _) fun token => ?_
      refine quiet_then (quiet_perform (quiet_inquire _)) fun keys => ?_
      refine quiet_then (quiet_perform (issue_quiet _ _ _ _ _)) fun access => ?_
      split
      · exact quiet_then (quiet_perform quiet_finish) fun _ => quiet_pure _
      · exact quiet_throw _
    · exact quiet_throw _
  · exact quiet_throw _

lemma token_quiet (input : OAuth.TokenRequest) : Handler.Quiet app (OAuth.token app input) := by
  simp only [OAuth.token]
  repeat' split
  · exact authorizationCode_quiet input
  · exact refreshToken_quiet input
  · exact quiet_throw _

lemma revoke_quiet (input : OAuth.RevokeRequest) : Handler.Quiet app (OAuth.revoke app input) := by
  simp only [OAuth.revoke]
  split
  · exact quiet_then (quiet_perform (quiet_revokes _ _ _)) fun _ => quiet_pure _
  · exact quiet_throw _

lemma currentUser_quiet (authorization : Option String) :
    Handler.Quiet app (currentUser app authorization) := by
  simp only [currentUser, throw_bind]
  refine quiet_then (quiet_perform (quiet_inquire _)) fun keys => ?_
  refine quiet_then (quiet_perform quiet_clock) fun now => ?_
  split
  · refine quiet_then (quiet_run _) fun session => ?_
    repeat' split
    all_goals first | exact quiet_throw _ | exact quiet_pure _
  · exact quiet_throw _

lemma confirmEmailChange_quiet (ip token : String) :
    Handler.Quiet app (EmailChange.confirm app ip token) := by
  simp only [EmailChange.confirm, throw_bind]
  refine quiet_then (checkLimit_quiet _ _) fun _ => quiet_then (quiet_perform quiet_start) fun _ => ?_
  refine quiet_then (quiet_run _) fun change => ?_
  split
  · refine quiet_then (quiet_run _) fun user => ?_
    split
    · split
      · exact quiet_throw _
      refine quiet_then (quiet_run _) fun moved => ?_
      repeat' split
      all_goals try exact quiet_throw _
      refine quiet_then (quiet_perform quiet_finish) fun _ => ?_
      exact quiet_perform (quiet_signal rfl)
    · exact quiet_throw _
  · exact quiet_throw _

lemma get_quiet (authorization : Option String) : Handler.Quiet app (Me.get app authorization) := by
  simp only [Me.get]
  refine quiet_then (currentUser_quiet _) fun user => quiet_then (quiet_run _) fun account => ?_
  split
  · exact quiet_pure _
  · exact quiet_throw _

lemma listSessions_quiet (authorization : Option String) :
    Handler.Quiet app (Me.listSessions app authorization) :=
  quiet_then (currentUser_quiet _) fun _ => quiet_then (quiet_run _) fun _ => quiet_pure _

lemma revokeSession_quiet (authorization : Option String) (sessionId : Uuid) :
    Handler.Quiet app (Me.revokeSession app authorization sessionId) := by
  simp only [Me.revokeSession]
  refine quiet_then (currentUser_quiet _) fun user => ?_
  refine quiet_then (quiet_perform (quiet_revokes _ _ _)) fun revoked => ?_
  split
  · exact quiet_throw _
  · exact quiet_pure _

lemma checkCode_quiet (ip : String) (user : CurrentUser) (action : Me.ConfirmationAction)
    (code : String) : Handler.Quiet app (Me.checkCode app ip user action code) := by
  simp only [Me.checkCode, Confirmations.findCodeCandidate, throw_bind]
  refine quiet_then (checkLimit_quiet _ _) fun _ => quiet_then (checkFormat_quiet _) fun _ => ?_
  refine quiet_then (quiet_perform quiet_start) fun _ => ?_
  refine quiet_then (quiet_perform (quiet_bind (quiet_query _) fun _ => quiet_query _))
    fun confirmation => ?_
  split
  · split
    · exact quiet_throw _
    refine quiet_then (verifyCode_quiet _ _ _ _ _) fun right => ?_
    split
    · refine quiet_then (quiet_runChecked _) fun _ => ?_
      exact quiet_then (quiet_perform quiet_finish) fun _ => quiet_throw _
    · exact quiet_then (quiet_run _) fun _ => quiet_perform quiet_finish
  · exact quiet_throw _

lemma deleteAccount_quiet (ip : String) (authorization : Option String) (code : String) :
    Handler.Quiet app (Me.deleteAccount app ip authorization code) := by
  refine quiet_then (currentUser_quiet _) fun user => quiet_then (checkCode_quiet _ _ _ _) fun _ => ?_
  exact quiet_then (quiet_run _) fun _ => quiet_perform (quiet_signal rfl)

lemma address_of_create {flowId : Uuid} {userId : Option Uuid} {email address : String}
    {tokenHash codeHash : Bytes} {expiresAt now : Time} {n : Draw} {d : Database}
    (h : ((MagicLinks.create app flowId userId email tokenHash codeHash expiresAt).run now n d).2 =
      .ok address) : address = app.unicode.normalize email := by
  simp only [MagicLinks.create] at h
  split_ifs at h
  exact (Except.ok.inj h).symm

lemma request_charges (ip : String) (flowId : Uuid) (email : String)
    (hkey : app.unicode.emailKey email = app.unicode.emailKey (app.unicode.normalize email)) :
    Handler.Charges app [] (MagicLink.request app ip flowId email) := by
  simp only [MagicLink.request, throw_bind, bind_assoc]
  refine charges_then (checkLimit_quiet _ _) fun _ => ?_
  split
  · exact (quiet_throw _).charges _
  refine charges_then (quiet_run _) fun flow => ?_
  have hexhausted : ∀ keys (flow : LoginFlows.PendingMagicLinkFlow), Handler.Charges app keys (do
      let now ← perform Program.clock
      throw (ApiError.rateLimited (max 0 (flow.expiresAt - now))) :
        Handler ApiError MagicLink.MagicLinkResponse) := fun keys flow =>
    (quiet_then (quiet_perform quiet_clock) fun _ => quiet_throw _).charges keys
  split
  · split
    · exact hexhausted _ _
    split
    · refine charges_checkLimit (charges_then (quiet_perform quiet_clock) fun now => ?_)
      refine charges_then (quiet_run _) fun expiry => ?_
      split
      · refine charges_then (quiet_run _) fun user => ?_
        split
        · refine charges_then (quiet_perform quiet_fresh) fun n => ?_
          refine charges_then (quiet_perform quiet_fresh) fun n' => ?_
          refine charges_runChecked fun now n d address haddress => ?_
          obtain rfl := address_of_create haddress
          refine charges_return (charges_send ?_) _
          split <;> exact List.mem_singleton.mpr hkey.symm
        · exact (quiet_pure _).charges _
      · exact hexhausted _ _
    · exact (quiet_throw _).charges _
  · exact (quiet_throw _).charges _

lemma requestConfirmation_charges (ip : String) (authorization : Option String)
    (action : Me.ConfirmationAction) :
    Handler.Charges app [] (Me.requestConfirmation app ip authorization action) := by
  refine charges_then (currentUser_quiet _) fun user => ?_
  refine charges_then (checkLimit_quiet _ _) fun _ => charges_checkLimit ?_
  refine charges_then (quiet_perform quiet_fresh) fun n => ?_
  refine charges_then (quiet_perform quiet_clock) fun now => ?_
  refine charges_then (quiet_runChecked _) fun _ => charges_send ?_
  exact List.mem_singleton_self _

lemma changeEmail_charges (ip : String) (authorization : Option String) (code newEmail : String)
    (hkey : app.unicode.emailKey newEmail =
      app.unicode.emailKey (app.unicode.emailKey newEmail)) :
    Handler.Charges app [] (Me.changeEmail app ip authorization code newEmail) := by
  simp only [Me.changeEmail, throw_bind]
  refine charges_then (currentUser_quiet _) fun user => ?_
  repeat' split
  all_goals try exact (quiet_throw _).charges _
  refine charges_then ?_ fun page => charges_checkLimit ?_
  · exact quiet_ret _
  refine charges_then (checkCode_quiet _ _ _ _) fun _ => charges_then (quiet_run _) fun u => ?_
  split
  · refine charges_then (quiet_perform quiet_fresh) fun n => ?_
    refine charges_then (quiet_perform quiet_clock) fun now => ?_
    refine charges_then (quiet_runChecked _) fun _ => charges_send ?_
    exact List.mem_singleton.mpr hkey.symm
  · exact (quiet_pure _).charges _

end Handlers

/-! ### The purge -/

section Purge

lemma deleteEach_quiet (present : Database → Uuid → Bool) (del : Uuid → Database → Database)
    (ids : List Uuid) : Quiet app (Purge.deleteEach present del ids) := by
  induction ids with
  | nil => exact quiet_ret _
  | cons id ids ih =>
    exact quiet_bind (quiet_query _) fun deleted => quiet_bind ih fun n => quiet_ret _

lemma inBatches_quiet (select : Time → Database → List Uuid) (present : Database → Uuid → Bool)
    (del : Uuid → Database → Database) (fuel total : ℕ) :
    Quiet app (Purge.inBatches (Purge.deleteBatch select present del) fuel total) := by
  induction fuel generalizing total with
  | zero => exact quiet_ret _
  | succ fuel ih =>
    simp only [Purge.inBatches]
    refine quiet_bind ?_ fun deleted => ?_
    · refine quiet_bind quiet_start fun _ => quiet_bind (quiet_query _) fun ids => ?_
      refine quiet_bind (deleteEach_quiet _ _ _) fun n => ?_
      exact quiet_bind quiet_finish fun _ => quiet_ret _
    split
    · exact quiet_ret _
    · exact ih _

lemma purge_quiet (fuel : ℕ) : Quiet app (Purge.purge fuel) := by
  simp only [Purge.purge]
  refine quiet_bind (inBatches_quiet _ _ _ _ _) fun flows => ?_
  cases flows with
  | none => exact quiet_ret _
  | some flows =>
    refine quiet_bind (inBatches_quiet _ _ _ _ _) fun changes => ?_
    cases changes with
    | none => exact quiet_ret _
    | some changes =>
      refine quiet_bind (inBatches_quiet _ _ _ _ _) fun confirmations => ?_
      cases confirmations with
      | none => exact quiet_ret _
      | some confirmations =>
        refine quiet_bind (inBatches_quiet _ _ _ _ _) fun sessions => ?_
        cases sessions with
        | none => exact quiet_ret _
        | some sessions =>
          refine quiet_bind (inBatches_quiet _ _ _ _ _) fun users => ?_
          cases users with
          | none => exact quiet_ret _
          | some users => exact quiet_bind (quiet_query _) fun _ => quiet_ret _

end Purge

/-! ### Every request -/

lemma apiRoute_charges {keys : List String} (body : α → Body) {h : Handler ApiError α}
    (hh : Handler.Charges app keys h) : Charges app keys (apiRoute body h) := by
  intro l hl hkeys
  simp only [apiRoute, Program.emits_bind]
  refine (hh l hl hkeys).mono fun r _ _ => ?_
  cases r <;> trivial

lemma oauthRoute_charges {keys : List String} (body : α → Body) {h : Handler OAuthError α}
    (hh : Handler.Charges app keys h) : Charges app keys (oauthRoute body h) := by
  intro l hl hkeys
  simp only [oauthRoute, Program.emits_bind]
  refine (hh l hl hkeys).mono fun r _ _ => ?_
  cases r <;> trivial

/-- A request hands over one counted email at most, once the key of its recipient passed. -/
theorem handle_charges (app : App) (r : Request) (hkey : r.SameKey app) :
    Charges app [] (handle app r) := by
  cases r with
  | createFlow input => exact apiRoute_charges _ ((createFlow_quiet input).charges _)
  | requestMagicLink ip flowId email =>
    exact apiRoute_charges _ (request_charges ip flowId email hkey)
  | confirmMagicLink ip token => exact apiRoute_charges _ ((confirm_quiet ip token).charges _)
  | confirmMagicCode ip flowId code =>
    exact apiRoute_charges _ ((confirmCode_quiet ip flowId code).charges _)
  | token input => exact oauthRoute_charges _ ((token_quiet input).charges _)
  | revoke input => exact oauthRoute_charges _ ((revoke_quiet input).charges _)
  | getMe authorization => exact apiRoute_charges _ ((get_quiet authorization).charges _)
  | listSessions authorization =>
    exact apiRoute_charges _ ((listSessions_quiet authorization).charges _)
  | revokeSession authorization sessionId =>
    exact apiRoute_charges _ ((revokeSession_quiet authorization sessionId).charges _)
  | requestConfirmation ip authorization action =>
    exact apiRoute_charges _ (requestConfirmation_charges ip authorization action)
  | changeEmail ip authorization code newEmail =>
    exact apiRoute_charges _ (changeEmail_charges ip authorization code newEmail hkey)
  | deleteAccount ip authorization code =>
    exact apiRoute_charges _ ((deleteAccount_quiet ip authorization code).charges _)
  | confirmEmailChange ip token =>
    exact apiRoute_charges _ ((confirmEmailChange_quiet ip token).charges _)
  | purge fuel =>
    simp only [handle]
    exact (quiet_bind (purge_quiet fuel) fun _ => quiet_ret _).charges _
  | setDisabled userId disabledAt =>
    exact (quiet_bind (quiet_query _) fun _ => quiet_ret _).charges _

end Bauth
