import Bauth.Codes.RandomBelow
import Bauth.Sdk.Wasted
import Bauth.Serial.Elsewhere

/-!
# `requestMagicCode` keeps the stored flow in step with bauth

When it resolves, the flow in the store is the one that bauth just counted the request on, with the
expiry bauth gave it and the verifier it was created for; the code of the email is exchanged for
tokens. When it throws, the store is left alone.
-/

namespace Bauth

open Transaction Transition

variable {app : App}

/-! ### Times of a reachable state -/

/-- No flow lasts longer than a link requested now would. -/
theorem Reachable.flows_expire (huuid : Function.Injective app.uuid) {s : Server}
    (hs : Reachable app s) : ∀ f ∈ s.db.loginFlows, f.expiresAt ≤ s.clock + codeTtl := by
  refine hs.invariant (P := fun s => ∀ f ∈ s.db.loginFlows, f.expiresAt ≤ s.clock + codeTtl)
    (fun _ => by simp) fun p hp hreach h => ?_
  have hout := hp.outcome huuid (hreach.keyed huuid)
  have hlater : ∀ f ∈ p.before.db.loginFlows, f.expiresAt ≤ p.time + codeTtl := fun f hf =>
    (h f hf).trans (Int.add_le_add_right hp.clock _)
  rw [hp.after_clock]
  have hcount : ∀ flowId, ∀ f ∈ (p.before.db.countRequest p.time flowId
      (p.time + codeTtl)).loginFlows, f.expiresAt ≤ p.time + codeTtl := by
    intro flowId f' hf'
    obtain ⟨f, hf, rfl⟩ := mem_updateWhere.mp hf'
    split_ifs
    · exact max_le (hlater f hf) le_rfl
    · exact hlater f hf
  have hother (hmay : ∀ q, p.request.may q → q ≠ .loginFlowsCreate ∧
      q ≠ .loginFlowsCountMagicLinkRequest) :
      ∀ f ∈ p.after.db.loginFlows, f.expiresAt ≤ p.time + codeTtl := by
    have hkeeps : ∃ _ : ℕ, ∀ f ∈ p.after.db.loginFlows, f.expiresAt ≤ p.time + codeTtl := by
      rw [hp.serve]
      refine serve_keeps (J := fun _ d => ∀ f ∈ d.loginFlows, f.expiresAt ≤ p.time + codeTtl)
        (fun _ _ h => h) (fun q k d d' hq hd hstep f' hf' => ?_) hlater
      rcases hstep.loginFlows.mem hf' with ⟨f, hf, hrow⟩ | hnew
      · cases hrow with
        | same => exact hd f' hf
        | complete => exact hd f hf
        | count hq' => exact absurd hq' (hmay q hq).2
      · exact absurd hnew.1 (hmay q hq).1
    exact hkeeps.choose_spec
  generalize hrequest : p.request = request at hout hother
  generalize p.after.db = d' at hout hother ⊢
  generalize p.response = response at hout
  generalize p.events = events at hout
  cases hout with
  | createFlow hcreated =>
    cases hcreated with
    | refused => exact hlater
    | created =>
      intro f hf
      rcases List.mem_append.mp hf with hf | hf
      · exact hlater f hf
      · rw [List.mem_singleton.mp hf]
        exact le_rfl
  | requestMagicLink hrequested =>
    cases hrequested with
    | refused => exact hlater
    | failed => exact hcount _
    | counted => exact hcount _
    | mailed => exact hcount _
  | _ =>
    refine hother fun q hq => ?_
    simp only [Request.may, Query.ChecksCode, Query.LogsIn] at hq <;> aesop

/-! ### The newest link -/

/-- A row later than all others is the newest. -/
lemma newest_append_singleton {ρ : Type} {createdAt : ρ → ℤ} {id : ρ → ℕ} {rows : List ρ} {r : ρ}
    (h : ∀ r' ∈ rows, createdAt r' < createdAt r) :
    newest createdAt id (rows ++ [r]) = some r := by
  induction rows with
  | nil => rfl
  | cons r' rows ih =>
    have hnewest := ih fun r'' hr'' => h r'' (List.mem_cons_of_mem _ hr'')
    simp [newest, hnewest, h r' List.mem_cons_self]

/-! ### The code of an email -/

/-- The code an email for a link or a sign-up carries. -/
def Email.magicCode : Email → Option String
  | .magicLink _ _ _ code | .magicSignup _ _ _ code => some code
  | _ => none

/-- The link `l` that was just mailed for the flow `f`, with its code. -/
structure FreshCode (app : App) (d : Database) (time : Time) (email code : String) (l : MagicLink)
    (f : LoginFlow) : Prop where
  intact : d.Intact l f
  flow : f.id = l.flowId
  newest : d.newestLink l.flowId = some l
  unused : l.consumedAt = none ∧ l.codeFailures = 0
  address : l.email = app.unicode.normalize email
  expires : l.expiresAt = time + codeTtl ∧ f.expiresAt = time + codeTtl
  pending : f.completedAt = none
  format : isWellFormed code = true
  right : app.verifyCode app.magicLinkKey l.flowId code l.codeHash = true

/-- The request was counted on a pending flow, which now lasts as long as a link. -/
structure LinkCounted (p : Served) (flowId : Uuid) (f : LoginFlow) : Prop where
  flow : f ∈ p.before.db.loginFlows
  id : f.id = flowId
  counted : { f with
    magicLinkRequests := f.magicLinkRequests + 1, expiresAt := p.time + codeTtl } ∈
      p.after.db.loginFlows
  pending : f.completedAt = none

section Served

variable {p : Served} {ip email : String} {flowId : Uuid}

/-- A link request that is accepted is counted; what it mails is the code of the flow's newest
link. -/
lemma accepted_counted (huuid : Function.Injective app.uuid) (hp : p.Of app)
    (hreach : Reachable app p.before) (hrequest : p.request = .requestMagicLink ip flowId email)
    {sent : MagicLink.MagicLinkResponse} (hanswer : p.response = .ok (.magicLinkSent sent)) :
    sent.expiresAt = p.time + codeTtl ∧ ∃ f, LinkCounted p flowId f ∧
      ((∀ l ∈ p.before.db.magicLinks, l.flowId = flowId → l.createdAt < p.time) →
        ∀ mail, .sent mail ∈ p.events → ∀ code, mail.magicCode = some code → ∃ l, l.flowId = flowId ∧
          FreshCode app p.after.db p.time email code l { f with
            magicLinkRequests := f.magicLinkRequests + 1, expiresAt := p.time + codeTtl }) := by
  have hkeyed := hreach.keyed huuid
  have hexpire : ∀ f ∈ p.before.db.loginFlows, max f.expiresAt (p.time + codeTtl) =
      p.time + codeTtl := fun f hf =>
    max_eq_right ((hreach.flows_expire huuid f hf).trans (Int.add_le_add_right hp.clock _))
  have hcounted : ∀ f, p.before.db.countable flowId p.time f →
      { f with magicLinkRequests := f.magicLinkRequests + 1, expiresAt := p.time + codeTtl } ∈
        (p.before.db.countRequest p.time flowId (p.time + codeTtl)).loginFlows := by
    rintro f ⟨hf, hid, hpending, hcount⟩
    have hmem : { f with
        magicLinkRequests := f.magicLinkRequests + 1
        expiresAt := max f.expiresAt (p.time + codeTtl) } ∈
          (p.before.db.countRequest p.time flowId (p.time + codeTtl)).loginFlows := by
      refine mem_updateWhere_of (f := fun f : LoginFlow => { f with
        magicLinkRequests := f.magicLinkRequests + 1
        expiresAt := max f.expiresAt (p.time + codeTtl) }) hf ?_
      simp [hid, hpending, hcount]
    rw [hexpire f hf] at hmem
    exact hmem
  have hunfinished : ∀ f, p.before.db.countable flowId p.time f → f.completedAt = none := by
    rintro f ⟨-, -, hpending, -⟩
    simp only [LoginFlow.pending, Bool.and_eq_true, Option.isNone_iff_eq_none] at hpending
    exact hpending.1
  have hout := hp.outcome huuid hkeyed
  rw [hrequest, hanswer] at hout
  generalize hresponse : (.ok (.magicLinkSent sent) : Response) = response at hout
  generalize hafter : p.after.db = d' at hout ⊢
  generalize hevents : p.events = events at hout ⊢
  cases hout with
  | requestMagicLink hrequested =>
    cases hrequested with
    | refused => cases hresponse
    | failed => cases hresponse
    | @counted f hf =>
      cases hresponse
      refine ⟨hexpire f hf.1, f, ⟨hf.1, hf.2.1, ?_, hunfinished f hf⟩, fun _ mail hmail => ?_⟩
      · rw [hafter]
        exact hcounted f hf
      · cases hmail
    | @mailed f client userId hf hclient huser i j n hnew =>
      cases hresponse
      refine ⟨hexpire f hf.1, f, ⟨hf.1, hf.2.1, ?_, hunfinished f hf⟩,
        fun hlater mail hmail code hcode => ?_⟩
      · rw [hafter]
        exact hcounted f hf
      · obtain rfl : mail = linkMail client userId _ _ _ :=
          Event.sent.inj (List.mem_singleton.mp hmail)
        have hplain : code = app.plainCode ⟨p.before.served, n⟩ := by
          cases userId <;> exact (Option.some.inj hcode).symm
        refine ⟨newLink app p.before.served p.time flowId userId email p.time i j n, rfl, ⟨⟨?_,
          hcounted f hf, ?_⟩, hf.2.1, ?_, ⟨rfl, rfl⟩, rfl, ⟨rfl, rfl⟩, hunfinished f hf, ?_, ?_⟩⟩
        · exact List.mem_append_right _ (List.mem_singleton_self _)
        · cases huser with
          | @account u hu henabled =>
            have hemail : u.email = app.unicode.normalize email := by
              simpa using List.find?_some hu
            exact ⟨u, List.mem_of_find?_eq_some hu, rfl, hemail, henabled⟩
          | signUp hfree =>
            intro u hu hemail
            have hne : u.email ≠ app.unicode.normalize email := by
              simpa using List.find?_eq_none.mp hfree u hu
            exact absurd hemail hne
        · simp only [Database.newestLink, List.filter_append]
          rw [List.filter_cons_of_pos (by simp [newLink]), List.filter_nil]
          refine newest_append_singleton fun l hl => ?_
          obtain ⟨hl, hflow⟩ := List.mem_filter.mp hl
          exact hlater l hl (of_decide_eq_true hflow)
        · rw [hplain]
          exact isWellFormed_sixDigits _
        · rw [hplain]
          simp [App.verifyCode, newLink, App.codeHash]

end Served

section Submitted

variable {s : Server} {l : MagicLink} {f : LoginFlow} {sentAt time : Time} {email code ip : String}
  {reply : (q : Question) → Reply q}

/-- The code of an email is accepted before it expires, within the budget of the address. -/
lemma code_accepted (huuid : Function.Injective app.uuid)
    (hsecret : Function.Injective app.secret) (hsha : Function.Injective app.sha256)
    (hlower : ∀ c, app.unicode.lower (app.unicode.lower c) = app.unicode.lower c)
    (hspace : ∀ c, app.unicode.lower c = ' ' → c = ' ') (hs : Reachable app s)
    (h : FreshCode app s.db sentAt email code l f) (htime : time < sentAt + codeTtl)
    (hbudget : s.db.linkFailures (app.unicode.normalize email) (time - days 1) < maxFailuresPerDay)
    (hlimit : reply (.limit .tokenPerIp ip) = none) :
    ∃ response, (serve app time reply (.confirmMagicCode ip l.flowId code) s).response =
      .ok (.loggedIn response) := by
  have hcandidate : s.db.Candidate l.flowId time l := by
    refine ⟨h.newest, ?_, ?_, ?_⟩
    · simp [MagicLink.usable, h.unused.1, h.expires.1, htime]
    · rw [h.unused.2]
      decide
    · rw [h.address]
      exact hbudget
  have hcodes := hs.no_code huuid hsecret hsha h.intact.flow h.pending
  rw [h.flow] at hcodes
  have hconfirmed : Handler.wp ⟨time, time, reply⟩ s.served
      (MagicLink.confirmCode app ip l.flowId code) ⟨s.db, none, []⟩ _ :=
    confirmCode_completes (hs.keyed huuid).uniqueIds (hs.freshUsers huuid) h.intact h.flow
      hcandidate h.format h.right (by simp [LoginFlow.pending, h.pending, h.expires.2, htime])
      (hs.link_normalized huuid hlower hspace h.intact.link) hcodes hlimit
  refine serve_wp (Q := fun response _ _ => ∃ r, response = .ok (.loggedIn r)) ?_
  refine (wp_apiRoute _ _).mpr (hconfirmed.mono fun a c hc => ?_)
  obtain ⟨response, rfl⟩ := hc
  exact ⟨response, rfl⟩

/-- A code that is accepted logged in on its flow. -/
lemma confirmed_code (huuid : Function.Injective app.uuid) {p : Served} (hp : p.Of app)
    (hreach : Reachable app p.before) {flowId : Uuid}
    (hrequest : p.request = .confirmMagicCode ip flowId code) {response : Login.LoginResponse}
    (hresponse : p.response = .ok (.loggedIn response)) :
    ∃ l : MagicLink, LoggedIn app ⟨p.time, p.time, p.reply⟩ p.before.served flowId l.userId l.email
      (p.before.db.consumeLinkById p.time l.id) response p.after.db := by
  have hout := hp.outcome huuid (hreach.keyed huuid)
  rw [hrequest, hresponse] at hout
  generalize hafter : p.after.db = d' at hout ⊢
  generalize hanswer : (.ok (.loggedIn response) : Response) = answer at hout
  cases hout with
  | confirmMagicCode h =>
    cases h with
    | refused => cases hanswer
    | wrong => cases hanswer
    | @loggedIn l _ _ hl hright hlogin =>
      cases hanswer
      exact ⟨l, hlogin⟩

end Submitted

namespace Sdk.Flow

variable {b : Browser} {net : Net} {w : World}

/-! ### The stored flow and bauth -/

/-- The flow in the store is the one that bauth counted the request `p` on, as bauth has it now:
pending, with the stored expiry, and created for the stored verifier. -/
structure World.InStep (app : App) (b : Browser) (email : String) (w : World)
    (pending : PendingMagicCode) (p : Served) (f : Bauth.LoginFlow) : Prop where
  store : w.store = some pending
  address : pending.email = email
  reachable : Reachable app p.before
  served : p.Of app
  request : p.request = .requestMagicLink b.clientIp pending.flowId email
  answer : p.response = .ok (.magicLinkSent { expiresAt := pending.expiresAt })
  after : p.after = w.server
  now : p.time = w.clock
  flow : f ∈ p.before.db.loginFlows
  id : f.id = pending.flowId
  counted : { f with
    magicLinkRequests := f.magicLinkRequests + 1, expiresAt := pending.expiresAt } ∈
      w.server.db.loginFlows
  unfinished : f.completedAt = none
  expires : w.clock < pending.expiresAt
  challenge : f.codeChallenge = app.challengeOf pending.codeVerifier
  began : b.Began app w.server pending.flowId pending.codeVerifier

section InStep

variable (huuid : Function.Injective app.uuid)
include huuid

/-- A link request that resolves was accepted by bauth, and nothing was served since. -/
lemma requestMagicLink_accepted (hw : w.Sound app) (flowId : Uuid) (email : String) :
    (requestMagicLink b flowId email).wp (answer app b net) w fun r w' => w.Goes app b w' ∧
      ∀ expiresAt, r = .ok expiresAt → ∃ p : Served, p.Of app ∧ Reachable app p.before ∧
        p.request = .requestMagicLink b.clientIp flowId email ∧ p.response =
          .ok (.magicLinkSent { expiresAt }) ∧ p.after = w'.server ∧ p.time = w'.clock := by
  refine Async.wp_bind.mpr (wp_call huuid hw fun r server hsound hbegan hanswer => ?_)
  have hgoes : w.Goes app b (w.called net server) := ⟨hsound, rfl, hbegan⟩
  refine ⟨fun body hbody => ?_, fun e _ => ⟨hgoes, by simp⟩⟩
  obtain ⟨rfl, hresponse⟩ := hanswer body hbody
  cases body with
  | magicLinkSent sent =>
    refine ⟨hgoes, ?_⟩
    rintro _ ⟨⟩
    exact ⟨w.serve app net _, World.serve_of hw _, hw.reachable, rfl, hresponse, rfl, rfl⟩
  | _ => exact ⟨hgoes, fun _ h => by cases h⟩

/-- The store is in step with bauth once the flow of an accepted request is written to it. -/
lemma World.InStep.of_accepted {p : Served} (pending : PendingMagicCode) (hp : p.Of app)
    (hreach : Reachable app p.before)
    (hrequest : p.request = .requestMagicLink b.clientIp pending.flowId pending.email)
    (hanswer : p.response = .ok (.magicLinkSent { expiresAt := pending.expiresAt }))
    (hafter : p.after = w.server) (hnow : p.time = w.clock) (hstore : w.store = some pending)
    (hbegan : b.Began app w.server pending.flowId pending.codeVerifier) :
    ∃ f, w.InStep app b pending.email pending p f := by
  obtain ⟨hexpires, f, hf, -⟩ := accepted_counted huuid hp hreach hrequest hanswer
  have hlast : pending.expiresAt = p.time + codeTtl := hexpires
  have hcounted := hf.counted
  rw [hafter, ← hlast] at hcounted
  refine ⟨f, hstore, rfl, hreach, hp, hrequest, hanswer, hafter, hnow, hf.flow, hf.id,
    hcounted, hf.pending, ?_, (hbegan.flow _ hcounted hf.id).2.2, hbegan⟩
  rw [hlast, ← hnow]
  exact Int.lt_add_of_pos_right _ (by decide)

lemma requestOnNewFlow_inStep (hw : w.Kept app b) (email : String) :
    (requestOnNewFlow app b email).wp (answer app b net) w fun r w' =>
      (∀ e, r = .error e → w'.store = w.store) ∧
        (r = .ok () → ∃ pending p f, w'.InStep app b email pending p f) := by
  refine Async.wp_bind.mpr ((startLogin_goes huuid hw.sound none).mono fun r w₁ h₁ => ?_)
  refine ⟨fun flow hflow => ?_, fun _ _ => ⟨fun _ _ => h₁.1.store, by simp⟩⟩
  have hbegan := h₁.2 flow hflow
  refine Async.wp_bind.mpr ((requestMagicLink_accepted huuid h₁.1.sound flow.flowId
    email).mono fun r w₂ h₂ => ?_)
  refine ⟨fun expiresAt hexpires => ⟨fun _ h => (by cases h), fun _ => ?_⟩,
    fun _ _ => ⟨fun _ _ => (h₁.1.trans h₂.1).store, by simp⟩⟩
  obtain ⟨p, hp, hreach, hrequest, hanswer, hafter, hnow⟩ := h₂.2 expiresAt hexpires
  obtain ⟨f, hf⟩ := World.InStep.of_accepted (w := { w₂ with store := some {
    flowId := flow.flowId, codeVerifier := flow.codeVerifier, email, expiresAt } }) huuid _ hp
    hreach hrequest hanswer hafter hnow rfl (h₂.1.began _ _ hbegan)
  exact ⟨_, p, f, hf⟩

lemma requestMagicCode_steps (hw : w.Kept app b) (email : String) :
    (requestMagicCode app b email).wp (answer app b net) w fun r w' =>
      (∀ e, r = .error e → w'.store = w.store) ∧
        (r = .ok () → ∃ pending p f, w'.InStep app b email pending p f) := by
  refine Async.wp_bind.mpr ((liveFlow_reads email).mono fun r w' h => ?_)
  obtain ⟨rfl, hread⟩ := h
  refine ⟨fun pending hpending => ?_, fun _ _ => ⟨fun _ _ => rfl, by simp⟩⟩
  cases pending with
  | none => exact requestOnNewFlow_inStep huuid hw email
  | some pending =>
    obtain ⟨hstore, rfl⟩ := hread pending hpending
    have hbegan := hw.store pending hstore
    refine Async.wp_catching.mpr (Async.wp.mono (Q := fun r w₁ =>
      (∀ e, r = .error e → w'.Goes app b w₁) ∧
        (r = .ok () → ∃ pending' p f, w₁.InStep app b pending.email pending' p f)) ?_ ?_)
    · refine Async.wp_bind.mpr ((requestMagicLink_accepted huuid hw.sound pending.flowId
        pending.email).mono fun r w₁ h₁ => ?_)
      refine ⟨fun expiresAt hexpires => ⟨fun _ h => (by cases h), fun _ => ?_⟩,
        fun _ _ => ⟨fun _ _ => h₁.1, by simp⟩⟩
      obtain ⟨p, hp, hreach, hrequest, hanswer, hafter, hnow⟩ := h₁.2 expiresAt hexpires
      let w₂ : World := { w₁ with store := some { pending with expiresAt } }
      have hstep : ∃ f, w₂.InStep app b pending.email { pending with expiresAt } p f :=
        World.InStep.of_accepted huuid { pending with expiresAt } hp hreach hrequest hanswer hafter
          hnow rfl (h₁.1.began _ _ hbegan)
      obtain ⟨f, hf⟩ := hstep
      exact ⟨_, p, f, hf⟩
    · refine fun r w₁ h₁ => ⟨fun _ hok => ⟨fun _ h => (by cases h), fun _ => h₁.2 hok⟩,
        fun e he => ?_⟩
      have hgoes := h₁.1 e he
      split_ifs
      · refine (requestOnNewFlow_inStep huuid (hgoes.kept hw) pending.email).mono
          fun r w₂ h₂ => ⟨fun e he => (h₂.1 e he).trans hgoes.store, h₂.2⟩
      · exact ⟨fun _ _ => hgoes.store, fun h => by cases h⟩

end InStep

/-! ### The code is submitted -/

/-- What `submitMagicCode` does with a store, when nothing fails. -/
lemma submitMagicCode_run {typed : String} {pending : PendingMagicCode}
    (hstore : w.store = some pending) (hfault : net.fault w.calls = none) :
    (submitMagicCode b typed).runWith (answer app b net) w =
      let p := w.serve app net (.confirmMagicCode b.clientIp pending.flowId
        (String.ofList (typed.toList.filter Char.isDigit)))
      let w₁ := w.called net p.after
      match p.response with
      | .ok (.loggedIn response) =>
        Async.runWith (answer app b net) (do
          let tokens ← exchangeCode b response.code pending.codeVerifier
          writeStore none
          return tokens) w₁
      | .ok _ => (.error (.bauth "unexpected_response"), w₁)
      | .error e => (.error (Failure.toError e), w₁) := by
  have hread : readStore.runWith (answer app b net) w = (.ok (some pending), w) := by
    rw [← hstore]
    rfl
  have hcall (request : Request) : (call request).runWith (answer app b net) w =
      ((w.serve app net request).response.mapError Failure.toError,
        w.called net (w.serve app net request).after) := by
    refine (Async.runWith_perform (A := awaits) (Op.call _)).trans ?_
    simp only [answer, hfault]
    rfl
  simp only [submitMagicCode, Async.runWith_bind, hread, confirmMagicCode, hcall]
  generalize w.serve app net _ = p
  cases p.response with
  | error e => rfl
  | ok body => cases body <;> rfl

/-- Nothing is in the way of submitting a code: no request is lost, the limiter of the browser's
address and the budget of the email address let it pass, it arrives before the stored expiry and
is exchanged within a minute, and bauth has a key to sign with. -/
structure Net.Clear (app : App) (b : Browser) (net : Net) (w : World)
    (pending : PendingMagicCode) : Prop where
  fault : net.fault w.calls = none ∧ net.fault (w.calls + 1) = none
  limit : net.reply w.calls (.limit .tokenPerIp b.clientIp) = none
  budget : w.server.db.linkFailures (app.unicode.normalize pending.email)
    (w.next net - days 1) < maxFailuresPerDay
  time : w.next net < pending.expiresAt
  delay : (net.delay (w.calls + 1) : ℤ) < seconds 60
  key : ((net.reply (w.calls + 1) .signingKeys : SigningKeys).signingKey
    (w.next net + net.delay (w.calls + 1))).isSome = true

/-- The code of the email that was just sent is submitted for tokens. -/
lemma submitMagicCode_tokens (huuid : Function.Injective app.uuid)
    (hsecret : Function.Injective app.secret) (hsha : Function.Injective app.sha256)
    (hlower : ∀ c, app.unicode.lower (app.unicode.lower c) = app.unicode.lower c)
    (hspace : ∀ c, app.unicode.lower c = ' ' → c = ' ') {email : String}
    {pending : PendingMagicCode} {p : Served} {f : Bauth.LoginFlow}
    (hstep : w.InStep app b email pending p f)
    (hlater : ∀ l ∈ p.before.db.magicLinks, l.flowId = pending.flowId → l.createdAt < p.time)
    {mail : Email} (hmail : .sent mail ∈ p.events) {typed : String}
    (hcode : mail.magicCode = some (String.ofList (typed.toList.filter Char.isDigit)))
    (hclear : net.Clear app b w pending) :
    ∃ tokens, ((submitMagicCode b typed).runWith (answer app b net) w).1 = .ok tokens := by
  have hreach : Reachable app w.server := hstep.after ▸ hstep.reachable.run hstep.served.run
  have hrequest := hstep.request
  rw [← hstep.address] at hrequest
  obtain ⟨hexpires, f', hf', hfresh⟩ := accepted_counted huuid hstep.served hstep.reachable hrequest
    hstep.answer
  obtain ⟨l, hl, hcode⟩ := hfresh hlater mail hmail _ hcode
  rw [hstep.after] at hcode
  have hlast : pending.expiresAt = p.time + codeTtl := hexpires
  obtain ⟨response, hresponse⟩ := code_accepted huuid hsecret hsha hlower hspace hreach hcode
    (hlast ▸ hclear.time) hclear.budget hclear.limit
  rw [hl] at hresponse
  have hsound : w.Sound app := by
    refine ⟨hreach, ?_⟩
    rw [← hstep.after, hstep.served.after_clock, hstep.now]
  have hq : (w.serve app net (.confirmMagicCode b.clientIp pending.flowId
      (String.ofList (typed.toList.filter Char.isDigit)))).Of app := World.serve_of hsound _
  obtain ⟨l', hlogin⟩ := confirmed_code huuid hq hreach rfl hresponse
  obtain ⟨g, hg, hid, hanswers⟩ := hlogin.answers
      (d := w.server.db.consumeLinkById (w.next net) l'.id) huuid hsecret hsha hq hreach rfl {
      grantType := "authorization_code", clientId := b.clientId, code := some response.code
      redirectUri := some b.redirectUri, codeVerifier := some pending.codeVerifier }
    (w.next net + net.delay (w.calls + 1)) (net.reply (w.calls + 1)) rfl rfl rfl rfl
    (Int.add_lt_add_left hclear.delay _) hclear.key
  have hopens := hstep.began.opens hg hid
  rw [submitMagicCode_run hstep.store hclear.fault.1]
  simp only [World.serve, hresponse]
  rw [exchangeCode_run hclear.fault.2]
  exact hanswers.mpr ⟨hopens.registered, hopens.client, hopens.redirect, hopens.verifier⟩

/-- After any history: a `requestMagicCode` that throws leaves the store as it was. One that
resolves leaves it in step with bauth, and the code of the email it made bauth send, submitted next,
is exchanged for tokens, unless the flow had another email at that instant. -/
theorem requestMagicCode_inStep (huuid : Function.Injective app.uuid)
    (hsecret : Function.Injective app.secret) (hsha : Function.Injective app.sha256)
    (hlower : ∀ c, app.unicode.lower (app.unicode.lower c) = app.unicode.lower c)
    (hspace : ∀ c, app.unicode.lower c = ' ' → c = ' ') (hw : History app b w) (email : String) :
    (∀ e, ((requestMagicCode app b email).runWith (answer app b net) w).1 = .error e →
        ((requestMagicCode app b email).runWith (answer app b net) w).2.store = w.store) ∧
      (((requestMagicCode app b email).runWith (answer app b net) w).1 = .ok () →
        ∃ pending p f, ((requestMagicCode app b email).runWith (answer app b net) w).2.InStep app b
            email pending p f ∧
          ∀ mail, .sent mail ∈ p.events →
            (∀ l ∈ p.before.db.magicLinks, l.flowId = pending.flowId → l.createdAt < p.time) →
            ∀ (typed : String) (net' : Net),
            mail.magicCode = some (String.ofList (typed.toList.filter Char.isDigit)) →
            net'.Clear app b ((requestMagicCode app b email).runWith (answer app b net) w).2
              pending →
            ∃ tokens, ((submitMagicCode b typed).runWith (answer app b net')
              ((requestMagicCode app b email).runWith (answer app b net) w).2).1 = .ok tokens) := by
  have hsteps : (requestMagicCode app b email).wp (answer app b net) w _ :=
    requestMagicCode_steps huuid (hw.kept huuid) email
  obtain ⟨hthrown, hresolved⟩ := hsteps
  refine ⟨hthrown, fun hok => ?_⟩
  obtain ⟨pending, p, f, hstep⟩ := hresolved hok
  exact ⟨pending, p, f, hstep, fun mail hmail hlater typed net' hcode hclear =>
    submitMagicCode_tokens huuid hsecret hsha hlower hspace hstep hlater hmail hcode hclear⟩

/-- A code was asked for, and asked for again. -/
def askedTwice : World := requested exampleApp (requested exampleApp .empty "bob@x.fr") "bob@x.fr"

/-- The check of a flow: nothing is in the way of submitting its code. -/
def clearToSubmit (pending : PendingMagicCode) : Bool :=
  decide (askedTwice.server.db.linkFailures (exampleApp.unicode.normalize pending.email)
    (askedTwice.next exampleNet - days 1) < maxFailuresPerDay) &&
      decide (askedTwice.next exampleNet < pending.expiresAt)

/-- The code is asked for again, and what the second email carries is submitted for tokens. -/
theorem requestMagicCode_inStep_bob :
    ((submitMagicCode exampleBrowser "000 024").runWith
      (answer exampleApp exampleBrowser exampleNet) askedTwice).1.toBool = true ∧
    ∃ pending p f, askedTwice.InStep exampleApp exampleBrowser "bob@x.fr" pending p f ∧
      ∀ mail, .sent mail ∈ p.events →
        (∀ l ∈ p.before.db.magicLinks, l.flowId = pending.flowId → l.createdAt < p.time) →
        ∀ typed : String,
        mail.magicCode = some (String.ofList (typed.toList.filter Char.isDigit)) →
        ∃ tokens, ((submitMagicCode exampleBrowser typed).runWith
          (answer exampleApp exampleBrowser exampleNet) askedTwice).1 = .ok tokens := by
  have hok : ((requestMagicCode exampleApp exampleBrowser "bob@x.fr").runWith
      (answer exampleApp exampleBrowser exampleNet) (requested exampleApp .empty "bob@x.fr")).1 =
        .ok () := by
    decide +kernel
  have hclear : (askedTwice.store.any clearToSubmit) = true := by decide +kernel
  obtain ⟨pending', hstore, hclear⟩ := (Option.any_eq_true _ _).mp hclear
  simp only [clearToSubmit, Bool.and_eq_true, decide_eq_true_eq] at hclear
  obtain ⟨pending, p, f, hstep, htokens⟩ := (@requestMagicCode_inStep exampleApp exampleBrowser
    exampleNet (requested exampleApp .empty "bob@x.fr") exampleApp_uuid_injective
    exampleApp_secret_injective exampleApp_sha256_injective exampleApp_lower_lower
    exampleApp_lower_eq_space (.requestMagicCode (.start 0) exampleNet "bob@x.fr") "bob@x.fr").2 hok
  refine ⟨by decide +kernel, pending, p, f, hstep, fun mail hmail hlater typed hcode => ?_⟩
  obtain rfl := Option.some.inj (hstore.symm.trans hstep.store)
  exact htokens mail hmail hlater typed exampleNet hcode
    ⟨⟨rfl, rfl⟩, rfl, hclear.1, hclear.2, by decide, by decide +kernel⟩

end Sdk.Flow

end Bauth
