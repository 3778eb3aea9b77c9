import Bauth.Codes.Base64
import Bauth.Sdk.Flow
import Bauth.Serial.Login
import Bauth.Serial.Script

/-!
# A confirmed link is exchanged if it belongs to the stored flow

The store keeps the verifier of one flow, but `submitMagicLink` confirms the link it is given
whatever flow the link is of.
-/

namespace Bauth

open Transaction Transition

namespace Sdk.Flow

variable {app : App} {b : Browser} {net : Net} {w : World}

/-! ### Flows of the browser -/

/-- The browser began the flow, with this verifier. -/
structure Browser.Began (app : App) (b : Browser) (s : Server) (flowId : Uuid)
    (codeVerifier : String) : Prop where
  registered : (app.client b.clientId).isSome = true
  drawn : Drawn app s.served 0 flowId
  flow : ∀ f ∈ s.db.loginFlows, f.id = flowId → f.clientId = b.clientId ∧
    f.redirectUri = b.redirectUri ∧ f.codeChallenge = app.challengeOf codeVerifier
  verifier : isValidVerifier codeVerifier = true

/-- The verifier in the store opens the flow for the browser. -/
structure Browser.Opens (app : App) (b : Browser) (pending : PendingMagicCode)
    (f : Bauth.LoginFlow) : Prop where
  registered : (app.client b.clientId).isSome = true
  client : f.clientId = b.clientId
  redirect : f.redirectUri = b.redirectUri
  verifier : app.pkceVerify pending.codeVerifier f.codeChallenge = true

lemma Browser.Began.opens {s : Server} {pending : PendingMagicCode} {f : Bauth.LoginFlow}
    (h : b.Began app s pending.flowId pending.codeVerifier) (hf : f ∈ s.db.loginFlows)
    (hid : f.id = pending.flowId) : b.Opens app pending f := by
  obtain ⟨hclient, hredirect, hchallenge⟩ := h.flow f hf hid
  refine ⟨h.registered, hclient, hredirect, ?_⟩
  simp [App.pkceVerify, h.verifier, hchallenge]

/-- What is served leaves the flows of the browser as they are. -/
lemma Browser.Began.serve (huuid : Function.Injective app.uuid) {s : Server} {flowId : Uuid}
    {codeVerifier : String} (h : b.Began app s flowId codeVerifier) (time : Time)
    (reply : (q : Question) → Reply q) (request : Request) :
    b.Began app (Bauth.serve app time reply request s).after flowId codeVerifier := by
  have hkeeps : ∃ k, Drawn app s.served k flowId ∧
      ∀ f ∈ (Bauth.serve app time reply request s).after.db.loginFlows, f.id = flowId →
        f.clientId = b.clientId ∧ f.redirectUri = b.redirectUri ∧
          f.codeChallenge = app.challengeOf codeVerifier := by
    refine serve_keeps (J := fun k d => Drawn app s.served k flowId ∧ ∀ f ∈ d.loginFlows,
      f.id = flowId → f.clientId = b.clientId ∧ f.redirectUri = b.redirectUri ∧
        f.codeChallenge = app.challengeOf codeVerifier) (fun k d hd => ⟨hd.1.succ, hd.2⟩)
      (fun q k d d' _ hd hstep => ⟨hd.1.succ, fun f hf hid => ?_⟩) ⟨h.drawn, h.flow⟩
    rcases hstep.loginFlows.mem hf with ⟨f₀, hf₀, hrow⟩ | ⟨-, hnew, -⟩
    · cases hrow with
      | same => exact hd.2 f hf₀ hid
      | complete => exact hd.2 f₀ hf₀ hid
      | count => exact hd.2 f₀ hf₀ hid
    · rw [hid] at hnew
      exact absurd (hnew ▸ hd.1) (not_drawn huuid le_rfl)
  obtain ⟨k, hdrawn, hflow⟩ := hkeeps
  exact ⟨h.registered, hdrawn.next, hflow, h.verifier⟩

/-- A flow that bauth answers was begun. -/
lemma began_of_createFlow (huuid : Function.Injective app.uuid) {s : Server}
    (hs : Reachable app s) {time : Time} {reply : (q : Question) → Reply q}
    {input : Login.CreateFlowRequest} {flow : Login.FlowResponse} {codeVerifier : String}
    (hclient : input.clientId = b.clientId) (hredirect : input.redirectUri = b.redirectUri)
    (hchallenge : input.codeChallenge = app.challengeOf codeVerifier)
    (hverifier : isValidVerifier codeVerifier = true)
    (hanswer : (serve app time reply (.createFlow input) s).response = .ok (.flow flow)) :
    b.Began app (serve app time reply (.createFlow input) s).after flow.flowId codeVerifier := by
  have hkeyed := hs.keyed huuid
  have hout := serve_outcome huuid hkeyed time reply (.createFlow input)
  have hserved : (serve app time reply (.createFlow input) s).after.served = s.served + 1 := rfl
  rw [hanswer] at hout
  generalize (serve app time reply (.createFlow input) s).after = s' at hout hserved ⊢
  obtain ⟨db, served, clock⟩ := s'
  obtain rfl : served = s.served + 1 := hserved
  generalize hresponse : (.ok (.flow flow) : Response) = response at hout
  dsimp only at hout
  cases hout with
  | createFlow h =>
    cases h with
    | refused => cases hresponse
    | created hc hredirects i =>
      cases hresponse
      refine ⟨?_, ⟨⟨s.served, i⟩, rfl, by simp⟩, fun f hf hid => ?_, hverifier⟩
      · rw [← hclient, hc]
        rfl
      · rcases List.mem_append.mp hf with hf | hf
        · have hdrawn := hkeyed.loginFlows.drawn _ (List.mem_map_of_mem hf)
          rw [hid] at hdrawn
          exact absurd hdrawn (not_drawn huuid (Nat.zero_le i))
        · obtain rfl := List.mem_singleton.mp hf
          exact ⟨(App.client_id hc).trans hclient, hredirect, hchallenge⟩

/-! ### What a call keeps -/

/-- bauth is in a reachable state, and no time went back. -/
structure World.Sound (app : App) (w : World) : Prop where
  reachable : Reachable app w.server
  clock : w.server.clock ≤ w.clock

/-- The stored flow is one that the browser began. -/
structure World.Kept (app : App) (b : Browser) (w : World) : Prop where
  sound : w.Sound app
  store : ∀ p ∈ w.store, b.Began app w.server p.flowId p.codeVerifier

lemma World.clock_le_next : w.clock ≤ w.next net := by
  have h : (0 : ℤ) ≤ net.delay w.calls := Int.natCast_nonneg _
  exact le_add_of_nonneg_right h

lemma World.serve_of (hw : w.Sound app) (request : Request) :
    (w.serve app net request).Of app :=
  ⟨rfl, hw.clock.trans World.clock_le_next⟩

/-- Whatever becomes of a request, bauth is sound and the flows of the browser stay. What is
answered was served. -/
lemma wp_call (huuid : Function.Injective app.uuid) (hw : w.Sound app) {request : Request}
    {Q : Except Error Body → World → Prop}
    (h : ∀ r server, (w.called net server).Sound app →
      (∀ id v, b.Began app w.server id v → b.Began app server id v) →
      (∀ body, r = .ok body → server = (w.serve app net request).after ∧
        (w.serve app net request).response = .ok body) → Q r (w.called net server)) :
    (call request).wp (answer app b net) w Q := by
  have hserved : (w.called net (w.serve app net request).after).Sound app :=
    ⟨hw.reachable.run (World.serve_of hw request).run, le_rfl⟩
  have hbegan : ∀ id v, b.Began app w.server id v →
      b.Began app (w.serve app net request).after id v :=
    fun id v hv => hv.serve huuid _ _ _
  refine (Async.wp_perform (A := awaits) (Op.call request)).mpr ?_
  cases hfault : net.fault w.calls with
  | none =>
    simp only [answer, hfault]
    refine h _ _ hserved hbegan fun body hbody => ⟨rfl, ?_⟩
    cases hresponse : (w.serve app net request).response with
    | ok body' =>
      rw [hresponse] at hbody
      exact congrArg Except.ok (Except.ok.inj hbody)
    | error e =>
      rw [hresponse] at hbody
      cases hbody
  | some fault =>
    cases fault with
    | request =>
      simp only [answer, hfault]
      exact h _ _ ⟨hw.reachable, hw.clock.trans World.clock_le_next⟩ (fun _ _ hv => hv) nofun
    | response =>
      simp only [answer, hfault]
      exact h _ _ hserved hbegan nofun

/-- From `w` to `w'` nothing was written to the store, and no flow of the browser was lost. -/
structure World.Goes (app : App) (b : Browser) (w w' : World) : Prop where
  sound : w'.Sound app
  store : w'.store = w.store
  began : ∀ id v, b.Began app w.server id v → b.Began app w'.server id v

lemma World.Goes.refl (hw : w.Sound app) : w.Goes app b w := ⟨hw, rfl, fun _ _ h => h⟩

lemma World.Goes.trans {w' w'' : World} (h : w.Goes app b w') (h' : w'.Goes app b w'') :
    w.Goes app b w'' :=
  ⟨h'.sound, h'.store.trans h.store, fun id v hv => h'.began id v (h.began id v hv)⟩

lemma World.Goes.kept {w' : World} (h : w.Goes app b w') (hw : w.Kept app b) : w'.Kept app b :=
  ⟨h.sound, fun p hp => h.began _ _ (hw.store p (h.store ▸ hp))⟩

section Keeps

variable (huuid : Function.Injective app.uuid)
include huuid

lemma call_goes (hw : w.Sound app) (request : Request) :
    (call request).wp (answer app b net) w fun _ w' => w.Goes app b w' :=
  wp_call huuid hw fun _ _ hsound hbegan _ => ⟨hsound, rfl, hbegan⟩

lemma exchangeCode_goes (hw : w.Sound app) (code codeVerifier : String) :
    (exchangeCode b code codeVerifier).wp (answer app b net) w fun _ w' => w.Goes app b w' := by
  refine Async.wp_bind.mpr ((call_goes huuid hw _).mono fun r w' h => ⟨fun body _ => ?_, fun _ _ => h⟩)
  cases body <;> exact h

lemma requestMagicLink_goes (hw : w.Sound app) (flowId : Uuid) (email : String) :
    (requestMagicLink b flowId email).wp (answer app b net) w fun _ w' => w.Goes app b w' := by
  refine Async.wp_bind.mpr ((call_goes huuid hw _).mono fun r w' h => ⟨fun body _ => ?_, fun _ _ => h⟩)
  cases body <;> exact h

lemma confirmMagicLink_goes (hw : w.Sound app) (token : String) :
    (confirmMagicLink b token).wp (answer app b net) w fun _ w' => w.Goes app b w' := by
  refine Async.wp_bind.mpr ((call_goes huuid hw _).mono fun r w' h => ⟨fun body _ => ?_, fun _ _ => h⟩)
  cases body <;> exact h

lemma confirmMagicCode_goes (hw : w.Sound app) (flowId : Uuid) (code : String) :
    (confirmMagicCode b flowId code).wp (answer app b net) w fun _ w' => w.Goes app b w' := by
  refine Async.wp_bind.mpr ((call_goes huuid hw _).mono fun r w' h => ⟨fun body _ => ?_, fun _ _ => h⟩)
  cases body <;> exact h

lemma startLogin_goes (hw : w.Sound app) (state : Option String) :
    (startLogin app b state).wp (answer app b net) w fun r w' => w.Goes app b w' ∧
      ∀ flow, r = .ok flow → b.Began app w'.server flow.flowId flow.codeVerifier := by
  let w₁ : World := { w with drawn := w.drawn + 1 }
  have hw₁ : w₁.Sound app := ⟨hw.reachable, hw.clock⟩
  have hverifier := isValidVerifier_base64Url (b.random_length w.drawn)
  refine Async.wp_bind.mpr ⟨?_, nofun⟩
  rintro codeVerifier hcode
  obtain rfl : String.ofList (base64Url (b.random w.drawn)) = codeVerifier := Except.ok.inj hcode
  refine Async.wp_bind.mpr (wp_call (w := w₁) huuid hw₁ fun r server hsound hbegan hanswer => ?_)
  have hgoes : w.Goes app b (w₁.called net server) := ⟨hsound, rfl, hbegan⟩
  refine ⟨fun body hbody => ?_, fun e _ => ⟨hgoes, nofun⟩⟩
  obtain ⟨rfl, hresponse⟩ := hanswer body hbody
  cases body with
  | flow flow =>
    refine ⟨hgoes, ?_⟩
    rintro _ ⟨⟩
    exact began_of_createFlow huuid hw.reachable rfl rfl rfl hverifier hresponse
  | _ => exact ⟨hgoes, nofun⟩

lemma requestOnNewFlow_kept (hw : w.Kept app b) (email : String) :
    (requestOnNewFlow app b email).wp (answer app b net) w fun _ w' => w'.Kept app b := by
  refine Async.wp_bind.mpr ((startLogin_goes huuid hw.sound none).mono fun r w₁ h₁ => ?_)
  refine ⟨fun flow hflow => ?_, fun _ _ => h₁.1.kept hw⟩
  have hbegan := h₁.2 flow hflow
  refine Async.wp_bind.mpr
    ((requestMagicLink_goes huuid h₁.1.sound flow.flowId email).mono fun r w₂ h₂ => ?_)
  refine ⟨fun expiresAt _ => ⟨⟨h₂.sound.reachable, h₂.sound.clock⟩, ?_⟩,
    fun _ _ => (h₁.1.trans h₂).kept hw⟩
  rintro p ⟨⟩
  exact h₂.began _ _ hbegan

omit huuid in
lemma liveFlow_reads (email : String) :
    (liveFlow email).wp (answer app b net) w fun r w' => w' = w ∧
      ∀ p, r = .ok (some p) → w.store = some p ∧ p.email = email := by
  refine Async.wp_bind.mpr ⟨?_, nofun⟩
  rintro stored ⟨⟩
  cases hstore : w.store with
  | none => exact ⟨rfl, nofun⟩
  | some pending =>
    simp only
    split_ifs with hemail
    · exact ⟨rfl, nofun⟩
    · refine Async.wp_bind.mpr ⟨?_, nofun⟩
      rintro now ⟨⟩
      split_ifs
      · refine ⟨rfl, ?_⟩
        rintro p ⟨⟩
        exact ⟨rfl, not_not.mp hemail⟩
      · exact ⟨rfl, nofun⟩

lemma requestMagicCode_kept (hw : w.Kept app b) (email : String) :
    (requestMagicCode app b email).wp (answer app b net) w fun _ w' => w'.Kept app b := by
  refine Async.wp_bind.mpr ((liveFlow_reads email).mono fun r w' h => ?_)
  obtain ⟨rfl, hread⟩ := h
  refine ⟨fun pending hpending => ?_, fun _ _ => hw⟩
  cases pending with
  | none => exact requestOnNewFlow_kept huuid hw email
  | some pending =>
    have hstore := (hread pending hpending).1
    refine Async.wp_catching.mpr (Async.wp.mono (Q := fun _ w' => w'.Kept app b) ?_ ?_)
    · refine Async.wp_bind.mpr
        ((requestMagicLink_goes huuid hw.sound pending.flowId email).mono fun r w₁ h₁ => ?_)
      refine ⟨fun expiresAt _ => ⟨⟨h₁.sound.reachable, h₁.sound.clock⟩, ?_⟩,
        fun _ _ => h₁.kept hw⟩
      rintro p ⟨⟩
      exact h₁.began _ _ (hw.store pending hstore)
    · refine fun r w₁ h₁ => ⟨fun _ _ => h₁, fun e _ => ?_⟩
      split_ifs
      · exact requestOnNewFlow_kept huuid h₁ email
      · exact h₁

lemma exchange_kept (hw : w.Kept app b) (code codeVerifier : String) :
    (exchangeCode b code codeVerifier >>= fun tokens => do
      writeStore none
      return tokens : Async awaits OAuth.TokenResponse).wp (answer app b net) w
      fun _ w' => w'.Kept app b := by
  refine Async.wp_bind.mpr
    ((exchangeCode_goes huuid hw.sound code codeVerifier).mono fun r w₁ h₁ => ?_)
  exact ⟨fun tokens _ => ⟨⟨h₁.sound.reachable, h₁.sound.clock⟩, nofun⟩, fun _ _ => h₁.kept hw⟩

lemma submitMagicCode_kept (hw : w.Kept app b) (code : String) :
    (submitMagicCode b code).wp (answer app b net) w fun _ w' => w'.Kept app b := by
  refine Async.wp_bind.mpr ⟨?_, nofun⟩
  rintro stored ⟨⟩
  cases w.store with
  | none => exact hw
  | some pending =>
    refine Async.wp_bind.mpr ((confirmMagicCode_goes huuid hw.sound _ _).mono fun r w₁ h₁ => ?_)
    exact ⟨fun authorizationCode _ => exchange_kept huuid (h₁.kept hw) _ _, fun _ _ => h₁.kept hw⟩

lemma submitMagicLink_kept (hw : w.Kept app b) (token : Option String) :
    (submitMagicLink b token).wp (answer app b net) w fun _ w' => w'.Kept app b := by
  unfold submitMagicLink
  cases truthy token with
  | none => exact hw
  | some token =>
    refine Async.wp_bind.mpr ⟨?_, nofun⟩
    rintro stored ⟨⟩
    cases w.store with
    | none => exact hw
    | some pending =>
      refine Async.wp_bind.mpr ((confirmMagicLink_goes huuid hw.sound _).mono fun r w₁ h₁ => ?_)
      exact ⟨fun authorizationCode _ => exchange_kept huuid (h₁.kept hw) _ _,
        fun _ _ => h₁.kept hw⟩

end Keeps

/-! ### Histories -/

/-- The worlds a browser with an empty store gets to: it asks for emails and submits codes and
links in any order, and bauth serves anyone else in between. -/
inductive History (app : App) (b : Browser) : World → Prop
  | start (clock : Time) : History app b
      { store := none, server := { db := {}, served := 0, clock }, clock, drawn := 0, calls := 0 }
  | requestMagicCode {w : World} (h : History app b w) (net : Net) (email : String) :
      History app b ((requestMagicCode app b email).runWith (answer app b net) w).2
  | submitMagicCode {w : World} (h : History app b w) (net : Net) (code : String) :
      History app b ((submitMagicCode b code).runWith (answer app b net) w).2
  | submitMagicLink {w : World} (h : History app b w) (net : Net) (token : Option String) :
      History app b ((submitMagicLink b token).runWith (answer app b net) w).2
  | other {w : World} (h : History app b w) (time : Time) (reply : (q : Question) → Reply q)
      (request : Request) (clock : w.clock ≤ time) :
      History app b
        { w with server := (serve app time reply request w.server).after, clock := time }

lemma History.kept (huuid : Function.Injective app.uuid) (h : History app b w) :
    w.Kept app b := by
  induction h with
  | start clock => exact ⟨⟨⟨clock, [], .nil⟩, le_rfl⟩, nofun⟩
  | requestMagicCode _ net email ih => exact requestMagicCode_kept huuid ih email
  | submitMagicCode _ net code ih => exact submitMagicCode_kept huuid ih code
  | submitMagicLink _ net token ih => exact submitMagicLink_kept huuid ih token
  | other _ time reply request clock ih =>
    refine ⟨⟨ih.sound.reachable.run (.single time reply request (ih.sound.clock.trans clock)),
      le_rfl⟩, fun p hp => (ih.store p hp).serve huuid time reply request⟩

/-! ### The opened link -/

/-- From `w` to `w'` the link with this token was consumed. -/
def World.Consumes (app : App) (token : String) (w w' : World) : Prop :=
  ∃ l ∈ w.server.db.magicLinks, l.tokenHash = app.hash token ∧ l.consumedAt = none ∧
    ∃ l' ∈ w'.server.db.magicLinks, l'.id = l.id ∧ l'.consumedAt.isSome = true

/-- The verifier in the store opens the flow of the link with this token. -/
def World.Pairs (app : App) (b : Browser) (w : World) (token : String) : Prop :=
  ∃ pending, w.store = some pending ∧ ∃ l ∈ w.server.db.magicLinks,
    l.tokenHash = app.hash token ∧ ∃ f ∈ w.server.db.loginFlows, f.id = l.flowId ∧
      b.Opens app pending f

/-- The link with this token belongs to the flow in the store. -/
def World.OfStoredFlow (app : App) (w : World) (token : String) : Prop :=
  ∃ pending, w.store = some pending ∧ ∃ l ∈ w.server.db.magicLinks,
    l.tokenHash = app.hash token ∧ l.flowId = pending.flowId

lemma World.not_consumes {token : String} {w' : World} (hids : w.server.db.UniqueIds)
    (h : w'.server.db.magicLinks = w.server.db.magicLinks) : ¬w.Consumes app token w' := by
  rintro ⟨l, hl, -, hnone, l', hl', hid, hsome⟩
  rw [h] at hl'
  obtain rfl := List.inj_on_of_nodup_map hids.magicLinks hl' hl hid
  simp [hnone] at hsome

/-- What `submitMagicLink` does with a store, when nothing fails. -/
lemma submitMagicLink_run {token : String} {pending : PendingMagicCode} (htoken : token ≠ "")
    (hstore : w.store = some pending) (hfault : net.fault w.calls = none) :
    (submitMagicLink b (some token)).runWith (answer app b net) w =
      let p := w.serve app net (.confirmMagicLink b.clientIp token)
      let w₁ := w.called net p.after
      match p.response with
      | .ok (.loggedIn response) =>
        Async.runWith (answer app b net) (do
          let tokens ← exchangeCode b response.code pending.codeVerifier
          writeStore none
          return tokens) w₁
      | .ok _ => (.error (.bauth "unexpected_response"), w₁)
      | .error e => (.error (Failure.toError e), w₁) := by
  have htruthy : truthy (some token) = some token := by simp [truthy, htoken]
  have hread : readStore.runWith (answer app b net) w = (.ok (some pending), w) := by
    rw [← hstore]
    rfl
  have hcall : (call (.confirmMagicLink b.clientIp token)).runWith (answer app b net) w =
      ((w.serve app net (.confirmMagicLink b.clientIp token)).response.mapError Failure.toError,
        w.called net (w.serve app net (.confirmMagicLink b.clientIp token)).after) := by
    refine (Async.runWith_perform (A := awaits) (Op.call _)).trans ?_
    simp only [answer, hfault]
    rfl
  simp only [submitMagicLink, htruthy, Async.runWith_bind, hread, confirmMagicLink, hcall]
  cases (w.serve app net (.confirmMagicLink b.clientIp token)).response with
  | error e => rfl
  | ok body => cases body <;> rfl

/-- The exchange of a code, when nothing fails. -/
lemma exchangeCode_run {code codeVerifier : String} (hfault : net.fault w.calls = none) :
    (∃ tokens, (Async.runWith (answer app b net) (do
      let tokens ← exchangeCode b code codeVerifier
      writeStore none
      return tokens) w).1 = .ok tokens) ↔
      ∃ tokens, (w.serve app net (.token {
        grantType := "authorization_code", clientId := b.clientId, code := some code
        redirectUri := some b.redirectUri
        codeVerifier := some codeVerifier })).response = .ok (.tokens tokens) := by
  have hcall (request : Request) : (call request).runWith (answer app b net) w =
      ((w.serve app net request).response.mapError Failure.toError,
        w.called net (w.serve app net request).after) := by
    refine (Async.runWith_perform (A := awaits) (Op.call _)).trans ?_
    simp only [answer, hfault]
    rfl
  simp only [exchangeCode, Async.runWith_bind, hcall]
  generalize (w.serve app net _).response = response
  cases response with
  | error e => simp [Except.mapError]
  | ok body =>
    cases body with
    | tokens tokens => exact iff_of_true ⟨tokens, rfl⟩ ⟨tokens, rfl⟩
    | _ => exact iff_of_false (by rintro ⟨_, ⟨⟩⟩) (by rintro ⟨_, ⟨⟩⟩)

/-- Without a flow in the store nothing is asked of bauth. -/
lemma submitMagicLink_run_none {token : Option String} (hstore : w.store = none) :
    ((submitMagicLink b token).runWith (answer app b net) w).2 = w := by
  have hread : readStore.runWith (answer app b net) w = (.ok none, w) := by
    rw [← hstore]
    rfl
  unfold submitMagicLink
  cases truthy token with
  | none => rfl
  | some token =>
    rw [Async.runWith_bind, hread]
    rfl

/-- A link that was consumed was confirmed for a code. -/
lemma confirmed_of_consumes (huuid : Function.Injective app.uuid) (hw : w.Kept app b)
    {token : String} (hfault : net.fault w.calls = none)
    (h : w.Consumes app token
      ((submitMagicLink b (some token)).runWith (answer app b net) w).2) :
    token ≠ "" ∧ ∃ pending response, w.store = some pending ∧
      (w.serve app net (.confirmMagicLink b.clientIp token)).response =
        .ok (.loggedIn response) := by
  have hids := (hw.sound.reachable.keyed huuid).uniqueIds
  have htoken : token ≠ "" := by
    rintro rfl
    exact World.not_consumes hids rfl h
  cases hstore : w.store with
  | none =>
    rw [submitMagicLink_run_none hstore] at h
    exact absurd h (World.not_consumes hids rfl)
  | some pending =>
    refine ⟨htoken, pending, ?_⟩
    have hout := serve_outcome huuid (hw.sound.reachable.keyed huuid) (w.next net)
      (net.reply w.calls) (.confirmMagicLink b.clientIp token)
    rw [submitMagicLink_run htoken hstore hfault] at h
    simp only [World.serve] at h ⊢
    generalize (Bauth.serve app (w.next net) (net.reply w.calls) (.confirmMagicLink b.clientIp token)
      w.server).response = response at hout h ⊢
    generalize (Bauth.serve app (w.next net) (net.reply w.calls) (.confirmMagicLink b.clientIp token)
      w.server).after = s' at hout h
    obtain ⟨db, served, clock⟩ := s'
    dsimp only at hout
    cases hout with
    | confirmMagicLink hconfirmed =>
      cases hconfirmed with
      | refused e => exact absurd h (World.not_consumes hids rfl)
      | @loggedIn l response => exact ⟨response, trivial, rfl⟩

section Submit

variable {token : String}

/-- After any history, a link that `submitMagicLink` makes bauth consume is exchanged for tokens
exactly where the verifier in the store opens the flow of the link, which it does where the link is
of the stored flow. Without a stored flow the link is left alone. -/
theorem consumed_link_exchanged (huuid : Function.Injective app.uuid)
    (hsecret : Function.Injective app.secret) (hsha : Function.Injective app.sha256)
    (hw : History app b w) (hfaults : net.fault w.calls = none ∧ net.fault (w.calls + 1) = none)
    (hdelay : (net.delay (w.calls + 1) : ℤ) < seconds 60)
    (hkey : ((net.reply (w.calls + 1) .signingKeys : SigningKeys).signingKey
      (w.next net + net.delay (w.calls + 1))).isSome = true) :
    (w.store = none → ((submitMagicLink b (some token)).runWith (answer app b net) w).2 = w) ∧
      (w.Consumes app token ((submitMagicLink b (some token)).runWith (answer app b net) w).2 →
        ((∃ tokens, ((submitMagicLink b (some token)).runWith (answer app b net) w).1 =
            .ok tokens) ↔ w.Pairs app b token) ∧
          (w.OfStoredFlow app token → w.Pairs app b token)) := by
  refine ⟨submitMagicLink_run_none, fun hconsumes => ?_⟩
  have hkept := hw.kept huuid
  have hreach := hkept.sound.reachable
  obtain ⟨htoken, pending, response, hstore, hresponse⟩ :=
    confirmed_of_consumes huuid hkept hfaults.1 hconsumes
  have hp : (w.serve app net (.confirmMagicLink b.clientIp token)).Of app :=
    World.serve_of hkept.sound _
  obtain ⟨l, hl, hhash, f, hf, hid, hanswers⟩ := exchange_answers huuid hsecret hsha hp hreach rfl
    hresponse {
      grantType := "authorization_code", clientId := b.clientId, code := some response.code
      redirectUri := some b.redirectUri, codeVerifier := some pending.codeVerifier }
    (w.next net + net.delay (w.calls + 1)) (net.reply (w.calls + 1))
    rfl rfl rfl rfl (Int.add_lt_add_left hdelay _) hkey
  have hpairs (pending' : PendingMagicCode) (l' : MagicLink) (hstore' : w.store = some pending')
      (hl' : l' ∈ w.server.db.magicLinks) (hhash' : l'.tokenHash = app.hash token) :
      pending' = pending ∧ l' = l := by
    refine ⟨Option.some.inj (hstore'.symm.trans hstore), ?_⟩
    exact List.inj_on_of_nodup_map (hreach.link_hashes huuid) hl' hl (hhash'.trans hhash.symm)
  refine ⟨?_, ?_⟩
  · rw [submitMagicLink_run htoken hstore hfaults.1]
    simp only [hresponse]
    rw [exchangeCode_run hfaults.2]
    refine hanswers.trans ?_
    constructor
    · rintro ⟨hregistered, hclient, hredirect, hverifier⟩
      exact ⟨pending, hstore, l, hl, hhash, f, hf, hid, hregistered, hclient, hredirect, hverifier⟩
    · rintro ⟨pending', hstore', l', hl', hhash', f', hf', hid', hopens⟩
      obtain ⟨rfl, rfl⟩ := hpairs pending' l' hstore' hl' hhash'
      obtain rfl : f' = f := List.inj_on_of_nodup_map (hreach.keyed huuid).loginFlows.nodup hf' hf
        (hid'.trans hid.symm)
      exact ⟨hopens.registered, hopens.client, hopens.redirect, hopens.verifier⟩
  · rintro ⟨pending', hstore', l', hl', hhash', hflow⟩
    obtain ⟨rfl, rfl⟩ := hpairs pending' l' hstore' hl' hhash'
    exact ⟨pending', hstore, l', hl, hhash, f, hf, hid,
      (hkept.store pending' hstore).opens hf (hid.trans hflow)⟩

end Submit

/-! ### Two addresses in one browser -/

section Example

/-- The first bytes give `exampleVerifier`. -/
def exampleRandom : ℕ → Bytes
  | 0 =>
    [116, 24, 223, 180, 151, 153, 224, 37, 79, 250, 96, 125, 216, 173, 187, 186, 22, 212, 37, 77,
      105, 214, 191, 240, 91, 88, 5, 88, 83, 132, 141, 121]
  | _ => List.replicate 32 7

def exampleBrowser : Browser where
  clientId := "app"
  redirectUri := "https://app/cb"
  clientIp := "ip"
  random := exampleRandom
  random_length n := by cases n <;> rfl

/-- Nothing fails, and every request takes a microsecond. -/
def exampleNet : Net where
  reply _ := exampleReply
  delay _ := 1
  fault _ := none
  dateNow _ := 0

/-- `exampleApp`, with a digest of 32 bytes for the second verifier too. -/
def twoVerifiersApp : App :=
  { exampleApp with
    sha256 := fun bytes =>
      if bytes = asBytes (String.ofList (base64Url (exampleRandom 1))) then List.replicate 32 20
      else exampleApp.sha256 bytes }

def World.empty : World where
  store := none
  server := .empty
  clock := 0
  drawn := 0
  calls := 0

def requested (app : App) (w : World) (email : String) : World :=
  ((requestMagicCode app exampleBrowser email).runWith (answer app exampleBrowser exampleNet) w).2

def opened (app : App) (w : World) (token : String) :=
  (submitMagicLink exampleBrowser (some token)).runWith (answer app exampleBrowser exampleNet) w

instance {app : App} {token : String} {w w' : World} : Decidable (w.Consumes app token w') :=
  inferInstanceAs (Decidable (∃ l ∈ w.server.db.magicLinks, l.tokenHash = app.hash token ∧
    l.consumedAt = none ∧ ∃ l' ∈ w'.server.db.magicLinks, l'.id = l.id ∧
      l'.consumedAt.isSome = true))

instance {app : App} {token : String} {w : World} : Decidable (w.OfStoredFlow app token) :=
  match hstore : w.store with
  | none => isFalse (by rintro ⟨pending, hpending, -⟩; simp [hstore] at hpending)
  | some pending =>
    decidable_of_iff (∃ l ∈ w.server.db.magicLinks, l.tokenHash = app.hash token ∧
      l.flowId = pending.flowId) (by simp [World.OfStoredFlow, hstore])

/-- The link of the one email that was asked for is exchanged. -/
theorem consumed_link_exchanged_bob :
    ∃ tokens, (opened exampleApp (requested exampleApp .empty "bob@x.fr") "p-iii").1 =
      .ok tokens := by
  have hchecks : (requested exampleApp .empty "bob@x.fr").Consumes exampleApp "p-iii"
        (opened exampleApp (requested exampleApp .empty "bob@x.fr") "p-iii").2 ∧
      (requested exampleApp .empty "bob@x.fr").OfStoredFlow exampleApp "p-iii" := by
    decide +kernel
  have h := (@consumed_link_exchanged exampleApp exampleBrowser exampleNet _ "p-iii"
    exampleApp_uuid_injective exampleApp_secret_injective exampleApp_sha256_injective
    (.requestMagicCode (.start 0) exampleNet "bob@x.fr") ⟨rfl, rfl⟩ (by decide)
    (by decide +kernel)).2 hchecks.1
  exact h.1.mpr (h.2 hchecks.2)

/-- A link is wasted: emails were asked for two addresses, and the first one is opened. -/
theorem link_wasted : ¬∀ w, History twoVerifiersApp exampleBrowser w →
    w.Consumes twoVerifiersApp "p-iii" (opened twoVerifiersApp w "p-iii").2 →
    ∃ tokens, (opened twoVerifiersApp w "p-iii").1 = .ok tokens := by
  intro h
  let w := requested twoVerifiersApp (requested twoVerifiersApp .empty "bob@x.fr") "amy@x.fr"
  have hchecks : w.Consumes twoVerifiersApp "p-iii" (opened twoVerifiersApp w "p-iii").2 ∧
      (opened twoVerifiersApp w "p-iii").1.isOk = false := by
    decide +kernel
  obtain ⟨tokens, htokens⟩ := h w (.requestMagicCode (.requestMagicCode (.start 0) exampleNet
    "bob@x.fr") exampleNet "amy@x.fr") hchecks.1
  simp [htokens, Except.isOk, Except.toBool] at hchecks

end Example

end Sdk.Flow

end Bauth
