import Bauth.Serial.Login
import Bauth.Serial.Stale
import Bauth.Transition.History

/-!
# Where a session comes from

A session is the last of four things that one login makes: a flow, a link mailed on it, the code
of its completion and the session the code is exchanged for. A `Trail` records them as they were
made, with the steps that made them. Every session of a reachable state ends one trail of the run
that led there, and trails share nothing.
-/

namespace Bauth

open Transaction Transition

/-! ### Rows as they were made -/

/-- The flow as it was created, whatever was counted on it since. -/
def LoginFlow.asCreated (f : LoginFlow) : LoginFlow :=
  { f with
    magicLinkRequests := 0, expiresAt := f.createdAt + Login.flowTtl, completedAt := none }

/-- The link as it was mailed. -/
def MagicLink.asMailed (l : MagicLink) : MagicLink :=
  { l with codeFailures := 0, consumedAt := none }

/-- The code as it was issued. -/
def AuthorizationCode.asIssued (c : AuthorizationCode) : AuthorizationCode :=
  { c with consumedAt := none }

/-- What a session keeps of the exchange that opened it. -/
def Session.asOpened (S : Session) : Session :=
  { S with authorizationCodeId := none, revokedAt := none }

/-! ### The four steps of a login -/

/-- The step created the flow, for a client and one of its redirect URIs. -/
structure Served.Starts (app : App) (p : Served) (f : LoginFlow) : Prop where
  client : ∃ client, app.client f.clientId = some client ∧
    client.allowsRedirectUri f.redirectUri = true
  created : f.asCreated = f ∧ f.createdAt = p.time
  response : p.response = .ok (.flow { flowId := f.id, expiresAt := f.expiresAt })
  id : ∃ i, f.id = app.uuid ⟨p.before.served, i⟩
  added : p.after.db.loginFlows = p.before.db.loginFlows ++ [f]

/-- The step mailed the link, to an account or to a sign-up that the client of the flow allows. -/
structure Served.MailsLink (app : App) (p : Served) (f : LoginFlow) (l : MagicLink) : Prop where
  flow : f ∈ p.before.db.loginFlows ∧ f.id = l.flowId ∧ f.pending p.time = true
  account : ∀ id ∈ l.userId, ∃ u ∈ p.before.db.users, u.id = id ∧ u.email = l.email ∧
    u.disabledAt = none
  signUp : l.userId = none → ∃ client, app.client f.clientId = some client ∧
    client.allowSignup = true
  mail : ∃ client token n, app.client f.clientId = some client ∧
    p.events = [.sent (linkMail client l.userId l.email token (app.plainCode n))] ∧
    l.tokenHash = app.hash token ∧ l.codeHash = app.codeHash app.magicLinkKey l.flowId n
  created : l.asMailed = l ∧ l.createdAt = p.time
  id : ∃ i, l.id = app.uuid ⟨p.before.served, i⟩
  added : p.after.db.magicLinks = p.before.db.magicLinks ++ [l]

/-- The step presents the emailed token of the link, or its code on its flow while it is the
newest link there. -/
inductive Served.Presents (app : App) (p : Served) (l : MagicLink) : Prop
  | token {ip token : String} (hrequest : p.request = .confirmMagicLink ip token)
      (htoken : l.tokenHash = app.hash token)
  | code {ip code : String} (hrequest : p.request = .confirmMagicCode ip l.flowId code)
      (hnewest : p.before.db.newestLink l.flowId = some l)
      (hcode : app.verifyCode app.magicLinkKey l.flowId code l.codeHash = true)

/-- The step completed the flow with the link, for the account the code is issued to. -/
structure Served.Completes (app : App) (p : Served) (f : LoginFlow) (l : MagicLink)
    (c : AuthorizationCode) : Prop where
  link : l ∈ p.before.db.magicLinks ∧ l.usable p.time = true
  presents : p.Presents app l
  flow : f ∈ p.before.db.loginFlows ∧ f.id = l.flowId ∧ f.pending p.time = true
  completed : ∀ f' ∈ p.after.db.loginFlows, f'.id = f.id → f'.completedAt = some p.time
  account : ∃ u ∈ p.after.db.users, u.id = c.userId ∧ u.email = l.email ∧ u.disabledAt = none
  known : ∀ id ∈ l.userId, id = c.userId
  signedUp : (∀ u ∈ p.before.db.users, u.id ≠ c.userId) → l.userId = none
  response : ∃ code, p.response = .ok (.loggedIn { code }) ∧ c.codeHash = app.hash code
  issued : c.asIssued = c ∧ c.createdAt = p.time ∧ c.flowId = f.id
  id : ∃ i, c.id = app.uuid ⟨p.before.served, i⟩
  added : p.after.db.authorizationCodes = p.before.db.authorizationCodes ++ [c]

/-- The step exchanged the code for the session, as the client of the flow, with its redirect URI
and a verifier of its challenge. -/
structure Served.Redeems (app : App) (p : Served) (f : LoginFlow) (c : AuthorizationCode)
    (S : Session) : Prop where
  request : ∃ input code verifier, p.request = .token input ∧
    input.grantType = "authorization_code" ∧ input.clientId = f.clientId ∧
    input.code = some code ∧ c.codeHash = app.hash code ∧
    input.redirectUri = some f.redirectUri ∧ input.codeVerifier = some verifier ∧
    app.pkceVerify verifier f.codeChallenge = true
  response : ∃ tokens, p.response = .ok (.tokens tokens)
  code : c ∈ p.before.db.authorizationCodes ∧ c.usable p.time = true
  consumed : ∀ c' ∈ p.after.db.authorizationCodes, c'.id = c.id → c'.consumedAt = some p.time
  flow : f ∈ p.before.db.loginFlows ∧ f.id = c.flowId
  account : p.before.db.Enabled c.userId
  session : S.userId = c.userId ∧ S.clientId = f.clientId ∧ S.authorizationCodeId = some c.id ∧
    S.createdAt = p.time
  id : ∃ i, S.id = app.uuid ⟨p.before.served, i⟩
  added : p.after.db.sessions = p.before.db.sessions ++ [S]

section Steps

variable {app : App} {p : Served}

/-- The flows after a step: those from before, and the one it started. -/
lemma starts_or_before (hp : p.Of app) (huuid : Function.Injective app.uuid)
    (hreach : Reachable app p.before) : ∀ f ∈ p.after.db.loginFlows,
    (∃ f₀ ∈ p.before.db.loginFlows, f₀.asCreated = f.asCreated) ∨
      ∃ f₀, p.Starts app f₀ ∧ f₀.asCreated = f.asCreated := by
  by_cases hcreate : ∃ input, p.request = .createFlow input
  · obtain ⟨input, hrequest⟩ := hcreate
    have hout := hp.outcome huuid (hreach.keyed huuid)
    rw [hrequest] at hout
    generalize hafter : p.after.db = d', hresponse : p.response = response, p.events = events
      at hout ⊢
    cases hout with
    | createFlow h =>
      cases h with
      | refused => exact fun f hf => .inl ⟨f, hf, rfl⟩
      | @created client hclient hredirect i =>
        intro f hf
        rcases List.mem_append.mp hf with hf | hf
        · exact .inl ⟨f, hf, rfl⟩
        · obtain rfl := List.mem_singleton.mp hf
          refine .inr ⟨newFlow app p.before.served p.time input client.id p.time i,
            ⟨⟨client, ?_, hredirect⟩, ⟨rfl, rfl⟩, hresponse, ⟨i, rfl⟩, ?_⟩, rfl⟩
          · rw [newFlow, App.client_id hclient]
            exact hclient
          · rw [hafter]
  · intro f hf
    refine .inl ?_
    have hkeeps : ∃ _ : ℕ, ∀ f ∈ p.after.db.loginFlows,
        ∃ f₀ ∈ p.before.db.loginFlows, f₀.asCreated = f.asCreated := by
      rw [hp.serve]
      refine serve_keeps (J := fun _ d => ∀ f ∈ d.loginFlows,
        ∃ f₀ ∈ p.before.db.loginFlows, f₀.asCreated = f.asCreated) (fun _ _ h => h)
        (fun q k d d' hq hd hstep f hf => ?_) fun f hf => ⟨f, hf, rfl⟩
      rcases hstep.loginFlows.mem hf with ⟨f₁, hf₁, hrow⟩ | ⟨rfl, -⟩
      · obtain ⟨f₀, hf₀, hsame⟩ := hd f₁ hf₁
        refine ⟨f₀, hf₀, hsame.trans ?_⟩
        cases hrow <;> rfl
      · cases hrequest : p.request with
        | createFlow input => exact absurd ⟨input, hrequest⟩ hcreate
        | _ => simp [hrequest, Request.may, Query.LogsIn, Query.ChecksCode] at hq
    exact hkeeps.choose_spec f hf

/-- The links a request that mails none leaves. -/
lemma mailed_before (hp : p.Of app)
    (hmail : ¬∃ ip flowId email, p.request = .requestMagicLink ip flowId email) :
    ∀ l ∈ p.after.db.magicLinks, ∃ l₀ ∈ p.before.db.magicLinks, l₀.asMailed = l.asMailed := by
  intro l hl
  refine links_of_may hp (P := fun l => ∃ l₀ ∈ p.before.db.magicLinks,
    l₀.asMailed = l.asMailed) (fun q hq hcreate => ?_) (fun q now l l' hrow h => ?_)
    (fun l hl => ⟨l, hl, rfl⟩) l hl
  · subst hcreate
    cases hrequest : p.request with
    | requestMagicLink ip flowId email => exact absurd ⟨ip, flowId, email, hrequest⟩ hmail
    | _ => simp [hrequest, Request.may, Query.LogsIn, Query.ChecksCode] at hq
  · obtain ⟨l₀, hl₀, hsame⟩ := h
    refine ⟨l₀, hl₀, hsame.trans ?_⟩
    cases hrow <;> rfl

/-- The links after a step: those from before, and the one it mailed. -/
lemma mailed_or_before (hp : p.Of app) (huuid : Function.Injective app.uuid)
    (hreach : Reachable app p.before) : ∀ l ∈ p.after.db.magicLinks,
    (∃ l₀ ∈ p.before.db.magicLinks, l₀.asMailed = l.asMailed) ∨
      ∃ l₀, (∃ f, p.MailsLink app f l₀) ∧ l₀.asMailed = l.asMailed := by
  by_cases hmail : ∃ ip flowId email, p.request = .requestMagicLink ip flowId email
  · obtain ⟨ip, flowId, email, hrequest⟩ := hmail
    have hout := hp.outcome huuid (hreach.keyed huuid)
    rw [hrequest] at hout
    generalize hafter : p.after.db = d', p.response = response, hevents : p.events = events
      at hout ⊢
    cases hout with
    | requestMagicLink h =>
      cases h with
      | @mailed f client userId hf hclient huser i j n hnew =>
        intro l hl
        rcases List.mem_append.mp hl with hl | hl
        · exact .inl ⟨l, hl, rfl⟩
        · obtain rfl := List.mem_singleton.mp hl
          refine .inr ⟨newLink app p.before.served p.time flowId userId email p.time i j n, ⟨f, ?_⟩,
            rfl⟩
          refine ⟨⟨hf.1, hf.2.1, hf.2.2.1⟩, fun id hid => ?_, fun hid => ⟨client, hclient, ?_⟩,
            ⟨client, _, _, hclient, hevents, rfl, rfl⟩, ⟨rfl, rfl⟩, ⟨i, rfl⟩, ?_⟩
          · cases huser with
            | @account u hu henabled =>
              obtain rfl := Option.some.inj hid
              have hemail : u.email = app.unicode.normalize email := by
                simpa using List.find?_some hu
              exact ⟨u, List.mem_of_find?_eq_some hu, rfl, hemail, henabled⟩
            | signUp => cases hid
          · cases huser with
            | account => cases hid
            | signUp hfree hsignup => exact hsignup
          · rw [hafter]
      | _ => exact fun l hl => .inl ⟨l, hl, rfl⟩
  · exact fun l hl => .inl (mailed_before hp hmail l hl)

/-- The codes a request that completes no flow leaves. -/
lemma issued_before (hp : p.Of app) (hmay : ¬p.request.may .authorizationCodesCreate) :
    ∀ c ∈ p.after.db.authorizationCodes,
      ∃ c₀ ∈ p.before.db.authorizationCodes, c₀.asIssued = c.asIssued := by
  have hkeeps : ∃ _ : ℕ, ∀ c ∈ p.after.db.authorizationCodes,
      ∃ c₀ ∈ p.before.db.authorizationCodes, c₀.asIssued = c.asIssued := by
    rw [hp.serve]
    refine serve_keeps (J := fun _ d => ∀ c ∈ d.authorizationCodes,
      ∃ c₀ ∈ p.before.db.authorizationCodes, c₀.asIssued = c.asIssued) (fun _ _ h => h)
      (fun q k d d' hq hd hstep c hc => ?_) fun c hc => ⟨c, hc, rfl⟩
    rcases hstep.authorizationCodes.mem hc with ⟨c₁, hc₁, hrow⟩ | ⟨rfl, -⟩
    · obtain ⟨c₀, hc₀, hsame⟩ := hd c₁ hc₁
      refine ⟨c₀, hc₀, hsame.trans ?_⟩
      cases hrow <;> rfl
    · exact absurd hq hmay
  exact hkeeps.choose_spec

/-- What a login makes of the database is a completion of the flow, whichever way the link was
presented. -/
lemma LoggedIn.completes {l : MagicLink} {response : Login.LoginResponse} {d : Database}
    (hl : l ∈ p.before.db.magicLinks) (husable : l.usable p.time = true)
    (hpresents : p.Presents app l) (hids : p.before.db.UniqueIds)
    (hresponse : p.response = .ok (.loggedIn response))
    (hd : d.users = p.before.db.users ∧ d.loginFlows = p.before.db.loginFlows ∧
      d.authorizationCodes = p.before.db.authorizationCodes)
    (h : LoggedIn app ⟨p.time, p.time, p.reply⟩ p.before.served l.flowId l.userId l.email d response
      p.after.db) :
    ∃ f c, p.Completes app f l c ∧
      p.after.db.authorizationCodes = p.before.db.authorizationCodes ++ [c] := by
  obtain ⟨husers, hflows, hcodes⟩ := hd
  generalize hafter : p.after.db = d' at h
  cases h with
  | @intro u f w haccount henabled hemail hf hid hpending i j hnew =>
    rw [hflows] at hf
    have hw : w.loginFlows = p.before.db.loginFlows := by
      obtain ⟨users, rfl, -⟩ := haccount.tables
      exact hflows
    refine ⟨f, newCode app p.before.served p.time l.flowId u.id p.time i j, ?_, ?_⟩
    · refine
        { link := ⟨hl, husable⟩
          presents := hpresents
          flow := ⟨hf, hid, hpending⟩
          completed := ?_
          account := ?_
          known := ?_
          signedUp := ?_
          response := ⟨_, hresponse, rfl⟩
          issued := ⟨rfl, rfl, hid.symm⟩
          id := ⟨i, rfl⟩
          added := ?_ }
      · rw [hafter]
        intro f' hf' hid'
        obtain ⟨f₀, hf₀, rfl⟩ := mem_updateWhere.mp hf'
        have hf₀' : f₀ ∈ p.before.db.loginFlows := hw ▸ hf₀
        have hsame : f₀ = f := by
          refine List.inj_on_of_nodup_map hids.loginFlows hf₀' hf ?_
          split_ifs at hid' <;> exact hid'
        subst hsame
        rw [if_pos (by simp [hid, hpending])]
      · rw [hafter]
        obtain ⟨users, rfl, hu⟩ := haccount.tables
        refine ⟨{ u with
          emailVerifiedAt := some (u.emailVerifiedAt.getD p.time), updatedAt := p.time }, ?_, rfl,
          hemail, henabled⟩
        exact mem_updateWhere_of (f := fun u : User =>
          { u with
            emailVerifiedAt := some (u.emailVerifiedAt.getD p.time), updatedAt := p.time }) hu
          (by simp)
      · intro id hlid
        cases haccount with
        | @known id' u hid' hu =>
          obtain rfl := Option.some.inj (hid'.symm.trans hlid)
          have huid : u.id = id' := by simpa using List.find?_some hu
          exact huid.symm
        | sameAddress hid' => cases hid'.symm.trans hlid
        | created hid' => cases hid'.symm.trans hlid
      · intro hnone
        cases haccount with
        | known hid' hu =>
          rw [husers] at hu
          exact absurd rfl (hnone u (List.mem_of_find?_eq_some hu))
        | sameAddress hid' => exact hid'
        | created hid' => exact hid'
      · rw [hafter]
        exact congrArg (· ++ [_]) hcodes
    · exact congrArg (· ++ [_]) hcodes

/-- The codes after a step: those from before, and the one it issued. -/
lemma completes_or_before (hp : p.Of app) (huuid : Function.Injective app.uuid)
    (hreach : Reachable app p.before) : ∀ c ∈ p.after.db.authorizationCodes,
    (∃ c₀ ∈ p.before.db.authorizationCodes, c₀.asIssued = c.asIssued) ∨
      ∃ c₀, (∃ f l, p.Completes app f l c₀) ∧ c₀.asIssued = c.asIssued := by
  have hkeyed := hreach.keyed huuid
  have hids := hkeyed.uniqueIds
  by_cases hissue : p.request.may .authorizationCodesCreate
  · have hout := hp.outcome huuid hkeyed
    cases hrequest : p.request with
    | confirmMagicLink ip token =>
      rw [hrequest] at hout
      generalize hafter : p.after.db = d', hresponse : p.response = response at hout
      cases hout with
      | confirmMagicLink h =>
        cases h with
        | refused => exact fun c hc => .inl ⟨c, hc, rfl⟩
        | @loggedIn l response d' hl htoken husable hlogin =>
          subst hafter
          obtain ⟨f, c₀, hcompletes, hadded⟩ := hlogin.completes
            (d := p.before.db.consumeLink p.time (app.hash token)) hl husable
            (.token hrequest htoken) hids hresponse ⟨rfl, rfl, rfl⟩
          intro c hc
          rw [hadded] at hc
          rcases List.mem_append.mp hc with hc | hc
          · exact .inl ⟨c, hc, rfl⟩
          · obtain rfl := List.mem_singleton.mp hc
            exact .inr ⟨c, ⟨f, l, hcompletes⟩, rfl⟩
    | confirmMagicCode ip flowId code =>
      rw [hrequest] at hout
      generalize hafter : p.after.db = d', hresponse : p.response = response at hout
      cases hout with
      | confirmMagicCode h =>
        cases h with
        | refused => exact fun c hc => .inl ⟨c, hc, rfl⟩
        | wrong => exact fun c hc => .inl ⟨c, hc, rfl⟩
        | @loggedIn l response d' hl hright hlogin =>
          subst hafter
          obtain ⟨hmem, rfl⟩ := mem_of_newestLink hl.newest
          obtain ⟨f, c₀, hcompletes, hadded⟩ := hlogin.completes
            (d := p.before.db.consumeLinkById p.time l.id) hmem hl.usable
            (.code hrequest hl.newest hright) hids hresponse ⟨rfl, rfl, rfl⟩
          intro c hc
          rw [hadded] at hc
          rcases List.mem_append.mp hc with hc | hc
          · exact .inl ⟨c, hc, rfl⟩
          · obtain rfl := List.mem_singleton.mp hc
            exact .inr ⟨c, ⟨f, l, hcompletes⟩, rfl⟩
    | _ => simp [hrequest, Request.may, Query.ChecksCode] at hissue
  · exact fun c hc => .inl (issued_before hp hissue c hc)

/-- The sessions after a step: those from before, and the one it opened. -/
lemma redeems_or_before (hp : p.Of app) (huuid : Function.Injective app.uuid)
    (hreach : Reachable app p.before) : ∀ S ∈ p.after.db.sessions,
    (∃ S₀ ∈ p.before.db.sessions, S₀.asOpened = S.asOpened) ∨
      ∃ S₀, (∃ f c, p.Redeems app f c S₀) ∧ S₀.asOpened = S.asOpened := by
  have hkeyed := hreach.keyed huuid
  by_cases hopen : p.request.may .sessionsCreate
  · have hout := hp.outcome huuid hkeyed
    cases hrequest : p.request with
    | token input =>
      rw [hrequest] at hout
      generalize hafter : p.after.db = d', hresponse : p.response = response at hout ⊢
      have hrevoked (t : Time) (q : Session → Bool) : ∀ S ∈ updateWhere q (Session.revoke t)
          p.before.db.sessions, ∃ S₀ ∈ p.before.db.sessions, S₀.asOpened = S.asOpened := by
        intro S hS
        obtain ⟨S₀, hS₀, rfl⟩ := mem_updateWhere.mp hS
        refine ⟨S₀, hS₀, ?_⟩
        split_ifs <;> rfl
      cases hout with
      | exchange hgrant h =>
        cases h with
        | refused => exact fun S hS => .inl ⟨S, hS, rfl⟩
        | replayed => exact fun S hS => .inl (hrevoked _ _ S hS)
        | @issued code redirectUri verifier client c f hcode hredirect hverifier hclient hc hf hflow
            huser hopened key i i' j k hnew =>
          intro S hS
          rcases List.mem_append.mp hS with hS | hS
          · exact .inl ⟨S, hS, rfl⟩
          · obtain rfl := List.mem_singleton.mp hS
            have hmem := List.mem_filter.mp (List.mem_of_head? hc)
            obtain ⟨hcmem, husable⟩ := hmem
            simp only [Database.exchangeable, Bool.and_eq_true, decide_eq_true_eq] at husable
            have hfid : f.id = c.flowId := by simpa using List.find?_some hf
            refine .inr ⟨newSession app p.before.served c.userId client.id c.id p.time p.time i,
              ⟨f, c, ?_⟩, rfl⟩
            refine
              { request := ⟨input, code, verifier, hrequest, hgrant, ?_, hcode, husable.1.1, ?_,
                  hverifier, hflow.2.2⟩
                response := ⟨_, hresponse⟩
                code := ⟨hcmem, husable.1.2⟩
                consumed := ?_
                flow := ⟨List.mem_of_find?_eq_some hf, hfid⟩
                account := huser
                session := ⟨rfl, hflow.1.symm, rfl, rfl⟩
                id := ⟨i, rfl⟩
                added := ?_ }
            · rw [hflow.1, App.client_id hclient]
            · rw [hflow.2.1, hredirect]
            · rw [hafter]
              intro c' hc' hid
              obtain ⟨c₀, hc₀, rfl⟩ := mem_updateWhere.mp hc'
              have hsame : c₀ = c := by
                refine List.inj_on_of_nodup_map hkeyed.uniqueIds.authorizationCodes hc₀ hcmem ?_
                split_ifs at hid <;> exact hid
              subst hsame
              rw [if_pos (by simpa [Database.exchangeable] using husable)]
            · rw [hafter]
      | refresh hgrant h =>
        cases h with
        | @disabled client r s =>
          intro S hS
          refine .inl (hrevoked p.time (fun S => S.id = s.id && S.revokedAt.isNone) S ?_)
          simpa only [Database.revokeSession, Database.settle_sessions] using hS
        | stolen => exact fun S hS => .inl (hrevoked _ _ S hS)
        | issued =>
          intro S hS
          simp only [Database.settle_sessions] at hS
          exact .inl ⟨S, hS, rfl⟩
        | _ => exact fun S hS => .inl ⟨S, hS, rfl⟩
      | otherGrant => exact fun S hS => .inl ⟨S, hS, rfl⟩
    | _ => simp [hrequest, Request.may, Query.LogsIn, Query.ChecksCode] at hopen
  · intro S hS
    refine .inl ?_
    have hkeeps : ∃ _ : ℕ, ∀ S ∈ p.after.db.sessions,
        ∃ S₀ ∈ p.before.db.sessions, S₀.asOpened = S.asOpened := by
      rw [hp.serve]
      refine serve_keeps (J := fun _ d => ∀ S ∈ d.sessions,
        ∃ S₀ ∈ p.before.db.sessions, S₀.asOpened = S.asOpened) (fun _ _ h => h)
        (fun q k d d' hq hd hstep S hS => ?_) fun S hS => ⟨S, hS, rfl⟩
      rcases hstep.sessions.mem hS with ⟨S₁, hS₁, hrow⟩ | ⟨rfl, -⟩
      · obtain ⟨S₀, hS₀, hsame⟩ := hd S₁ hS₁
        refine ⟨S₀, hS₀, hsame.trans ?_⟩
        cases hrow <;> rfl
      · exact absurd hq hopen
    exact hkeeps.choose_spec S hS

end Steps

/-! ### Paths of the server -/

section Runs

variable {app : App} {s : Server} {steps : List Served} {k : Uuid}

variable {p q : Served} {s₀ : Server}

/-- An identifier is drawn by one step. -/
lemma drawn_once (huuid : Function.Injective app.uuid)
    (h : Path Served.before Served.after (Served.Taken app) s₀ steps s) (hp : p ∈ steps)
    (hq : q ∈ steps) (hdrawn : ∃ i, k = app.uuid ⟨p.before.served, i⟩)
    (hdrawn' : ∃ i, k = app.uuid ⟨q.before.served, i⟩) : p = q := by
  refine h.once_of_mem (Server.HasDrawn app k)
    (fun p => ∃ i, k = app.uuid ⟨p.before.served, i⟩) (fun p hp h => hp.1.hasDrawn h)
    (fun p hp hused => ?_) hp hq hdrawn hdrawn'
  obtain ⟨i, rfl⟩ := hused
  refine ⟨not_drawn huuid (Nat.zero_le i), ⟨⟨p.before.served, i⟩, rfl, ?_⟩⟩
  rw [hp.1.after_served]
  exact .inl (Nat.lt_succ_self _)

/-- The rows of a table after a step: those from before, still marked if they were, and new ones. -/
def Marks (app : App) {ρ : Type} (rows : Database → List ρ) (id : ρ → Uuid)
    (marked : ρ → Prop) (p : Served) : Prop :=
  ∀ r ∈ rows p.after.db, (∃ r₀ ∈ rows p.before.db, id r₀ = id r ∧ (marked r₀ → marked r)) ∨
    ∃ i, id r = app.uuid ⟨p.before.served, i⟩

/-- A mark stays on the row of an identifier, as long as there is one. -/
lemma marked_stays (huuid : Function.Injective app.uuid)
    (h : Path Served.before Served.after (Served.Taken app) s₀ steps s) {ρ : Type}
    {rows : Database → List ρ} {id : ρ → Uuid} {marked : ρ → Prop}
    (hmarks : ∀ p, p.Taken app → Marks app rows id marked p)
    (hmarked : s₀.HasDrawn app k ∧ ∀ r ∈ rows s₀.db, id r = k → marked r) :
    s.HasDrawn app k ∧ ∀ r ∈ rows s.db, id r = k → marked r := by
  refine h.keeps (P := fun s => s.HasDrawn app k ∧ ∀ r ∈ rows s.db, id r = k → marked r) hmarked
    fun p hp hbefore => ⟨hp.1.hasDrawn hbefore.1, fun r hr hid => ?_⟩
  rcases hmarks p hp r hr with ⟨r₀, hr₀, hsame, hkept⟩ | ⟨i, hi⟩
  · exact hkept (hbefore.2 r₀ hr₀ (hsame.trans hid))
  · rw [← hid, hi] at hbefore
    exact absurd hbefore.1 (not_drawn huuid (Nat.zero_le i))

/-- A row is marked by one step. -/
lemma marked_once (huuid : Function.Injective app.uuid)
    (h : Path Served.before Served.after (Served.Taken app) s₀ steps s) (k : Uuid)
    (uses : Served → Prop) {ρ : Type} {rows : Database → List ρ} {id : ρ → Uuid}
    {marked : ρ → Prop}
    (hmarks : ∀ p, p.Taken app → Marks app rows id marked p)
    (huses : ∀ p, p.Taken app → uses p → p.before.HasDrawn app k ∧
      (∃ r ∈ rows p.before.db, id r = k ∧ ¬marked r) ∧ ∀ r ∈ rows p.after.db, id r = k → marked r)
    (hp : p ∈ steps) (hq : q ∈ steps) (hup : uses p) (huq : uses q) : p = q := by
  refine h.once_of_mem (fun s => s.HasDrawn app k ∧ ∀ r ∈ rows s.db, id r = k → marked r) uses
    (fun p hp h => ?_) (fun p hp hused => ?_) hp hq hup huq
  · exact marked_stays huuid (Path.nil.snoc hp) hmarks h
  · obtain ⟨hdrawn, ⟨r, hr, hid, hunmarked⟩, hafter⟩ := huses p hp hused
    exact ⟨fun hspent => hunmarked (hspent.2 r hr hid), hp.1.hasDrawn hdrawn, hafter⟩

/-- The marks of a table whose rows keep their identifiers, from what a statement does to them. -/
lemma Marks.of_evolves {ρ : Type} {rows : Database → List ρ} {id : ρ → Uuid} {marked : ρ → Prop}
    {step : Query → Time → ρ → ρ → Prop} {new : Query → Time → Draw → ρ → Prop} (hp : p.Of app)
    (hrows : ∀ {q now n d d'}, Database.Evolves app q now n d d' →
      Evolves (step q now) (new q now n) (rows d) (rows d'))
    (hstep : ∀ {q now r r'}, p.request.may q → step q now r r' →
      id r' = id r ∧ (marked r → marked r'))
    (hnew : ∀ {q now n r}, new q now n r → id r = app.uuid n) : Marks app rows id marked p := by
  have hkeeps : ∃ _ : ℕ, Marks app rows id marked p := by
    rw [Marks, hp.serve]
    refine serve_keeps (J := fun _ d => ∀ r ∈ rows d,
      (∃ r₀ ∈ rows p.before.db, id r₀ = id r ∧ (marked r₀ → marked r)) ∨
        ∃ i, id r = app.uuid ⟨p.before.served, i⟩) (fun _ _ h => h)
      (fun q k d d' hq hd he r hr => ?_) fun r hr => .inl ⟨r, hr, rfl, fun h => h⟩
    rcases (hrows he).mem hr with ⟨r₁, hr₁, hrow⟩ | hadded
    · obtain ⟨hid, hkept⟩ := hstep hq hrow
      rcases hd r₁ hr₁ with ⟨r₀, hr₀, hid₀, hkept₀⟩ | ⟨i, hi⟩
      · exact .inl ⟨r₀, hr₀, hid₀.trans hid.symm, fun h => hkept (hkept₀ h)⟩
      · exact .inr ⟨i, hid.trans hi⟩
    · exact .inr ⟨k, hnew hadded⟩
  exact hkeeps.choose_spec

/-- The marks of the sessions, which every statement changes alike. -/
lemma Marks.sessions {marked : Session → Prop} (hp : p.Of app)
    (hstep : ∀ {now S S'}, Session.Step now S S' → marked S → marked S') :
    Marks app Database.sessions Session.id marked p := by
  refine @Marks.of_evolves app p Session Database.sessions Session.id marked
    (fun _ => Session.Step) _ hp (fun he => he.sessions) (fun _ hrow => ⟨?_, hstep hrow⟩)
    fun hnew => hnew.2.1
  cases hrow <;> rfl

lemma marks_completed (hp : p.Taken app) :
    Marks app Database.loginFlows LoginFlow.id (fun f => f.completedAt.isSome = true) p := by
  refine .of_evolves hp.1 (fun he => he.loginFlows) (fun _ hrow => ?_) fun hnew => hnew.2.1
  cases hrow with
  | same => exact ⟨rfl, fun h => h⟩
  | complete => exact ⟨rfl, fun _ => rfl⟩
  | count => exact ⟨rfl, fun h => h⟩

lemma marks_consumed (hp : p.Taken app) :
    Marks app Database.authorizationCodes AuthorizationCode.id
      (fun c => c.consumedAt.isSome = true) p := by
  refine .of_evolves hp.1 (fun he => he.authorizationCodes) (fun _ hrow => ?_) fun hnew => hnew.2.1
  cases hrow with
  | same => exact ⟨rfl, fun h => h⟩
  | consume => exact ⟨rfl, fun _ => rfl⟩

/-- A flow is completed by one step. -/
lemma completed_once (huuid : Function.Injective app.uuid)
    (h : Path Served.before Served.after (Served.Taken app) s₀ steps s)
    (hp : p ∈ steps) (hq : q ∈ steps) (hup : ∃ f l c, p.Completes app f l c ∧ f.id = k)
    (huq : ∃ f l c, q.Completes app f l c ∧ f.id = k) : p = q := by
  refine marked_once huuid h k (fun p => ∃ f l c, p.Completes app f l c ∧ f.id = k)
    (fun p hp => marks_completed hp) (fun p htaken hused => ?_) hp hq hup huq
  obtain ⟨f, l, c, hcompletes, rfl⟩ := hused
  obtain ⟨hf, -, hpending⟩ := hcompletes.flow
  refine ⟨(htaken.2.keyed huuid).loginFlows.drawn _ (List.mem_map_of_mem hf), ⟨f, hf, rfl, ?_⟩,
    fun f' hf' hid => ?_⟩
  · simp only [LoginFlow.pending, Bool.and_eq_true, Option.isNone_iff_eq_none] at hpending
    simp [hpending.1]
  · rw [hcompletes.completed f' hf' hid]
    rfl

/-- A code is exchanged by one step. -/
lemma redeemed_once (huuid : Function.Injective app.uuid)
    (h : Path Served.before Served.after (Served.Taken app) s₀ steps s)
    (hp : p ∈ steps) (hq : q ∈ steps) (hup : ∃ f c S, p.Redeems app f c S ∧ c.id = k)
    (huq : ∃ f c S, q.Redeems app f c S ∧ c.id = k) : p = q := by
  refine marked_once huuid h k (fun p => ∃ f c S, p.Redeems app f c S ∧ c.id = k)
    (fun p hp => marks_consumed hp) (fun p htaken hused => ?_) hp hq hup huq
  obtain ⟨f, c, S, hredeems, rfl⟩ := hused
  obtain ⟨hc, husable⟩ := hredeems.code
  refine ⟨(htaken.2.keyed huuid).authorizationCodes.drawn _ (List.mem_map_of_mem hc),
    ⟨c, hc, rfl, ?_⟩, fun c' hc' hid => ?_⟩
  · simp only [AuthorizationCode.usable, Bool.and_eq_true, Option.isNone_iff_eq_none] at husable
    simp [husable.1]
  · rw [hredeems.consumed c' hc' hid]
    rfl

end Runs

/-! ### Logins -/

/-- One login: the flow, the link, the code and the session as they were made, and the steps that
made them. -/
structure Trail where
  flow : LoginFlow
  link : MagicLink
  code : AuthorizationCode
  session : Session
  started : Served
  mailed : Served
  completed : Served
  redeemed : Served

/-- The login took place among these steps, in this order. -/
structure Trail.In (app : App) (steps : List Served) (t : Trail) : Prop where
  order : ∃ a b c d e, steps =
    a ++ t.started :: (b ++ t.mailed :: (c ++ t.completed :: (d ++ t.redeemed :: e)))
  starts : t.started.Starts app t.flow
  mails : ∃ f, f.asCreated = t.flow ∧ t.mailed.MailsLink app f t.link
  completes : ∃ f l, f.asCreated = t.flow ∧ l.asMailed = t.link ∧
    t.completed.Completes app f l t.code
  redeems : ∃ f, f.asCreated = t.flow ∧ t.redeemed.Redeems app f t.code t.session

lemma AuthorizationCode.asIssued_of_usable {c : AuthorizationCode} {t : Time}
    (h : c.usable t = true) : c.asIssued = c := by
  simp only [AuthorizationCode.usable, Bool.and_eq_true, Option.isNone_iff_eq_none] at h
  rw [AuthorizationCode.asIssued, ← h.1]

section Trails

variable {app : App} {clock : Time} {steps : List Served} {s : Server}

/-- The step that started a flow. -/
lemma Run.started (huuid : Function.Injective app.uuid)
    (h : Run app { db := {}, served := 0, clock } steps s) {f : LoginFlow}
    (hf : f ∈ s.db.loginFlows) :
    ∃ l p m, steps = l ++ p :: m ∧ p.Starts app f.asCreated := by
  obtain ⟨l, p, m, f₀, hsteps, hstarts, hsame⟩ := (h.path (.start app clock)).born
    (fun s => s.db.loginFlows) LoginFlow.asCreated (Served.Starts app) rfl
    (fun p hp => starts_or_before hp.1 huuid hp.2) f hf
  refine ⟨l, p, m, hsteps, ?_⟩
  rw [← hsame, hstarts.created.1]
  exact hstarts

/-- Two rows of a flow show the same flow started. -/
lemma Run.same_flow (huuid : Function.Injective app.uuid)
    (h : Run app { db := {}, served := 0, clock } steps s) {f f' : LoginFlow} {p : Served}
    (hf : p.Starts app f) (hp : p ∈ steps) {q : Served} (hf' : q.Starts app f') (hq : q ∈ steps)
    (hid : f.id = f'.id) : f = f' := by
  obtain rfl := drawn_once huuid (h.path (.start app clock)) hp hq hf.id (hid ▸ hf'.id)
  exact List.singleton_inj.mp (List.append_cancel_left (hf.added.symm.trans hf'.added))

/-- Every session of a run ends a login of the run. -/
lemma Run.login (huuid : Function.Injective app.uuid)
    (h : Run app { db := {}, served := 0, clock } steps s) :
    ∀ S ∈ s.db.sessions, ∃ t : Trail, t.In app steps ∧ t.session.asOpened = S.asOpened := by
  intro S hS
  obtain ⟨x, p, e, S₀, rfl, ⟨f, c, hredeems⟩, hsame⟩ := (h.path (.start app clock)).born
    (fun s => s.db.sessions) Session.asOpened (fun p S => ∃ f c, p.Redeems app f c S) rfl
    (fun p hp => redeems_or_before hp.1 huuid hp.2) S hS
  have hx := h.around.1
  obtain ⟨hc, husable⟩ := hredeems.code
  obtain ⟨y, q, d, c₀, rfl, ⟨f', l, hcompletes⟩, hcode⟩ := (hx.path (.start app clock)).born
    (fun s => s.db.authorizationCodes) AuthorizationCode.asIssued
    (fun p c => ∃ f l, p.Completes app f l c) rfl
    (fun p hp => completes_or_before hp.1 huuid hp.2) c hc
  rw [AuthorizationCode.asIssued_of_usable husable, hcompletes.issued.1] at hcode
  subst hcode
  have hy := hx.around.1
  obtain ⟨z, r, b, l₀, rfl, ⟨f'', hmails⟩, hlink⟩ := (hy.path (.start app clock)).born
    (fun s => s.db.magicLinks) MagicLink.asMailed (fun p l => ∃ f, p.MailsLink app f l) rfl
    (fun p hp => mailed_or_before hp.1 huuid hp.2) l hcompletes.link.1
  rw [hmails.created.1] at hlink
  have hz := hy.around.1
  obtain ⟨a, t, a', rfl, hstarts⟩ := hz.started huuid hmails.flow.1
  -- the rows of the flow that the later steps saw show the same flow
  have hid' : f''.id = f'.id := by
    rw [hmails.flow.2.1, hcompletes.flow.2.1, hlink]
    rfl
  have hid : f''.id = f.id := by
    rw [hid', hredeems.flow.2, hcompletes.issued.2.2]
  obtain ⟨g, u, g', hu, hstarts'⟩ := hy.started huuid hcompletes.flow.1
  obtain ⟨k, v, k', hv, hstarts''⟩ := hx.started huuid hredeems.flow.1
  have hflow' : f''.asCreated = f'.asCreated :=
    hy.same_flow huuid hstarts (by simp) hstarts' (by rw [hu]; simp) hid'
  have hflow : f''.asCreated = f.asCreated :=
    hx.same_flow huuid hstarts (by simp) hstarts'' (by rw [hv]; simp) hid
  refine ⟨⟨f''.asCreated, l₀, c₀, S₀, t, r, q, p⟩, ⟨⟨a, a', b, d, e, by simp⟩, hstarts,
    ⟨f'', rfl, hmails⟩, ⟨f', l, hflow'.symm, hlink.symm, hcompletes⟩, ⟨f, hflow.symm, hredeems⟩⟩,
    hsame⟩

/-- A step that presents a link presents no other one. -/
lemma Served.Presents.unique (huuid : Function.Injective app.uuid) {p : Served}
    (hreach : Reachable app p.before) {l l' : MagicLink} (hl : l ∈ p.before.db.magicLinks)
    (hl' : l' ∈ p.before.db.magicLinks) (h : p.Presents app l) (h' : p.Presents app l') :
    l = l' := by
  cases h with
  | token hrequest htoken =>
    cases h' with
    | token hrequest' htoken' =>
      obtain ⟨-, rfl⟩ := Request.confirmMagicLink.inj (hrequest.symm.trans hrequest')
      exact List.inj_on_of_nodup_map (hreach.link_hashes huuid) hl hl'
        (htoken.trans htoken'.symm)
    | code hrequest' => cases hrequest.symm.trans hrequest'
  | code hrequest hnewest =>
    cases h' with
    | token hrequest' => cases hrequest.symm.trans hrequest'
    | code hrequest' hnewest' =>
      obtain ⟨-, hflow, -⟩ := Request.confirmMagicCode.inj (hrequest.symm.trans hrequest')
      rw [hflow] at hnewest
      exact Option.some.inj (hnewest.symm.trans hnewest')

namespace Trail.In

variable {t t' : Trail}

lemma mem (h : t.In app steps) : t.started ∈ steps ∧ t.mailed ∈ steps ∧ t.completed ∈ steps ∧
    t.redeemed ∈ steps := by
  obtain ⟨a, b, c, d, e, rfl⟩ := h.order
  simp

lemma flow_link (h : t.In app steps) : t.link.flowId = t.flow.id := by
  obtain ⟨f, hsame, hmails⟩ := h.mails
  rw [← hsame]
  exact hmails.flow.2.1.symm

/-- Logins that share their session share their code. -/
lemma code_of_session (huuid : Function.Injective app.uuid)
    (hrun : Run app { db := {}, served := 0, clock } steps s) (h : t.In app steps)
    (h' : t'.In app steps) (hsession : t.session.id = t'.session.id) :
    t.code.id = t'.code.id := by
  obtain ⟨f, -, hredeems⟩ := h.redeems
  obtain ⟨f', -, hredeems'⟩ := h'.redeems
  have hredeemed : t.redeemed = t'.redeemed := drawn_once huuid (hrun.path (.start app clock))
    h.mem.2.2.2 h'.mem.2.2.2 hredeems.id (hsession ▸ hredeems'.id)
  rw [← hredeemed] at hredeems'
  have hsame := List.singleton_inj.mp
    (List.append_cancel_left (hredeems.added.symm.trans hredeems'.added))
  have hcode := hredeems.session.2.2.1
  rw [hsame, hredeems'.session.2.2.1] at hcode
  exact (Option.some.inj hcode).symm

/-- Logins that share their flow share their code. -/
lemma code_of_flow (huuid : Function.Injective app.uuid)
    (hrun : Run app { db := {}, served := 0, clock } steps s) (h : t.In app steps)
    (h' : t'.In app steps) (hflow : t.flow.id = t'.flow.id) : t.code.id = t'.code.id := by
  obtain ⟨f, l, hf, -, hcompletes⟩ := h.completes
  obtain ⟨f', l', hf', -, hcompletes'⟩ := h'.completes
  have hid : f.id = t.flow.id := by rw [← hf]; rfl
  have hid' : f'.id = t.flow.id := by rw [hflow, ← hf']; rfl
  have hcompleted : t.completed = t'.completed := completed_once huuid
    (hrun.path (.start app clock)) h.mem.2.2.1 h'.mem.2.2.1 ⟨f, l, t.code, hcompletes, hid⟩
    ⟨f', l', t'.code, hcompletes', hid'⟩
  rw [← hcompleted] at hcompletes'
  have hadded := hcompletes.added.symm.trans hcompletes'.added
  rw [List.singleton_inj.mp (List.append_cancel_left hadded)]

/-- Logins that share their link share their flow. -/
lemma flow_of_link (huuid : Function.Injective app.uuid)
    (hrun : Run app { db := {}, served := 0, clock } steps s) (h : t.In app steps)
    (h' : t'.In app steps) (hlink : t.link.id = t'.link.id) :
    t.mailed = t'.mailed ∧ t.flow.id = t'.flow.id := by
  obtain ⟨f, -, hmails⟩ := h.mails
  obtain ⟨f', -, hmails'⟩ := h'.mails
  have hmailed : t.mailed = t'.mailed := drawn_once huuid (hrun.path (.start app clock))
    h.mem.2.1 h'.mem.2.1 hmails.id (hlink ▸ hmails'.id)
  refine ⟨hmailed, ?_⟩
  rw [← hmailed] at hmails'
  have hadded := hmails.added.symm.trans hmails'.added
  rw [← h.flow_link, ← h'.flow_link, List.singleton_inj.mp (List.append_cancel_left hadded)]

/-- Logins that share their code are the same. -/
lemma of_code (huuid : Function.Injective app.uuid)
    (hrun : Run app { db := {}, served := 0, clock } steps s) (h : t.In app steps)
    (h' : t'.In app steps) (hcode : t.code.id = t'.code.id) : t = t' := by
  have hpath := hrun.path (.start app clock)
  obtain ⟨f, -, hredeems⟩ := h.redeems
  obtain ⟨f', -, hredeems'⟩ := h'.redeems
  obtain ⟨f₁, l, -, hlink, hcompletes⟩ := h.completes
  obtain ⟨f₁', l', -, hlink', hcompletes'⟩ := h'.completes
  -- the exchange, and the session with it
  have hredeemed : t.redeemed = t'.redeemed := redeemed_once huuid hpath h.mem.2.2.2 h'.mem.2.2.2
    ⟨f, t.code, t.session, hredeems, rfl⟩ ⟨f', t'.code, t'.session, hredeems', hcode.symm⟩
  have hsession : t.session = t'.session := by
    have hadded := hredeems'.added
    rw [← hredeemed, hredeems.added] at hadded
    exact List.singleton_inj.mp (List.append_cancel_left hadded)
  -- the completion, with the code and the link
  have hcompleted : t.completed = t'.completed := drawn_once huuid hpath h.mem.2.2.1 h'.mem.2.2.1
    hcompletes.id (hcode ▸ hcompletes'.id)
  have hreach : Reachable app t.completed.before := by
    obtain ⟨a, b, hsteps⟩ := List.append_of_mem h.mem.2.2.1
    rw [hsteps] at hpath
    exact hpath.around.2.1.2
  rw [← hcompleted] at hcompletes'
  have hcodes : t.code = t'.code := List.singleton_inj.mp
    (List.append_cancel_left (hcompletes.added.symm.trans hcompletes'.added))
  have hlinks : t.link = t'.link := by
    rw [← hlink, ← hlink', hcompletes.presents.unique huuid hreach hcompletes.link.1
      hcompletes'.link.1 hcompletes'.presents]
  -- the link's email and the flow
  obtain ⟨hmailed, hid⟩ := h.flow_of_link huuid hrun h' (by rw [hlinks])
  have hstarted : t.started = t'.started :=
    drawn_once huuid hpath h.mem.1 h'.mem.1 h.starts.id (hid ▸ h'.starts.id)
  have hflows : t.flow = t'.flow := hrun.same_flow huuid h.starts h.mem.1 h'.starts h'.mem.1 hid
  obtain ⟨flow, link, code, session, started, mailed, completed, redeemed⟩ := t
  simp_all

end Trail.In

/-- A flow, a link, a code or a session belongs to one login of a run. -/
lemma Run.login_unique (huuid : Function.Injective app.uuid)
    (hrun : Run app { db := {}, served := 0, clock } steps s) {t t' : Trail} (h : t.In app steps)
    (h' : t'.In app steps) (hshared : t.flow.id = t'.flow.id ∨ t.link.id = t'.link.id ∨
      t.code.id = t'.code.id ∨ t.session.id = t'.session.id) : t = t' := by
  refine h.of_code huuid hrun h' ?_
  rcases hshared with hflow | hlink | hcode | hsession
  · exact h.code_of_flow huuid hrun h' hflow
  · exact h.code_of_flow huuid hrun h' (h.flow_of_link huuid hrun h' hlink).2
  · exact hcode
  · exact h.code_of_session huuid hrun h' hsession

/-- Every session of a reachable state was opened by one login: a flow started for its client, a
link mailed on that flow, the completion of the flow by that link and the exchange of the code it
issued. No two logins share a flow, a link, a code or a session. -/
theorem sessions_from_logins (huuid : Function.Injective app.uuid)
    (hrun : Run app { db := {}, served := 0, clock } steps s) :
    (∀ S ∈ s.db.sessions, ∃! t : Trail, t.In app steps ∧ t.session.asOpened = S.asOpened) ∧
      ∀ t t' : Trail, t.In app steps → t'.In app steps →
        (t.flow.id = t'.flow.id ∨ t.link.id = t'.link.id ∨ t.code.id = t'.code.id ∨
          t.session.id = t'.session.id) → t = t' := by
  constructor
  · intro S hS
    obtain ⟨t, ht, hsame⟩ := hrun.login huuid S hS
    refine ⟨t, ⟨ht, hsame⟩, ?_⟩
    rintro t' ⟨ht', hsame'⟩
    refine hrun.login_unique huuid ht' ht (.inr (.inr (.inr ?_)))
    have hid : t'.session.asOpened.id = t.session.asOpened.id := by rw [hsame', hsame]
    exact hid
  · intro t t' ht ht' hshared
    exact hrun.login_unique huuid ht ht' hshared

/-- The session of the example server was opened by its login. -/
theorem sessions_from_logins_example :
    ∃ t : Trail, t.In exampleApp (script exampleApp exampleReply .empty exampleLogin).1 ∧
      t.session.id = 14 := by
  have hrun : Run exampleApp .empty (script exampleApp exampleReply .empty exampleLogin).1
      exampleServer := exampleServer_eq ▸ script_run (by decide)
  obtain ⟨t, ⟨ht, hsame⟩, -⟩ :=
    (sessions_from_logins exampleApp_uuid_injective hrun).1 _ (List.mem_singleton_self _)
  have hid : t.session.asOpened.id = 14 := by rw [hsame]; rfl
  exact ⟨t, ht, hid⟩

end Trails

end Bauth
