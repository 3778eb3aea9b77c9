import Bauth.Serial.Login
import Bauth.Serial.Stale

/-!
# Links and guesses elsewhere

Requests on other flows, whatever address they are for, leave a link and its flow alone: the token
of the link still completes its flow until the link expires. A flow that is pending has no code and
outlives its links, so that nothing else is in the way.
-/

namespace Bauth

open Transaction Transaction.Program

variable {app : App}

/-! ### Links and codes with their flows -/

/-- A flow outlives its links, and is completed once it has a code. -/
structure Database.Tied (app : App) (served : ℕ) (d : Database) : Prop where
  linkDrawn : ∀ l ∈ d.magicLinks, Drawn app served 0 l.flowId
  outlived : ∀ l ∈ d.magicLinks, ∀ f ∈ d.loginFlows, f.id = l.flowId → l.expiresAt ≤ f.expiresAt
  normalized : ∀ l ∈ d.magicLinks, ∃ email, l.email = app.unicode.normalize email
  codeDrawn : ∀ c ∈ d.authorizationCodes, Drawn app served 0 c.flowId
  completed : ∀ c ∈ d.authorizationCodes, ∀ f ∈ d.loginFlows, f.id = c.flowId →
    f.completedAt.isSome = true
  hashDrawn : ∀ c ∈ d.authorizationCodes, ∃ n : Draw, n.process < served ∧
    c.codeHash = app.hash (app.secret n)

/-- The links, flows and codes of `d'` are rows of `d`, some time later. -/
structure Database.RowsFrom (d d' : Database) : Prop where
  links : ∀ l' ∈ d'.magicLinks, ∃ l ∈ d.magicLinks, l'.flowId = l.flowId ∧
    l'.expiresAt = l.expiresAt ∧ l'.email = l.email
  flows : ∀ f' ∈ d'.loginFlows, ∃ f ∈ d.loginFlows, f'.id = f.id ∧ f.expiresAt ≤ f'.expiresAt ∧
    (f.completedAt.isSome = true → f'.completedAt.isSome = true)
  codes : ∀ c' ∈ d'.authorizationCodes, ∃ c ∈ d.authorizationCodes, c'.flowId = c.flowId ∧
    c'.codeHash = c.codeHash

lemma Database.RowsFrom.refl (d : Database) : d.RowsFrom d :=
  ⟨fun l hl => ⟨l, hl, rfl, rfl, rfl⟩, fun f hf => ⟨f, hf, rfl, le_rfl, id⟩,
    fun c hc => ⟨c, hc, rfl, rfl⟩⟩

/-- A row that is updated comes from a row of the table. -/
lemma updateWhere_from {ρ : Type} {R : ρ → ρ → Prop} {p : ρ → Bool} {set : ρ → ρ} {rows : List ρ}
    (hrefl : ∀ r, R r r) (hset : ∀ r, R r (set r)) :
    ∀ r' ∈ updateWhere p set rows, ∃ r ∈ rows, R r r' := by
  intro r' hr'
  obtain ⟨r, hr, rfl⟩ := mem_updateWhere.mp hr'
  refine ⟨r, hr, ?_⟩
  split_ifs
  · exact hset r
  · exact hrefl r

/-- Writing to links keeps their identifiers. -/
lemma Database.UniqueIds.updateLinks {d : Database} (h : d.UniqueIds) (p : MagicLink → Bool)
    (set : MagicLink → MagicLink) (hset : ∀ l, (set l).id = l.id) :
    ({ d with magicLinks := updateWhere p set d.magicLinks } : Database).UniqueIds := by
  refine { h with magicLinks := ?_ }
  rw [map_updateWhere]
  · exact h.magicLinks
  · exact hset

lemma Database.UniqueIds.consumeLink {d : Database} (h : d.UniqueIds) (now : Time)
    (tokenHash : Bytes) : (d.consumeLink now tokenHash).UniqueIds :=
  h.updateLinks _ _ fun _ => rfl

lemma Database.UniqueIds.consumeLinkById {d : Database} (h : d.UniqueIds) (now : Time)
    (id : Uuid) : (d.consumeLinkById now id).UniqueIds :=
  h.updateLinks _ _ fun _ => rfl

section Tied

variable {served : ℕ} {d d' : Database}

lemma Database.Tied.next (h : d.Tied app served) : d.Tied app (served + 1) where
  linkDrawn l hl := (h.linkDrawn l hl).next
  outlived := h.outlived
  normalized := h.normalized
  codeDrawn c hc := (h.codeDrawn c hc).next
  completed := h.completed
  hashDrawn c hc := by
    obtain ⟨n, hn, hhash⟩ := h.hashDrawn c hc
    exact ⟨n, Nat.lt_succ_of_lt hn, hhash⟩

lemma Database.Tied.rowsFrom (h : d.Tied app served) (hrows : d.RowsFrom d') :
    d'.Tied app served where
  linkDrawn l' hl' := by
    obtain ⟨l, hl, hflow, -, -⟩ := hrows.links l' hl'
    exact hflow ▸ h.linkDrawn l hl
  outlived l' hl' f' hf' hid := by
    obtain ⟨l, hl, hflow, hexpires, -⟩ := hrows.links l' hl'
    obtain ⟨f, hf, hid', hle, -⟩ := hrows.flows f' hf'
    rw [hexpires]
    exact (h.outlived l hl f hf (hid'.symm.trans (hid.trans hflow))).trans hle
  normalized l' hl' := by
    obtain ⟨l, hl, -, -, hemail⟩ := hrows.links l' hl'
    exact hemail ▸ h.normalized l hl
  codeDrawn c' hc' := by
    obtain ⟨c, hc, hflow, -⟩ := hrows.codes c' hc'
    exact hflow ▸ h.codeDrawn c hc
  completed c' hc' f' hf' hid := by
    obtain ⟨c, hc, hflow, -⟩ := hrows.codes c' hc'
    obtain ⟨f, hf, hid', -, hcompleted⟩ := hrows.flows f' hf'
    exact hcompleted (h.completed c hc f hf (hid'.symm.trans (hid.trans hflow)))
  hashDrawn c' hc' := by
    obtain ⟨c, hc, -, hhash⟩ := hrows.codes c' hc'
    exact hhash ▸ h.hashDrawn c hc

lemma rowsFrom_countRequest (d : Database) (now : Time) (flowId : Uuid) (expiresAt : Time) :
    d.RowsFrom (d.countRequest now flowId expiresAt) where
  links := (Database.RowsFrom.refl d).links
  flows := updateWhere_from (fun _ => ⟨rfl, le_rfl, id⟩) fun _ => ⟨rfl, le_max_left _ _, id⟩
  codes := (Database.RowsFrom.refl d).codes

lemma rowsFrom_updateLinks (d : Database) (p : MagicLink → Bool) (set : MagicLink → MagicLink)
    (hset : ∀ l, (set l).flowId = l.flowId ∧ (set l).expiresAt = l.expiresAt ∧
      (set l).email = l.email) :
    d.RowsFrom { d with magicLinks := updateWhere p set d.magicLinks } where
  links := updateWhere_from (fun _ => ⟨rfl, rfl, rfl⟩) hset
  flows := (Database.RowsFrom.refl d).flows
  codes := (Database.RowsFrom.refl d).codes

lemma rowsFrom_consumeLink (d : Database) (now : Time) (tokenHash : Bytes) :
    d.RowsFrom (d.consumeLink now tokenHash) :=
  rowsFrom_updateLinks _ _ _ fun _ => ⟨rfl, rfl, rfl⟩

lemma rowsFrom_consumeLinkById (d : Database) (now : Time) (id : Uuid) :
    d.RowsFrom (d.consumeLinkById now id) :=
  rowsFrom_updateLinks _ _ _ fun _ => ⟨rfl, rfl, rfl⟩

lemma rowsFrom_failLink (d : Database) (now : Time) (id : Uuid) : d.RowsFrom (d.failLink now id) :=
  rowsFrom_updateLinks _ _ _ fun _ => ⟨rfl, rfl, rfl⟩

/-- A login adds the code of the flow that it completes. -/
lemma Database.Tied.loggedIn {env : Env sig} {flowId : Uuid} {userId : Option Uuid}
    {email : String} {response : Login.LoginResponse} (h : d.Tied app served) (hids : d.UniqueIds)
    (hflow : ∀ f ∈ d.loginFlows, Drawn app served 0 f.id)
    (hlogin : LoggedIn app env served flowId userId email d response d') :
    d'.Tied app (served + 1) := by
  obtain ⟨haccount, henabled, hemail, hf, hid, hpending, i, j, hnew⟩ := hlogin
  rename_i u f w
  obtain ⟨users, rfl, hu⟩ := haccount.tables
  have hrows : d.RowsFrom (({ d with users } : Database).completeFlow env.now flowId) :=
    { Database.RowsFrom.refl d with
      flows := updateWhere_from (fun _ => ⟨rfl, le_rfl, id⟩) fun _ => ⟨rfl, le_rfl, fun _ => rfl⟩ }
  have htied := (h.rowsFrom hrows).next
  refine ⟨htied.linkDrawn, htied.outlived, htied.normalized, fun c hc => ?_,
    fun c hc f' hf' hc' => ?_, fun c hc => ?_⟩
  · rcases List.mem_append.mp hc with hc | hc
    · exact htied.codeDrawn c hc
    · rw [List.mem_singleton.mp hc]
      exact hid ▸ (hflow f hf).next
  · rcases List.mem_append.mp hc with hc | hc
    · exact htied.completed c hc f' hf' hc'
    · obtain rfl := List.mem_singleton.mp hc
      obtain ⟨f₀, hf₀, rfl⟩ := mem_updateWhere.mp hf'
      have hsame : f₀.id = f.id := by
        split_ifs at hc'
        · exact hc'.trans hid.symm
        · exact hc'.trans hid.symm
      obtain rfl := List.inj_on_of_nodup_map hids.loginFlows hf₀ hf hsame
      simp [hid, hpending]
  · rcases List.mem_append.mp hc with hc | hc
    · exact htied.hashDrawn c hc
    · rw [List.mem_singleton.mp hc]
      exact ⟨⟨served, j⟩, Nat.lt_succ_self _, rfl⟩

/-- A link that is mailed belongs to a flow that outlives it. -/
lemma Database.Tied.mailed {env : Env sig} {flowId : Uuid} {userId : Option Uuid}
    {email : String} {f : LoginFlow} (h : d.Tied app served) (hids : d.UniqueIds)
    (hflow : ∀ f ∈ d.loginFlows, Drawn app served 0 f.id) (hf : d.countable flowId env.now f)
    (i j n : ℕ) : Database.Tied app (served + 1)
      { d.countRequest env.now flowId (env.utc + codeTtl) with
        magicLinks := d.magicLinks ++
          [newLink app served env.now flowId userId email env.utc i j n] } := by
  obtain ⟨hf, hid, hpending, hcount⟩ := hf
  have htied := (h.rowsFrom (rowsFrom_countRequest d env.now flowId (env.utc + codeTtl))).next
  refine ⟨fun l hl => ?_, fun l hl f' hf' hl' => ?_, fun l hl => ?_, htied.codeDrawn,
    htied.completed, htied.hashDrawn⟩
  · rcases List.mem_append.mp hl with hl | hl
    · exact htied.linkDrawn l hl
    · rw [List.mem_singleton.mp hl]
      exact hid ▸ (hflow f hf).next
  · rcases List.mem_append.mp hl with hl | hl
    · exact htied.outlived l hl f' hf' hl'
    · obtain rfl := List.mem_singleton.mp hl
      obtain ⟨f₀, hf₀, rfl⟩ := mem_updateWhere.mp hf'
      have hsame : f₀.id = f.id := by
        split_ifs at hl'
        · exact hl'.trans hid.symm
        · exact hl'.trans hid.symm
      obtain rfl := List.inj_on_of_nodup_map hids.loginFlows hf₀ hf hsame
      simp [hid, hpending, hcount, newLink]
  · rcases List.mem_append.mp hl with hl | hl
    · exact htied.normalized l hl
    · rw [List.mem_singleton.mp hl]
      exact ⟨email, rfl⟩

/-- A statement that adds no flow, link or code, and extends no flow, keeps their ties. -/
lemma Database.Tied.evolves {q : Query} {now : Time} {n : Draw} (h : d.Tied app served)
    (hd : d.Evolves app q now n d') (hflow : q ≠ .loginFlowsCreate)
    (hcount : q ≠ .loginFlowsCountMagicLinkRequest) (hlink : q ≠ .magicLinksCreate)
    (hcode : q ≠ .authorizationCodesCreate) : d'.Tied app served := by
  refine h.rowsFrom ⟨fun l' hl' => ?_, fun f' hf' => ?_, fun c' hc' => ?_⟩
  · rcases hd.magicLinks.mem hl' with ⟨l, hl, hstep⟩ | hnew
    · exact ⟨l, hl, by cases hstep <;> exact ⟨rfl, rfl, rfl⟩⟩
    · exact absurd hnew.1 hlink
  · rcases hd.loginFlows.mem hf' with ⟨f, hf, hstep⟩ | hnew
    · refine ⟨f, hf, ?_⟩
      cases hstep with
      | same => exact ⟨rfl, le_rfl, id⟩
      | complete => exact ⟨rfl, le_rfl, fun _ => rfl⟩
      | count hq => exact absurd hq hcount
    · exact absurd hnew.1 hflow
  · rcases hd.authorizationCodes.mem hc' with ⟨c, hc, hstep⟩ | hnew
    · exact ⟨c, hc, by cases hstep <;> exact ⟨rfl, rfl⟩⟩
    · exact absurd hnew.1 hcode

/-- A new flow has no link and no code. -/
lemma Database.Tied.created {f : LoginFlow} (h : d.Tied app served)
    (hf : ¬Drawn app served 0 f.id) :
    Database.Tied app served { d with loginFlows := d.loginFlows ++ [f] } where
  linkDrawn := h.linkDrawn
  outlived l hl f' hf' hid := by
    rcases List.mem_append.mp hf' with hf' | hf'
    · exact h.outlived l hl f' hf' hid
    · obtain rfl := List.mem_singleton.mp hf'
      exact absurd (hid ▸ h.linkDrawn l hl) hf
  normalized := h.normalized
  codeDrawn := h.codeDrawn
  completed c hc f' hf' hid := by
    rcases List.mem_append.mp hf' with hf' | hf'
    · exact h.completed c hc f' hf' hid
    · obtain rfl := List.mem_singleton.mp hf'
      exact absurd (hid ▸ h.codeDrawn c hc) hf
  hashDrawn := h.hashDrawn

end Tied

/-- Links, flows and codes are tied in every reachable state. -/
theorem Reachable.tied (huuid : Function.Injective app.uuid) {s : Server} (hs : Reachable app s) :
    s.db.Tied app s.served := by
  refine hs.invariant (P := fun s => s.db.Tied app s.served)
    (fun _ => ⟨by simp, by simp, by simp, by simp, by simp, by simp⟩) fun p hp hreach h => ?_
  have hkeyed := hreach.keyed huuid
  have hids := hkeyed.uniqueIds
  have hflow : ∀ f ∈ p.before.db.loginFlows, Drawn app p.before.served 0 f.id := fun f hf =>
    hkeyed.loginFlows.drawn _ (List.mem_map_of_mem hf)
  have hout := hp.outcome huuid hkeyed
  rw [hp.after_served]
  have hother (hmay : ∀ q, p.request.may q → q ≠ .loginFlowsCreate ∧
      q ≠ .loginFlowsCountMagicLinkRequest ∧ q ≠ .magicLinksCreate ∧
      q ≠ .authorizationCodesCreate) : p.after.db.Tied app (p.before.served + 1) := by
    have hkeeps : ∃ _ : ℕ, p.after.db.Tied app p.before.served := by
      rw [hp.serve]
      refine serve_keeps (J := fun _ d => d.Tied app p.before.served) (fun _ _ h => h)
        (fun q k d d' hq hd hstep => ?_) h
      obtain ⟨hflow, hcount, hlink, hcode⟩ := hmay q hq
      exact hd.evolves hstep hflow hcount hlink hcode
    exact hkeeps.choose_spec.next
  generalize hrequest : p.request = request at hout hother
  generalize p.after.db = d' at hout hother ⊢
  generalize p.response = response at hout
  generalize p.events = events at hout
  cases hout with
  | createFlow hcreated =>
    cases hcreated with
    | refused => exact h.next
    | created _ _ i => exact (h.created (not_drawn huuid (Nat.zero_le i))).next
  | requestMagicLink hrequested =>
    cases hrequested with
    | refused => exact h.next
    | failed => exact (h.rowsFrom (rowsFrom_countRequest _ _ _ _)).next
    | counted => exact (h.rowsFrom (rowsFrom_countRequest _ _ _ _)).next
    | mailed hf _ _ i j n => exact h.mailed hids hflow hf i j n
  | confirmMagicLink hconfirmed =>
    cases hconfirmed with
    | refused => exact h.next
    | loggedIn _ _ _ hlogin =>
      exact (h.rowsFrom (rowsFrom_consumeLink _ _ _)).loggedIn (hids.consumeLink _ _) hflow hlogin
  | confirmMagicCode hconfirmed =>
    cases hconfirmed with
    | refused => exact h.next
    | wrong =>
      exact (h.rowsFrom (rowsFrom_failLink _ _ _)).next
    | loggedIn _ _ hlogin =>
      exact (h.rowsFrom (rowsFrom_consumeLinkById _ _ _)).loggedIn (hids.consumeLinkById _ _) hflow
        hlogin
  | _ =>
    refine hother fun q hq => ?_
    simp only [Request.may, Query.ChecksCode] at hq <;> aesop

/-! ### Requests elsewhere -/

/-- The account a link was sent to is enabled and still at the address; a sign-up waits for one
that is. -/
def Database.Welcomes (d : Database) (l : MagicLink) : Prop :=
  match l.userId with
  | some id => ∃ u ∈ d.users, u.id = id ∧ u.email = l.email ∧ u.disabledAt = none
  | none => ∀ u ∈ d.users, u.email = l.email → u.disabledAt = none

/-- A request of somebody who knows neither the flow of the link nor a secret mailed for it: no
request for the flow and none with a token of its links, no deletion or confirmed email change of
the link's account. The purge and the operator are left out. -/
def Served.Elsewhere (app : App) (l : MagicLink) (p : Served) : Prop :=
  match p.request with
  | .requestMagicLink _ flowId _ => flowId ≠ l.flowId
  | .confirmMagicCode _ flowId _ => flowId ≠ l.flowId
  | .confirmMagicLink _ token =>
    ∀ l' ∈ p.before.db.magicLinks, l'.tokenHash = app.hash token → l'.flowId ≠ l.flowId
  | .deleteAccount _ authorization _ =>
    ∀ user, Authenticated app ⟨p.time, p.time, p.reply⟩ authorization p.before.db user →
      l.userId ≠ some user.id
  | .confirmEmailChange _ token =>
    ∀ c ∈ p.before.db.emailChanges, c.tokenHash = app.hash token → l.userId ≠ some c.userId
  | .purge _ | .setDisabled .. => False
  | _ => True

/-- The link and its flow are there as they are, and the link's account is welcome. -/
structure Database.Intact (l : MagicLink) (f : LoginFlow) (d : Database) : Prop where
  link : l ∈ d.magicLinks
  flow : f ∈ d.loginFlows
  account : d.Welcomes l

/-- A row that an update leaves alone is in the table. -/
lemma mem_updateWhere_else {ρ : Type} {p : ρ → Bool} {set : ρ → ρ} {rows : List ρ} {r : ρ}
    (hr : r ∈ rows) (hp : p r = false) : r ∈ updateWhere p set rows :=
  mem_updateWhere.mpr ⟨r, hr, by simp [hp]⟩

section Intact

variable {env : Env sig} {process : ℕ} {l : MagicLink} {f : LoginFlow} {d d' : Database}

/-- Accounts that keep their address, and are enabled if they were, keep the link welcome. -/
lemma Database.Welcomes.update {p : User → Bool} {set : User → User} (h : d.Welcomes l)
    (hset : ∀ u ∈ d.users, p u = true → (set u).id = u.id ∧ (set u).disabledAt = u.disabledAt ∧
      (set u).email = u.email) :
    Database.Welcomes { d with users := updateWhere p set d.users } l := by
  unfold Welcomes at h ⊢
  split at h
  · obtain ⟨u, hu, hid, hemail, henabled⟩ := h
    refine ⟨if p u then set u else u, mem_updateWhere.mpr ⟨u, hu, rfl⟩, ?_⟩
    split_ifs with hp
    · obtain ⟨hid', hdisabled', hemail'⟩ := hset u hu hp
      exact ⟨hid'.trans hid, hemail'.trans hemail, hdisabled'.trans henabled⟩
    · exact ⟨hid, hemail, henabled⟩
  · intro u' hu' hemail
    obtain ⟨u, hu, rfl⟩ := mem_updateWhere.mp hu'
    split_ifs at hemail ⊢ with hp
    · obtain ⟨-, hdisabled', hemail'⟩ := hset u hu hp
      exact hdisabled'.trans (h u hu (hemail'.symm.trans hemail))
    · exact h u hu hemail

lemma Account.welcomes {userId : Option Uuid} {email : String} {now : Time} {u : User}
    {w : Database} (haccount : Account app process now userId email d u w) (h : d.Welcomes l) :
    w.Welcomes l := by
  cases haccount with
  | known => exact h
  | sameAddress => exact h
  | created hid hfree i =>
    unfold Database.Welcomes at h ⊢
    split at h
    · obtain ⟨u, hu, hrest⟩ := h
      exact ⟨u, List.mem_append_left _ hu, hrest⟩
    · intro u hu hemail
      rcases List.mem_append.mp hu with hu | hu
      · exact h u hu hemail
      · rw [List.mem_singleton.mp hu]
        rfl

/-- Logging in on another flow leaves the link and its flow alone. -/
lemma LoggedIn.intact {flowId : Uuid} {userId : Option Uuid} {email : String}
    {response : Login.LoginResponse} (hlogin : LoggedIn app env process flowId userId email d
      response d') (hflow : f.id ≠ flowId) (h : d.Intact l f) : d'.Intact l f := by
  obtain ⟨haccount, henabled, hemail, hf, hid, hpending, i, j, hnew⟩ := hlogin
  have hw := haccount.welcomes h.account
  obtain ⟨users, rfl, hu⟩ := haccount.tables
  refine ⟨h.link, mem_updateWhere_else h.flow (by simp [hflow]), ?_⟩
  exact hw.update fun u _ _ => ⟨rfl, rfl, rfl⟩

lemma Database.Intact.countRequest {now : Time} {flowId : Uuid} {expiresAt : Time}
    (h : d.Intact l f) (hflow : f.id ≠ flowId) : (d.countRequest now flowId expiresAt).Intact l f :=
  ⟨h.link, mem_updateWhere_else h.flow (by simp [hflow]), h.account⟩

lemma Database.Intact.updateLinks {p : MagicLink → Bool} {set : MagicLink → MagicLink}
    (h : d.Intact l f) (hp : p l = false) :
    Database.Intact l f { d with magicLinks := updateWhere p set d.magicLinks } :=
  ⟨mem_updateWhere_else h.link hp, h.flow, h.account⟩

lemma Database.Intact.of_eq (h : d.Intact l f) (hlinks : d'.magicLinks = d.magicLinks)
    (hflows : d'.loginFlows = d.loginFlows) (husers : d'.users = d.users) : d'.Intact l f where
  link := hlinks ▸ h.link
  flow := hflows ▸ h.flow
  account := by
    have haccount := h.account
    unfold Database.Welcomes at haccount ⊢
    rw [husers]
    exact haccount

lemma Database.Intact.settle {r : RefreshToken} {utc now : Time} (h : d.Intact l f) :
    (d.settle r utc now).Intact l f := by
  unfold Database.settle
  split <;> exact h.of_eq rfl rfl rfl

lemma Database.Intact.deleteUser {id : Uuid} (h : d.Intact l f) (hid : l.userId ≠ some id) :
    (d.deleteUsers fun u => u.id = id).Intact l f where
  link := by
    refine List.mem_filter.mpr ⟨h.link, ?_⟩
    cases hl : l.userId with
    | none => rfl
    | some userId =>
      have hne : userId ≠ id := fun heq => hid (heq ▸ hl)
      simp only [Option.any_some, Bool.not_eq_true', List.any_eq_false, Bool.and_eq_true,
        decide_eq_true_eq, not_and]
      exact fun u _ hu huid => hne (hu.symm.trans huid)
  flow := h.flow
  account := by
    have haccount := h.account
    unfold Database.Welcomes at haccount ⊢
    split at haccount
    · rename_i userId hl
      obtain ⟨u, hu, huid, hrest⟩ := haccount
      refine ⟨u, List.mem_filter.mpr ⟨hu, ?_⟩, huid, hrest⟩
      have hne : u.id ≠ id := fun heq => hid (by rw [hl, ← huid, heq])
      simpa using hne
    · exact fun u hu => haccount u (List.mem_filter.mp hu).1

/-- Moving another account leaves the link alone: one that comes to its address is enabled. -/
lemma Database.Intact.moveAddress {now : Time} {id : Uuid} {fromEmail toEmail : String}
    (h : d.Intact l f) (hids : (d.users.map User.id).Nodup) (hid : l.userId ≠ some id)
    (huser : ∃ u ∈ d.users, u.id = id ∧ u.email = fromEmail ∧ u.disabledAt = none) :
    (d.moveAddress now id fromEmail toEmail).Intact l f where
  link := h.link
  flow := h.flow
  account := by
    have haccount := h.account
    unfold Database.Welcomes at haccount ⊢
    split at haccount
    · rename_i userId hl
      obtain ⟨u, hu, huid, hrest⟩ := haccount
      have hne : u.id ≠ id := fun heq => hid (by rw [hl, ← huid, heq])
      exact ⟨u, mem_updateWhere_else hu (by simp [hne]), huid, hrest⟩
    · intro u' hu' hemail
      obtain ⟨u, hu, rfl⟩ := mem_updateWhere.mp hu'
      split_ifs at hemail ⊢ with hp
      · obtain ⟨u₀, hu₀, hid₀, -, henabled⟩ := huser
        simp only [Bool.and_eq_true, decide_eq_true_eq] at hp
        obtain rfl := List.inj_on_of_nodup_map hids hu hu₀ (hp.1.trans hid₀.symm)
        exact henabled
      · exact haccount u hu hemail

end Intact

/-- A request elsewhere leaves the link, its flow and its welcome alone. -/
theorem Served.Elsewhere.intact (huuid : Function.Injective app.uuid) {p : Served} (hp : p.Of app)
    (hreach : Reachable app p.before) {l : MagicLink} {f : LoginFlow} (hid : f.id = l.flowId)
    (helse : p.Elsewhere app l) (h : p.before.db.Intact l f) : p.after.db.Intact l f := by
  have hkeyed := hreach.keyed huuid
  have hids := hkeyed.uniqueIds
  have hout := hp.outcome huuid hkeyed
  unfold Served.Elsewhere at helse
  generalize p.request = request at hout helse
  generalize p.after.db = d' at hout ⊢
  generalize p.response = response at hout
  generalize p.events = events at hout
  cases hout with
  | createFlow hcreated =>
    cases hcreated with
    | refused => exact h
    | created => exact ⟨h.link, List.mem_append_left _ h.flow, h.account⟩
  | @requestMagicLink ip email flowId _ _ _ hrequested =>
    have hflow : f.id ≠ flowId := fun heq => helse (heq.symm.trans hid)
    cases hrequested with
    | refused => exact h
    | failed => exact h.countRequest hflow
    | counted => exact h.countRequest hflow
    | mailed =>
      exact ⟨List.mem_append_left _ h.link, (h.countRequest hflow).flow, h.account⟩
  | confirmMagicLink hconfirmed =>
    cases hconfirmed with
    | refused => exact h
    | loggedIn hl htoken _ hlogin =>
      have hflow := helse _ hl htoken
      refine hlogin.intact (fun heq => hflow (heq.symm.trans hid)) (h.updateLinks ?_)
      have hhash : l.tokenHash ≠ _ := fun heq => helse l h.link heq rfl
      simp [hhash]
  | @confirmMagicCode ip code flowId _ _ _ hconfirmed =>
    have hflow : f.id ≠ flowId := fun heq => helse (heq.symm.trans hid)
    have hother : ∀ l', p.before.db.newestLink flowId = some l' → l.id ≠ l'.id := by
      intro l' hl' heq
      obtain ⟨hl', hflow'⟩ := mem_of_newestLink hl'
      obtain rfl := List.inj_on_of_nodup_map hids.magicLinks h.link hl' heq
      exact helse hflow'.symm
    cases hconfirmed with
    | refused => exact h
    | wrong hl => exact h.updateLinks (by simp [hother _ hl.newest])
    | loggedIn hl _ hlogin =>
      exact hlogin.intact hflow (h.updateLinks (by simp [hother _ hl.newest]))
  | exchange _ hexchanged => cases hexchanged <;> exact h.of_eq rfl rfl rfl
  | refresh _ hrefreshed =>
    cases hrefreshed with
    | disabled => exact h.settle.of_eq rfl rfl rfl
    | issued => exact h.settle.of_eq rfl rfl rfl
    | _ => exact h.of_eq rfl rfl rfl
  | otherGrant => exact h
  | revoke => exact h.of_eq rfl rfl rfl
  | revokeRefused => exact h
  | getMe => exact h
  | listSessions => exact h
  | revokeSession hended => cases hended <;> exact h.of_eq rfl rfl rfl
  | requestConfirmation hrequested => cases hrequested <;> exact h.of_eq rfl rfl rfl
  | changeEmail hchanged => cases hchanged <;> exact h.of_eq rfl rfl rfl
  | deleteAccount hdeleted =>
    cases hdeleted with
    | refused => exact h
    | wrong => exact h.of_eq rfl rfl rfl
    | deleted huser => exact Database.Intact.deleteUser (h.of_eq rfl rfl rfl) (helse _ huser)
  | confirmEmailChange hconfirmed =>
    cases hconfirmed with
    | refused => exact h
    | moved hc htoken _ huser =>
      obtain ⟨u, hu, hid, hemail, henabled⟩ := huser
      exact Database.Intact.moveAddress (h.of_eq rfl rfl rfl) hids.users (helse _ hc htoken)
        ⟨u, hu, hid, hemail, henabled⟩
  | purge => exact helse.elim
  | setDisabled => exact helse.elim

/-! ### The link is confirmed -/

section Confirm

variable {env : Env sig} {process : ℕ} {l : MagicLink} {f : LoginFlow} {d v : Database}
  {events : List Event}

/-- The account of a welcome link is found, or created for a sign-up. -/
lemma wp_account_of_welcomes (hids : (v.users.map User.id).Nodup) (hwelcome : v.Welcomes l)
    (hemail : app.unicode.normalize l.email = l.email)
    {Q : Except ApiError (Option User) → Point sig → Prop}
    (hsome : ∀ u w, Account app process env.now l.userId l.email v u w → u.disabledAt = none →
      u.email = l.email → Q (.ok (some u)) ⟨d, some w, events⟩) :
    Handler.wp env process (MagicLink.account app l.userId l.email) ⟨d, some v, events⟩ Q := by
  unfold Database.Welcomes at hwelcome
  cases hl : l.userId with
  | some id =>
    simp only [hl] at hwelcome
    obtain ⟨u, hu, hid, huemail, henabled⟩ := hwelcome
    have hfind : v.users.find? (fun u => u.id = id) = some u :=
      (find?_key_iff hids).mpr ⟨hu, hid⟩
    simp only [MagicLink.account, wp_run, Users.findById, wp_select, Point.view, Option.getD_some,
      hfind]
    exact hsome u v (.known hl hfind) henabled huemail
  | none =>
    simp only [hl] at hwelcome
    simp only [MagicLink.account, wp_bind, wp_run, wp_query]
    intro i
    cases hu : v.users.find? fun u => u.email = app.unicode.normalize l.email with
    | some u =>
      have hmem := List.mem_of_find?_eq_some hu
      have huemail : u.email = app.unicode.normalize l.email := by simpa using List.find?_some hu
      have hany : (v.users.any fun u => u.email = app.unicode.normalize l.email) = true :=
        List.any_eq_true.mpr ⟨u, hmem, by simpa using huemail⟩
      simp only [Users.create, Point.view, Option.getD_some, hany, if_true, wp_run,
        Users.findByEmail, wp_select, Point.write, hu]
      have hsame := huemail.trans hemail
      exact hsome u v (.sameAddress hl hu) (hwelcome u hmem hsame) hsame
    | none =>
      have hfree : ∀ u ∈ v.users, u.email ≠ app.unicode.normalize l.email := by
        simpa using List.find?_eq_none.mp hu
      have hany : (v.users.any fun u => u.email = app.unicode.normalize l.email) = false := by
        simpa using hfree
      simp only [Users.create, Point.view, Option.getD_some, hany, Bool.false_eq_true, if_false,
        wp_pure, Point.write]
      exact hsome _ _ (.created hl hfree i) rfl hemail

/-- A pending flow without a code is completed. -/
lemma wp_complete_of_pending {flowId userId : Uuid} (hids : v.UniqueIds) (hf : f ∈ v.loginFlows)
    (hid : f.id = flowId) (hpending : f.pending env.now = true)
    (huser : ∃ u ∈ v.users, u.id = userId)
    (hcodes : ∀ c ∈ v.authorizationCodes,
      c.flowId ≠ flowId ∧ ∀ j, c.codeHash ≠ (app.generateToken ⟨process, j⟩).hash)
    {Q : Except ApiError (Option Login.LoginResponse) → Point sig → Prop}
    (hok : ∀ response w, { f with completedAt := some env.now } ∈ w.loginFlows →
      Q (.ok (some response)) ⟨d, some w, events⟩) :
    Handler.wp env process (Login.complete app flowId userId) ⟨d, some v, events⟩ Q := by
  have hcompleted : { f with completedAt := some env.now } ∈
      (v.completeFlow env.now flowId).loginFlows :=
    mem_updateWhere_of (f := fun f : LoginFlow => { f with completedAt := some env.now }) hf
      (by simp [hid, hpending])
  have hhit : v.loginFlows.filter (fun f => f.id = flowId && f.pending env.now) = [f] :=
    filter_eq_singleton hids.loginFlows hf (by simp [hid, hpending]) fun f' _ hf' => by
      simp only [Bool.and_eq_true, decide_eq_true_eq] at hf'
      exact hf'.1.trans hid.symm
  simp only [Login.complete, wp_bind, wp_run]
  rw [LoginFlows.complete, wp_update hids.loginFlows]
  simp only [Bool.not_eq_true', decide_eq_false_iff_not, wp_ite]
  refine ⟨fun hmiss => absurd (congrArg List.length hhit) hmiss, fun _ => ?_⟩
  simp only [wp_bind, wp_perform, wp_fresh, wp_clock, wp_runChecked, wp_query]
  intro j i
  have hfree : ¬(v.authorizationCodes.any fun c =>
      c.codeHash = (app.generateToken ⟨process, j⟩).hash || c.flowId = flowId) = true := by
    simp only [List.any_eq_true, Bool.or_eq_true, decide_eq_true_eq, not_exists, not_and, not_or]
    exact fun c hc => ⟨(hcodes c hc).2 j, (hcodes c hc).1⟩
  have hthere : (((v.completeFlow env.now flowId).loginFlows.any fun f => f.id = flowId) &&
      v.users.any fun u => u.id = userId) = true := by
    simp only [Bool.and_eq_true, List.any_eq_true, decide_eq_true_eq]
    exact ⟨⟨_, hcompleted, hid⟩, huser⟩
  have hrun : (AuthorizationCodes.create app (app.generateToken ⟨process, j⟩).hash flowId userId
      (env.utc + Login.authorizationCodeTtl)).run env.now ⟨process, i⟩
      (v.completeFlow env.now flowId) = (fun d => { d with
        authorizationCodes := d.authorizationCodes ++
          [newCode app process env.now flowId userId env.utc i j] }, .ok ()) :=
    (if_neg hfree).trans (if_pos hthere)
  rw [show Point.view _ = v.completeFlow env.now flowId from rfl, hrun]
  exact hok _ _ hcompleted

/-- Whom a welcome link is for logs in on its flow, as long as the flow is pending. -/
lemma wp_logIn_of_welcomes {stale : ApiError} (hids : v.UniqueIds)
    (hfresh : v.FreshUsers app process) (hf : f ∈ v.loginFlows) (hwelcome : v.Welcomes l)
    (hid : f.id = l.flowId) (hpending : f.pending env.now = true)
    (hemail : app.unicode.normalize l.email = l.email)
    (hcodes : ∀ c ∈ v.authorizationCodes,
      c.flowId ≠ l.flowId ∧ ∀ j, c.codeHash ≠ (app.generateToken ⟨process, j⟩).hash)
    {Q : Except ApiError Login.LoginResponse → Point sig → Prop}
    (hok : ∀ response w, { f with completedAt := some env.now } ∈ w.loginFlows →
      Q (.ok response) ⟨d, some w, events⟩) :
    Handler.wp env process (MagicLink.logIn app l.flowId l.userId l.email stale)
      ⟨d, some v, events⟩ Q := by
  simp only [MagicLink.logIn, wp_bind, throw_bind]
  refine wp_account_of_welcomes hids.users hwelcome hemail fun u w haccount henabled huemail => ?_
  have hwids := haccount.uniqueIds hids hfresh
  obtain ⟨users, rfl, hu⟩ := haccount.tables
  simp only [henabled, huemail, Option.isSome_none, Bool.false_eq_true, if_false, ne_eq,
    not_true_eq_false, wp_bind, wp_run]
  rw [Users.markEmailVerified, wp_update hwids.users]
  refine wp_complete_of_pending (v := ({ v with users } : Database).verifyEmail env.now u.id l.email)
    ?_ hf hid hpending ?_ hcodes fun response w hcompleted => hok response w hcompleted
  · refine { hwids with users := ?_ }
    simp only [Database.verifyEmail]
    rw [map_updateWhere]
    · exact hwids.users
    · exact fun _ => rfl
  · refine ⟨_, mem_updateWhere.mpr ⟨u, hu, rfl⟩, ?_⟩
    split_ifs <;> rfl

/-- A link that nothing stands in the way of is confirmed, and its flow completed. -/
lemma confirm_completes {ip token : String} (hids : d.UniqueIds)
    (hfresh : d.FreshUsers app process) (hhashes : (d.magicLinks.map MagicLink.tokenHash).Nodup)
    (h : d.Intact l f) (hid : f.id = l.flowId) (htoken : app.hash token = l.tokenHash)
    (husable : l.usable env.now = true) (hpending : f.pending env.now = true)
    (hemail : app.unicode.normalize l.email = l.email)
    (hcodes : ∀ c ∈ d.authorizationCodes,
      c.flowId ≠ l.flowId ∧ ∀ j, c.codeHash ≠ (app.generateToken ⟨process, j⟩).hash)
    (hlimit : env.reply (.limit .tokenPerIp ip) = none) :
    Handler.wp env process (MagicLink.confirm app ip token) ⟨d, none, events⟩ fun a c =>
      (∃ response, a = .ok response) ∧
        { f with completedAt := some env.now } ∈ c.db.loginFlows := by
  have hhit : (d.magicLinks.filter fun l =>
      decide (l.tokenHash = app.hash token) && l.usable env.now).head? = some l :=
    head?_filter_eq hhashes h.link (by simp [htoken, husable]) fun l' hl' => by
      simp only [Bool.and_eq_true, decide_eq_true_eq] at hl'
      exact hl'.1.trans htoken
  simp only [MagicLink.confirm, wp_bind]
  rw [wp_checkLimit, hlimit]
  simp only [wp_perform, wp_start, wp_run]
  rw [MagicLinks.consume, wp_update hids.magicLinks]
  simp only [Point.view, Option.getD_some, Table.magicLinks, Point.write, hhit, Option.map_some,
    wp_bind]
  exact wp_logIn_of_welcomes (v := d.consumeLink env.now (app.hash token)) (hids.consumeLink _ _)
    hfresh h.flow h.account hid hpending hemail hcodes fun response w hcompleted =>
      ⟨⟨response, rfl⟩, hcompleted⟩

lemma wp_findCodeCandidate_of {flowId : Uuid} (h : v.Candidate flowId env.now l)
    {Q : Option MagicLinks.CodeCandidate → Point sig → Prop}
    (hsome : Q (some { id := l.id, userId := l.userId, email := l.email, codeHash := l.codeHash })
      ⟨d, some v, events⟩) :
    Program.wp env process
      (MagicLinks.findCodeCandidate flowId maxFailuresPerCode maxFailuresPerDay)
      ⟨d, some v, events⟩ Q := by
  simp only [MagicLinks.findCodeCandidate, Program.wp_bind, MagicLinks.newestEmail, wp_select,
    Point.view, Option.getD_some, h.newest, Option.map_some]
  rw [wp_lockAddress]
  simp only [MagicLinks.selectCandidate, wp_select, Point.view, Option.getD_some, h.newest]
  rw [if_pos (by simp [h.usable, h.failures, h.budget])]
  exact hsome

/-- The right code of the link it is checked against is accepted, if nothing stands in the way. -/
lemma confirmCode_completes {ip code : String} (hids : d.UniqueIds)
    (hfresh : d.FreshUsers app process) (h : d.Intact l f) (hid : f.id = l.flowId)
    (hcandidate : d.Candidate l.flowId env.now l) (hformat : isWellFormed code = true)
    (hright : app.verifyCode app.magicLinkKey l.flowId code l.codeHash = true)
    (hpending : f.pending env.now = true) (hemail : app.unicode.normalize l.email = l.email)
    (hcodes : ∀ c ∈ d.authorizationCodes,
      c.flowId ≠ l.flowId ∧ ∀ j, c.codeHash ≠ (app.generateToken ⟨process, j⟩).hash)
    (hlimit : env.reply (.limit .tokenPerIp ip) = none) :
    Handler.wp env process (MagicLink.confirmCode app ip l.flowId code) ⟨d, none, events⟩
      fun a _ => ∃ response, a = .ok response := by
  simp only [MagicLink.confirmCode, wp_bind]
  rw [wp_checkLimit, hlimit]
  rw [wp_checkFormat]
  refine ⟨fun _ => ?_, fun hnot => absurd (hformat.symm.trans hnot) (by simp)⟩
  simp only [wp_perform, wp_start]
  refine wp_findCodeCandidate_of hcandidate ?_
  simp only [wp_bind, wp_verifyCode, hright, Bool.not_true, Bool.false_eq_true, if_false, wp_run]
  rw [MagicLinks.consumeById, wp_update hids.magicLinks]
  exact wp_logIn_of_welcomes (v := d.consumeLinkById env.now l.id) (hids.consumeLinkById _ _)
    hfresh h.flow h.account hid hpending hemail hcodes fun response w _ => ⟨response, rfl⟩

end Confirm

/-! ### Normalized addresses -/

/-- Lower-casing a trimmed text leaves no space to trim. -/
lemma trimSpaces_map {s : List Char} {lower : Char → Char}
    (hspace : ∀ c, lower c = ' ' → c = ' ') :
    trimSpaces ((trimSpaces s).map lower) = (trimSpaces s).map lower := by
  have hhead : ((trimSpaces s).map lower).dropWhile (· = ' ') = (trimSpaces s).map lower := by
    rw [List.dropWhile_eq_self_iff]
    intro h
    rw [List.length_map] at h
    have hprefix : trimSpaces s <+: s.dropWhile (· = ' ') := List.rdropWhile_prefix _ _
    have hne := hprefix.ne_nil (List.ne_nil_of_length_pos h)
    have hfirst := List.head_dropWhile_not (· = ' ') hne
    rw [List.head_eq_getElem, ← hprefix.getElem h] at hfirst
    rw [List.getElem_map, decide_eq_true_eq]
    exact fun heq => of_decide_eq_false hfirst (hspace _ heq)
  have hlast : ((trimSpaces s).map lower).rdropWhile (· = ' ') = (trimSpaces s).map lower := by
    rw [List.rdropWhile_eq_self_iff]
    intro h
    have hne : trimSpaces s ≠ [] := by simpa using h
    have hnot := List.rdropWhile_last_not (· = ' ') (s.dropWhile (· = ' ')) hne
    rw [List.getLast_map, decide_eq_true_eq]
    exact fun heq => hnot (decide_eq_true (hspace _ heq))
  rw [trimSpaces, hhead, hlast]

/-- A normalized address is its own normalization. -/
lemma normalize_normalize {u : Unicode} (hlower : ∀ c, u.lower (u.lower c) = u.lower c)
    (hspace : ∀ c, u.lower c = ' ' → c = ' ') (s : String) :
    u.normalize (u.normalize s) = u.normalize s := by
  have hmap : u.lower ∘ u.lower = u.lower := funext hlower
  simp only [Unicode.normalize, String.toList_ofList, trimSpaces_map hspace, List.map_map, hmap]

/-! ### The link survives -/

section Reachable

variable {s : Server}

lemma Reachable.freshUsers (huuid : Function.Injective app.uuid) (hs : Reachable app s) :
    s.db.FreshUsers app s.served := fun i hi =>
  not_drawn huuid (Nat.zero_le i) ((hs.keyed huuid).users.drawn _ hi)

lemma Reachable.link_normalized (huuid : Function.Injective app.uuid)
    (hlower : ∀ c, app.unicode.lower (app.unicode.lower c) = app.unicode.lower c)
    (hspace : ∀ c, app.unicode.lower c = ' ' → c = ' ') (hs : Reachable app s) {l : MagicLink}
    (hl : l ∈ s.db.magicLinks) : app.unicode.normalize l.email = l.email := by
  obtain ⟨email, hemail⟩ := (hs.tied huuid).normalized l hl
  rw [hemail, normalize_normalize hlower hspace]

/-- A flow that is not completed has no code, and no code has the secret that is drawn next. -/
lemma Reachable.no_code (huuid : Function.Injective app.uuid)
    (hsecret : Function.Injective app.secret) (hsha : Function.Injective app.sha256)
    (hs : Reachable app s) {f : LoginFlow} (hf : f ∈ s.db.loginFlows)
    (hpending : f.completedAt = none) : ∀ c ∈ s.db.authorizationCodes,
      c.flowId ≠ f.id ∧ ∀ j, c.codeHash ≠ (app.generateToken ⟨s.served, j⟩).hash := by
  have htied := hs.tied huuid
  refine fun c hc => ⟨fun hflow => ?_, fun j hhash => ?_⟩
  · have hcompleted := htied.completed c hc f hf hflow.symm
    simp [hpending] at hcompleted
  · obtain ⟨n, hn, hdrawn⟩ := htied.hashDrawn c hc
    have hsame : n = ⟨s.served, j⟩ :=
      hsecret (asBytes_injective (hsha (hdrawn.symm.trans hhash)))
    simp [hsame] at hn

end Reachable

/-- A link of a pending flow survives every request elsewhere: until it expires its token completes
the flow, for a caller under the limit of its own address. `lower` maps lower-case letters to
themselves and makes no spaces. -/
theorem link_survives (huuid : Function.Injective app.uuid)
    (hsecret : Function.Injective app.secret) (hsha : Function.Injective app.sha256)
    (hlower : ∀ c, app.unicode.lower (app.unicode.lower c) = app.unicode.lower c)
    (hspace : ∀ c, app.unicode.lower c = ' ' → c = ' ') {s s' : Server} {steps : List Served}
    (hs : Reachable app s) (hrun : Run app s steps s') {l : MagicLink} {f : LoginFlow}
    (hl : l ∈ s.db.magicLinks) (hunused : l.consumedAt = none) (hf : f ∈ s.db.loginFlows)
    (hid : f.id = l.flowId) (hpending : f.completedAt = none) (hwelcome : s.db.Welcomes l)
    (helse : ∀ p ∈ steps, p.Elsewhere app l) :
    l ∈ s'.db.magicLinks ∧ f ∈ s'.db.loginFlows ∧
      ∀ (ip token : String) (time : Time) (reply : (q : Question) → Reply q),
        app.hash token = l.tokenHash → time < l.expiresAt →
        reply (.limit .tokenPerIp ip) = none →
        (∃ response, (serve app time reply (.confirmMagicLink ip token) s').response =
            .ok (.loggedIn response)) ∧
          { f with completedAt := some time } ∈
            (serve app time reply (.confirmMagicLink ip token) s').after.db.loginFlows := by
  have hintact : Reachable app s' ∧ s'.db.Intact l f := by
    refine hrun.keeps (P := fun s => Reachable app s ∧ s.db.Intact l f) ⟨hs, hl, hf, hwelcome⟩
      fun p hp hof h => ⟨h.1.run hof.run, ?_⟩
    exact (helse p hp).intact huuid hof h.1 hid h.2
  obtain ⟨hs', h⟩ := hintact
  refine ⟨h.link, h.flow, fun ip token time reply htoken htime hlimit => ?_⟩
  have hlive : f.pending time = true := by
    have hexpires := htime.trans_le ((hs'.tied huuid).outlived l h.link f h.flow hid)
    simp [LoginFlow.pending, hpending, hexpires]
  have hcodes := hs'.no_code huuid hsecret hsha h.flow hpending
  rw [hid] at hcodes
  have hconfirmed : Handler.wp ⟨time, time, reply⟩ s'.served (MagicLink.confirm app ip token)
      ⟨s'.db, none, []⟩ _ :=
    confirm_completes (hs'.keyed huuid).uniqueIds (hs'.freshUsers huuid) (hs'.link_hashes huuid) h
      hid htoken (by simp [MagicLink.usable, hunused, htime]) hlive
      (hs'.link_normalized huuid hlower hspace h.link) hcodes hlimit
  refine serve_wp (Q := fun response d _ => (∃ r, response = .ok (.loggedIn r)) ∧
    { f with completedAt := some time } ∈ d.loginFlows) ?_
  refine (wp_apiRoute _ _).mpr (hconfirmed.mono fun a c hc => ?_)
  obtain ⟨⟨response, rfl⟩, hcompleted⟩ := hc
  exact ⟨⟨response, rfl⟩, hcompleted⟩

section Example

lemma script_requests {reply : (q : Question) → Reply q} {s : Server}
    {requests : List (Time × Request)} :
    (script app reply s requests).1.map Served.request = requests.map Prod.snd := by
  induction requests generalizing s with
  | nil => rfl
  | cons step rest ih => exact congrArg (step.2 :: ·) ih

/-- `Char.toLower` on the codes of ASCII capitals. -/
lemma toNat_toLower (c : Char) :
    c.toLower.toNat = if 65 ≤ c.toNat ∧ c.toNat ≤ 90 then c.toNat + 32 else c.toNat := by
  have hA : 'A'.val.toNat = 65 := rfl
  have hZ : 'Z'.val.toNat = 90 := rfl
  unfold Char.toLower
  simp only [ge_iff_le, UInt32.le_iff_toNat_le, hA, hZ, Char.toNat]
  split_ifs with h
  · have hdiff : ('a'.val - 'A'.val).toNat = 32 := rfl
    rw [UInt32.toNat_add, hdiff]
    omega
  · rfl

lemma exampleApp_lower_lower (c : Char) :
    exampleApp.unicode.lower (exampleApp.unicode.lower c) = exampleApp.unicode.lower c := by
  have hcode := toNat_toLower c
  have hcode' := toNat_toLower c.toLower
  by_cases hI : c = 'İ'
  · subst hI
    decide
  by_cases hS : c = 'Σ'
  · subst hS
    decide
  have hother : ∀ c : Char, c ≠ 'İ' → c ≠ 'Σ' → exampleApp.unicode.lower c = c.toLower :=
    fun c hI hS => (if_neg hI).trans (if_neg hS)
  have hI' : c.toLower ≠ 'İ' := by
    intro h
    have hnat : c.toLower.toNat = 304 := congrArg Char.toNat h
    have hne : c.toNat ≠ 304 := fun h => hI (Char.toNat_inj.mp h)
    split_ifs at hcode <;> omega
  have hS' : c.toLower ≠ 'Σ' := by
    intro h
    have hnat : c.toLower.toNat = 931 := congrArg Char.toNat h
    have hne : c.toNat ≠ 931 := fun h => hS (Char.toNat_inj.mp h)
    split_ifs at hcode <;> omega
  rw [hother c hI hS, hother _ hI' hS']
  refine Char.toNat_inj.mp ?_
  split_ifs at hcode hcode' <;> omega

lemma exampleApp_lower_eq_space (c : Char) (h : exampleApp.unicode.lower c = ' ') : c = ' ' := by
  have hcode := toNat_toLower c
  simp only [exampleApp] at h
  split_ifs at h with hI hS
  · exact absurd h (by decide)
  · exact absurd h (by decide)
  · have hnat : c.toLower.toNat = 32 := congrArg Char.toNat h
    refine Char.toNat_inj.mp ?_
    show c.toNat = 32
    split_ifs at hcode <;> omega

/-- Somebody else starts a flow, asks for a link to the same address and guesses its code. -/
def exampleElsewhere : List (Time × Request) :=
  [(2, .createFlow {
      clientId := "app", redirectUri := "https://app/cb", codeChallenge := exampleChallenge
      codeChallengeMethod := "S256", state := none }),
    (3, .requestMagicLink "other" 6 "bob@x.fr"), (4, .confirmMagicCode "other" 6 "000000")]

/-- The server after `exampleLink`. -/
def exampleSent : Server := (script exampleApp exampleReply .empty exampleLink).2

/-- The flow and the link of `exampleLink`. -/
def exampleFlow : LoginFlow where
  id := 0
  clientId := "app"
  redirectUri := "https://app/cb"
  codeChallenge := exampleChallenge
  state := none
  magicLinkRequests := 1
  expiresAt := 900000001
  completedAt := none
  createdAt := 0

def exampleRow : MagicLink where
  id := 26
  flowId := 0
  userId := none
  email := "bob@x.fr"
  tokenHash := [1, 112, 45, 105, 105, 105]
  codeHash := [0, 0, 0, 0, 0, 0, 0, 0, 0, 0, 0, 0, 0, 0, 0, 0, 0, 48, 48, 48, 48, 49, 52]
  codeFailures := 0
  expiresAt := 900000001
  consumedAt := none
  createdAt := 1

/-- Another flow, its own link to the same address and a wrong guess at its code leave the link
good for a login. -/
theorem link_survives_guesses :
    ∃ response, (serve exampleApp 5 exampleReply (.confirmMagicLink "ip" "p-iii")
      (script exampleApp exampleReply exampleSent exampleElsewhere).2).response =
        .ok (.loggedIn response) := by
  have hrun : Run exampleApp exampleSent (script exampleApp exampleReply exampleSent
      exampleElsewhere).1 (script exampleApp exampleReply exampleSent exampleElsewhere).2 :=
    script_run (by decide +kernel)
  have helse : ∀ p ∈ (script exampleApp exampleReply exampleSent exampleElsewhere).1,
      p.Elsewhere exampleApp exampleRow := by
    intro p hp
    have hrequest := List.mem_map_of_mem (f := Served.request) hp
    rw [script_requests] at hrequest
    simp only [exampleElsewhere, List.map_cons, List.map_nil, List.mem_cons, List.not_mem_nil,
      or_false] at hrequest
    rcases hrequest with hrequest | hrequest | hrequest <;>
      simp [Served.Elsewhere, hrequest, exampleRow]
  have husers : exampleSent.db.users = [] := by decide +kernel
  have h := link_survives exampleApp_uuid_injective exampleApp_secret_injective
    exampleApp_sha256_injective exampleApp_lower_lower exampleApp_lower_eq_space
    (script_reachable (by decide)) hrun (l := exampleRow) (f := exampleFlow) (by decide +kernel) rfl
    (by decide +kernel) rfl rfl (fun u hu => absurd (husers ▸ hu) List.not_mem_nil) helse
  exact (h.2.2 "ip" "p-iii" 5 exampleReply (by decide) (by decide) rfl).1

end Example

end Bauth
