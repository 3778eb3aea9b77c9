import Bauth.Serial.Tokens
import Bauth.Serial.Integrity
import Bauth.Serial.Script
import Bauth.Alone.Outcome

/-!
# What the rows of a database say of each other

Some facts are stored twice: the account of a session is that of the code it was opened with, its
client is the one of the flow, and the account of a confirmation is that of its session. They agree
in every reachable state.
-/

namespace Bauth

open Transaction

/-! ### Rows that age and go -/

section Survivors

variable {ρ : Type} {R : ρ → ρ → Prop} {rows rows' rows'' : List ρ}

/-- Each row of `rows'` is a row of `rows` some time later. -/
def Survivors (R : ρ → ρ → Prop) (rows rows' : List ρ) : Prop :=
  ∀ r' ∈ rows', ∃ r ∈ rows, R r r'

lemma Survivors.refl (hR : ∀ r, R r r) : Survivors R rows rows := fun r hr => ⟨r, hr, hR r⟩

lemma Survivors.trans (hR : ∀ a b c, R a b → R b c → R a c) (h : Survivors R rows rows')
    (h' : Survivors R rows' rows'') : Survivors R rows rows'' := by
  intro r'' hr''
  obtain ⟨r', hr', hlast⟩ := h' r'' hr''
  obtain ⟨r, hr, hfirst⟩ := h r' hr'
  exact ⟨r, hr, hR r r' r'' hfirst hlast⟩

lemma Survivors.filter (hR : ∀ r, R r r) (p : ρ → Bool) : Survivors R rows (rows.filter p) :=
  fun r hr => ⟨r, List.mem_of_mem_filter hr, hR r⟩

lemma Survivors.update (hR : ∀ r, R r r) (p : ρ → Bool) {set : ρ → ρ} (hset : ∀ r, R r (set r)) :
    Survivors R rows (updateWhere p set rows) := by
  intro r' hr'
  obtain ⟨r, hr, rfl⟩ := mem_updateWhere.mp hr'
  refine ⟨r, hr, ?_⟩
  split_ifs
  · exact hset r
  · exact hR r

end Survivors

def User.Fades (u u' : User) : Prop :=
  u.emailVerifiedAt.isSome = true → u'.emailVerifiedAt.isSome = true

structure LoginFlow.Fades (f f' : LoginFlow) : Prop where
  id : f'.id = f.id
  clientId : f'.clientId = f.clientId
  completedAt : f.completedAt.isSome = true → f'.completedAt.isSome = true

structure AuthorizationCode.Fades (c c' : AuthorizationCode) : Prop where
  id : c'.id = c.id
  userId : c'.userId = c.userId
  flowId : c'.flowId = c.flowId
  consumedAt : c.consumedAt.isSome = true → c'.consumedAt.isSome = true

structure Session.Fades (s s' : Session) : Prop where
  id : s'.id = s.id
  userId : s'.userId = s.userId
  clientId : s'.clientId = s.clientId
  authorizationCodeId : ∀ i, s'.authorizationCodeId = some i → s.authorizationCodeId = some i

structure Confirmation.Fades (c c' : Confirmation) : Prop where
  userId : c'.userId = c.userId
  sessionId : c'.sessionId = c.sessionId

lemma User.Fades.refl (u : User) : u.Fades u := fun h => h

lemma LoginFlow.Fades.refl (f : LoginFlow) : f.Fades f := ⟨rfl, rfl, fun h => h⟩

lemma AuthorizationCode.Fades.refl (c : AuthorizationCode) : c.Fades c :=
  ⟨rfl, rfl, rfl, fun h => h⟩

lemma Session.Fades.refl (s : Session) : s.Fades s := ⟨rfl, rfl, rfl, fun _ h => h⟩

lemma Confirmation.Fades.refl (c : Confirmation) : c.Fades c := ⟨rfl, rfl⟩

/-- No row of `d'` is new. -/
structure Database.Fades (d d' : Database) : Prop where
  users : Survivors User.Fades d.users d'.users
  loginFlows : Survivors LoginFlow.Fades d.loginFlows d'.loginFlows
  authorizationCodes : Survivors AuthorizationCode.Fades d.authorizationCodes d'.authorizationCodes
  sessions : Survivors Session.Fades d.sessions d'.sessions
  confirmations : Survivors Confirmation.Fades d.confirmations d'.confirmations

namespace Database.Fades

variable {d d' d'' : Database}

lemma refl (d : Database) : d.Fades d :=
  ⟨.refl .refl, .refl .refl, .refl .refl, .refl .refl, .refl .refl⟩

lemma trans (h : d.Fades d') (h' : d'.Fades d'') : d.Fades d'' where
  users := h.users.trans (fun _ _ _ h h' => h' ∘ h) h'.users
  loginFlows := h.loginFlows.trans (fun _ _ _ h h' => ⟨h'.id.trans h.id,
    h'.clientId.trans h.clientId, h'.completedAt ∘ h.completedAt⟩) h'.loginFlows
  authorizationCodes := h.authorizationCodes.trans (fun _ _ _ h h' => ⟨h'.id.trans h.id,
    h'.userId.trans h.userId, h'.flowId.trans h.flowId, h'.consumedAt ∘ h.consumedAt⟩)
    h'.authorizationCodes
  sessions := h.sessions.trans (fun _ _ _ h h' => ⟨h'.id.trans h.id, h'.userId.trans h.userId,
    h'.clientId.trans h.clientId, fun i => h.authorizationCodeId i ∘ h'.authorizationCodeId i⟩)
    h'.sessions
  confirmations := h.confirmations.trans (fun _ _ _ h h' => ⟨h'.userId.trans h.userId,
    h'.sessionId.trans h.sessionId⟩) h'.confirmations

lemma updateFlows (p : LoginFlow → Bool) {set : LoginFlow → LoginFlow}
    (hset : ∀ f : LoginFlow, f.Fades (set f)) :
    d.Fades { d with loginFlows := updateWhere p set d.loginFlows } :=
  { refl d with loginFlows := .update .refl p hset }

lemma updateSessions (p : Session → Bool) {set : Session → Session}
    (hset : ∀ s : Session, s.Fades (set s)) :
    d.Fades { d with sessions := updateWhere p set d.sessions } :=
  { refl d with sessions := .update .refl p hset }

lemma revoke (p : Session → Bool) (now : Time) :
    d.Fades { d with sessions := updateWhere p (Session.revoke now) d.sessions } :=
  updateSessions p fun _ => ⟨rfl, rfl, rfl, fun _ h => h⟩

lemma consumeConfirmation (now : Time) (id : Uuid) : d.Fades (d.consumeConfirmation now id) :=
  { refl d with confirmations := .update .refl _ fun _ => ⟨rfl, rfl⟩ }

lemma failConfirmation (now : Time) (id : Uuid) : d.Fades (d.failConfirmation now id) :=
  { refl d with confirmations := .update .refl _ fun _ => ⟨rfl, rfl⟩ }

lemma settle (r : RefreshToken) (utc now : Time) : d.Fades (d.settle r utc now) := by
  rw [Database.settle_eq_map]
  exact { refl d with }

lemma deleteSessions (p : Session → Bool) : d.Fades (d.deleteSessions p) :=
  { refl d with
    sessions := .filter .refl _
    confirmations := .filter .refl _ }

lemma deleteAuthorizationCodes (p : AuthorizationCode → Bool) :
    d.Fades (d.deleteAuthorizationCodes p) :=
  { refl d with
    authorizationCodes := .filter .refl _
    sessions := .update .refl _ fun _ => ⟨rfl, rfl, rfl, by simp⟩ }

lemma deleteLoginFlows (p : LoginFlow → Bool) : d.Fades (d.deleteLoginFlows p) := by
  refine trans ?_ (deleteAuthorizationCodes _)
  exact { refl d with loginFlows := .filter .refl _ }

lemma deleteUsers (p : User → Bool) : d.Fades (d.deleteUsers p) := by
  refine trans (trans ?_ (deleteAuthorizationCodes _)) (deleteSessions _)
  exact { refl d with
    users := .filter .refl _
    confirmations := .filter .refl _ }

lemma purged (h : Purged d d') : d.Fades d' := by
  induction h with
  | refl => exact refl d
  | loginFlow _ id ih => exact ih.trans (deleteLoginFlows _)
  | emailChange _ id ih => exact ih.trans { refl _ with }
  | confirmation _ id ih =>
    exact ih.trans { refl _ with confirmations := .filter .refl _ }
  | session _ id ih => exact ih.trans (deleteSessions _)
  | user _ id ih => exact ih.trans (deleteUsers _)
  | signingKeys _ keys ih => exact ih.trans { refl _ with }

end Database.Fades

/-! ### The invariant -/

/-- Every account is verified, a flow has one code at most, and this one session; they are of one
account and one client, and a confirmation is of the account of its session. -/
structure Database.Coherent (d : Database) : Prop where
  verified : ∀ u ∈ d.users, u.emailVerifiedAt.isSome = true
  oneCode : ∀ c ∈ d.authorizationCodes, ∀ c' ∈ d.authorizationCodes, c.flowId = c'.flowId →
    c.id = c'.id
  completed : ∀ c ∈ d.authorizationCodes, ∀ f ∈ d.loginFlows, f.id = c.flowId →
    f.completedAt.isSome = true
  oneSession : ∀ S ∈ d.sessions, ∀ S' ∈ d.sessions, ∀ i, S.authorizationCodeId = some i →
    S'.authorizationCodeId = some i → S.id = S'.id
  exchanged : ∀ S ∈ d.sessions, ∀ c ∈ d.authorizationCodes, S.authorizationCodeId = some c.id →
    c.userId = S.userId ∧ c.consumedAt.isSome = true
  client : ∀ S ∈ d.sessions, ∀ c ∈ d.authorizationCodes, S.authorizationCodeId = some c.id →
    ∀ f ∈ d.loginFlows, f.id = c.flowId → f.clientId = S.clientId
  confirmed : ∀ c ∈ d.confirmations, ∀ S ∈ d.sessions, S.id = c.sessionId → S.userId = c.userId

namespace Database.Coherent

variable {d d' : Database}

lemma empty : ({} : Database).Coherent := by
  constructor <;> simp

lemma fades (h : d.Coherent) (hf : d.Fades d') : d'.Coherent where
  verified u' hu' := by
    obtain ⟨u, hu, hfades⟩ := hf.users u' hu'
    exact hfades (h.verified u hu)
  oneCode c₁' hc₁' c₂' hc₂' hflow := by
    obtain ⟨c₁, hc₁, h₁⟩ := hf.authorizationCodes c₁' hc₁'
    obtain ⟨c₂, hc₂, h₂⟩ := hf.authorizationCodes c₂' hc₂'
    rw [h₁.id, h₂.id]
    exact h.oneCode c₁ hc₁ c₂ hc₂ (by rw [← h₁.flowId, ← h₂.flowId, hflow])
  completed c' hc' f' hf' hid := by
    obtain ⟨c, hc, hcode⟩ := hf.authorizationCodes c' hc'
    obtain ⟨f, hf, hflow⟩ := hf.loginFlows f' hf'
    exact hflow.completedAt (h.completed c hc f hf (by rw [← hflow.id, ← hcode.flowId, hid]))
  oneSession S₁' hS₁' S₂' hS₂' i hi₁ hi₂ := by
    obtain ⟨S₁, hS₁, h₁⟩ := hf.sessions S₁' hS₁'
    obtain ⟨S₂, hS₂, h₂⟩ := hf.sessions S₂' hS₂'
    rw [h₁.id, h₂.id]
    exact h.oneSession S₁ hS₁ S₂ hS₂ i (h₁.authorizationCodeId i hi₁) (h₂.authorizationCodeId i hi₂)
  exchanged S' hS' c' hc' hid := by
    obtain ⟨S, hS, hsession⟩ := hf.sessions S' hS'
    obtain ⟨c, hc, hcode⟩ := hf.authorizationCodes c' hc'
    obtain ⟨huser, hconsumed⟩ := h.exchanged S hS c hc
      (hsession.authorizationCodeId _ (hcode.id ▸ hid))
    exact ⟨by rw [hcode.userId, hsession.userId, huser], hcode.consumedAt hconsumed⟩
  client S' hS' c' hc' hid f' hf' hflowId := by
    obtain ⟨S, hS, hsession⟩ := hf.sessions S' hS'
    obtain ⟨c, hc, hcode⟩ := hf.authorizationCodes c' hc'
    obtain ⟨f, hf, hflow⟩ := hf.loginFlows f' hf'
    rw [hflow.clientId, hsession.clientId]
    exact h.client S hS c hc (hsession.authorizationCodeId _ (hcode.id ▸ hid)) f hf
      (by rw [← hflow.id, ← hcode.flowId, hflowId])
  confirmed c' hc' S' hS' hid := by
    obtain ⟨c, hc, hconfirmation⟩ := hf.confirmations c' hc'
    obtain ⟨S, hS, hsession⟩ := hf.sessions S' hS'
    rw [hsession.userId, hconfirmation.userId]
    exact h.confirmed c hc S hS (by rw [← hsession.id, ← hconfirmation.sessionId, hid])

/-- A flow that no code refers to. -/
lemma appendFlow (h : d.Coherent) (f : LoginFlow)
    (hnew : ∀ c ∈ d.authorizationCodes, f.id ≠ c.flowId) :
    { d with loginFlows := d.loginFlows ++ [f] }.Coherent :=
  { h with
    completed := fun c hc f' hf' hid => by
      rcases List.mem_append.mp hf' with hf' | hf'
      · exact h.completed c hc f' hf' hid
      · exact absurd (List.mem_singleton.mp hf' ▸ hid) (hnew c hc)
    client := fun S hS c hc hcode f' hf' hid => by
      rcases List.mem_append.mp hf' with hf' | hf'
      · exact h.client S hS c hc hcode f' hf' hid
      · exact absurd (List.mem_singleton.mp hf' ▸ hid) (hnew c hc) }

/-- The code of a completed flow that had none, and that no session refers to. -/
lemma appendCode (h : d.Coherent) (c : AuthorizationCode)
    (hflow : ∀ c' ∈ d.authorizationCodes, c'.flowId ≠ c.flowId)
    (hcompleted : ∀ f ∈ d.loginFlows, f.id = c.flowId → f.completedAt.isSome = true)
    (hnew : ∀ S ∈ d.sessions, S.authorizationCodeId ≠ some c.id) :
    { d with authorizationCodes := d.authorizationCodes ++ [c] }.Coherent :=
  { h with
    oneCode := fun c₁ hc₁ c₂ hc₂ hsame => by
      rcases List.mem_append.mp hc₁ with hc₁ | hc₁ <;> rcases List.mem_append.mp hc₂ with hc₂ | hc₂
      · exact h.oneCode c₁ hc₁ c₂ hc₂ hsame
      · exact absurd (List.mem_singleton.mp hc₂ ▸ hsame) (hflow c₁ hc₁)
      · exact absurd (List.mem_singleton.mp hc₁ ▸ hsame.symm) (hflow c₂ hc₂)
      · rw [List.mem_singleton.mp hc₁, List.mem_singleton.mp hc₂]
    completed := fun c' hc' f hf hid => by
      rcases List.mem_append.mp hc' with hc' | hc'
      · exact h.completed c' hc' f hf hid
      · exact hcompleted f hf (List.mem_singleton.mp hc' ▸ hid)
    exchanged := fun S hS c' hc' hid => by
      rcases List.mem_append.mp hc' with hc' | hc'
      · exact h.exchanged S hS c' hc' hid
      · exact absurd (List.mem_singleton.mp hc' ▸ hid) (hnew S hS)
    client := fun S hS c' hc' hid => by
      rcases List.mem_append.mp hc' with hc' | hc'
      · exact h.client S hS c' hc' hid
      · exact absurd (List.mem_singleton.mp hc' ▸ hid) (hnew S hS) }

/-- The session of a code that had none. -/
lemma appendSession (h : d.Coherent) (S : Session)
    (hone : ∀ S' ∈ d.sessions, ∀ i, S.authorizationCodeId = some i →
      S'.authorizationCodeId ≠ some i)
    (hcode : ∀ c ∈ d.authorizationCodes, S.authorizationCodeId = some c.id →
      (c.userId = S.userId ∧ c.consumedAt.isSome = true) ∧
        ∀ f ∈ d.loginFlows, f.id = c.flowId → f.clientId = S.clientId)
    (hnew : ∀ c ∈ d.confirmations, S.id ≠ c.sessionId) :
    { d with sessions := d.sessions ++ [S] }.Coherent :=
  { h with
    oneSession := fun S₁ hS₁ S₂ hS₂ i hi₁ hi₂ => by
      rcases List.mem_append.mp hS₁ with hS₁ | hS₁ <;> rcases List.mem_append.mp hS₂ with hS₂ | hS₂
      · exact h.oneSession S₁ hS₁ S₂ hS₂ i hi₁ hi₂
      · exact absurd hi₁ (hone S₁ hS₁ i (List.mem_singleton.mp hS₂ ▸ hi₂))
      · exact absurd hi₂ (hone S₂ hS₂ i (List.mem_singleton.mp hS₁ ▸ hi₁))
      · rw [List.mem_singleton.mp hS₁, List.mem_singleton.mp hS₂]
    exchanged := fun S' hS' c hc hid => by
      rcases List.mem_append.mp hS' with hS' | hS'
      · exact h.exchanged S' hS' c hc hid
      · obtain rfl := List.mem_singleton.mp hS'
        exact (hcode c hc hid).1
    client := fun S' hS' c hc hid => by
      rcases List.mem_append.mp hS' with hS' | hS'
      · exact h.client S' hS' c hc hid
      · obtain rfl := List.mem_singleton.mp hS'
        exact (hcode c hc hid).2
    confirmed := fun c hc S' hS' hid => by
      rcases List.mem_append.mp hS' with hS' | hS'
      · exact h.confirmed c hc S' hS' hid
      · exact absurd (List.mem_singleton.mp hS' ▸ hid) (hnew c hc) }

/-- A confirmation of the account of its session. -/
lemma appendConfirmation (h : d.Coherent) (c : Confirmation)
    (hsession : ∀ S ∈ d.sessions, S.id = c.sessionId → S.userId = c.userId) :
    { d with confirmations := d.confirmations ++ [c] }.Coherent :=
  { h with
    confirmed := fun c' hc' S hS hid => by
      rcases List.mem_append.mp hc' with hc' | hc'
      · exact h.confirmed c' hc' S hS hid
      · obtain rfl := List.mem_singleton.mp hc'
        exact hsession S hS hid }

end Database.Coherent

/-! ### Every request -/

/-- The key of an added row is no key of the others. -/
lemma ne_of_nodup_append {ρ κ : Type} {key : ρ → κ} {rows : List ρ} {r r' : ρ}
    (h : ((rows ++ [r]).map key).Nodup) (hr' : r' ∈ rows) : key r' ≠ key r := by
  rw [List.map_append, List.nodup_append] at h
  exact h.2.2 _ (List.mem_map_of_mem hr') _ (by simp)

section Requests

variable {app : App} {env : Program.Env sig} {process : ℕ} {d d' : Database}

/-- The account that logs in is verified, if it was new. -/
lemma Account.verified {userId : Option Uuid} {email : String} {u : User} {w : Database}
    (h : Account app process env.now userId email d u w)
    (hd : ∀ u ∈ d.users, u.emailVerifiedAt.isSome = true) :
    ∀ u' ∈ (w.verifyEmail env.now u.id u.email).users, u'.emailVerifiedAt.isSome = true := by
  have hrow : ∀ u₀, (u₀ ∈ d.users ∨ u₀ = u) →
      (if u₀.id = u.id && u₀.email = u.email then
        { u₀ with emailVerifiedAt := some (u₀.emailVerifiedAt.getD env.now), updatedAt := env.now }
        else u₀ : User).emailVerifiedAt.isSome = true := by
    intro u₀ hu₀
    split_ifs with hp
    · rfl
    · rcases hu₀ with hu₀ | rfl
      · exact hd u₀ hu₀
      · simp at hp
  intro u' hu'
  obtain ⟨u₀, hu₀, rfl⟩ := mem_updateWhere.mp hu'
  refine hrow u₀ ?_
  cases h with
  | known hid hu => exact .inl hu₀
  | sameAddress hid hu => exact .inl hu₀
  | created hid hfree i =>
    rcases List.mem_append.mp hu₀ with hu₀ | hu₀
    · exact .inl hu₀
    · exact .inr (List.mem_singleton.mp hu₀)

lemma LoggedIn.coherent {flowId : Uuid} {userId : Option Uuid} {email : String}
    {response : Login.LoginResponse}
    (h : LoggedIn app env process flowId userId email d response d')
    (hflows : (d.loginFlows.map LoginFlow.id).Nodup)
    (hcodes : (d'.authorizationCodes.map AuthorizationCode.id).Nodup)
    (hlinked : References Session.authorizationCodeId AuthorizationCode.id d.sessions
      d.authorizationCodes) (hd : d.Coherent) : d'.Coherent := by
  cases h with
  | @intro u f w haccount henabled hemail hf hid hpending i j hnew =>
    have hverified := haccount.verified hd.verified
    obtain ⟨users, rfl, -⟩ := haccount.tables
    have hcompleted : (d.completeFlow env.now flowId).Coherent :=
      hd.fades (.updateFlows _ fun _ => ⟨rfl, rfl, fun _ => rfl⟩)
    have hbase : (({ d with users }.verifyEmail env.now u.id u.email).completeFlow env.now
        flowId).Coherent := { hcompleted with verified := hverified }
    refine hbase.appendCode (newCode app process env.now flowId u.id env.utc i j)
      (fun c hc => (hnew c hc).2) (fun f' hf' hid' => ?_) fun S hS hcode => ?_
    · obtain ⟨f₀, hf₀, rfl⟩ := mem_updateWhere.mp hf'
      split_ifs with hhit
      · rfl
      · rw [if_neg hhit] at hid'
        obtain rfl := List.inj_on_of_nodup_map hflows hf₀ hf (hid'.trans hid.symm)
        simp [hid, hpending] at hhit
    · obtain ⟨c, hc, hcid⟩ := hlinked S hS _ hcode
      exact ne_of_nodup_append hcodes hc hcid

lemma Exchanged.coherent {input : OAuth.TokenRequest} {a : Except OAuthError OAuth.TokenResponse}
    (h : Exchanged app env process input d a d') (hids : d.UniqueIds) (hids' : d'.UniqueIds)
    (hlinked : d.Linked) (hd : d.Coherent) : d'.Coherent := by
  cases h with
  | refused => exact hd
  | replayed => exact hd.fades (.revoke _ _)
  | @issued code redirectUri verifier client c f _ _ _ _ hc hf hflow huser hopened key i i' j k =>
    have hexchangeable := (List.mem_filter.mp (List.mem_of_head? hc)).2
    have hmem := (List.mem_filter.mp (List.mem_of_head? hc)).1
    have hconsumed : (d.consumeCode (app.hash code) env.now).Coherent :=
      hd.fades { Database.Fades.refl d with
        authorizationCodes := .update .refl _ fun _ => ⟨rfl, rfl, rfl, fun _ => rfl⟩ }
    have hsession := hconsumed.appendSession
      (newSession app process c.userId client.id c.id env.utc env.now i)
      (fun S hS n hn => hn ▸ hopened S hS) (fun c' hc' hid => ?_) fun c' hc' hid => ?_
    · exact { hsession with }
    · obtain ⟨c₀, hc₀, rfl⟩ := mem_updateWhere.mp hc'
      have hsame : c₀ = c := by
        refine List.inj_on_of_nodup_map hids.authorizationCodes hc₀ hmem ?_
        have hid' := Option.some.inj hid
        split_ifs at hid' <;> exact hid'.symm
      subst hsame
      rw [if_pos hexchangeable]
      refine ⟨⟨rfl, rfl⟩, fun f' hf' hf'id => ?_⟩
      have hfid : f.id = c₀.flowId := by simpa using List.find?_some hf
      obtain rfl := List.inj_on_of_nodup_map hids.loginFlows hf' (List.mem_of_find?_eq_some hf)
        (hf'id.trans hfid.symm)
      exact hflow.1
    · obtain ⟨S, hS, hSid⟩ := hlinked.confirmationSession c' hc' _ rfl
      exact ne_of_nodup_append hids'.sessions hS (hSid.trans hid.symm)

lemma Request.Outcome.coherent {request : Request} {response : Response} {events : List Event}
    (h : request.Outcome app env process d response d' events) (hids : d.UniqueIds)
    (hids' : d'.UniqueIds) (hlinked : d.Linked) (hd : d.Coherent) : d'.Coherent := by
  cases h with
  | createFlow h =>
    cases h with
    | refused => exact hd
    | created _ _ i =>
      refine hd.appendFlow _ fun c hc hid => ?_
      obtain ⟨f, hf, hfid⟩ := hlinked.codeFlow c hc _ rfl
      exact ne_of_nodup_append hids'.loginFlows hf (hfid.trans hid.symm)
  | requestMagicLink h =>
    have hcounted : ∀ flowId linkExpiresAt,
        (d.countRequest env.now flowId linkExpiresAt).Coherent := fun _ _ =>
      hd.fades (.updateFlows _ fun _ => ⟨rfl, rfl, fun h => h⟩)
    cases h with
    | refused => exact hd
    | failed => exact hcounted _ _
    | counted => exact hcounted _ _
    | mailed => exact { hcounted _ _ with }
  | confirmMagicLink h =>
    cases h with
    | refused => exact hd
    | loggedIn _ _ _ hlogin =>
      exact hlogin.coherent hids.loginFlows hids'.authorizationCodes hlinked.sessionCode { hd with }
  | confirmMagicCode h =>
    cases h with
    | refused => exact hd
    | wrong => exact { hd with }
    | loggedIn _ _ hlogin =>
      exact hlogin.coherent hids.loginFlows hids'.authorizationCodes hlinked.sessionCode { hd with }
  | exchange _ h => exact h.coherent hids hids' hlinked hd
  | refresh _ h =>
    cases h with
    | stolen => exact hd.fades (.revoke _ _)
    | disabled => exact hd.fades ((Database.Fades.settle ..).trans (.revoke _ _))
    | issued => exact { hd.fades (Database.Fades.settle ..) with }
    | _ => exact hd
  | otherGrant => exact hd
  | revoke => exact hd.fades (.revoke _ _)
  | revokeRefused => exact hd
  | getMe => exact hd
  | listSessions => exact hd
  | revokeSession h =>
    cases h with
    | refused => exact hd
    | revoked => exact hd.fades (.revoke _ _)
  | requestConfirmation h =>
    cases h with
    | refused => exact hd
    | requested huser i n =>
      refine hd.appendConfirmation _ fun S hS hid => ?_
      obtain ⟨S₀, hS₀, hS₀id, howner, -⟩ := huser.session
      obtain rfl := List.inj_on_of_nodup_map hids.sessions hS hS₀ (hid.trans hS₀id.symm)
      exact howner
  | changeEmail h =>
    cases h with
    | refused => exact hd
    | wrong => exact hd.fades (.failConfirmation ..)
    | @spent user c => exact hd.fades (.consumeConfirmation env.now c.id)
    | @mailed user c => exact { hd.fades (.consumeConfirmation env.now c.id) with }
  | deleteAccount h =>
    cases h with
    | refused => exact hd
    | wrong => exact hd.fades (.failConfirmation ..)
    | @deleted user c =>
      exact (hd.fades (.consumeConfirmation env.now c.id)).fades (.deleteUsers _)
  | confirmEmailChange h =>
    cases h with
    | refused => exact hd
    | moved => exact hd.fades { Database.Fades.refl d with users := .update .refl _ fun _ _ => rfl }
  | purge h => exact hd.fades (.purged h)
  | setDisabled =>
    exact hd.fades { Database.Fades.refl d with users := .update .refl _ fun _ h => h }

end Requests

theorem Reachable.coherent {app : App} (huuid : Function.Injective app.uuid) {s : Server}
    (hs : Reachable app s) : s.db.Coherent := by
  refine hs.invariant (P := fun s => s.db.Coherent) (fun _ => .empty) fun p hp hreach h => ?_
  have hkeyed := hreach.keyed huuid
  exact (hp.outcome huuid hkeyed).coherent hkeyed.uniqueIds
    ((hreach.run hp.run).keyed huuid).uniqueIds hreach.linked h

/-- In every reachable state, each row refers to rows that are there, and what is stored twice is
stored twice the same. -/
theorem rows_agree {app : App} (huuid : Function.Injective app.uuid) {s : Server}
    (hs : Reachable app s) : s.db.Linked ∧ s.db.Coherent :=
  ⟨hs.linked, hs.coherent huuid⟩

/-- So it is after a login. -/
theorem rows_agree_example : exampleServer.db.Linked ∧ exampleServer.db.Coherent :=
  rows_agree exampleApp_uuid_injective exampleServer_reachable

end Bauth
