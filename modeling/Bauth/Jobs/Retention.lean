import Bauth.Jobs.Batches
import Bauth.Alone.Handler

/-!
# What the purge leaves

`Deleted` says which rows go: those past the retention rule of their table, and those that hang
from a row that goes, by the `ON DELETE CASCADE` of the migrations. `Purge.purge`, alone, deletes
these and no others.
-/

namespace Bauth

open Transaction
open Program (Env wp_query Point)

/-! ### Which rows go -/

/-- A row of one of the tables. -/
inductive Row
  | user (u : User)
  | loginFlow (f : LoginFlow)
  | magicLink (l : MagicLink)
  | authorizationCode (c : AuthorizationCode)
  | session (s : Session)
  | refreshToken (r : RefreshToken)
  | emailChange (c : EmailChange)
  | confirmation (c : Confirmation)
  | signingKey (k : SigningKeyRow)

/-- The database holds the row. -/
def Database.Holds (d : Database) : Row → Prop
  | .user u => u ∈ d.users
  | .loginFlow f => f ∈ d.loginFlows
  | .magicLink l => l ∈ d.magicLinks
  | .authorizationCode c => c ∈ d.authorizationCodes
  | .session s => s ∈ d.sessions
  | .refreshToken r => r ∈ d.refreshTokens
  | .emailChange c => c ∈ d.emailChanges
  | .confirmation c => c ∈ d.confirmations
  | .signingKey k => k ∈ d.signingKeys

/-- The retention rule of each table; links, codes and refresh tokens have none. -/
def Row.PastRetention (now : Time) : Row → Prop
  | .user u => u.emailVerifiedAt = none ∧ u.createdAt < now - days 7
  | .loginFlow f => f.expiresAt < now - days 1
  | .session s => s.expiresAt < now - days 30 ∨ ∃ t ∈ s.revokedAt, t < now - days 30
  | .emailChange c => c.expiresAt < now - days 7 ∨ ∃ t ∈ c.consumedAt, t < now - days 7
  | .confirmation c => c.expiresAt < now - days 7 ∨ ∃ t ∈ c.consumedAt, t < now - days 7
  | .signingKey k => ∃ t ∈ k.retiredAt, t < now - days 30
  | .magicLink _ | .authorizationCode _ | .refreshToken _ => False

instance (now : Time) : DecidablePred (Row.PastRetention now)
  | .user u => inferInstanceAs (Decidable (u.emailVerifiedAt = none ∧ u.createdAt < now - days 7))
  | .loginFlow f => inferInstanceAs (Decidable (f.expiresAt < now - days 1))
  | .session s => inferInstanceAs (Decidable (s.expiresAt < now - days 30 ∨
      ∃ t ∈ s.revokedAt, t < now - days 30))
  | .emailChange c => inferInstanceAs (Decidable (c.expiresAt < now - days 7 ∨
      ∃ t ∈ c.consumedAt, t < now - days 7))
  | .confirmation c => inferInstanceAs (Decidable (c.expiresAt < now - days 7 ∨
      ∃ t ∈ c.consumedAt, t < now - days 7))
  | .signingKey k => inferInstanceAs (Decidable (∃ t ∈ k.retiredAt, t < now - days 30))
  | .magicLink _ | .authorizationCode _ | .refreshToken _ => inferInstanceAs (Decidable False)

/-- `child` references `parent` in a column that is `ON DELETE CASCADE`. -/
inductive Row.HangsFrom : Row → Row → Prop
  | linkOfFlow {l : MagicLink} {f : LoginFlow} (h : l.flowId = f.id) :
      HangsFrom (.magicLink l) (.loginFlow f)
  | linkOfUser {l : MagicLink} {u : User} (h : l.userId = some u.id) :
      HangsFrom (.magicLink l) (.user u)
  | codeOfFlow {c : AuthorizationCode} {f : LoginFlow} (h : c.flowId = f.id) :
      HangsFrom (.authorizationCode c) (.loginFlow f)
  | codeOfUser {c : AuthorizationCode} {u : User} (h : c.userId = u.id) :
      HangsFrom (.authorizationCode c) (.user u)
  | sessionOfUser {s : Session} {u : User} (h : s.userId = u.id) :
      HangsFrom (.session s) (.user u)
  | tokenOfSession {r : RefreshToken} {s : Session} (h : r.sessionId = s.id) :
      HangsFrom (.refreshToken r) (.session s)
  | tokenOfParent {r p : RefreshToken} (h : r.parentId = some p.id) :
      HangsFrom (.refreshToken r) (.refreshToken p)
  | changeOfUser {c : EmailChange} {u : User} (h : c.userId = u.id) :
      HangsFrom (.emailChange c) (.user u)
  | confirmationOfUser {c : Confirmation} {u : User} (h : c.userId = u.id) :
      HangsFrom (.confirmation c) (.user u)
  | confirmationOfSession {c : Confirmation} {s : Session} (h : c.sessionId = s.id) :
      HangsFrom (.confirmation c) (.session s)

/-- The row is past retention, or hangs from one that goes. -/
inductive Deleted (now : Time) (d : Database) : Row → Prop
  | rule {r : Row} (hr : d.Holds r) (h : r.PastRetention now) : Deleted now d r
  | cascade {r parent : Row} (hr : d.Holds r) (h : r.HangsFrom parent)
      (hparent : Deleted now d parent) : Deleted now d r

lemma Deleted.holds {now : Time} {d : Database} {r : Row} (h : Deleted now d r) : d.Holds r := by
  cases h with
  | rule hr _ => exact hr
  | cascade hr _ _ => exact hr

open Classical in
/-- The rows that stay. A session forgets the code that opened it when the code goes
(`ON DELETE SET NULL`). -/
noncomputable def Database.retained (now : Time) (d : Database) : Database where
  users := d.users.filter fun u => ¬Deleted now d (.user u)
  loginFlows := d.loginFlows.filter fun f => ¬Deleted now d (.loginFlow f)
  magicLinks := d.magicLinks.filter fun l => ¬Deleted now d (.magicLink l)
  authorizationCodes := d.authorizationCodes.filter fun c => ¬Deleted now d (.authorizationCode c)
  sessions := (d.sessions.filter fun s => ¬Deleted now d (.session s)).map fun s =>
    if ∃ c, s.authorizationCodeId = some c.id ∧ Deleted now d (.authorizationCode c) then
      { s with authorizationCodeId := none }
    else s
  refreshTokens := d.refreshTokens.filter fun r => ¬Deleted now d (.refreshToken r)
  emailChanges := d.emailChanges.filter fun c => ¬Deleted now d (.emailChange c)
  confirmations := d.confirmations.filter fun c => ¬Deleted now d (.confirmation c)
  signingKeys := d.signingKeys.filter fun k => ¬Deleted now d (.signingKey k)

/-- How many rows of each table are past its retention rule. -/
def Database.due (now : Time) (d : Database) : Purge.PurgeReport where
  loginFlows := d.loginFlows.countP fun f => Row.PastRetention now (.loginFlow f)
  emailChanges := d.emailChanges.countP fun c => Row.PastRetention now (.emailChange c)
  confirmations := d.confirmations.countP fun c => Row.PastRetention now (.confirmation c)
  sessions := d.sessions.countP fun s => Row.PastRetention now (.session s)
  signingKeys := d.signingKeys.countP fun k => Row.PastRetention now (.signingKey k)
  unverifiedUsers := d.users.countP fun u => Row.PastRetention now (.user u)

/-! ### Deletions by identifier -/

/-- The rows deleted by a statement of their own, by identifier. -/
structure Marked where
  user : Uuid → Bool := fun _ => false
  loginFlow : Uuid → Bool := fun _ => false
  session : Uuid → Bool := fun _ => false
  emailChange : Uuid → Bool := fun _ => false
  confirmation : Uuid → Bool := fun _ => false

namespace Marked

variable (m : Marked) (d : Database)

def userGone (id : Uuid) : Bool := d.users.any fun u => u.id = id && m.user u.id

def flowGone (id : Uuid) : Bool := d.loginFlows.any fun f => f.id = id && m.loginFlow f.id

def codeGone (c : AuthorizationCode) : Bool := m.flowGone d c.flowId || m.userGone d c.userId

def sessionGone (s : Session) : Bool := m.session s.id || m.userGone d s.userId

def inSessionGone (id : Uuid) : Bool := d.sessions.any fun s => s.id = id && m.sessionGone d s

def tokenGone (r : RefreshToken) : Bool :=
  cascades RefreshToken.rotatedFrom d.refreshTokens (fun r => m.inSessionGone d r.sessionId) r

def forgets (id : Uuid) : Bool := d.authorizationCodes.any fun c => c.id = id && m.codeGone d c

/-- What is left of `d` once the marked rows are deleted, with what hangs from them. -/
def pruned : Database where
  users := d.users.filter fun u => !m.user u.id
  loginFlows := d.loginFlows.filter fun f => !m.loginFlow f.id
  magicLinks := d.magicLinks.filter fun l => !(m.flowGone d l.flowId || l.userId.any (m.userGone d))
  authorizationCodes := d.authorizationCodes.filter fun c => !m.codeGone d c
  sessions := updateWhere (fun s => s.authorizationCodeId.any (m.forgets d))
    (fun s => { s with authorizationCodeId := none }) (d.sessions.filter fun s => !m.sessionGone d s)
  refreshTokens := d.refreshTokens.filter fun r => !m.tokenGone d r
  emailChanges := d.emailChanges.filter fun c => !(m.emailChange c.id || m.userGone d c.userId)
  confirmations := d.confirmations.filter fun c =>
    !(m.confirmation c.id || m.userGone d c.userId || m.inSessionGone d c.sessionId)
  signingKeys := d.signingKeys

end Marked

/-- Among rows that stay, those that go now, with those that went. -/
lemma any_filter_or {ρ : Type} (l : List ρ) (p q r : ρ → Bool) :
    (l.any (fun x => q x && p x) || (l.filter fun x => !p x).any fun x => q x && r x) =
      l.any fun x => q x && (p x || r x) := by
  rw [Bool.eq_iff_iff]
  simp only [Bool.or_eq_true, List.any_eq_true, Bool.and_eq_true, List.mem_filter,
    Bool.not_eq_true']
  constructor
  · rintro (⟨x, hx, hq, hp⟩ | ⟨x, ⟨hx, -⟩, hq, hr⟩)
    · exact ⟨x, hx, hq, .inl hp⟩
    · exact ⟨x, hx, hq, .inr hr⟩
  · rintro ⟨x, hx, hq, h⟩
    cases hp : p x with
    | true => exact .inl ⟨x, hx, hq, hp⟩
    | false => exact .inr ⟨x, ⟨hx, hp⟩, hq, by simpa [hp] using h⟩

/-- A session that forgot its code forgets no other. -/
lemma forget_forget (l : List Session) (f g : Uuid → Bool) :
    updateWhere (fun s => s.authorizationCodeId.any g)
        (fun s => { s with authorizationCodeId := none })
        (updateWhere (fun s => s.authorizationCodeId.any f)
          (fun s => { s with authorizationCodeId := none }) l) =
      updateWhere (fun s => s.authorizationCodeId.any fun id => f id || g id)
        (fun s => { s with authorizationCodeId := none }) l := by
  simp only [updateWhere, List.map_map]
  refine List.map_congr_left fun s _ => ?_
  cases hcode : s.authorizationCodeId with
  | none => simp [hcode]
  | some id => cases hf : f id <;> cases hg : g id <;> simp [hcode, hf, hg]

lemma map_forget (l : List Session) (f : Uuid → Bool) :
    (updateWhere (fun s => s.authorizationCodeId.any f)
        (fun s => { s with authorizationCodeId := none }) l).map Session.id = l.map Session.id :=
  map_updateWhere Session.id fun _ => rfl

lemma filter_forget (l : List Session) (f : Uuid → Bool) (q : Session → Bool)
    (hq : ∀ s, q { s with authorizationCodeId := none } = q s) :
    (updateWhere (fun s => s.authorizationCodeId.any f)
        (fun s => { s with authorizationCodeId := none }) l).filter q =
      updateWhere (fun s => s.authorizationCodeId.any f)
        (fun s => { s with authorizationCodeId := none }) (l.filter q) := by
  simp only [updateWhere, List.filter_map]
  congr 1
  refine List.filter_congr fun s _ => ?_
  simp only [Function.comp_apply]
  split
  · exact hq s
  · rfl

lemma any_forget (l : List Session) (f : Uuid → Bool) (q : Session → Bool)
    (hq : ∀ s, q { s with authorizationCodeId := none } = q s) :
    (updateWhere (fun s => s.authorizationCodeId.any f)
        (fun s => { s with authorizationCodeId := none }) l).any q = l.any q := by
  simp only [updateWhere, List.any_map]
  congr 1
  funext s
  simp only [Function.comp_apply]
  split
  · exact hq s
  · rfl

namespace Marked

variable (m : Marked) (d : Database) (id : Uuid)

lemma pruned_empty : ({} : Marked).pruned d = d := by
  have hflow : ∀ x, ({} : Marked).flowGone d x = false := fun x => by simp [flowGone]
  have huser : ∀ x, ({} : Marked).userGone d x = false := fun x => by simp [userGone]
  have hcode : ∀ c, ({} : Marked).codeGone d c = false := fun c => by simp [codeGone, hflow, huser]
  have hsession : ∀ s, ({} : Marked).sessionGone d s = false := fun s => by
    simp [sessionGone, huser]
  have hwithin : ∀ x, ({} : Marked).inSessionGone d x = false := fun x => by
    simp [inSessionGone, hsession]
  have htoken : ∀ r, ({} : Marked).tokenGone d r = false := fun r =>
    cascades_of_forall_not fun r => hwithin r.sessionId
  have hforgets : ∀ x, ({} : Marked).forgets d x = false := fun x => by simp [forgets, hcode]
  have hlinks : ∀ l : MagicLink, l.userId.any (({} : Marked).userGone d) = false := fun l => by
    cases hid : l.userId <;> simp [huser]
  have hcodes : ∀ s : Session, s.authorizationCodeId.any (({} : Marked).forgets d) = false := by
    intro s
    cases hid : s.authorizationCodeId <;> simp [hforgets]
  simp [pruned, updateWhere, hflow, hcode, hsession, hwithin, htoken, hlinks, hcodes, huser]

/-- The tokens that go with more sessions. -/
lemma tokens_pruned {m m' : Marked} {gone : Uuid → Bool}
    (h : ∀ x, m'.inSessionGone d x = (m.inSessionGone d x || gone x)) :
    (d.refreshTokens.filter fun r =>
        !cascades RefreshToken.rotatedFrom (d.refreshTokens.filter fun r => !m.tokenGone d r)
            (fun r => gone r.sessionId) r && !m.tokenGone d r) =
      d.refreshTokens.filter fun r => !m'.tokenGone d r := by
  rw [← List.filter_filter]
  simp only [tokenGone, h]
  exact filter_cascades

/-! #### A login flow -/

/-- A login flow marked too. -/
def markFlow : Marked := { m with loginFlow := fun x => m.loginFlow x || x = id }

@[simp] lemma userGone_markFlow : (m.markFlow id).userGone d = m.userGone d := rfl

@[simp] lemma sessionGone_markFlow : (m.markFlow id).sessionGone d = m.sessionGone d := rfl

@[simp] lemma inSessionGone_markFlow : (m.markFlow id).inSessionGone d = m.inSessionGone d := rfl

lemma deleteLoginFlows_pruned :
    (m.pruned d).deleteLoginFlows (fun f => f.id = id) = (m.markFlow id).pruned d := by
  obtain ⟨gone, hgone⟩ : ∃ gone : Uuid → Bool, ∀ x, ((d.loginFlows.filter fun f =>
      !m.loginFlow f.id).any fun f => f.id = x && f.id = id) = gone x := ⟨_, fun _ => rfl⟩
  have hflow : ∀ x, (m.markFlow id).flowGone d x = (m.flowGone d x || gone x) := fun x => by
    rw [← hgone]
    exact (any_filter_or ..).symm
  have hcode : ∀ c, (m.markFlow id).codeGone d c = (m.codeGone d c || gone c.flowId) := fun c => by
    simp only [codeGone, hflow, userGone_markFlow]
    exact Bool.or_right_comm ..
  have hforgets : ∀ x, (m.markFlow id).forgets d x = (m.forgets d x ||
      (d.authorizationCodes.filter fun c => !m.codeGone d c).any fun c =>
        c.id = x && gone c.flowId) := fun x => by
    simp only [forgets, any_filter_or, hcode]
  simp only [Database.deleteLoginFlows, Database.deleteAuthorizationCodes, pruned, forget_forget,
    List.filter_filter, hgone, hflow, hcode, ← hforgets, userGone_markFlow, sessionGone_markFlow,
    inSessionGone_markFlow]
  congr 1
  · exact List.filter_congr fun f _ => by simp [markFlow, Bool.and_comm]
  · exact List.filter_congr fun l _ => by simp [Bool.and_left_comm, Bool.and_assoc]
  · exact List.filter_congr fun c _ => by simp [Bool.and_comm]

/-! #### A pending change, a confirmation -/

def deleteChange (id : Uuid) (d : Database) : Database :=
  { d with emailChanges := d.emailChanges.filter fun c => c.id ≠ id }

/-- An email change marked too. -/
def markChange : Marked := { m with emailChange := fun x => m.emailChange x || x = id }

lemma deleteChange_pruned : deleteChange id (m.pruned d) = (m.markChange id).pruned d := by
  simp only [deleteChange, pruned, List.filter_filter]
  congr 1
  refine List.filter_congr fun c _ => ?_
  have huser : (m.markChange id).userGone d = m.userGone d := rfl
  have hchange : (m.markChange id).emailChange c.id = (m.emailChange c.id || c.id = id) := rfl
  simp [hchange, huser, Bool.and_left_comm, Bool.and_assoc]

def deleteConfirmation (id : Uuid) (d : Database) : Database :=
  { d with confirmations := d.confirmations.filter fun c => c.id ≠ id }

/-- A confirmation marked too. -/
def markConfirmation : Marked := { m with confirmation := fun x => m.confirmation x || x = id }

lemma deleteConfirmation_pruned :
    deleteConfirmation id (m.pruned d) = (m.markConfirmation id).pruned d := by
  simp only [deleteConfirmation, pruned, List.filter_filter]
  congr 1
  refine List.filter_congr fun c _ => ?_
  have huser : (m.markConfirmation id).userGone d = m.userGone d := rfl
  have hsession : (m.markConfirmation id).inSessionGone d = m.inSessionGone d := rfl
  have hmark : (m.markConfirmation id).confirmation c.id = (m.confirmation c.id || c.id = id) := rfl
  simp [hmark, huser, hsession, Bool.and_comm, Bool.and_left_comm]

/-! #### A session -/

/-- A session marked too. -/
def markSession : Marked := { m with session := fun x => m.session x || x = id }

@[simp] lemma userGone_markSession : (m.markSession id).userGone d = m.userGone d := rfl

@[simp] lemma flowGone_markSession : (m.markSession id).flowGone d = m.flowGone d := rfl

@[simp] lemma codeGone_markSession : (m.markSession id).codeGone d = m.codeGone d := rfl

@[simp] lemma forgets_markSession : (m.markSession id).forgets d = m.forgets d := rfl

lemma deleteSessions_pruned :
    (m.pruned d).deleteSessions (fun s => s.id = id) = (m.markSession id).pruned d := by
  obtain ⟨gone, hgone⟩ : ∃ gone : Uuid → Bool, ∀ x, ((d.sessions.filter fun s =>
      !m.sessionGone d s).any fun s => s.id = x && s.id = id) = gone x := ⟨_, fun _ => rfl⟩
  have hsession : ∀ s, (m.markSession id).sessionGone d s =
      (m.sessionGone d s || decide (s.id = id)) := fun s => by
    simp only [sessionGone, markSession]
    exact Bool.or_right_comm ..
  have hwithin : ∀ x, (m.markSession id).inSessionGone d x = (m.inSessionGone d x || gone x) := by
    intro x
    rw [← hgone]
    simp only [inSessionGone, any_filter_or, hsession]
  have hany : ∀ x, (m.pruned d).sessions.any (fun s => s.id = x && s.id = id) = gone x :=
    fun x => (any_forget _ _ _ fun _ => rfl).trans (hgone x)
  simp only [Database.deleteSessions, hany]
  simp only [pruned, List.filter_filter, hwithin, hsession, userGone_markSession,
    flowGone_markSession, codeGone_markSession, forgets_markSession]
  congr 1
  · rw [filter_forget _ _ _ fun _ => rfl, List.filter_filter]
    exact congrArg _ (List.filter_congr fun s _ => by simp [Bool.and_comm])
  · exact tokens_pruned d hwithin
  · refine List.filter_congr fun c _ => ?_
    have hmark : (m.markSession id).confirmation = m.confirmation := rfl
    simp [hmark, Bool.and_comm, Bool.and_assoc]

/-! #### An account -/

/-- An account marked too. -/
def markUser : Marked := { m with user := fun x => m.user x || x = id }

@[simp] lemma flowGone_markUser : (m.markUser id).flowGone d = m.flowGone d := rfl

lemma deleteUsers_pruned :
    (m.pruned d).deleteUsers (fun u => u.id = id) = (m.markUser id).pruned d := by
  obtain ⟨gone, hgone⟩ : ∃ gone : Uuid → Bool, ∀ x, ((d.users.filter fun u =>
      !m.user u.id).any fun u => u.id = x && u.id = id) = gone x := ⟨_, fun _ => rfl⟩
  obtain ⟨within, hgoneWithin⟩ : ∃ within : Uuid → Bool, ∀ x, ((d.sessions.filter fun s =>
      !m.sessionGone d s).any fun s => s.id = x && gone s.userId) = within x := ⟨_, fun _ => rfl⟩
  have huser : ∀ x, (m.markUser id).userGone d x = (m.userGone d x || gone x) := fun x => by
    rw [← hgone]
    exact (any_filter_or ..).symm
  have hcode : ∀ c, (m.markUser id).codeGone d c = (m.codeGone d c || gone c.userId) := fun c => by
    simp only [codeGone, huser, flowGone_markUser]
    exact (Bool.or_assoc ..).symm
  have hforgets : ∀ x, (m.markUser id).forgets d x = (m.forgets d x ||
      (d.authorizationCodes.filter fun c => !m.codeGone d c).any fun c =>
        c.id = x && gone c.userId) := fun x => by
    simp only [forgets, any_filter_or, hcode]
  have hsession : ∀ s, (m.markUser id).sessionGone d s = (m.sessionGone d s || gone s.userId) := by
    intro s
    simp only [sessionGone, huser]
    exact (Bool.or_assoc ..).symm
  have hwithin : ∀ x, (m.markUser id).inSessionGone d x =
      (m.inSessionGone d x || within x) := fun x => by
    rw [← hgoneWithin]
    simp only [inSessionGone, any_filter_or, hsession]
  have hlink : ∀ o : Option Uuid, o.any ((m.markUser id).userGone d) =
      (o.any (m.userGone d) || o.any gone) := fun o => by
    cases o <;> simp [huser]
  have hfilter : ∀ f l, (updateWhere (fun s : Session => s.authorizationCodeId.any f)
        (fun s => { s with authorizationCodeId := none }) l).filter (fun s => !gone s.userId) =
      updateWhere (fun s => s.authorizationCodeId.any f)
        (fun s => { s with authorizationCodeId := none }) (l.filter fun s => !gone s.userId) :=
    fun f l => filter_forget l f _ fun _ => rfl
  have hany : ∀ f x, (updateWhere (fun s : Session => s.authorizationCodeId.any f)
        (fun s => { s with authorizationCodeId := none }) (d.sessions.filter fun s =>
          !m.sessionGone d s)).any (fun s => s.id = x && gone s.userId) = within x :=
    fun f x => (any_forget _ f _ fun _ => rfl).trans (hgoneWithin x)
  have hmark : (m.markUser id).confirmation = m.confirmation := rfl
  have hmark' : (m.markUser id).emailChange = m.emailChange := rfl
  simp only [Database.deleteUsers, Database.deleteAuthorizationCodes, Database.deleteSessions,
    pruned, forget_forget, hgone, ← hforgets, hany, hfilter, List.filter_filter, hlink, hcode,
    hsession, hwithin, huser, flowGone_markUser, hmark, hmark']
  congr 1
  · exact List.filter_congr fun u _ => by simp [markUser, Bool.and_comm]
  · exact List.filter_congr fun l _ => by
      simp [Bool.and_comm, Bool.and_left_comm]
  · exact List.filter_congr fun c _ => by simp [Bool.and_comm]
  · exact congrArg _ (List.filter_congr fun s _ => by simp [Bool.and_comm])
  · exact tokens_pruned d hwithin
  · exact List.filter_congr fun c _ => by
      simp [Bool.and_comm, Bool.and_assoc]
  · exact List.filter_congr fun c _ => by
      simp [Bool.and_comm, Bool.and_left_comm, Bool.and_assoc]

/-! #### All that a pass marks -/

variable {d}

/-- The passes of the purge mark the rows of their rules. -/
lemma swept_pruned {del : Uuid → Database → Database} {mark : Marked → Uuid → Marked}
    (h : ∀ m id, del id (m.pruned d) = (mark m id).pruned d) (m : Marked) (ids : List Uuid) :
    Purge.swept del ids (m.pruned d) = (ids.foldl mark m).pruned d := by
  induction ids generalizing m with
  | nil => rfl
  | cons id ids ih => rw [Purge.swept_cons, h, ih, List.foldl_cons]

lemma foldl_markFlow (m : Marked) (ids : List Uuid) : ids.foldl markFlow m =
    { m with loginFlow := fun x => m.loginFlow x || decide (x ∈ ids) } := by
  induction ids generalizing m with
  | nil => simp
  | cons id ids ih => simp [ih, markFlow, Bool.or_assoc]

lemma foldl_markChange (m : Marked) (ids : List Uuid) : ids.foldl markChange m =
    { m with emailChange := fun x => m.emailChange x || decide (x ∈ ids) } := by
  induction ids generalizing m with
  | nil => simp
  | cons id ids ih => simp [ih, markChange, Bool.or_assoc]

lemma foldl_markConfirmation (m : Marked) (ids : List Uuid) : ids.foldl markConfirmation m =
    { m with confirmation := fun x => m.confirmation x || decide (x ∈ ids) } := by
  induction ids generalizing m with
  | nil => simp
  | cons id ids ih => simp [ih, markConfirmation, Bool.or_assoc]

lemma foldl_markSession (m : Marked) (ids : List Uuid) : ids.foldl markSession m =
    { m with session := fun x => m.session x || decide (x ∈ ids) } := by
  induction ids generalizing m with
  | nil => simp
  | cons id ids ih => simp [ih, markSession, Bool.or_assoc]

lemma foldl_markUser (m : Marked) (ids : List Uuid) : ids.foldl markUser m =
    { m with user := fun x => m.user x || decide (x ∈ ids) } := by
  induction ids generalizing m with
  | nil => simp
  | cons id ids ih => simp [ih, markUser, Bool.or_assoc]

/-! #### Tables where nothing is marked -/

variable {m : Marked}

lemma userGone_of_none (h : ∀ x, m.user x = false) (x : Uuid) : m.userGone d x = false := by
  simp [userGone, h]

lemma sessionGone_of_none (hu : ∀ x, m.user x = false) (hs : ∀ x, m.session x = false)
    (s : Session) : m.sessionGone d s = false := by
  simp [sessionGone, hs, userGone_of_none hu]

lemma emailChanges_pruned (hu : ∀ x, m.user x = false) (hc : ∀ x, m.emailChange x = false) :
    (m.pruned d).emailChanges = d.emailChanges := by
  simp [pruned, hc, userGone_of_none hu]

lemma confirmations_pruned (hu : ∀ x, m.user x = false) (hs : ∀ x, m.session x = false)
    (hc : ∀ x, m.confirmation x = false) : (m.pruned d).confirmations = d.confirmations := by
  simp [pruned, hc, userGone_of_none hu, inSessionGone, sessionGone_of_none hu hs]

lemma users_pruned (hu : ∀ x, m.user x = false) : (m.pruned d).users = d.users := by
  simp [pruned, hu]

lemma sessions_pruned (hu : ∀ x, m.user x = false) (hs : ∀ x, m.session x = false) :
    (m.pruned d).sessions = updateWhere (fun s => s.authorizationCodeId.any (m.forgets d))
      (fun s => { s with authorizationCodeId := none }) d.sessions := by
  simp [pruned, sessionGone_of_none hu hs]

end Marked

namespace Purge

/-- The identifiers of the rows past the retention rule of their table. -/
def selectPast {ρ : Type} (t : Database → List ρ) (row : ρ → Row) (key : ρ → Uuid) (now : Time)
    (d : Database) : List Uuid :=
  select t key (fun now r => Row.PastRetention now (row r)) now d

lemma mem_selectPast {ρ : Type} {t : Database → List ρ} {row : ρ → Row} {key : ρ → Uuid}
    {now : Time} {d : Database} (hids : ((t d).map key).Nodup) {r : ρ} (hr : r ∈ t d) :
    key r ∈ selectPast t row key now d ↔ (row r).PastRetention now := by
  simp only [selectPast, select, List.mem_map, List.mem_filter, decide_eq_true_eq]
  constructor
  · rintro ⟨r', ⟨hr', hpast⟩, hkey⟩
    exact List.inj_on_of_nodup_map hids hr' hr hkey ▸ hpast
  · exact fun hpast => ⟨r, ⟨hr, hpast⟩, rfl⟩

/-- What the purge marks. -/
def marks (now : Time) (d : Database) : Marked where
  user id := id ∈ selectPast Database.users .user User.id now d
  loginFlow id := id ∈ selectPast Database.loginFlows .loginFlow LoginFlow.id now d
  session id := id ∈ selectPast Database.sessions .session Session.id now d
  emailChange id := id ∈ selectPast Database.emailChanges .emailChange EmailChange.id now d
  confirmation id := id ∈ selectPast Database.confirmations .confirmation Confirmation.id now d

/-! ### The run of the purge -/

lemma past_eq (ttl now expiresAt : Time) (usedAt : Option Time) : past ttl now expiresAt usedAt =
    decide (expiresAt < now - ttl ∨ ∃ t ∈ usedAt, t < now - ttl) := by
  cases usedAt <;> simp [past]

/-- A `DELETE` over the rows past the retention rule of a table. -/
def deletePast {ρ : Type} (t : Database → List ρ) (row : ρ → Row) (key : ρ → Uuid)
    (del : Uuid → Database → Database) : Program sig ℕ :=
  deleteBatch (selectPast t row key) (present t key) del

lemma loginFlows_eq : loginFlows = deletePast Database.loginFlows .loginFlow LoginFlow.id
    fun id => Database.deleteLoginFlows fun f => f.id = id := rfl

lemma emailChanges_eq : emailChanges =
    deletePast Database.emailChanges .emailChange EmailChange.id Marked.deleteChange := by
  simp only [emailChanges, past_eq]
  rfl

lemma confirmations_eq : confirmations =
    deletePast Database.confirmations .confirmation Confirmation.id Marked.deleteConfirmation := by
  simp only [confirmations, past_eq]
  rfl

lemma sessions_eq : sessions = deletePast Database.sessions .session Session.id
    fun id => Database.deleteSessions fun s => s.id = id := by
  simp only [sessions, past_eq]
  rfl

lemma unverifiedUsers_eq : unverifiedUsers = deletePast Database.users .user User.id
    fun id => Database.deleteUsers fun u => u.id = id := by
  have hrule : ∀ (now : Time) (u : User),
      (u.emailVerifiedAt.isNone && decide (u.createdAt < now - days 7)) =
        decide (u.emailVerifiedAt = none ∧ u.createdAt < now - days 7) := by
    intro now u
    cases u.emailVerifiedAt <;> simp
  simp only [unverifiedUsers, hrule]
  rfl

lemma deletes_loginFlows : Deletes Database.loginFlows LoginFlow.id
    fun id => Database.deleteLoginFlows fun f => f.id = id := by
  intro id d
  simp [Database.deleteLoginFlows, Database.deleteAuthorizationCodes]

lemma deletes_emailChanges : Deletes Database.emailChanges EmailChange.id Marked.deleteChange :=
  fun _ _ => rfl

lemma deletes_confirmations :
    Deletes Database.confirmations Confirmation.id Marked.deleteConfirmation :=
  fun _ _ => rfl

lemma deletes_sessions : Deletes Database.sessions Session.id
    fun id => Database.deleteSessions fun s => s.id = id := by
  intro id d
  simp [Database.deleteSessions]

lemma deletes_users : Deletes Database.users User.id
    fun id => Database.deleteUsers fun u => u.id = id := by
  intro id d
  simp [Database.deleteUsers, Database.deleteSessions, Database.deleteAuthorizationCodes]

lemma length_selectPast {ρ : Type} (t : Database → List ρ) (row : ρ → Row) (key : ρ → Uuid)
    (now : Time) (d : Database) : (selectPast t row key now d).length =
      (t d).countP fun r => Row.PastRetention now (row r) := by
  rw [selectPast, select, List.length_map, List.countP_eq_length_filter]

section Pass

variable {ρ : Type} {t : Database → List ρ} {row : ρ → Row} {key : ρ → Uuid}
  {del : Uuid → Database → Database} {mark : Marked → Uuid → Marked} {env : Env sig} {process : ℕ}
  {d : Database} {m : Marked} {events : List Event}

/-- A pass over a table marks its rows that are past retention and counts them. -/
lemma wp_pass (hdel : Deletes t key del)
    (hmark : ∀ m id, del id (Marked.pruned m d) = (mark m id).pruned d)
    (hids : ((t (m.pruned d)).map key).Nodup)
    (hsame : selectPast t row key env.now (m.pruned d) = selectPast t row key env.now d) {fuel : ℕ}
    (hfuel : ((t d).countP fun r => Row.PastRetention env.now (row r)) < fuel)
    {Q : Option ℕ → Point sig → Prop}
    (hQ : Q (some ((t d).countP fun r => Row.PastRetention env.now (row r)))
      ⟨((selectPast t row key env.now d).foldl mark m).pruned d, none, events⟩) :
    (inBatches (deletePast t row key del) fuel 0).wp env process ⟨m.pruned d, none, events⟩ Q := by
  have hcount : (selectPast t row key env.now (m.pruned d)).length =
      (t d).countP fun r => Row.PastRetention env.now (row r) := by
    rw [hsame, length_selectPast]
  have hlt := hcount.trans_lt hfuel
  refine wp_inBatches hdel hids (hlt.trans_le (Nat.le_mul_of_pos_right _ (by decide))) ?_
  change Q (some (0 + (selectPast t row key env.now (m.pruned d)).length))
    ⟨swept del (selectPast t row key env.now (m.pruned d)) (m.pruned d), none, events⟩
  rw [Nat.zero_add, hcount, hsame, Marked.swept_pruned hmark]
  exact hQ

end Pass

/-- More batches than any table needs. -/
def enough (now : Time) (d : Database) : ℕ :=
  (d.due now).loginFlows + (d.due now).emailChanges + (d.due now).confirmations +
    (d.due now).sessions + (d.due now).unverifiedUsers + 1

/-- What the purge leaves: the marked rows go, and the keys retired long ago. -/
def purged (now : Time) (d : Database) : Database :=
  { (marks now d).pruned d with
    signingKeys := d.signingKeys.filter fun k =>
      !decide (Row.PastRetention now (.signingKey k)) }

lemma length_signingKeys (now : Time) (d : Database) :
    (d.signingKeys.filter fun k => k.retiredAt.any fun t => t < now - days 30).length =
      (d.due now).signingKeys := by
  simp only [Database.due, List.countP_eq_length_filter]
  refine congrArg List.length (List.filter_congr fun k _ => ?_)
  cases hretired : k.retiredAt <;> simp [Row.PastRetention, hretired]

lemma nodup_sessions_pruned {m : Marked} {d : Database} (hids : d.UniqueIds) :
    ((m.pruned d).sessions.map Session.id).Nodup := by
  simp only [Marked.pruned]
  rw [map_forget]
  exact hids.sessions.sublist (List.filter_sublist.map Session.id)

lemma selectPast_sessions {m : Marked} {d : Database} {now : Time} (hu : ∀ x, m.user x = false)
    (hs : ∀ x, m.session x = false) :
    selectPast Database.sessions .session Session.id now (m.pruned d) =
      selectPast Database.sessions .session Session.id now d := by
  simp only [selectPast, select, Marked.sessions_pruned hu hs]
  rw [filter_forget _ _ _ fun _ => rfl, map_forget]

/-- Alone, the purge ends, deletes the marked rows and reports how many each table had. -/
lemma purge_alone {env : Env sig} {process : ℕ} {d : Database} (hids : d.UniqueIds) {fuel : ℕ}
    (hfuel : enough env.now d ≤ fuel) :
    (purge fuel).wp env process ⟨d, none, []⟩ fun r c =>
      r = some (d.due env.now) ∧ c.db = purged env.now d := by
  have hstart : (⟨d, none, []⟩ : Point sig) = ⟨({} : Marked).pruned d, none, []⟩ := by
    rw [Marked.pruned_empty]
  simp only [enough, Database.due] at hfuel
  simp only [purge, loginFlows_eq, emailChanges_eq, confirmations_eq, sessions_eq,
    unverifiedUsers_eq]
  rw [hstart]
  refine (Program.wp_bind ..).mpr (wp_pass deletes_loginFlows
    (fun m id => m.deleteLoginFlows_pruned d id) ?_ ?_ (by omega) ?_)
  · rw [Marked.pruned_empty]
    exact hids.loginFlows
  · rw [Marked.pruned_empty]
  rw [Marked.foldl_markFlow]
  refine (Program.wp_bind ..).mpr (wp_pass deletes_emailChanges
    (fun m id => m.deleteChange_pruned d id) ?_ ?_ (by omega) ?_)
  · rw [Marked.emailChanges_pruned (fun _ => rfl) fun _ => rfl]
    exact hids.emailChanges
  · simp only [selectPast, select]
    rw [Marked.emailChanges_pruned (fun _ => rfl) fun _ => rfl]
  rw [Marked.foldl_markChange]
  refine (Program.wp_bind ..).mpr (wp_pass deletes_confirmations
    (fun m id => m.deleteConfirmation_pruned d id) ?_ ?_ (by omega) ?_)
  · rw [Marked.confirmations_pruned (fun _ => rfl) (fun _ => rfl) fun _ => rfl]
    exact hids.confirmations
  · simp only [selectPast, select]
    rw [Marked.confirmations_pruned (fun _ => rfl) (fun _ => rfl) fun _ => rfl]
  rw [Marked.foldl_markConfirmation]
  refine (Program.wp_bind ..).mpr (wp_pass deletes_sessions
    (fun m id => m.deleteSessions_pruned d id) (nodup_sessions_pruned hids)
    (selectPast_sessions (fun _ => rfl) fun _ => rfl) (by omega) ?_)
  rw [Marked.foldl_markSession]
  refine (Program.wp_bind ..).mpr (wp_pass deletes_users
    (fun m id => m.deleteUsers_pruned d id) ?_ ?_ (by omega) ?_)
  · rw [Marked.users_pruned fun _ => rfl]
    exact hids.users
  · simp only [selectPast, select]
    rw [Marked.users_pruned fun _ => rfl]
  rw [Marked.foldl_markUser]
  refine (Program.wp_bind ..).mpr ?_
  rw [wp_query]
  intro i
  have hkept : ∀ keys : List SigningKeyRow,
      (keys.filter fun k => !k.retiredAt.any fun t => t < env.now - days 30) =
        keys.filter fun k => !decide (Row.PastRetention env.now (.signingKey k)) := by
    intro keys
    refine List.filter_congr fun k _ => ?_
    cases hretired : k.retiredAt <;> simp [Row.PastRetention, hretired]
  refine ⟨?_, ?_⟩
  · change some (PurgeReport.mk _ _ _ _ (d.signingKeys.filter fun k =>
      k.retiredAt.any fun t => t < env.now - days 30).length _) = _
    rw [length_signingKeys]
    rfl
  · change { (marks env.now d).pruned d with
      signingKeys := d.signingKeys.filter fun k =>
        !(k.retiredAt.any fun t => t < env.now - days 30) } = purged env.now d
    rw [hkept]
    rfl

/-! ### The rows that go -/

section Deleted

variable {now : Time} {d : Database}

lemma deleted_user_iff {u : User} :
    Deleted now d (.user u) ↔ u ∈ d.users ∧ (Row.user u).PastRetention now := by
  constructor
  · intro h
    cases h with
    | rule hr h => exact ⟨hr, h⟩
    | cascade _ h _ => cases h
  · exact fun ⟨hr, h⟩ => .rule hr h

lemma deleted_loginFlow_iff {f : LoginFlow} :
    Deleted now d (.loginFlow f) ↔ f ∈ d.loginFlows ∧ (Row.loginFlow f).PastRetention now := by
  constructor
  · intro h
    cases h with
    | rule hr h => exact ⟨hr, h⟩
    | cascade _ h _ => cases h
  · exact fun ⟨hr, h⟩ => .rule hr h

lemma deleted_signingKey_iff {k : SigningKeyRow} :
    Deleted now d (.signingKey k) ↔ k ∈ d.signingKeys ∧ (Row.signingKey k).PastRetention now := by
  constructor
  · intro h
    cases h with
    | rule hr h => exact ⟨hr, h⟩
    | cascade _ h _ => cases h
  · exact fun ⟨hr, h⟩ => .rule hr h

lemma deleted_magicLink_iff {l : MagicLink} (hl : l ∈ d.magicLinks) :
    Deleted now d (.magicLink l) ↔ (∃ f, Deleted now d (.loginFlow f) ∧ l.flowId = f.id) ∨
      ∃ u, Deleted now d (.user u) ∧ l.userId = some u.id := by
  constructor
  · intro h
    cases h with
    | rule _ h => exact h.elim
    | cascade _ h hparent =>
      cases h with
      | linkOfFlow h => exact .inl ⟨_, hparent, h⟩
      | linkOfUser h => exact .inr ⟨_, hparent, h⟩
  · rintro (⟨f, hf, h⟩ | ⟨u, hu, h⟩)
    · exact .cascade hl (.linkOfFlow h) hf
    · exact .cascade hl (.linkOfUser h) hu

lemma deleted_code_iff {c : AuthorizationCode} (hc : c ∈ d.authorizationCodes) :
    Deleted now d (.authorizationCode c) ↔ (∃ f, Deleted now d (.loginFlow f) ∧ c.flowId = f.id) ∨
      ∃ u, Deleted now d (.user u) ∧ c.userId = u.id := by
  constructor
  · intro h
    cases h with
    | rule _ h => exact h.elim
    | cascade _ h hparent =>
      cases h with
      | codeOfFlow h => exact .inl ⟨_, hparent, h⟩
      | codeOfUser h => exact .inr ⟨_, hparent, h⟩
  · rintro (⟨f, hf, h⟩ | ⟨u, hu, h⟩)
    · exact .cascade hc (.codeOfFlow h) hf
    · exact .cascade hc (.codeOfUser h) hu

lemma deleted_session_iff {s : Session} (hs : s ∈ d.sessions) :
    Deleted now d (.session s) ↔ (Row.session s).PastRetention now ∨
      ∃ u, Deleted now d (.user u) ∧ s.userId = u.id := by
  constructor
  · intro h
    cases h with
    | rule _ h => exact .inl h
    | cascade _ h hparent =>
      cases h with
      | sessionOfUser h => exact .inr ⟨_, hparent, h⟩
  · rintro (h | ⟨u, hu, h⟩)
    · exact .rule hs h
    · exact .cascade hs (.sessionOfUser h) hu

lemma deleted_emailChange_iff {c : EmailChange} (hc : c ∈ d.emailChanges) :
    Deleted now d (.emailChange c) ↔ (Row.emailChange c).PastRetention now ∨
      ∃ u, Deleted now d (.user u) ∧ c.userId = u.id := by
  constructor
  · intro h
    cases h with
    | rule _ h => exact .inl h
    | cascade _ h hparent =>
      cases h with
      | changeOfUser h => exact .inr ⟨_, hparent, h⟩
  · rintro (h | ⟨u, hu, h⟩)
    · exact .rule hc h
    · exact .cascade hc (.changeOfUser h) hu

lemma deleted_confirmation_iff {c : Confirmation} (hc : c ∈ d.confirmations) :
    Deleted now d (.confirmation c) ↔ ((Row.confirmation c).PastRetention now ∨
      ∃ u, Deleted now d (.user u) ∧ c.userId = u.id) ∨
        ∃ s, Deleted now d (.session s) ∧ c.sessionId = s.id := by
  constructor
  · intro h
    cases h with
    | rule _ h => exact .inl (.inl h)
    | cascade _ h hparent =>
      cases h with
      | confirmationOfUser h => exact .inl (.inr ⟨_, hparent, h⟩)
      | confirmationOfSession h => exact .inr ⟨_, hparent, h⟩
  · rintro ((h | ⟨u, hu, h⟩) | ⟨s, hs, h⟩)
    · exact .rule hc h
    · exact .cascade hc (.confirmationOfUser h) hu
    · exact .cascade hc (.confirmationOfSession h) hs

/-- The parent of a refresh token is of its session, so that the token goes with the session. -/
lemma deleted_refreshToken_iff (hparents : d.ParentsWithin) {r : RefreshToken}
    (hr : r ∈ d.refreshTokens) : Deleted now d (.refreshToken r) ↔
      ∃ s, Deleted now d (.session s) ∧ r.sessionId = s.id := by
  constructor
  · intro h
    generalize hrow : Row.refreshToken r = row at h
    induction h generalizing r with
    | rule _ h =>
      subst hrow
      exact h.elim
    | cascade _ h hparent ih =>
      subst hrow
      cases h with
      | tokenOfSession h => exact ⟨_, hparent, h⟩
      | tokenOfParent h =>
        have hp := hparent.holds
        obtain ⟨s, hs, hsession⟩ := ih hp rfl
        exact ⟨s, hs, (hparents r hr _ hp h).trans hsession⟩
  · rintro ⟨s, hs, h⟩
    exact .cascade hr (.tokenOfSession h) hs

/-! ### The marks -/

lemma marks_user_iff (hids : d.UniqueIds) {u : User} (hu : u ∈ d.users) :
    (marks now d).user u.id = true ↔ Deleted now d (.user u) := by
  rw [deleted_user_iff, and_iff_right hu]
  exact decide_eq_true_iff.trans (mem_selectPast hids.users hu)

lemma marks_loginFlow_iff (hids : d.UniqueIds) {f : LoginFlow} (hf : f ∈ d.loginFlows) :
    (marks now d).loginFlow f.id = true ↔ Deleted now d (.loginFlow f) := by
  rw [deleted_loginFlow_iff, and_iff_right hf]
  exact decide_eq_true_iff.trans (mem_selectPast hids.loginFlows hf)

lemma userGone_iff (hids : d.UniqueIds) {id : Uuid} :
    (marks now d).userGone d id = true ↔ ∃ u, Deleted now d (.user u) ∧ id = u.id := by
  simp only [Marked.userGone, List.any_eq_true, Bool.and_eq_true, decide_eq_true_eq]
  constructor
  · rintro ⟨u, hu, rfl, h⟩
    exact ⟨u, (marks_user_iff hids hu).mp h, rfl⟩
  · rintro ⟨u, h, rfl⟩
    exact ⟨u, h.holds, rfl, (marks_user_iff hids h.holds).mpr h⟩

lemma flowGone_iff (hids : d.UniqueIds) {id : Uuid} :
    (marks now d).flowGone d id = true ↔ ∃ f, Deleted now d (.loginFlow f) ∧ id = f.id := by
  simp only [Marked.flowGone, List.any_eq_true, Bool.and_eq_true, decide_eq_true_eq]
  constructor
  · rintro ⟨f, hf, rfl, h⟩
    exact ⟨f, (marks_loginFlow_iff hids hf).mp h, rfl⟩
  · rintro ⟨f, h, rfl⟩
    exact ⟨f, h.holds, rfl, (marks_loginFlow_iff hids h.holds).mpr h⟩

lemma codeGone_iff (hids : d.UniqueIds) {c : AuthorizationCode} (hc : c ∈ d.authorizationCodes) :
    (marks now d).codeGone d c = true ↔ Deleted now d (.authorizationCode c) := by
  rw [deleted_code_iff hc, ← flowGone_iff hids, ← userGone_iff hids]
  exact Bool.or_eq_true_iff

lemma sessionGone_iff (hids : d.UniqueIds) {s : Session} (hs : s ∈ d.sessions) :
    (marks now d).sessionGone d s = true ↔ Deleted now d (.session s) := by
  rw [deleted_session_iff hs, ← userGone_iff hids, ← mem_selectPast hids.sessions hs]
  simp only [Marked.sessionGone, Bool.or_eq_true]
  exact or_congr_left decide_eq_true_iff

lemma inSessionGone_iff (hids : d.UniqueIds) {id : Uuid} :
    (marks now d).inSessionGone d id = true ↔ ∃ s, Deleted now d (.session s) ∧ id = s.id := by
  simp only [Marked.inSessionGone, List.any_eq_true, Bool.and_eq_true, decide_eq_true_eq]
  constructor
  · rintro ⟨s, hs, rfl, h⟩
    exact ⟨s, (sessionGone_iff hids hs).mp h, rfl⟩
  · rintro ⟨s, h, rfl⟩
    exact ⟨s, h.holds, rfl, (sessionGone_iff hids h.holds).mpr h⟩

lemma tokenGone_iff (hids : d.UniqueIds) {r : RefreshToken} (hr : r ∈ d.refreshTokens) :
    (marks now d).tokenGone d r = true ↔ Deleted now d (.refreshToken r) := by
  rw [Marked.tokenGone, cascades_iff hr]
  constructor
  · intro h
    induction h with
    | hit h =>
      obtain ⟨s, hs, hsession⟩ := (inSessionGone_iff hids).mp h
      exact .cascade hr (.tokenOfSession hsession) hs
    | step hr' hrotated _ ih =>
      exact .cascade hr (.tokenOfParent (of_decide_eq_true hrotated)) (ih hr')
  · intro h
    generalize hrow : Row.refreshToken r = row at h
    induction h generalizing r with
    | rule _ h =>
      subst hrow
      exact h.elim
    | cascade _ h hparent ih =>
      subst hrow
      cases h with
      | tokenOfSession h => exact .hit ((inSessionGone_iff hids).mpr ⟨_, hparent, h⟩)
      | tokenOfParent h => exact .step hparent.holds (decide_eq_true h) (ih hparent.holds rfl)

lemma forgets_iff (hids : d.UniqueIds) {id : Uuid} : (marks now d).forgets d id = true ↔
    ∃ c, id = c.id ∧ Deleted now d (.authorizationCode c) := by
  simp only [Marked.forgets, List.any_eq_true, Bool.and_eq_true, decide_eq_true_eq]
  constructor
  · rintro ⟨c, hc, rfl, h⟩
    exact ⟨c, rfl, (codeGone_iff hids hc).mp h⟩
  · rintro ⟨c, rfl, h⟩
    exact ⟨c, h.holds, rfl, (codeGone_iff hids h.holds).mpr h⟩

/-- A table loses the rows that are deleted. -/
lemma filter_deleted {ρ : Type} {rows : List ρ} {row : ρ → Row} {p q : ρ → Bool}
    (h : ∀ r ∈ rows, p r = true ↔ Deleted now d (row r))
    (hq : ∀ r, q r = true ↔ ¬Deleted now d (row r)) :
    (rows.filter fun r => !p r) = rows.filter q := by
  refine List.filter_congr fun r hr => ?_
  rw [Bool.eq_iff_iff, hq, ← h r hr]
  simp

open Classical in
/-- The marks are those of the rows that go. -/
lemma purged_eq (hids : d.UniqueIds) : purged now d = d.retained now := by
  simp only [purged, Marked.pruned, Database.retained]
  congr 1
  · exact filter_deleted (fun u hu => marks_user_iff hids hu) fun u => decide_eq_true_iff
  · exact filter_deleted (fun f hf => marks_loginFlow_iff hids hf) fun f => decide_eq_true_iff
  · refine filter_deleted (fun l hl => ?_) fun l => decide_eq_true_iff
    rw [deleted_magicLink_iff hl, ← flowGone_iff hids, Bool.or_eq_true]
    refine or_congr_right ?_
    cases hid : l.userId with
    | none => simp
    | some id => simp [userGone_iff hids]
  · exact filter_deleted (fun c hc => codeGone_iff hids hc) fun c => decide_eq_true_iff
  · rw [updateWhere, filter_deleted (fun s hs => sessionGone_iff hids hs) fun s =>
      decide_eq_true_iff]
    refine List.map_congr_left fun s _ => ?_
    refine if_congr ?_ rfl rfl
    cases hid : s.authorizationCodeId with
    | none => simp
    | some id => simp [forgets_iff hids]
  · exact filter_deleted (fun r hr => tokenGone_iff hids hr) fun r => decide_eq_true_iff
  · refine filter_deleted (fun c hc => ?_) fun c => decide_eq_true_iff
    rw [deleted_emailChange_iff hc, ← userGone_iff hids, Bool.or_eq_true,
      ← mem_selectPast hids.emailChanges hc]
    exact or_congr_left decide_eq_true_iff
  · refine filter_deleted (fun c hc => ?_) fun c => decide_eq_true_iff
    rw [deleted_confirmation_iff hc, ← userGone_iff hids, ← inSessionGone_iff hids,
      Bool.or_eq_true, Bool.or_eq_true, ← mem_selectPast hids.confirmations hc]
    exact or_congr_left (or_congr_left decide_eq_true_iff)
  · refine filter_deleted (fun k hk => ?_) fun k => decide_eq_true_iff
    rw [deleted_signingKey_iff, and_iff_right hk]
    exact decide_eq_true_iff

/-! ### A second run -/

lemma uniqueIds_retained (hids : d.UniqueIds) : (d.retained now).UniqueIds where
  users := hids.users.sublist (List.filter_sublist.map User.id)
  loginFlows := hids.loginFlows.sublist (List.filter_sublist.map LoginFlow.id)
  magicLinks := hids.magicLinks.sublist (List.filter_sublist.map MagicLink.id)
  authorizationCodes :=
    hids.authorizationCodes.sublist (List.filter_sublist.map AuthorizationCode.id)
  sessions := by
    simp only [Database.retained, List.map_map]
    refine Eq.mpr (congrArg List.Nodup (List.map_congr_left fun s _ => ?_))
      (hids.sessions.sublist (List.filter_sublist.map Session.id))
    simp only [Function.comp_apply]
    split_ifs <;> rfl
  refreshTokens := hids.refreshTokens.sublist (List.filter_sublist.map RefreshToken.id)
  emailChanges := hids.emailChanges.sublist (List.filter_sublist.map EmailChange.id)
  confirmations := hids.confirmations.sublist (List.filter_sublist.map Confirmation.id)

open Classical in
lemma mem_retained {ρ : Type} {rows : List ρ} {row : ρ → Row} {r : ρ} :
    r ∈ (rows.filter fun r => ¬Deleted now d (row r)) ↔ r ∈ rows ∧ ¬Deleted now d (row r) := by
  simp only [List.mem_filter, decide_eq_true_eq]

/-- A session that stays, as it was. -/
lemma mem_sessions_retained {s : Session} (hs : s ∈ (d.retained now).sessions) :
    ∃ s₀ ∈ d.sessions, ¬Deleted now d (.session s₀) ∧ s₀.id = s.id ∧
      s₀.expiresAt = s.expiresAt ∧ s₀.revokedAt = s.revokedAt := by
  obtain ⟨s₀, hs₀, rfl⟩ := List.mem_map.mp hs
  obtain ⟨hmem, hkept⟩ := mem_retained.mp hs₀
  refine ⟨s₀, hmem, hkept, ?_⟩
  split_ifs <;> exact ⟨rfl, rfl, rfl⟩

/-- Nothing that stays is past retention. -/
lemma not_past_retained {r : Row} (hr : (d.retained now).Holds r) : ¬r.PastRetention now := by
  intro hpast
  cases r with
  | user u =>
    obtain ⟨hmem, hkept⟩ := mem_retained.mp hr
    exact hkept (.rule hmem hpast)
  | loginFlow f =>
    obtain ⟨hmem, hkept⟩ := mem_retained.mp hr
    exact hkept (.rule hmem hpast)
  | magicLink l => exact hpast
  | authorizationCode c => exact hpast
  | session s =>
    obtain ⟨s₀, hmem, hkept, -, hexpires, hrevoked⟩ := mem_sessions_retained hr
    refine hkept (.rule hmem ?_)
    simpa only [Row.PastRetention, hexpires, hrevoked] using hpast
  | refreshToken r => exact hpast
  | emailChange c =>
    obtain ⟨hmem, hkept⟩ := mem_retained.mp hr
    exact hkept (.rule hmem hpast)
  | confirmation c =>
    obtain ⟨hmem, hkept⟩ := mem_retained.mp hr
    exact hkept (.rule hmem hpast)
  | signingKey k =>
    obtain ⟨hmem, hkept⟩ := mem_retained.mp hr
    exact hkept (.rule hmem hpast)

lemma not_deleted_retained {r : Row} : ¬Deleted now (d.retained now) r := by
  intro h
  induction h with
  | rule hr hpast => exact not_past_retained hr hpast
  | cascade _ _ _ ih => exact ih

lemma retained_retained : (d.retained now).retained now = d.retained now := by
  rw [Database.retained]
  simp only [not_deleted_retained, not_false_eq_true, decide_true, List.filter_true, and_false,
    exists_false, if_false, List.map_id']

lemma due_retained : (d.retained now).due now = ⟨0, 0, 0, 0, 0, 0⟩ := by
  have hzero : ∀ {ρ : Type} {rows : List ρ} {row : ρ → Row},
      (∀ r ∈ rows, (d.retained now).Holds (row r)) →
      (rows.countP fun r => Row.PastRetention now (row r)) = 0 := by
    intro ρ rows row h
    refine List.countP_eq_zero.mpr fun r hr => ?_
    simpa using not_past_retained (h r hr)
  simp only [Database.due]
  rw [hzero fun _ h => h, hzero fun _ h => h, hzero fun _ h => h, hzero fun _ h => h,
    hzero fun _ h => h, hzero fun _ h => h]

end Deleted

/-- Alone, the purge ends and leaves the rows that are retained. -/
lemma purge_retains {env : Env sig} (process : ℕ) {d : Database} (hids : d.UniqueIds)
    {fuel : ℕ} (hfuel : enough env.now d ≤ fuel) :
    (Program.serve env process (purge fuel) d).answer = some (d.due env.now) ∧
      (Program.serve env process (purge fuel) d).db = d.retained env.now := by
  rw [← purged_eq hids]
  let Q : Option PurgeReport → Database → List Event → Prop := fun r d' _ =>
    r = some (d.due env.now) ∧ d' = purged env.now d
  have halone : (purge fuel).wp env process ⟨d, none, []⟩ fun r c => Q r c.db c.events :=
    purge_alone hids hfuel
  exact Program.wp_serve halone

end Purge

/-- With no other writer and the clock at rest, the purge ends whatever the number of rows. It
leaves the rows that neither meet the rule of their table nor hang from a row that goes; it reports
the number of rows that met each rule; the refresh tokens of the sessions it keeps stay, where no
token was rotated from one of another session; and a second run deletes nothing. -/
theorem purge_exact {env env' : Env sig} (hnow : env'.now = env.now) (process process' : ℕ)
    {d : Database} (hids : d.UniqueIds) :
    ∃ enough, ∀ fuel ≥ enough,
      let run := Program.serve env process (Purge.purge fuel) d
      run.answer = some (d.due env.now) ∧ run.db = d.retained env.now ∧
      (d.ParentsWithin → ∀ r ∈ d.refreshTokens, ∀ s ∈ run.db.sessions, r.sessionId = s.id →
        r ∈ run.db.refreshTokens) ∧
      let again := Program.serve env' process' (Purge.purge fuel) run.db
      again.answer = some ⟨0, 0, 0, 0, 0, 0⟩ ∧ again.db = run.db := by
  refine ⟨Purge.enough env.now d, fun fuel hfuel => ?_⟩
  obtain ⟨hanswer, hdb⟩ := Purge.purge_retains process hids hfuel
  have hfuel' : Purge.enough env'.now (d.retained env.now) ≤ fuel := by
    rw [hnow, Purge.enough, Purge.due_retained]
    exact le_trans (Nat.succ_le_succ (Nat.zero_le _)) hfuel
  obtain ⟨hanswer', hdb'⟩ := Purge.purge_retains process' (Purge.uniqueIds_retained hids) hfuel'
  rw [hnow, Purge.due_retained] at hanswer'
  rw [hnow, Purge.retained_retained] at hdb'
  refine ⟨hanswer, hdb, ?_, ?_⟩
  · rw [hdb]
    intro hparents r hr s hs hsession
    refine Purge.mem_retained.mpr ⟨hr, fun hdeleted => ?_⟩
    obtain ⟨s', hs', hid⟩ := (Purge.deleted_refreshToken_iff hparents hr).mp hdeleted
    obtain ⟨s₀, hs₀, hkept, hid₀, -⟩ := Purge.mem_sessions_retained hs
    have heq : s₀.id = s'.id := hid₀.trans (hsession.symm.trans hid)
    exact hkept (List.inj_on_of_nodup_map hids.sessions hs₀ hs'.holds heq ▸ hs')
  · rw [hdb]
    exact ⟨hanswer', hdb'⟩

/-- Two sessions of an account, one of them revoked when it was opened. -/
def exampleRevoked : Database where
  users := [⟨0, "a@b.c", some 0, none, 0, 0⟩]
  sessions := [⟨1, 0, "client", none, days 90, some 0, 0⟩, ⟨2, 0, "client", none, days 90, none, 0⟩]
  refreshTokens := [⟨3, 1, none, [], none, none, 0⟩, ⟨4, 2, none, [], none, none, 0⟩]

/-- 31 days later, and limiters that let everything pass. -/
def exampleLater : Env sig where
  utc := days 31
  now := days 31
  reply q := Question.casesOn (motive := Reply) q (fun _ _ => none) ⟨[], []⟩

/-- The revoked session is purged with its refresh token. -/
theorem purge_exact_revoked : ∃ enough, ∀ fuel ≥ enough,
    (Program.serve exampleLater 0 (Purge.purge fuel) exampleRevoked).answer =
        some ⟨0, 0, 0, 1, 0, 0⟩ := by
  have hids : exampleRevoked.UniqueIds := by
    constructor <;> decide
  obtain ⟨enough, hrun⟩ := purge_exact (rfl : exampleLater.now = exampleLater.now) 0 0 hids
  refine ⟨enough, fun fuel hfuel => ?_⟩
  have hdue : exampleRevoked.due exampleLater.now = ⟨0, 0, 0, 1, 0, 0⟩ := by decide +kernel
  exact (hrun fuel hfuel).1.trans (congrArg some hdue)

/-- The same sessions, the token of the live one rotated from the token of the other. -/
def exampleRotatedAcross : Database :=
  { exampleRevoked with
    refreshTokens := [⟨3, 1, none, [], none, none, 0⟩, ⟨4, 2, some 3, [], none, none, 0⟩] }

/-- Such a token goes, and its session stays. -/
theorem token_purged_across :
    exampleRotatedAcross.UniqueIds ∧
      let run := Program.serve exampleLater 0 (Purge.purge 2) exampleRotatedAcross
      run.answer = some ⟨0, 0, 0, 1, 0, 0⟩ ∧
      ∃ r ∈ exampleRotatedAcross.refreshTokens, ∃ s ∈ run.db.sessions, r.sessionId = s.id ∧
        r ∉ run.db.refreshTokens := by
  refine ⟨?_, ?_⟩
  · constructor <;> decide
  · decide +kernel

end Bauth
