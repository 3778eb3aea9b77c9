import Bauth.Serial.Coherence
import Bauth.Serial.Consents

/-!
# A confirmation that a code was checked against

The session it belongs to was alive then. So it is still there a week later, whatever the requests
and the purge delete meanwhile, unless its account is gone.
-/

namespace Bauth

open Transaction

/-! ### A confirmation that stays -/

/-- The confirmation `c`, as it was before a code was checked at `since`, and its session, which
was alive then: both are there, and neither was ended before. -/
structure Database.Keeps (d : Database) (since : Time) (c : Confirmation) : Prop where
  row : ∃ c' ∈ d.confirmations, c'.id = c.id ∧ c'.userId = c.userId ∧ c'.sessionId = c.sessionId ∧
    c'.createdAt = c.createdAt ∧ c'.expiresAt = c.expiresAt ∧ ∀ u ∈ c'.consumedAt, since ≤ u
  session : ∃ S ∈ d.sessions, S.id = c.sessionId ∧ S.userId = c.userId ∧ since < S.expiresAt ∧
    ∀ u ∈ S.revokedAt, since ≤ u

namespace Database.Keeps

variable {app : App} {d d' : Database} {since now : Time} {c : Confirmation}

/-- What sets nothing but when a confirmation was used keeps it, if not before `since`. -/
lemma confirmations (h : d.Keeps since c) (p : Confirmation → Bool)
    (set : Confirmation → Confirmation) (hset : ∀ x, (set x).id = x.id ∧
      (set x).userId = x.userId ∧ (set x).sessionId = x.sessionId ∧
      (set x).createdAt = x.createdAt ∧ (set x).expiresAt = x.expiresAt ∧
      ∀ u ∈ (set x).consumedAt, since ≤ u) :
    ({ d with confirmations := updateWhere p set d.confirmations } : Database).Keeps since c where
  row := by
    obtain ⟨x, hx, hid, huser, hsession, hcreated, hexpires, hconsumed⟩ := h.row
    refine ⟨if p x then set x else x, List.mem_map_of_mem hx, ?_⟩
    split_ifs
    · obtain ⟨hid', huser', hsession', hcreated', hexpires', hconsumed'⟩ := hset x
      exact ⟨hid'.trans hid, huser'.trans huser, hsession'.trans hsession,
        hcreated'.trans hcreated, hexpires'.trans hexpires, hconsumed'⟩
    · exact ⟨hid, huser, hsession, hcreated, hexpires, hconsumed⟩
  session := h.session

lemma fails (h : d.Keeps since c) (hnow : since ≤ now) (p : Confirmation → Bool) :
    ({ d with
        confirmations := updateWhere p (fun x => { x with
          codeFailures := x.codeFailures + 1
          consumedAt := if maxFailuresPerCode ≤ x.codeFailures + 1 then some now else none
          }) d.confirmations } : Database).Keeps since c := by
  refine h.confirmations _ _ fun x => ⟨rfl, rfl, rfl, rfl, rfl, fun u hu => ?_⟩
  dsimp only at hu
  split_ifs at hu
  · cases hu
    exact hnow
  · cases hu

lemma consumes (h : d.Keeps since c) (hnow : since ≤ now) (p : Confirmation → Bool) :
    ({ d with
        confirmations := updateWhere p (fun x => { x with consumedAt := some now })
          d.confirmations } : Database).Keeps since c := by
  refine h.confirmations _ _ fun x => ⟨rfl, rfl, rfl, rfl, rfl, fun u hu => ?_⟩
  cases hu
  exact hnow

lemma sessions (h : d.Keeps since c) (p : Session → Bool) (set : Session → Session)
    (hset : ∀ x, (set x).id = x.id ∧ (set x).userId = x.userId ∧ (set x).expiresAt = x.expiresAt ∧
      ∀ u ∈ (set x).revokedAt, u ∈ x.revokedAt ∨ since ≤ u)
    (hconfirmations : d'.confirmations = d.confirmations)
    (hsessions : d'.sessions = updateWhere p set d.sessions) : d'.Keeps since c where
  row := hconfirmations ▸ h.row
  session := by
    obtain ⟨S, hS, hid, huser, hexpires, hrevoked⟩ := h.session
    refine ⟨if p S then set S else S, ?_, ?_⟩
    · rw [hsessions]
      exact List.mem_map_of_mem hS
    · split_ifs
      · obtain ⟨hid', huser', hexpires', hrevoked'⟩ := hset S
        exact ⟨hid'.trans hid, huser'.trans huser, hexpires'.symm ▸ hexpires, fun u hu =>
          (hrevoked' u hu).elim (hrevoked u) id⟩
      · exact ⟨hid, huser, hexpires, hrevoked⟩

lemma grows (h : d.Keeps since c) {new : List Confirmation} {newS : List Session}
    (hconfirmations : d'.confirmations = d.confirmations ++ new)
    (hsessions : d'.sessions = d.sessions ++ newS) : d'.Keeps since c where
  row := by
    obtain ⟨x, hx, hrest⟩ := h.row
    exact ⟨x, hconfirmations ▸ List.mem_append_left _ hx, hrest⟩
  session := by
    obtain ⟨S, hS, hrest⟩ := h.session
    exact ⟨S, hsessions ▸ List.mem_append_left _ hS, hrest⟩

/-- No statement but those of the purge and the deletion of an account takes it away. -/
lemma sent {may : Query → Prop} {β : Type} {st : Statement sig β} (h : d.Keeps since c)
    (hst : Sent app may st) (hpurge : ¬may .purgeDelete) (hdelete : ¬may .usersDelete)
    (hnow : since ≤ now) (n : Draw) (v : Database) : ((st.run now n v).1 d).Keeps since c := by
  have hsame : ∀ {d' : Database}, d'.confirmations = d.confirmations → d'.sessions = d.sessions →
      d'.Keeps since c := fun hc hS => ⟨hc ▸ h.row, hS ▸ h.session⟩
  cases hst with
  | purgeLoginFlow hmay => exact absurd hmay hpurge
  | purgeEmailChange hmay => exact absurd hmay hpurge
  | purgeConfirmation hmay => exact absurd hmay hpurge
  | purgeSession hmay => exact absurd hmay hpurge
  | purgeUser hmay => exact absurd hmay hpurge
  | purgeSigningKeys hmay => exact absurd hmay hpurge
  | usersDelete hmay => exact absurd hmay hdelete
  | usersCreate hmay email =>
    simp only [Users.create]
    split_ifs <;> exact hsame rfl rfl
  | usersChangeEmail hmay id fromEmail toEmail =>
    simp only [Users.changeEmail]
    split_ifs <;> exact hsame rfl rfl
  | magicLinksCreate hmay flowId userId email tokenHash codeHash expiresAt =>
    simp only [MagicLinks.create]
    split_ifs <;> exact hsame rfl rfl
  | authorizationCodesCreate hmay codeHash flowId userId expiresAt =>
    simp only [AuthorizationCodes.create]
    split_ifs <;> exact hsame rfl rfl
  | refreshTokensCreate hmay sessionId tokenHash parentId =>
    simp only [RefreshTokens.create]
    split_ifs <;> exact hsame rfl rfl
  | emailChangesCreate hmay userId fromEmail toEmail tokenHash expiresAt =>
    simp only [EmailChanges.create]
    split_ifs <;> exact hsame rfl rfl
  | sessionsCreate hmay userId clientId authorizationCodeId expiresAt =>
    simp only [Sessions.create]
    split_ifs
    · exact h
    · exact h.grows (List.append_nil _).symm rfl
    · exact h
  | confirmationsCreate hmay userId sessionId action email codeHash expiresAt =>
    simp only [Confirmations.create]
    split_ifs
    · exact h.grows rfl (List.append_nil _).symm
    · exact h
  | sessionsRevokeWhere q hq hmay p =>
    refine h.sessions _ (Session.revoke now) (fun S => ⟨rfl, rfl, rfl, fun u hu => ?_⟩) rfl rfl
    right
    cases hu
    exact hnow
  | confirmationsRecordCodeFailure id hmay => exact h.fails hnow _
  | confirmationsConsumeById hmay id => exact h.consumes hnow _
  | _ => exact hsame rfl rfl

/-! ### Deletions -/

lemma deleteSessions (h : d.Keeps since c) {p : Session → Bool}
    (hp : ∀ S ∈ d.sessions, S.id = c.sessionId → p S = false) :
    (d.deleteSessions p).Keeps since c where
  row := by
    obtain ⟨x, hx, hid, huser, hsession, hrest⟩ := h.row
    refine ⟨x, List.mem_filter.mpr ⟨hx, ?_⟩, hid, huser, hsession, hrest⟩
    rw [Bool.not_eq_true', List.any_eq_false]
    intro S hS hboth
    obtain ⟨hSid, hgone⟩ := Bool.and_eq_true_iff.mp hboth
    rw [hp S hS ((of_decide_eq_true hSid).trans hsession)] at hgone
    cases hgone
  session := by
    obtain ⟨S, hS, hid, hrest⟩ := h.session
    exact ⟨S, List.mem_filter.mpr ⟨hS, by simp [hp S hS hid]⟩, hid, hrest⟩

lemma deleteAuthorizationCodes (h : d.Keeps since c) (p : AuthorizationCode → Bool) :
    (d.deleteAuthorizationCodes p).Keeps since c :=
  h.sessions _ (fun S => { S with authorizationCodeId := none })
    (fun _ => ⟨rfl, rfl, rfl, fun _ hu => .inl hu⟩) rfl rfl

lemma deleteLoginFlows (h : d.Keeps since c) (p : LoginFlow → Bool) :
    (d.deleteLoginFlows p).Keeps since c := by
  rw [Database.deleteLoginFlows]
  apply deleteAuthorizationCodes
  exact ⟨h.row, h.session⟩

lemma deleteUsers (h : d.Keeps since c)
    (howner : ∀ S ∈ d.sessions, S.id = c.sessionId → S.userId = c.userId) {p : User → Bool}
    (hp : ∀ u ∈ d.users, u.id = c.userId → p u = false) : (d.deleteUsers p).Keeps since c := by
  have hgone : (d.users.any fun u => u.id = c.userId && p u) = false := by
    rw [List.any_eq_false]
    intro u hu hboth
    obtain ⟨hid, hgone⟩ := Bool.and_eq_true_iff.mp hboth
    rw [hp u hu (of_decide_eq_true hid)] at hgone
    cases hgone
  rw [Database.deleteUsers]
  apply deleteSessions
  · apply deleteAuthorizationCodes
    constructor
    · obtain ⟨x, hx, hid, huser, hrest⟩ := h.row
      refine ⟨x, List.mem_filter.mpr ⟨hx, ?_⟩, hid, huser, hrest⟩
      rw [huser]
      exact congrArg (!·) hgone
    · exact h.session
  · intro S hS hid
    obtain ⟨S₀, hS₀, rfl⟩ := mem_updateWhere.mp hS
    have howned : S₀.userId = c.userId := howner S₀ hS₀ (by split_ifs at hid <;> exact hid)
    have hgone' := (congrArg (fun id => d.users.any fun u => u.id = id && p u) howned).trans hgone
    split_ifs <;> exact hgone'

end Database.Keeps

namespace Purge

open Transaction.Program

variable {now since : Time} {c : Confirmation} {d : Database}

/-- Neither the confirmation nor its session is past retention, and every account is verified. -/
structure Retains (now since : Time) (c : Confirmation) (d : Database) : Prop where
  keeps : d.Keeps since c
  confirmations : ∀ x ∈ d.confirmations, x.id = c.id →
    past (days 7) now x.expiresAt x.consumedAt = false
  sessions : ∀ S ∈ d.sessions, S.id = c.sessionId → S.userId = c.userId ∧
    past (days 30) now S.expiresAt S.revokedAt = false
  users : ∀ u ∈ d.users, u.emailVerifiedAt.isSome = true

lemma past_eq_false {ttl expiresAt : Time} {usedAt : Option Time} (hexpires : now - ttl ≤ expiresAt)
    (hused : ∀ u ∈ usedAt, now - ttl ≤ u) : past ttl now expiresAt usedAt = false := by
  rw [past, Bool.or_eq_false_iff]
  constructor
  · simpa using hexpires
  · cases usedAt with
    | none => rfl
    | some u => simpa using hused u rfl

lemma Retains.of_keeps (h : d.Keeps since c) (hids : d.UniqueIds) (hcoherent : d.Coherent)
    (hexpires : since < c.expiresAt) (hstart : now - days 7 ≤ since) : Retains now since c d where
  keeps := h
  confirmations x hx hid := by
    obtain ⟨y, hy, hid', -, -, -, hexpires', hconsumed⟩ := h.row
    obtain rfl := List.inj_on_of_nodup_map hids.confirmations hx hy (hid.trans hid'.symm)
    apply past_eq_false
    · rw [hexpires']
      exact hstart.trans hexpires.le
    · exact fun u hu => hstart.trans (hconsumed u hu)
  sessions S hS hid := by
    have hlong : now - days 30 ≤ since := by
      have hdays : days 7 ≤ days 30 := by decide
      exact (Int.sub_le_sub_left hdays now).trans hstart
    obtain ⟨T, hT, hid', huser, hexpires', hrevoked⟩ := h.session
    obtain rfl := List.inj_on_of_nodup_map hids.sessions hS hT (hid.trans hid'.symm)
    refine ⟨huser, past_eq_false ?_ ?_⟩
    · exact hlong.trans hexpires'.le
    · exact fun u hu => hlong.trans (hrevoked u hu)
  users := hcoherent.verified

lemma Retains.deleteLoginFlows (h : Retains now since c d) (p : LoginFlow → Bool) :
    Retains now since c (d.deleteLoginFlows p) where
  keeps := h.keeps.deleteLoginFlows p
  confirmations := h.confirmations
  sessions S hS hid := by
    obtain ⟨S₀, hS₀, rfl⟩ := mem_updateWhere.mp hS
    have hretained := h.sessions S₀ hS₀ (by split_ifs at hid <;> exact hid)
    split_ifs <;> exact hretained
  users := h.users

lemma Retains.deleteSession (h : Retains now since c d) {id : Uuid} (hid : id ≠ c.sessionId) :
    Retains now since c (d.deleteSessions fun S => S.id = id) where
  keeps := h.keeps.deleteSessions fun S _ hS => by simpa [hS] using hid.symm
  confirmations x hx := h.confirmations x (List.mem_of_mem_filter hx)
  sessions S hS := h.sessions S (List.mem_of_mem_filter hS)
  users := h.users

lemma Retains.deleteConfirmation (h : Retains now since c d) {id : Uuid} (hid : id ≠ c.id) :
    Retains now since c { d with confirmations := d.confirmations.filter fun x => x.id ≠ id } where
  keeps :=
    { row := by
        obtain ⟨x, hx, hxid, hrest⟩ := h.keeps.row
        exact ⟨x, List.mem_filter.mpr ⟨hx, by simpa [hxid] using hid.symm⟩, hxid, hrest⟩
      session := h.keeps.session }
  confirmations x hx := h.confirmations x (List.mem_of_mem_filter hx)
  sessions := h.sessions
  users := h.users

/-- The purge retains them, however far it gets. -/
lemma purge_retains_confirmation {env : Env sig} {process : ℕ} {events : List Event}
    (h : Retains env.now since c d) (fuel : ℕ) :
    (purge fuel).wp env process ⟨d, none, events⟩ fun _ c' => Retains env.now since c c'.db := by
  have hflows : ∀ w, Retains env.now since c w → (inBatches loginFlows fuel 0).wp env process
      ⟨w, none, events⟩ fun _ c' => ∃ w', c' = ⟨w', none, events⟩ ∧ Retains env.now since c w' :=
    fun w hw => wp_inBatches_keeps (fun _ _ _ _ _ h' => h'.deleteLoginFlows _) hw
  have hchanges : ∀ w, Retains env.now since c w → (inBatches emailChanges fuel 0).wp env process
      ⟨w, none, events⟩ fun _ c' => ∃ w', c' = ⟨w', none, events⟩ ∧ Retains env.now since c w' :=
    fun w hw => wp_inBatches_keeps (fun _ _ _ _ _ h' =>
      ⟨⟨h'.keeps.row, h'.keeps.session⟩, h'.confirmations, h'.sessions, h'.users⟩) hw
  have hconfirmations : ∀ w, Retains env.now since c w →
      (inBatches confirmations fuel 0).wp env process ⟨w, none, events⟩
        fun _ c' => ∃ w', c' = ⟨w', none, events⟩ ∧ Retains env.now since c w' := by
    refine fun w hw => wp_inBatches_keeps (fun v hv id hid _ h' => h'.deleteConfirmation ?_) hw
    rintro rfl
    obtain ⟨x, hx, hxid⟩ := List.mem_map.mp hid
    obtain ⟨hx, hpast⟩ := List.mem_filter.mp hx
    rw [hv.confirmations x hx hxid] at hpast
    cases hpast
  have hsessions : ∀ w, Retains env.now since c w → (inBatches sessions fuel 0).wp env process
      ⟨w, none, events⟩ fun _ c' => ∃ w', c' = ⟨w', none, events⟩ ∧ Retains env.now since c w' := by
    refine fun w hw => wp_inBatches_keeps (fun v hv id hid _ h' => h'.deleteSession ?_) hw
    rintro rfl
    obtain ⟨S, hS, hSid⟩ := List.mem_map.mp hid
    obtain ⟨hS, hpast⟩ := List.mem_filter.mp hS
    rw [(hv.sessions S hS hSid).2] at hpast
    cases hpast
  have husers : ∀ w, Retains env.now since c w → (inBatches unverifiedUsers fuel 0).wp env process
      ⟨w, none, events⟩ fun _ c' => ∃ w', c' = ⟨w', none, events⟩ ∧ Retains env.now since c w' := by
    refine fun w hw => wp_inBatches_keeps (fun v hv id hid _ _ => ?_) hw
    -- every account is verified
    obtain ⟨u, hu, rfl⟩ := List.mem_map.mp hid
    obtain ⟨hu, hunverified⟩ := List.mem_filter.mp hu
    have hverified := hv.users u hu
    cases hat : u.emailVerifiedAt with
    | none => simp [hat] at hverified
    | some t => simp [hat] at hunverified
  refine wp_purge_keeps h ?_ fun w keys h' =>
    ⟨⟨h'.keeps.row, h'.keeps.session⟩, h'.confirmations, h'.sessions, h'.users⟩
  simp only [List.forall_mem_cons]
  exact ⟨hflows, hchanges, hconfirmations, hsessions, husers, by simp⟩

end Purge

/-! ### Runs keep it -/

section Stays

open Transition

variable {app : App} {p : Served} {since : Time} {c : Confirmation} {s₀ s : Server}
  {steps : List Served}

/-- A request keeps the confirmation, or deletes its account. -/
lemma Served.Taken.keeps (hp : p.Taken app) (huuid : Function.Injective app.uuid)
    (h : p.before.db.Keeps since c) (hexpires : since < c.expiresAt) (hsince : since ≤ p.time)
    (hweek : p.time - days 7 ≤ since) :
    p.after.db.Keeps since c ∨ ∀ u ∈ p.after.db.users, u.id ≠ c.userId := by
  have hids := (hp.2.keyed huuid).uniqueIds
  have hretains := Purge.Retains.of_keeps h hids (hp.2.coherent huuid) hexpires hweek
  have hafter : p.after = (serve app p.time p.reply p.request p.before).after :=
    congrArg Served.after hp.1.serve
  have hsent : ¬p.request.may .purgeDelete → ¬p.request.may .usersDelete →
      p.after.db.Keeps since c := by
    intro hpurge hdelete
    have hkeeps : ∃ k : ℕ, (fun (_ : ℕ) d => Database.Keeps d since c) k (Program.serve (S := sig)
        ⟨p.time, p.time, p.reply⟩ p.before.served (handle app p.request) p.before.db).db :=
      Program.serve_keeps (S := sig) (J := fun _ d => Database.Keeps d since c) (fun _ _ h => h)
        (fun st hst _ _ hd => hd.sent hst hpurge hdelete hsince _ _) (handle_sends app p.request) h
    rw [hafter]
    exact hkeeps.choose_spec
  cases hrequest : p.request with
  | purge fuel =>
    left
    rw [hafter, hrequest]
    refine serve_wp (Q := fun _ d' _ => Database.Keeps d' since c) ?_
    refine (Program.wp_bind ..).mpr
      (Program.wp_mono _ _ _ _ (Purge.purge_retains_confirmation hretains fuel) fun _ _ h' => ?_)
    exact h'.keeps
  | deleteAccount ip authorization code =>
    obtain ⟨a, -, hout⟩ := hp.1.accountClosed hids hrequest
    generalize p.after.db = d', p.events = events at hout ⊢
    cases hout with
    | refused => exact .inl h
    | wrong hc hwrong => exact .inl (h.fails hsince _)
    | @deleted user c' hconsent _ hmail =>
      by_cases huser : user.id = c.userId
      · right
        intro u hu hid
        have hkept : u ∈ p.before.db.users.filter fun u => !decide (u.id = user.id) := hu
        have hne := (List.mem_filter.mp hkept).2
        simp [hid, huser] at hne
      · left
        apply (h.consumes hsince fun x => x.id = c'.id).deleteUsers
        · exact fun S hS hid => (hretains.sessions S hS hid).1
        · intro u _ hid
          simpa [hid] using fun h => huser h.symm
  | _ => exact .inl (hsent (by simp [hrequest, Request.may, Query.LogsIn, Query.ChecksCode])
      (by simp [hrequest, Request.may, Query.LogsIn, Query.ChecksCode]))

/-- So does a run. -/
lemma Database.Keeps.path (huuid : Function.Injective app.uuid)
    (h : Path Served.before Served.after (Served.Taken app) s₀ steps s)
    (hs₀ : s₀.db.Keeps since c) (hexpires : since < c.expiresAt) (hclock : since ≤ s₀.clock)
    (hdrawn : s₀.HasDrawn app c.userId) (hend : s.clock - days 7 ≤ since) :
    since ≤ s.clock ∧ s.HasDrawn app c.userId ∧
      (s.db.Keeps since c ∨ ∀ u ∈ s.db.users, u.id ≠ c.userId) := by
  induction h with
  | nil => exact ⟨hclock, hdrawn, .inl hs₀⟩
  | @snoc steps p h hp ih =>
    have hafter : p.after.clock = p.time := by
      rw [hp.1.serve]
      rfl
    rw [hafter] at hend ⊢
    have hbefore := hp.1.clock
    obtain ⟨hsince, hdrawn', hkept⟩ := ih ((Int.sub_le_sub_right hbefore _).trans hend)
    refine ⟨hsince.trans hbefore, hp.1.hasDrawn hdrawn', ?_⟩
    rcases hkept with hkept | hgone
    · exact hp.keeps huuid hkept hexpires (hsince.trans hbefore) hend
    · right
      exact absent_stays huuid (Path.nil.snoc hp) (fun _ hp => marks_users hp) hdrawn' hgone

end Stays

end Bauth
