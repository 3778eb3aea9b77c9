import Bauth.Concurrent.Handler
import Bauth.Rows.Handlers

/-!
# Purging accounts side by side

The purge selects the accounts that never verified their address, then deletes them one by one,
waiting for the row of each. Only its identifier is compared again: a verified account stays, with
its codes and sessions, as long as none that the purge has the lock of is verified by then.
-/

namespace Bauth

open Transaction Transition

/-- A request, or the batches of the purge that delete unverified accounts. -/
inductive Party where
  | request (r : Request)
  | unverifiedUsers (fuel : ℕ)
  deriving DecidableEq

def Party.handle (app : App) : Party → Program sig Response
  | .request r => Bauth.handle app r
  | .unverifiedUsers fuel => do
    let _ ← Purge.inBatches Purge.unverifiedUsers fuel 0
    return .ok .done

abbrev PartyPool := Pool sig Party Response

abbrev PartyAction := Pool.Action sig Party

abbrev PartyStep := Step PartyPool PartyAction

/-- Requests and batches of the purge, side by side. -/
def besidePurge (app : App) : System PartyPool PartyAction := Pool.system (Party.handle app)

/-- The party is no account deletion, and not the whole purge. -/
def Party.OnlyUnverified : Party → Prop
  | .request (.deleteAccount ..) | .request (.purge _) => False
  | _ => True

/-- The account, as `users::find_by_id` reads it. -/
def Database.account (d : Database) (id : Uuid) : Option User := d.users.find? fun u => u.id = id

/-- The address of the account was verified. -/
def Database.IsVerified (d : Database) (id : Uuid) : Prop :=
  ∃ u, d.account id = some u ∧ u.emailVerifiedAt.isSome = true

/-- The verified accounts stay verified, with their authorization codes and sessions. -/
structure VerifiedKept (d d' : Database) : Prop where
  account : ∀ id, d.IsVerified id → d'.IsVerified id
  codes : ∀ c ∈ d.authorizationCodes, d.IsVerified c.userId →
    ∃ c' ∈ d'.authorizationCodes, c'.id = c.id ∧ c'.userId = c.userId
  sessions : ∀ s ∈ d.sessions, d.IsVerified s.userId →
    ∃ s' ∈ d'.sessions, s'.id = s.id ∧ s'.userId = s.userId

lemma VerifiedKept.refl (d : Database) : VerifiedKept d d :=
  ⟨fun _ h => h, fun c hc _ => ⟨c, hc, rfl, rfl⟩, fun s hs _ => ⟨s, hs, rfl, rfl⟩⟩

lemma VerifiedKept.trans {d d' d'' : Database} (h : VerifiedKept d d') (h' : VerifiedKept d' d'') :
    VerifiedKept d d'' := by
  refine ⟨fun id hid => h'.account id (h.account id hid), fun c hc hv => ?_, fun s hs hv => ?_⟩
  · obtain ⟨c', hc', hid, huser⟩ := h.codes c hc hv
    obtain ⟨c'', hc'', hid', huser'⟩ := h'.codes c' hc' (huser ▸ h.account _ hv)
    exact ⟨c'', hc'', hid'.trans hid, huser'.trans huser⟩
  · obtain ⟨s', hs', hid, huser⟩ := h.sessions s hs hv
    obtain ⟨s'', hs'', hid', huser'⟩ := h'.sessions s' hs' (huser ▸ h.account _ hv)
    exact ⟨s'', hs'', hid'.trans hid, huser'.trans huser⟩

/-- Who locks an account keeps it as it is, a verified account stays, and an account that is
deleted is not verified. -/
def purgeRules : Rules sig where
  same l d d' := l.2 ≠ .keyShare → ∀ id, l.1 = .user id → ∀ u, d.account id = some u →
    d'.account id = some u
  step _ d d' := VerifiedKept d d'
  expects q locks _ d := q = .purgeDelete → ∀ id, (.user id, .update) ∈ locks → ¬d.IsVerified id
  replies _ _ _ := True
  same_refl _ _ _ _ _ _ h := h
  same_trans _ _ _ _ h h' hmode id hid u hu := h' hmode id hid u (h hmode id hid u hu)
  step_refl _ := VerifiedKept.refl
  step_trans _ _ _ _ := VerifiedKept.trans

/-! ### Statements that delete nothing -/

section Grows

variable {app : App} {may : Query → Prop} {β : Type} {st : Statement sig β} {now : Time} {n : Draw}
  {v d : Database}

/-- Each row is still there, the same in `f`. -/
def Stays {ρ κ : Type} (f : ρ → κ) (rows rows' : List ρ) : Prop :=
  ∀ r ∈ rows, ∃ r' ∈ rows', f r' = f r

lemma Stays.refl {ρ κ : Type} {f : ρ → κ} {rows : List ρ} : Stays f rows rows :=
  fun r hr => ⟨r, hr, rfl⟩

lemma Stays.append {ρ κ : Type} {f : ρ → κ} {rows added : List ρ} :
    Stays f rows (rows ++ added) := fun r hr => ⟨r, List.mem_append_left _ hr, rfl⟩

lemma Stays.update {ρ κ : Type} {f : ρ → κ} {rows : List ρ} {p : ρ → Bool} {set : ρ → ρ}
    (h : ∀ r, f (set r) = f r) : Stays f rows (updateWhere p set rows) := by
  intro r hr
  refine ⟨if p r then set r else r, mem_updateWhere.mpr ⟨r, hr, rfl⟩, ?_⟩
  split_ifs
  · exact h r
  · rfl

/-- The statement changes accounts one by one, and locks those it changes. -/
structure GrowsUsers (st : Statement sig β) (now : Time) (n : Draw) (v : Database)
    (g : User → User) : Prop where
  id : ∀ u, (g u).id = u.id
  verified : ∀ u, u.emailVerifiedAt.isSome = true → (g u).emailVerifiedAt.isSome = true
  locked : ∀ u, g u = u ∨ ∃ mode, mode ≠ .keyShare ∧ (.user u.id, mode) ∈ st.locks now v
  users : ∀ d, ∃ added, ((st.run now n v).1 d).users = d.users.map g ++ added

lemma growsUsers_of_same (h : ∀ d, ((st.run now n v).1 d).users = d.users) :
    GrowsUsers st now n v fun u => u := by
  refine ⟨fun _ => rfl, fun _ h => h, fun _ => .inl rfl, fun d => ⟨[], ?_⟩⟩
  rw [h, List.map_id', List.append_nil]

lemma growsUsers_update (q : Query) (p : Time → Database → User → Bool) (set : Time → User → User)
    (answer : Database → List User → β) (hid : ∀ u, (set now u).id = u.id)
    (hverified : ∀ u, u.emailVerifiedAt.isSome = true → (set now u).emailVerifiedAt.isSome = true) :
    ∃ g, GrowsUsers (update q .users p set answer) now n v g := by
  refine ⟨fun u => if ((v.users.filter (p now v)).map User.id).contains u.id then set now u else u,
    fun u => ?_, fun u hu => ?_, fun u => ?_, fun d => ⟨[], ?_⟩⟩
  · split_ifs
    · exact hid u
    · rfl
  · split_ifs
    · exact hverified u hu
    · exact hu
  · dsimp only
    by_cases hin : u.id ∈ (v.users.filter (p now v)).map User.id
    · obtain ⟨r, hr, hsame⟩ := List.mem_map.mp hin
      refine .inr ⟨.noKeyUpdate, by simp, List.mem_map.mpr ⟨r, hr, ?_⟩⟩
      rw [← hsame]
      rfl
    · rw [if_neg fun h => hin (List.contains_iff_mem.mp h)]
      exact .inl rfl
  · rw [List.append_nil]
    rfl

lemma growsUsers_changeEmail (id : Uuid) (fromEmail toEmail : String) :
    ∃ g, GrowsUsers (Users.changeEmail id fromEmail toEmail) now n v g := by
  by_cases htaken : (!(v.users.filter fun u => u.id = id && u.email = fromEmail).isEmpty &&
      v.users.any fun u => u.id ≠ id && u.email = toEmail) = true
  · refine ⟨_, growsUsers_of_same fun d => ?_⟩
    simp only [Users.changeEmail]
    rw [if_pos htaken]
  let hit := (v.users.filter fun u => u.id = id && u.email = fromEmail).map User.id
  refine ⟨fun u => if hit.contains u.id then
    { u with email := toEmail, emailVerifiedAt := some now, updatedAt := now } else u,
    fun u => ?_, fun u hu => ?_, fun u => ?_, fun d => ⟨[], ?_⟩⟩
  · split_ifs <;> rfl
  · split_ifs
    · rfl
    · exact hu
  · by_cases hin : u.id ∈ hit
    · obtain ⟨r, hr, hsame⟩ := List.mem_map.mp hin
      obtain ⟨hr, hmatch⟩ := List.mem_filter.mp hr
      have hid : u.id = id := by
        simp only [Bool.and_eq_true, decide_eq_true_eq] at hmatch
        exact hsame.symm.trans hmatch.1
      have hany : (v.users.any fun u => u.id = id && u.email = fromEmail) = true :=
        List.any_eq_true.mpr ⟨r, hr, hmatch⟩
      refine .inr ⟨.update, by simp, ?_⟩
      simp only [Users.changeEmail]
      rw [if_pos hany, hid]
      exact List.mem_cons_self
    · dsimp only
      rw [if_neg fun h => hin (List.contains_iff_mem.mp h)]
      exact .inl rfl
  · simp only [Users.changeEmail, List.append_nil]
    rw [if_neg htaken]
    rfl

/-- The statements of a party that deletes nothing. -/
def Query.KeepsRows (q : Query) : Prop := q ≠ .usersDelete ∧ q ≠ .purgeDelete

lemma Sent.growsUsers (h : Sent app may st) (hmay : ∀ q, may q → q.KeepsRows) (now : Time)
    (n : Draw) (v : Database) : ∃ g, GrowsUsers st now n v g := by
  cases h with
  | usersCreate h email =>
    refine ⟨fun u => u, fun _ => rfl, fun _ h => h, fun _ => .inl rfl, fun d => ?_⟩
    simp only [Users.create, List.map_id']
    split_ifs
    · exact ⟨[], (List.append_nil _).symm⟩
    · exact ⟨_, rfl⟩
  | usersMarkEmailVerified h id email =>
    exact growsUsers_update _ _ _ _ (fun _ => rfl) fun _ _ => rfl
  | usersSetDisabled h id disabledAt => exact growsUsers_update _ _ _ _ (fun _ => rfl) fun _ h => h
  | usersChangeEmail h id fromEmail toEmail => exact growsUsers_changeEmail id fromEmail toEmail
  | usersDelete h => exact absurd rfl (hmay _ h).1
  | purgeLoginFlow h => exact absurd rfl (hmay _ h).2
  | purgeEmailChange h => exact absurd rfl (hmay _ h).2
  | purgeConfirmation h => exact absurd rfl (hmay _ h).2
  | purgeSession h => exact absurd rfl (hmay _ h).2
  | purgeUser h => exact absurd rfl (hmay _ h).2
  | purgeSigningKeys h => exact absurd rfl (hmay _ h).2
  | magicLinksCreate | authorizationCodesCreate | sessionsCreate | refreshTokensCreate
  | emailChangesCreate | confirmationsCreate =>
    refine ⟨_, growsUsers_of_same fun d => ?_⟩
    simp only [MagicLinks.create, AuthorizationCodes.create, Sessions.create, RefreshTokens.create,
      EmailChanges.create, Confirmations.create]
    split_ifs <;> rfl
  | _ => exact ⟨_, growsUsers_of_same fun d => rfl⟩

lemma Sent.codesStay (h : Sent app may st) (hmay : ∀ q, may q → q.KeepsRows) (now : Time)
    (n : Draw) (v d : Database) :
    Stays (fun c => (c.id, c.userId)) d.authorizationCodes
      ((st.run now n v).1 d).authorizationCodes := by
  cases h with
  | authorizationCodesCreate h codeHash flowId userId expiresAt =>
    simp only [AuthorizationCodes.create]
    split_ifs
    · exact .refl
    · exact .append
    · exact .refl
  | authorizationCodesConsume h codeHash => exact .update fun _ => rfl
  | usersDelete h => exact absurd rfl (hmay _ h).1
  | purgeLoginFlow h => exact absurd rfl (hmay _ h).2
  | purgeEmailChange h => exact absurd rfl (hmay _ h).2
  | purgeConfirmation h => exact absurd rfl (hmay _ h).2
  | purgeSession h => exact absurd rfl (hmay _ h).2
  | purgeUser h => exact absurd rfl (hmay _ h).2
  | purgeSigningKeys h => exact absurd rfl (hmay _ h).2
  | usersCreate | usersChangeEmail | magicLinksCreate | sessionsCreate | refreshTokensCreate
  | emailChangesCreate | confirmationsCreate =>
    simp only [Users.create, Users.changeEmail, MagicLinks.create, Sessions.create,
      RefreshTokens.create, EmailChanges.create, Confirmations.create]
    split_ifs <;> exact .refl
  | _ => exact .refl

lemma Sent.sessionsStay (h : Sent app may st) (hmay : ∀ q, may q → q.KeepsRows) (now : Time)
    (n : Draw) (v d : Database) :
    Stays (fun s => (s.id, s.userId)) d.sessions ((st.run now n v).1 d).sessions := by
  cases h with
  | sessionsCreate h userId clientId authorizationCodeId expiresAt =>
    simp only [Sessions.create]
    split_ifs
    · exact .refl
    · exact .append
    · exact .refl
  | sessionsRevokeWhere q hq h p => exact .update fun _ => rfl
  | usersDelete h => exact absurd rfl (hmay _ h).1
  | purgeLoginFlow h => exact absurd rfl (hmay _ h).2
  | purgeEmailChange h => exact absurd rfl (hmay _ h).2
  | purgeConfirmation h => exact absurd rfl (hmay _ h).2
  | purgeSession h => exact absurd rfl (hmay _ h).2
  | purgeUser h => exact absurd rfl (hmay _ h).2
  | purgeSigningKeys h => exact absurd rfl (hmay _ h).2
  | usersCreate | usersChangeEmail | magicLinksCreate | authorizationCodesCreate
  | refreshTokensCreate | emailChangesCreate | confirmationsCreate =>
    simp only [Users.create, Users.changeEmail, MagicLinks.create, AuthorizationCodes.create,
      RefreshTokens.create, EmailChanges.create, Confirmations.create]
    split_ifs <;> exact .refl
  | _ => exact .refl

variable {g : User → User}

/-- An account that was there is the one it became. -/
lemma GrowsUsers.account (h : GrowsUsers st now n v g) {id : Uuid} {u : User}
    (hu : d.account id = some u) : ((st.run now n v).1 d).account id = some (g u) := by
  obtain ⟨added, hadded⟩ := h.users d
  have hmap : (d.users.map g).find? (fun u => u.id = id) = some (g u) := by
    rw [List.find?_map]
    simp only [Function.comp_def, h.id]
    exact congrArg (Option.map g) hu
  rw [Database.account, hadded, List.find?_append, hmap]
  rfl

lemma GrowsUsers.within (h : ∀ now n v, ∃ g, GrowsUsers st now n v g) : purgeRules.Within st := by
  rintro now n v ⟨l, mode⟩ d hfree hmode id rfl u hu
  obtain ⟨g, hg⟩ := h now n v
  rw [hg.account hu]
  rcases hg.locked u with hsame | ⟨mode', hmode', hlock⟩
  · rw [hsame]
  · have hid : u.id = id := by simpa using List.find?_some hu
    have hconflict := hfree _ hlock
    simp only [RowLock.conflict, hid, decide_true, Bool.true_and] at hconflict
    cases mode with
    | keyShare => exact absurd rfl hmode
    | noKeyUpdate => cases mode' <;> first | exact absurd rfl hmode' | cases hconflict
    | update => cases mode' <;> cases hconflict

/-- A statement that deletes nothing keeps the verified accounts, wherever it is applied. -/
lemma Sent.verifiedKept (h : Sent app may st) (hmay : ∀ q, may q → q.KeepsRows) (now : Time)
    (n : Draw) (v d : Database) : VerifiedKept d ((st.run now n v).1 d) := by
  obtain ⟨g, hg⟩ := h.growsUsers hmay now n v
  refine ⟨?_, fun c hc _ => ?_, fun s hs _ => ?_⟩
  · rintro id ⟨u, hu, hverified⟩
    exact ⟨g u, hg.account hu, hg.verified u hverified⟩
  · obtain ⟨c', hc', hsame⟩ := h.codesStay hmay now n v d c hc
    exact ⟨c', hc', Prod.mk.inj hsame⟩
  · obtain ⟨s', hs', hsame⟩ := h.sessionsStay hmay now n v d s hs
    exact ⟨s', hs', Prod.mk.inj hsame⟩

/-- A transaction that deletes nothing keeps the verified accounts. -/
lemma carries_keeps {i : ℕ} (hmay : ∀ q, may q → q.KeepsRows) :
    purgeRules.Carries i (Sent app may) fun tx _ => ∀ e, VerifiedKept e (tx.writes e) where
  within _ hst := GrowsUsers.within fun now n v => hst.growsUsers hmay now n v
  opens _ _ := VerifiedKept.refl
  sends _ tx n d hst hJ _ e := (hJ e).trans (hst.verifiedKept hmay tx.start n (tx.writes d) _)
  others _ _ _ hJ _ _ := hJ
  commits _ d hJ _ _ := hJ d

end Grows

/-! ### Batches of deletions -/

section Batches

variable {d d' v : Database} {now : Time} {n : Draw} {i : ℕ}

/-- The account `id` is deleted, with everything of its own. -/
def Database.deleteAccount (d : Database) (id : Uuid) : Database :=
  d.deleteUsers fun u => u.id = id

/-- Accounts, codes and sessions other than those of `gone` are as they were. -/
structure Spares (gone : Uuid → Prop) (d d' : Database) : Prop where
  account : ∀ id, ¬gone id → d'.account id = d.account id
  codes : ∀ c ∈ d.authorizationCodes, ¬gone c.userId → c ∈ d'.authorizationCodes
  sessions : ∀ s ∈ d.sessions, ¬gone s.userId → ∃ s' ∈ d'.sessions, s'.id = s.id ∧ s'.userId = s.userId

lemma spares_deleteAccount (d : Database) (id : Uuid) : Spares (· = id) d (d.deleteAccount id) := by
  have hgone : ∀ id', id' ≠ id → (d.users.any fun u => u.id = id' && u.id = id) = false := by
    intro id' hne
    rw [List.any_eq_false]
    intro u _ h
    simp only [Bool.and_eq_true, decide_eq_true_eq] at h
    exact hne (h.1.symm.trans h.2)
  refine ⟨fun id' hne => ?_, fun c hc hne => ?_, fun s hs hne => ?_⟩
  · simp only [Database.account, Database.deleteAccount, Database.deleteUsers,
      Database.deleteSessions, Database.deleteAuthorizationCodes, List.find?_filter]
    congr 1
    funext u
    by_cases hu : u.id = id'
    · simp [hu, hne]
    · simp [hu]
  · simp only [Database.deleteAccount, Database.deleteUsers, Database.deleteSessions,
      Database.deleteAuthorizationCodes]
    exact List.mem_filter.mpr ⟨hc, by simpa using hgone c.userId hne⟩
  · have hrun : (d.deleteAccount id).sessions = (d.deleteAuthorizationCodes fun c =>
        d.users.any fun u => u.id = c.userId && u.id = id).sessions.filter fun s =>
          !d.users.any fun u => u.id = s.userId && u.id = id := rfl
    obtain ⟨s', hs', hsame⟩ : ∃ s' ∈ (d.deleteAuthorizationCodes fun c =>
        d.users.any fun u => u.id = c.userId && u.id = id).sessions,
          (s'.id, s'.userId) = (s.id, s.userId) := by
      have hstays : ∀ p, Stays (fun s : Session => (s.id, s.userId)) d.sessions
          (updateWhere p (fun s => { s with authorizationCodeId := none }) d.sessions) :=
        fun p => .update fun _ => rfl
      exact hstays _ s hs
    obtain ⟨hid, huser⟩ := Prod.mk.inj hsame
    rw [hrun]
    refine ⟨s', List.mem_filter.mpr ⟨hs', ?_⟩, hid, huser⟩
    rw [huser]
    simpa using hgone s.userId hne

lemma Spares.refl (d : Database) : Spares (fun _ => False) d d :=
  ⟨fun _ _ => rfl, fun _ hc _ => hc, fun s hs _ => ⟨s, hs, rfl, rfl⟩⟩

lemma Spares.trans {gone gone' gone'' : Uuid → Prop} {d'' : Database} (h : Spares gone d d')
    (h' : Spares gone' d' d'') (hgone : ∀ id, ¬gone'' id → ¬gone id ∧ ¬gone' id) :
    Spares gone'' d d'' := by
  refine ⟨fun id hid => ?_, fun c hc hne => ?_, fun s hs hne => ?_⟩
  · obtain ⟨hid, hid'⟩ := hgone id hid
    rw [h'.account id hid', h.account id hid]
  · obtain ⟨hid, hid'⟩ := hgone _ hne
    exact h'.codes c (h.codes c hc hid) hid'
  · obtain ⟨hid, hid'⟩ := hgone _ hne
    obtain ⟨s', hs', hsame, huser⟩ := h.sessions s hs hid
    obtain ⟨s'', hs'', hsame', huser'⟩ := h'.sessions s' hs' (huser ▸ hid')
    exact ⟨s'', hs'', hsame'.trans hsame, huser'.trans huser⟩

/-- Deletions of accounts that are not verified keep the verified ones. -/
lemma Spares.verifiedKept {gone : Uuid → Prop} (h : Spares gone d d')
    (hgone : ∀ id, gone id → ¬d.IsVerified id) : VerifiedKept d d' := by
  have hkept : ∀ id, d.IsVerified id → ¬gone id := fun id hid hgone' => hgone id hgone' hid
  refine ⟨fun id hid => ?_, fun c hc hv => ?_, fun s hs hv => h.sessions s hs (hkept _ hv)⟩
  · obtain ⟨u, hu, hverified⟩ := hid
    exact ⟨u, (h.account id (hkept id ⟨u, hu, hverified⟩)).trans hu, hverified⟩
  · exact ⟨c, h.codes c hc (hkept _ hv), rfl, rfl⟩

/-- The statements of a batch. -/
inductive OfBatch : {β : Type} → Statement sig β → Prop
  | select {β : Type} (q : Query) (read : Time → Database → β) : OfBatch (.select q read)
  | delete (id : Uuid) : OfBatch (Purge.deleteRow (fun d id => d.users.any fun u => u.id = id)
      (fun id => Database.deleteUsers fun u => u.id = id) id)

lemma unverifiedUsers_ofBatch (fuel total : ℕ) :
    (Purge.inBatches Purge.unverifiedUsers fuel total).Sends OfBatch fun _ => True := by
  have heach : ∀ ids : List Uuid, (Purge.deleteEach (fun d id => d.users.any fun u => u.id = id)
      (fun id => Database.deleteUsers fun u => u.id = id) ids).Sends OfBatch fun _ => True := by
    intro ids
    induction ids with
    | nil => trivial
    | cons id ids ih =>
      refine ⟨.delete id, fun deleted => ?_⟩
      change Program.Sends _ (Purge.deleteEach _ _ ids >>= _) _
      rw [Program.sends_bind]
      exact ih.mono fun _ _ => trivial
  induction fuel generalizing total with
  | zero => trivial
  | succ fuel ih =>
    simp only [Purge.inBatches, Program.sends_bind]
    have hbatch : Purge.unverifiedUsers.Sends OfBatch fun _ => True := by
      refine ⟨.select _ _, fun ids => ?_⟩
      change Program.Sends _ (Purge.deleteEach _ _ ids >>= _) _
      rw [Program.sends_bind]
      exact (heach ids).mono fun _ _ => trivial
    refine hbatch.mono fun deleted _ => ?_
    split
    · trivial
    · exact ih _

/-- The lock a deletion takes on the account. -/
lemma lock_mem_lost {id : Uuid} {u : User} (hu : u ∈ v.users) (hid : u.id = id) :
    (.user id, .update) ∈ v.lost (v.deleteUsers fun u => u.id = id) := by
  simp only [Database.lost, List.mem_append]
  refine .inl (.inl (.inl (.inl (.inl (.inl (.inl (.inl ?_)))))))
  refine List.mem_map.mpr ⟨u, List.mem_filter.mpr ⟨hu, ?_⟩, by simp [hid]⟩
  simp [Database.deleteUsers, Database.deleteSessions, Database.deleteAuthorizationCodes, hid]

lemma OfBatch.within {β : Type} {st : Statement sig β} (h : OfBatch st) :
    purgeRules.Within st := by
  cases h with
  | select q read => exact Rules.within_select q read
  | delete id =>
    rintro now n v ⟨l, mode⟩ d hfree hmode id' rfl u hu
    simp only [Purge.deleteRow] at hfree ⊢
    split_ifs with hpresent
    · obtain ⟨r, hr, hid⟩ := List.any_eq_true.mp hpresent
      have hconflict := hfree _ (lock_mem_lost hr (of_decide_eq_true hid))
      have hne : id' ≠ id := by
        rintro rfl
        cases mode <;> simp [RowLock.conflict, LockMode.conflict] at hconflict
      exact ((spares_deleteAccount d id).account id' hne).trans hu
    · exact hu

/-- Where a batch stands: the accounts it deleted are still there, unverified, and locked. -/
structure Batch (tx : Program.Tx sig) (d : Database) (gone : List Uuid) : Prop where
  spares : ∀ e, Spares (· ∈ gone) e (tx.writes e)
  locked : ∀ id ∈ gone, (.user id, .update) ∈ tx.locks
  unverified : ∀ id ∈ gone, ∃ u, d.account id = some u ∧ u.emailVerifiedAt = none

lemma Batch.delete {tx : Program.Tx sig} {gone : List Uuid} (h : Batch tx d gone) (id : Uuid)
    (hexpects : ∀ id', (.user id', .update) ∈ (tx.writes d).lost
      ((tx.writes d).deleteUsers fun u => u.id = id) → ¬(tx.writes d).IsVerified id')
    (hpresent : ((tx.writes d).users.any fun u => u.id = id) = true) :
    Batch (Rules.sentIn tx (Purge.deleteRow (fun d id => d.users.any fun u => u.id = id)
      (fun id => Database.deleteUsers fun u => u.id = id) id) n d) d (id :: gone) := by
  obtain ⟨r, hr, hid⟩ := List.any_eq_true.mp hpresent
  have hlock := lock_mem_lost hr (of_decide_eq_true hid)
  refine ⟨fun e => ?_, fun id' hid' => ?_, fun id' hid' => ?_⟩
  · simp only [Rules.sentIn, Purge.deleteRow, if_pos hpresent]
    refine (h.spares e).trans (spares_deleteAccount _ id) fun id' hid' => ?_
    exact ⟨fun hmem => hid' (List.mem_cons_of_mem _ hmem),
      fun heq => hid' (heq ▸ List.mem_cons_self)⟩
  · rcases List.mem_cons.mp hid' with rfl | hid'
    · exact List.mem_append_right _ hlock
    · exact List.mem_append_left _ (h.locked id' hid')
  · by_cases hold : id' ∈ gone
    · exact h.unverified id' hold
    · rcases List.mem_cons.mp hid' with rfl | hid'
      · obtain ⟨u, hu⟩ := Option.isSome_iff_exists.mp
          (List.find?_isSome.mpr ⟨r, hr, hid⟩ : ((tx.writes d).account id').isSome = true)
        refine ⟨u, ((h.spares d).account id' hold).symm.trans hu, ?_⟩
        by_contra hverified
        exact hexpects id' hlock ⟨u, hu, Option.isSome_iff_ne_none.mpr hverified⟩
      · exact absurd hid' hold

lemma carries_batch : purgeRules.Carries i OfBatch fun tx d => ∃ gone, Batch tx d gone where
  within _ hst := hst.within
  opens _ d := by
    refine ⟨[], fun e => ?_, fun _ h => absurd h List.not_mem_nil, fun _ h => absurd h List.not_mem_nil⟩
    exact (Spares.refl e).trans (Spares.refl e) fun _ _ => ⟨id, id⟩
  sends st tx n d hst hJ hexpects := by
    obtain ⟨gone, hgone⟩ := hJ
    cases hst with
    | select q read =>
      refine ⟨gone, hgone.spares, fun id hid => ?_, hgone.unverified⟩
      exact List.mem_append_left _ (hgone.locked id hid)
    | delete id =>
      by_cases hpresent : ((tx.writes d).users.any fun u => u.id = id) = true
      · exact ⟨_, hgone.delete id (hexpects rfl) hpresent⟩
      · refine ⟨gone, fun e => ?_, fun id' hid' => ?_, hgone.unverified⟩
        · simp only [Rules.sentIn, Purge.deleteRow, if_neg hpresent]
          exact hgone.spares e
        · exact List.mem_append_left _ (hgone.locked id' hid')
  others tx d d' hJ hsame _ := by
    obtain ⟨gone, hgone⟩ := hJ
    refine ⟨gone, hgone.spares, hgone.locked, fun id hid => ?_⟩
    obtain ⟨u, hu, hunverified⟩ := hgone.unverified id hid
    exact ⟨u, hsame _ (hgone.locked id hid) (by simp) id rfl u hu, hunverified⟩
  commits tx d hJ _ _ := by
    obtain ⟨gone, hgone⟩ := hJ
    refine (hgone.spares d).verifiedKept fun id hid hverified => ?_
    obtain ⟨u, hu, hunverified⟩ := hgone.unverified id hid
    obtain ⟨u', hu', hverified⟩ := hverified
    obtain rfl := Option.some.inj (hu.symm.trans hu')
    rw [hunverified] at hverified
    cases hverified

end Batches

/-! ### Any number of parties -/

lemma Request.keepsRows_of_may (r : Request) (h : (Party.request r).OnlyUnverified) (q : Query)
    (hq : r.may q) : q.KeepsRows := by
  cases r with
  | deleteAccount => exact h.elim
  | purge => exact h.elim
  | getMe | listSessions => exact hq.elim
  | createFlow | revoke | revokeSession | requestConfirmation | setDisabled =>
    subst hq
    exact ⟨nofun, nofun⟩
  | _ =>
    constructor <;> rintro rfl <;> simp [Request.may, Query.LogsIn, Query.ChecksCode] at hq

/-- A party keeps to the rules. -/
lemma party_safe {app : App} {x : Party} (h : x.OnlyUnverified) (i : ℕ) (t : Time) (d : Database) :
    (x.handle app).safe purgeRules i {} t d fun _ _ _ _ => True := by
  cases x with
  | request r =>
    exact (carries_keeps fun q => r.keepsRows_of_may h q).safe (handle_sends app r) nofun
  | unverifiedUsers fuel =>
    refine carries_batch.safe (Q := fun _ => True) ?_ nofun
    simp only [Party.handle, Program.sends_bind]
    exact (unverifiedUsers_ofBatch fuel 0).mono fun _ _ => trivial

/-- An account once verified stays, with the codes and the sessions it has, in a run whose steps
delete no verified account. -/
lemma verifiedKept_of_meets {app : App} {clock : Time} {d₀ : Database} {s s' : PartyPool}
    {l m : List PartyStep} (hl : (besidePurge app).Run (Pool.start clock d₀) l s)
    (hm : (besidePurge app).Run s m s') (hparties : ∀ q ∈ s'.procs, q.request.OnlyUnverified)
    (hmeets : ∀ p ∈ l ++ m, purgeRules.Meets p) : VerifiedKept s.db s'.db := by
  have hkept := Rules.requests_of_run (hl.append hm)
  have hsafe : ∀ i (x : Party) t d, (s'.procs[i]?).map Proc.request = some x →
      (x.handle app).safe purgeRules i {} t d fun _ _ _ _ => True := by
    intro i x t d hx
    obtain ⟨q, hq, rfl⟩ := Option.map_eq_some_iff.mp hx
    exact party_safe (hparties q (List.mem_of_getElem? hq)) i t d
  have hbefore : ∀ p ∈ l, p ∈ l ++ m := fun p hp => List.mem_append_left _ hp
  have hafter : ∀ p ∈ m, p ∈ l ++ m := fun p hp => List.mem_append_right _ hp
  obtain ⟨hguarded, -, -⟩ := Rules.guarded_of_run (E := fun _ _ _ _ _ _ => True)
    Rules.guarded_start hl (fun p hp => hmeets p (hbefore p hp))
    (fun p hp => hkept p (hbefore p hp)) RowLock.conflict_comm
    (fun _ _ _ _ _ _ _ _ _ _ _ _ _ _ => trivial) fun i x t d hx _ _ => hsafe i x t d hx
  obtain ⟨-, hstep, -⟩ := Rules.guarded_of_run hguarded hm
    (fun p hp => hmeets p (hafter p hp))
    (fun p hp => hkept p (hafter p hp)) RowLock.conflict_comm
    (fun _ _ _ _ _ _ _ _ _ _ _ _ _ _ => trivial) fun i x t d hx _ _ => hsafe i x t d hx
  exact hstep _ le_rfl

end Bauth
