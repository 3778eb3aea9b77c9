import Bauth.Serial.Integrity
import Bauth.Serial.Logins

/-!
# A deleted account

Deleting an account leaves no row of it, and its identifier never comes back: whatever secret of
the account is still around, nothing is done for the account again.
-/

namespace Bauth

open Transaction Transition

variable {app : App}

/-- No row is the account or belongs to it. -/
structure Database.Without (d : Database) (id : Uuid) : Prop where
  users : ∀ u ∈ d.users, u.id ≠ id
  magicLinks : ∀ l ∈ d.magicLinks, l.userId ≠ some id
  authorizationCodes : ∀ c ∈ d.authorizationCodes, c.userId ≠ id
  sessions : ∀ S ∈ d.sessions, S.userId ≠ id
  emailChanges : ∀ c ∈ d.emailChanges, c.userId ≠ id
  confirmations : ∀ c ∈ d.confirmations, c.userId ≠ id

/-- Nothing belongs to an account that is not there. -/
lemma Database.Linked.without {d : Database} (h : d.Linked) {id : Uuid}
    (husers : ∀ u ∈ d.users, u.id ≠ id) : d.Without id where
  users := husers
  magicLinks l hl hid := by
    obtain ⟨u, hu, huid⟩ := h.linkUser l hl id hid
    exact husers u hu huid
  authorizationCodes c hc hid := by
    obtain ⟨u, hu, huid⟩ := h.codeUser c hc id (congrArg some hid)
    exact husers u hu huid
  sessions S hS hid := by
    obtain ⟨u, hu, huid⟩ := h.sessionUser S hS id (congrArg some hid)
    exact husers u hu huid
  emailChanges c hc hid := by
    obtain ⟨u, hu, huid⟩ := h.changeUser c hc id (congrArg some hid)
    exact husers u hu huid
  confirmations c hc hid := by
    obtain ⟨u, hu, huid⟩ := h.confirmationUser c hc id (congrArg some hid)
    exact husers u hu huid

/-! ### Identifiers that are gone -/

section Absent

variable {s₀ s : Server} {steps : List Served} {k : Uuid}

/-- A row that is gone does not come back. -/
lemma absent_stays {ρ : Type} {rows : Database → List ρ} {id : ρ → Uuid}
    (huuid : Function.Injective app.uuid)
    (h : Path Served.before Served.after (Served.Taken app) s₀ steps s)
    (hmarks : ∀ p, p.Taken app → Marks app rows id (fun _ => False) p) (hdrawn : s₀.HasDrawn app k)
    (habsent : ∀ r ∈ rows s₀.db, id r ≠ k) : ∀ r ∈ rows s.db, id r ≠ k := by
  intro r hr hid
  have hstays := marked_stays huuid h hmarks
    ⟨hdrawn, fun r hr hid => absurd hid (habsent r hr)⟩
  exact hstays.2 r hr hid

lemma marks_users {p : Served} (hp : p.Taken app) :
    Marks app Database.users User.id (fun _ => False) p := by
  refine .of_evolves hp.1 (fun he => he.users) (fun _ hrow => ?_) fun hnew => ?_
  · cases hrow <;> exact ⟨rfl, fun h => h⟩
  · obtain ⟨-, email, rfl⟩ := hnew
    rfl

lemma marks_sessions {p : Served} (hp : p.Taken app) :
    Marks app Database.sessions Session.id (fun _ => False) p :=
  .sessions hp.1 fun _ h => h

end Absent

/-! ### What is left of a deleted account -/

section Deleted

variable {clock : Time} {l m : List Served} {p : Served} {s : Server} {ip code : String}
  {authorization : Option String}

/-- A deletion that succeeds deletes the account of the access token. -/
lemma deleted_account (huuid : Function.Injective app.uuid) (hp : p.Taken app)
    (hrequest : p.request = .deleteAccount ip authorization code)
    (hresponse : p.response = .ok .done) :
    ∃ user, Authenticated app ⟨p.time, p.time, p.reply⟩ authorization p.before.db user ∧
      (∀ u ∈ p.after.db.users, u.id ≠ user.id) ∧
      ∀ S ∈ p.before.db.sessions, S.userId = user.id →
        ∀ S' ∈ p.after.db.sessions, S'.id ≠ S.id := by
  have hkeyed := hp.2.keyed huuid
  have hout := hp.1.outcome huuid hkeyed
  rw [hrequest, hresponse] at hout
  generalize p.after.db = d', hanswer : (.ok .done : Response) = answer at hout ⊢
  cases hout with
  | deleteAccount h =>
    cases h with
    | refused => cases hanswer
    | wrong => cases hanswer
    | @deleted user c huser hc =>
      refine ⟨user, huser, fun u hu hid => ?_, fun S hS howner S' hS' hid => ?_⟩
      · obtain ⟨-, hkept⟩ := List.mem_filter.mp hu
        simp [hid] at hkept
      · -- sessions are dropped by their owner, after some forgot their code
        obtain ⟨hmem, hkept⟩ := List.mem_filter.mp hS'
        obtain ⟨S₀, hS₀, rfl⟩ := mem_updateWhere.mp hmem
        have hsame : S₀ = S := by
          refine List.inj_on_of_nodup_map hkeyed.uniqueIds.sessions hS₀ hS ?_
          split_ifs at hid <;> exact hid
        subst hsame
        obtain ⟨u, hu, huid, -⟩ := huser.account
        have howned : ∀ b : Bool, (if b = true then { S₀ with authorizationCodeId := none }
            else S₀ : Session).userId = user.id := by
          intro b
          split_ifs <;> exact howner
        simp only [howned, Bool.not_eq_true', List.any_eq_false] at hkept
        exact absurd (by simp [huid]) (hkept u hu)

/-- Once an account is deleted, no row is its own or belongs to one of its sessions, and no later
request logs it in, opens or refreshes a session of it or is accepted with an access token of it. -/
theorem account_erased (huuid : Function.Injective app.uuid)
    (hrun : Run app { db := {}, served := 0, clock } (l ++ p :: m) s)
    (hrequest : p.request = .deleteAccount ip authorization code)
    (hresponse : p.response = .ok .done) :
    ∃ user, Authenticated app ⟨p.time, p.time, p.reply⟩ authorization p.before.db user ∧
      s.db.Without user.id ∧
      (∀ S ∈ p.before.db.sessions, S.userId = user.id →
        (∀ S' ∈ s.db.sessions, S'.id ≠ S.id) ∧ (∀ r ∈ s.db.refreshTokens, r.sessionId ≠ S.id) ∧
          ∀ c ∈ s.db.confirmations, c.sessionId ≠ S.id) ∧
      ∀ q ∈ m, (∀ f l c, q.Completes app f l c → c.userId ≠ user.id) ∧
        (∀ f c S, q.Redeems app f c S → S.userId ≠ user.id) ∧
        (∀ input client r S, Presented app input q.before.db client r S → S.userId ≠ user.id) ∧
        ∀ a u, Authenticated app ⟨q.time, q.time, q.reply⟩ a q.before.db u → u.id ≠ user.id := by
  obtain ⟨hl, hp, hm⟩ := (hrun.path (.start app clock)).around
  obtain ⟨user, huser, hgone, hsessions⟩ := deleted_account huuid hp hrequest hresponse
  have hkeyed := hp.2.keyed huuid
  have hdrawn : p.after.HasDrawn app user.id := by
    obtain ⟨u, hu, huid, -⟩ := huser.account
    exact hp.1.hasDrawn (huid ▸ hkeyed.users.drawn _ (List.mem_map_of_mem hu))
  have hwithout : ∀ {m' : List Served} {s' : Server},
      Path Served.before Served.after (Served.Taken app) p.after m' s' → Reachable app s' →
        s'.db.Without user.id := fun hm' hs' =>
    hs'.linked.without (absent_stays huuid hm' (fun _ hp => marks_users hp) hdrawn hgone)
  have hreach : Reachable app s := ⟨clock, _, hrun⟩
  refine ⟨user, huser, hwithout hm hreach, fun S hS howner => ?_, fun q hq => ?_⟩
  · have hdrawnS : p.after.HasDrawn app S.id :=
      hp.1.hasDrawn (hkeyed.sessions.drawn _ (List.mem_map_of_mem hS))
    have habsent : ∀ S' ∈ s.db.sessions, S'.id ≠ S.id :=
      absent_stays huuid hm (fun _ hp => marks_sessions hp) hdrawnS (hsessions S hS howner)
    refine ⟨habsent, fun r hr hid => ?_, fun c hc hid => ?_⟩
    · obtain ⟨S', hS', hid'⟩ := hreach.linked.tokenSession r hr S.id (congrArg some hid)
      exact habsent S' hS' hid'
    · obtain ⟨S', hS', hid'⟩ := hreach.linked.confirmationSession c hc S.id (congrArg some hid)
      exact habsent S' hS' hid'
  · obtain ⟨m₁, m₂, rfl⟩ := List.append_of_mem hq
    obtain ⟨hm₁, hq', -⟩ := hm.around
    have hbefore := hwithout hm₁ hq'.2
    have hafter : q.after.db.Without user.id := hwithout (hm₁.snoc hq') (hq'.2.run hq'.1.run)
    refine ⟨fun f l c hc hid => ?_, fun f c S hS hid => ?_, fun input client r S hr hid => ?_,
      fun a u hu hid => ?_⟩
    · obtain ⟨u, hu, huid, -⟩ := hc.account
      exact hafter.users u hu (huid.trans hid)
    · exact hbefore.authorizationCodes c hS.code.1 (hS.session.1.symm.trans hid)
    · exact hbefore.sessions S (List.mem_of_find?_eq_some hr.session) hid
    · obtain ⟨S, hS, -, hSu, -⟩ := hu.session
      exact hbefore.sessions S hS (hSu.trans hid)

end Deleted

/-! ### A deletion on the example server -/

section Example

/-- The user of `exampleLogin` has a code mailed to delete the account. -/
def exampleConfirmed : Server :=
  (serve exampleApp 4 exampleReply
    (.requestConfirmation "ip" (some "Bearer uuuuuuussssssssssssss") .deleteAccount)
    exampleServer).after

/-- The user presents the code. -/
def exampleDeletion : Served :=
  serve exampleApp 5 exampleReply
    (.deleteAccount "ip" (some "Bearer uuuuuuussssssssssssss") "000041") exampleConfirmed

/-- The run that ends with it. -/
def exampleClosing : List Served :=
  (script exampleApp exampleReply .empty exampleLogin).1 ++
    [serve exampleApp 4 exampleReply
      (.requestConfirmation "ip" (some "Bearer uuuuuuussssssssssssss") .deleteAccount)
      exampleServer] ++ [exampleDeletion]

lemma exampleClosing_run : Run exampleApp .empty exampleClosing exampleDeletion.after := by
  have hlogin : Run exampleApp .empty (script exampleApp exampleReply .empty exampleLogin).1
      exampleServer := exampleServer_eq ▸ script_run (by decide)
  have hasked := hlogin.snoc 4 exampleReply (.requestConfirmation "ip"
    (some "Bearer uuuuuuussssssssssssss") .deleteAccount) (by decide)
  exact hasked.snoc 5 exampleReply
    (.deleteAccount "ip" (some "Bearer uuuuuuussssssssssssss") "000041") (by decide)

/-- The user logs in again, with a new flow and its link. -/
def exampleReturning : List (Time × Request) :=
  [(6, .createFlow {
      clientId := "app", redirectUri := "https://app/cb", codeChallenge := exampleChallenge
      codeChallengeMethod := "S256", state := none }),
    (7, .requestMagicLink "ip" 42 "bob@x.fr"), (8, .confirmMagicLink "ip" "ppppppp-iii")]

/-- The user deletes the account and logs in again: the account is another one. -/
theorem account_erased_example : ∃ user : CurrentUser, user.email = "bob@x.fr" ∧
    ((script exampleApp exampleReply exampleDeletion.after exampleReturning).2.db.Without user.id) ∧
    ∃ u ∈ (script exampleApp exampleReply exampleDeletion.after exampleReturning).2.db.users,
      u.email = "bob@x.fr" ∧ u.id ≠ user.id := by
  have hlater : Run exampleApp exampleDeletion.after
      (script exampleApp exampleReply exampleDeletion.after exampleReturning).1
      (script exampleApp exampleReply exampleDeletion.after exampleReturning).2 :=
    script_run (by decide +kernel)
  have hrun := exampleClosing_run.append hlater
  have hback : (script exampleApp exampleReply exampleDeletion.after exampleReturning).2.db.users.any
      fun u => u.email = "bob@x.fr" := by
    decide +kernel
  generalize script exampleApp exampleReply exampleDeletion.after exampleReturning = r at hrun hback
  rw [exampleClosing, List.append_assoc, List.singleton_append] at hrun
  obtain ⟨user, huser, hwithout, -⟩ := account_erased (p := exampleDeletion)
    exampleApp_uuid_injective hrun rfl (by decide +kernel)
  obtain ⟨u, hu, -, hemail, -⟩ := huser.account
  have husers : exampleDeletion.before.db.users.all fun u => u.email = "bob@x.fr" := by
    decide +kernel
  obtain ⟨u', hu', hemail'⟩ := List.any_eq_true.mp hback
  refine ⟨user, ?_, hwithout, u', hu', of_decide_eq_true hemail', hwithout.users u' hu'⟩
  rw [← hemail]
  simpa using List.all_eq_true.mp husers u hu

end Example

end Bauth
