import Bauth.Transaction.Forest
import Bauth.Serial.Logins
import Bauth.Serial.Coherence
import Bauth.Serial.Script

/-!
# The tokens of a session

The refresh tokens of each session form one tree: its root was issued with the session, each other
token by exchanging its parent. A token that was replaced by a retry was not exchanged and never is,
so it has no children.
-/

namespace Bauth

open Transaction

/-- One tree for each session, and no token both exchanged and replaced. -/
structure Database.RefreshTrees (d : Database) : Prop where
  sessions : (d.sessions.map Session.id).Nodup
  forest : Forest RefreshToken.id RefreshToken.parentId RefreshToken.sessionId d.refreshTokens
    (d.sessions.map Session.id)
  exclusive : ∀ r ∈ d.refreshTokens, r.rotatedAt = none ∨ r.supersededAt = none

namespace Database.RefreshTrees

variable {d d' : Database}

lemma empty : ({} : Database).RefreshTrees where
  sessions := List.nodup_nil
  forest := .nil
  exclusive := by simp

lemma of_eq (h : d.RefreshTrees) (htokens : d'.refreshTokens = d.refreshTokens)
    (hsessions : d'.sessions.map Session.id = d.sessions.map Session.id) : d'.RefreshTrees where
  sessions := hsessions ▸ h.sessions
  forest := htokens ▸ hsessions ▸ h.forest
  exclusive := htokens ▸ h.exclusive

lemma updateSessions (h : d.RefreshTrees) (htokens : d'.refreshTokens = d.refreshTokens)
    {p : Session → Bool} {set : Session → Session}
    (hsessions : d'.sessions = updateWhere p set d.sessions) (hset : ∀ s, (set s).id = s.id) :
    d'.RefreshTrees :=
  h.of_eq htokens (by rw [hsessions, map_updateWhere _ hset])

lemma settle (h : d.RefreshTrees) (hids : (d.refreshTokens.map RefreshToken.id).Nodup)
    {r : RefreshToken} (hr : r ∈ d.refreshTokens) (utc now : Time) :
    (d.settle r utc now).RefreshTrees := by
  rw [Database.settle_eq_map]
  refine ⟨h.sessions, h.forest.map fun r' => ?_, fun r' hr' => ?_⟩
  · have hages := d.settleRow_ages r utc now r'
    exact ⟨hages.id, hages.parentId, hages.sessionId⟩
  · obtain ⟨r₀, hr₀, rfl⟩ := List.mem_map.mp hr'
    rcases d.settleRow_cases r utc now r₀ with hrow | ⟨hverdict, hid, hnone, hrow⟩ |
      ⟨hverdict, hparent, hunused, hrow⟩
    · rw [hrow]
      exact h.exclusive r₀ hr₀
    · obtain rfl := List.inj_on_of_nodup_map hids hr₀ hr hid
      refine .inr ?_
      rw [hrow]
      cases hsuperseded : r₀.supersededAt with
      | none => rfl
      | some t => simp [Database.verdict, hsuperseded] at hverdict
    · rw [hrow]
      refine .inl ?_
      simp only [RefreshToken.unused, Bool.and_eq_true, Option.isNone_iff_eq_none] at hunused
      exact hunused.1

lemma deleteSessions (h : d.RefreshTrees) (hparents : d.ParentsWithin) (p : Session → Bool) :
    (d.deleteSessions p).RefreshTrees where
  sessions := (List.filter_sublist.map Session.id).nodup h.sessions
  forest := by
    rw [Database.deleteSessions_refreshTokens hparents]
    refine (h.forest.filter fun id => !d.sessions.any fun s => s.id = id && p s).of_groups ?_
    intro id hid
    obtain ⟨S, hS, rfl⟩ := List.mem_map.mp hid
    obtain ⟨hS, hkept⟩ := List.mem_filter.mp hS
    refine List.mem_filter.mpr ⟨List.mem_map_of_mem hS, ?_⟩
    simp only [Bool.not_eq_true', List.any_eq_false, Bool.and_eq_true, decide_eq_true_eq, not_and]
    intro S' hS' hid'
    obtain rfl := List.inj_on_of_nodup_map h.sessions hS' hS hid'
    simpa using hkept
  exclusive r hr := h.exclusive r (List.mem_of_mem_filter hr)

lemma deleteUsers (h : d.RefreshTrees) (hparents : d.ParentsWithin) (p : User → Bool) :
    (d.deleteUsers p).RefreshTrees := by
  have hcodes : ({ d with
      users := d.users.filter fun u => !p u
      magicLinks := d.magicLinks.filter fun l => !l.userId.any fun id =>
        d.users.any fun u => u.id = id && p u
      emailChanges := d.emailChanges.filter fun c => !d.users.any fun u => u.id = c.userId && p u
      confirmations := d.confirmations.filter fun c =>
        !d.users.any fun u => u.id = c.userId && p u }.deleteAuthorizationCodes fun c =>
          d.users.any fun u => u.id = c.userId && p u).RefreshTrees :=
    h.updateSessions rfl rfl fun _ => rfl
  exact hcodes.deleteSessions (hparents.of_subset (List.Subset.refl _)) _

lemma purged (h : d.RefreshTrees) (hparents : d.ParentsWithin) (hd : Purged d d') :
    d'.RefreshTrees := by
  induction hd with
  | refl => exact h
  | loginFlow _ id ih => exact ih.updateSessions rfl rfl fun _ => rfl
  | emailChange _ id ih => exact ih.of_eq rfl rfl
  | confirmation _ id ih => exact ih.of_eq rfl rfl
  | session hd id ih => exact ih.deleteSessions (hparents.of_subset hd.refreshTokens.subset) _
  | user hd id ih => exact ih.deleteUsers (hparents.of_subset hd.refreshTokens.subset) _
  | signingKeys _ keys ih => exact ih.of_eq rfl rfl

end Database.RefreshTrees

section Requests

variable {app : App} {env : Program.Env sig} {process : ℕ} {d d' : Database}

lemma Request.Outcome.refreshTrees {request : Request} {response : Response} {events : List Event}
    (h : request.Outcome app env process d response d' events) (hids : d.UniqueIds)
    (hids' : d'.UniqueIds) (hlinked : d.Linked) (hparents : d.ParentsWithin)
    (hd : d.RefreshTrees) : d'.RefreshTrees := by
  cases h with
  | createFlow h => cases h <;> exact hd.of_eq rfl rfl
  | requestMagicLink h => cases h <;> exact hd.of_eq rfl rfl
  | confirmMagicLink h =>
    cases h with
    | refused => exact hd
    | loggedIn _ _ _ hlogin =>
      obtain ⟨haccount, _⟩ := hlogin
      obtain ⟨users, rfl, -⟩ := haccount.tables
      exact hd.of_eq rfl rfl
  | confirmMagicCode h =>
    cases h with
    | refused => exact hd
    | wrong => exact hd.of_eq rfl rfl
    | loggedIn _ _ hlogin =>
      obtain ⟨haccount, _⟩ := hlogin
      obtain ⟨users, rfl, -⟩ := haccount.tables
      exact hd.of_eq rfl rfl
  | exchange _ h =>
    cases h with
    | refused => exact hd
    | replayed => exact hd.updateSessions rfl rfl fun _ => rfl
    | @issued code redirectUri verifier client c f _ _ _ _ _ _ _ _ _ key i i' j k hnew =>
      have hforest := hd.forest.appendRoot
        (newToken app process (app.uuid ⟨process, i⟩) none env.now i' j) rfl fun r hr hsame => by
          obtain ⟨S, hS, hSid⟩ := hlinked.tokenSession r hr _ rfl
          exact ne_of_nodup_append hids'.sessions hS (hSid.trans hsame)
      refine ⟨hids'.sessions, ?_, fun r hr => ?_⟩
      · rw [List.map_append]
        exact hforest
      · rcases List.mem_append.mp hr with hr | hr
        · exact hd.exclusive r hr
        · exact .inl (List.mem_singleton.mp hr ▸ rfl)
  | refresh _ h =>
    cases h with
    | stolen => exact hd.updateSessions rfl rfl fun _ => rfl
    | @disabled client r s hp =>
      obtain ⟨T, -, hr⟩ := hp.token
      exact (hd.settle hids.refreshTokens (List.mem_of_find?_eq_some hr) env.utc
        env.now).updateSessions rfl rfl fun _ => rfl
    | @issued client r s hp hlive hverdict _ key i j k hnew =>
      obtain ⟨T, -, hr⟩ := hp.token
      have hsettled := hd.settle hids.refreshTokens (List.mem_of_find?_eq_some hr) env.utc env.now
      have hmem : d.settleRow r env.utc env.now r ∈ (d.settle r env.utc env.now).refreshTokens := by
        rw [Database.settle_eq_map]
        exact List.mem_map_of_mem (List.mem_of_find?_eq_some hr)
      have hsession : s.id = r.sessionId := by simpa using List.find?_some hp.session
      have hages := d.settleRow_ages r env.utc env.now r
      refine ⟨hsettled.sessions, ?_, fun r' hr' => ?_⟩
      · exact hsettled.forest.appendChild hmem (hages.sessionId.trans hsession.symm)
          (congrArg some hages.id.symm)
      · rcases List.mem_append.mp hr' with hr' | hr'
        · exact hsettled.exclusive r' hr'
        · exact .inl (List.mem_singleton.mp hr' ▸ rfl)
    | _ => exact hd
  | otherGrant => exact hd
  | revoke => exact hd.updateSessions rfl rfl fun _ => rfl
  | revokeRefused => exact hd
  | getMe => exact hd
  | listSessions => exact hd
  | revokeSession h =>
    cases h with
    | refused => exact hd
    | revoked => exact hd.updateSessions rfl rfl fun _ => rfl
  | requestConfirmation h => cases h <;> exact hd.of_eq rfl rfl
  | changeEmail h => cases h <;> exact hd.of_eq rfl rfl
  | deleteAccount h =>
    cases h with
    | refused => exact hd
    | wrong => exact hd.of_eq rfl rfl
    | @deleted user c =>
      have hconsumed : (d.consumeConfirmation env.now c.id).RefreshTrees := hd.of_eq rfl rfl
      exact hconsumed.deleteUsers (hparents.of_subset (List.Subset.refl _)) _
  | confirmEmailChange h => cases h <;> exact hd.of_eq rfl rfl
  | purge h => exact hd.purged hparents h
  | setDisabled => exact hd.of_eq rfl rfl

end Requests

theorem Reachable.refreshTrees {app : App} (huuid : Function.Injective app.uuid) {s : Server}
    (hs : Reachable app s) : s.db.RefreshTrees := by
  refine hs.invariant (P := fun s => s.db.RefreshTrees) (fun _ => .empty) fun p hp hreach h => ?_
  have hkeyed := hreach.keyed huuid
  exact (hp.outcome huuid hkeyed).refreshTrees hkeyed.uniqueIds
    ((hreach.run hp.run).keyed huuid).uniqueIds hreach.linked
    ((hreach.tokenTree huuid).parentsWithin hkeyed.uniqueIds.refreshTokens) h

/-! ### Runs -/

section Runs

variable {app : App} {s s' : Server} {steps : List Served}

/-- A token that is still there was only rotated or superseded. -/
lemma Run.tokens_age (huuid : Function.Injective app.uuid) (hs : Reachable app s)
    (hrun : Run app s steps s') : ∀ r ∈ s.db.refreshTokens, ∀ r' ∈ s'.db.refreshTokens,
      r'.id = r.id → r.Ages r' := by
  intro r hr
  have hkeyed := hs.keyed huuid
  have hmarks : ∀ p, p.Taken app → Marks app Database.refreshTokens RefreshToken.id r.Ages p := by
    intro p hp r' hr'
    rcases (hp.1.outcome huuid (hp.2.keyed huuid)).tokensFrom r' hr' with
      ⟨r₀, hr₀, hages⟩ | ⟨sessionId, parentId, i, j, rfl⟩
    · exact .inl ⟨r₀, hr₀, hages.id.symm, fun h => h.trans hages⟩
    · exact .inr ⟨i, rfl⟩
  refine (marked_stays huuid (hrun.path hs) hmarks ⟨?_, fun r₀ hr₀ hid => ?_⟩).2
  · exact hkeyed.refreshTokens.drawn _ (List.mem_map_of_mem hr)
  · obtain rfl := List.inj_on_of_nodup_map hkeyed.uniqueIds.refreshTokens hr₀ hr hid
    exact .refl r₀

/-- In every reachable state, the refresh tokens of each session form one tree below the token that
was issued with it. A token that was exchanged for another is not superseded, and one that was
superseded never was exchanged; when either happened never changes. -/
theorem refresh_trees (huuid : Function.Injective app.uuid) (hs : Reachable app s) :
    (∀ S ∈ s.db.sessions, ∃ root ∈ s.db.refreshTokens, root.sessionId = S.id ∧
      root.parentId = none ∧ ∀ r ∈ s.db.refreshTokens, r.sessionId = S.id →
        (r.parentId = none → r = root) ∧
          Descends RefreshToken.id RefreshToken.parentId RefreshToken.sessionId s.db.refreshTokens
            S.id root.id r.id) ∧
      (∀ r ∈ s.db.refreshTokens, ∀ p, r.parentId = some p → ∃ r' ∈ s.db.refreshTokens,
        r'.id = p ∧ r'.sessionId = r.sessionId ∧ r'.rotatedAt.isSome = true ∧
          r'.supersededAt = none) ∧
      (∀ r ∈ s.db.refreshTokens, r.rotatedAt = none ∨ r.supersededAt = none) ∧
      ∀ steps s', Run app s steps s' → ∀ r ∈ s.db.refreshTokens, ∀ r' ∈ s'.db.refreshTokens,
        r'.id = r.id → r.Ages r' := by
  have htrees := hs.refreshTrees huuid
  have hids := (hs.keyed huuid).uniqueIds.refreshTokens
  refine ⟨fun S hS => ?_, fun r hr p hp => ?_, htrees.exclusive, fun steps s' hrun =>
    hrun.tokens_age huuid hs⟩
  case refine_2 =>
    obtain ⟨r', hr', hid, hsession, hrotated⟩ := (hs.tokenTree huuid).parents r hr p hp
    refine ⟨r', hr', hid, hsession, hrotated, (htrees.exclusive r' hr').resolve_left ?_⟩
    exact Option.isSome_iff_ne_none.mp hrotated
  obtain ⟨root, hroot, hsession, hparent⟩ := htrees.forest.root S.id (List.mem_map_of_mem hS)
  refine ⟨root, hroot, hsession, hparent, fun r hr hr' => ⟨fun hnone => ?_, ?_⟩⟩
  · exact List.inj_on_of_nodup_map hids hr hroot
      (htrees.forest.oneRoot r hr root hroot (hr'.trans hsession.symm) hnone hparent)
  · have hdescends := htrees.forest.descends_root hr hroot (hsession.trans hr'.symm) hparent
    rwa [hr'] at hdescends

end Runs

/-! ### A retry on the example server -/

section Example

/-- The first token is exchanged, and again 31 seconds later. -/
def exampleRetries : List (Time × Request) :=
  [(4, refreshWith "app" "ppp-iii"), (31000005, refreshWith "app" "ppp-iii")]

/-- The server after `exampleRetries`. -/
def exampleRetried : Server := (script exampleApp exampleReply exampleServer exampleRetries).2

lemma exampleRetried_reachable : Reachable exampleApp exampleRetried :=
  exampleServer_reachable.run (script_run (by decide))

/-- The token of the first answer was replaced, and is below the token of the login. -/
theorem refresh_trees_example : ∃ r ∈ exampleRetried.db.refreshTokens, ∃ root : RefreshToken,
    r.supersededAt.isSome = true ∧ root.parentId = none ∧
      Descends RefreshToken.id RefreshToken.parentId RefreshToken.sessionId
        exampleRetried.db.refreshTokens 14 root.id r.id := by
  have hany : (exampleRetried.db.sessions.any fun S => S.id = 14) = true ∧
      (exampleRetried.db.refreshTokens.any fun r =>
        r.supersededAt.isSome && r.sessionId = 14) = true := by
    decide +kernel
  simp only [List.any_eq_true, Bool.and_eq_true, decide_eq_true_eq] at hany
  obtain ⟨⟨S, hS, hid⟩, r, hr, hsuperseded, hsession⟩ := hany
  obtain ⟨root, -, -, hparent, hbelow⟩ :=
    (refresh_trees exampleApp_uuid_injective exampleRetried_reachable).1 S hS
  exact ⟨r, hr, root, hsuperseded, hparent, hid ▸ (hbelow r hr (hsession.trans hid.symm)).2⟩

end Example

end Bauth
