import Bauth.Concurrent.Handler
import Bauth.Rows.Handlers
import Bauth.Serial.Script

/-!
# Using one link side by side

Any number of requests use magic links, by token or by code, at the same time. A wrong code is
counted after the link was read, and writes whether the link is used without looking at it again:
only where it does not do so on a used link does a used link stay used.
-/

namespace Bauth

open Transaction Transition

abbrev ServerPool := Pool sig Request Response

abbrev ServerAction := Pool.Action sig Request

/-- The requests of the server, side by side. -/
def sideBySide (app : App) : System ServerPool ServerAction := Pool.system (handle app)

/-- The request uses a magic link. -/
def Request.UsesLink : Request → Prop
  | .confirmMagicLink .. | .confirmMagicCode .. => True
  | _ => False

/-- The statements that such a request writes with. -/
def Query.UsesLink (q : Query) : Prop :=
  q = .magicLinksConsume ∨ (∃ id, q = .magicLinksRecordCodeFailure id) ∨
    q = .magicLinksConsumeById ∨ q.LogsIn

/-- A link of this identifier is used. -/
def Database.Used (d : Database) (id : Uuid) : Prop :=
  ∀ l ∈ d.magicLinks, l.id = id → l.consumedAt.isSome = true

/-- The link is not used yet, or reaches the limit with one more wrong code. -/
def MagicLink.Countable (l : MagicLink) : Prop :=
  l.consumedAt = none ∨ maxFailuresPerCode ≤ l.codeFailures + 1

instance (l : MagicLink) : Decidable l.Countable :=
  inferInstanceAs (Decidable (l.consumedAt = none ∨ maxFailuresPerCode ≤ l.codeFailures + 1))

/-- The rules of the requests that use links: who locks a link keeps it as it is, and a used link
stays used. -/
def linkRules : Rules sig where
  same l d d' := l.2 ≠ .keyShare → ∀ r : MagicLink, l.1 = .magicLink r.id →
    (r ∈ d.magicLinks ↔ r ∈ d'.magicLinks)
  step _ d d' := ∀ id, d.Used id → d'.Used id
  expects q _ _ d := ∀ id, q = .magicLinksRecordCodeFailure id → ∀ l ∈ d.magicLinks, l.id = id →
    l.Countable
  replies _ _ _ := True
  same_refl _ _ _ _ _ := Iff.rfl
  same_trans _ _ _ _ h h' hmode r hr := (h hmode r hr).trans (h' hmode r hr)
  step_refl _ _ _ h := h
  step_trans _ _ _ _ h h' id hid := h' id (h id hid)

section Links

variable {app : App} {may : Query → Prop} {β : Type} {st : Statement sig β} {i : ℕ}

/-- The statement changes links one by one, and locks those it changes. -/
def MapsLinks (st : Statement sig β) (now : Time) (n : Draw) (v : Database) : Prop :=
  ∃ g : MagicLink → MagicLink, (∀ l, (g l).id = l.id) ∧
    (∀ l, g l = l ∨ (.magicLink l.id, .noKeyUpdate) ∈ st.locks now v ∧
      MagicLink.Step st.label now l (g l)) ∧
    ∀ d, ((st.run now n v).1 d).magicLinks = d.magicLinks.map g

lemma mapsLinks_of_same {now : Time} {n : Draw} {v : Database}
    (h : ∀ d, ((st.run now n v).1 d).magicLinks = d.magicLinks) : MapsLinks st now n v := by
  refine ⟨fun l => l, fun _ => rfl, fun _ => .inl rfl, fun d => ?_⟩
  rw [h, List.map_id']

lemma mapsLinks_update (q : Query) (p : Time → Database → MagicLink → Bool)
    (set : Time → MagicLink → MagicLink) (answer : Database → List MagicLink → β) {now : Time}
    {n : Draw} {v : Database} (hid : ∀ l, (set now l).id = l.id)
    (hstep : ∀ l r, p now v r = true → r.id = l.id → MagicLink.Step q now l (set now l)) :
    MapsLinks (update q .magicLinks p set answer) now n v := by
  refine ⟨fun l => if ((v.magicLinks.filter (p now v)).map MagicLink.id).contains l.id then set now l
    else l, fun l => ?_, fun l => ?_, fun d => rfl⟩
  · dsimp only
    split_ifs
    · exact hid l
    · rfl
  · dsimp only
    by_cases hin : l.id ∈ (v.magicLinks.filter (p now v)).map MagicLink.id
    · rw [if_pos (List.contains_iff_mem.mpr hin)]
      obtain ⟨r, hr, hsame⟩ := List.mem_map.mp hin
      refine .inr ⟨?_, hstep l r (List.mem_filter.mp hr).2 hsame⟩
      exact List.mem_map.mpr ⟨r, hr, by rw [← hsame]; rfl⟩
    · rw [if_neg fun h => hin (List.contains_iff_mem.mp h)]
      exact .inl rfl

lemma Sent.mapsLinks (h : Sent app may st) (hmay : ∀ q, may q → q.UsesLink) (now : Time) (n : Draw)
    (v : Database) : MapsLinks st now n v := by
  have hnot : ∀ q : Query, ¬q.UsesLink → ¬may q := fun q hq hm => hq (hmay q hm)
  cases h with
  | magicLinksConsume h tokenHash =>
    exact mapsLinks_update _ _ _ _ (fun _ => rfl) fun l _ _ _ => .consume (.inl rfl) l
  | magicLinksRecordCodeFailure id h =>
    refine mapsLinks_update _ _ _ _ (fun _ => rfl) fun l r hr hsame => .fail l ?_
    exact congrArg _ ((of_decide_eq_true hr).symm.trans hsame)
  | magicLinksConsumeById h id =>
    exact mapsLinks_update _ _ _ _ (fun _ => rfl) fun l _ _ _ => .consume (.inr rfl) l
  | usersCreate h email =>
    refine mapsLinks_of_same fun d => ?_
    simp only [Users.create]
    split_ifs <;> rfl
  | authorizationCodesCreate h codeHash flowId userId expiresAt =>
    refine mapsLinks_of_same fun d => ?_
    simp only [AuthorizationCodes.create]
    split_ifs <;> rfl
  | magicLinksCreate h => exact absurd h (hnot _ (by simp [Query.UsesLink, Query.LogsIn]))
  | usersDelete h => exact absurd h (hnot _ (by simp [Query.UsesLink, Query.LogsIn]))
  | usersChangeEmail h => exact absurd h (hnot _ (by simp [Query.UsesLink, Query.LogsIn]))
  | sessionsCreate h => exact absurd h (hnot _ (by simp [Query.UsesLink, Query.LogsIn]))
  | refreshTokensCreate h => exact absurd h (hnot _ (by simp [Query.UsesLink, Query.LogsIn]))
  | emailChangesCreate h => exact absurd h (hnot _ (by simp [Query.UsesLink, Query.LogsIn]))
  | confirmationsCreate h => exact absurd h (hnot _ (by simp [Query.UsesLink, Query.LogsIn]))
  | purgeLoginFlow h => exact absurd h (hnot _ (by simp [Query.UsesLink, Query.LogsIn]))
  | purgeEmailChange h => exact absurd h (hnot _ (by simp [Query.UsesLink, Query.LogsIn]))
  | purgeConfirmation h => exact absurd h (hnot _ (by simp [Query.UsesLink, Query.LogsIn]))
  | purgeSession h => exact absurd h (hnot _ (by simp [Query.UsesLink, Query.LogsIn]))
  | purgeUser h => exact absurd h (hnot _ (by simp [Query.UsesLink, Query.LogsIn]))
  | purgeSigningKeys h => exact absurd h (hnot _ (by simp [Query.UsesLink, Query.LogsIn]))
  | _ => exact mapsLinks_of_same fun d => rfl

/-- A row that is locked is the same in what both make of it. -/
lemma MapsLinks.same {now : Time} {n : Draw} {v d d' : Database} {m : RowLock}
    (h : MapsLinks st now n v) (hsame : linkRules.same m d d') :
    linkRules.same m ((st.run now n v).1 d) ((st.run now n v).1 d') := by
  obtain ⟨g, hid, -, hg⟩ := h
  intro hmode r hr
  have hiff : ∀ r₀ : MagicLink, g r₀ = r → (r₀ ∈ d.magicLinks ↔ r₀ ∈ d'.magicLinks) := by
    rintro r₀ rfl
    exact hsame hmode r₀ (by rw [hr, hid])
  rw [hg, hg, List.mem_map, List.mem_map]
  constructor
  · rintro ⟨r₀, hr₀, h⟩
    exact ⟨r₀, (hiff r₀ h).mp hr₀, h⟩
  · rintro ⟨r₀, hr₀, h⟩
    exact ⟨r₀, (hiff r₀ h).mpr hr₀, h⟩

/-- It only changes links that it locks. -/
lemma MapsLinks.within (h : ∀ now n v, MapsLinks st now n v) : linkRules.Within st := by
  rintro now n v ⟨l, mode⟩ d hfree hmode r rfl
  obtain ⟨g, hid, hlocks, hg⟩ := h now n v
  have hfix : ∀ r₀ : MagicLink, r₀.id = r.id → g r₀ = r₀ := by
    intro r₀ hr₀
    rcases hlocks r₀ with hsame | ⟨hlock, -⟩
    · exact hsame
    · have hconflict := hfree _ hlock
      simp only [RowLock.conflict, hr₀, decide_true, Bool.true_and] at hconflict
      cases mode with
      | keyShare => exact absurd rfl hmode
      | noKeyUpdate => cases hconflict
      | update => cases hconflict
  rw [hg, List.mem_map]
  constructor
  · intro hr
    exact ⟨r, hr, hfix r rfl⟩
  · rintro ⟨r₀, hr₀, h⟩
    have hsame : r₀.id = r.id := by rw [← h, hid]
    rw [hfix r₀ hsame] at h
    exact h ▸ hr₀

/-- What an open transaction makes of the links, wherever it commits. -/
structure LinkTx (tx : Program.Tx sig) (d : Database) : Prop where
  same : ∀ (l : RowLock) e e', linkRules.same l e e' →
    linkRules.same l (tx.writes e) (tx.writes e')
  keeps : ∀ e, (∀ l ∈ tx.locks, linkRules.same l d e) → ∀ id, e.Used id → (tx.writes e).Used id

lemma carries_linkTx (hmay : ∀ q, may q → q.UsesLink) :
    linkRules.Carries i (Sent app may) LinkTx where
  within st hst := MapsLinks.within fun now n v => hst.mapsLinks hmay now n v
  opens t d := ⟨fun _ _ _ h => h, fun _ _ _ h => h⟩
  sends st tx n d hst hJ hexpects := by
    have hmaps := hst.mapsLinks hmay tx.start n (tx.writes d)
    refine ⟨fun l e e' h => hmaps.same (hJ.same l e e' h), fun e he id hid => ?_⟩
    have hused := hJ.keeps e (fun l hl => he l (List.mem_append_left _ hl)) id hid
    obtain ⟨g, hgid, hlocks, hg⟩ := hmaps
    intro r hr hrid
    have hr' : r ∈ (tx.writes e).magicLinks.map g := hg (tx.writes e) ▸ hr
    obtain ⟨r₀, hr₀, rfl⟩ := List.mem_map.mp hr'
    rw [hgid] at hrid
    have hconsumed := hused r₀ hr₀ hrid
    rcases hlocks r₀ with hsame | ⟨hlock, hstep⟩
    · rw [hsame]
      exact hconsumed
    -- the row is as it was when the statement was sent
    have hview : r₀ ∈ (tx.writes d).magicLinks :=
      (hJ.same _ d e (he _ (List.mem_append_right _ hlock)) (by simp) r₀ rfl).mpr hr₀
    generalize g r₀ = r' at hstep
    cases hstep with
    | same => exact hconsumed
    | consume => rfl
    | fail _ hq =>
      rcases hexpects r₀.id hq r₀ hview rfl with hunused | hlimit
      · rw [hunused] at hconsumed
        cases hconsumed
      · simp only [if_pos hlimit, Option.isSome_some]
  others tx d d' hJ hsame _ := by
    refine ⟨hJ.same, fun e he => hJ.keeps e fun l hl => ?_⟩
    exact linkRules.same_trans _ _ _ _ (hsame l hl) (he l hl)
  commits tx d hJ _ _ := hJ.keeps d fun l _ => linkRules.same_refl l d

lemma Request.usesLink_of_may (r : Request) (h : r.UsesLink) (q : Query) (hq : r.may q) :
    q.UsesLink := by
  cases r with
  | confirmMagicLink ip token =>
    rcases hq with hq | hq
    · exact .inl hq
    · exact .inr (.inr (.inr hq))
  | confirmMagicCode ip flowId code => exact .inr hq
  | _ => exact h.elim

/-- A request that uses a link keeps to the rules. -/
lemma usesLink_safe {r : Request} (h : r.UsesLink) (t : Time) (d : Database) :
    (handle app r).safe linkRules i {} t d fun _ _ _ _ => True :=
  (carries_linkTx fun q => r.usesLink_of_may h q).safe (handle_sends app r) nofun

end Links

/-! ### Any number of uses -/

abbrev ServerStep := Step ServerPool ServerAction

/-- The links on which the step counts a wrong code, as its statement sees them. -/
def countedLinks (p : ServerStep) : List MagicLink :=
  match p.action with
  | .advance i _ =>
    match p.before.procs[i]? with
    | none => []
    | some q =>
      match q.program with
      | none => []
      | some program =>
        let c := q.place.conn i p.before.db
        (program.sees c p.before.clock).flatMap fun x =>
          c.view.magicLinks.filter fun l => (x.label : Query) = .magicLinksRecordCodeFailure l.id
  | _ => []

/-- The step counts wrong codes only on links that are not used, or that it uses up. -/
def CountsUnused (p : ServerStep) : Prop := ∀ l ∈ countedLinks p, l.Countable

instance (p : ServerStep) : Decidable (CountsUnused p) :=
  inferInstanceAs (Decidable (∀ l ∈ countedLinks p, l.Countable))

lemma CountsUnused.meets {p : ServerStep} (h : CountsUnused p) : linkRules.Meets p := by
  rintro i reply haction
  refine ⟨fun _ => trivial, fun q program hq hprogram x hx id hlabel l hl hid => h l ?_⟩
  simp only [countedLinks, haction, hq, hprogram]
  refine List.mem_flatMap.mpr ⟨x, hx, List.mem_filter.mpr ⟨hl, ?_⟩⟩
  rw [hlabel, hid]
  exact decide_eq_true rfl

/-- In a run that only counts wrong codes on links that are not used, a used link stays used: its
token and its code find nothing. -/
theorem used_stays_used {app : App} {clock : Time} {d₀ : Database} {s : ServerPool}
    {steps l m : List ServerStep} {p : ServerStep} {id : Uuid}
    (hrun : (sideBySide app).Run (Pool.start clock d₀) steps s)
    (hrequests : ∀ q ∈ s.procs, q.request.UsesLink) (hcounts : ∀ q ∈ steps, CountsUnused q)
    (hsplit : steps = l ++ p :: m) (hused : p.after.db.Used id) :
    s.db.Used id ∧ ∀ now, ∀ r ∈ s.db.magicLinks, r.id = id → r.usable now = false := by
  have hsafe : ∀ i r t d, (s.procs[i]?).map Proc.request = some r →
      (handle app r).safe linkRules i {} t d fun _ _ _ _ => True := by
    intro i r t d hr
    obtain ⟨q, hq, rfl⟩ := Option.map_eq_some_iff.mp hr
    exact usesLink_safe (hrequests q (List.mem_of_getElem? hq)) t d
  have hkept := Rules.requests_of_run hrun
  subst hsplit
  obtain ⟨hl, hp, hm⟩ := hrun.around
  have hbefore : ∀ q ∈ l ++ [p], q ∈ l ++ p :: m := by
    intro q hq
    rw [← List.singleton_append, ← List.append_assoc]
    exact List.mem_append_left _ hq
  have hafter : ∀ q ∈ m, q ∈ l ++ p :: m := fun q hq =>
    List.mem_append_right _ (List.mem_cons_of_mem _ hq)
  obtain ⟨hguarded, -, -⟩ := Rules.guarded_of_run (E := fun _ _ _ _ _ _ => True)
    Rules.guarded_start (hl.snoc hp) (fun q hq => (hcounts q (hbefore q hq)).meets)
    (fun q hq => hkept q (hbefore q hq)) RowLock.conflict_comm
    (fun _ _ _ _ _ _ _ _ _ _ _ _ _ _ => trivial) fun i r t d hr _ _ => hsafe i r t d hr
  obtain ⟨-, hstep, -⟩ := Rules.guarded_of_run hguarded hm
    (fun q hq => (hcounts q (hafter q hq)).meets)
    (fun q hq => hkept q (hafter q hq)) RowLock.conflict_comm
    (fun _ _ _ _ _ _ _ _ _ _ _ _ _ _ => trivial) fun i r t d hr _ _ => hsafe i r t d hr
  have hfinal := hstep _ le_rfl id hused
  refine ⟨hfinal, fun now r hr hid => ?_⟩
  have hconsumed := hfinal r hr hid
  rw [MagicLink.usable, Option.isNone_eq_false_iff.mpr hconsumed, Bool.false_and]

section Example

/-- The server after `exampleLink`. -/
def exampleMailed : Server := (script exampleApp exampleReply .empty exampleLink).2

lemma exampleMailed_reachable : Reachable exampleApp exampleMailed := script_reachable (by decide)

/-- A wrong code and the token of the same link. -/
def exampleUses : List ServerAction :=
  [.spawn (.confirmMagicCode "ip" 0 "000000"), .spawn (.confirmMagicLink "ip" "p-iii")]

/-- The token is used after a wrong code was counted: the link stays used. -/
theorem used_stays_used_confirmed : ∃ steps s,
    (sideBySide exampleApp).Run (Pool.start exampleMailed.clock exampleMailed.db) steps s ∧
      s.db.Used 26 := by
  have hexec : (((sideBySide exampleApp).exec (Pool.start exampleMailed.clock exampleMailed.db)
      (exampleUses ++ List.replicate 8 (.advance 0 exampleReply) ++
        List.replicate 12 (.advance 1 exampleReply))).any fun r =>
      (r.2.procs.all fun p => p.request = .confirmMagicCode "ip" 0 "000000" ||
        p.request = .confirmMagicLink "ip" "p-iii") &&
      (r.1.all fun p => decide (CountsUnused p)) &&
      (r.1[20]?).any fun p => p.after.db.magicLinks.all fun l => l.consumedAt.isSome) = true := by
    decide +kernel
  obtain ⟨⟨steps, s⟩, hs, hchecks⟩ := (Option.any_eq_true _ _).mp hexec
  simp only [Bool.and_eq_true, Option.any_eq_true, List.all_eq_true, decide_eq_true_eq,
    Bool.or_eq_true] at hchecks
  obtain ⟨⟨hrequests, hcounts⟩, p, hp, hused⟩ := hchecks
  obtain ⟨l, m, hsplit⟩ := List.append_of_mem (List.mem_of_getElem? hp)
  refine ⟨steps, s, System.exec_run hs, ?_⟩
  refine (used_stays_used (System.exec_run hs) (fun q hq => ?_) hcounts hsplit
    fun l hl _ => hused l hl).1
  rcases hrequests q hq with hrequest | hrequest <;> rw [hrequest] <;> trivial

/-- The token is used between a wrong code and its count: the link is unused again. -/
theorem used_link_unused : ¬∀ (app : App) (server : Server), Reachable app server →
    ∀ steps s, (sideBySide app).Run (Pool.start server.clock server.db) steps s →
    (∀ q ∈ s.procs, q.request.UsesLink) → ∀ l p m id, steps = l ++ p :: m →
    (∃ r ∈ p.after.db.magicLinks, r.id = id) → p.after.db.Used id → s.db.Used id := by
  intro h
  have hexec : (((sideBySide exampleApp).exec (Pool.start exampleMailed.clock exampleMailed.db)
      (exampleUses ++ List.replicate 5 (.advance 0 exampleReply) ++
        List.replicate 12 (.advance 1 exampleReply) ++
        List.replicate 3 (.advance 0 exampleReply))).any fun r =>
      (r.2.procs.all fun p => p.request = .confirmMagicCode "ip" 0 "000000" ||
        p.request = .confirmMagicLink "ip" "p-iii") &&
      ((r.1[17]?).any fun p => (p.after.db.magicLinks.any fun l => l.id = 26) &&
        p.after.db.magicLinks.all fun l => l.consumedAt.isSome) &&
      r.2.db.magicLinks.any fun l => l.id = 26 && l.consumedAt.isNone) = true := by
    decide +kernel
  obtain ⟨⟨steps, s⟩, hs, hchecks⟩ := (Option.any_eq_true _ _).mp hexec
  simp only [Bool.and_eq_true, Option.any_eq_true, List.all_eq_true, List.any_eq_true,
    decide_eq_true_eq, Bool.or_eq_true] at hchecks
  obtain ⟨⟨hrequests, p, hp, hthere, hused⟩, r, hr, hid, hunused⟩ := hchecks
  obtain ⟨l, m, hsplit⟩ := List.append_of_mem (List.mem_of_getElem? hp)
  have hconsumed := h exampleApp exampleMailed exampleMailed_reachable steps s (System.exec_run hs)
    (fun q hq => ?_) l p m 26 hsplit hthere (fun l hl _ => hused l hl) r hr hid
  · rw [Option.isNone_iff_eq_none.mp hunused] at hconsumed
    cases hconsumed
  · rcases hrequests q hq with hrequest | hrequest <;> rw [hrequest] <;> trivial

end Example

end Bauth
