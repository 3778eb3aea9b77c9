import Bauth.Serial.Script
import Bauth.Alone.Outcome
import Bauth.Transition.Budget
import Mathlib.Algebra.Order.Ring.Nat

/-!
# The wrong codes of a day

`find_code_candidate` refuses an address whose links of the last day have ten failures. The day is
the one of the links, not of the guesses, and links disappear with their account: the budget of an
address is the wrong codes of the last day as long as the links they were checked against count.
-/

namespace Bauth

open Transaction Transition

/-! ### Checked codes -/

/-- The links mailed to `email` that the code of the request is checked against. -/
def Served.checkedFor (email : String) (p : Served) : List MagicLink :=
  match p.request with
  | .confirmMagicCode _ _ _ => p.before.db.magicLinks.filter fun l =>
      l.email = email && p.events.contains (.codeVerified .magicLink l.id)
  | _ => []

/-- Those for which the code is wrong. -/
def Served.wrong (app : App) (email : String) (p : Served) : List MagicLink :=
  match p.request with
  | .confirmMagicCode _ flowId code =>
    (p.checkedFor email).filter fun l => !app.verifyCode app.magicLinkKey flowId code l.codeHash
  | _ => []

/-- The wrong codes checked for `email` from `since` on and before `till`, as the links they were
checked against. -/
def wrongBetween (app : App) (email : String) (since till : Time) (steps : List Served) :
    List MagicLink :=
  (steps.filter fun p => since ≤ p.time && p.time < till).flatMap (Served.wrong app email)

/-- When a code is checked for an address, the links of the wrong codes of the last day are still
there, and were created during this day. -/
def Counted (app : App) (steps : List Served) : Prop :=
  ∀ l p m email, steps = l ++ p :: m → p.checkedFor email ≠ [] →
    ∀ q ∈ l, p.time < q.time + days 1 → ∀ x ∈ q.wrong app email,
      ∃ y ∈ p.before.db.magicLinks, y.id = x.id ∧ p.time - days 1 < y.createdAt

/-! ### What a code submission emits -/

section Alone

open Transaction.Program

variable {app : App} {env : Env sig} {process : ℕ} {d : Database}

/-- A submission checks its code against the candidate, if there is one, and records a wrong one. -/
inductive CodeTried (app : App) (now : Time) (flowId : Uuid) (code : String) (d : Database) :
    Database → List Event → Prop
  | none {d' : Database} : CodeTried app now flowId code d d' []
  | one {l : MagicLink} {d' : Database} (hl : d.Candidate flowId now l)
      (h : app.verifyCode app.magicLinkKey flowId code l.codeHash = false →
        d' = d.failLink now l.id) :
      CodeTried app now flowId code d d' [.codeVerified .magicLink l.id]

lemma confirmCode_tried (hids : d.UniqueIds) (hfresh : d.FreshUsers app process)
    (ip : String) (flowId : Uuid) (code : String) :
    Handler.wp env process (MagicLink.confirmCode app ip flowId code) ⟨d, none, []⟩
      fun _ c => CodeTried app env.now flowId code d c.db c.events := by
  simp only [MagicLink.confirmCode, wp_bind]
  refine wp_checkLimit_of ?_ fun _ => .none
  rw [wp_checkFormat]
  refine ⟨fun _ => ?_, fun _ => .none⟩
  simp only [wp_perform, wp_start]
  refine wp_findCodeCandidate (fun _ => .none) fun l hl => ?_
  have hmem := (mem_of_newestLink hl.newest).1
  simp only [wp_bind, wp_verifyCode, wp_ite, wp_runChecked, wp_run, throw_bind]
  refine ⟨fun hwrong => ?_, fun hright => ?_⟩
  · rw [MagicLinks.recordCodeFailure, wp_update hids.magicLinks]
    have hhit : (d.magicLinks.filter fun l' => decide (l'.id = l.id)).head? = some l :=
      head?_filter_eq hids.magicLinks hmem (by simp) fun l' hl' => by simpa using hl'
    simp only [Table.magicLinks, Point.view, Option.getD_some, hhit, Except.mapError, Point.write,
      wp_perform, wp_finish, wp_throw]
    exact .one hl fun _ => rfl
  · have hright : app.verifyCode app.magicLinkKey flowId code l.codeHash = true := by
      simpa using hright
    rw [MagicLinks.consumeById, wp_update hids.magicLinks]
    refine wp_logIn (v := d.consumeLinkById env.now l.id) ?_ hfresh
      (fun e w => .one hl ?_) fun response w hlogin => .one hl ?_
    · refine { hids with magicLinks := ?_ }
      simp only [Database.consumeLinkById]
      rw [map_updateWhere]
      · exact hids.magicLinks
      · exact fun _ => rfl
    all_goals
      intro hwrong
      cases hright.symm.trans hwrong

end Alone

section Steps

variable {app : App} {p : Served} {email : String}

/-- A request checks its code against one link of an address at most, and records a wrong one. -/
lemma checked_cases (hp : p.Of app) (huuid : Function.Injective app.uuid)
    (hs : p.before.db.Keyed app p.before.served 0) (email : String) :
    p.checkedFor email = [] ∨ ∃ x flowId, p.before.db.Candidate flowId p.time x ∧
      x.email = email ∧ p.checkedFor email = [x] ∧
      (p.wrong app email = [] ∨
        p.wrong app email = [x] ∧ p.after.db = p.before.db.failLink p.time x.id) := by
  cases hrequest : p.request with
  | confirmMagicCode ip flowId code =>
    have hfresh : p.before.db.FreshUsers app p.before.served := fun i h =>
      not_drawn huuid (Nat.zero_le i) (hs.users.drawn _ h)
    have htried : CodeTried app p.time flowId code p.before.db
        (serve app p.time p.reply (.confirmMagicCode ip flowId code) p.before).after.db
        (serve app p.time p.reply (.confirmMagicCode ip flowId code) p.before).events :=
      serve_wp (Q := fun _ db events => CodeTried app p.time flowId code p.before.db db events)
        ((wp_apiRoute _ _).mpr (confirmCode_tried hs.uniqueIds hfresh ip flowId code))
    rw [← hrequest, ← hp.serve] at htried
    have hchecked : p.checkedFor email = p.before.db.magicLinks.filter fun l =>
        l.email = email && p.events.contains (.codeVerified .magicLink l.id) := by
      rw [Served.checkedFor, hrequest]
    have hwrong : p.wrong app email = (p.checkedFor email).filter fun l =>
        !app.verifyCode app.magicLinkKey flowId code l.codeHash := by
      rw [Served.wrong, hrequest]
    generalize p.after.db = d' at htried
    generalize p.events = events at htried hchecked
    cases htried with
    | none => exact .inl (by simp [hchecked])
    | @one x _ hx hfail =>
      have hmem := (mem_of_newestLink hx.newest).1
      by_cases hemail : x.email = email
      · have hsingle : p.checkedFor email = [x] := by
          rw [hchecked]
          refine filter_eq_singleton hs.uniqueIds.magicLinks hmem (by simp [hemail]) ?_
          intro r' _ hr'
          simpa using (Bool.and_eq_true_iff.mp hr').2
        refine .inr ⟨x, flowId, hx, hemail, hsingle, ?_⟩
        rw [hwrong, hsingle]
        cases hverify : app.verifyCode app.magicLinkKey flowId code x.codeHash with
        | true => exact .inl (by simp [hverify])
        | false => exact .inr ⟨by simp [hverify], hfail hverify⟩
      · left
        rw [hchecked, List.filter_eq_nil_iff]
        intro l hl hboth
        rw [Bool.and_eq_true_iff] at hboth
        have hid : l.id = x.id := by simpa using hboth.2
        obtain rfl := List.inj_on_of_nodup_map hs.uniqueIds.magicLinks hl hmem hid
        exact hemail (of_decide_eq_true hboth.1)
  | _ => exact .inl (by rw [Served.checkedFor, hrequest])

lemma mem_wrong {x : MagicLink} (h : x ∈ p.wrong app email) :
    x ∈ p.checkedFor email ∧ x ∈ p.before.db.magicLinks ∧ x.email = email := by
  have hchecked : x ∈ p.checkedFor email := by
    unfold Served.wrong at h
    split at h
    · exact List.mem_of_mem_filter h
    · cases h
  refine ⟨hchecked, ?_⟩
  unfold Served.checkedFor at hchecked
  split at hchecked
  · obtain ⟨hx, hboth⟩ := List.mem_filter.mp hchecked
    exact ⟨hx, of_decide_eq_true (Bool.and_eq_true_iff.mp hboth).1⟩
  · cases hchecked

lemma wrong_eq_nil (h : p.checkedFor email = []) : p.wrong app email = [] := by
  refine List.eq_nil_iff_forall_not_mem.mpr fun x hx => ?_
  have hmem := (mem_wrong hx).1
  rw [h] at hmem
  cases hmem

/-- A link after a step is one from before, with the failures it had at least, or a new one. -/
lemma link_of_step (hp : p.Of app) {y : MagicLink} (hy : y ∈ p.after.db.magicLinks) :
    (∃ x ∈ p.before.db.magicLinks, x.id = y.id ∧ x.email = y.email ∧
      x.codeFailures ≤ y.codeFailures) ∨ ∃ i, y.id = app.uuid ⟨p.before.served, i⟩ := by
  rw [hp.serve] at hy
  obtain ⟨k, hk⟩ := @serve_keeps app p.time p.reply p.request p.before
    (fun _ d => ∀ y ∈ d.magicLinks, (∃ x ∈ p.before.db.magicLinks, x.id = y.id ∧
      x.email = y.email ∧ x.codeFailures ≤ y.codeFailures) ∨
        ∃ i, y.id = app.uuid ⟨p.before.served, i⟩)
    (fun _ _ h => h) (fun q k d d' _ h hd => by
      refine hd.magicLinks.forall_mem h ?_ fun r hr => .inr ⟨k, hr.2.1⟩
      rintro r r' hr hstep
      cases hstep with
      | same => exact hr
      | consume => exact hr
      | fail =>
        rcases hr with ⟨x, hx, hid, hemail, hle⟩ | hnew
        · exact .inl ⟨x, hx, hid, hemail, hle.trans (Nat.le_succ _)⟩
        · exact .inr hnew) fun y hy => .inl ⟨y, hy, rfl, rfl, le_rfl⟩
  exact hk y hy

/-- The links that the wrong codes of a request are checked against. -/
def Served.wrongLinks (app : App) (email : String) (p : Served) : List Uuid :=
  (p.wrong app email).map MagicLink.id

/-- The links of a state have counted the wrong codes before it. -/
lemma links_count (huuid : Function.Injective app.uuid) (email : String) :
    Counts (fun s => s.db.magicLinks) MagicLink.id MagicLink.codeFailures
      (fun s k => Server.HasDrawn app k s) Served.before Served.after (Served.Taken app)
      (Served.wrongLinks app email) where
  row p hp y hy := by
    have hkept := link_of_step hp.1 hy
    have hnil : p.wrong app email = [] → (∃ x ∈ p.before.db.magicLinks, x.id = y.id ∧
        x.codeFailures + (p.wrongLinks app email).count y.id ≤ y.codeFailures) ∨
        ¬Server.HasDrawn app y.id p.before := by
      intro hnil
      rcases hkept with ⟨x, hx, hid, -, hle⟩ | ⟨i, hi⟩
      · exact .inl ⟨x, hx, hid, by simpa [Served.wrongLinks, hnil] using hle⟩
      · right
        rw [Server.HasDrawn, hi]
        exact not_drawn huuid (Nat.zero_le i)
    rcases checked_cases hp.1 huuid (hp.2.keyed huuid) email with
      hnone | ⟨x, flowId, hx, -, -, hwrong | ⟨hwrong, hafter⟩⟩
    · exact hnil (wrong_eq_nil hnone)
    · exact hnil hwrong
    · -- the recorded failure
      rw [hafter] at hy
      obtain ⟨x₀, hx₀, rfl⟩ := mem_updateWhere.mp hy
      left
      refine ⟨x₀, hx₀, ?_⟩
      rw [Served.wrongLinks, hwrong]
      by_cases hid : x₀.id = x.id
      · simp [hid]
      · simp [hid, Ne.symm hid]
  spent p hp k hk := by
    obtain ⟨x, hx, rfl⟩ := List.mem_map.mp hk
    exact (hp.2.keyed huuid).magicLinks.drawn _ (List.mem_map_of_mem (mem_wrong hx).2.1)
  stays p hp k hk := hp.1.hasDrawn hk

end Steps

/-! ### Runs -/

section Runs

variable {app : App} {s : Server} {clock : Time} {steps : List Served} {email : String}

/-- What a wrong code was checked against has the address it was mailed to. -/
lemma Run.mailed_of_wrong (huuid : Function.Injective app.uuid)
    (hrun : Run app { db := {}, served := 0, clock } steps s) {y x : MagicLink}
    (hy : y ∈ s.db.magicLinks) {q : Served} (hq : q ∈ steps) (hx : x ∈ q.wrong app email)
    (hid : y.id = x.id) : y.email = email := by
  induction hrun generalizing y with
  | nil => cases hq
  | @snoc steps s' hrun time reply request hclock ih =>
    have hreach : Reachable app s' := ⟨clock, steps, hrun⟩
    have hp : (serve app time reply request s').Taken app := ⟨⟨rfl, hclock⟩, hreach⟩
    have hbefore : (serve app time reply request s').before = s' := rfl
    generalize serve app time reply request s' = p at hp hbefore hy hq
    subst hbefore
    rcases link_of_step hp.1 hy with ⟨y₀, hy₀, hid₀, hemail, -⟩ | ⟨i, hi⟩
    · rw [← hemail]
      rcases List.mem_append.mp hq with hq | hq
      · exact ih hy₀ hq (hid₀.trans hid)
      · obtain rfl := List.mem_singleton.mp hq
        obtain ⟨-, hmem, hx'⟩ := mem_wrong hx
        rw [← hx', List.inj_on_of_nodup_map (hreach.keyed huuid).magicLinks.nodup hy₀ hmem
          (hid₀.trans hid)]
    · -- a new link has no wrong codes yet
      have hdrawn : Server.HasDrawn app x.id p.before := by
        rcases List.mem_append.mp hq with hq | hq
        · have hspent := (hrun.path (.start app clock)).counted_le (links_count huuid email)
          exact hspent.1 _ (List.mem_flatMap.mpr ⟨q, hq, List.mem_map_of_mem hx⟩)
        · obtain rfl := List.mem_singleton.mp hq
          exact (links_count huuid email).spent q hp _ (List.mem_map_of_mem hx)
      rw [Server.HasDrawn, ← hid, hi] at hdrawn
      exact absurd hdrawn (not_drawn huuid (Nat.zero_le i))

lemma length_wrongLinks (l : List Served) :
    (l.flatMap (Served.wrongLinks app email)).length =
      (l.flatMap (Served.wrong app email)).length := by
  have hmap : l.flatMap (Served.wrongLinks app email) =
      (l.flatMap (Served.wrong app email)).map MagicLink.id := by
    rw [List.map_flatMap]
    rfl
  rw [hmap, List.length_map]

/-- At most ten wrong codes are checked for an address in any period of 24 hours, and none once
ten were checked during the last 24 hours, as long as the links they were checked against count. -/
theorem wrong_codes_capped (huuid : Function.Injective app.uuid)
    (hrun : Run app { db := {}, served := 0, clock } steps s) (hcounted : Counted app steps)
    (email : String) :
    (∀ since, (wrongBetween app email since (since + days 1) steps).length ≤ maxFailuresPerDay) ∧
      ∀ l p m, steps = l ++ p :: m → p.checkedFor email ≠ [] →
        ((l.filter fun q => p.time < q.time + days 1).flatMap (Served.wrong app email)).length <
          maxFailuresPerDay := by
  -- the links that a code is checked for have counted the wrong codes of the last day
  have hlast : ∀ l p m, steps = l ++ p :: m → p.checkedFor email ≠ [] →
      ((l.filter fun q => p.time < q.time + days 1).flatMap
        (Served.wrongLinks app email)).length < maxFailuresPerDay := by
    rintro l p m rfl hchecked
    obtain ⟨hl, hp, -⟩ := hrun.around
    rcases checked_cases hp huuid (Reachable.keyed huuid ⟨clock, l, hl⟩) email with
      hnone | ⟨x, flowId, hx, hemail, -⟩
    · exact absurd hnone hchecked
    have hbudget := hx.budget
    rw [hemail, Database.linkFailures] at hbudget
    refine (hl.path (.start app clock)).spent_lt
      (fun p y => y.email = email && p.time - days 1 < y.createdAt) (links_count huuid email)
      hbudget fun q hq htime k hk => ?_
    obtain ⟨z, hz, rfl⟩ := List.mem_map.mp hk
    obtain ⟨y, hy, hid, hcreated⟩ := hcounted l p m email rfl hchecked q hq htime z hz
    exact ⟨y, hy, hid, by simp [hl.mailed_of_wrong huuid hy hq hz hid, hcreated]⟩
  constructor
  · intro since
    rw [wrongBetween, ← length_wrongLinks]
    refine spentBetween_le (fun p hp => ?_)
      (fun l p m hsplit hspends => hlast l p m hsplit fun hnone => hspends ?_) since
    · obtain ⟨l, m, -, hl, hof, -⟩ := hrun.before hp
      rcases checked_cases hof huuid (Reachable.keyed huuid ⟨clock, l, hl⟩) email with
        hnone | ⟨x, flowId, -, -, -, hwrong | ⟨hwrong, -⟩⟩
      · simp [Served.wrongLinks, wrong_eq_nil hnone]
      · simp [Served.wrongLinks, hwrong]
      · simp [Served.wrongLinks, hwrong]
    · rw [Served.wrongLinks, wrong_eq_nil hnone]
      rfl
  · intro l p m hsplit hchecked
    rw [← length_wrongLinks]
    exact hlast l p m hsplit hchecked

end Runs

section Example

/-- Wrong codes typed on a flow. -/
def guesses (time : Time) (flowId : Uuid) (count : ℕ) : List (Time × Request) :=
  List.replicate count (time, .confirmMagicCode "ip" flowId "999999")

def startFlow (time : Time) : Time × Request :=
  (time, .createFlow {
    clientId := "app", redirectUri := "https://app/cb", codeChallenge := exampleChallenge
    codeChallengeMethod := "S256", state := none })

/-- Ten wrong codes, late on two links, and one more on a new link as soon as the day of these
links is over. -/
def exampleGuesses : List (Time × Request) :=
  [startFlow 0, startFlow 0, (0, .requestMagicLink "ip" 0 "bob@x.fr"),
    (0, .requestMagicLink "ip" 2 "bob@x.fr")] ++
  guesses (minutes 14) 0 5 ++ guesses (minutes 14) 2 5 ++
  [startFlow (days 1), (days 1, .requestMagicLink "ip" 210 "bob@x.fr")] ++
  guesses (days 1) 210 1

/-- Serving a script is a run of the example server. -/
lemma example_script (requests : List (Time × Request)) (h : InOrder 0 requests) :
    Run exampleApp Server.empty (script exampleApp exampleReply Server.empty requests).1
      (script exampleApp exampleReply Server.empty requests).2 :=
  script_run h

/-- Eleven wrong codes can be checked for one address in less than 24 hours. -/
theorem wrong_codes_exceeded :
    ¬∀ (steps : List Served) (s : Server) (email : String) (since : Time),
      Run exampleApp Server.empty steps s →
        (wrongBetween exampleApp email since (since + days 1) steps).length ≤ maxFailuresPerDay := by
  intro h
  have hle := h _ _ "bob@x.fr" (minutes 14) (example_script exampleGuesses (by decide))
  revert hle
  decide +kernel

/-- Decided on the states before the steps of a run. -/
lemma counted_of_rows {app : App} {steps : List Served}
    (h : ∀ i ∈ List.range steps.length, ∀ p ∈ steps[i]?, ∀ q ∈ steps.take i,
      ∀ x ∈ q.before.db.magicLinks,
      p.time < q.time + days 1 → x ∈ q.wrong app x.email →
        ∃ y ∈ p.before.db.magicLinks, y.id = x.id ∧ p.time - days 1 < y.createdAt) :
    Counted app steps := by
  rintro l p m email rfl - q hq htime x hx
  obtain ⟨-, hmem, hemail⟩ := mem_wrong hx
  exact h l.length (by simp) p (by simp) q (by simpa using hq) x hmem htime (hemail ▸ hx)

/-- Ten wrong codes on two links, one more on a third link, and one on a fourth link when the day is
over. -/
def exampleRefused : List (Time × Request) :=
  [startFlow 0, startFlow 0, (0, .requestMagicLink "ip" 0 "bob@x.fr"),
    (0, .requestMagicLink "ip" 2 "bob@x.fr")] ++
  guesses (minutes 13) 0 5 ++ guesses (minutes 14) 2 5 ++
  [startFlow (minutes 15), (minutes 15, .requestMagicLink "ip" 210 "bob@x.fr")] ++
  guesses (minutes 15) 210 1 ++
  [startFlow (days 1 + minutes 14), (days 1 + minutes 14, .requestMagicLink "ip" 306 "bob@x.fr")] ++
  guesses (days 1 + minutes 14) 306 1

/-- The cap refuses the code on the third link, and lets the one on the fourth link through. -/
theorem wrong_codes_capped_refused :
    ∃ l p m s, Run exampleApp Server.empty (l ++ p :: m) s ∧
      (∀ since, (wrongBetween exampleApp "bob@x.fr" since (since + days 1) (l ++ p :: m)).length ≤
        maxFailuresPerDay) ∧
      (wrongBetween exampleApp "bob@x.fr" 0 (days 1) (l ++ p :: m)).length = maxFailuresPerDay ∧
      p.request = .confirmMagicCode "ip" 210 "999999" ∧ p.checkedFor "bob@x.fr" = [] ∧
      (wrongBetween exampleApp "bob@x.fr" (days 1) (days 2) (l ++ p :: m)).length = 1 := by
  have hrun := example_script exampleRefused (by decide)
  have hcounted : Counted exampleApp (script exampleApp exampleReply .empty exampleRefused).1 :=
    counted_of_rows (by decide +kernel)
  have hchecks : ((script exampleApp exampleReply .empty exampleRefused).1[16]?.any
      fun p : Served => p.request = .confirmMagicCode "ip" 210 "999999" &&
        ((((script exampleApp exampleReply .empty exampleRefused).1.take 16).filter fun q =>
          p.time < q.time + days 1).flatMap (Served.wrong exampleApp "bob@x.fr")).length = 10) =
      true := by
    decide +kernel
  have hcounts : (wrongBetween exampleApp "bob@x.fr" 0 (days 1)
        (script exampleApp exampleReply .empty exampleRefused).1).length = maxFailuresPerDay ∧
      (wrongBetween exampleApp "bob@x.fr" (days 1) (days 2)
        (script exampleApp exampleReply .empty exampleRefused).1).length = 1 := by
    decide +kernel
  generalize script exampleApp exampleReply .empty exampleRefused = r at *
  obtain ⟨p, hp, hchecks⟩ := (Option.any_eq_true _ _).mp hchecks
  simp only [Bool.and_eq_true, decide_eq_true_eq] at hchecks
  obtain ⟨hrequest, hten⟩ := hchecks
  have hsplit : r.1 = r.1.take 16 ++ p :: r.1.drop 17 := by
    obtain ⟨hlt, rfl⟩ := List.getElem?_eq_some_iff.mp hp
    rw [List.getElem_cons_drop, List.take_append_drop]
  obtain ⟨hday, hlast⟩ :=
    wrong_codes_capped exampleApp_uuid_injective hrun hcounted "bob@x.fr"
  have hrefused : p.checkedFor "bob@x.fr" = [] := by
    by_contra hchecked
    have hlt := hlast _ p _ hsplit hchecked
    rw [hten] at hlt
    exact absurd hlt (by decide)
  rw [hsplit] at hrun hday hcounts
  exact ⟨_, p, _, r.2, hrun, hday, hcounts.1, hrequest, hrefused, hcounts.2⟩

end Example

end Bauth
