import Bauth.Concurrent.Purge
import Bauth.Concurrent.Rows

/-!
# Between a selection and its deletions

A batch of the purge deletes the accounts that its `SELECT` found unverified. Where no login
commits the verification of one of them before the `DELETE` has the lock of its row, a verified
account stays, with its codes and sessions.
-/

namespace Bauth

open Transaction Transition

/-- A statement as a step sends it: who sends it, what it sees, and what it locks. -/
structure Sending where
  process : ℕ
  label : Query
  now : Time
  view : Database
  locks : List RowLock

/-- The statement of the step, if it sends one. -/
def sending (p : PartyStep) : Option Sending :=
  match p.action with
  | .advance i _ =>
    match p.before.procs[i]? with
    | none => none
    | some q =>
      match q.program with
      | some (.stmt st _) =>
        let c := q.place.conn i p.before.db
        some ⟨i, st.label, c.now p.before.clock, c.view, st.locks (c.now p.before.clock) c.view⟩
      | _ => none
  | _ => none

/-- The accounts that the `SELECT` of a batch finds in `d`. -/
def Database.neverVerified (d : Database) (now : Time) : List Uuid :=
  ((d.users.filter fun u => u.emailVerifiedAt.isNone && u.createdAt < now - days 7).map
    User.id).take Purge.batchSize

/-- The accounts that the statement selects, if it is the `SELECT` of a batch. -/
def Sending.selects (x : Sending) : List Uuid :=
  if x.label = .purgeSelect then x.view.neverVerified x.now else []

/-- The accounts that the `DELETE` of a batch has the lock of. -/
def Sending.deletes (x : Sending) : List Uuid :=
  if x.label = .purgeDelete then
    x.locks.filterMap fun l =>
      match l with
      | (.user id, .update) => some id
      | _ => none
  else []

/-- The step commits the verification of the account. -/
def Verifies (p : PartyStep) (id : Uuid) : Prop :=
  ¬p.before.db.IsVerified id ∧ p.after.db.IsVerified id

/-- No step commits the verification of an account that a batch selected, before the batch's
`DELETE` has the lock of its row. -/
def QuietBatches (steps : List PartyStep) : Prop :=
  ∀ l p m q n, steps = l ++ p :: (m ++ q :: n) → ∀ x y, sending p = some x → sending q = some y →
    x.process = y.process → ∀ id ∈ x.selects, id ∈ y.deletes → ∀ r ∈ m, ¬Verifies r id

/-! ### Identifiers -/

section Keys

variable {app : App} {clock : Time} {d₀ : Database} {s : PartyPool} {steps : List PartyStep}

/-- The identifiers of the accounts are distinct: those there at the start, and drawn ones. -/
structure UserIds (app : App) (d₀ : Database) (used : ℕ → ℕ) (d : Database) : Prop where
  nodup : (d.users.map User.id).Nodup
  known : ∀ id ∈ d.users.map User.id, id ∈ d₀.users.map User.id ∨
    ∃ n : Draw, app.uuid n = id ∧ n.index < used n.process

lemma userIds_invariant (huuid : Function.Injective app.uuid)
    (hnew : ∀ n, app.uuid n ∉ d₀.users.map User.id) :
    DrawInvariant (rowStep app) (UserIds app d₀) where
  mono used used' d hused h := by
    refine ⟨h.nodup, fun id hid => (h.known id hid).imp_right ?_⟩
    rintro ⟨n, hn, hlt⟩
    exact ⟨n, hn, hlt.trans_le (hused _)⟩
  step := by
    rintro used i k d d' hk ⟨q, now, hd⟩ h
    have hfree : app.uuid ⟨i, k⟩ ∉ d.users.map User.id := by
      intro hmem
      rcases h.known _ hmem with hold | ⟨n, hn, hlt⟩
      · exact hnew _ hold
      · obtain rfl := huuid hn
        exact absurd hlt (not_lt.mpr hk)
    have hid : ∀ u u', User.Step q now u u' → u'.id = u.id := by
      intro u u' hu
      cases hu <;> rfl
    have hdrawn : ∀ u, User.New app q now ⟨i, k⟩ u → u.id = app.uuid ⟨i, k⟩ := by
      rintro u ⟨-, email, rfl⟩
      rfl
    refine ⟨hd.users.nodup User.id hid (fun u hu => hdrawn u hu ▸ hfree) h.nodup, fun x hx => ?_⟩
    obtain ⟨u, hu, rfl⟩ := List.mem_map.mp hx
    rcases hd.users.mem hu with ⟨u₀, hu₀, hstep⟩ | hu
    · rw [hid _ _ hstep]
      refine (h.known _ (List.mem_map_of_mem hu₀)).imp_right ?_
      rintro ⟨n, hn, hlt⟩
      exact ⟨n, hn, hlt.trans_le (le_update (hk.trans (Nat.le_succ k)) _)⟩
    · refine .inr ⟨⟨i, k⟩, (hdrawn u hu).symm, ?_⟩
      rw [Function.update_self]
      exact Nat.lt_succ_self k

lemma party_sentByAny (app : App) (x : Party) :
    (x.handle app).Sends (fun {_} st => SentByAny app st) fun _ => True := by
  cases x with
  | request r => exact handle_sentByAny app r
  | unverifiedUsers fuel =>
    simp only [Party.handle, Program.sends_bind]
    refine ((unverifiedUsers_ofBatch fuel 0).imp fun _ h => ⟨fun _ => True, ?_⟩).mono
      fun _ _ => trivial
    cases h with
    | select q read => exact .select q read
    | delete id => exact .purgeUser trivial _ id

lemma users_nodup (huuid : Function.Injective app.uuid) (hids : (d₀.users.map User.id).Nodup)
    (hnew : ∀ n, app.uuid n ∉ d₀.users.map User.id)
    (hrun : (besidePurge app).Run (Pool.start clock d₀) steps s) :
    (s.db.users.map User.id).Nodup := by
  obtain ⟨used, -, -, h⟩ := filed_of_run (K := UserIds app d₀) hrun filed_start
    (fun _ h now n v d => h.rowStep now n v d) (party_sentByAny app)
    (userIds_invariant huuid hnew) ⟨hids, fun _ h => .inl h⟩
  exact h.nodup

variable {d v : Database} {id : Uuid}

lemma account_eq_some (h : (d.users.map User.id).Nodup) {u : User} (hu : u ∈ d.users) :
    d.account u.id = some u := (find?_key_iff h).mpr ⟨hu, rfl⟩

/-- What deletes accounts verifies none. -/
lemma isVerified_of_sublist (h : (d.users.map User.id).Nodup) (hsub : v.users.Sublist d.users)
    (hv : v.IsVerified id) : d.IsVerified id := by
  obtain ⟨u, hu, hverified⟩ := hv
  obtain rfl : u.id = id := by simpa using List.find?_some hu
  exact ⟨u, account_eq_some h (hsub.subset (List.mem_of_find?_eq_some hu)), hverified⟩

end Keys

/-! ### Batches -/

section Batches

/-- What is left of the batches of a process, whose last `SELECT` found `ids`. -/
inductive Batched : List Uuid → Program sig Response → Prop
  | ret {ids : List Uuid} (a : Response) : Batched ids (.ret a)
  | begin {ids : List Uuid} {k : Program sig Response} (h : Batched ids k) : Batched ids (.begin k)
  | commit {ids : List Uuid} {k : Program sig Response} (h : Batched ids k) :
      Batched ids (.commit k)
  | select {ids : List Uuid} {k : List Uuid → Program sig Response}
      (h : ∀ found, Batched found (k found)) :
      Batched ids (.stmt (.select .purgeSelect fun now (d : Database) => d.neverVerified now) k)
  | delete {ids : List Uuid} {id : Uuid} {k : Bool → Program sig Response} (hid : id ∈ ids)
      (h : ∀ deleted, Batched ids (k deleted)) :
      Batched ids (.stmt (Purge.deleteRow (fun d id => d.users.any fun u => u.id = id)
        (fun id => Database.deleteUsers fun u => u.id = id) id) k)

lemma batched_deleteEach {ids all : List Uuid} {k : ℕ → Program sig Response}
    (hids : ∀ id ∈ ids, id ∈ all) (hk : ∀ n, Batched all (k n)) :
    Batched all (Purge.deleteEach (fun d id => d.users.any fun u => u.id = id)
      (fun id => Database.deleteUsers fun u => u.id = id) ids >>= k) := by
  induction ids generalizing k with
  | nil => exact hk 0
  | cons id ids ih =>
    refine .delete (hids id List.mem_cons_self) fun deleted => ?_
    change Batched all (Purge.deleteEach _ _ ids >>= _ >>= k)
    rw [Program.bind_assoc]
    exact ih (fun id hid => hids id (List.mem_cons_of_mem _ hid)) fun n => hk _

lemma batched_inBatches (fuel total : ℕ) (ids : List Uuid) {k : Option ℕ → Program sig Response}
    (hk : ∀ ids r, Batched ids (k r)) :
    Batched ids (Purge.inBatches Purge.unverifiedUsers fuel total >>= k) := by
  induction fuel generalizing total ids with
  | zero => exact hk _ _
  | succ fuel ih =>
    refine .begin (.select fun found => ?_)
    change Batched found (Purge.deleteEach _ _ found >>= _ >>= _ >>= k)
    rw [Program.bind_assoc, Program.bind_assoc]
    refine batched_deleteEach (fun _ h => h) fun deleted => .commit ?_
    change Batched found ((if deleted < Purge.batchSize then _ else _) >>= k)
    split_ifs
    · exact hk _ _
    · exact ih _ _

variable {app : App} {clock : Time} {d₀ : Database} {l : List PartyStep} {i : ℕ} {ids : List Uuid}
  {program : Program sig Response} {L : Place sig}

/-- Where the batches of a process stand: its transaction only deletes, and it still has the
accounts to delete that its last `SELECT` found, none of them verified then. -/
structure Standing (l : List PartyStep) (i : ℕ) (program : Program sig Response) (L : Place sig)
    (ids : List Uuid) : Prop where
  batched : Batched ids program
  narrows : ∀ tx, L.tx = some tx → ∀ d : Database, (tx.writes d).users.Sublist d.users
  selected : ∀ id ∈ ids, ∃ a p b x, l = a ++ p :: b ∧ sending p = some x ∧ x.process = i ∧
    id ∈ x.selects ∧ ¬p.after.db.IsVerified id

lemma Standing.others (h : Standing l i program L ids) (x : PartyStep) :
    Standing (l ++ [x]) i program L ids := by
  refine ⟨h.batched, h.narrows, fun id hid => ?_⟩
  obtain ⟨a, p, b, y, rfl, hy⟩ := h.selected id hid
  exact ⟨a, p, b ++ [x], y, by simp, hy⟩

/-- The statement that a step sends. -/
lemma sending_eq {p : PartyStep} {reply : (q : sig.Question) → sig.Reply q}
    {q : Proc sig Party Response} {β : Type} {st : Statement sig β} {k : β → Program sig Response}
    (haction : p.action = .advance i reply) (hi : p.before.procs[i]? = some q)
    (hq : q.program = some (.stmt st k)) :
    sending p = some ⟨i, st.label, (q.place.conn i p.before.db).now p.before.clock,
      (q.place.conn i p.before.db).view,
      st.locks ((q.place.conn i p.before.db).now p.before.clock)
        (q.place.conn i p.before.db).view⟩ := by
  simp only [sending, haction, hi, hq]

lemma view_sublist {q : Place sig} {d : Database}
    (h : ∀ tx, q.tx = some tx → ∀ d : Database, (tx.writes d).users.Sublist d.users) :
    (q.conn i d).view.users.Sublist d.users := by
  cases htx : q.tx with
  | none => simp [Place.conn, Program.Conn.view, htx]
  | some tx => simpa [Place.conn, Program.Conn.view, htx] using h tx htx d

/-- An operation of the batches, which leaves them standing. -/
lemma Standing.next (h : Standing l i program L ids) {x : PartyStep}
    {reply : (q : sig.Question) → sig.Reply q} {q : Proc sig Party Response}
    (hids : (x.before.db.users.map User.id).Nodup) (haction : x.action = .advance i reply)
    (hi : x.before.procs[i]? = some q) (hq : q.program = some program) (hL : q.place = L)
    (hafter : x.after = x.before.operate i reply q program) :
    ∃ ids', Standing (l ++ [x]) i
      (program.next ⟨x.before.clock, x.before.clock, reply⟩ (L.conn i x.before.db)).1
      { L.after (program.next ⟨x.before.clock, x.before.clock, reply⟩
          (L.conn i x.before.db)).2 with
        sights := L.sights ++ program.sees (L.conn i x.before.db) x.before.clock } ids' := by
  subst hL
  have hothers := (h.others x).selected
  cases h.batched with
  | ret a => exact ⟨ids, .ret a, nofun, hothers⟩
  | begin hk =>
    refine ⟨ids, hk, ?_, hothers⟩
    rintro tx ⟨⟩ d
    exact List.Sublist.refl _
  | commit hk => exact ⟨ids, hk, nofun, hothers⟩
  | select hk =>
    refine ⟨_, hk _, ?_, fun id hid => ⟨l, x, [], _, rfl, sending_eq haction hi hq, rfl, ?_⟩⟩
    · simp only [Program.next, Program.Conn.send_select]
      exact h.narrows
    · have hdb : x.after.db = x.before.db := by
        rw [hafter]
        simp only [Pool.operate, Pool.set, Program.next, Program.Conn.send_select]
        rfl
      simp only [Program.Conn.send_select] at hid
      refine ⟨by simpa only [Sending.selects, Statement.select, if_pos] using hid, ?_⟩
      obtain ⟨u, hu, rfl⟩ := List.mem_map.mp (List.mem_of_mem_take hid)
      obtain ⟨hu, hold⟩ := List.mem_filter.mp hu
      rw [hdb]
      rintro ⟨u', hu', hverified⟩
      rw [account_eq_some hids ((view_sublist h.narrows).subset hu)] at hu'
      obtain rfl := Option.some.inj hu'
      rw [Bool.and_eq_true, Option.isNone_iff_eq_none] at hold
      rw [hold.1] at hverified
      cases hverified
  | @delete _ id k hid hk =>
    refine ⟨ids, hk _, fun tx htx d => ?_, hothers⟩
    cases hold : q.place.tx with
    | none => simp [Program.next, Place.after, Program.Conn.send, Program.Conn.write, Place.conn, hold] at htx
    | some tx' =>
      have hsub := h.narrows tx' hold d
      simp only [Program.next, Place.after, Program.Conn.send, Program.Conn.write, Place.conn, hold,
        Option.some.injEq] at htx
      rw [← htx]
      refine .trans ?_ hsub
      exact Purge.deleteRow_cases (P := fun d' => d'.users.Sublist (tx'.writes d).users)
        List.filter_sublist (List.Sublist.refl _)

/-- What each party does: a request purges nothing, and batches stand as they should. -/
def Party.Stands (l : List PartyStep) (i : ℕ) : Party → Program sig Response → Place sig → Prop
  | .request r, program, _ => (Party.request r).OnlyUnverified →
    program.Sends (fun {_} st => (st.label : Query) = .purgeDelete → ∀ now d, st.locks now d = [])
      fun _ => True
  | .unverifiedUsers _, program, L => ∃ ids, Standing l i program L ids

variable {s s' : PartyPool} {m steps : List PartyStep}

/-- A request locks no row to purge it. -/
lemma Sent.locks_eq_nil {app : App} {may : Query → Prop} {β : Type} {st : Statement sig β}
    (h : Sent app may st) (hmay : ¬may .purgeDelete) (hlabel : st.label = .purgeDelete) (now : Time)
    (d : Database) : st.locks now d = [] := by
  cases h with
  | select q read => rfl
  | sessionsRevokeWhere q hq h p =>
    obtain rfl : q = .purgeDelete := hlabel
    exact absurd h hmay
  | purgeLoginFlow h | purgeEmailChange h | purgeConfirmation h | purgeSession h | purgeUser h
  | purgeSigningKeys h => exact absurd h hmay
  | _ => cases hlabel

lemma stands_handle (app : App) (x : Party) : x.Stands l i (x.handle app) {} := by
  cases x with
  | request r =>
    intro honly
    refine (handle_sends app r).imp fun {_} st hst => hst.locks_eq_nil fun hmay => ?_
    exact (r.keepsRows_of_may honly _ hmay).2 rfl
  | unverifiedUsers fuel =>
    refine ⟨[], batched_inBatches fuel 0 [] fun _ _ => .ret _, nofun, nofun⟩

/-- Whatever a pool interleaves, its parties stand as they should. -/
lemma stands_of_run (huuid : Function.Injective app.uuid) (hids : (d₀.users.map User.id).Nodup)
    (hnew : ∀ n, app.uuid n ∉ d₀.users.map User.id)
    (hrun : (besidePurge app).Run (Pool.start clock d₀) steps s) :
    ∀ (i : ℕ) (q : Proc sig Party Response) program, s.procs[i]? = some q →
      q.program = some program → q.request.Stands steps i program q.place := by
  refine Rules.programs_of_run (P := fun l i r program L => Party.Stands l i r program L) hrun
    (fun l i x => stands_handle app x) ?_ ?_
  · intro l x i r program L h
    cases r with
    | request r => exact h
    | unverifiedUsers fuel =>
      obtain ⟨ids, h⟩ := h
      exact ⟨ids, h.others x⟩
  · intro l x i reply q program hl haction hi hq hafter h
    cases hrequest : q.request with
    | request r =>
      rw [hrequest] at h
      exact fun honly => (h honly).next _ _
    | unverifiedUsers fuel =>
      rw [hrequest] at h
      obtain ⟨ids, h⟩ := h
      exact h.next (users_nodup huuid hids hnew hl) haction hi hq rfl hafter

/-- The only account a `DELETE` locks is the one it deletes. -/
lemma eq_of_mem_lost {v : Database} {id id' : Uuid}
    (h : (.user id', .update) ∈ v.lost (v.deleteUsers fun u => u.id = id)) : id' = id := by
  simp only [Database.lost, List.mem_append] at h
  have hrows : ∀ {ρ : Type} [DecidableEq ρ] {lock : ρ → Locked} {rows rows' : List ρ},
      (.user id', .update) ∈ Database.lostRows lock rows rows' →
        ∃ r ∈ rows, r ∉ rows' ∧ lock r = .user id' := by
    intro ρ _ lock rows rows' hmem
    obtain ⟨r, hr, heq⟩ := List.mem_map.mp hmem
    obtain ⟨hr, hgone⟩ := List.mem_filter.mp hr
    exact ⟨r, hr, of_decide_eq_true hgone, (Prod.mk.inj heq).1⟩
  rcases h with (((((((h | h) | h) | h) | h) | h) | h) | h) | h <;>
    obtain ⟨r, hr, hgone, hlock⟩ := hrows h <;> cases hlock
  by_contra hne
  exact hgone (List.mem_filter.mpr ⟨hr, by simpa using hne⟩)

/-- Where the batches are quiet, no `DELETE` has the lock of a verified account. -/
lemma QuietBatches.meets (h : QuietBatches steps) (huuid : Function.Injective app.uuid)
    (hids : (d₀.users.map User.id).Nodup) (hnew : ∀ n, app.uuid n ∉ d₀.users.map User.id)
    (hrun : (besidePurge app).Run (Pool.start clock d₀) steps s)
    (hparties : ∀ q ∈ s.procs, q.request.OnlyUnverified) : ∀ p ∈ steps, purgeRules.Meets p := by
  intro q hq
  obtain ⟨l, n, rfl⟩ := List.append_of_mem hq
  obtain ⟨hl, htakes, hrest⟩ := hrun.around
  rintro i reply haction
  refine ⟨fun _ => trivial, fun r program hi hp y hy hlabel id hlock hverified => ?_⟩
  have hstands := stands_of_run huuid hids hnew hl i r program hi hp
  cases hrequest : r.request with
  | request request =>
    obtain ⟨r', hr', hsame⟩ := Rules.request_of_run ((System.Run.single htakes).append hrest) hi
    have honly := hparties r' (List.mem_of_getElem? hr')
    rw [hsame, hrequest] at honly
    rw [hrequest] at hstands
    cases program with
    | stmt st k =>
      obtain rfl := List.mem_singleton.mp hy
      simp only [Program.needs, (hstands honly).1 hlabel] at hlock
      cases hlock
    | _ => cases hy
  | unverifiedUsers fuel =>
    rw [hrequest] at hstands
    obtain ⟨ids, hids', hnarrows, hselected⟩ := hstands
    cases hids' with
    | ret a => cases hy
    | begin hk => cases hy
    | commit hk => cases hy
    | select hk =>
      obtain rfl := List.mem_singleton.mp hy
      cases hlabel
    | @delete _ id' k hid hk =>
      obtain rfl := List.mem_singleton.mp hy
      obtain rfl := eq_of_mem_lost hlock
      obtain ⟨a, p, b, x, rfl, hx, hprocess, hsel, hunverified⟩ := hselected id hid
      obtain ⟨-, -, hbetween⟩ := hl.around
      -- from its selection on, no step verified the account
      have hfree : ∀ r ∈ b, ¬Verifies r id := by
        refine h a p b q n (by simp) x _ hx (sending_eq haction hi hp) hprocess id hsel ?_
        rw [Sending.deletes, if_pos hlabel]
        exact List.mem_filterMap.mpr ⟨_, hlock, rfl⟩
      have hstill : ¬q.before.db.IsVerified id :=
        hbetween.keeps (P := fun s => ¬s.db.IsVerified id) hunverified
          fun r hr _ hbefore hafter => hfree r hr ⟨hbefore, hafter⟩
      exact hstill (isVerified_of_sublist (users_nodup huuid hids hnew hl)
        (view_sublist hnarrows) hverified)

end Batches

/-- Where no account is verified between the `SELECT` that finds it and the lock of the `DELETE`, an
account once verified stays, with the codes and the sessions it has. -/
theorem verified_kept {app : App} {clock : Time} {d₀ : Database} {s s' : PartyPool}
    {l m : List PartyStep} (huuid : Function.Injective app.uuid)
    (hids : (d₀.users.map User.id).Nodup) (hnew : ∀ n, app.uuid n ∉ d₀.users.map User.id)
    (hl : (besidePurge app).Run (Pool.start clock d₀) l s) (hm : (besidePurge app).Run s m s')
    (hparties : ∀ q ∈ s'.procs, q.request.OnlyUnverified) (hquiet : QuietBatches (l ++ m)) :
    VerifiedKept s.db s'.db := by
  have hmeets := hquiet.meets huuid hids hnew (hl.append hm) hparties
  exact verifiedKept_of_meets hl hm hparties hmeets

section Example

/-- The server, which draws no identifier of an imported account. -/
def importingApp : App := { exampleApp with uuid := fun n => exampleApp.uuid n + 2 }

lemma importingApp_uuid_injective : Function.Injective importingApp.uuid :=
  fun _ _ h => exampleApp_uuid_injective (Nat.add_right_cancel h)

/-- An account that was imported without a verification. -/
def importedAccount : User where
  id := 0
  email := "bob@x.fr"
  emailVerifiedAt := none
  disabledAt := none
  createdAt := 0
  updatedAt := 0

/-- A link is mailed to it, eight days after. -/
def exampleImported (users : List User) : Server :=
  (script importingApp exampleReply { db := { users }, served := 0, clock := 0 }
    [(days 8, .createFlow {
        clientId := "app", redirectUri := "https://app/cb", codeChallenge := exampleChallenge
        codeChallengeMethod := "S256", state := none }),
      (days 8, .requestMagicLink "ip" 2 "bob@x.fr")]).2

/-- The purge selects its accounts, then the login with the link runs whole. -/
def examplePurge : List PartyAction :=
  [.spawn (.unverifiedUsers 1), .spawn (.request (.confirmMagicLink "ip" "p-iii"))] ++
    List.replicate 2 (.advance 0 exampleReply) ++ List.replicate 12 (.advance 1 exampleReply)

/-- The check of a state: is the account verified that the login is for? -/
def importedVerified (s : PartyPool) : Bool :=
  (s.db.account 0).any fun u => u.emailVerifiedAt.isSome

lemma isVerified_of_imported {s : PartyPool} (h : importedVerified s = true) :
    s.db.IsVerified 0 := (Option.any_eq_true _ _).mp h

instance (d : Database) (id : Uuid) : Decidable (d.IsVerified id) :=
  decidable_of_iff _ (Option.any_eq_true (fun u : User => u.emailVerifiedAt.isSome) (d.account id))

instance (p : PartyStep) (id : Uuid) : Decidable (Verifies p id) :=
  inferInstanceAs (Decidable (_ ∧ _))

/-- The check of a run: no selected account is verified in it. -/
def quietSteps (steps : List PartyStep) : Bool :=
  steps.all fun p => (sending p).all fun x => x.selects.all fun id =>
    steps.all fun r => decide (¬Verifies r id)

lemma quietBatches_of_quietSteps {steps : List PartyStep} (h : quietSteps steps = true) :
    QuietBatches steps := by
  rintro l p m q n rfl x y hx - - id hid - r hr
  rw [quietSteps, List.all_eq_true] at h
  have hp := h p (by simp)
  rw [hx, Option.all_some, List.all_eq_true] at hp
  have hr' := List.all_eq_true.mp (hp id hid) r (by simp [hr])
  exact of_decide_eq_true hr'

lemma onlyUnverified_of_example {s : PartyPool}
    (h : (s.procs.map Proc.request) =
      [.unverifiedUsers 1, .request (.confirmMagicLink "ip" "p-iii")]) :
    ∀ q ∈ s.procs, q.request.OnlyUnverified := by
  intro q hq
  have hmem : q.request ∈ s.procs.map Proc.request := List.mem_map_of_mem hq
  rw [h] at hmem
  simp only [List.mem_cons, List.not_mem_nil, or_false] at hmem
  rcases hmem with hq | hq <;> rw [hq] <;> trivial

/-- The batch selects an account of eight days; a login verifies another one, imported the day
after, before the batch deletes the first. -/
theorem verified_kept_login : ∃ d₀ l m s s',
    (besidePurge importingApp).Run (Pool.start (days 8) d₀) l s ∧
      (besidePurge importingApp).Run s m s' ∧ s.db.users.map User.id = [0, 1] ∧
      s.db.IsVerified 0 ∧ VerifiedKept s.db s'.db ∧ s'.db.users.map User.id = [0] := by
  have hexec : (((besidePurge importingApp).exec (Pool.start (days 8)
      (exampleImported [{ importedAccount with createdAt := days 1 },
        { importedAccount with id := 1, email := "cy@x.fr" }]).db) examplePurge).any fun r =>
        importedVerified r.2 && decide (r.2.db.users.map User.id = [0, 1]) &&
        ((besidePurge importingApp).exec r.2 (List.replicate 4 (.advance 0 exampleReply))).any
          fun r' => decide (r'.2.procs.map Proc.request =
              [.unverifiedUsers 1, .request (.confirmMagicLink "ip" "p-iii")]) &&
            quietSteps (r.1 ++ r'.1) && decide (r'.2.db.users.map User.id = [0])) = true := by
    decide +kernel
  obtain ⟨⟨l, s⟩, hl, hchecks⟩ := (Option.any_eq_true _ _).mp hexec
  simp only [Bool.and_eq_true, Option.any_eq_true, decide_eq_true_eq] at hchecks
  obtain ⟨⟨hverified, hboth⟩, ⟨m, s'⟩, hm, ⟨hparties, hquiet⟩, hone⟩ := hchecks
  have hids : ((exampleImported [{ importedAccount with createdAt := days 1 },
      { importedAccount with id := 1, email := "cy@x.fr" }]).db.users.map User.id) = [0, 1] := by
    decide +kernel
  refine ⟨_, l, m, s, s', System.exec_run hl, System.exec_run hm, hboth,
    isVerified_of_imported hverified, ?_, hone⟩
  refine verified_kept importingApp_uuid_injective (by rw [hids]; decide) (fun n => ?_)
    (System.exec_run hl) (System.exec_run hm) (onlyUnverified_of_example hparties)
    (quietBatches_of_quietSteps hquiet)
  rw [hids]
  simp [importingApp]

/-- The login comes between the selection and the deletion of its account: the account is deleted,
verified by then, with the code that the login answered. -/
theorem verified_purged : ¬∀ (app : App) (clock : Time) (d₀ : Database) (s s' : PartyPool)
    (l m : List PartyStep), Function.Injective app.uuid → (d₀.users.map User.id).Nodup →
    (∀ n, app.uuid n ∉ d₀.users.map User.id) → (besidePurge app).Run (Pool.start clock d₀) l s →
    (besidePurge app).Run s m s' → (∀ q ∈ s'.procs, q.request.OnlyUnverified) →
      VerifiedKept s.db s'.db := by
  intro h
  have hexec : (((besidePurge importingApp).exec
      (Pool.start (days 8) (exampleImported [importedAccount]).db) examplePurge).any fun r =>
        importedVerified r.2 &&
        ((besidePurge importingApp).exec r.2 (List.replicate 4 (.advance 0 exampleReply))).any
          fun r' => decide (r'.2.procs.map Proc.request =
              [.unverifiedUsers 1, .request (.confirmMagicLink "ip" "p-iii")]) &&
            r'.2.db.users.isEmpty) = true := by
    decide +kernel
  obtain ⟨⟨l, s⟩, hl, hchecks⟩ := (Option.any_eq_true _ _).mp hexec
  simp only [Bool.and_eq_true, Option.any_eq_true, decide_eq_true_eq] at hchecks
  obtain ⟨hverified, ⟨m, s'⟩, hm, hparties, hgone⟩ := hchecks
  have hids : (exampleImported [importedAccount]).db.users.map User.id = [0] := by decide +kernel
  have hkept := h importingApp _ _ s s' l m importingApp_uuid_injective (by rw [hids]; decide)
    (by rw [hids]; simp [importingApp]) (System.exec_run hl) (System.exec_run hm)
    (onlyUnverified_of_example hparties)
  obtain ⟨u, hu, -⟩ := hkept.account 0 (isVerified_of_imported hverified)
  rw [Database.account, List.isEmpty_iff.mp hgone] at hu
  cases hu

end Example

end Bauth
