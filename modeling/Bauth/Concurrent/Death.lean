import Bauth.Concurrent.Rows
import Bauth.Concurrent.Expiry
import Bauth.Concurrent.Exchanges
import Bauth.Alone.Refresh
import Bauth.Alone.Me

/-!
# Sessions that are over

A session ends when it is revoked, expires, is deleted or loses its account. No step of any request
undoes this, so that every request that starts later finds the session over wherever it looks it up:
it gets no tokens for it, is not authenticated by it and checks no code of it.
-/

namespace Bauth

open Transaction Transaction.Program Transition

/-! ### What statements are known to see -/

/-- No rules but what is known of the contents that statements see. -/
def seeing (P : Time → Database → Prop) : Rules sig where
  same _ _ _ := True
  step _ _ _ := True
  expects _ _ now d := P now d
  replies _ _ _ := True
  same_refl _ _ := trivial
  same_trans _ _ _ _ _ _ := trivial
  step_refl _ _ := trivial
  step_trans _ _ _ _ _ _ := trivial

section Seeing

variable {α β ε : Type} {P : Time → Database → Prop} {i : ℕ} {L : Place sig} {t t' : Time}
  {d d' : Database}

@[simp] lemma seeing_others : (seeing P).Others i L t d t' d' ↔ t ≤ t' :=
  ⟨fun h => h.clock, fun h => ⟨h, trivial, fun _ _ => trivial⟩⟩

lemma seeing_within (st : Statement sig β) : (seeing P).Within st := fun _ _ _ _ _ _ => trivial

lemma seeing_allows : (seeing P).Allows i d d' := fun _ _ => trivial

lemma seeing_stable {Q : α → Place sig → Prop}
    (hQ : ∀ a L L', L'.events = L.events → L'.sights = L.sights → Q a L → Q a L') :
    (seeing P).Stable i fun a L _ _ => Q a L :=
  fun a L L' _ _ _ _ _ _ hevents hsights h => hQ a L L' hevents hsights h

/-- A statement in an open transaction. -/
lemma seeing_open {st : Statement sig β} {tx : Program.Tx sig} (htx : L.tx = some tx)
    {Q : β → Place sig → Time → Database → Prop}
    (h : ∀ t' d' L', t ≤ t' → P tx.start (tx.writes d') →
      L'.sights = L.sights ++ [⟨st.label, tx.start, d'⟩] → L'.events = L.events →
      L'.tx = some { tx with
        writes := fun d₀ => (st.run tx.start ⟨i, L.draws⟩ (tx.writes d')).1 (tx.writes d₀)
        locks := tx.locks ++ st.locks tx.start (tx.writes d') } →
      Q (st.run tx.start ⟨i, L.draws⟩ (tx.writes d')).2 L' t' d') :
    (query st).safe (seeing P) i L t d Q :=
  (Rules.safe_query_open htx).mpr ⟨seeing_within st, fun t' d' ho he =>
    h t' d' _ ho.clock he rfl rfl rfl⟩

/-- A statement on its own. -/
lemma seeing_closed {st : Statement sig β} (htx : L.tx = none)
    {Q : β → Place sig → Time → Database → Prop}
    (h : ∀ t' d' d'' L', t ≤ t' → P t' d' →
      L'.sights = L.sights ++ [⟨st.label, t', d'⟩] → L'.events = L.events → L'.tx = none →
      Q (st.run t' ⟨i, L.draws⟩ d').2 L' t' d'') :
    (query st).safe (seeing P) i L t d Q :=
  (Rules.safe_query_closed htx).mpr ⟨seeing_within st, fun t' d' ho he =>
    ⟨seeing_allows, h t' d' _ _ ho.clock he rfl rfl rfl⟩⟩

/-- A program keeps what it saw. -/
lemma seeing_grows (p : Program sig α) :
    p.safe (seeing P) i L t d fun _ L' _ _ => ∃ l, L'.sights = L.sights ++ l := by
  suffices h : ∀ L₀ : Place sig, (∃ l, L.sights = L₀.sights ++ l) →
      p.safe (seeing P) i L t d fun _ L' _ _ => ∃ l, L'.sights = L₀.sights ++ l from
    h L ⟨[], (List.append_nil _).symm⟩
  intro L₀ hL
  induction p generalizing L t d with
  | ret a => exact hL
  | stmt st k ih =>
    obtain ⟨l, hl⟩ := hL
    refine (Rules.safe_bind (query st) k).mpr ?_
    cases htx : L.tx with
    | none =>
      exact seeing_closed htx fun t' d' d'' L' _ _ hL' _ _ =>
        ih _ ⟨l ++ [_], by rw [hL', hl, List.append_assoc]⟩
    | some tx =>
      exact seeing_open htx fun t' d' L' _ _ hL' _ _ =>
        ih _ ⟨l ++ [_], by rw [hL', hl, List.append_assoc]⟩
  | utcNow k ih => exact fun t' d' _ => ih _ hL
  | draw k ih => exact fun t' d' _ => ih _ hL
  | ask q k ih => exact fun t' d' r _ _ => ih _ hL
  | emit e k ih => exact fun t' d' _ => ih hL
  | begin k ih => exact fun t' d' _ => ih hL
  | commit k ih => exact fun t' d' _ => ⟨seeing_allows, ih hL⟩
  | rollback k ih => exact fun t' d' _ => ih hL

/-- Every program is safe when nothing is asked of it. -/
lemma seeing_any (p : Program sig α) : p.safe (seeing P) i L t d fun _ _ _ _ => True := by
  induction p generalizing L t d with
  | ret a => trivial
  | stmt st k ih =>
    refine (Rules.safe_bind (query st) k).mpr ?_
    cases htx : L.tx with
    | none => exact seeing_closed htx fun _ _ _ _ _ _ _ _ _ => ih _
    | some tx => exact seeing_open htx fun _ _ _ _ _ _ _ _ => ih _
  | utcNow k ih => exact fun _ _ _ => ih _
  | draw k ih => exact fun _ _ _ => ih _
  | ask q k ih => exact fun _ _ _ _ _ => ih _
  | emit e k ih => exact fun _ _ _ => ih
  | begin k ih => exact fun _ _ _ => ih
  | commit k ih => exact fun _ _ _ => ⟨seeing_allows, ih⟩
  | rollback k ih => exact fun _ _ _ => ih

end Seeing

/-! ### Sessions that are over -/

/-- Why a session is over. -/
inductive Death where
  | revoked
  | expired
  | deserted
  deriving DecidableEq

/-- The session `x`, of the account `owner`, is over at `t`, wherever it is. -/
def Database.Over (d : Database) (x owner : Uuid) (t : Time) : Death → Prop
  | .revoked => ∀ s ∈ d.sessions, s.id = x → s.revokedAt.isSome = true
  | .expired => ∀ s ∈ d.sessions, s.id = x → s.expiresAt ≤ t
  | .deserted => (∀ s ∈ d.sessions, s.id = x → s.userId = owner) ∧ ∀ u ∈ d.users, u.id ≠ owner

section Over

variable {app : App} {x owner : Uuid} {t : Time} {death : Death} {q : Query} {now : Time} {n : Draw}
  {d d' : Database}

/-- What is true of the rows of the session is not changed by steps that keep it. -/
lemma sessions_stay (hx : app.uuid n ≠ x) (hd : d.Evolves app q now n d') {P : Session → Prop}
    (hP : ∀ s s', P s → Session.Step now s s' → P s') (h : ∀ s ∈ d.sessions, s.id = x → P s) :
    ∀ s ∈ d'.sessions, s.id = x → P s := by
  intro s' hs' hid
  rcases hd.sessions.mem hs' with ⟨s, hs, hstep⟩ | hnew
  · refine hP s s' (h s hs ?_) hstep
    rw [← hid]
    cases hstep <;> rfl
  · exact absurd (hnew.2.1.symm.trans hid) hx

/-- No statement given another draw brings a session that is over back. -/
lemma Database.Over.evolves (hx : app.uuid n ≠ x) (howner : death = .deserted → app.uuid n ≠ owner)
    (hd : d.Evolves app q now n d') (h : d.Over x owner t death) : d'.Over x owner t death := by
  cases death with
  | revoked =>
    refine sessions_stay hx hd (fun s s' hs hstep => ?_) h
    cases hstep with
    | same => exact hs
    | revoke => rfl
    | forget => exact hs
  | expired =>
    refine sessions_stay hx hd (fun s s' hs hstep => ?_) h
    cases hstep <;> exact hs
  | deserted =>
    refine ⟨sessions_stay hx hd (fun s s' hs hstep => ?_) h.1, fun u' hu' hid => ?_⟩
    · cases hstep <;> exact hs
    · rcases hd.users.mem hu' with ⟨u, hu, hstep⟩ | ⟨-, email, rfl⟩
      · refine h.2 u hu ?_
        rw [← hid]
        cases hstep <;> rfl
      · exact howner rfl hid

/-- A session that is over is not found by its access tokens. -/
lemma Database.Over.not_authenticated (h : d.Over x owner t death) (hnow : t ≤ now) {β : Type}
    (f : Session → User → β) :
    (do
      let s ← d.sessions.find? fun s => s.id = x && s.revokedAt.isNone && now < s.expiresAt
      let u ← d.users.find? fun u => u.id = s.userId && u.disabledAt.isNone
      return f s u) = none := by
  cases hs : d.sessions.find? fun s => s.id = x && s.revokedAt.isNone && now < s.expiresAt with
  | none => rfl
  | some s =>
    have hmem := List.mem_of_find?_eq_some hs
    have hfound := List.find?_some hs
    simp only [Bool.and_eq_true, decide_eq_true_eq, Option.isNone_iff_eq_none] at hfound
    obtain ⟨⟨hid, hrevoked⟩, hexpires⟩ := hfound
    cases death with
    | revoked =>
      have hsome := h s hmem hid
      rw [hrevoked] at hsome
      cases hsome
    | expired => exact absurd (h s hmem hid) (not_le.mpr (lt_of_le_of_lt hnow hexpires))
    | deserted =>
      have hnone : d.users.find? (fun u => u.id = s.userId && u.disabledAt.isNone) = none := by
        refine List.find?_eq_none.mpr fun u hu => ?_
        simp [h.1 s hmem hid, h.2 u hu]
      simp [hnone]

end Over

/-! ### Requests behind an access token -/

/-- What a program did since: it saw more. -/
structure Sees (L L' : Place sig) : Prop where
  sights : ∀ o ∈ L.sights, o ∈ L'.sights
  events : L'.events = L.events

lemma Sees.refl (L : Place sig) : Sees L L := ⟨fun _ h => h, rfl⟩

lemma Sees.trans {L L' L'' : Place sig} (h : Sees L L') (h' : Sees L' L'') : Sees L L'' :=
  ⟨fun o ho => h'.sights o (h.sights o ho), h'.events.trans h.events⟩

lemma Sees.sent {L L' : Place sig} {o : Sight sig} (hsights : L'.sights = L.sights ++ [o])
    (hevents : L'.events = L.events) : Sees L L' :=
  ⟨fun _ ho => hsights ▸ List.mem_append_left _ ho, hevents⟩

/-- Each code that was checked is one of another session, as the lookup before it found it. -/
def ChecksOthers (x : Uuid) (L : Place sig) : Prop :=
  ∀ k, .codeVerified .confirmation k ∈ L.events → ∃ o ∈ L.sights,
    o.label = .confirmationsFindCodeCandidate ∧ ∃ c ∈ o.db.confirmations, c.id = k ∧ c.sessionId ≠ x

lemma ChecksOthers.sees {x : Uuid} {L L' : Place sig} (h : ChecksOthers x L) (hL : Sees L L') :
    ChecksOthers x L' := by
  intro k hk
  rw [hL.events] at hk
  obtain ⟨o, ho, hrest⟩ := h k hk
  exact ⟨o, hL.sights o ho, hrest⟩

lemma ChecksOthers.sent {x : Uuid} {L L' : Place sig} (h : ChecksOthers x L) (mail : Email)
    (hsights : L'.sights = L.sights) (hevents : L'.events = L.events ++ [.sent mail]) :
    ChecksOthers x L' := by
  intro k hk
  rw [hevents, List.mem_append] at hk
  rw [hsights]
  rcases hk with hk | hk
  · exact h k hk
  · simp at hk

section Requests

variable {app : App} {x owner : Uuid} {t₁ t : Time} {death : Death} {i : ℕ} {L : Place sig}
  {d : Database}

/-- The session is over in what the transactions see that start from `t₁` on. -/
def overFrom (x owner : Uuid) (t₁ : Time) (death : Death) (now : Time) (d : Database) : Prop :=
  t₁ ≤ now → d.Over x owner t₁ death

lemma checkLimit_seeing {P : Time → Database → Prop} {limiter : Limiter} {key : String}
    {Q : Except ApiError Unit → Place sig → Time → Database → Prop}
    (h : ∀ r t' d', t ≤ t' → Q r L t' d') :
    Handler.safe (seeing P) i (checkLimit limiter key) L t d Q := by
  simp only [checkLimit, safe_bind, safe_perform]
  intro t' d' (retryAfter : Option Time) ho _
  cases retryAfter with
  | none => exact h _ t' d' ho.clock
  | some retryAfter => exact h _ t' d' ho.clock

/-- An access token of a session that is over authenticates nobody. -/
lemma currentUser_seeing {authorization : Option String} (ht : t₁ ≤ t) (htx : L.tx = none)
    {Q : Except ApiError CurrentUser → Place sig → Time → Database → Prop}
    (herr : ∀ L' t' d', t ≤ t' → Sees L L' → L'.tx = none → Q (.error .unauthorized) L' t' d')
    (hok : ∀ user keys utc claims L' t' d', authenticate app keys authorization utc = some claims →
      user.sessionId = claims.sid → claims.sid ≠ x → t ≤ t' → Sees L L' → L'.tx = none →
      Q (.ok user) L' t' d') :
    Handler.safe (seeing (overFrom x owner t₁ death)) i (currentUser app authorization) L t d Q := by
  simp only [currentUser, safe_bind, safe_perform, Rules.safe_clock, seeing_others, throw_bind]
  intro t' d' (keys : SigningKeys) ho _ utc e hutc
  cases hclaims : authenticate app keys authorization utc with
  | none => exact herr L utc e (ho.clock.trans hutc) (.refl L) htx
  | some claims =>
    simp only [safe_bind, safe_run]
    refine seeing_closed htx fun t₂ d₂ e₂ L₂ ht₂ hover hsights hevents htx₂ => ?_
    have hsees : Sees L L₂ := .sent hsights hevents
    have hlate := (ho.clock.trans hutc).trans ht₂
    have hread : ((Sessions.findAuthenticated claims.sid).run t₂ ⟨i, L.draws⟩ d₂).2 = (do
        let s ← d₂.sessions.find? fun s => s.id = claims.sid && s.revokedAt.isNone &&
          t₂ < s.expiresAt
        let u ← d₂.users.find? fun u => u.id = s.userId && u.disabledAt.isNone
        return { userId := s.userId, email := u.email }) := rfl
    cases hsession : ((Sessions.findAuthenticated claims.sid).run t₂ ⟨i, L.draws⟩ d₂).2 with
    | none => exact herr L₂ t₂ e₂ hlate hsees htx₂
    | some session =>
      have hother : claims.sid ≠ x := by
        rintro hsid
        rw [hread, hsid, (hover (ht.trans hlate)).not_authenticated (ht.trans hlate)] at hsession
        cases hsession
      simp only [safe_ite, safe_throw, safe_pure]
      exact ⟨fun _ => herr L₂ t₂ e₂ hlate hsees htx₂,
        fun _ => hok _ keys utc claims L₂ t₂ e₂ hclaims rfl hother hlate hsees htx₂⟩

/-- The confirmation that a code is checked against is one of the session. -/
lemma findCodeCandidate_seeing {P : Time → Database → Prop} {userId sessionId : Uuid}
    {action : String} {start : Time} (htx : L.tx = some ⟨start, fun d => d, []⟩)
    {Q : Option Confirmations.CodeCandidate → Place sig → Time → Database → Prop}
    (hnone : ∀ L' t' d', Sees L L' → Q none L' t' d')
    (hsome : ∀ candidate tx L' t' d', Sees L L' → L'.tx = some tx →
      (∃ o ∈ L'.sights, o.label = .confirmationsFindCodeCandidate ∧
        ∃ c ∈ o.db.confirmations, c.id = candidate.id ∧ c.sessionId = sessionId) →
      Q (some candidate) L' t' d') :
    (Confirmations.findCodeCandidate userId sessionId action maxFailuresPerCode
      maxFailuresPerDay).safe (seeing P) i L t d Q := by
  simp only [Confirmations.findCodeCandidate, Rules.safe_bind]
  refine seeing_open htx fun t₁ d₁ L₁ _ _ hsights₁ hevents₁ htx₁ => ?_
  refine seeing_open htx₁ fun t₂ d₂ L₂ _ _ hsights₂ hevents₂ htx₂ => ?_
  have hsees : Sees L L₂ := (Sees.sent hsights₁ hevents₁).trans (.sent hsights₂ hevents₂)
  simp only [Confirmations.selectCandidate, Statement.select, Users.lock]
  cases hnewest : d₂.newestConfirmation sessionId action with
  | none => exact hnone L₂ t₂ d₂ hsees
  | some c =>
    obtain ⟨hmem, hsession, -⟩ := mem_of_newestConfirmation hnewest
    dsimp only
    split_ifs
    · refine hsome _ _ L₂ t₂ d₂ hsees htx₂ ⟨⟨_, start, d₂⟩, ?_, rfl, c, hmem, rfl, hsession⟩
      rw [hsights₂]
      exact List.mem_append_right _ (List.mem_singleton_self _)
    · exact hnone L₂ t₂ d₂ hsees

/-- A code is only checked against a confirmation of the session of the access token. -/
lemma checkCode_seeing {P : Time → Database → Prop} {user : CurrentUser} (huser : user.sessionId ≠ x)
    (hL : ChecksOthers x L) (ip : String) (action : Me.ConfirmationAction) (code : String) :
    Handler.safe (seeing P) i (Me.checkCode app ip user action code) L t d fun r L' _ _ =>
      ChecksOthers x L' ∧ (r = .ok () → L'.tx = none) := by
  simp only [Me.checkCode, safe_bind]
  refine checkLimit_seeing fun r t₁ d₁ _ => ?_
  have herr : ∀ e L', ChecksOthers x L' →
      ChecksOthers x L' ∧ ((.error e : Except ApiError Unit) = .ok () → L'.tx = none) :=
    fun e L' h => ⟨h, nofun⟩
  cases r with
  | error e => exact herr e L hL
  | ok _ =>
    simp only [checkFormat, safe_ite, safe_pure, safe_throw, safe_perform, Rules.safe_start,
      seeing_others]
    refine ⟨fun _ t₂ d₂ _ => ?_, fun _ => herr _ L hL⟩
    have hL₂ : ChecksOthers x { L with tx := some ⟨t₂, fun d => d, []⟩ } := hL
    refine findCodeCandidate_seeing rfl (fun L₄ t₄ d₄ hsees => herr _ L₄ (hL₂.sees hsees))
      fun candidate tx L₄ t₄ d₄ hsees htx₄ hcandidate => ?_
    have hL₄ : ChecksOthers x L₄ := hL₂.sees hsees
    simp only [safe_ite, safe_throw, safe_bind, throw_bind, verifyCode, safe_perform,
      Rules.safe_signal, safe_pure, safe_runChecked, safe_run, seeing_others]
    refine ⟨fun _ => herr _ L₄ hL₄, fun _ t₅ d₅ _ => ?_⟩
    let L₅ : Place sig :=
      { L₄ with events := L₄.events ++ [.codeVerified .confirmation candidate.id] }
    have htx₅ : L₅.tx = some tx := htx₄
    have hL₅ : ChecksOthers x L₅ := by
      intro k hk
      rcases List.mem_append.mp hk with hk | hk
      · exact hL₄ k hk
      · obtain rfl : k = candidate.id := by simpa using hk
        obtain ⟨o, ho, hlabel, c, hc, hid, hsession⟩ := hcandidate
        exact ⟨o, ho, hlabel, c, hc, hid, hsession ▸ huser⟩
    refine ⟨fun _ => ?_, fun _ => ?_⟩
    · refine seeing_open htx₅ fun t₆ d₆ L₆ _ _ hsights₆ hevents₆ htx₆ => ?_
      have hL₆ : ChecksOthers x L₆ := hL₅.sees (.sent hsights₆ hevents₆)
      cases ((Confirmations.recordCodeFailure candidate.id maxFailuresPerCode).run tx.start
          ⟨i, L₅.draws⟩ (tx.writes d₆)).2 with
      | error e => exact herr _ L₆ hL₆
      | ok _ =>
        simp only [Except.mapError, Rules.safe_finish, seeing_others]
        exact fun _ _ _ => ⟨seeing_allows, hL₆, fun _ => trivial⟩
    · refine seeing_open htx₅ fun t₆ d₆ L₆ _ _ hsights₆ hevents₆ htx₆ => ?_
      have hL₆ : ChecksOthers x L₆ := hL₅.sees (.sent hsights₆ hevents₆)
      simp only [Rules.safe_finish, seeing_others]
      exact fun _ _ _ => ⟨seeing_allows, hL₆, fun _ => trivial⟩

/-- Wherever and whenever it is accepted, the access token is one of the session. -/
def Bears (app : App) (authorization : Option String) (x : Uuid) : Prop :=
  ∀ keys now claims, authenticate app keys authorization now = some claims → claims.sid = x

/-- The access token that the request comes with, if it needs one. -/
def Request.authorization : Request → Option (Option String)
  | .getMe authorization | .listSessions authorization | .revokeSession authorization _
  | .requestConfirmation _ authorization _ | .changeEmail _ authorization _ _
  | .deleteAccount _ authorization _ => some authorization
  | _ => none

lemma afterCurrentUser_seeing {α : Type} {authorization : Option String}
    {h : CurrentUser → Handler ApiError α} (ht : t₁ ≤ t)
    (hrest : ∀ (user : CurrentUser) L' t' d', user.sessionId ≠ x → L'.tx = none →
      ChecksOthers x L' → Handler.safe (seeing (overFrom x owner t₁ death)) i (h user) L' t' d'
        fun _ L'' _ _ => ChecksOthers x L'') :
    Handler.safe (seeing (overFrom x owner t₁ death)) i (currentUser app authorization >>= h) {} t d
      fun r L' _ _ => (Bears app authorization x → r = .error .unauthorized) ∧ ChecksOthers x L' := by
  have hnone : ChecksOthers x {} := fun k hk => absurd hk List.not_mem_nil
  simp only [safe_bind]
  refine currentUser_seeing ht rfl (fun L' t' d' _ hsees _ => ⟨fun _ => rfl, hnone.sees hsees⟩)
    fun user keys utc claims L' t' d' hclaims huser hother _ hsees htx => ?_
  refine (hrest user L' t' d' (huser ▸ hother) htx (hnone.sees hsees)).mono fun r L'' _ _ hL'' => ?_
  exact ⟨fun hbears => absurd (hbears keys utc claims hclaims) hother, hL''⟩

lemma apiRoute_seeing {α : Type} {authorization : Option String} {body : α → Body}
    {h : Handler ApiError α} {P : Time → Database → Prop}
    (hh : Handler.safe (seeing P) i h {} t d fun r L' _ _ =>
      (Bears app authorization x → r = .error .unauthorized) ∧ ChecksOthers x L') :
    (apiRoute body h).safe (seeing P) i {} t d fun a L' _ _ =>
      (Bears app authorization x → a = .error (.api .unauthorized)) ∧ ChecksOthers x L' := by
  refine (Rules.safe_bind _ _).mpr (Rules.safe_mono hh fun r L' t' d' h => ?_)
  cases r with
  | ok a =>
    refine ⟨fun hbears => ?_, h.2⟩
    cases h.1 hbears
  | error e =>
    refine ⟨fun hbears => ?_, h.2⟩
    rw [Except.error.inj (h.1 hbears)]

/-- An insertion and the mail about it check no code. -/
lemma insertAndSend_seeing {β : Type} {st : Statement sig (Except DbError β)} {mail : Email}
    {P : Time → Database → Prop} (htx : L.tx = none) (hL : ChecksOthers x L) :
    Handler.safe (seeing P) i (runChecked st >>= fun _ => sendInBackground mail : Handler ApiError _)
      L t d fun _ L' _ _ => ChecksOthers x L' := by
  simp only [safe_bind, safe_runChecked]
  refine seeing_closed htx fun t₂ d₂ e₂ L₂ _ _ hsights hevents _ => ?_
  have hL₂ : ChecksOthers x L₂ := hL.sees (.sent hsights hevents)
  cases (st.run t₂ ⟨i, L.draws⟩ d₂).2 with
  | error e => exact hL₂
  | ok b =>
    simp only [Except.mapError, sendInBackground, safe_perform, Rules.safe_signal]
    exact fun _ _ _ => hL₂.sent mail rfl rfl

/-- A request behind an access token. -/
lemma authorized_seeing {r : Request} {authorization : Option String} (ht : t₁ ≤ t)
    (hr : r.authorization = some authorization) :
    (handle app r).safe (seeing (overFrom x owner t₁ death)) i {} t d fun a L' _ _ =>
      (Bears app authorization x → a = .error (.api .unauthorized)) ∧ ChecksOthers x L' := by
  cases r with
  | getMe authorization' =>
    obtain rfl := Option.some.inj hr
    refine apiRoute_seeing (afterCurrentUser_seeing ht fun user L₁ t₁ d₁ _ htx hL₁ => ?_)
    simp only [safe_bind, safe_run]
    refine seeing_closed htx fun t₂ d₂ e₂ L₂ _ _ hsights hevents _ => ?_
    cases ((Users.findById user.id).run t₂ ⟨i, L₁.draws⟩ d₂).2 <;>
      exact hL₁.sees (.sent hsights hevents)
  | listSessions authorization' =>
    obtain rfl := Option.some.inj hr
    refine apiRoute_seeing (afterCurrentUser_seeing ht fun user L₁ t₁ d₁ _ htx hL₁ => ?_)
    simp only [safe_bind, safe_run]
    exact seeing_closed htx fun t₂ d₂ e₂ L₂ _ _ hsights hevents _ => hL₁.sees (.sent hsights hevents)
  | revokeSession authorization' sessionId =>
    obtain rfl := Option.some.inj hr
    refine apiRoute_seeing (afterCurrentUser_seeing ht fun user L₁ t₁ d₁ _ htx hL₁ => ?_)
    simp only [safe_bind, safe_perform, Sessions.revokeForUser, Rules.safe_bind]
    refine seeing_closed htx fun t₂ d₂ e₂ L₂ _ _ hsights hevents _ => ?_
    simp only [safe_ite, safe_throw, safe_pure, Program.pure_eq, Rules.safe_ret]
    exact ⟨fun _ => hL₁.sees (.sent hsights hevents), fun _ => hL₁.sees (.sent hsights hevents)⟩
  | requestConfirmation ip authorization' action =>
    obtain rfl := Option.some.inj hr
    refine apiRoute_seeing (afterCurrentUser_seeing ht fun user L₁ t₁ d₁ _ htx hL₁ => ?_)
    simp only [safe_bind]
    refine checkLimit_seeing fun a t₂ d₂ _ => ?_
    cases a with
    | error e => exact hL₁
    | ok _ =>
      refine checkLimit_seeing fun a t₃ d₃ _ => ?_
      cases a with
      | error e => exact hL₁
      | ok _ =>
        simp only [safe_perform, Rules.safe_fresh, Rules.safe_clock, seeing_others]
        intro t₄ d₄ _ t₅ d₅ _
        simp only [← safe_bind]
        exact insertAndSend_seeing htx hL₁
  | changeEmail ip authorization' code newEmail =>
    obtain rfl := Option.some.inj hr
    refine apiRoute_seeing (afterCurrentUser_seeing ht fun user L₁ t₁ d₁ huser htx hL₁ => ?_)
    simp only [safe_ite, safe_throw, throw_bind]
    refine ⟨fun _ => hL₁, fun _ => ⟨fun _ => hL₁, fun _ => ?_⟩⟩
    cases app.client user.clientId with
    | none => exact hL₁
    | some client =>
      simp only [safe_bind]
      cases EmailChange.page client with
      | error e => exact hL₁
      | ok page =>
        refine checkLimit_seeing fun a t₂ d₂ _ => ?_
        cases a with
        | error e => exact hL₁
        | ok _ =>
          refine (checkCode_seeing huser hL₁ ip _ code).mono fun a L₃ t₃ d₃ h₃ => ?_
          cases a with
          | error e => exact h₃.1
          | ok _ =>
            simp only [safe_run]
            refine seeing_closed (h₃.2 rfl) fun t₄ d₄ e₄ L₄ _ _ hsights hevents htx₄ => ?_
            have hL₄ : ChecksOthers x L₄ := h₃.1.sees (.sent hsights hevents)
            simp only [safe_ite, safe_bind, safe_perform, Rules.safe_fresh, Rules.safe_clock,
              seeing_others, safe_pure]
            refine ⟨fun _ t₅ d₅ _ t₆ d₆ _ => ?_, fun _ => hL₄⟩
            simp only [← safe_bind]
            exact insertAndSend_seeing htx₄ hL₄
  | deleteAccount ip authorization' code =>
    obtain rfl := Option.some.inj hr
    refine apiRoute_seeing (afterCurrentUser_seeing ht fun user L₁ t₁ d₁ huser htx hL₁ => ?_)
    simp only [safe_bind]
    refine (checkCode_seeing huser hL₁ ip _ code).mono fun a L₃ t₃ d₃ h₃ => ?_
    cases a with
    | error e => exact h₃.1
    | ok _ =>
      simp only [safe_run]
      refine seeing_closed (h₃.2 rfl) fun t₄ d₄ e₄ L₄ _ _ hsights hevents _ => ?_
      have hL₄ : ChecksOthers x L₄ := h₃.1.sees (.sent hsights hevents)
      simp only [sendInBackground, safe_perform, Rules.safe_signal]
      exact fun _ _ _ => hL₄.sent _ rfl rfl
  | _ => cases hr

/-! ### Refreshing -/

/-- The token was one of another session when the first statement of the refresh looked it up. -/
def LooksUpOther (app : App) (x : Uuid) (token : String) (L : Place sig) : Prop :=
  ∃ o, L.sights.head? = some o ∧ ∃ r,
    o.db.refreshTokens.find? (fun r => r.tokenHash = app.hash token) = some r ∧ r.sessionId ≠ x

/-- The first statement stays the first one. -/
lemma LooksUpOther.grows {token : String} {o : Sight sig} {l : List (Sight sig)} {L L' : Place sig}
    (hL : ∃ m, L'.sights = L.sights ++ m) (hsights : L.sights = o :: l)
    (ho : ∃ r, o.db.refreshTokens.find? (fun r => r.tokenHash = app.hash token) = some r ∧
      r.sessionId ≠ x) : LooksUpOther app x token L' := by
  obtain ⟨m, hm⟩ := hL
  exact ⟨o, by rw [hm, hsights, List.cons_append, List.head?_cons], ho⟩

/-- What the columns of a session that is over show. -/
def RefreshTokens.RefreshTokenWithSession.ShowsOver
    (current : RefreshTokens.RefreshTokenWithSession) (owner : Uuid) (t : Time) : Death → Prop
  | .revoked => current.sessionRevokedAt.isSome = true
  | .expired => current.sessionExpiresAt ≤ t
  | .deserted => current.userId = owner

/-- A transaction that started at `start` is open. -/
def StartedAt (start : Time) (L : Place sig) : Prop := ∃ tx, L.tx = some tx ∧ tx.start = start

lemma seeing_started {P : Time → Database → Prop} {β : Type} {st : Statement sig β} {start : Time}
    (hL : StartedAt start L) {Q : β → Place sig → Time → Database → Prop}
    (h : ∀ v L' t' d', P start v → StartedAt start L' → Q (st.run start ⟨i, L.draws⟩ v).2 L' t' d') :
    (query st).safe (seeing P) i L t d Q := by
  obtain ⟨tx, htx, rfl⟩ := hL
  exact seeing_open htx fun t' d' L' _ hv _ _ htx' => h _ L' t' d' hv ⟨_, htx', rfl⟩

lemma supersedeEach_seeing {P : Time → Database → Prop} {start : Time} (parent : Uuid)
    (ids : List Uuid) (hL : StartedAt start L) :
    (RefreshTokens.supersedeEach parent ids).safe (seeing P) i L t d fun _ L' _ _ =>
      StartedAt start L' := by
  induction ids generalizing L t d with
  | nil => exact hL
  | cons id ids ih =>
    rw [RefreshTokens.supersedeEach, Rules.safe_bind]
    exact seeing_started hL fun v L' t' d' _ hL' => ih hL'

lemma isStolen_seeing {P : Time → Database → Prop} {start : Time}
    (current : RefreshTokens.RefreshTokenWithSession) (now : Time) (hL : StartedAt start L) :
    (OAuth.isStolen current now).safe (seeing P) i L t d fun _ L' _ _ => StartedAt start L' := by
  simp only [OAuth.isStolen]
  split
  · exact hL
  · exact (Rules.safe_bind _ _).mpr (seeing_started hL fun v L' t' d' _ hL' => hL')
  · split_ifs
    · exact hL
    · refine (Rules.safe_bind _ _).mpr (seeing_started hL fun v L' t' d' _ hL' => ?_)
      split_ifs
      · refine (Rules.safe_bind _ _).mpr ?_
        rw [RefreshTokens.supersedeUnusedSuccessors, Rules.safe_bind]
        exact seeing_started hL' fun v L'' t'' d'' _ hL'' => supersedeEach_seeing _ _ hL''
      · exact hL'

lemma sessionsRevoke_seeing {P : Time → Database → Prop} {start : Time} (id : Uuid)
    (hL : StartedAt start L) :
    (Sessions.revoke id).safe (seeing P) i L t d fun _ L' _ _ => StartedAt start L' := by
  rw [Sessions.revoke, Rules.safe_bind]
  exact seeing_started hL fun v L' t' d' _ hL' => hL'

lemma findForUpdate_seeing {token : String} {start : Time} (hstart : t₁ ≤ start)
    (htx : L.tx = some ⟨start, fun d => d, []⟩) (hnew : L.sights = [])
    {Q : Option RefreshTokens.RefreshTokenWithSession → Place sig → Time → Database → Prop}
    (hnone : ∀ L' t' d', Q none L' t' d')
    (hother : ∀ current o l L' t' d', L'.sights = o :: l →
      (∃ r, o.db.refreshTokens.find? (fun r => r.tokenHash = app.hash token) = some r ∧
        r.sessionId ≠ x) → Q (some current) L' t' d')
    (hover : ∀ current L' t' d', current.ShowsOver owner t₁ death → StartedAt start L' →
      Q (some current) L' t' d') :
    (RefreshTokens.findForUpdate (app.hash token)).safe (seeing (overFrom x owner t₁ death)) i L t d
      Q := by
  simp only [RefreshTokens.findForUpdate, Rules.safe_bind]
  refine seeing_open htx fun t₂ d₂ L₂ _ hd₂ hsights₂ _ htx₂ => ?_
  have hd₂ : d₂.Over x owner t₁ death := hd₂ hstart
  dsimp only
  cases hlookup : RefreshTokens.lookup d₂ (app.hash token) with
  | none =>
    have hread : ((RefreshTokens.find (app.hash token)).run start ⟨i, L.draws⟩ d₂).2 = none := hlookup
    rw [hread]
    exact hnone L₂ t₂ d₂
  | some found =>
    obtain ⟨r, s⟩ := found
    have hread : ((RefreshTokens.find (app.hash token)).run start ⟨i, L.draws⟩ d₂).2 = some (r, s) :=
      hlookup
    rw [hread]
    simp only [RefreshTokens.lookup, Option.bind_eq_bind, Option.bind_eq_some_iff, Option.pure_def,
      Option.some.injEq, Prod.mk.injEq] at hlookup
    obtain ⟨r, hr, s, hs, rfl, rfl⟩ := hlookup
    simp only [Rules.safe_bind]
    refine seeing_open htx₂ fun t₃ d₃ L₃ _ _ hsights₃ _ htx₃ => ?_
    dsimp only
    have hfirst : L₃.sights = ⟨.refreshTokensFind, start, d₂⟩ ::
        [⟨.refreshTokensLock r.id, start, d₃⟩] := by
      rw [hsights₃, hsights₂, hnew]
      rfl
    -- whatever row the lock returns, the columns of the session come from the lookup
    generalize ((RefreshTokens.lock r.id).run start ⟨i, L₂.draws⟩ _).2 = locked
    cases locked with
    | none => exact hnone L₃ t₃ d₃
    | some r' =>
      by_cases hsession : r.sessionId = x
      · refine hover _ L₃ t₃ d₃ ?_ ⟨_, htx₃, rfl⟩
        have hfound := List.find?_some hs
        have hid : s.id = x := (of_decide_eq_true hfound).trans hsession
        have hmem := List.mem_of_find?_eq_some hs
        cases death with
        | revoked => exact hd₂ s hmem hid
        | expired => exact hd₂ s hmem hid
        | deserted => exact hd₂.1 s hmem hid
      · exact hother _ _ _ L₃ t₃ d₃ hfirst ⟨r, hr, hsession⟩

/-- A refresh answers no tokens, unless its token is one of another session. -/
lemma refreshToken_seeing {input : OAuth.TokenRequest} {token : String} (ht : t₁ ≤ t)
    (htoken : input.refreshToken = some token) :
    Handler.safe (seeing (overFrom x owner t₁ death)) i (OAuth.refreshToken app input) {} t d
      fun r L' _ _ => ¬LooksUpOther app x token L' → ∃ e, r = .error e := by
  simp only [OAuth.refreshToken, OAuth.required, htoken, pure_bind]
  cases app.client input.clientId with
  | none => exact fun _ => ⟨_, rfl⟩
  | some client =>
    simp only [safe_bind, safe_perform, Rules.safe_clock, Rules.safe_start, seeing_others]
    intro now d₁ hnow start d₂ hstart
    refine findForUpdate_seeing ((ht.trans hnow).trans hstart) rfl rfl (fun L' t' d' _ => ⟨_, rfl⟩)
      (fun current o l L' t' d' hsights ho => ?_) fun current L' t' d' hover hstarted => ?_
    · -- the token is one of another session
      exact Rules.safe_mono (seeing_grows _) fun r L'' _ _ hgrows hlooks =>
        absurd (.grows hgrows hsights ho) hlooks
    · refine Handler.safe.mono (Q := fun r _ _ _ => ∃ e, r = .error e) ?_ fun r _ _ _ h _ => h
      simp only [safe_ite, safe_throw, safe_bind, throw_bind, safe_perform, safe_run,
        Bool.or_eq_true, decide_eq_true_eq]
      refine ⟨fun _ => ⟨_, rfl⟩, fun _ => ⟨fun _ => ⟨_, rfl⟩, fun hlive => ?_⟩⟩
      have howner : death = .deserted ∧ current.userId = owner := by
        cases death with
        | revoked => exact absurd (.inl hover) hlive
        | expired => exact absurd (.inr (le_trans hover (ht.trans hnow))) hlive
        | deserted => exact ⟨rfl, hover⟩
      obtain ⟨rfl, howner⟩ := howner
      have hrevoke : ∀ (e : OAuthError) L₃ t₃ d₃, StartedAt start L₃ →
          (Sessions.revoke current.sessionId).safe (seeing (overFrom x owner t₁ .deserted)) i L₃ t₃ d₃
            fun _ L t d => Program.safe (seeing (overFrom x owner t₁ .deserted)) i Program.finish L t d
              fun _ _ _ _ => ∃ e', (.error e : Except OAuthError OAuth.TokenResponse) = .error e' :=
        fun e L₃ t₃ d₃ hL₃ => Rules.safe_mono (sessionsRevoke_seeing _ hL₃) fun _ _ _ _ _ _ _ _ =>
          ⟨seeing_allows, e, rfl⟩
      refine Rules.safe_mono (isStolen_seeing current now hstarted) fun stolen L₃ t₃ d₃ hL₃ => ?_
      refine ⟨fun _ => hrevoke _ L₃ t₃ d₃ hL₃, fun _ => ?_⟩
      refine seeing_started hL₃ fun v L₄ t₄ d₄ hv hL₄ => ?_
      -- the account is gone
      have hgone : ((Users.findById current.userId).run start ⟨i, L₃.draws⟩ v).2 = none := by
        have hover := hv ((ht.trans hnow).trans hstart)
        refine List.find?_eq_none.mpr fun u hu => ?_
        simpa [howner] using hover.2 u hu
      rw [hgone]
      refine ⟨fun _ => hrevoke _ L₄ t₄ d₄ hL₄, fun hsome => ?_⟩
      exact absurd rfl hsome

/-- What a request does not get of the session `x`. -/
structure Request.Refused (app : App) (x : Uuid) (r : Request) (a : Response) (L : Place sig) :
    Prop where
  /-- Tokens, with any of its refresh tokens, or one that is not known any more. -/
  tokens : ∀ input token, r = .token input → input.grantType = "refresh_token" →
    input.refreshToken = some token → ¬LooksUpOther app x token L → ∃ f, a = .error f
  /-- Anything, with any of its access tokens. -/
  unauthorized : ∀ authorization, r.authorization = some authorization →
    Bears app authorization x → a = .error (.api .unauthorized)
  /-- The check of any of its codes. -/
  codes : r.authorization.isSome = true → ChecksOthers x L

lemma token_seeing {input : OAuth.TokenRequest} {token : String} (ht : t₁ ≤ t)
    (hgrant : input.grantType = "refresh_token") (htoken : input.refreshToken = some token) :
    (handle app (.token input)).safe (seeing (overFrom x owner t₁ death)) i {} t d
      fun a L' _ _ => ¬LooksUpOther app x token L' → ∃ f, a = .error f := by
  refine (Rules.safe_bind _ _).mpr (Rules.safe_mono (Q := fun r L' _ _ =>
    ¬LooksUpOther app x token L' → ∃ e, r = .error e) ?_ fun r L' _ _ h => ?_)
  · change Handler.safe _ i (OAuth.token app input) {} t d _
    rw [OAuth.token, if_neg (by simp [hgrant]), if_pos hgrant]
    exact refreshToken_seeing ht htoken
  · cases r with
    | ok a =>
      intro hlooks
      obtain ⟨e, he⟩ := h hlooks
      cases he
    | error e => exact fun _ => ⟨_, rfl⟩

/-- A request that starts when the session is over. -/
lemma handle_seeing (ht : t₁ ≤ t) (r : Request) :
    (handle app r).safe (seeing (overFrom x owner t₁ death)) i {} t d fun a L' _ _ =>
      r.Refused app x a L' := by
  cases hr : r.authorization with
  | some authorization =>
    refine Rules.safe_mono (authorized_seeing ht hr) fun a L' _ _ h => ⟨?_, ?_, fun _ => h.2⟩
    · rintro input token rfl
      cases hr
    · intro authorization' hr' hbears
      obtain rfl := Option.some.inj (hr.symm.trans hr')
      exact h.1 hbears
  | none =>
    have hnone : ∀ authorization, r.authorization ≠ some authorization := by
      intro authorization h
      cases hr.symm.trans h
    by_cases htoken : ∃ input token, r = .token input ∧ input.grantType = "refresh_token" ∧
        input.refreshToken = some token
    · obtain ⟨input, token, rfl, hgrant, htoken⟩ := htoken
      refine Rules.safe_mono (token_seeing ht hgrant htoken) fun a L' _ _ h =>
        ⟨?_, fun authorization h => absurd h (hnone authorization), fun h => by simp [hr] at h⟩
      rintro _ token' ⟨⟩ - htoken'
      obtain rfl := Option.some.inj (htoken.symm.trans htoken')
      exact h
    · refine Rules.safe_mono (seeing_any _) fun a L' _ _ _ => ⟨fun input token hr hgrant h =>
        absurd ⟨input, token, hr, hgrant, h⟩ htoken, fun authorization h => absurd h (hnone authorization),
        fun h => by simp [hr] at h⟩

end Requests

/-! ### Runs -/

/-- The session is over at the second state, or thirty days passed since the first one. -/
inductive Session.Dies (S : Session) (s₀ s₁ : ServerPool) : Prop
  | revoked {S' : Session} (hS' : S' ∈ s₁.db.sessions) (hid : S'.id = S.id)
      (h : S'.revokedAt.isSome = true)
  | expired (h : S.expiresAt ≤ s₁.clock)
  | outlived (h : s₀.clock + days 30 ≤ s₁.clock)
  | deleted (h : ∀ S' ∈ s₁.db.sessions, S'.id ≠ S.id)
  | deserted {u : User} (hu : u ∈ s₀.db.users) (hid : u.id = S.userId)
      (h : ∀ u ∈ s₁.db.users, u.id ≠ S.userId)

section Runs

variable {app : App} {clock : Time} {s₀ s₁ s₂ : ServerPool} {l m k : List ServerStep} {S : Session}

/-- What steps keep of a session that was there: its account and its expiry, and that it is
revoked. -/
lemma session_of_run (huuid : Function.Injective app.uuid)
    (hrun₀ : (sideBySide app).Run (Pool.start clock {}) l s₀) (hS : S ∈ s₀.db.sessions)
    (hrun₁ : (sideBySide app).Run s₀ m s₁) :
    ∀ S' ∈ s₁.db.sessions, S'.id = S.id → S'.userId = S.userId ∧ S'.expiresAt = S.expiresAt ∧
      (S.revokedAt.isSome = true → S'.revokedAt.isSome = true) := by
  obtain ⟨used, hfiled, hstamped⟩ := stamped_of_run huuid hrun₀
  obtain ⟨n, hn, hlt⟩ := hstamped.sessions.drawn _ (List.mem_map_of_mem hS)
  let P : Database → Prop := fun d => ∀ S' ∈ d.sessions, S'.id = S.id → S'.userId = S.userId ∧
    S'.expiresAt = S.expiresAt ∧ (S.revokedAt.isSome = true → S'.revokedAt.isSome = true)
  have hkeeps : DrawInvariant (rowStep app) fun used' d => (∀ i, used i ≤ used' i) ∧ P d := by
    refine invariant_after fun q now n' d d' hn' hd h => ?_
    refine sessions_stay (fun hsame => ?_) hd (fun S₁ S₂ h₁ hstep => ?_) h
    · obtain rfl := huuid (hsame.trans hn.symm)
      omega
    · cases hstep with
      | same => exact h₁
      | revoke => exact ⟨h₁.1, h₁.2.1, fun _ => rfl⟩
      | forget => exact h₁
  have hstart : P s₀.db := by
    intro S' hS' hid
    obtain rfl := List.inj_on_of_nodup_map hstamped.sessions.nodup hS' hS hid
    exact ⟨rfl, rfl, id⟩
  obtain ⟨-, -, -, -, h⟩ := hfiled.run hrun₁ hkeeps ⟨fun _ => le_rfl, hstart⟩
  exact h

/-- A session that dies is over, and stays so. -/
lemma over_of_dies (huuid : Function.Injective app.uuid)
    (hrun₀ : (sideBySide app).Run (Pool.start clock {}) l s₀) (hS : S ∈ s₀.db.sessions)
    (hrun₁ : (sideBySide app).Run s₀ m s₁) (hdies : S.Dies s₀ s₁) :
    ∃ death used, ServerFiled app used s₁ ∧ s₁.db.Over S.id S.userId s₁.clock death ∧
      DrawInvariant (rowStep app) fun used' d => (∀ i, used i ≤ used' i) ∧
        d.Over S.id S.userId s₁.clock death := by
  have hkept := session_of_run huuid hrun₀ hS hrun₁
  obtain ⟨used₀, hfiled₀, hstamped₀⟩ := stamped_of_run huuid hrun₀
  obtain ⟨used, hused, hfiled, hstamped⟩ := hfiled₀.run hrun₁ (Database.stamped_invariant huuid)
    hstamped₀
  have hdrawn : ∀ {x : Uuid} {ids : List Uuid}, Stamped app used₀ ids → x ∈ ids →
      ∀ n : Draw, used n.process ≤ n.index → app.uuid n ≠ x := by
    rintro x ids hids hx n hn rfl
    exact (hids.mono hused).not_mem huuid hn hx
  have hsession := hdrawn hstamped₀.sessions (List.mem_map_of_mem hS)
  have hover : ∀ death, (death = .deserted → ∃ u ∈ s₀.db.users, u.id = S.userId) →
      s₁.db.Over S.id S.userId s₁.clock death → ∃ death used, ServerFiled app used s₁ ∧
        s₁.db.Over S.id S.userId s₁.clock death ∧
        DrawInvariant (rowStep app) fun used' d => (∀ i, used i ≤ used' i) ∧
          d.Over S.id S.userId s₁.clock death := by
    intro death howner h
    refine ⟨death, used, hfiled, h, invariant_after fun q now n d d' hn hd hdover => ?_⟩
    refine hdover.evolves (hsession n hn) (fun hdeath => ?_) hd
    obtain ⟨u, hu, hid⟩ := howner hdeath
    exact hid ▸ hdrawn hstamped₀.users (List.mem_map_of_mem hu) n hn
  cases hdies with
  | @revoked S' hS' hid h =>
    refine hover .revoked nofun fun S'' hS'' hid'' => ?_
    obtain rfl := List.inj_on_of_nodup_map hstamped.sessions.nodup hS' hS'' (hid.trans hid''.symm)
    exact h
  | expired h => exact hover .expired nofun fun S' hS' hid => (hkept S' hS' hid).2.1 ▸ h
  | outlived h =>
    refine hover .expired nofun fun S' hS' hid => ?_
    rw [(hkept S' hS' hid).2.1]
    exact (expiry_of_run hrun₀ S hS).trans h
  | deleted h => exact hover .revoked nofun fun S' hS' hid => absurd hid (h S' hS')
  | @deserted u hu hid h =>
    exact hover .deserted (fun _ => ⟨u, hu, hid⟩) ⟨fun S' hS' hid => (hkept S' hS' hid).1, h⟩

/-- Requests that start while a session is over are refused what they ask of it. -/
lemma refused_of_run {used : ℕ → ℕ} {death : Death} {owner x : Uuid} {clock : Time}
    (hrun₁ : (sideBySide app).Run (Pool.start clock {}) l s₁) (hfiled : ServerFiled app used s₁)
    (hover : s₁.db.Over x owner s₁.clock death)
    (hkeeps : DrawInvariant (rowStep app) fun used' d => (∀ i, used i ≤ used' i) ∧
      d.Over x owner s₁.clock death)
    (hrun₂ : (sideBySide app).Run s₁ k s₂) {i : ℕ} {p : Proc sig Request Response} {a : Response}
    (hi : s₁.procs.length ≤ i) (hp : s₂.procs[i]? = some p) (ha : p.answer = some a) :
    p.request.Refused app x a p.place := by
  let E : ℕ → Request → Response → Place sig → Time → Database → Prop := fun i r a L _ _ =>
    s₁.procs.length ≤ i → r.Refused app x a L
  let D := seeing (overFrom x owner s₁.clock death)
  -- the locks that exclude one another do so whatever the rules are
  have hbefore : (seeing fun _ _ => True).Guarded (fun _ _ _ _ _ _ => True) s₁ :=
    (Rules.guarded_of_run Rules.guarded_start hrun₁
      (fun _ _ _ _ _ => ⟨fun _ => trivial, fun _ _ _ _ _ _ => trivial⟩)
      (Rules.requests_of_run hrun₁) RowLock.conflict_comm
      (fun _ _ => seeing_stable fun _ _ _ _ _ h => h) fun _ _ _ _ _ _ _ => seeing_any _).1
  have hguarded₁ : D.Guarded E s₁ := by
    refine ⟨fun j q program hj _ => ?_, fun j q hj => hbefore.tidy j q hj, hbefore.exclusive⟩
    refine Rules.safe_mono (seeing_any _) fun a L _ _ _ hle => ?_
    exact absurd (List.getElem?_eq_some_iff.mp hj).1 (not_lt.mpr hle)
  have hstable : ∀ i r, D.Stable i (E i r) := by
    intro i r
    refine seeing_stable fun a L L' hevents hsights h hle => ?_
    obtain ⟨htokens, hunauthorized, hcodes⟩ := h hle
    refine ⟨fun input token hr hgrant htoken hlooks => ?_, hunauthorized, fun hr => ?_⟩
    · exact htokens input token hr hgrant htoken (by rwa [LooksUpOther, hsights] at hlooks)
    · exact (hcodes hr).sees ⟨fun o ho => hsights ▸ ho, hevents⟩
  have hmeets : ∀ q ∈ k, D.Meets q := by
    intro q hq j reply _
    obtain ⟨m, m', rfl⟩ := List.append_of_mem hq
    obtain ⟨hm, -, -⟩ := hrun₂.around
    obtain ⟨used', -, hfiled', hover'⟩ := hfiled.run hm hkeeps ⟨fun _ => le_rfl, hover⟩
    refine ⟨fun _ => trivial, fun r program hj _ o _ _ => ?_⟩
    obtain ⟨-, -, -, hview⟩ := hfiled'.view hkeeps hover' hj
    exact hview
  obtain ⟨hguarded, -, -⟩ := Rules.guarded_of_run hguarded₁ hrun₂ hmeets
    (Rules.requests_of_run hrun₂) RowLock.conflict_comm hstable fun j r t d _ ht _ =>
      Rules.safe_mono (handle_seeing ht r) fun _ _ _ _ h _ => h
  exact hguarded.safe i p _ hp (safe_of_answer ha) hi

/-- The death of a session is permanent and immediate: its expiry is never moved and it stays
revoked, and no request that starts later, whatever it runs beside, gets tokens for it, is
authenticated by it or checks a code of it. -/
theorem death_permanent (huuid : Function.Injective app.uuid)
    (hrun₀ : (sideBySide app).Run (Pool.start clock {}) l s₀) (hS : S ∈ s₀.db.sessions)
    (hrun₁ : (sideBySide app).Run s₀ m s₁) (hdies : S.Dies s₀ s₁)
    (hrun₂ : (sideBySide app).Run s₁ k s₂) :
    (∀ S' ∈ s₂.db.sessions, S'.id = S.id → S'.expiresAt = S.expiresAt ∧
      (S.revokedAt.isSome = true → S'.revokedAt.isSome = true)) ∧
      S.expiresAt ≤ s₀.clock + days 30 ∧
      ∀ (i : ℕ) (p : Proc sig Request Response) a, s₁.procs.length ≤ i →
        s₂.procs[i]? = some p → p.answer = some a → p.request.Refused app S.id a p.place := by
  refine ⟨fun S' hS' hid => ?_, expiry_of_run hrun₀ S hS, fun i p a hi hp ha => ?_⟩
  · exact (session_of_run huuid hrun₀ hS (hrun₁.append hrun₂) S' hS' hid).2
  · obtain ⟨death, used, hfiled, hover, hkeeps⟩ := over_of_dies huuid hrun₀ hS hrun₁ hdies
    exact refused_of_run (hrun₀.append hrun₁) hfiled hover hkeeps hrun₂ hi hp ha

/-- A request that nothing interleaves with. -/
def exampleAlone (r : Request) (i : ℕ) : List ServerAction :=
  .spawn r :: List.replicate 16 (.advance i exampleReply)

/-- After a logout, a refresh is refused. -/
theorem death_permanent_logout : ∃ (s₀ s₁ s₂ : ServerPool) (S : Session)
    (p : Proc sig Request Response) (a : Response), S ∈ s₀.db.sessions ∧ S.Dies s₀ s₁ ∧
      p ∈ s₂.procs ∧ p.request = refreshWith "app" "ppp-iii" ∧ p.answer = some a ∧
      p.request.Refused exampleApp S.id a p.place := by
  have hexec : (((sideBySide exampleApp).exec (Pool.start 0 {})
      (exampleLogin.zipIdx.flatMap fun r => exampleAlone r.1.2 r.2)).any fun r₀ =>
      ((sideBySide exampleApp).exec r₀.2
        (exampleAlone (.revoke { token := "ppp-iii", clientId := "app" }) 4)).any fun r₁ =>
      ((sideBySide exampleApp).exec r₁.2
        (exampleAlone (refreshWith "app" "ppp-iii") 5)).any fun r₂ =>
      (r₀.2.db.sessions.any fun S => r₁.2.db.sessions.any fun S' =>
        S'.id = S.id && S'.revokedAt.isSome) && r₁.2.procs.length = 5 &&
      (r₂.2.procs[5]?).any fun p => p.request = refreshWith "app" "ppp-iii" &&
        p.answer.isSome) = true := by
    decide +kernel
  obtain ⟨⟨l, s₀⟩, h₀, hexec⟩ := (Option.any_eq_true _ _).mp hexec
  obtain ⟨⟨m, s₁⟩, h₁, hexec⟩ := (Option.any_eq_true _ _).mp hexec
  obtain ⟨⟨k, s₂⟩, h₂, hchecks⟩ := (Option.any_eq_true _ _).mp hexec
  simp only [Bool.and_eq_true, Option.any_eq_true, List.any_eq_true, decide_eq_true_eq,
    Option.isSome_iff_exists] at hchecks
  obtain ⟨⟨⟨S, hS, S', hS', hid, hrevoked⟩, hlength⟩, p, hp, hrequest, a, ha⟩ := hchecks
  have hdies : S.Dies s₀ s₁ := .revoked hS' hid (Option.isSome_iff_exists.mpr hrevoked)
  obtain ⟨-, -, hrefused⟩ := death_permanent exampleApp_uuid_injective (System.exec_run h₀) hS
    (System.exec_run h₁) hdies (System.exec_run h₂)
  exact ⟨s₀, s₁, s₂, S, p, a, hS, hdies, List.mem_of_getElem? hp, hrequest, ha,
    hrefused 5 p a hlength.le hp ha⟩

end Runs

end Bauth
