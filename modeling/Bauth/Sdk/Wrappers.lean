import Bauth.Sdk.Session

/-!
# One request, through the middleware or the fetcher

The same request made with nothing else going on, through openapi-fetch with `middleware` and
through `fetcher`: what is sent to the API, how often bauth is asked for tokens, and how the call
ends.
-/

namespace Bauth

open Transition

namespace Sdk

/-! ### A call alone -/

/-- What a call changes, and what it did: the bearer tokens sent and the calls of
`bauth.refresh`. -/
structure World where
  clock : ℤ
  store : Option StoredTokens
  replayable : List (ℕ × ℕ) := []
  sent : List (Option String) := []
  refreshes : ℕ := 0
  deriving DecidableEq

/-- What the API answers to each request, and bauth to each refresh, in order, and how many
milliseconds each of them takes. -/
structure Outside where
  status : ℕ → ℕ
  statusAfter : ℕ → ℕ
  tokens : ℕ → Except Error Tokens
  tokensAfter : ℕ → ℕ

/-- The request of `refresh`, from reading the store to writing it. -/
def refreshAlone (net : Outside) (w : World) : Except Error (Option String) × World :=
  match w.store with
  | none => (.ok none, w)
  | some _ =>
    let asked := { w with
      clock := w.clock + net.tokensAfter w.refreshes
      refreshes := w.refreshes + 1 }
    match Refresh.answered asked.clock (net.tokens w.refreshes) with
    | .writing value token => (.ok token, { asked with store := value })
    | .settled result => (result, asked)
    | _ => (.ok none, asked)

/-- A request to the API, and its answer. -/
def Outside.send (net : Outside) (w : World) (authorization : Option String) : World :=
  { w with
    clock := w.clock + net.statusAfter w.sent.length
    sent := w.sent ++ [authorization] }

/-- What an operation answers to the only call there is. -/
def answerAlone (net : Outside) (w : World) : (op : Op) → Except Error op.Answer × World
  | .read => (.ok w.store, w)
  | .write value => (.ok (), { w with store := value })
  | .refresh | .refreshOnce _ => refreshAlone net w
  | .promise _ _ => (.ok none, w)
  | .send authorization =>
    (.ok (net.status w.sent.length), net.send w authorization)
  | .revoke _ => (.ok (), w)
  | .now => (.ok w.clock, w)
  | .keep m id => (.ok (), { w with replayable := (m, id) :: w.replayable })
  | .take m id =>
    (.ok (w.replayable.contains (m, id)),
      { w with replayable := w.replayable.filter (· ≠ (m, id)) })

/-- A request through openapi-fetch: `onRequest`, the request, `onResponse`. A hook that throws
rejects the call. -/
def openapiFetch (o : Options) (m id : ℕ) : Async awaits Outcome := do
  match ← onRequest o m id with
  | .request authorization =>
    match ← (send authorization).attempt with
    | .error e => do
      let _ ← onError m id
      .done (.error e)
    | .ok status =>
      match ← onResponse m id status with
      | .response none unauthorized => return .response (some status) unauthorized
      | replaced => return replaced
  | other => return other

/-! ### What the two runs come to -/

/-- A session about to make its first request. -/
def World.start (clock : ℤ) (store : Option StoredTokens) : World := { clock, store }

lemma truthy_none : truthy none = none := rfl

lemma truthy_empty : truthy (some "") = none := rfl

lemma truthy_some {s : String} (h : s ≠ "") : truthy (some s) = some s := by
  simp [truthy, h]

section Runs

variable {net : Outside} {o : Options} {w : World} {m id : ℕ}

@[simp] lemma readStore_alone : readStore.runWith (answerAlone net) w = (.ok w.store, w) := rfl

@[simp] lemma dateNow_alone : dateNow.runWith (answerAlone net) w = (.ok w.clock, w) := rfl

@[simp] lemma refresh_alone : refresh.runWith (answerAlone net) w = refreshAlone net w := rfl

@[simp] lemma refreshOnce_alone :
    (refreshOnce m).runWith (answerAlone net) w = refreshAlone net w := rfl

@[simp] lemma send_alone (authorization : Option String) :
    (send authorization).runWith (answerAlone net) w =
      (.ok (net.status w.sent.length), net.send w authorization) := rfl

@[simp] lemma send_attempt_alone (authorization : Option String) :
    ((send authorization).attempt : Async awaits (Except Error ℕ)).runWith (answerAlone net) w =
      (.ok (.ok (net.status w.sent.length)), net.send w authorization) := rfl

/-- `accessToken` with nothing else going on. -/
lemma accessToken_alone : (accessToken o).runWith (answerAlone net) w =
    match w.store with
    | none => (.ok none, w)
    | some stored =>
      if isExpiring o w.clock stored o.expiryMarginMs then
        match refreshAlone net w with
        | (.ok token, w') => (.ok token, w')
        | (.error _, w') =>
          (.ok (if isExpiring o w'.clock stored 0 then none else some stored.accessToken), w')
      else (.ok (some stored.accessToken), w) := by
  simp only [accessToken, Async.runWith_bind, readStore_alone]
  cases hstore : w.store with
  | none => rfl
  | some stored =>
    simp only [Async.runWith_bind, dateNow_alone]
    cases hexpiring : isExpiring o w.clock stored o.expiryMarginMs with
    | false => simp
    | true =>
      simp only [Bool.not_true, Bool.false_eq_true, if_false, if_true, Async.runWith_catching,
        refresh_alone]
      rcases refreshAlone net w with ⟨_ | token, w'⟩
      · simp [Async.runWith_bind]
      · rfl

/-- The token `onRequest` sends. -/
lemma requestToken_alone : (requestToken o m).runWith (answerAlone net) w =
    match w.store with
    | none => (.ok none, w)
    | some stored =>
      if stored.accessToken ≠ "" ∧ isExpiring o w.clock stored o.expiryMarginMs then
        match refreshAlone net w with
        | (.ok token, w') => (.ok (token <|> some stored.accessToken), w')
        | (.error _, w') => (.ok (some stored.accessToken), w')
      else (.ok (some stored.accessToken), w) := by
  simp only [requestToken, Async.runWith_bind, readStore_alone]
  cases hstore : w.store with
  | none => rfl
  | some stored =>
    simp only [Option.map_some]
    by_cases hempty : stored.accessToken = ""
    · simp [hempty, truthy_empty]
    · simp only [truthy_some hempty, isAccessTokenExpiring, Async.runWith_bind, readStore_alone,
        hstore, dateNow_alone, Async.runWith_pure, ne_eq, hempty, not_false_eq_true, true_and]
      cases hexpiring : isExpiring o w.clock stored o.expiryMarginMs with
      | false => simp
      | true =>
        simp only [if_true, Async.runWith_bind, Async.runWith_catching, refreshOnce_alone]
        rcases refreshAlone net w with ⟨_ | token, w'⟩
        · simp
        · simp

/-- What follows a 401: a refresh and, with its token, the replay. The call ends with `ended` when
the refresh gives no token, and with `failed` of the error when it throws. -/
def afterRefusal (net : Outside) (ended : Outcome) (failed : Error → Except Error Outcome)
    (w : World) : Except Error Outcome × World :=
  match refreshAlone net w with
  | (.error e, w') => (failed e, w')
  | (.ok next, w') =>
    match truthy next with
    | none => (.ok ended, w')
    | some token =>
      let retried := net.status w'.sent.length
      (.ok (.response (some retried) (retried = 401)), net.send w' (some token))

lemma onRequest_alone : (onRequest o m id).runWith (answerAlone net) w =
    match (requestToken o m).runWith (answerAlone net) w with
    | (.error e, w') => (.error e, w')
    | (.ok token, w') =>
      (.ok (.request (truthy token)), { w' with replayable := (m, id) :: w'.replayable }) := by
  simp only [onRequest, Async.runWith_bind]
  generalize (requestToken o m).runWith (answerAlone net) w = r
  obtain ⟨_ | token, w'⟩ := r
  · rfl
  · rfl

lemma onResponse_alone {status : ℕ} (h : (m, id) ∈ w.replayable) :
    (onResponse m id status).runWith (answerAlone net) w =
      let taken := { w with replayable := w.replayable.filter (· ≠ (m, id)) }
      if status = 401 then afterRefusal net (.response none true) .error taken
      else (.ok (.response none false), taken) := by
  have htake : (onResponse m id status).runWith (answerAlone net) w =
      Async.runWith (answerAlone net)
        (if status ≠ 401 || !w.replayable.contains (m, id) then return .response none false
          else do
            match truthy (← refreshOnce m) with
            | none => return .response none true
            | some accessToken =>
              let retried ← send (some accessToken)
              return .response (some retried) (retried = 401))
        { w with replayable := w.replayable.filter (· ≠ (m, id)) } := rfl
  rw [htake]
  by_cases hstatus : status = 401
  · simp only [hstatus, h, afterRefusal, List.contains_eq_mem, ne_eq, not_true_eq_false,
      decide_false, decide_true, Bool.not_true, Bool.or_self, Bool.false_eq_true, if_false, if_true,
      Async.runWith_bind, refreshOnce_alone]
    generalize refreshAlone net _ = r
    obtain ⟨_ | next, w'⟩ := r
    · rfl
    · cases hnext : truthy next <;> simp [hnext, Async.runWith_bind]
  · simp [hstatus]

/-- `openapiFetch` with nothing else going on. -/
lemma openapiFetch_alone {token : Option String} {w' : World}
    (h : (requestToken o m).runWith (answerAlone net) w = (.ok token, w'))
    (hkept : w'.replayable = []) :
    (openapiFetch o m id).runWith (answerAlone net) w =
      let status := net.status w'.sent.length
      if status = 401 then
        afterRefusal net (.response (some status) true) .error (net.send w' (truthy token))
      else (.ok (.response (some status) false), net.send w' (truthy token)) := by
  rw [openapiFetch, Async.runWith_bind, onRequest_alone, h]
  simp only [Async.runWith_bind]
  rw [send_attempt_alone]
  simp only [Async.runWith_bind]
  rw [onResponse_alone (by simp [Outside.send])]
  by_cases hstatus : net.status w'.sent.length = 401
  · have hreplay : ((m, id) :: w'.replayable).filter (· ≠ (m, id)) = w'.replayable := by
      simp [hkept]
    simp only [hstatus, Outside.send, afterRefusal, if_true, hreplay]
    generalize refreshAlone net _ = r
    obtain ⟨_ | next, w''⟩ := r
    · rfl
    · cases hnext : truthy next <;> simp [hnext]
  · simp [hstatus, Outside.send, hkept]

/-- The end of `fetcher`: the replay with the token that `next` gives. -/
lemma replay_alone (next : Async awaits (Option String)) (status : ℕ) :
    Async.runWith (answerAlone net)
        (do
          match ← next.attempt with
          | .error _ => return Outcome.response (some status) false
          | .ok next =>
            match truthy next with
            | none => return Outcome.response (some status) true
            | some next =>
              let retried ← send (some next)
              return Outcome.response (some retried) (retried = 401)) w =
      match next.runWith (answerAlone net) w with
      | (.error _, w') => (.ok (Outcome.response (some status) false), w')
      | (.ok next, w') =>
        match truthy next with
        | none => (.ok (Outcome.response (some status) true), w')
        | some token =>
          let retried := net.status w'.sent.length
          (.ok (Outcome.response (some retried) (retried = 401)), net.send w' (some token)) := by
  rw [Async.runWith_bind, Async.runWith_attempt]
  generalize next.runWith (answerAlone net) w = r
  obtain ⟨_ | next, w'⟩ := r
  · rfl
  · cases hnext : truthy next <;> simp [hnext, Async.runWith_bind]

/-- `fetcher` without a token to send. -/
lemma fetcher_loggedOut {token : Option String} {w' : World}
    (h : (accessToken o).runWith (answerAlone net) w = (.ok token, w'))
    (htoken : truthy token = none) :
    (fetcher o).runWith (answerAlone net) w =
      (.ok (.response (some (net.status w'.sent.length)) false), net.send w' none) := by
  rw [fetcher, Async.runWith_bind, h]
  simp [htoken, Async.runWith_bind]

/-- `fetcher` with a token that the store still holds. -/
lemma fetcher_alone {token : Option String} {sent : String} {w' : World}
    (h : (accessToken o).runWith (answerAlone net) w = (.ok token, w'))
    (htoken : truthy token = some sent)
    (hstore : truthy (w'.store.map StoredTokens.accessToken) = some sent) :
    (fetcher o).runWith (answerAlone net) w =
      let status := net.status w'.sent.length
      if status = 401 then
        afterRefusal net (.response (some status) true)
          (fun _ => .ok (.response (some status) false)) (net.send w' (some sent))
      else (.ok (.response (some status) false), net.send w' (some sent)) := by
  rw [fetcher, Async.runWith_bind, h]
  simp only [htoken, Async.runWith_bind, send_alone]
  by_cases hstatus : net.status w'.sent.length = 401
  · simp only [hstatus, ne_eq, not_true_eq_false, if_false, if_true]
    rw [Async.runWith_bind, readStore_alone]
    refine (replay_alone _ 401).trans ?_
    have hsame : (net.send w' (some sent)).store = w'.store := rfl
    simp only [hsame, hstore, Option.isSome_some, not_true_eq_false, decide_false,
      Bool.and_false, Bool.false_eq_true, if_false, refresh_alone]
    rfl
  · simp [hstatus]

lemma refreshAlone_some {stored : StoredTokens} (h : w.store = some stored) :
    refreshAlone net w =
      match net.tokens w.refreshes with
      | .ok tokens =>
        (.ok (some tokens.accessToken),
          { w with
            clock := w.clock + net.tokensAfter w.refreshes
            refreshes := w.refreshes + 1
            store := some (toStored (w.clock + net.tokensAfter w.refreshes) tokens) })
      | .error e =>
        let asked := { w with
          clock := w.clock + net.tokensAfter w.refreshes
          refreshes := w.refreshes + 1 }
        if e = .bauth "invalid_grant" then (.ok none, { asked with store := none })
        else (.error e, asked) := by
  simp only [refreshAlone, h]
  cases net.tokens w.refreshes with
  | ok tokens => rfl
  | error e =>
    by_cases he : e = .bauth "invalid_grant"
    · simp [Refresh.answered, Refresh.caught, he]
    · simp [Refresh.answered, Refresh.caught, he]

end Runs

/-! ### When the two agree -/

/-- Two calls sent the same requests, asked bauth as often and ended with the same response,
`onUnauthorized` called or not; neither threw. -/
def Alike (a b : Except Error Outcome × World) : Prop :=
  a.2.sent = b.2.sent ∧ a.2.refreshes = b.2.refreshes ∧
    ∃ status unauthorized, a.1 = .ok (.response (some status) unauthorized) ∧
      b.1 = .ok (.response (some status) unauthorized)

/-- Refresh `n` fails, and not because the session is ended. -/
def Outside.Unreachable (net : Outside) (n : ℕ) : Prop :=
  ∃ e, net.tokens n = .error e ∧ e ≠ .bauth "invalid_grant"

/-- After a 401 the wrappers differ when the refresh throws: the fetcher keeps the response and
the middleware throws. -/
lemma alike_afterRefusal {net : Outside} {w : World} {stored : StoredTokens} {status : ℕ}
    (h : w.store = some stored) :
    Alike
        (afterRefusal net (.response (some status) true)
          (fun _ => .ok (.response (some status) false)) w)
        (afterRefusal net (.response (some status) true) .error w) ↔
      ¬ net.Unreachable w.refreshes := by
  simp only [afterRefusal, refreshAlone_some h, Outside.Unreachable]
  cases htokens : net.tokens w.refreshes with
  | ok tokens =>
    by_cases hempty : tokens.accessToken = ""
    · simp [hempty, truthy_empty, Alike]
    · simp [truthy_some hempty, Alike]
  | error e =>
    by_cases he : e = .bauth "invalid_grant"
    · simp [he, truthy_none, Alike]
    · simp [he, Alike]

lemma refreshAlone_sent (net : Outside) (w : World) : (refreshAlone net w).2.sent = w.sent := by
  cases hstore : w.store with
  | none => simp [refreshAlone, hstore]
  | some stored =>
    rw [refreshAlone_some hstore]
    cases net.tokens w.refreshes with
    | ok tokens => rfl
    | error e => by_cases he : e = .bauth "invalid_grant" <;> simp [he]

/-- What follows a 401 does not change what was sent. -/
lemma afterRefusal_sent (net : Outside) (ended : Outcome) (failed : Error → Except Error Outcome)
    (w : World) : ∃ more, (afterRefusal net ended failed w).2.sent = w.sent ++ more := by
  have hsent := refreshAlone_sent net w
  unfold afterRefusal
  generalize refreshAlone net w = r at hsent ⊢
  obtain ⟨_ | next, w'⟩ := r
  · exact ⟨[], by simpa using hsent⟩
  · cases hnext : truthy next with
    | none => exact ⟨[], by simpa [hnext] using hsent⟩
    | some token => exact ⟨[some token], by simp [hnext, Outside.send, ← hsent]⟩

/-- With tokens in the store a 401 costs one refresh. -/
lemma afterRefusal_refreshes {net : Outside} {ended : Outcome}
    {failed : Error → Except Error Outcome} {w : World} {stored : StoredTokens}
    (h : w.store = some stored) :
    (afterRefusal net ended failed w).2.refreshes = w.refreshes + 1 := by
  have hrefreshes : (refreshAlone net w).2.refreshes = w.refreshes + 1 := by
    rw [refreshAlone_some h]
    cases net.tokens w.refreshes with
    | ok tokens => rfl
    | error e => by_cases he : e = .bauth "invalid_grant" <;> simp [he]
  unfold afterRefusal
  generalize refreshAlone net w = r at hrefreshes ⊢
  obtain ⟨_ | next, w'⟩ := r
  · exact hrefreshes
  · cases hnext : truthy next <;> simpa [hnext, Outside.send] using hrefreshes

/-- A refresh that brings no token ends the call unauthorized, or throws. -/
lemma afterRefusal_noToken {net : Outside} {w : World} {stored : StoredTokens} {status : ℕ}
    (h : w.store = some stored)
    (hno : ∀ tokens, net.tokens w.refreshes = .ok tokens → tokens.accessToken = "") :
    (afterRefusal net (.response (some status) true) .error w).1 ≠
      .ok (.response (some status) false) := by
  simp only [afterRefusal, refreshAlone_some h]
  cases htokens : net.tokens w.refreshes with
  | ok tokens => simp [hno tokens htokens, truthy_empty]
  | error e => by_cases he : e = .bauth "invalid_grant" <;> simp [he, truthy_none]

/-- Calls whose first requests carry different tokens are not alike. -/
lemma not_alike_of_first {a b : Except Error Outcome × World} {first first' : Option String}
    (ha : a.2.sent.head? = some first) (hb : b.2.sent.head? = some first') (h : first ≠ first') :
    ¬ Alike a b := by
  rintro ⟨hsent, -⟩
  rw [hsent, hb] at ha
  exact h (Option.some.inj ha).symm

lemma head?_sent {net : Outside} {ended : Outcome} {failed : Error → Except Error Outcome}
    {w : World} {status : ℕ} {r : Except Error Outcome} {first : Option String}
    (hw : w.sent = [first]) :
    (if status = 401 then afterRefusal net ended failed w else (r, w)).2.sent.head? =
      some first := by
  obtain ⟨more, hmore⟩ := afterRefusal_sent net ended failed w
  by_cases hstatus : status = 401
  · rw [if_pos hstatus, hmore, hw]
    rfl
  · rw [if_neg hstatus, hw]
    rfl

/-- Where the two wrappers behave alike, for what the store holds when the request is made. -/
def AgreesOn (o : Options) (net : Outside) (clock : ℤ) : Option StoredTokens → Prop
  | none => net.status 0 ≠ 401
  | some stored =>
    if stored.accessToken = "" then
      isExpiring o clock stored o.expiryMarginMs = false ∧ net.status 0 ≠ 401
    else if isExpiring o clock stored o.expiryMarginMs then
      match net.tokens 0 with
      | .ok tokens => net.status 0 = 401 → tokens.accessToken ≠ "" ∧ ¬ net.Unreachable 1
      | .error e =>
        -- the token may have expired until the refresh failed
        e ≠ .bauth "invalid_grant" ∧ isExpiring o (clock + net.tokensAfter 0) stored 0 = false ∧
          (net.status 0 = 401 → ¬ net.Unreachable 1)
    else net.status 0 = 401 → ¬ net.Unreachable 0

section Stored

variable {o : Options} {net : Outside} {clock : ℤ} {stored : StoredTokens} (m id : ℕ)

/-- An empty token is sent by neither, and refreshed ahead by the fetcher only. -/
lemma alike_empty_iff (hempty : stored.accessToken = "") :
    Alike ((fetcher o).runWith (answerAlone net) { clock, store := some stored })
        ((openapiFetch o m id).runWith (answerAlone net) { clock, store := some stored }) ↔
      AgreesOn o net clock (some stored) := by
  have hrefresh : refreshAlone net { clock, store := some stored } = _ := refreshAlone_some rfl
  have hf : (accessToken o).runWith (answerAlone net) { clock, store := some stored } = _ :=
    accessToken_alone
  have hm : (requestToken o m).runWith (answerAlone net) { clock, store := some stored } = _ :=
    requestToken_alone
  have hnone : truthy (some stored.accessToken) = none := by rw [hempty, truthy_empty]
  simp only [hempty, ne_eq, not_true_eq_false, false_and, if_false] at hm
  rw [openapiFetch_alone hm rfl, truthy_empty]
  cases hexpiring : isExpiring o clock stored o.expiryMarginMs with
  | false =>
    simp only [hexpiring, Bool.false_eq_true, if_false] at hf
    rw [fetcher_loggedOut hf hnone]
    by_cases hstatus : net.status 0 = 401
    · have hfalse : ¬ AgreesOn o net clock (some stored) := by
        simp [AgreesOn, hempty, hstatus]
      refine iff_of_false ?_ hfalse
      rintro ⟨-, hrefreshes, -⟩
      simp only [hstatus, List.length_nil, if_true] at hrefreshes
      rw [afterRefusal_refreshes rfl] at hrefreshes
      simp [Outside.send] at hrefreshes
    · simp [AgreesOn, hempty, hexpiring, hstatus, Alike]
  | true =>
    have hfalse : ¬ AgreesOn o net clock (some stored) := by
      simp [AgreesOn, hempty, hexpiring]
    refine iff_of_false ?_ hfalse
    -- the fetcher refreshed ahead and sends no token: it cannot end as the middleware does
    have hsilent {token : Option String} {w' : World}
        (hw' : (accessToken o).runWith (answerAlone net) { clock, store := some stored } =
          (.ok token, w')) (htoken : truthy token = none) (hsent : w'.sent = [])
        (hrefreshes : w'.refreshes = 1)
        (hno : ∀ tokens, net.tokens 0 = .ok tokens → tokens.accessToken = "") : 
        ¬ Alike ((fetcher o).runWith (answerAlone net) { clock, store := some stored })
          (if net.status 0 = 401 then
            afterRefusal net (.response (some (net.status 0)) true) .error
              (net.send { clock, store := some stored } none)
          else (.ok (.response (some (net.status 0)) false),
            net.send { clock, store := some stored } none)) := by
      rw [fetcher_loggedOut hw' htoken, hsent]
      rintro ⟨-, hcount, status, unauthorized, hf, hm⟩
      obtain ⟨rfl, rfl⟩ : net.status 0 = status ∧ false = unauthorized := by simpa using hf
      by_cases hstatus : net.status 0 = 401
      · rw [if_pos hstatus] at hm
        exact afterRefusal_noToken rfl hno hm
      · simp [hstatus, Outside.send, hrefreshes] at hcount
    simp only [hexpiring, if_true, hrefresh] at hf
    cases htokens : net.tokens 0 with
    | ok tokens =>
      simp only [htokens] at hf
      by_cases hnew : tokens.accessToken = ""
      · have htoken : truthy (some tokens.accessToken) = none := by rw [hnew, truthy_empty]
        refine hsilent hf htoken rfl rfl fun _ htokens' => ?_
        cases htokens.symm.trans htokens'
        exact hnew
      · have hsent := truthy_some hnew
        rw [fetcher_alone hf hsent hsent]
        exact not_alike_of_first (head?_sent rfl) (head?_sent rfl) (by simp)
    | error e =>
      simp only [htokens] at hf
      have hno (tokens : Tokens) (h : net.tokens 0 = .ok tokens) : tokens.accessToken = "" := by
        cases htokens.symm.trans h
      by_cases he : e = .bauth "invalid_grant"
      · simp only [he, if_true] at hf
        exact hsilent hf rfl rfl rfl hno
      · simp only [he, if_false] at hf
        refine hsilent hf ?_ rfl rfl hno
        cases isExpiring o (clock + net.tokensAfter 0) stored 0 with
        | true => rfl
        | false => exact hnone

lemma alike_stored_iff (hempty : stored.accessToken ≠ "") :
    Alike ((fetcher o).runWith (answerAlone net) { clock, store := some stored })
        ((openapiFetch o m id).runWith (answerAlone net) { clock, store := some stored }) ↔
      AgreesOn o net clock (some stored) := by
  have hrefresh : refreshAlone net { clock, store := some stored } = _ := refreshAlone_some rfl
  have hf : (accessToken o).runWith (answerAlone net) { clock, store := some stored } = _ :=
    accessToken_alone
  have hm : (requestToken o m).runWith (answerAlone net) { clock, store := some stored } = _ :=
    requestToken_alone
  have hold := truthy_some hempty
  cases hexpiring : isExpiring o clock stored o.expiryMarginMs with
  | false =>
    simp only [hexpiring, Bool.false_eq_true, and_false, if_false] at hf hm
    rw [fetcher_alone hf hold hold, openapiFetch_alone hm rfl, hold]
    by_cases hstatus : net.status 0 = 401
    · simp only [AgreesOn, hempty, hexpiring, hstatus, List.length_nil, Bool.false_eq_true,
        if_false, if_true, true_imp_iff]
      exact alike_afterRefusal rfl
    · simp [AgreesOn, hempty, hexpiring, hstatus, Alike]
  | true =>
    simp only [hexpiring, hempty, ne_eq, not_false_eq_true, and_self, if_true, hrefresh] at hf hm
    cases htokens : net.tokens 0 with
    | ok tokens =>
      simp only [htokens] at hf hm
      by_cases hnew : tokens.accessToken = ""
      · rw [fetcher_loggedOut hf (by rw [hnew, truthy_empty]), openapiFetch_alone hm rfl]
        by_cases hstatus : net.status 0 = 401
        · -- the fetcher sends no token and leaves it at that, the middleware refreshes again
          have hfalse : ¬ AgreesOn o net clock (some stored) := by
            simp [AgreesOn, hempty, hexpiring, htokens, hstatus, hnew]
          refine iff_of_false ?_ hfalse
          rintro ⟨-, hrefreshes, -⟩
          simp only [hstatus, List.length_nil, if_true] at hrefreshes
          rw [afterRefusal_refreshes rfl] at hrefreshes
          simp [Outside.send] at hrefreshes
        · simp [AgreesOn, hempty, hexpiring, htokens, hstatus, Alike, hnew, truthy_empty]
      · have hsent := truthy_some hnew
        have hfirst : truthy (some tokens.accessToken <|> some stored.accessToken) =
            some tokens.accessToken := hsent
        rw [fetcher_alone hf hsent hsent, openapiFetch_alone hm rfl, hfirst]
        by_cases hstatus : net.status 0 = 401
        · simp only [AgreesOn, hempty, hexpiring, htokens, hstatus, hnew, List.length_nil,
            if_false, if_true, true_imp_iff, ne_eq, not_false_eq_true, true_and]
          exact alike_afterRefusal rfl
        · simp [AgreesOn, hempty, hexpiring, htokens, hstatus, Alike]
    | error e =>
      simp only [htokens] at hf hm
      by_cases he : e = .bauth "invalid_grant"
      · simp only [he, if_true] at hf hm
        have hfalse : ¬ AgreesOn o net clock (some stored) := by
          simp [AgreesOn, hempty, hexpiring, htokens, he]
        rw [fetcher_loggedOut hf rfl, openapiFetch_alone hm rfl]
        have hfirst : truthy (none <|> some stored.accessToken) = some stored.accessToken := hold
        rw [hfirst]
        exact iff_of_false (not_alike_of_first rfl (head?_sent rfl) (by simp)) hfalse
      · simp only [he, if_false] at hf hm
        rw [openapiFetch_alone hm rfl, hold]
        cases hexpired : isExpiring o (clock + net.tokensAfter 0) stored 0 with
        | true =>
          -- an expired token is sent by the middleware only
          simp only [hexpired, if_true] at hf
          have hfalse : ¬ AgreesOn o net clock (some stored) := by
            simp [AgreesOn, hempty, hexpiring, htokens, hexpired]
          rw [fetcher_loggedOut hf rfl]
          exact iff_of_false (not_alike_of_first rfl (head?_sent rfl) (by simp)) hfalse
        | false =>
          simp only [hexpired, Bool.false_eq_true, if_false] at hf
          rw [fetcher_alone hf hold hold]
          by_cases hstatus : net.status 0 = 401
          · simp only [AgreesOn, hempty, hexpiring, htokens, he, hexpired, hstatus,
              List.length_nil, if_false, if_true, true_imp_iff, ne_eq, not_false_eq_true,
              true_and]
            exact alike_afterRefusal rfl
          · simp [AgreesOn, hempty, hexpiring, htokens, he, hexpired, hstatus, Alike]

end Stored

/-- A request behaves alike through the fetcher and through the middleware exactly when
`AgreesOn` holds of the session, the API's first answer and the outcomes of the refreshes. -/
theorem alike_iff (o : Options) (net : Outside) (clock : ℤ) (store : Option StoredTokens)
    (m id : ℕ) :
    Alike ((fetcher o).runWith (answerAlone net) (.start clock store))
        ((openapiFetch o m id).runWith (answerAlone net) (.start clock store)) ↔
      AgreesOn o net clock store := by
  cases store with
  | none =>
    have hf : (fetcher o).runWith (answerAlone net) (.start clock none) = _ :=
      fetcher_loggedOut accessToken_alone rfl
    have hm : (openapiFetch o m id).runWith (answerAlone net) (.start clock none) = _ :=
      openapiFetch_alone requestToken_alone rfl
    rw [hf, hm]
    by_cases hstatus : net.status 0 = 401
    · simp [AgreesOn, hstatus, Alike, World.start, Outside.send, afterRefusal, refreshAlone,
        truthy_none]
    · simp [AgreesOn, hstatus, Alike, World.start, Outside.send, truthy_none]
  | some stored =>
    by_cases hempty : stored.accessToken = ""
    · exact alike_empty_iff m id hempty
    · exact alike_stored_iff m id hempty

/-- A live token is refused and bauth cannot be reached: the fetcher returns the 401, the
middleware turns it into an exception. -/
theorem unreachable_throws :
    let o : Options := { accessTokenExpiry := fun _ => none }
    let net : Outside := ⟨fun _ => 401, fun _ => 0, fun _ => .error .other, fun _ => 0⟩
    let store : Option StoredTokens := some ⟨"a1", "r1", some 600000⟩
    ((fetcher o).runWith (answerAlone net) (.start 0 store)).1 =
        .ok (.response (some 401) false) ∧
      ((openapiFetch o 0 0).runWith (answerAlone net) (.start 0 store)).1 = .error .other ∧
      ¬ Alike ((fetcher o).runWith (answerAlone net) (.start 0 store))
        ((openapiFetch o 0 0).runWith (answerAlone net) (.start 0 store)) := by
  refine ⟨rfl, rfl, ?_⟩
  rintro ⟨-, -, status, unauthorized, -, hthrows⟩
  cases hthrows

end Sdk

end Bauth
