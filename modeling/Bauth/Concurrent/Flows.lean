import Bauth.Transaction.Ledger
import Bauth.Concurrent.Links

/-!
# Flows outlive the links mailed on them

A request for a link counts it on its flow, extends the flow, and only then inserts the link, each
in a statement of its own. What it counted but did not insert yet is its credit on the flow: links
and credits together never exceed what the flow counts, and neither outlives it.
-/

namespace Bauth

open Transaction Transition

/-! ### What a flow and a link are kept for -/

/-- What a flow allows. -/
def LoginFlow.budget (f : LoginFlow) : Uuid × ℕ × Time × Time :=
  (f.id, f.magicLinkRequests, f.expiresAt, f.createdAt)

/-- What a link takes of its flow. -/
def MagicLink.lease (l : MagicLink) : Uuid × Time := (l.flowId, l.expiresAt)

/-- Flows and links are only removed, and flows only with their links. -/
structure Prunes (d d' : Database) : Prop where
  flows : (d'.loginFlows.map LoginFlow.budget).Sublist (d.loginFlows.map LoginFlow.budget)
  links : (d'.magicLinks.map MagicLink.lease).Sublist (d.magicLinks.map MagicLink.lease)
  kept : ∀ l ∈ d'.magicLinks, ∀ f ∈ d.loginFlows, f.id = l.flowId →
    ∃ f' ∈ d'.loginFlows, f'.budget = f.budget

namespace Prunes

variable {d d' d'' : Database}

lemma of_eq (hflows : d'.loginFlows.map LoginFlow.budget = d.loginFlows.map LoginFlow.budget)
    (hlinks : d'.magicLinks.map MagicLink.lease = d.magicLinks.map MagicLink.lease) :
    Prunes d d' := by
  refine ⟨hflows ▸ List.Sublist.refl _, hlinks ▸ List.Sublist.refl _, fun l _ f hf _ => ?_⟩
  have hmem : f.budget ∈ d'.loginFlows.map LoginFlow.budget := hflows ▸ List.mem_map_of_mem hf
  exact List.mem_map.mp hmem

lemma refl (d : Database) : Prunes d d := of_eq rfl rfl

lemma flow (h : Prunes d d') {f' : LoginFlow} (hf' : f' ∈ d'.loginFlows) :
    ∃ f ∈ d.loginFlows, f.budget = f'.budget :=
  List.mem_map.mp (h.flows.subset (List.mem_map_of_mem hf'))

lemma link (h : Prunes d d') {l' : MagicLink} (hl' : l' ∈ d'.magicLinks) :
    ∃ l ∈ d.magicLinks, l.lease = l'.lease :=
  List.mem_map.mp (h.links.subset (List.mem_map_of_mem hl'))

lemma trans (h : Prunes d d') (h' : Prunes d' d'') : Prunes d d'' := by
  refine ⟨h'.flows.trans h.flows, h'.links.trans h.links, fun l hl f hf hid => ?_⟩
  obtain ⟨l', hl', hlease⟩ := h'.link hl
  have hflow : l'.flowId = l.flowId := congrArg Prod.fst hlease
  obtain ⟨f', hf', hbudget⟩ := h.kept l' hl' f hf (hid.trans hflow.symm)
  have hid' : f'.id = f.id := congrArg Prod.fst hbudget
  obtain ⟨f'', hf'', hbudget'⟩ := h'.kept l hl f' hf' (hid'.trans hid)
  exact ⟨f'', hf'', hbudget'.trans hbudget⟩

lemma updateFlows {p : LoginFlow → Bool} {set : LoginFlow → LoginFlow}
    (h : ∀ f, (set f).budget = f.budget) :
    Prunes d { d with loginFlows := updateWhere p set d.loginFlows } :=
  of_eq (map_updateWhere LoginFlow.budget h) rfl

lemma updateLinks {p : MagicLink → Bool} {set : MagicLink → MagicLink}
    (h : ∀ l, (set l).lease = l.lease) :
    Prunes d { d with magicLinks := updateWhere p set d.magicLinks } :=
  of_eq rfl (map_updateWhere MagicLink.lease h)

lemma deleteLoginFlows (p : LoginFlow → Bool) : Prunes d (d.deleteLoginFlows p) := by
  refine ⟨List.filter_sublist.map _, List.filter_sublist.map _, fun l hl f hf hid => ⟨f, ?_, rfl⟩⟩
  simp only [Database.deleteLoginFlows, Database.deleteAuthorizationCodes, List.mem_filter,
    Bool.not_eq_true', List.any_eq_false, Bool.and_eq_true, decide_eq_true_eq, not_and,
    Bool.not_eq_true] at hl ⊢
  exact ⟨hf, hl.2 f hf hid⟩

lemma deleteUsers (p : User → Bool) : Prunes d (d.deleteUsers p) :=
  ⟨List.Sublist.refl _, List.filter_sublist.map _, fun _ _ f hf _ => ⟨f, hf, rfl⟩⟩

end Prunes

/-- The statements that start a flow, count a link on it or insert one. -/
def Query.Charges (q : Query) : Prop :=
  q = .loginFlowsCreate ∨ q = .loginFlowsCountMagicLinkRequest ∨ q = .magicLinksCreate

lemma Sent.prunes {app : App} {may : Query → Prop} {β : Type} {st : Statement sig β}
    (h : Sent app may st) (hmay : ∀ q, may q → ¬q.Charges) (now : Time) (n : Draw)
    (v d : Database) : Prunes d ((st.run now n v).1 d) := by
  cases h with
  | loginFlowsCreate h => exact absurd (.inl rfl) (hmay _ h)
  | loginFlowsCountMagicLinkRequest h => exact absurd (.inr (.inl rfl)) (hmay _ h)
  | magicLinksCreate h => exact absurd (.inr (.inr rfl)) (hmay _ h)
  | loginFlowsComplete h id => exact .updateFlows fun _ => rfl
  | magicLinksConsume h tokenHash => exact .updateLinks fun _ => rfl
  | magicLinksRecordCodeFailure id h => exact .updateLinks fun _ => rfl
  | magicLinksConsumeById h id => exact .updateLinks fun _ => rfl
  | usersCreate h email =>
    simp only [Users.create]
    split_ifs <;> exact .of_eq rfl rfl
  | usersChangeEmail h id fromEmail toEmail =>
    simp only [Users.changeEmail]
    split_ifs <;> exact .of_eq rfl rfl
  | usersDelete h id => exact .deleteUsers _
  | authorizationCodesCreate | sessionsCreate | refreshTokensCreate | emailChangesCreate
  | confirmationsCreate =>
    simp only [AuthorizationCodes.create, Sessions.create, RefreshTokens.create,
      EmailChanges.create, Confirmations.create]
    split_ifs <;> exact .of_eq rfl rfl
  | purgeLoginFlow h present id => exact Purge.deleteRow_cases (.deleteLoginFlows _) (.refl d)
  | purgeEmailChange h present id => exact Purge.deleteRow_cases (.of_eq rfl rfl) (.refl d)
  | purgeConfirmation h present id => exact Purge.deleteRow_cases (.of_eq rfl rfl) (.refl d)
  | purgeSession h present id => exact Purge.deleteRow_cases (.of_eq rfl rfl) (.refl d)
  | purgeUser h present id => exact Purge.deleteRow_cases (.deleteUsers _) (.refl d)
  | _ => exact .of_eq rfl rfl

/-! ### The ledger -/

/-- The share of a program: how many draws it made with its statements, and the link it counted but
did not insert. -/
structure Share where
  draws : ℕ := 0
  credit : Option (Uuid × Time) := none

/-- The share has a credit on this flow. -/
def Share.owes (id : Uuid) (g : Share) : Bool := g.credit.any fun c => c.1 = id

/-- Drawn by one of the programs. -/
def Taken (app : App) (γ : List Share) (id : Uuid) : Prop :=
  ∃ j k g, γ[j]? = some g ∧ k < g.draws ∧ id = app.uuid ⟨j, k⟩

/-- Flows outlive their links and the credits on them, and allow as many as they counted. `θ` are
expiries that flows had. -/
structure FlowsKept (app : App) (θ : List (Uuid × Time)) (d : Database) (γ : List Share) :
    Prop where
  nodup : (d.loginFlows.map LoginFlow.id).Nodup
  drawn : ∀ f ∈ d.loginFlows, Taken app γ f.id
  seen : ∀ x ∈ θ, Taken app γ x.1 ∧ ∀ f ∈ d.loginFlows, f.id = x.1 → x.2 ≤ f.expiresAt
  held : ∀ g ∈ γ, ∀ x ∈ g.credit, Taken app γ x.1 ∧
    ∀ f ∈ d.loginFlows, f.id = x.1 → x.2 ≤ f.expiresAt
  links : ∀ l ∈ d.magicLinks, ∃ f ∈ d.loginFlows, f.id = l.flowId ∧ l.expiresAt ≤ f.expiresAt
  requests : ∀ f ∈ d.loginFlows, f.magicLinkRequests ≤ MagicLink.maxEmailsPerFlow
  expiry : ∀ f ∈ d.loginFlows, f.expiresAt ≤ f.createdAt + minutes 15 * (1 + f.magicLinkRequests)
  count : ∀ f ∈ d.loginFlows, (d.magicLinks.countP fun l => l.flowId = f.id) +
    γ.countP (Share.owes f.id) ≤ f.magicLinkRequests

section Taken

variable {app : App} {γ : List Share} {i : ℕ} {g g' : Share} {id : Uuid}

lemma Taken.append (h : Taken app γ id) (g : Share) : Taken app (γ ++ [g]) id := by
  obtain ⟨j, k, g', hj, hk⟩ := h
  exact ⟨j, k, g', by rw [List.getElem?_append_left (List.getElem?_eq_some_iff.mp hj).1]; exact hj,
    hk⟩

lemma Taken.set (h : Taken app γ id) (hγ : γ[i]? = some g) (hle : g.draws ≤ g'.draws) :
    Taken app (γ.set i g') id := by
  obtain ⟨j, k, h, hj, hk, hid⟩ := h
  by_cases hji : i = j
  · subst hji
    obtain rfl := Option.some.inj (hj.symm.trans hγ)
    exact ⟨i, k, g', by simp [(List.getElem?_eq_some_iff.mp hγ).1], hk.trans_le hle, hid⟩
  · exact ⟨j, k, h, by rw [List.getElem?_set_ne hji]; exact hj, hk, hid⟩

/-- The next draw of a program is not taken. -/
lemma not_taken (huuid : Function.Injective app.uuid) (hγ : γ[i]? = some g) {n : ℕ}
    (hn : g.draws ≤ n) : ¬Taken app γ (app.uuid ⟨i, n⟩) := by
  rintro ⟨j, k, h, hj, hk, hid⟩
  obtain ⟨rfl, rfl⟩ := Draw.mk.inj (huuid hid)
  obtain rfl := Option.some.inj (hj.symm.trans hγ)
  omega

end Taken

namespace FlowsKept

variable {app : App} {θ : List (Uuid × Time)} {d d' : Database} {γ : List Share}

lemma pruned (h : FlowsKept app θ d γ) (hd : Prunes d d') : FlowsKept app θ d' γ := by
  have hflow : ∀ f' ∈ d'.loginFlows, ∃ f ∈ d.loginFlows, f.id = f'.id ∧
      f.magicLinkRequests = f'.magicLinkRequests ∧ f.expiresAt = f'.expiresAt ∧
        f.createdAt = f'.createdAt := by
    intro f' hf'
    obtain ⟨f, hf, hbudget⟩ := hd.flow hf'
    simp only [LoginFlow.budget, Prod.mk.injEq] at hbudget
    exact ⟨f, hf, hbudget⟩
  have hlasts : ∀ id e, (∀ f ∈ d.loginFlows, f.id = id → e ≤ f.expiresAt) →
      ∀ f ∈ d'.loginFlows, f.id = id → e ≤ f.expiresAt := by
    intro id e he f' hf' hid
    obtain ⟨f, hf, hid', -, hexpires, -⟩ := hflow f' hf'
    exact hexpires ▸ he f hf (hid'.trans hid)
  refine ⟨?_, fun f' hf' => ?_, fun x hx => ?_, fun g hg x hx => ?_, fun l' hl' => ?_,
    fun f' hf' => ?_, fun f' hf' => ?_, fun f' hf' => ?_⟩
  · have hids := hd.flows.map Prod.fst
    simp only [List.map_map] at hids
    exact h.nodup.sublist hids
  · obtain ⟨f, hf, hid, -⟩ := hflow f' hf'
    exact hid ▸ h.drawn f hf
  · exact ⟨(h.seen x hx).1, hlasts _ _ (h.seen x hx).2⟩
  · exact ⟨(h.held g hg x hx).1, hlasts _ _ (h.held g hg x hx).2⟩
  · obtain ⟨l, hl, hlease⟩ := hd.link hl'
    simp only [MagicLink.lease, Prod.mk.injEq] at hlease
    obtain ⟨f, hf, hid, hle⟩ := h.links l hl
    obtain ⟨f', hf', hbudget⟩ := hd.kept l' hl' f hf (hid.trans hlease.1)
    simp only [LoginFlow.budget, Prod.mk.injEq] at hbudget
    exact ⟨f', hf', (hbudget.1.trans hid).trans hlease.1, by rw [hbudget.2.2.1, ← hlease.2]; exact hle⟩
  · obtain ⟨f, hf, -, hrequests, -⟩ := hflow f' hf'
    exact hrequests ▸ h.requests f hf
  · obtain ⟨f, hf, -, hrequests, hexpires, hcreated⟩ := hflow f' hf'
    rw [← hrequests, ← hexpires, ← hcreated]
    exact h.expiry f hf
  · obtain ⟨f, hf, hid, hrequests, -⟩ := hflow f' hf'
    have hcount := h.count f hf
    have hsub := (hd.links.countP_le (p := fun x => decide (x.1 = f.id)))
    simp only [List.countP_map] at hsub
    rw [← hid, ← hrequests]
    exact (Nat.add_le_add_right hsub _).trans hcount

end FlowsKept

/-- The ledger of flows, for expiries that flows had. -/
def flowLedger (app : App) : Ledger sig (List (Uuid × Time)) Share where
  holds θ _ d γ := FlowsKept app θ d γ
  idle := {}
  tick _ _ _ _ _ _ h := h
  spawn θ _ d γ h := by
    refine ⟨h.nodup, fun f hf => (h.drawn f hf).append _,
      fun x hx => ⟨(h.seen x hx).1.append _, (h.seen x hx).2⟩, fun g hg x hx => ?_, h.links,
      h.requests, h.expiry, fun f hf => ?_⟩
    · rcases List.mem_append.mp hg with hg | hg
      · exact ⟨(h.held g hg x hx).1.append _, (h.held g hg x hx).2⟩
      · obtain rfl := List.mem_singleton.mp hg
        cases hx
    · rw [List.countP_append]
      exact h.count f hf

lemma flowLedger_frame (app : App) : (flowLedger app).Frame Prunes where
  refl := Prunes.refl
  trans _ _ _ := Prunes.trans
  keeps _ _ _ _ _ hd h := FlowsKept.pruned h hd

/-! ### Handlers that charge -/

/-- The handler keeps the ledger of flows. -/
def Handler.obeys {ε α : Type} (app : App) (i : ℕ) (h : Handler ε α) (tx : Option (Program.Tx sig))
    (n : ℕ) (t : Time) (g : Share)
    (Q : Except ε α → Option (Program.Tx sig) → ℕ → Time → Share → Prop) : Prop :=
  Program.obeys (flowLedger app) i h.run tx n t g Q

section Handler

variable {ε α β : Type} {app : App} {i n : ℕ} {t : Time} {g : Share}
  {tx : Option (Program.Tx sig)}
  {Q : Except ε α → Option (Program.Tx sig) → ℕ → Time → Share → Prop}

@[simp] lemma obeys_pure (a : α) :
    Handler.obeys app i (pure a : Handler ε α) tx n t g Q ↔ Q (.ok a) tx n t g := Iff.rfl

@[simp] lemma obeys_throw (e : ε) :
    Handler.obeys app i (throw e : Handler ε α) tx n t g Q ↔ Q (.error e) tx n t g := Iff.rfl

@[simp] lemma obeys_bind (h : Handler ε β) (f : β → Handler ε α) :
    Handler.obeys app i (h >>= f) tx n t g Q ↔
      Handler.obeys app i h tx n t g fun r tx n t g =>
        match r with
        | .ok b => Handler.obeys app i (f b) tx n t g Q
        | .error e => Q (.error e) tx n t g := by
  simp only [Handler.obeys, ExceptT.run_bind, Ledger.obeys_bind]
  refine iff_of_eq (congrArg _ ?_)
  funext r tx n t g
  cases r <;> rfl

@[simp] lemma obeys_perform (p : Program sig α) :
    Handler.obeys app i (perform p : Handler ε α) tx n t g Q ↔
      p.obeys (flowLedger app) i tx n t g fun a tx n t g => Q (.ok a) tx n t g := by
  simp only [Handler.obeys, perform, ExceptT.run_lift, map_eq_pure_bind, Ledger.obeys_bind]
  rfl

@[simp] lemma obeys_run (s : Statement sig α) :
    Handler.obeys app i (run s : Handler ε α) tx n t g Q ↔
      (Program.query s).obeys (flowLedger app) i tx n t g fun a tx n t g => Q (.ok a) tx n t g :=
  obeys_perform _

@[simp] lemma obeys_runChecked [FromDbError ε] (s : Statement sig (Except DbError α)) :
    Handler.obeys app i (runChecked s : Handler ε α) tx n t g Q ↔
      (Program.query s).obeys (flowLedger app) i tx n t g fun r tx n t g =>
        Q (r.mapError FromDbError.fromDbError) tx n t g := by
  simp only [Handler.obeys, runChecked, ExceptT.run_mk, Ledger.obeys_bind]
  refine iff_of_eq (congrArg _ ?_)
  funext r tx n t g
  cases r <;> rfl

@[simp] lemma obeys_ite (p : Prop) [Decidable p] (h h' : Handler ε α) :
    Handler.obeys app i (if p then h else h') tx n t g Q ↔
      (p → Handler.obeys app i h tx n t g Q) ∧ (¬p → Handler.obeys app i h' tx n t g Q) := by
  split <;> simp [*]

lemma obeys_clock {Q : Time → Option (Program.Tx sig) → ℕ → Time → Share → Prop} :
    (Program.clock : Program sig Time).obeys (flowLedger app) i tx n t g Q ↔
      ∀ t', t ≤ t' → Q t' tx n t' g := Iff.rfl

lemma obeys_fresh {Q : Draw → Option (Program.Tx sig) → ℕ → Time → Share → Prop} :
    (Program.fresh : Program sig Draw).obeys (flowLedger app) i tx n t g Q ↔
      Q ⟨i, n⟩ tx (n + 1) t g := Iff.rfl

/-- A statement that only reads, on its own. -/
lemma obeys_select (label : Query) (read : Time → Database → β)
    {Q : β → Option (Program.Tx sig) → ℕ → Time → Share → Prop}
    (h : ∀ b t', t ≤ t' → Q b none (n + 1) t' g) :
    (Program.query (.select label read)).obeys (flowLedger app) i none n t g Q := by
  intro θ t' d γ ht hγ hd
  refine ⟨g, ?_, h _ t' ht⟩
  rw [Ledger.set_self hγ]
  exact hd

lemma obeys_checkLimit (limiter : Limiter) (key : String)
    {Q : Except ApiError Unit → Option (Program.Tx sig) → ℕ → Time → Share → Prop}
    (h : ∀ r, Q r tx n t g) : Handler.obeys app i (checkLimit limiter key) tx n t g Q := by
  simp only [checkLimit, obeys_bind, obeys_perform]
  intro (retryAfter : Option Time)
  cases retryAfter with
  | none => exact h _
  | some retryAfter => exact h _

end Handler

/-! ### The three statements that charge -/

section Statements

variable {app : App} {θ : List (Uuid × Time)} {d : Database} {γ : List Share} {i n : ℕ}
  {g : Share} {t : Time}

/-- How many links and credits a flow has, after one share changed. -/
lemma countP_set (hγ : γ[i]? = some g) (g' : Share) (id : Uuid) :
    (γ.set i g').countP (Share.owes id) + (if g.owes id then 1 else 0) =
      γ.countP (Share.owes id) + if g'.owes id then 1 else 0 := by
  obtain ⟨hi, rfl⟩ := List.getElem?_eq_some_iff.mp hγ
  rw [List.countP_set hi]
  have hle := List.boole_getElem_le_countP (p := Share.owes id) hi
  omega

/-- What other shares hold on a flow is held still. -/
lemma mem_set_share {g' h : Share} (hh : h ∈ γ.set i g') : h = g' ∨ h ∈ γ :=
  (List.mem_or_eq_of_mem_set hh).symm

/-- A flow that starts. -/
lemma FlowsKept.started (huuid : Function.Injective app.uuid) (h : FlowsKept app θ d γ)
    (hγ : γ[i]? = some g) (hn : g.draws ≤ n) (hcredit : g.credit = none) {f : LoginFlow}
    (hid : f.id = app.uuid ⟨i, n⟩) (hrequests : f.magicLinkRequests = 0)
    (hexpiry : f.expiresAt ≤ f.createdAt + minutes 15) :
    FlowsKept app θ { d with loginFlows := d.loginFlows ++ [f] }
      (γ.set i { g with draws := n + 1 }) := by
  have hfree : ¬Taken app γ f.id := by
    rw [hid]
    exact not_taken huuid hγ hn
  have htaken : ∀ id, Taken app γ id → Taken app (γ.set i { g with draws := n + 1 }) id :=
    fun id hid => hid.set hγ (by dsimp only; omega)
  have hlasts : ∀ id e, Taken app γ id → (∀ f ∈ d.loginFlows, f.id = id → e ≤ f.expiresAt) →
      ∀ f' ∈ d.loginFlows ++ [f], f'.id = id → e ≤ f'.expiresAt := by
    intro id e hold he f' hf' hid'
    rcases List.mem_append.mp hf' with hf' | hf'
    · exact he f' hf' hid'
    · obtain rfl := List.mem_singleton.mp hf'
      exact absurd (hid' ▸ hold) hfree
  have howes : ∀ id, ({ g with draws := n + 1 } : Share).owes id = g.owes id := fun _ => rfl
  refine ⟨?_, fun f' hf' => ?_, fun x hx => ?_, fun g' hg' x hx => ?_, fun l hl => ?_,
    fun f' hf' => ?_, fun f' hf' => ?_, fun f' hf' => ?_⟩
  · rw [List.map_append, List.nodup_append]
    refine ⟨h.nodup, by simp, ?_⟩
    rintro x hx y hy rfl
    obtain ⟨f', hf', rfl⟩ := List.mem_map.mp hx
    simp only [List.map_cons, List.map_nil, List.mem_singleton] at hy
    exact hfree (hy ▸ h.drawn f' hf')
  · rcases List.mem_append.mp hf' with hf' | hf'
    · exact htaken _ (h.drawn f' hf')
    · obtain rfl := List.mem_singleton.mp hf'
      refine ⟨i, n, { g with draws := n + 1 }, ?_, Nat.lt_succ_self n, hid⟩
      simp [(List.getElem?_eq_some_iff.mp hγ).1]
  · exact ⟨htaken _ (h.seen x hx).1, hlasts _ _ (h.seen x hx).1 (h.seen x hx).2⟩
  · rcases mem_set_share hg' with rfl | hg'
    · simp [hcredit] at hx
    · exact ⟨htaken _ (h.held g' hg' x hx).1, hlasts _ _ (h.held g' hg' x hx).1 (h.held g' hg' x hx).2⟩
  · obtain ⟨f', hf', hid', hle⟩ := h.links l hl
    exact ⟨f', List.mem_append_left _ hf', hid', hle⟩
  · rcases List.mem_append.mp hf' with hf' | hf'
    · exact h.requests f' hf'
    · rw [List.mem_singleton.mp hf', hrequests]
      exact Nat.zero_le _
  · rcases List.mem_append.mp hf' with hf' | hf'
    · exact h.expiry f' hf'
    · rw [List.mem_singleton.mp hf', hrequests]
      simpa using hexpiry
  · have hset := countP_set hγ { g with draws := n + 1 } f'.id
    rw [howes] at hset
    rcases List.mem_append.mp hf' with hf' | hf'
    · have hcount := h.count f' hf'
      dsimp only
      omega
    · obtain rfl := List.mem_singleton.mp hf'
      have hlinks : (d.magicLinks.countP fun l => l.flowId = f'.id) = 0 := by
        rw [List.countP_eq_zero]
        intro l hl hflow
        obtain ⟨f, hf, hid', -⟩ := h.links l hl
        refine hfree ?_
        rw [← of_decide_eq_true hflow, ← hid']
        exact h.drawn f hf
      have hshares : γ.countP (Share.owes f'.id) = 0 := by
        rw [List.countP_eq_zero]
        intro g' hg' howes'
        obtain ⟨x, hx, hxid⟩ := Option.any_eq_true _ _ |>.mp howes'
        exact hfree (of_decide_eq_true hxid ▸ (h.held g' hg' x hx).1)
      dsimp only
      omega

/-- The flow a link is counted on. -/
def counted (linkExpiresAt : Time) (f : LoginFlow) : LoginFlow :=
  { f with
    magicLinkRequests := f.magicLinkRequests + 1
    expiresAt := max f.expiresAt linkExpiresAt }

/-- One more email extends a flow by less than the life of a link. -/
lemma counted_expiry {x c e t m : ℤ} {r : ℕ} (hx : x ≤ c + m * (1 + r)) (hpending : t < x)
    (he : e ≤ t + m) (hm : 0 ≤ m) : max x e ≤ c + m * (1 + (r + 1 : ℕ)) := by
  have hmul : m * (1 + ((r + 1 : ℕ) : ℤ)) = m * (1 + r) + m := by
    rw [Nat.cast_add, Nat.cast_one, ← add_assoc, mul_add, mul_one]
  rw [hmul]
  omega

/-- A link that is counted gives a credit on its flow. -/
lemma FlowsKept.counted (h : FlowsKept app θ d γ) (hγ : γ[i]? = some g) (hn : g.draws ≤ n)
    (hcredit : g.credit = none) {f : LoginFlow} (hf : f ∈ d.loginFlows)
    (hpending : t < f.expiresAt) (hrequests : f.magicLinkRequests < MagicLink.maxEmailsPerFlow)
    {ids : List Uuid} (hids : ∀ id, id ∈ ids ↔ id = f.id) {e : Time} (he : e ≤ t + minutes 15) :
    FlowsKept app θ
      { d with loginFlows :=
          updateWhere (fun r => ids.contains r.id) (Bauth.counted e) d.loginFlows }
      (γ.set i { draws := n + 1, credit := some (f.id, e) }) := by
  have htaken : ∀ id, Taken app γ id →
      Taken app (γ.set i { draws := n + 1, credit := some (f.id, e) }) id :=
    fun id hid => hid.set hγ (by dsimp only; omega)
  -- the rows of the flow are the one that was counted
  have hrows : ∀ f' ∈ updateWhere (fun r => ids.contains r.id) (Bauth.counted e) d.loginFlows,
      f' = Bauth.counted e f ∨ f' ∈ d.loginFlows ∧ f'.id ≠ f.id := by
    intro f' hf'
    obtain ⟨r, hr, rfl⟩ := mem_updateWhere.mp hf'
    by_cases hr' : r.id = f.id
    · obtain rfl := List.inj_on_of_nodup_map h.nodup hr hf hr'
      rw [if_pos (List.contains_iff_mem.mpr ((hids r.id).mpr rfl))]
      exact .inl rfl
    · rw [if_neg fun hc => hr' ((hids r.id).mp (List.contains_iff_mem.mp hc))]
      exact .inr ⟨hr, hr'⟩
  have hcounted : Bauth.counted e f ∈
      updateWhere (fun r => ids.contains r.id) (Bauth.counted e) d.loginFlows :=
    mem_updateWhere.mpr ⟨f, hf, if_pos (List.contains_iff_mem.mpr ((hids f.id).mpr rfl))⟩
  have hlasts : ∀ id e', (∀ f ∈ d.loginFlows, f.id = id → e' ≤ f.expiresAt) →
      ∀ f' ∈ updateWhere (fun r => ids.contains r.id) (Bauth.counted e) d.loginFlows,
        f'.id = id → e' ≤ f'.expiresAt := by
    intro id e' he' f' hf' hid
    rcases hrows f' hf' with rfl | ⟨hf', -⟩
    · exact (he' f hf hid).trans (le_max_left _ _)
    · exact he' f' hf' hid
  refine ⟨?_, fun f' hf' => ?_, fun x hx => ?_, fun g' hg' x hx => ?_, fun l hl => ?_,
    fun f' hf' => ?_, fun f' hf' => ?_, fun f' hf' => ?_⟩
  · have hmap : (updateWhere (fun r => ids.contains r.id) (Bauth.counted e) d.loginFlows).map
        LoginFlow.id = d.loginFlows.map LoginFlow.id := map_updateWhere LoginFlow.id fun _ => rfl
    exact hmap ▸ h.nodup
  · rcases hrows f' hf' with rfl | ⟨hf', -⟩
    · exact htaken _ (h.drawn f hf)
    · exact htaken _ (h.drawn f' hf')
  · exact ⟨htaken _ (h.seen x hx).1, hlasts _ _ (h.seen x hx).2⟩
  · rcases mem_set_share hg' with rfl | hg'
    · obtain rfl := Option.some.inj hx
      refine ⟨htaken _ (h.drawn f hf), fun f' hf' hid => ?_⟩
      rcases hrows f' hf' with rfl | ⟨-, hother⟩
      · exact le_max_right _ _
      · exact absurd hid hother
    · exact ⟨htaken _ (h.held g' hg' x hx).1, hlasts _ _ (h.held g' hg' x hx).2⟩
  · obtain ⟨r, hr, hid, hle⟩ := h.links l hl
    by_cases hr' : r.id = f.id
    · obtain rfl := List.inj_on_of_nodup_map h.nodup hr hf hr'
      exact ⟨Bauth.counted e r, hcounted, hid, hle.trans (le_max_left _ _)⟩
    · refine ⟨r, mem_updateWhere.mpr ⟨r, hr, if_neg fun hc => ?_⟩, hid, hle⟩
      exact hr' ((hids r.id).mp (List.contains_iff_mem.mp hc))
  · rcases hrows f' hf' with rfl | ⟨hf', -⟩
    · exact hrequests
    · exact h.requests f' hf'
  · rcases hrows f' hf' with rfl | ⟨hf', -⟩
    · exact counted_expiry (h.expiry f hf) hpending he (by decide)
    · exact h.expiry f' hf'
  · have hset := countP_set hγ { draws := n + 1, credit := some (f.id, e) } f'.id
    have hnone : g.owes f'.id = false := by simp [Share.owes, hcredit]
    rw [hnone] at hset
    rcases hrows f' hf' with rfl | ⟨hf', hother⟩
    · have hcount := h.count f hf
      have howes : ({ draws := n + 1, credit := some (f.id, e) } : Share).owes f.id = true := by
        simp [Share.owes]
      have hset' : (γ.set i { draws := n + 1, credit := some (f.id, e) }).countP
          (Share.owes f.id) = γ.countP (Share.owes f.id) + 1 := by
        simpa [Bauth.counted, howes] using hset
      show (d.magicLinks.countP fun l => l.flowId = f.id) + (γ.set i _).countP (Share.owes f.id) ≤
        f.magicLinkRequests + 1
      omega
    · have hcount := h.count f' hf'
      have howes : ({ draws := n + 1, credit := some (f.id, e) } : Share).owes f'.id = false := by
        simpa [Share.owes] using Ne.symm hother
      simp only [howes, Bool.false_eq_true, if_false] at hset ⊢
      omega

/-- A link that is inserted uses up the credit. -/
lemma FlowsKept.inserted (h : FlowsKept app θ d γ) (hγ : γ[i]? = some g) (hn : g.draws ≤ n)
    {l : MagicLink} (hcredit : g.credit = some l.lease)
    (hflow : ∃ f ∈ d.loginFlows, f.id = l.flowId) :
    FlowsKept app θ { d with magicLinks := d.magicLinks ++ [l] }
      (γ.set i { draws := n + 1, credit := none }) := by
  have htaken : ∀ id, Taken app γ id → Taken app (γ.set i { draws := n + 1, credit := none }) id :=
    fun id hid => hid.set hγ (by dsimp only; omega)
  refine ⟨h.nodup, fun f hf => htaken _ (h.drawn f hf),
    fun x hx => ⟨htaken _ (h.seen x hx).1, (h.seen x hx).2⟩, fun g' hg' x hx => ?_,
    fun l' hl' => ?_, h.requests, h.expiry, fun f hf => ?_⟩
  · rcases mem_set_share hg' with rfl | hg'
    · cases hx
    · exact ⟨htaken _ (h.held g' hg' x hx).1, (h.held g' hg' x hx).2⟩
  · rcases List.mem_append.mp hl' with hl' | hl'
    · exact h.links l' hl'
    · obtain rfl := List.mem_singleton.mp hl'
      obtain ⟨f, hf, hid⟩ := hflow
      exact ⟨f, hf, hid, (h.held g (List.mem_of_getElem? hγ) _ hcredit).2 f hf hid⟩
  · have hset := countP_set hγ { draws := n + 1, credit := none } f.id
    have hcount := h.count f hf
    have hnone : ({ draws := n + 1, credit := none } : Share).owes f.id = false := rfl
    have howes : g.owes f.id = decide (l.flowId = f.id) := by
      simp [Share.owes, hcredit, MagicLink.lease]
    rw [hnone, howes] at hset
    rw [List.countP_append, List.countP_singleton]
    simp only [decide_eq_true_eq, Bool.false_eq_true, if_false] at hset ⊢
    omega

end Statements

/-! ### The handlers -/

section Handlers

variable {app : App} {i : ℕ} {t : Time} {r : Request}

lemma createFlow_obeys (huuid : Function.Injective app.uuid) (input : Login.CreateFlowRequest) :
    Handler.obeys app i (Login.createFlow app input) none 0 t {} fun _ _ _ _ _ => True := by
  simp only [Login.createFlow]
  cases app.client input.clientId with
  | none => trivial
  | some client =>
    simp only [obeys_bind, obeys_ite, obeys_throw, obeys_pure, obeys_perform, obeys_run,
      obeys_clock, throw_bind]
    refine ⟨fun _ => trivial, fun _ => ⟨fun _ => trivial, fun _ => ⟨fun _ => trivial, fun _ => ?_⟩⟩⟩
    intro t₁ _ θ t₂ d γ ht₂ hγ hd
    refine ⟨{ draws := 1 }, ?_, trivial⟩
    exact FlowsKept.started huuid hd hγ le_rfl rfl rfl rfl
      (Int.add_le_add_right ht₂ Login.flowTtl)

/-- Counting a link gives a credit, if the flow is found. -/
lemma count_obeys {flowId : Uuid} {t₀ : Time} (ht₀ : t₀ ≤ t) {n : ℕ} {g : Share}
    (hn : g.draws ≤ n) (hcredit : g.credit = none)
    {Q : Option Time → Option (Program.Tx sig) → ℕ → Time → Share → Prop}
    (hnone : ∀ t', Q none none (n + 1) t' g)
    (hsome : ∀ x t', Q (some x) none (n + 1) t'
      { draws := n + 1, credit := some (flowId, t₀ + codeTtl) }) :
    (Program.query (LoginFlows.countMagicLinkRequest flowId MagicLink.maxEmailsPerFlow
      (t₀ + codeTtl))).obeys (flowLedger app) i none n t g Q := by
  intro θ t' d γ ht' hγ hd
  have hkept : FlowsKept app θ d γ := hd
  let hit := d.loginFlows.filter fun f =>
    f.id = flowId && f.pending t' && f.magicLinkRequests < MagicLink.maxEmailsPerFlow
  have hrun : (LoginFlows.countMagicLinkRequest flowId MagicLink.maxEmailsPerFlow
      (t₀ + codeTtl)).run t' ⟨i, n⟩ d =
        (fun d => { d with
          loginFlows := updateWhere (fun r => (hit.map LoginFlow.id).contains r.id)
            (counted (t₀ + codeTtl)) d.loginFlows },
          hit.head?.map fun f => max f.expiresAt (t₀ + codeTtl)) := rfl
  rw [hrun]
  cases hhit : hit with
  | nil =>
    refine ⟨g, ?_, hnone t'⟩
    have hsame : updateWhere (fun r => (([] : List LoginFlow).map LoginFlow.id).contains r.id)
        (counted (t₀ + codeTtl)) d.loginFlows = d.loginFlows :=
      updateWhere_of_forall_not fun _ _ => rfl
    rw [Ledger.set_self hγ]
    simp only [hsame]
    exact hd
  | cons f rest =>
    have hmem : ∀ r ∈ f :: rest, r ∈ d.loginFlows ∧ r.id = flowId ∧ t' < r.expiresAt ∧
        r.magicLinkRequests < MagicLink.maxEmailsPerFlow := by
      intro r hr
      rw [← hhit] at hr
      obtain ⟨hr, hguard⟩ := List.mem_filter.mp hr
      simp only [LoginFlow.pending, Bool.and_eq_true, decide_eq_true_eq] at hguard
      exact ⟨hr, hguard.1.1, hguard.1.2.2, hguard.2⟩
    obtain ⟨hf, hid, hpending, hrequests⟩ := hmem f List.mem_cons_self
    refine ⟨{ draws := n + 1, credit := some (flowId, t₀ + codeTtl) }, ?_, hsome _ t'⟩
    have hids : ∀ id, id ∈ (f :: rest).map LoginFlow.id ↔ id = f.id := by
      intro id
      constructor
      · intro hin
        obtain ⟨r, hr, rfl⟩ := List.mem_map.mp hin
        exact (hmem r hr).2.1.trans hid.symm
      · rintro rfl
        exact List.mem_map_of_mem List.mem_cons_self
    have hle : t₀ + codeTtl ≤ t' + minutes 15 := Int.add_le_add_right (ht₀.trans ht') codeTtl
    rw [← hid]
    exact hkept.counted hγ hn hcredit hf hpending hrequests hids hle

/-- Inserting a link uses up the credit, if it is inserted. -/
lemma create_obeys {flowId : Uuid} {userId : Option Uuid} {email : String}
    {tokenHash codeHash : Bytes} {e : Time} {n : ℕ} {g : Share} (hn : g.draws ≤ n)
    (hcredit : g.credit = some (flowId, e))
    {Q : Except DbError String → Option (Program.Tx sig) → ℕ → Time → Share → Prop}
    (h : ∀ a t' g', Q a none (n + 1) t' g') :
    (Program.query (MagicLinks.create app flowId userId email tokenHash codeHash e)).obeys
      (flowLedger app) i none n t g Q := by
  intro θ t' d γ ht' hγ hd
  have hkept : FlowsKept app θ d γ := hd
  have hsame : FlowsKept app θ d (γ.set i g) := by
    rw [Ledger.set_self hγ]
    exact hd
  simp only [MagicLinks.create]
  split_ifs with hold hfound
  · exact ⟨g, hsame, h _ _ _⟩
  · refine ⟨{ draws := n + 1, credit := none }, ?_, h _ _ _⟩
    refine hkept.inserted hγ hn hcredit ?_
    simp only [Bool.and_eq_true] at hfound
    simpa using hfound.1
  · exact ⟨g, hsame, h _ _ _⟩

lemma request_obeys (ip : String) (flowId : Uuid) (email : String) :
    Handler.obeys app i (MagicLink.request app ip flowId email) none 0 t {} fun _ _ _ _ _ => True := by
  simp only [MagicLink.request, obeys_bind]
  refine obeys_checkLimit _ _ fun a => ?_
  cases a with
  | error e => trivial
  | ok a =>
    simp only [obeys_ite, obeys_throw, obeys_bind, obeys_run, throw_bind,
      LoginFlows.findPendingMagicLinkFlow]
    refine ⟨fun _ => trivial, fun _ => obeys_select _ _ fun flow t₁ _ => ?_⟩
    cases flow with
    | none => trivial
    | some flow =>
      simp only [obeys_ite, obeys_bind, obeys_throw, obeys_perform, obeys_clock, obeys_pure]
      refine ⟨fun _ _ _ => trivial, fun _ => ?_⟩
      cases app.client flow.clientId with
      | none => trivial
      | some client =>
        simp only [obeys_bind]
        refine obeys_checkLimit _ _ fun a => ?_
        cases a with
        | error e => trivial
        | ok a =>
          simp only [obeys_perform, obeys_clock, obeys_run]
          intro t₂ _
          refine count_obeys le_rfl (Nat.zero_le _) rfl (fun t₃ => ?_) fun expiresAt t₃ => ?_
          · simp only [obeys_bind, obeys_perform, obeys_clock, obeys_throw, obeys_pure]
            exact fun _ _ => trivial
          · simp only [obeys_bind, obeys_run, Users.findByEmail]
            refine obeys_select _ _ fun user t₄ _ => ?_
            split
            · rename_i recipient _
              simp only [obeys_bind, obeys_perform, obeys_fresh, obeys_runChecked]
              refine create_obeys (by simp) rfl fun a t₅ g' => ?_
              cases a with
              | error e => trivial
              | ok address => trivial
            · trivial

lemma apiRoute_obeys {α : Type} {body : α → Body} {h : Handler ApiError α}
    (hh : Handler.obeys app i h none 0 t {} fun _ _ _ _ _ => True) :
    (apiRoute body h).obeys (flowLedger app) i none 0 t {} fun _ _ _ _ _ => True := by
  refine (Ledger.obeys_bind _ _).mpr (Ledger.obeys_mono hh fun a tx n t g _ => ?_)
  cases a <;> trivial

/-- Every request keeps the ledger. -/
lemma handle_obeys (huuid : Function.Injective app.uuid) (r : Request) :
    (handle app r).obeys (flowLedger app) i none 0 t {} fun _ _ _ _ _ => True := by
  have hframe (hmay : ∀ q, r.may q → ¬q.Charges) :
      (handle app r).obeys (flowLedger app) i none 0 t {} fun _ _ _ _ _ => True :=
    Ledger.obeys_mono ((flowLedger_frame app).obeys
      (fun st hst now n v d => hst.prunes hmay now n v d) (handle_sends app r) nofun)
      fun _ _ _ _ _ _ => trivial
  cases r with
  | createFlow input => exact apiRoute_obeys (createFlow_obeys huuid input)
  | requestMagicLink ip flowId email => exact apiRoute_obeys (request_obeys ip flowId email)
  | _ =>
    refine hframe fun q hq hcharges => ?_
    rcases hcharges with rfl | rfl | rfl <;>
      simp [Request.may, Query.LogsIn, Query.ChecksCode] at hq

end Handlers

/-! ### Runs -/

section Runs

variable {app : App} {clock : Time} {s : ServerPool} {steps : List ServerStep}

lemma flowsKept_start : FlowsKept app [] ({} : Database) [] where
  nodup := List.nodup_nil
  drawn _ hf := absurd hf List.not_mem_nil
  seen _ hx := absurd hx List.not_mem_nil
  held _ hg := absurd hg List.not_mem_nil
  links _ hl := absurd hl List.not_mem_nil
  requests _ hf := absurd hf List.not_mem_nil
  expiry _ hf := absurd hf List.not_mem_nil
  count _ hf := absurd hf List.not_mem_nil

/-- From any state on, the flows that are there expire no earlier. -/
lemma FlowsKept.see {d : Database} {γ : List Share} {θ : List (Uuid × Time)}
    (h : FlowsKept app θ d γ) :
    FlowsKept app (d.loginFlows.map fun f => (f.id, f.expiresAt)) d γ where
  __ := h
  seen x hx := by
    obtain ⟨f, hf, rfl⟩ := List.mem_map.mp hx
    refine ⟨h.drawn f hf, fun f' hf' hid => ?_⟩
    obtain rfl := List.inj_on_of_nodup_map h.nodup hf' hf hid
    exact le_rfl

/-- A flow that expires later than a link is still there for it. -/
lemma FlowsKept.completes {d : Database} {γ : List Share} {θ : List (Uuid × Time)}
    (h : FlowsKept app θ d γ) {now : Time} (n : Draw) {l : MagicLink} (hl : l ∈ d.magicLinks)
    (hlive : now < l.expiresAt)
    (hopen : ∀ f ∈ d.loginFlows, f.id = l.flowId → f.completedAt = none) :
    ((LoginFlows.complete l.flowId).run now n d).2 = true := by
  obtain ⟨f, hf, hid, hle⟩ := h.links l hl
  have hpending : f.pending now = true := by
    simp only [LoginFlow.pending, hopen f hf hid, Option.isNone_none, Bool.true_and,
      decide_eq_true_eq]
    exact hlive.trans_le hle
  have hhit : d.loginFlows.filter (fun f => f.id = l.flowId && f.pending now) = [f] := by
    refine filter_eq_singleton h.nodup hf (by simp [hid, hpending]) fun f' hf' hguard => ?_
    simp only [Bool.and_eq_true, decide_eq_true_eq] at hguard
    exact hguard.1.trans hid.symm
  show decide ((d.loginFlows.filter fun f => f.id = l.flowId && f.pending now).length = 1) = true
  rw [hhit]
  rfl

/-- Whatever requests, logins and purges interleave: every link has a flow that expires no earlier;
a flow's expiry never moves back, and stays below a quarter of an hour for it and for each of the
three emails it counts at most; and a link that is not expired finds its flow, unless the flow was
completed. -/
theorem flows_outlive_links (huuid : Function.Injective app.uuid)
    (hrun : (sideBySide app).Run (Pool.start clock {}) steps s) :
    (∀ l ∈ s.db.magicLinks, ∃ f ∈ s.db.loginFlows, f.id = l.flowId ∧ l.expiresAt ≤ f.expiresAt) ∧
      (∀ f ∈ s.db.loginFlows, f.magicLinkRequests ≤ 3 ∧
        (s.db.magicLinks.filter fun l => l.flowId = f.id).length ≤ f.magicLinkRequests ∧
        f.expiresAt ≤ f.createdAt + minutes 15 * (1 + f.magicLinkRequests) ∧
        f.expiresAt ≤ f.createdAt + minutes 60) ∧
      (∀ l p m, steps = l ++ p :: m → ∀ f₀ ∈ p.before.db.loginFlows, ∀ f ∈ s.db.loginFlows,
        f.id = f₀.id → f₀.expiresAt ≤ f.expiresAt) ∧
      ∀ now n, ∀ l ∈ s.db.magicLinks, l.usable now = true →
        (∀ f ∈ s.db.loginFlows, f.id = l.flowId → f.completedAt = none) →
        ((LoginFlows.complete l.flowId).run now n s.db).2 = true := by
  have hhandle : ∀ i r t, (handle app r).obeys (flowLedger app) i none 0 t (flowLedger app).idle
      fun _ _ _ _ _ => True := fun i r t => handle_obeys huuid r
  have hrest {θ : List (Uuid × Time)} {s₀ s₁ : ServerPool} {m : List ServerStep} {γ₀ : List Share}
      (hm : (sideBySide app).Run s₀ m s₁) (hk : (flowLedger app).Kept s₀ γ₀)
      (h : FlowsKept app θ s₀.db γ₀) :
      ∃ γ, (flowLedger app).Kept s₁ γ ∧ FlowsKept app θ s₁.db γ :=
    Ledger.kept_of_run hm hk h hhandle
  obtain ⟨γ, -, h⟩ := hrest hrun Ledger.kept_start flowsKept_start
  refine ⟨h.links, fun f hf => ?_, fun l p m hsplit f₀ hf₀ f hf hid => ?_,
    fun now n l hl husable hopen => h.completes n hl ?_ hopen⟩
  · have hrequests : f.magicLinkRequests ≤ 3 := h.requests f hf
    have hexpiry := h.expiry f hf
    refine ⟨hrequests, ?_, hexpiry, hexpiry.trans (Int.add_le_add_left ?_ _)⟩
    · have hcount := h.count f hf
      rw [List.countP_eq_length_filter] at hcount
      omega
    · simp only [minutes, seconds]
      omega
  · subst hsplit
    obtain ⟨hl, hp, hm⟩ := hrun.around
    obtain ⟨γ₀, hγ₀, h₀⟩ := hrest hl Ledger.kept_start flowsKept_start
    obtain ⟨γ₁, hγ₁, h₁⟩ := hrest (.single hp) hγ₀ h₀.see
    obtain ⟨γ', -, h'⟩ := hrest hm hγ₁ h₁
    exact (h'.seen _ (List.mem_map_of_mem hf₀)).2 f hf hid
  · simp only [MagicLink.usable, Bool.and_eq_true, decide_eq_true_eq] at husable
    exact husable.2

/-- A flow and the request for a link on it, whose statements take turns with a purge. -/
def exampleFlows : List ServerAction :=
  [.spawn (.createFlow {
      clientId := "app", redirectUri := "https://app/cb", codeChallenge := exampleChallenge
      codeChallengeMethod := "S256", state := none })] ++
    List.replicate 3 (.advance 0 exampleReply) ++
    [.spawn (.requestMagicLink "ip" 0 "bob@x.fr"), .spawn (.purge 1)] ++
    (List.replicate 12 [.advance 1 exampleReply, .advance 2 exampleReply]).flatten

/-- A link was inserted on a flow, which can be completed. -/
theorem flows_outlive_links_purged : ∃ steps s,
    (sideBySide exampleApp).Run (Pool.start 0 {}) steps s ∧ ∃ l ∈ s.db.magicLinks,
      ((LoginFlows.complete l.flowId).run 1 ⟨3, 0⟩ s.db).2 = true := by
  have hexec : (((sideBySide exampleApp).exec (Pool.start 0 {}) exampleFlows).any fun r =>
      r.2.db.magicLinks.any fun l => l.usable 1 &&
        r.2.db.loginFlows.all fun f => f.completedAt = none) = true := by
    decide +kernel
  obtain ⟨⟨steps, s⟩, hs, hchecks⟩ := (Option.any_eq_true _ _).mp hexec
  simp only [List.any_eq_true, Bool.and_eq_true, List.all_eq_true, decide_eq_true_eq] at hchecks
  obtain ⟨l, hl, husable, hopen⟩ := hchecks
  obtain ⟨-, -, -, hcompletes⟩ :=
    flows_outlive_links exampleApp_uuid_injective (System.exec_run hs)
  exact ⟨steps, s, System.exec_run hs, l, hl, hcompletes 1 _ l hl husable fun f hf _ => hopen f hf⟩

end Runs

end Bauth
