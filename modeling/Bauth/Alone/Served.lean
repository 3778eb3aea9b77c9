import Bauth.Rows.Handlers
import Bauth.Alone.Handler
import Bauth.Transition.History

/-!
# Requests served one at a time

What one served request can do to the rows, and the identifiers of the rows of a reachable
database: distinct in each table, and drawn by a request served before.
-/

namespace Bauth

open Transaction Transition

variable {app : App}

/-- What the statements of a request keep, serving it keeps. `J` may speak of the draws made so
far. -/
theorem serve_keeps {time : Time} {reply : (q : Question) → Reply q} {request : Request}
    {s : Server} {J : ℕ → Database → Prop} (hdraw : ∀ k d, J k d → J (k + 1) d)
    (hstep : ∀ q k d d', request.may q → J k d → d.Evolves app q time ⟨s.served, k⟩ d' →
      J (k + 1) d')
    (h : J 0 s.db) : ∃ k, J k (serve app time reply request s).after.db := by
  show ∃ k, J k (Program.serve (S := sig) ⟨time, time, reply⟩ s.served (handle app request) s.db).db
  refine Program.serve_keeps hdraw (fun st hst k d hd => ?_) (handle_sends app request) h
  rcases hst.may_or_reads with hmay | hreads
  · exact hstep _ k d _ hmay hd (hst.evolves ..)
  · rw [hreads]
    exact hdraw k d hd

/-! ### Identifiers -/

/-- Drawn by a process before `process`, or by it before its draw `index`. -/
def Drawn (app : App) (process index : ℕ) (id : Uuid) : Prop :=
  ∃ n : Draw, app.uuid n = id ∧ (n.process < process ∨ n.process = process ∧ n.index < index)

/-- The identifiers of a table: distinct, and drawn already. -/
structure Keys (app : App) (process index : ℕ) (ids : List Uuid) : Prop where
  nodup : ids.Nodup
  drawn : ∀ id ∈ ids, Drawn app process index id

section Keys

variable {process index : ℕ} {ids : List Uuid}

lemma Drawn.succ {id : Uuid} (h : Drawn app process index id) :
    Drawn app process (index + 1) id := by
  obtain ⟨n, hid, hn⟩ := h
  exact ⟨n, hid, by omega⟩

lemma Drawn.next {id : Uuid} (h : Drawn app process index id) : Drawn app (process + 1) 0 id := by
  obtain ⟨n, hid, hn⟩ := h
  exact ⟨n, hid, by omega⟩

lemma not_drawn (huuid : Function.Injective app.uuid) {i : ℕ} (hi : index ≤ i) :
    ¬Drawn app process index (app.uuid ⟨process, i⟩) := by
  rintro ⟨n, hid, hn⟩
  obtain rfl := huuid hid
  dsimp only at hn
  omega

lemma Keys.succ (h : Keys app process index ids) : Keys app process (index + 1) ids :=
  ⟨h.nodup, fun id hid => (h.drawn id hid).succ⟩

lemma Keys.next (h : Keys app process index ids) : Keys app (process + 1) 0 ids :=
  ⟨h.nodup, fun id hid => (h.drawn id hid).next⟩

/-- Steps keep identifiers, and a new row takes the one just drawn. -/
lemma Keys.evolves (huuid : Function.Injective app.uuid) {ρ : Type} {id : ρ → Uuid}
    {step : ρ → ρ → Prop} {new : ρ → Prop} {rows rows' : List ρ}
    (h : Keys app process index (rows.map id)) (hrows : Evolves step new rows rows')
    (hid : ∀ r r', step r r' → id r' = id r) (hnew : ∀ r, new r → id r = app.uuid ⟨process, index⟩) :
    Keys app process (index + 1) (rows'.map id) := by
  refine ⟨hrows.nodup id hid (fun r hr hmem => ?_) h.nodup, fun i hi => ?_⟩
  · rw [hnew r hr] at hmem
    exact not_drawn huuid le_rfl (h.drawn _ hmem)
  · obtain ⟨r, hr, rfl⟩ := List.mem_map.mp hi
    rcases hrows.mem hr with ⟨r₀, hr₀, hstep⟩ | hr
    · rw [hid _ _ hstep]
      exact (h.drawn _ (List.mem_map_of_mem hr₀)).succ
    · exact ⟨⟨process, index⟩, (hnew r hr).symm, by simp⟩

end Keys

/-- The identifiers of every table are distinct and drawn already. -/
structure Database.Keyed (app : App) (process index : ℕ) (d : Database) : Prop where
  users : Keys app process index (d.users.map User.id)
  loginFlows : Keys app process index (d.loginFlows.map LoginFlow.id)
  magicLinks : Keys app process index (d.magicLinks.map MagicLink.id)
  authorizationCodes : Keys app process index (d.authorizationCodes.map AuthorizationCode.id)
  sessions : Keys app process index (d.sessions.map Session.id)
  refreshTokens : Keys app process index (d.refreshTokens.map RefreshToken.id)
  emailChanges : Keys app process index (d.emailChanges.map EmailChange.id)
  confirmations : Keys app process index (d.confirmations.map Confirmation.id)

namespace Database.Keyed

variable {process index : ℕ} {d d' : Database}

lemma uniqueIds (h : d.Keyed app process index) : d.UniqueIds :=
  ⟨h.users.nodup, h.loginFlows.nodup, h.magicLinks.nodup, h.authorizationCodes.nodup,
    h.sessions.nodup, h.refreshTokens.nodup, h.emailChanges.nodup, h.confirmations.nodup⟩

lemma succ (h : d.Keyed app process index) : d.Keyed app process (index + 1) :=
  ⟨h.users.succ, h.loginFlows.succ, h.magicLinks.succ, h.authorizationCodes.succ, h.sessions.succ,
    h.refreshTokens.succ, h.emailChanges.succ, h.confirmations.succ⟩

lemma next (h : d.Keyed app process index) : d.Keyed app (process + 1) 0 :=
  ⟨h.users.next, h.loginFlows.next, h.magicLinks.next, h.authorizationCodes.next, h.sessions.next,
    h.refreshTokens.next, h.emailChanges.next, h.confirmations.next⟩

lemma evolves (huuid : Function.Injective app.uuid) {q : Query} {now : Time}
    (h : d.Keyed app process index) (hd : d.Evolves app q now ⟨process, index⟩ d') :
    d'.Keyed app process (index + 1) where
  users := by
    refine h.users.evolves huuid hd.users (fun r r' hr => ?_) ?_
    · cases hr <;> rfl
    · rintro r ⟨-, email, rfl⟩
      rfl
  loginFlows := by
    refine h.loginFlows.evolves huuid hd.loginFlows (fun r r' hr => ?_) fun r hr => hr.2.1
    cases hr <;> rfl
  magicLinks := by
    refine h.magicLinks.evolves huuid hd.magicLinks (fun r r' hr => ?_) fun r hr => hr.2.1
    cases hr <;> rfl
  authorizationCodes := by
    refine h.authorizationCodes.evolves huuid hd.authorizationCodes (fun r r' hr => ?_)
      fun r hr => hr.2.1
    cases hr <;> rfl
  sessions := by
    refine h.sessions.evolves huuid hd.sessions (fun r r' hr => ?_) fun r hr => hr.2.1
    cases hr <;> rfl
  refreshTokens := by
    refine h.refreshTokens.evolves huuid hd.refreshTokens (fun r r' hr => ?_) fun r hr => hr.2.1
    cases hr <;> rfl
  emailChanges := by
    refine h.emailChanges.evolves huuid hd.emailChanges (fun r r' hr => ?_) fun r hr => hr.2.1
    cases hr <;> rfl
  confirmations := by
    refine h.confirmations.evolves huuid hd.confirmations (fun r r' hr => ?_) fun r hr => hr.2.1
    cases hr <;> rfl

end Database.Keyed

lemma serve_keyed (huuid : Function.Injective app.uuid) {time : Time}
    {reply : (q : Question) → Reply q} {request : Request} {s : Server}
    (h : s.db.Keyed app s.served 0) :
    (serve app time reply request s).after.db.Keyed app (s.served + 1) 0 := by
  obtain ⟨k, hk⟩ := serve_keeps (J := fun k d => d.Keyed app s.served k)
    (fun k d h => h.succ) (fun q k d d' _ h hd => h.evolves huuid hd) h
  exact hk.next

/-! ### Runs -/

/-- The step is one of the server, at a time its clock allows. -/
structure Served.Of (app : App) (p : Served) : Prop where
  serve : p = serve app p.time p.reply p.request p.before
  clock : p.before.clock ≤ p.time

namespace Run

variable {s s' s'' : Server} {steps steps' : List Served}

/-- A run is a path of these steps. -/
lemma iff_path :
    Run app s steps s' ↔ Path Served.before Served.after (Served.Of app) s steps s' := by
  constructor
  · intro h
    induction h with
    | nil => exact .nil
    | snoc h time reply request clock ih => exact ih.snoc ⟨rfl, clock⟩
  · intro h
    induction h with
    | nil => exact .nil
    | @snoc steps p h hp ih =>
      rw [hp.serve]
      exact ih.snoc p.time p.reply p.request hp.clock

lemma single (time : Time) (reply : (q : Question) → Reply q) (request : Request)
    (clock : s.clock ≤ time) :
    Run app s [serve app time reply request s] (serve app time reply request s).after :=
  nil.snoc time reply request clock

/-- Two runs follow one another. -/
lemma append (h : Run app s steps s') (h' : Run app s' steps' s'') :
    Run app s (steps ++ steps') s'' :=
  iff_path.mpr ((iff_path.mp h).append (iff_path.mp h'))

/-- A run around one of its steps. -/
lemma around {l m : List Served} {p : Served} (h : Run app s (l ++ p :: m) s') :
    Run app s l p.before ∧ p.Of app ∧ Run app p.after m s' := by
  obtain ⟨hl, hp, hm⟩ := (iff_path.mp h).around
  exact ⟨iff_path.mpr hl, hp, iff_path.mpr hm⟩

/-- A step of a run comes after a run to it. -/
lemma before {p : Served} (h : Run app s steps s') (hp : p ∈ steps) :
    ∃ l m, steps = l ++ p :: m ∧ Run app s l p.before ∧ p.Of app ∧ Run app p.after m s' := by
  obtain ⟨l, m, rfl⟩ := List.append_of_mem hp
  exact ⟨l, m, rfl, h.around⟩

/-- What serving a request keeps, a run keeps. -/
theorem keeps {P : Server → Prop} (hrun : Run app s steps s') (hs : P s)
    (hstep : ∀ p ∈ steps, p.Of app → P p.before → P p.after) : P s' :=
  (iff_path.mp hrun).keeps_of_mem hs hstep

theorem keyed (huuid : Function.Injective app.uuid) (hrun : Run app s steps s')
    (hs : s.db.Keyed app s.served 0) : s'.db.Keyed app s'.served 0 := by
  refine hrun.keeps (P := fun s => s.db.Keyed app s.served 0) hs fun p _ hp h => ?_
  rw [hp.serve]
  exact serve_keyed huuid h

end Run

lemma Reachable.start (app : App) (clock : Time) :
    Reachable app { db := {}, served := 0, clock } :=
  ⟨clock, [], .nil⟩

lemma Reachable.run {s s' : Server} {steps : List Served} (hs : Reachable app s)
    (h : Run app s steps s') : Reachable app s' := by
  obtain ⟨clock, steps₀, hrun⟩ := hs
  exact ⟨clock, _, hrun.append h⟩

theorem Reachable.keyed (huuid : Function.Injective app.uuid) {s : Server}
    (hs : Reachable app s) : s.db.Keyed app s.served 0 := by
  obtain ⟨clock, steps, hrun⟩ := hs
  have hempty : Keys app 0 0 [] := ⟨List.nodup_nil, by simp⟩
  exact hrun.keyed huuid
    ⟨hempty, hempty, hempty, hempty, hempty, hempty, hempty, hempty⟩

/-- A step is a run. -/
lemma Served.Of.run {p : Served} (hp : p.Of app) : Run app p.before [p] p.after :=
  Run.iff_path.mpr (.single hp)

lemma Served.Of.after_served {p : Served} (hp : p.Of app) : p.after.served = p.before.served + 1 := by
  rw [hp.serve]
  rfl

lemma Served.Of.after_clock {p : Served} (hp : p.Of app) : p.after.clock = p.time := by
  rw [hp.serve]
  rfl

/-- The identifier is drawn already. -/
def Server.HasDrawn (app : App) (k : Uuid) (s : Server) : Prop := Drawn app s.served 0 k

lemma Served.Of.hasDrawn {p : Served} {k : Uuid} (hp : p.Of app) (h : p.before.HasDrawn app k) :
    p.after.HasDrawn app k := by
  rw [Server.HasDrawn, hp.after_served]
  exact Drawn.next h

/-- A step of the server from a reachable state. -/
def Served.Taken (app : App) (p : Served) : Prop := p.Of app ∧ Reachable app p.before

/-- A run from a reachable state is a path of such steps. -/
lemma Run.path {s₀ s : Server} {steps : List Served} (h : Run app s₀ steps s)
    (hs : Reachable app s₀) :
    Path Served.before Served.after (Served.Taken app) s₀ steps s := by
  induction h with
  | nil => exact .nil
  | snoc h time reply request clock ih => exact ih.snoc ⟨⟨rfl, clock⟩, hs.run h⟩

/-- What every request keeps holds in every reachable state, if it holds of the empty database. -/
theorem Reachable.invariant {s : Server} (hs : Reachable app s) {P : Server → Prop}
    (hempty : ∀ clock, P { db := {}, served := 0, clock })
    (hstep : ∀ p : Served, p.Of app → Reachable app p.before → P p.before → P p.after) : P s := by
  obtain ⟨clock, steps, hrun⟩ := hs
  refine hrun.keeps (hempty clock) fun p hp hof h => hstep p hof ?_ h
  obtain ⟨l, m, -, hl, -, -⟩ := hrun.before hp
  exact ⟨clock, l, hl⟩

end Bauth
