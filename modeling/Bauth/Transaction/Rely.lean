import Bauth.Transaction.Pool
import Bauth.Transaction.Sends

/-!
# Reasoning about programs side by side

`Program.safe` says what a program does whatever the others do meanwhile: between two of its
operations the committed contents may take the steps that all programs keep to, but what it holds a
lock on stays as it is. A pool whose programs are safe keeps to the steps, and each of its programs
ends as it was shown to.
-/

namespace Transaction

open Transition Program

/-- What all programs keep to. -/
structure Rules (S : Signature) where
  /-- What is under the lock is the same in both. -/
  same : S.Lock → S.State → S.State → Prop
  /-- What the committed contents may become while a process waits. -/
  step : ℕ → S.State → S.State → Prop
  /-- What is expected of the contents that a statement sees, given the locks it needs. -/
  expects : S.Label → List S.Lock → Time → S.State → Prop
  /-- What is expected of the answers given outside the store. -/
  replies : (q : S.Question) → Time → S.Reply q → Prop
  same_refl : ∀ l d, same l d d
  same_trans : ∀ l d d' d'', same l d d' → same l d' d'' → same l d d''
  step_refl : ∀ i d, step i d d
  step_trans : ∀ i d d' d'', step i d d' → step i d' d'' → step i d d''

namespace Rules

variable {S : Signature} {ι α β : Type} (D : Rules S)

/-- What process `i` may make of the committed contents: what the others put up with. -/
def Allows (i : ℕ) (d d' : S.State) : Prop := ∀ j, j ≠ i → D.step j d d'

/-- What can happen between two operations of process `i`. -/
structure Others (i : ℕ) (L : Place S) (t : Time) (d : S.State) (t' : Time) (d' : S.State) :
    Prop where
  clock : t ≤ t'
  step : D.step i d d'
  same : ∀ l ∈ L.held, D.same l d d'

/-- A change leaves alone what none of the locks excludes. -/
def Confined (locks : List S.Lock) (write : S.State → S.State) : Prop :=
  ∀ l d, (∀ m ∈ locks, S.conflict l m = false) → D.same l d (write d)

/-- A statement only changes what it locks. -/
def Within (st : Statement S β) : Prop :=
  ∀ now n d, D.Confined (st.locks now d) (st.run now n d).1

/-- An open transaction only changed what it locks. -/
def Tidy (L : Place S) : Prop := ∀ tx, L.tx = some tx → D.Confined tx.locks tx.writes

end Rules

/-- After a statement. -/
def Place.sent {S : Signature} {β : Type} (L : Place S) (i : ℕ) (t : Time) (d : S.State)
    (st : Statement S β) : Place S :=
  { L.after ((L.conn i d).send t st).2 with
    sights := L.sights ++ [⟨st.label, (L.conn i d).now t, d⟩] }

/-- Whatever the others do, process `i` keeps to the rules, and ends with `Q`. -/
def Program.safe {S : Signature} {α : Type} (D : Rules S) (i : ℕ) : Program S α → Place S → Time →
    S.State → (α → Place S → Time → S.State → Prop) → Prop
  | ret a, L, t, d, Q => Q a L t d
  | stmt st k, L, t, d, Q => D.Within st ∧ ∀ t' d', D.Others i L t d t' d' →
      D.expects st.label (st.locks ((L.conn i d').now t') (L.conn i d').view)
          ((L.conn i d').now t') (L.conn i d').view →
        (L.tx = none → D.Allows i d' ((L.conn i d').send t' st).2.db) ∧
        (k ((L.conn i d').send t' st).1).safe D i (L.sent i t' d' st) t'
          ((L.conn i d').send t' st).2.db Q
  | utcNow k, L, t, d, Q => ∀ t' d', D.Others i L t d t' d' → (k t').safe D i L t' d' Q
  | draw k, L, t, d, Q => ∀ t' d', D.Others i L t d t' d' →
      (k ⟨i, L.draws⟩).safe D i { L with draws := L.draws + 1 } t' d' Q
  | ask q k, L, t, d, Q => ∀ t' d' r, D.Others i L t d t' d' → D.replies q t' r →
      (k r).safe D i L t' d' Q
  | emit e k, L, t, d, Q => ∀ t' d', D.Others i L t d t' d' →
      k.safe D i { L with events := L.events ++ [e] } t' d' Q
  | begin k, L, t, d, Q => ∀ t' d', D.Others i L t d t' d' →
      k.safe D i { L with tx := some ⟨t', fun d => d, []⟩ } t' d' Q
  | commit k, L, t, d, Q => ∀ t' d', D.Others i L t d t' d' →
      D.Allows i d' (L.conn i d').view ∧ k.safe D i { L with tx := none } t' (L.conn i d').view Q
  | rollback k, L, t, d, Q => ∀ t' d', D.Others i L t d t' d' →
      k.safe D i { L with tx := none } t' d' Q

namespace Rules

variable {S : Signature} {ι α β : Type} {D : Rules S} {i : ℕ} {L : Place S} {t t' t'' : Time}
  {d d' d'' : S.State} {p : Program S α} {Q Q' : α → Place S → Time → S.State → Prop}

lemma Allows.refl : D.Allows i d d := fun j _ => D.step_refl j d

lemma Others.refl : D.Others i L t d t d := ⟨le_rfl, D.step_refl i d, fun l _ => D.same_refl l d⟩

lemma Others.trans (h : D.Others i L t d t' d') (h' : D.Others i L t' d' t'' d'') :
    D.Others i L t d t'' d'' :=
  ⟨h.clock.trans h'.clock, D.step_trans _ _ _ _ h.step h'.step,
    fun l hl => D.same_trans _ _ _ _ (h.same l hl) (h'.same l hl)⟩

/-- An ending that the others leave alone. -/
def Stable (D : Rules S) (i : ℕ) (Q : α → Place S → Time → S.State → Prop) : Prop :=
  ∀ a L L' t d t' d', t ≤ t' → D.step i d d' → L'.events = L.events → L'.sights = L.sights →
    Q a L t d → Q a L' t' d'

/-- What is shown of a program stays true while the others go on. -/
lemma safe_others (h : p.safe D i L t d Q) (hQ : D.Stable i Q) (ho : D.Others i L t d t' d') :
    p.safe D i L t' d' Q := by
  cases p with
  | ret a => exact hQ a L L t d t' d' ho.clock ho.step rfl rfl h
  | stmt st k => exact ⟨h.1, fun t'' d'' ho' => h.2 t'' d'' (ho.trans ho')⟩
  | utcNow k => exact fun t'' d'' ho' => h t'' d'' (ho.trans ho')
  | draw k => exact fun t'' d'' ho' => h t'' d'' (ho.trans ho')
  | ask q k => exact fun t'' d'' r ho' hr => h t'' d'' r (ho.trans ho') hr
  | emit e k => exact fun t'' d'' ho' => h t'' d'' (ho.trans ho')
  | begin k => exact fun t'' d'' ho' => h t'' d'' (ho.trans ho')
  | commit k => exact fun t'' d'' ho' => h t'' d'' (ho.trans ho')
  | rollback k => exact fun t'' d'' ho' => h t'' d'' (ho.trans ho')

lemma safe_bind (p : Program S β) (f : β → Program S α) :
    (p >>= f).safe D i L t d Q ↔
      p.safe D i L t d fun b L t d => (f b).safe D i L t d Q := by
  induction p generalizing L t d with
  | ret b => exact Iff.rfl
  | stmt st k ih =>
    refine and_congr_right fun _ => forall₄_congr fun t' d' _ _ => and_congr_right fun _ => ih _
  | utcNow k ih => exact forall₃_congr fun t' d' _ => ih _
  | draw k ih => exact forall₃_congr fun t' d' _ => ih _
  | ask q k ih => exact forall₅_congr fun t' d' r _ _ => ih _
  | emit e k ih => exact forall₃_congr fun t' d' _ => ih
  | begin k ih => exact forall₃_congr fun t' d' _ => ih
  | commit k ih => exact forall₃_congr fun t' d' _ => and_congr_right fun _ => ih
  | rollback k ih => exact forall₃_congr fun t' d' _ => ih

lemma safe_mono (h : p.safe D i L t d Q) (hQ : ∀ a L t d, Q a L t d → Q' a L t d) :
    p.safe D i L t d Q' := by
  induction p generalizing L t d with
  | ret a => exact hQ a L t d h
  | stmt st k ih =>
    refine ⟨h.1, fun t' d' ho he => ?_⟩
    obtain ⟨hstep, hk⟩ := h.2 t' d' ho he
    exact ⟨hstep, ih _ hk⟩
  | utcNow k ih => exact fun t' d' ho => ih _ (h t' d' ho)
  | draw k ih => exact fun t' d' ho => ih _ (h t' d' ho)
  | ask q k ih => exact fun t' d' r ho hr => ih _ (h t' d' r ho hr)
  | emit e k ih => exact fun t' d' ho => ih (h t' d' ho)
  | begin k ih => exact fun t' d' ho => ih (h t' d' ho)
  | commit k ih => exact fun t' d' ho => ⟨(h t' d' ho).1, ih (h t' d' ho).2⟩
  | rollback k ih => exact fun t' d' ho => ih (h t' d' ho)

/-! ### Operations -/

@[simp] lemma safe_ret (a : α) : (ret a).safe D i L t d Q ↔ Q a L t d := Iff.rfl

@[simp] lemma safe_clock {Q : Time → Place S → Time → S.State → Prop} :
    (clock : Program S Time).safe D i L t d Q ↔
      ∀ t' d', D.Others i L t d t' d' → Q t' L t' d' := Iff.rfl

@[simp] lemma safe_fresh {Q : Draw → Place S → Time → S.State → Prop} :
    (fresh : Program S Draw).safe D i L t d Q ↔
      ∀ t' d', D.Others i L t d t' d' →
        Q ⟨i, L.draws⟩ { L with draws := L.draws + 1 } t' d' := Iff.rfl

@[simp] lemma safe_inquire (q : S.Question) {Q : S.Reply q → Place S → Time → S.State → Prop} :
    (inquire q).safe D i L t d Q ↔
      ∀ t' d' r, D.Others i L t d t' d' → D.replies q t' r → Q r L t' d' := Iff.rfl

@[simp] lemma safe_signal (e : S.Event) {Q : Unit → Place S → Time → S.State → Prop} :
    (signal e).safe D i L t d Q ↔
      ∀ t' d', D.Others i L t d t' d' → Q () { L with events := L.events ++ [e] } t' d' := Iff.rfl

@[simp] lemma safe_start {Q : Unit → Place S → Time → S.State → Prop} :
    (start : Program S Unit).safe D i L t d Q ↔
      ∀ t' d', D.Others i L t d t' d' →
        Q () { L with tx := some ⟨t', fun d => d, []⟩ } t' d' := Iff.rfl

@[simp] lemma safe_finish {Q : Unit → Place S → Time → S.State → Prop} :
    (finish : Program S Unit).safe D i L t d Q ↔
      ∀ t' d', D.Others i L t d t' d' → D.Allows i d' (L.conn i d').view ∧
        Q () { L with tx := none } t' (L.conn i d').view := Iff.rfl

@[simp] lemma safe_abandon {Q : Unit → Place S → Time → S.State → Prop} :
    (abandon : Program S Unit).safe D i L t d Q ↔
      ∀ t' d', D.Others i L t d t' d' → Q () { L with tx := none } t' d' := Iff.rfl

/-! ### Statements -/

lemma within_select (label : S.Label) (read : Time → S.State → β) :
    D.Within (Statement.select label read) := fun _ _ _ l d _ => D.same_refl l d

/-- A statement in an open transaction. -/
lemma safe_query_open {st : Statement S α} {tx : Tx S} (htx : L.tx = some tx) :
    (query st).safe D i L t d Q ↔ D.Within st ∧ ∀ t' d', D.Others i L t d t' d' →
      D.expects st.label (st.locks tx.start (tx.writes d')) tx.start (tx.writes d') →
        Q (st.run tx.start ⟨i, L.draws⟩ (tx.writes d')).2
          { tx := some { tx with
              writes := fun d₀ => (st.run tx.start ⟨i, L.draws⟩ (tx.writes d')).1 (tx.writes d₀)
              locks := tx.locks ++ st.locks tx.start (tx.writes d') }
            draws := L.draws + 1
            events := L.events
            sights := L.sights ++ [⟨st.label, tx.start, d'⟩] } t' d' := by
  refine and_congr_right fun _ => forall₃_congr fun t' d' _ => ?_
  have hconn : L.conn i d' = ⟨d', some tx, i, L.draws, L.events⟩ := by rw [Place.conn, htx]
  simp [Program.safe, Place.sent, Place.after, hconn, Conn.send, Conn.write, Conn.view, Conn.now,
    Conn.nextDraw, htx]

/-- A statement on its own. -/
lemma safe_query_closed {st : Statement S α} (htx : L.tx = none) :
    (query st).safe D i L t d Q ↔ D.Within st ∧ ∀ t' d', D.Others i L t d t' d' →
      D.expects st.label (st.locks t' d') t' d' →
        D.Allows i d' ((st.run t' ⟨i, L.draws⟩ d').1 d') ∧
        Q (st.run t' ⟨i, L.draws⟩ d').2
          { tx := none, draws := L.draws + 1, events := L.events
            sights := L.sights ++ [⟨st.label, t', d'⟩] } t'
          ((st.run t' ⟨i, L.draws⟩ d').1 d') := by
  refine and_congr_right fun _ => forall₃_congr fun t' d' _ => ?_
  have hconn : L.conn i d' = ⟨d', none, i, L.draws, L.events⟩ := by rw [Place.conn, htx]
  simp [Program.safe, Place.sent, Place.after, hconn, Conn.send, Conn.write, Conn.view, Conn.now,
    Conn.nextDraw, htx]

/-! ### Programs that only send certain statements -/

/-- After a statement of an open transaction. -/
def sentIn (tx : Tx S) (st : Statement S β) (n : Draw) (d : S.State) : Tx S :=
  { tx with
    writes := fun d₀ => (st.run tx.start n (tx.writes d)).1 (tx.writes d₀)
    locks := tx.locks ++ st.locks tx.start (tx.writes d) }

/-- `J` holds of a transaction that opens and of one that sends a statement of `Φ`, the others
leave it alone, and what commits under it keeps to the rules. -/
structure Carries (D : Rules S) (i : ℕ) (Φ : ∀ {β : Type}, Statement S β → Prop)
    (J : Tx S → S.State → Prop) : Prop where
  within : ∀ {β : Type} (st : Statement S β), Φ st → D.Within st
  opens : ∀ t d, J ⟨t, fun d => d, []⟩ d
  sends : ∀ {β : Type} (st : Statement S β) tx n d, Φ st → J tx d →
    D.expects st.label (st.locks tx.start (tx.writes d)) tx.start (tx.writes d) →
      J (sentIn tx st n d) d
  others : ∀ tx d d', J tx d → (∀ l ∈ tx.locks, D.same l d d') → D.step i d d' → J tx d'
  commits : ∀ tx d, J tx d → D.Allows i d (tx.writes d)

lemma Carries.stable {Φ : ∀ {β : Type}, Statement S β → Prop} {J : Tx S → S.State → Prop}
    (h : Carries D i Φ J) (hJ : ∀ tx, L.tx = some tx → J tx d) (ho : D.Others i L t d t' d') :
    ∀ tx, L.tx = some tx → J tx d' := by
  intro tx htx
  refine h.others tx d d' (hJ tx htx) (fun l hl => ho.same l ?_) ho.step
  rw [Place.held, htx]
  exact hl

/-- A program that only sends statements of `Φ` keeps to the rules that `J` carries. -/
theorem Carries.safe {Φ : ∀ {β : Type}, Statement S β → Prop} {J : Tx S → S.State → Prop}
    (h : Carries D i Φ J) {Q : α → Prop} (hp : p.Sends Φ Q) (hJ : ∀ tx, L.tx = some tx → J tx d) :
    p.safe D i L t d fun a _ _ _ => Q a := by
  induction p generalizing L t d with
  | ret a => exact hp
  | stmt st k ih =>
    refine (safe_bind (query st) k).mpr ?_
    cases htx : L.tx with
    | none =>
      refine (safe_query_closed htx).mpr ⟨h.within st hp.1, fun t' d' _ he => ⟨?_, ?_⟩⟩
      · exact h.commits _ d' (h.sends st ⟨t', fun d => d, []⟩ ⟨i, L.draws⟩ d' hp.1 (h.opens t' d') he)
      · exact ih _ (hp.2 _) nofun
    | some tx =>
      refine (safe_query_open htx).mpr ⟨h.within st hp.1, fun t' d' ho he => ih _ (hp.2 _) ?_⟩
      rintro _ ⟨⟩
      exact h.sends st tx ⟨i, L.draws⟩ d' hp.1 (h.stable hJ ho tx htx) he
  | utcNow k ih => exact fun t' d' ho => ih _ (hp _) (h.stable hJ ho)
  | draw k ih => exact fun t' d' ho => ih _ (hp _) fun tx htx => h.stable hJ ho tx htx
  | ask q k ih => exact fun t' d' r ho _ => ih _ (hp _) (h.stable hJ ho)
  | emit e k ih => exact fun t' d' ho => ih hp fun tx htx => h.stable hJ ho tx htx
  | begin k ih =>
    refine fun t' d' _ => ih hp ?_
    rintro _ ⟨⟩
    exact h.opens t' d'
  | commit k ih =>
    refine fun t' d' ho => ⟨?_, ih hp nofun⟩
    cases htx : L.tx with
    | none =>
      simp only [Place.conn, Conn.view, htx]
      exact .refl
    | some tx =>
      simp only [Place.conn, Conn.view, htx]
      exact h.commits tx d' (h.stable hJ ho tx htx)
  | rollback k ih => exact fun t' d' _ => ih hp nofun

/-! ### One operation -/

/-- What an operation of a safe program does to the others. -/
structure Operated (D : Rules S) (i : ℕ) (L : Place S) (t : Time) (d : S.State)
    (needs : List S.Lock) (L' : Place S) (d' : S.State) : Prop where
  step : D.Allows i d d'
  confined : ∀ l, (∀ m ∈ L.held ++ needs, S.conflict l m = false) → D.same l d d'
  tidy : D.Tidy L'
  held : ∀ m ∈ L'.held, m ∈ L.held ∨ m ∈ needs

lemma tidy_of_none (h : L.tx = none) : D.Tidy L := by
  intro tx htx
  cases h.symm.trans htx

lemma Tidy.same {l : S.Lock} (h : D.Tidy L) (hl : ∀ m ∈ L.held, S.conflict l m = false) :
    D.same l d (L.conn i d).view := by
  cases htx : L.tx with
  | none =>
    simp only [Place.conn, Conn.view, htx]
    exact D.same_refl l d
  | some tx =>
    simp only [Place.conn, Conn.view, htx]
    refine h tx htx l d fun m hm => hl m ?_
    simpa [Place.held, htx] using hm

/-- An operation that leaves the contents and the transaction alone. -/
lemma Operated.idle {needs : List S.Lock} {L' : Place S} (h : D.Tidy L) (htx : L'.tx = L.tx) :
    D.Operated i L t d needs L' d where
  step := .refl
  confined l _ := D.same_refl l d
  tidy tx h' := h tx (htx ▸ h')
  held m hm := .inl (by simpa [Place.held, htx] using hm)

/-- An operation that ends the transaction, or has none. -/
lemma Operated.ended {needs : List S.Lock} {L' : Place S} (htx : L'.held = []) (htidy : D.Tidy L')
    (hstep : D.Allows i d d')
    (hconfined : ∀ l, (∀ m ∈ L.held ++ needs, S.conflict l m = false) → D.same l d d') :
    D.Operated i L t d needs L' d' where
  step := hstep
  confined := hconfined
  tidy := htidy
  held m hm := by simp [htx] at hm

lemma operated_sent {st : Statement S β} (h : D.Tidy L) (hwithin : D.Within st)
    (hstep : L.tx = none → D.Allows i d ((L.conn i d).send t st).2.db) :
    D.Operated i L t d (st.locks ((L.conn i d).now t) (L.conn i d).view) (L.sent i t d st)
      ((L.conn i d).send t st).2.db := by
  cases htx : L.tx with
  | none =>
    have hconn : L.conn i d = ⟨d, none, i, L.draws, L.events⟩ := by rw [Place.conn, htx]
    have hnone : (L.sent i t d st).tx = none := by
      simp [Place.sent, Place.after, hconn, Conn.send, Conn.write]
    refine .ended (by simp [Place.held, hnone]) ?_ (hstep htx) fun l hl => ?_
    · exact tidy_of_none hnone
    · rw [hconn] at hl ⊢
      exact hwithin _ _ _ l d fun m hm => hl m (List.mem_append_right _ hm)
  | some tx =>
    have hconn : L.conn i d = ⟨d, some tx, i, L.draws, L.events⟩ := by rw [Place.conn, htx]
    have hdb : ((L.conn i d).send t st).2.db = d := by
      simp [hconn, Conn.send, Conn.write]
    have hsome : (L.sent i t d st).tx = some { tx with
        writes := fun d₀ => (st.run ((L.conn i d).now t) (L.conn i d).nextDraw
          (L.conn i d).view).1 (tx.writes d₀)
        locks := tx.locks ++ st.locks ((L.conn i d).now t) (L.conn i d).view } := by
      simp [Place.sent, Place.after, hconn, Conn.send, Conn.write]
    rw [hdb]
    refine ⟨.refl, fun l _ => D.same_refl l d, fun tx' htx' l d₀ hl => ?_, fun m hm => ?_⟩
    · obtain rfl := Option.some.inj (hsome.symm.trans htx')
      refine D.same_trans l d₀ (tx.writes d₀) _ (h tx htx l d₀ fun m hm => ?_) ?_
      · exact hl m (List.mem_append_left _ hm)
      · exact hwithin _ _ _ l _ fun m hm => hl m (List.mem_append_right _ hm)
    · rw [Place.held, hsome] at hm
      rw [Place.held, htx]
      exact List.mem_append.mp hm

/-- An operation of a safe program keeps to the rules, and the program stays safe. -/
theorem safe_next (h : p.safe D i L t d Q) (hQ : D.Stable i Q) (htidy : D.Tidy L)
    (hexpects : ∀ x ∈ p.sees (L.conn i d) t,
      D.expects x.label (p.needs (L.conn i d) t) x.now (L.conn i d).view)
    (reply : (q : S.Question) → S.Reply q) (hreplies : ∀ q, D.replies q t (reply q)) :
    (p.next ⟨t, t, reply⟩ (L.conn i d)).1.safe D i
      { L.after (p.next ⟨t, t, reply⟩ (L.conn i d)).2 with
        sights := L.sights ++ p.sees (L.conn i d) t } t (p.next ⟨t, t, reply⟩ (L.conn i d)).2.db Q ∧
      D.Operated i L t d (p.needs (L.conn i d) t)
        { L.after (p.next ⟨t, t, reply⟩ (L.conn i d)).2 with
          sights := L.sights ++ p.sees (L.conn i d) t } (p.next ⟨t, t, reply⟩ (L.conn i d)).2.db := by
  cases p with
  | ret a =>
    refine ⟨hQ a L _ t d t d le_rfl (D.step_refl i d) rfl (by simp [Program.sees]) h, ?_⟩
    exact .ended rfl (tidy_of_none rfl) .refl fun l _ => D.same_refl l d
  | stmt st k =>
    obtain ⟨hstep, hk⟩ := h.2 t d .refl (hexpects _ (List.mem_singleton_self _))
    exact ⟨hk, operated_sent htidy h.1 hstep⟩
  | utcNow k => exact ⟨by simpa [Program.sees, Place.after, Program.next, Place.conn] using h t d .refl, .idle htidy rfl⟩
  | draw k =>
    exact ⟨by simpa [Program.sees, Place.after, Program.next, Place.conn, Conn.nextDraw] using h t d .refl, .idle htidy rfl⟩
  | ask q k => exact ⟨by simpa [Program.sees, Place.after, Program.next, Place.conn] using h t d (reply q) .refl (hreplies q), .idle htidy rfl⟩
  | emit e k =>
    exact ⟨by simpa [Program.sees, Place.after, Program.next, Place.conn, Conn.nextDraw] using h t d .refl, .idle htidy rfl⟩
  | begin k =>
    refine ⟨by simpa [Program.sees, Place.after, Program.next, Place.conn, Conn.nextDraw] using h t d .refl, ?_⟩
    refine .ended rfl ?_ .refl fun l _ => D.same_refl l d
    rintro tx ⟨⟩ l d₀ -
    exact D.same_refl l d₀
  | commit k =>
    obtain ⟨hstep, hk⟩ := h t d .refl
    refine ⟨by simpa [Program.sees, Place.after, Program.next, Place.conn, Conn.nextDraw] using hk, ?_⟩
    refine .ended rfl (tidy_of_none rfl) hstep fun l hl => ?_
    exact htidy.same fun m hm => hl m (List.mem_append_left _ hm)
  | rollback k =>
    refine ⟨by simpa [Program.sees, Place.after, Program.next, Place.conn, Conn.nextDraw] using h t d .refl, ?_⟩
    exact .ended rfl (tidy_of_none rfl) .refl fun l _ => D.same_refl l d

/-! ### Pools -/

section Pools

variable {handle : ι → Program S α} {s s' : Pool S ι α} {j : ℕ}
  {E : ℕ → ι → α → Place S → Time → S.State → Prop}

/-- The programs of a pool are safe, and their locks exclude one another. -/
structure Guarded (D : Rules S) (E : ℕ → ι → α → Place S → Time → S.State → Prop)
    (s : Pool S ι α) : Prop where
  safe : ∀ (i : ℕ) (p : Proc S ι α) program, s.procs[i]? = some p → p.program = some program →
    program.safe D i p.place s.clock s.db (E i p.request)
  tidy : ∀ (i : ℕ) (p : Proc S ι α), s.procs[i]? = some p → D.Tidy p.place
  exclusive : ∀ (i j : ℕ) (p q : Proc S ι α), s.procs[i]? = some p → s.procs[j]? = some q →
    i ≠ j → ∀ l ∈ p.place.held, ∀ m ∈ q.place.held, S.conflict l m = false

/-- The step is given the answers that are expected, and its statement, if it is one, sees what is
expected. -/
def Meets (D : Rules S) (p : Step (Pool S ι α) (Pool.Action S ι)) : Prop :=
  ∀ i reply, p.action = .advance i reply → (∀ q, D.replies q p.before.clock (reply q)) ∧
    ∀ (q : Proc S ι α) program, p.before.procs[i]? = some q → q.program = some program →
      ∀ x ∈ program.sees (q.place.conn i p.before.db) p.before.clock,
        D.expects x.label (program.needs (q.place.conn i p.before.db) p.before.clock) x.now
          (q.place.conn i p.before.db).view

lemma set_cases {l : List (Proc S ι α)} {p q : Proc S ι α} (h : (l.set i p)[j]? = some q) :
    j = i ∧ q = p ∨ j ≠ i ∧ l[j]? = some q := by
  by_cases hji : j = i
  · subst hji
    rw [List.getElem?_set_self'] at h
    cases hl : l[j]? with
    | none => simp [hl] at h
    | some _ => exact .inl ⟨rfl, by simpa [hl] using h.symm⟩
  · rw [List.getElem?_set_ne (Ne.symm hji)] at h
    exact .inr ⟨hji, h⟩

lemma append_cases {l : List (Proc S ι α)} {p q : Proc S ι α} (h : (l ++ [p])[j]? = some q) :
    l[j]? = some q ∨ j = l.length ∧ q = p := by
  rcases lt_trichotomy j l.length with hj | hj | hj
  · rw [List.getElem?_append_left hj] at h
    exact .inl h
  · subst hj
    simp only [List.getElem?_concat_length, Option.some.injEq] at h
    exact .inr ⟨rfl, h.symm⟩
  · rw [List.getElem?_append_right hj.le, List.getElem?_singleton,
      if_neg (Nat.sub_ne_zero_of_lt hj)] at h
    cases h

lemma conflict_of_not_waits {locks : List S.Lock} {q : Proc S ι α} (h : s.waits i locks = false)
    (hj : s.procs[j]? = some q) (hne : j ≠ i) : ∀ m ∈ q.place.held, ∀ l ∈ locks,
      S.conflict m l = false := by
  have hmem : q ∈ s.procs.eraseIdx i := List.mem_eraseIdx_iff_getElem?.mpr ⟨j, hne, hj⟩
  rw [Pool.waits, List.any_eq_false] at h
  intro m hm l hl
  have hq := h q hmem
  rw [Bool.not_eq_true, List.any_eq_false] at hq
  have hm' := hq m hm
  rw [Bool.not_eq_true, List.any_eq_false] at hm'
  simpa using hm' l hl

/-- One operation of one program of the pool. -/
lemma Guarded.operate (hs : D.Guarded E s) (hE : ∀ i r, D.Stable i (E i r))
    (hcomm : ∀ l m, S.conflict l m = S.conflict m l) {p : Proc S ι α}
    {program : Program S α} (hi : s.procs[i]? = some p) (hp : p.program = some program)
    (hwaits : s.waits i (program.needs (p.place.conn i s.db) s.clock) = false)
    (hexpects : ∀ x ∈ program.sees (p.place.conn i s.db) s.clock,
      D.expects x.label (program.needs (p.place.conn i s.db) s.clock) x.now
        (p.place.conn i s.db).view)
    (reply : (q : S.Question) → S.Reply q) (hreplies : ∀ q, D.replies q s.clock (reply q)) :
    D.Guarded E (s.operate i reply p program) ∧ D.Allows i s.db (s.operate i reply p program).db := by
  obtain ⟨hsafe, hoperated⟩ := safe_next (hs.safe i p program hi hp) (hE i p.request)
    (hs.tidy i p hi) hexpects reply hreplies
  -- what it leaves to the others
  have hothers : ∀ (j : ℕ) (q : Proc S ι α), s.procs[j]? = some q → j ≠ i →
      D.Others j q.place s.clock s.db s.clock (s.operate i reply p program).db := by
    intro j q hj hne
    refine ⟨le_rfl, hoperated.step j hne, fun l hl => hoperated.confined l fun m hm => ?_⟩
    rcases List.mem_append.mp hm with hm | hm
    · exact hs.exclusive j i q p hj hi hne l hl m hm
    · exact conflict_of_not_waits hwaits hj hne l hl m hm
  refine ⟨⟨fun j q program' hj hq => ?_, fun j q hj => ?_, fun j k q r hj hk hne l hl m hm => ?_⟩,
    hoperated.step⟩
  · rcases set_cases hj with ⟨rfl, rfl⟩ | ⟨hne, hj⟩
    · obtain rfl := Option.some.inj hq
      exact hsafe
    · exact safe_others (hs.safe j q program' hj hq) (hE j q.request) (hothers j q hj hne)
  · rcases set_cases hj with ⟨rfl, rfl⟩ | ⟨-, hj⟩
    · exact hoperated.tidy
    · exact hs.tidy j q hj
  · rcases set_cases hj with ⟨rfl, rfl⟩ | ⟨hnej, hj⟩
    · rcases set_cases hk with ⟨rfl, -⟩ | ⟨hnek, hk⟩
      · exact absurd rfl hne
      · rcases hoperated.held l hl with hl | hl
        · exact hs.exclusive j k p r hi hk hne l hl m hm
        · rw [hcomm]
          exact conflict_of_not_waits hwaits hk hnek m hm l hl
    · rcases set_cases hk with ⟨rfl, rfl⟩ | ⟨-, hk⟩
      · rcases hoperated.held m hm with hm | hm
        · exact hs.exclusive j k q p hj hi hne l hl m hm
        · exact conflict_of_not_waits hwaits hj hnej l hl m hm
      · exact hs.exclusive j k q r hj hk hne l hl m hm

/-- A dropped connection. -/
lemma Guarded.drop (hs : D.Guarded E s) (p : Proc S ι α) :
    D.Guarded E (s.set i { p with program := none, place := { p.place with tx := none } }) := by
  refine ⟨fun j q program' hj hq => ?_, fun j q hj => ?_, fun j k q r hj hk hne l hl m hm => ?_⟩
  · rcases set_cases hj with ⟨-, rfl⟩ | ⟨-, hj⟩
    · cases hq
    · exact hs.safe j q program' hj hq
  · rcases set_cases hj with ⟨-, rfl⟩ | ⟨-, hj⟩
    · exact tidy_of_none rfl
    · exact hs.tidy j q hj
  · rcases set_cases hj with ⟨-, rfl⟩ | ⟨-, hj⟩
    · cases hl
    · rcases set_cases hk with ⟨-, rfl⟩ | ⟨-, hk⟩
      · cases hm
      · exact hs.exclusive j k q r hj hk hne l hl m hm

/-- A new program joins a pool. -/
lemma Guarded.spawn (hs : D.Guarded E s) {request : ι} {program : Program S α}
    (h : program.safe D s.procs.length {} s.clock s.db (E s.procs.length request)) :
    D.Guarded E { s with procs := s.procs ++ [⟨request, some program, {}⟩] } := by
  refine ⟨fun j q program' hj hq => ?_, fun j q hj => ?_, fun j k q r hj hk hne l hl m hm => ?_⟩
  · rcases append_cases hj with hj | ⟨rfl, rfl⟩
    · exact hs.safe j q program' hj hq
    · obtain rfl := Option.some.inj hq
      exact h
  · rcases append_cases hj with hj | ⟨rfl, rfl⟩
    · exact hs.tidy j q hj
    · exact tidy_of_none rfl
  · rcases append_cases hj with hj | ⟨-, rfl⟩
    · rcases append_cases hk with hk | ⟨-, rfl⟩
      · exact hs.exclusive j k q r hj hk hne l hl m hm
      · cases hm
    · cases hl

/-- A program keeps its request. -/
lemma request_of_run {m : List (Step (Pool S ι α) (Pool.Action S ι))}
    (hrun : (Pool.system handle).Run s m s') {p : Proc S ι α} (hi : s.procs[i]? = some p) :
    ∃ q, s'.procs[i]? = some q ∧ q.request = p.request := by
  refine hrun.keeps (P := fun s => ∃ q, s.procs[i]? = some q ∧ q.request = p.request)
    ⟨p, hi, rfl⟩ ?_
  rintro ⟨before, action, after⟩ - htakes ⟨q, hq, hrequest⟩
  have hset : ∀ {j : ℕ} {r r' : Proc S ι α}, before.procs[j]? = some r → r'.request = r.request →
      ∃ q, (before.procs.set j r')[i]? = some q ∧ q.request = p.request := by
    intro j r r' hj hsame
    by_cases hij : i = j
    · subst hij
      obtain rfl := Option.some.inj (hq.symm.trans hj)
      exact ⟨r', by rw [List.getElem?_set_self']; simp [hq], hsame.trans hrequest⟩
    · exact ⟨q, by rw [List.getElem?_set_ne (Ne.symm hij)]; exact hq, hrequest⟩
  have hstep : Pool.step handle before action = some after := htakes
  cases Pool.steps_of_step hstep with
  | tick h => exact ⟨q, hq, hrequest⟩
  | spawn request =>
    exact ⟨q, (List.getElem?_append_left (List.getElem?_eq_some_iff.mp hq).1).trans hq, hrequest⟩
  | advance reply hj hp => exact hset hj rfl
  | drop hj => exact hset hj rfl

/-- What each program of a pool keeps, given the steps taken so far: while others take theirs, and
by its own next operation. -/
theorem programs_of_run {clock : Time} {d₀ : S.State}
    {P : List (Step (Pool S ι α) (Pool.Action S ι)) → ℕ → ι → Program S α → Place S → Prop}
    {steps : List (Step (Pool S ι α) (Pool.Action S ι))}
    (hrun : (Pool.system handle).Run (Pool.start clock d₀) steps s)
    (hspawn : ∀ l i r, P l i r (handle r) {})
    (hothers : ∀ l x i r program L, P l i r program L → P (l ++ [x]) i r program L)
    (hnext : ∀ l x i reply (p : Proc S ι α) program,
      (Pool.system handle).Run (Pool.start clock d₀) l x.before → x.action = .advance i reply →
      x.before.procs[i]? = some p → p.program = some program →
      x.after = x.before.operate i reply p program → P l i p.request program p.place →
      P (l ++ [x]) i p.request
        (program.next ⟨x.before.clock, x.before.clock, reply⟩ (p.place.conn i x.before.db)).1
        { p.place.after (program.next ⟨x.before.clock, x.before.clock, reply⟩
            (p.place.conn i x.before.db)).2 with
          sights := p.place.sights ++ program.sees (p.place.conn i x.before.db) x.before.clock }) :
    ∀ (i : ℕ) (p : Proc S ι α) program, s.procs[i]? = some p → p.program = some program →
      P steps i p.request program p.place := by
  refine hrun.keeps_history (P := fun l s => ∀ (i : ℕ) (p : Proc S ι α) program,
    s.procs[i]? = some p → p.program = some program → P l i p.request program p.place) ?_ ?_
  · intro i p program hi
    simp [Pool.start] at hi
  rintro l ⟨before, action, after⟩ hl htakes ih i p program hi hp
  have hstep : Pool.step handle before action = some after := htakes
  cases Pool.steps_of_step hstep with
  | tick h => exact hothers l _ i _ _ _ (ih i p program hi hp)
  | spawn request =>
    rcases append_cases hi with hi | ⟨-, rfl⟩
    · exact hothers l _ i _ _ _ (ih i p program hi hp)
    · obtain rfl := Option.some.inj hp
      exact hspawn _ _ _
  | advance reply hj hq =>
    rcases set_cases hi with ⟨rfl, rfl⟩ | ⟨-, hi⟩
    · obtain rfl := Option.some.inj hp
      exact hnext l _ i reply _ _ hl rfl hj hq rfl (ih i _ _ hj hq)
    · exact hothers l _ i _ _ _ (ih i p program hi hp)
  | drop hj =>
    rcases set_cases hi with ⟨-, rfl⟩ | ⟨-, hi⟩
    · cases hp
    · exact hothers l _ i _ _ _ (ih i p program hi hp)

lemma guarded_start {clock : Time} {d₀ : S.State} : D.Guarded E (Pool.start clock d₀) := by
  refine ⟨?_, ?_, ?_⟩ <;> simp [Pool.start]

/-- A pool whose programs are safe when they start keeps to the rules. -/
theorem guarded_of_run {s₀ : Pool S ι α} {requests : ℕ → Option ι}
    {steps : List (Step (Pool S ι α) (Pool.Action S ι))} (hs₀ : D.Guarded E s₀)
    (hrun : (Pool.system handle).Run s₀ steps s) (hmeets : ∀ p ∈ steps, D.Meets p)
    (hrequests : ∀ p ∈ steps, ∀ (i : ℕ) (q : Proc S ι α), p.after.procs[i]? = some q →
      requests i = some q.request)
    (hcomm : ∀ l m, S.conflict l m = S.conflict m l) (hE : ∀ i r, D.Stable i (E i r))
    (hspawn : ∀ i r t d, requests i = some r → s₀.clock ≤ t → D.step i s₀.db d →
      (handle r).safe D i {} t d (E i r)) :
    D.Guarded E s ∧ (∀ k, s.procs.length ≤ k → D.step k s₀.db s.db) ∧ s₀.clock ≤ s.clock := by
  refine hrun.keeps (P := fun s => D.Guarded E s ∧
    (∀ k, s.procs.length ≤ k → D.step k s₀.db s.db) ∧ s₀.clock ≤ s.clock) ?_ ?_
  · exact ⟨hs₀, fun k _ => D.step_refl k s₀.db, le_rfl⟩
  · rintro ⟨before, action, after⟩ hx htakes ⟨hs, hstep₀, hclock⟩
    have hrequest := hrequests _ hx
    have hmeets := hmeets _ hx
    have hstep : Pool.step handle before action = some after := htakes
    cases Pool.steps_of_step hstep with
    | tick hle =>
      refine ⟨⟨fun i p program hi hp => ?_, hs.tidy, hs.exclusive⟩, hstep₀, hclock.trans hle⟩
      exact safe_others (hs.safe i p program hi hp) (hE i p.request)
        ⟨hle, D.step_refl _ _, fun l _ => D.same_refl l _⟩
    | spawn request =>
      have hnew : requests before.procs.length = some request :=
        hrequest _ ⟨request, some (handle request), {}⟩ List.getElem?_concat_length
      refine ⟨hs.spawn (hspawn _ _ _ _ hnew hclock (hstep₀ _ le_rfl)), fun k hk => hstep₀ k ?_, hclock⟩
      rw [List.length_append] at hk
      exact (Nat.le_add_right _ _).trans hk
    | @advance i reply p program hi hp hwaits =>
      obtain ⟨hreplies, hexpects⟩ := hmeets i reply rfl
      obtain ⟨hguarded, hkept⟩ := hs.operate hE hcomm hi hp hwaits (hexpects p program hi hp) reply
        hreplies
      refine ⟨hguarded, fun k hk => ?_, hclock⟩
      have hk' : before.procs.length ≤ k := by simpa [Pool.operate, Pool.set] using hk
      have hlt := (List.getElem?_eq_some_iff.mp hi).1
      exact D.step_trans _ _ _ _ (hstep₀ k hk') (hkept k (hlt.trans_le hk').ne')
    | @drop i p hi =>
      refine ⟨hs.drop p, fun k hk => hstep₀ k ?_, hclock⟩
      simpa [Pool.set] using hk

/-- The requests of a run are those of the pool it ends in. -/
lemma requests_of_run {s₀ : Pool S ι α} {steps : List (Step (Pool S ι α) (Pool.Action S ι))}
    (hrun : (Pool.system handle).Run s₀ steps s) : ∀ p ∈ steps, ∀ (i : ℕ) (q : Proc S ι α),
      p.after.procs[i]? = some q → (s.procs[i]?).map Proc.request = some q.request := by
  intro p hp i q hq
  obtain ⟨l, m, rfl⟩ := List.append_of_mem hp
  obtain ⟨-, -, hrest⟩ := hrun.around
  obtain ⟨r, hr, hrequest⟩ := request_of_run hrest hq
  rw [hr, Option.map_some, hrequest]

end Pools

end Rules

end Transaction
