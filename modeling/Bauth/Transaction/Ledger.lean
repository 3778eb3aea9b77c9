import Bauth.Transaction.Pool
import Bauth.Transaction.Sends

/-!
# What a pool keeps, whatever it interleaves

A ledger is a property of the committed contents and of what each program holds: a share that a
program takes when it writes, and gives back. `Program.obeys` says of one program that each of its
writes keeps the ledger. A pool whose programs obey keeps it, whatever waits for what.
-/

namespace Transaction

open Transition Program

/-- A property of the contents at a time and of the holdings of the programs, oldest program
first, for each `θ`. New programs hold `idle`. -/
structure Ledger (S : Signature) (Θ G : Type) where
  holds : Θ → Time → S.State → List G → Prop
  idle : G
  tick : ∀ θ t t' d γ, t ≤ t' → holds θ t d γ → holds θ t' d γ
  spawn : ∀ θ t d γ, holds θ t d γ → holds θ t d (γ ++ [idle])

variable {S : Signature} {Θ G : Type} {ι α β : Type}

/-- Process `i` keeps the ledger while it runs the program, from its transaction, its next draw, a
time that has passed and what it holds; and it ends with `Q`. -/
def Program.obeys (I : Ledger S Θ G) (i : ℕ) : Program S α → Option (Tx S) → ℕ → Time → G →
    (α → Option (Tx S) → ℕ → Time → G → Prop) → Prop
  | ret a, tx, n, t, g, Q => Q a tx n t g
  | stmt st k, none, n, t, g, Q => ∀ θ t' d γ, t ≤ t' → γ[i]? = some g → I.holds θ t' d γ →
      ∃ g', I.holds θ t' ((st.run t' ⟨i, n⟩ d).1 d) (γ.set i g') ∧
        (k (st.run t' ⟨i, n⟩ d).2).obeys I i none (n + 1) t' g' Q
  | stmt st k, some tx, n, t, g, Q => ∀ t' d, t ≤ t' →
      (k (st.run tx.start ⟨i, n⟩ (tx.writes d)).2).obeys I i
        (some { tx with
          writes := fun d₀ => (st.run tx.start ⟨i, n⟩ (tx.writes d)).1 (tx.writes d₀)
          locks := tx.locks ++ st.locks tx.start (tx.writes d) }) (n + 1) t' g Q
  | utcNow k, tx, n, t, g, Q => ∀ t', t ≤ t' → (k t').obeys I i tx n t' g Q
  | draw k, tx, n, t, g, Q => (k ⟨i, n⟩).obeys I i tx (n + 1) t g Q
  | ask _ k, tx, n, t, g, Q => ∀ r, (k r).obeys I i tx n t g Q
  | emit _ k, tx, n, t, g, Q => k.obeys I i tx n t g Q
  | begin k, _, n, t, g, Q => ∀ t', t ≤ t' → k.obeys I i (some ⟨t', fun d => d, []⟩) n t' g Q
  | commit k, tx, n, t, g, Q =>
      (∀ x, tx = some x → ∀ θ t' d γ, t ≤ t' → γ[i]? = some g → I.holds θ t' d γ →
        I.holds θ t' (x.writes d) γ) ∧ k.obeys I i none n t g Q
  | rollback k, _, n, t, g, Q => k.obeys I i none n t g Q

namespace Ledger

variable {I : Ledger S Θ G} {i n : ℕ} {tx : Option (Tx S)} {t t' : Time} {g : G}
  {p : Program S α} {Q Q' : α → Option (Tx S) → ℕ → Time → G → Prop}

lemma obeys_bind (p : Program S β) (f : β → Program S α) :
    (p >>= f).obeys I i tx n t g Q ↔
      p.obeys I i tx n t g fun b tx n t g => (f b).obeys I i tx n t g Q := by
  induction p generalizing tx n t g with
  | ret b => exact Iff.rfl
  | stmt st k ih =>
    cases tx with
    | none =>
      exact forall₄_congr fun θ t' d γ => forall₃_congr fun _ _ _ => exists_congr fun g' =>
        and_congr_right fun _ => ih _
    | some tx => exact forall₃_congr fun t' d _ => ih _
  | utcNow k ih => exact forall₂_congr fun t' _ => ih _
  | draw k ih => exact ih _
  | ask q k ih => exact forall_congr' fun r => ih _
  | emit e k ih => exact ih
  | begin k ih => exact forall₂_congr fun t' _ => ih
  | commit k ih => exact and_congr_right fun _ => ih
  | rollback k ih => exact ih

lemma obeys_mono (h : p.obeys I i tx n t g Q) (hQ : ∀ a tx n t g, Q a tx n t g → Q' a tx n t g) :
    p.obeys I i tx n t g Q' := by
  induction p generalizing tx n t g with
  | ret a => exact hQ _ _ _ _ _ h
  | stmt st k ih =>
    cases tx with
    | none =>
      intro θ t' d γ ht hγ hd
      obtain ⟨g', hd', hk⟩ := h θ t' d γ ht hγ hd
      exact ⟨g', hd', ih _ hk⟩
    | some tx => exact fun t' d ht => ih _ (h t' d ht)
  | utcNow k ih => exact fun t' ht => ih _ (h t' ht)
  | draw k ih => exact ih _ h
  | ask q k ih => exact fun r => ih _ (h r)
  | emit e k ih => exact ih h
  | begin k ih => exact fun t' ht => ih (h t' ht)
  | commit k ih => exact ⟨h.1, ih h.2⟩
  | rollback k ih => exact ih h

/-- An ending that time leaves alone. -/
def Lasting (Q : α → Option (Tx S) → ℕ → Time → G → Prop) : Prop :=
  ∀ a tx tx' n t t' g, t ≤ t' → Q a tx n t g → Q a tx' n t' g

/-- Time may pass before a program goes on. -/
lemma obeys_later (h : p.obeys I i tx n t g Q) (hQ : Lasting Q) (ht : t ≤ t') :
    p.obeys I i tx n t' g Q := by
  induction p generalizing tx n t t' g with
  | ret a => exact hQ _ _ _ _ _ _ _ ht h
  | stmt st k ih =>
    cases tx with
    | none => exact fun θ t'' d γ ht' => h θ t'' d γ (ht.trans ht')
    | some tx => exact fun t'' d ht' => h t'' d (ht.trans ht')
  | utcNow k ih => exact fun t'' ht' => h t'' (ht.trans ht')
  | draw k ih => exact ih _ h ht
  | ask q k ih => exact fun r => ih _ (h r) ht
  | emit e k ih => exact ih h ht
  | begin k ih => exact fun t'' ht' => h t'' (ht.trans ht')
  | commit k ih => exact ⟨fun x hx θ t'' d γ ht' => h.1 x hx θ t'' d γ (ht.trans ht'), ih h.2 ht⟩
  | rollback k ih => exact ih h ht

/-! ### Programs that keep the ledger without holding more -/

/-- What keeps the ledger whatever is held. -/
structure Frame (I : Ledger S Θ G) (R : S.State → S.State → Prop) : Prop where
  refl : ∀ d, R d d
  trans : ∀ d d' d'', R d d' → R d' d'' → R d d''
  keeps : ∀ θ t d d' γ, R d d' → I.holds θ t d γ → I.holds θ t d' γ

lemma set_self {γ : List G} (h : γ[i]? = some g) : γ.set i g = γ := by
  obtain ⟨hi, rfl⟩ := List.getElem?_eq_some_iff.mp h
  exact List.set_getElem_self hi

/-- A program whose statements write within the frame. -/
theorem Frame.obeys {R : S.State → S.State → Prop} (hR : Frame I R)
    {Φ : ∀ {β : Type}, Statement S β → Prop}
    (hΦ : ∀ {β : Type} (st : Statement S β), Φ st → ∀ now n v d, R d ((st.run now n v).1 d))
    {P : α → Prop} (hp : p.Sends Φ P) (htx : ∀ x, tx = some x → ∀ d, R d (x.writes d)) :
    p.obeys I i tx n t g fun _ _ _ _ g' => g' = g := by
  induction p generalizing tx n t with
  | ret a => rfl
  | stmt st k ih =>
    cases tx with
    | none =>
      intro θ t' d γ _ hγ hd
      refine ⟨g, ?_, ih _ (hp.2 _) nofun⟩
      rw [set_self hγ]
      exact hR.keeps θ t' d _ γ (hΦ st hp.1 t' ⟨i, n⟩ d d) hd
    | some tx =>
      refine fun t' d _ => ih _ (hp.2 _) ?_
      rintro _ ⟨⟩ d₀
      exact hR.trans _ _ _ (htx tx rfl d₀) (hΦ st hp.1 _ _ _ _)
  | utcNow k ih => exact fun t' _ => ih _ (hp _) htx
  | draw k ih => exact ih _ (hp _) htx
  | ask q k ih => exact fun r => ih _ (hp _) htx
  | emit e k ih => exact ih hp htx
  | begin k ih =>
    refine fun t' _ => ih hp ?_
    rintro _ ⟨⟩ d
    exact hR.refl d
  | commit k ih =>
    exact ⟨fun x hx θ t' d γ _ _ hd => hR.keeps θ t' d _ γ (htx x hx d) hd, ih hp nofun⟩
  | rollback k ih => exact ih hp nofun

/-! ### Pools -/

/-- The ledger of a pool. -/
structure Kept (I : Ledger S Θ G) (s : Pool S ι α) (γ : List G) : Prop where
  length : γ.length = s.procs.length
  obeys : ∀ (j : ℕ) (p : Proc S ι α) program, s.procs[j]? = some p → p.program = some program →
    ∃ g, γ[j]? = some g ∧
      program.obeys I j p.place.tx p.place.draws s.clock g fun _ _ _ _ _ => True

lemma lasting_true : Lasting (S := S) (G := G) fun (_ : α) _ _ _ _ => True :=
  fun _ _ _ _ _ _ _ _ _ => trivial

/-- One operation of a program that obeys. -/
lemma obeys_next {θ : Θ} {d : S.State} {γ : List G} {L : Place S}
    (h : p.obeys I i L.tx L.draws t g fun _ _ _ _ _ => True) (hγ : γ[i]? = some g)
    (hd : I.holds θ t d γ) (reply : (q : S.Question) → S.Reply q) :
    ∃ g', I.holds θ t (p.next ⟨t, t, reply⟩ (L.conn i d)).2.db (γ.set i g') ∧
      (p.next ⟨t, t, reply⟩ (L.conn i d)).1.obeys I i
        (p.next ⟨t, t, reply⟩ (L.conn i d)).2.tx (p.next ⟨t, t, reply⟩ (L.conn i d)).2.draws t g'
        fun _ _ _ _ _ => True := by
  have hsame : I.holds θ t d (γ.set i g) := by
    rw [set_self hγ]
    exact hd
  obtain ⟨tx, draws, events, sights⟩ := L
  cases p with
  | ret a => exact ⟨g, hsame, trivial⟩
  | stmt st k =>
    cases tx with
    | none =>
      obtain ⟨g', hd', hk⟩ := h θ t d γ le_rfl hγ hd
      exact ⟨g', hd', hk⟩
    | some tx => exact ⟨g, hsame, h t d le_rfl⟩
  | utcNow k => exact ⟨g, hsame, h t le_rfl⟩
  | draw k => exact ⟨g, hsame, h⟩
  | ask q k => exact ⟨g, hsame, h _⟩
  | emit e k => exact ⟨g, hsame, h⟩
  | begin k => exact ⟨g, hsame, h t le_rfl⟩
  | commit k =>
    refine ⟨g, ?_, h.2⟩
    cases tx with
    | none => exact hsame
    | some tx =>
      rw [set_self hγ]
      exact h.1 tx rfl θ t d γ le_rfl hγ hd
  | rollback k => exact ⟨g, hsame, h⟩

variable {handle : ι → Program S α} {s s' : Pool S ι α} {θ : Θ} {γ : List G}

lemma Kept.advance (hk : I.Kept s γ) (hd : I.holds θ s.clock s.db γ) {p : Proc S ι α}
    {program : Program S α} (hi : s.procs[i]? = some p) (hp : p.program = some program)
    (reply : (q : S.Question) → S.Reply q) :
    ∃ γ', I.Kept (s.operate i reply p program) γ' ∧
      I.holds θ (s.operate i reply p program).clock (s.operate i reply p program).db γ' := by
  obtain ⟨g, hγ, hobeys⟩ := hk.obeys i p program hi hp
  obtain ⟨g', hd', hobeys'⟩ := obeys_next hobeys hγ hd reply
  refine ⟨γ.set i g', ⟨?_, fun j q program' hj hq => ?_⟩, hd'⟩
  · simp [Pool.operate, Pool.set, hk.length]
  · have hlt := (List.getElem?_eq_some_iff.mp hγ).1
    by_cases hji : j = i
    · subst hji
      have hset : (s.operate j reply p program).procs[j]? = some
          { p with
            program := some (program.next ⟨s.clock, s.clock, reply⟩ (p.place.conn j s.db)).1
            place := { p.place.after (program.next ⟨s.clock, s.clock, reply⟩
              (p.place.conn j s.db)).2 with
                sights := p.place.sights ++ program.sees (p.place.conn j s.db) s.clock } } := by
        simp only [Pool.operate, Pool.set, List.getElem?_set_self', hi]
        rfl
      obtain rfl := Option.some.inj (hset.symm.trans hj)
      obtain rfl := Option.some.inj hq
      exact ⟨g', by simp [hlt], hobeys'⟩
    · have hset : s.procs[j]? = some q := by
        simpa [Pool.operate, Pool.set, List.getElem?_set_ne (Ne.symm hji)] using hj
      obtain ⟨gj, hγj, hobeysj⟩ := hk.obeys j q program' hset hq
      exact ⟨gj, by rw [List.getElem?_set_ne (Ne.symm hji)]; exact hγj, hobeysj⟩

lemma Kept.spawn (hk : I.Kept s γ) (hd : I.holds θ s.clock s.db γ) {request : ι}
    {program : Program S α}
    (h : program.obeys I s.procs.length none 0 s.clock I.idle fun _ _ _ _ _ => True) :
    ∃ γ', I.Kept { s with procs := s.procs ++ [⟨request, some program, {}⟩] } γ' ∧
      I.holds θ s.clock s.db γ' := by
  refine ⟨γ ++ [I.idle], ⟨by simp [hk.length], fun j q program' hj hq => ?_⟩, I.spawn _ _ _ _ hd⟩
  rcases lt_trichotomy j s.procs.length with hlt | rfl | hlt
  · have hj' : s.procs[j]? = some q := by
      rwa [List.getElem?_append_left hlt] at hj
    obtain ⟨g, hγ, hobeys⟩ := hk.obeys j q program' hj' hq
    exact ⟨g, by rwa [List.getElem?_append_left (hk.length ▸ hlt)], hobeys⟩
  · simp only [List.getElem?_concat_length, Option.some.injEq] at hj
    subst hj
    obtain rfl := Option.some.inj hq
    exact ⟨I.idle, by rw [← hk.length, List.getElem?_concat_length], h⟩
  · rw [List.getElem?_eq_none (by simpa using Nat.succ_le_of_lt hlt)] at hj
    cases hj

lemma Kept.drop (hk : I.Kept s γ) (p : Proc S ι α) :
    I.Kept (s.set i { p with program := none, place := { p.place with tx := none } }) γ := by
  refine ⟨by simp [Pool.set, hk.length], fun j q program hj hq => ?_⟩
  by_cases hji : j = i
  · subst hji
    cases hj' : s.procs[j]? with
    | none => simp [Pool.set, List.getElem?_set_self', hj'] at hj
    | some q' =>
      obtain rfl : _ = q := by simpa [Pool.set, List.getElem?_set_self', hj'] using hj
      cases hq
  · exact hk.obeys j q program (by simpa [Pool.set, List.getElem?_set_ne (Ne.symm hji)] using hj) hq

/-- A pool whose programs obey keeps the ledger. -/
theorem kept_of_run {steps : List (Step (Pool S ι α) (Pool.Action S ι))}
    (hrun : (Pool.system handle).Run s steps s') (hk : I.Kept s γ) (hd : I.holds θ s.clock s.db γ)
    (hhandle : ∀ i r t, (handle r).obeys I i none 0 t I.idle fun _ _ _ _ _ => True) :
    ∃ γ', I.Kept s' γ' ∧ I.holds θ s'.clock s'.db γ' := by
  refine hrun.keeps (P := fun s => ∃ γ, I.Kept s γ ∧ I.holds θ s.clock s.db γ) ⟨γ, hk, hd⟩ ?_
  rintro ⟨before, action, after⟩ - htakes ⟨γ, hk, hd⟩
  have hstep : Pool.step handle before action = some after := htakes
  cases Pool.steps_of_step hstep with
  | tick hle =>
    refine ⟨γ, ⟨hk.length, fun j p program hj hp => ?_⟩, I.tick _ _ _ _ _ hle hd⟩
    obtain ⟨g, hγ, hobeys⟩ := hk.obeys j p program hj hp
    exact ⟨g, hγ, obeys_later hobeys lasting_true hle⟩
  | spawn request => exact hk.spawn hd (hhandle _ request _)
  | advance reply hi hp => exact hk.advance hd hi hp reply
  | @drop i p hi => exact ⟨γ, hk.drop p, hd⟩

lemma kept_start {clock : Time} {d : S.State} : I.Kept (Pool.start clock d : Pool S ι α) [] := by
  refine ⟨rfl, ?_⟩
  simp [Pool.start]

end Ledger

end Transaction
