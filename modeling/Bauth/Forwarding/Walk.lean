import Bauth.Model.ClientIp

/-!
# The walk over the forwarded hops

`resolve` follows a chain, the peer and then the hops up to the first that is not an address, and
stops at the first member it does not trust or at the last one. Where a chain is left by a
predicate is determined by any way to split the chain there.
-/

namespace Bauth

/-! ### Leaving a chain -/

section Chain

variable {α : Type} (p : α → Prop) [DecidablePred p]

/-- The first member of the chain that fails `p`, or else the last. -/
def leave (x : α) : List α → α
  | [] => x
  | y :: rest => if p x then leave y rest else x

/-- The chain is left at `a`: everything before passes, and `a` fails or nothing follows. -/
structure Leaves (chain before : List α) (a : α) (after : List α) : Prop where
  split : chain = before ++ a :: after
  passed : ∀ x ∈ before, p x
  stops : p a → after = []

variable {p}

lemma leaves_leave (x : α) (rest : List α) :
    ∃ before after, Leaves p (x :: rest) before (leave p x rest) after := by
  induction rest generalizing x with
  | nil => exact ⟨[], [], rfl, by simp, fun _ => rfl⟩
  | cons y rest ih =>
    by_cases hx : p x
    · obtain ⟨before, after, hsplit, hpassed, hstops⟩ := ih y
      refine ⟨x :: before, after, ?_, ?_, ?_⟩
      · simp [leave, hx, hsplit]
      · simpa [hx] using hpassed
      · simpa [leave, hx] using hstops
    · exact ⟨[], y :: rest, by simp [leave, hx], by simp, fun h => by simp [leave, hx] at h⟩

omit [DecidablePred p] in
/-- A chain is left at one place only. -/
lemma Leaves.unique {chain before after before' after' : List α} {a a' : α}
    (h : Leaves p chain before a after) (h' : Leaves p chain before' a' after') :
    before = before' ∧ a = a' ∧ after = after' := by
  induction before generalizing chain before' with
  | nil =>
    cases before' with
    | nil => simpa using h.split.symm.trans h'.split
    | cons x before' =>
      have hsplit := h.split.symm.trans h'.split
      simp only [List.nil_append, List.cons_append, List.cons.injEq] at hsplit
      obtain ⟨rfl, rest⟩ := hsplit
      have := h.stops (h'.passed a (by simp))
      simp [this] at rest
  | cons x before ih =>
    cases before' with
    | nil =>
      have hsplit := h.split.symm.trans h'.split
      simp only [List.nil_append, List.cons_append, List.cons.injEq] at hsplit
      obtain ⟨rfl, rest⟩ := hsplit
      have := h'.stops (h.passed x (by simp))
      simp [this] at rest
    | cons y before' =>
      have hsplit := h.split.symm.trans h'.split
      simp only [List.cons_append, List.cons.injEq] at hsplit
      obtain ⟨rfl, hrest⟩ := hsplit
      have ht : Leaves p (before ++ a :: after) before a after :=
        ⟨rfl, fun z hz => h.passed z (List.mem_cons_of_mem _ hz), h.stops⟩
      have ht' : Leaves p (before ++ a :: after) before' a' after' :=
        ⟨hrest, fun z hz => h'.passed z (List.mem_cons_of_mem _ hz), h'.stops⟩
      obtain ⟨rfl, rfl, rfl⟩ := ih ht ht'
      exact ⟨rfl, rfl, rfl⟩

lemma Leaves.leave_eq {x a : α} {rest before after : List α}
    (h : Leaves p (x :: rest) before a after) : leave p x rest = a := by
  obtain ⟨before', after', h'⟩ := leaves_leave (p := p) x rest
  exact (h'.unique h).2.1

end Chain

/-! ### `resolve` as a chain -/

/-- The addresses before the first hop that is not one. -/
def reached : List (Option IpAddr) → List IpAddr
  | some ip :: rest => ip :: reached rest
  | _ => []

lemma reached_map (f : IpAddr → IpAddr) (l : List (Option IpAddr)) :
    reached (l.map (Option.map f)) = (reached l).map f := by
  induction l with
  | nil => rfl
  | cons hop l ih =>
    cases hop with
    | none => rfl
    | some ip => simp [reached, ih]

lemma walk_eq_leave (trusted : List IpAddr) (client : IpAddr) (l : List (Option IpAddr))
    (h : client ∈ trusted) : walk trusted client l = leave (· ∈ trusted) client (reached l) := by
  induction l generalizing client with
  | nil => rfl
  | cons hop l ih =>
    cases hop with
    | none => rfl
    | some ip =>
      by_cases hip : ip ∈ trusted
      · simp [walk, hip, ih ip hip, reached, leave, h]
      · cases hrest : reached l <;> simp [walk, hip, reached, leave, h, hrest]

/-- `resolve` leaves the chain of the peer and the reached hops at the first untrusted address. -/
theorem resolve_eq_leave (peer : IpAddr) (forwardedFor : List Char) (trusted : List IpAddr) :
    resolve peer forwardedFor trusted =
      leave (· ∈ trusted) peer (reached (hops forwardedFor)) := by
  by_cases h : peer ∈ trusted
  · simp [resolve, h, walk_eq_leave trusted peer _ h]
  · cases hrest : reached (hops forwardedFor) <;> simp [resolve, h, leave]

end Bauth
