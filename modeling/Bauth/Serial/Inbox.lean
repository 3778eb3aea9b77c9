import Bauth.Rows.Mails
import Bauth.Serial.Budget
import Mathlib.Algebra.Order.BigOperators.Group.List
import Mathlib.Algebra.Order.Group.Nat

/-!
# The emails one address receives

The limiter of addresses caps how often one key passes. The emails handed over for an address are
capped with it as long as every request charges the key of the address its email goes to.
-/

namespace Bauth

open Transaction

/-- The key that the limiter of addresses let pass. -/
def passedKey : Entry sig → Option String
  | .asked (.limit .emailPerAddress key) (none : Option Time) => some key
  | _ => none

/-- Is a counted email handed over for this address? -/
def isMailTo (r : String) : Event → Bool
  | .sent m => m.counted && m.recipient = r
  | .codeVerified .. => false

/-- What a request asked and signalled. -/
def Served.log (app : App) (p : Served) : Log :=
  (handle app p.request).log ⟨p.time, p.time, p.reply⟩ ⟨p.before.db, none, p.before.served, 0, []⟩

/-- The requests served in a window. -/
def between (since till : Time) (steps : List Served) : List Served :=
  steps.filter fun p => since ≤ p.time && p.time ≤ till

/-- How often the limiter of addresses let a key pass in a window. -/
def passesBetween (app : App) (key : String) (since till : Time) (steps : List Served) : ℕ :=
  ((between since till steps).flatMap fun p => (p.log app).filterMap passedKey).count key

/-- How many counted emails were handed over for an address in a window. -/
def mailsBetween (r : String) (since till : Time) (steps : List Served) : ℕ :=
  ((between since till steps).flatMap Served.events).countP (isMailTo r)

/-- Five, and one more every three minutes. -/
def quota (since till : Time) : ℤ := 5 + (till - since) / minutes 3

/-- The limiter of addresses keeps its quota. -/
def Limited (app : App) (steps : List Served) : Prop :=
  ∀ key since till, since ≤ till → passesBetween app key since till steps ≤ quota since till

/-! ### One request -/

section Log

variable {app : App} {l : Log}

/-- In a log whose events are as `Charged` says, an address gets one email at most, after its key
passed. -/
lemma mails_le (h : ∀ l₁ e l₂, l = l₁ ++ .emitted e :: l₂ → Charged app l₁ e) (r : String) :
    (l.filterMap Entry.event).countP (isMailTo r) ≤
      (l.filterMap passedKey).count (app.unicode.emailKey r) := by
  have hmem : ∀ {l : Log} {e}, e ∈ l.filterMap Entry.event → .emitted e ∈ l := by
    intro l e he
    obtain ⟨entry, hentry, he⟩ := List.mem_filterMap.mp he
    cases entry with
    | asked q reply => cases he
    | emitted e' =>
      cases he
      exact hentry
  by_cases hnone : ∀ e ∈ l.filterMap Entry.event, ¬isMailTo r e = true
  · rw [List.countP_eq_zero.mpr hnone]
    exact Nat.zero_le _
  push Not at hnone
  obtain ⟨e, he, hto⟩ := hnone
  obtain ⟨l₁, l₂, rfl⟩ := List.append_of_mem (hmem he)
  cases e with
  | codeVerified purpose row => cases hto
  | sent m =>
    simp only [isMailTo, Bool.and_eq_true, decide_eq_true_eq] at hto
    obtain ⟨hcounted, rfl⟩ := hto
    obtain ⟨hpassed, hcalm⟩ := h l₁ _ l₂ rfl m rfl hcounted
    have hbefore : (l₁.filterMap Entry.event).countP (isMailTo m.recipient) = 0 := by
      refine List.countP_eq_zero.mpr fun e he hto => ?_
      have huncounted := hcalm e (hmem he)
      cases e with
      | codeVerified purpose row => cases hto
      | sent m' => simp_all [isMailTo, Event.uncounted]
    have hafter : (l₂.filterMap Entry.event).countP (isMailTo m.recipient) = 0 := by
      refine List.countP_eq_zero.mpr fun e he hto => ?_
      obtain ⟨m₁, m₂, rfl⟩ := List.append_of_mem (hmem he)
      cases e with
      | codeVerified purpose row => cases hto
      | sent m' =>
        simp only [isMailTo, Bool.and_eq_true, decide_eq_true_eq] at hto
        have hfirst := (h (l₁ ++ .emitted (.sent m) :: m₁) _ m₂ (by simp) m' rfl hto.1).2
        have huncounted := hfirst (.sent m) (by simp)
        simp [Event.uncounted, hcounted] at huncounted
    have hpass : 0 < ((l₁ ++ .emitted (.sent m) :: l₂).filterMap passedKey).count
        (app.unicode.emailKey m.recipient) := by
      refine List.count_pos_iff.mpr (List.mem_filterMap.mpr ?_)
      exact ⟨_, List.mem_append_left _ hpassed, rfl⟩
    have hone : ((l₁ ++ .emitted (.sent m) :: l₂).filterMap Entry.event).countP
        (isMailTo m.recipient) ≤ 1 := by
      have hevent : Entry.event (S := sig) (.emitted (.sent m)) = some (.sent m) := rfl
      rw [List.filterMap_append, List.filterMap_cons_some hevent, List.countP_append,
        List.countP_cons, hbefore, hafter]
      split <;> omega
    exact hone.trans hpass

end Log

section Step

variable {app : App} {p : Served}

lemma Served.Of.events_log (hp : p.Of app) : p.events = (p.log app).filterMap Entry.event := by
  rw [hp.serve]
  exact Program.events_exec (S := sig) ..

/-- The events of a request that charges the key of its recipient are as `Charged` says. -/
lemma log_charged (hkey : p.request.SameKey app) {l₁ l₂ : Log} {e : Event}
    (hlog : p.log app = l₁ ++ .emitted e :: l₂) : Charged app l₁ e := by
  have hemits := handle_charges app p.request hkey []
    (fun _ he => absurd he List.not_mem_nil) fun _ hkey => absurd hkey List.not_mem_nil
  exact hemits.log hlog

lemma passed_of_mail (hp : p.Of app) (hkey : p.request.SameKey app) {m : Email}
    (hm : .sent m ∈ p.events) (hcounted : m.counted = true) :
    passed (app.unicode.emailKey m.recipient) ∈ p.log app := by
  rw [hp.events_log] at hm
  obtain ⟨entry, hentry, hevent⟩ := List.mem_filterMap.mp hm
  cases entry with
  | asked q r => cases hevent
  | emitted e =>
    cases hevent
    obtain ⟨l₁, l₂, hlog⟩ := List.append_of_mem hentry
    rw [hlog]
    exact List.mem_append_left _ (log_charged hkey hlog m rfl hcounted).1

end Step

/-! ### Runs -/

/-- When every request charges the key of the address its email goes to, that key is charged for
each email handed over for an address, and these are no more than the limiter lets pass. -/
theorem mails_capped {app : App} {s₀ s : Server} {steps : List Served}
    (hrun : Run app s₀ steps s) (hlimited : Limited app steps)
    (hkeys : ∀ p ∈ steps, p.request.SameKey app) (r : String) :
    (∀ p ∈ steps, ∀ m, .sent m ∈ p.events → m.counted = true → m.recipient = r →
      passed (app.unicode.emailKey r) ∈ p.log app) ∧
    ∀ since till, since ≤ till → mailsBetween r since till steps ≤ quota since till := by
  constructor
  · rintro p hp m hm hcounted rfl
    obtain ⟨_, _, _, _, hof, _⟩ := hrun.before hp
    exact passed_of_mail hof (hkeys p hp) hm hcounted
  · intro since till hle
    refine le_trans ?_ (hlimited (app.unicode.emailKey r) since till hle)
    have hsum : mailsBetween r since till steps ≤
        passesBetween app (app.unicode.emailKey r) since till steps := by
      rw [mailsBetween, passesBetween, List.countP_flatMap, List.count_flatMap]
      refine List.sum_le_sum fun p hp => ?_
      have hmem := (List.mem_filter.mp hp).1
      obtain ⟨_, _, _, _, hof, _⟩ := hrun.before hmem
      simp only [Function.comp_apply, hof.events_log]
      exact mails_le (fun l₁ e l₂ hlog => log_charged (hkeys p hmem) hlog) r
    exact_mod_cast hsum

/-! ### Two spellings of one address -/

lemma quota_pos {since till : Time} (h : since ≤ till) : 5 ≤ quota since till := by
  have hdiv : 0 ≤ (till - since) / minutes 3 :=
    Int.ediv_nonneg (Int.sub_nonneg.mpr h) (by decide)
  exact Int.le_add_of_nonneg_right hdiv

/-- A limiter that let each key pass five times at most keeps its quota. -/
lemma limited_of_few {app : App} {steps : List Served} {keys : List String}
    (hkeys : (steps.flatMap fun p => (p.log app).filterMap passedKey) = keys)
    (hfew : ∀ key ∈ keys, keys.count key ≤ 5) : Limited app steps := by
  intro key since till hle
  have hcount : keys.count key ≤ 5 := by
    by_cases hkey : key ∈ keys
    · exact hfew key hkey
    · rw [List.count_eq_zero.mpr hkey]
      exact Nat.zero_le _
  have hwindow : passesBetween app key since till steps ≤ keys.count key := by
    rw [← hkeys]
    exact (List.filter_sublist.flatMap _).count_le key
  have hquota := quota_pos hle
  omega

/-- Three emails are asked for on each of two flows, the last one for another spelling. -/
def exampleSpellings (last : String) : List (Time × Request) :=
  [startFlow 0, startFlow 1, (2, .requestMagicLink "1" 0 "i@x.fr"),
    (3, .requestMagicLink "2" 0 "i@x.fr"), (4, .requestMagicLink "3" 0 "i@x.fr"),
    (5, .requestMagicLink "4" 2 "i@x.fr"), (6, .requestMagicLink "5" 2 " I@x.fr"),
    (7, .requestMagicLink "6" 2 last)]

/-- The run of `exampleSpellings`: its emails for `i@x.fr`, and the keys that passed. -/
lemma exampleSpellings_run :
    let steps := (script exampleApp exampleReply .empty (exampleSpellings "İ@x.fr")).1
    mailsBetween "i@x.fr" 0 7 steps = 6 ∧
      (steps.flatMap fun p => (p.log exampleApp).filterMap passedKey) =
        List.replicate 5 "i@x.fr" ++ ["i\u0307@x.fr"] := by
  decide +kernel

/-- The same for one email to `j@x.fr` in place of the last one. -/
lemma exampleSpellings_keys :
    let steps := (script exampleApp exampleReply .empty (exampleSpellings "j@x.fr")).1
    (steps.flatMap fun p => (p.log exampleApp).filterMap passedKey) =
        List.replicate 5 "i@x.fr" ++ ["j@x.fr"] ∧
      steps.map Served.request = (exampleSpellings "j@x.fr").map Prod.snd := by
  decide +kernel

/-- Spellings of one key share the quota of its inbox. -/
theorem mails_capped_spelled :
    let steps := (script exampleApp exampleReply .empty (exampleSpellings "j@x.fr")).1
    mailsBetween "i@x.fr" 0 7 steps ≤ quota 0 7 := by
  intro steps
  obtain ⟨hkeys, hrequests⟩ := exampleSpellings_keys
  have hrun := example_script (exampleSpellings "j@x.fr") (by decide)
  have hsame : ∀ p ∈ steps, p.request.SameKey exampleApp := by
    intro p hp
    have hrequest : p.request ∈ (exampleSpellings "j@x.fr").map Prod.snd := by
      rw [← hrequests]
      exact List.mem_map_of_mem hp
    simp only [exampleSpellings, startFlow, List.map_cons, List.map_nil, List.mem_cons,
      List.not_mem_nil, or_false] at hrequest
    rcases hrequest with h | h | h | h | h | h | h | h <;> rw [h]
    · trivial
    · trivial
    all_goals
      simp only [Request.SameKey]
      decide
  exact (mails_capped hrun (limited_of_few hkeys (by decide)) hsame "i@x.fr").2 0 7 (by decide)

/-- An inbox gets a mail more than its quota, asked for with a spelling of another key. -/
theorem inbox_overflows : ¬∀ (steps : List Served) (s : Server) (r : String) (since till : Time),
    Run exampleApp Server.empty steps s → Limited exampleApp steps → since ≤ till →
      mailsBetween r since till steps ≤ quota since till := by
  intro h
  obtain ⟨hmails, hkeys⟩ := exampleSpellings_run
  have hrun := example_script (exampleSpellings "İ@x.fr") (by decide)
  have hle := h _ _ "i@x.fr" 0 7 hrun (limited_of_few hkeys (by decide)) (by decide)
  rw [hmails] at hle
  revert hle
  decide

end Bauth
