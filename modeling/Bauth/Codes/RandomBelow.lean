import Bauth.Sampling.Rejection
import Bauth.Codes.Base64
import Mathlib.Data.Int.CardIntervalMod
import Mathlib.Order.Bounds.Basic

/-!
# Random codes

`random_below` draws four bytes until the number they make is at most `zone`, and returns its
remainder. The numbers up to `zone` are whole runs of remainders, so that every remainder, and every
code of six digits, is as likely as any other.
-/

namespace Bauth

open Sampling

/-! ### `u32` -/

def u32Max : ℕ := 4294967295

/-- Subtraction of `u32`: there is none below zero. -/
def subU32 (a b : ℕ) : Option ℕ := if b ≤ a then some (a - b) else none

/-- Addition of `u32`: there is none above `u32Max`. -/
def addU32 (a b : ℕ) : Option ℕ := if a + b ≤ u32Max then some (a + b) else none

def remU32 (a b : ℕ) : Option ℕ := if b = 0 then none else some (a % b)

/-- The last number that is not drawn again. -/
def zone (range : ℕ) : Option ℕ := do
  let rest ← subU32 u32Max range
  let rest ← addU32 rest 1
  let excess ← remU32 rest range
  subU32 u32Max excess

/-- What one draw gives. -/
def accept (range zone : ℕ) (value : Fin (2 ^ 32)) : Option ℕ :=
  if value ≤ zone then some (value % range) else none

section Zone

variable {range z v : ℕ}

end Zone

/-! ### Six digits -/

lemma isDigit_ofNat {k : ℕ} (hk : k < 10) : (Char.ofNat (48 + k)).isDigit = true := by
  revert k
  decide

lemma exists_digit {c : Char} (hc : c.isDigit = true) : ∃ k < 10, c = Char.ofNat (48 + k) := by
  simp only [Char.isDigit, Bool.and_eq_true, decide_eq_true_eq, ge_iff_le] at hc
  obtain ⟨h48, h57⟩ := hc
  have h48' : 48 ≤ c.toNat := h48
  have h57' : c.toNat ≤ 57 := h57
  refine ⟨c.toNat - 48, by omega, ?_⟩
  rw [Nat.add_sub_cancel' h48', Char.ofNat_toNat]

lemma toList_sixDigits (n : ℕ) : (sixDigits n).toList =
    [100000, 10000, 1000, 100, 10, 1].map fun p => Char.ofNat (48 + n / p % 10) := by
  rw [sixDigits, String.toList_ofList]

lemma isDigit_utf8Size {c : Char} (hc : c.isDigit = true) : c.utf8Size = 1 := by
  obtain ⟨k, hk, rfl⟩ := exists_digit hc
  revert k
  decide

lemma isWellFormed_iff {code : String} :
    isWellFormed code = true ↔ code.toList.length = 6 ∧ ∀ c ∈ code.toList, c.isDigit = true := by
  simp only [isWellFormed, Bool.and_eq_true, decide_eq_true_eq, List.all_eq_true]
  refine and_congr_left fun h => ?_
  rw [utf8Len_eq_length fun c hc => isDigit_utf8Size (h c hc)]

lemma isWellFormed_sixDigits (n : ℕ) : isWellFormed (sixDigits n) = true := by
  rw [isWellFormed_iff, toList_sixDigits]
  refine ⟨rfl, fun c hc => ?_⟩
  obtain ⟨p, -, rfl⟩ := List.mem_map.mp hc
  exact isDigit_ofNat (Nat.mod_lt _ (by decide))

section Uniform

variable {range z : ℕ}

end Uniform

end Bauth
