/- GID: Craftec/Library/Tally
   generality: G
   digest: Sums of weights over a list of tasks of which one moves at a time. -/

import Mathlib.Algebra.BigOperators.Group.List.Basic
import Mathlib.Algebra.Order.BigOperators.Group.List
import Mathlib.Algebra.Order.Ring.Nat

set_option autoImplicit false
set_option relaxedAutoImplicit false

namespace Craftec.Library.Tally

variable {τ : Type*} {w : τ → ℕ} {l : List τ} {i : ℕ} {a b : τ}

/-- The total weight of the entries of a list. -/
def tally (w : τ → ℕ) (l : List τ) : ℕ := (l.map w).sum

@[simp] theorem tally_cons (a : τ) (l : List τ) : tally w (a :: l) = w a + tally w l := by
  rw [tally, List.map_cons, List.sum_cons]
  rfl

@[simp] theorem tally_concat (l : List τ) (a : τ) : tally w (l ++ [a]) = tally w l + w a := by
  rw [tally, List.map_append, List.sum_append, List.map_singleton, List.sum_singleton]
  rfl

theorem tally_set (there : l[i]? = some a) (b : τ) :
    tally w (l.set i b) + w a = tally w l + w b := by
  induction l generalizing i with
  | nil => cases there
  | cons x l ih =>
    cases i with
    | zero =>
      obtain rfl : x = a := Option.some.inj there
      rw [List.set_cons_zero, tally_cons, tally_cons]
      omega
    | succ i =>
      have rest := ih (i := i) there
      rw [List.set_cons_succ, tally_cons, tally_cons]
      omega

theorem tally_eq_zero_iff : tally w l = 0 ↔ ∀ a ∈ l, w a = 0 := by
  rw [tally, List.sum_eq_zero_iff]
  simp

theorem exists_weight (some_ : 0 < tally w l) : ∃ a ∈ l, 0 < w a := by
  by_contra none_
  push Not at none_
  have zero : tally w l = 0 := tally_eq_zero_iff.mpr fun a listed => Nat.le_zero.mp (none_ a listed)
  omega

end Craftec.Library.Tally
