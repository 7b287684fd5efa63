/- GID: Craftec/Library/Chunks
   generality: G
   digest: Fixed-size chunks of a list, the last one possibly short, and zero-padded pages. -/

import Mathlib.Data.List.Basic
import Mathlib.Tactic.Ring

set_option autoImplicit false
set_option relaxedAutoImplicit false

namespace Craftec.Library.Chunks

variable {α : Type*}

/-- Number of chunks of size `n`, rounding up. -/
def count (n len : ℕ) : ℕ := (len + n - 1) / n

/-- The `i`-th chunk of size `n`; the last one is short when `n` does not divide the length. -/
def chunk (n : ℕ) (l : List α) (i : ℕ) : List α := (l.drop (i * n)).take n

/-- All chunks in order, as `slice::chunks` yields them. -/
def chunks (n : ℕ) (l : List α) : List (List α) := (List.range (count n l.length)).map (chunk n l)

theorem length_le_count_mul {n len : ℕ} (hn : 0 < n) : len ≤ count n len * n := by
  unfold count
  have h := Nat.div_add_mod (len + n - 1) n
  have hm := Nat.mod_lt (len + n - 1) hn
  rw [Nat.mul_comm] at h
  omega

theorem flatten_chunks (n : ℕ) (l : List α) (m : ℕ) :
    ((List.range m).map (chunk n l)).flatten = l.take (m * n) := by
  induction m with
  | zero => simp
  | succ m ih =>
    rw [List.range_succ, List.map_append, List.flatten_append, ih, Nat.succ_mul, List.take_add]
    simp [chunk]

end Craftec.Library.Chunks
