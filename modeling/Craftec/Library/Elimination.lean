/- GID: Craftec/Library/Elimination
   generality: G
   digest: Rows of an augmented matrix kept one per pivot column, reduced on arrival and solved backwards. -/

import Mathlib.LinearAlgebra.Span.Basic
import Mathlib.Algebra.Module.Pi
import Mathlib.Tactic.Ring
import Mathlib.Data.Finset.Card

set_option autoImplicit false
set_option relaxedAutoImplicit false

namespace Craftec.Library.Elimination

variable {K : Type*} [Field K] {k : ℕ}

/-- Slot `c` holds at most one row, whose first nonzero entry is a 1 in column `c`.
Only the first `k` columns may carry a pivot; the columns after them are data. -/
structure Echelon (K : Type*) [Field K] (k : ℕ) where
  slot : ℕ → Option (ℕ → K)
  bound : ∀ {c r}, slot c = some r → c < k
  lead : ∀ {c r}, slot c = some r → r c = 1
  left : ∀ {c r}, slot c = some r → ∀ j < c, r j = 0

/-- Every stored row lies in `W`. -/
def Within (slot : ℕ → Option (ℕ → K)) (W : Submodule K (ℕ → K)) : Prop :=
  ∀ c r, slot c = some r → r ∈ W

/-- Use the row of slot `c`, if any, to clear column `c` of `v`. -/
def clear (s : Option (ℕ → K)) (c : ℕ) (v : ℕ → K) : ℕ → K :=
  match s with
  | none => v
  | some r => v - v c • r

theorem clear_mem {W : Submodule K (ℕ → K)} {s : Option (ℕ → K)} {c : ℕ} {v : ℕ → K}
    (hs : ∀ r, s = some r → r ∈ W) (hv : v ∈ W) : clear s c v ∈ W := by
  cases s with
  | none => exact hv
  | some r => exact W.sub_mem hv (W.smul_mem _ (hs r rfl))

namespace Echelon

def empty : Echelon K k where
  slot _ := none
  bound h := by cases h
  lead h := by cases h
  left h := by cases h

/-- Clear the columns below `n` from left to right. -/
def reduceTo (E : Echelon K k) : ℕ → (ℕ → K) → (ℕ → K)
  | 0, v => v
  | n + 1, v => clear (E.slot n) n (E.reduceTo n v)

theorem reduceTo_apply (E : Echelon K k) (n : ℕ) (v : ℕ → K) {c : ℕ} {r : ℕ → K}
    (hc : c < n) (hr : E.slot c = some r) : E.reduceTo n v c = 0 := by
  induction n with
  | zero => omega
  | succ n ih =>
    simp only [reduceTo, clear]
    by_cases h : c = n
    · subst h
      simp [hr, E.lead hr]
    · have below : c < n := by omega
      cases hn : E.slot n with
      | none => exact ih below
      | some r' => simp [ih below, E.left hn c below]

theorem reduceTo_mem {E : Echelon K k} {W : Submodule K (ℕ → K)} (hE : Within E.slot W)
    (n : ℕ) {v : ℕ → K} (hv : v ∈ W) : E.reduceTo n v ∈ W := by
  induction n with
  | zero => exact hv
  | succ n ih => exact clear_mem (hE n) ih

/-- Store `v`, whose first nonzero entry is at `c`, scaled to a leading 1. -/
def store (E : Echelon K k) (c : ℕ) (v : ℕ → K) (hc : c < k) (hv : v c ≠ 0)
    (hl : ∀ j < c, v j = 0) : Echelon K k where
  slot := Function.update E.slot c (some ((v c)⁻¹ • v))
  bound {c' r} h := by
    by_cases hcc : c' = c
    · omega
    · rw [Function.update_of_ne hcc] at h
      exact E.bound h
  lead {c' r} h := by
    by_cases hcc : c' = c
    · subst hcc
      rw [Function.update_self, Option.some.injEq] at h
      subst h
      simp [inv_mul_cancel₀ hv]
    · rw [Function.update_of_ne hcc] at h
      exact E.lead h
  left {c' r} h j hj := by
    by_cases hcc : c' = c
    · subst hcc
      rw [Function.update_self, Option.some.injEq] at h
      subst h
      simp [hl j hj]
    · rw [Function.update_of_ne hcc] at h
      exact E.left h j hj

theorem store_within {E : Echelon K k} {W : Submodule K (ℕ → K)} (hE : Within E.slot W)
    {c : ℕ} {v : ℕ → K} (hc : c < k) (hv : v c ≠ 0) (hl : ∀ j < c, v j = 0) (hW : v ∈ W) :
    Within (E.store c v hc hv hl).slot W := by
  intro c' r h
  by_cases hcc : c' = c
  · subst hcc
    simp only [store, Function.update_self, Option.some.injEq] at h
    subst h
    exact W.smul_mem _ hW
  · simp only [store, Function.update_of_ne hcc] at h
    exact hE c' r h

def rank (E : Echelon K k) : ℕ := ((Finset.range k).filter fun c => (E.slot c).isSome).card

theorem rank_le (E : Echelon K k) : E.rank ≤ k := by
  have h := Finset.card_filter_le (Finset.range k) fun c => (E.slot c).isSome = true
  rwa [Finset.card_range] at h

theorem rank_empty : (empty : Echelon K k).rank = 0 := by
  simp [rank, empty]

theorem rank_store (E : Echelon K k) {c : ℕ} {v : ℕ → K} (hc : c < k) (hv : v c ≠ 0)
    (hl : ∀ j < c, v j = 0) (free : E.slot c = none) :
    (E.store c v hc hv hl).rank = E.rank + 1 := by
  have split : ((Finset.range k).filter fun c' =>
      ((E.store c v hc hv hl).slot c').isSome) =
      insert c ((Finset.range k).filter fun c' => (E.slot c').isSome) := by
    ext c'
    simp only [Finset.mem_filter, Finset.mem_insert, Finset.mem_range]
    by_cases hcc : c' = c
    · subst hcc
      simp [store, hc]
    · simp [store, hcc]
  rw [rank, split, Finset.card_insert_of_notMem, rank]
  simp [free]

theorem slot_of_rank {E : Echelon K k} (h : E.rank = k) {c : ℕ} (hc : c < k) :
    ∃ r, E.slot c = some r := by
  have all : (Finset.range k).filter (fun c => (E.slot c).isSome) = Finset.range k := by
    apply Finset.eq_of_subset_of_card_le (Finset.filter_subset _ _)
    rw [Finset.card_range]
    exact h.ge
  have mem : c ∈ (Finset.range k).filter (fun c => (E.slot c).isSome) := by
    rw [all]
    exact Finset.mem_range.mpr hc
  exact Option.isSome_iff_exists.mp (Finset.mem_filter.mp mem).2

theorem free_of_reduced (E : Echelon K k) {v : ℕ → K} {c : ℕ} (hc : c < k)
    (hv : E.reduceTo k v c ≠ 0) : E.slot c = none := by
  cases h : E.slot c with
  | none => rfl
  | some r => exact (hv (E.reduceTo_apply k v hc h)).elim

section Offer

variable [DecidableEq K]

theorem zero_of_lt_find {v : ℕ → K} (h : ∃ c, c < k ∧ v c ≠ 0) : ∀ j < Nat.find h, v j = 0 := by
  intro j hj
  by_contra hne
  exact Nat.find_min h hj ⟨lt_trans hj (Nat.find_spec h).1, hne⟩

/-- Keep a reduced row, unless nothing is left of it in the first `k` columns; the flag
says whether it was kept. -/
def keep (E : Echelon K k) (v : ℕ → K) : Echelon K k × Bool :=
  if h : ∃ c, c < k ∧ v c ≠ 0 then
    (E.store (Nat.find h) v (Nat.find_spec h).1 (Nat.find_spec h).2 (zero_of_lt_find h), true)
  else (E, false)

def offer (E : Echelon K k) (v : ℕ → K) : Echelon K k × Bool := E.keep (E.reduceTo k v)

theorem offer_within {E : Echelon K k} {W : Submodule K (ℕ → K)} (hE : Within E.slot W)
    {v : ℕ → K} (hv : v ∈ W) : Within (E.offer v).1.slot W := by
  have reduced := reduceTo_mem hE k hv
  unfold offer keep
  by_cases h : ∃ c, c < k ∧ E.reduceTo k v c ≠ 0
  · rw [dif_pos h]
    exact store_within hE (Nat.find_spec h).1 (Nat.find_spec h).2 (zero_of_lt_find h) reduced
  · rw [dif_neg h]
    exact hE

end Offer

end Echelon

/-- Clear column `col` in the rows above row `col`. -/
def clearAbove (col : ℕ) (M : ℕ → ℕ → K) : ℕ → ℕ → K :=
  fun r => if r < col then M r - M r col • M col else M r

/-- Clear above the diagonal, from column `n - 1` back to column 0. -/
def backSubstitute : ℕ → (ℕ → ℕ → K) → (ℕ → ℕ → K)
  | 0, M => M
  | n + 1, M => backSubstitute n (clearAbove n M)

/-- Ones on the diagonal and zeros left of it, in the first `k` rows. -/
def Triangular (k : ℕ) (M : ℕ → ℕ → K) : Prop :=
  ∀ r < k, M r r = 1 ∧ ∀ j < r, M r j = 0

/-- Columns from `n` on are already clear above the diagonal. -/
def ClearFrom (n k : ℕ) (M : ℕ → ℕ → K) : Prop :=
  ∀ c, n ≤ c → c < k → ∀ r < c, M r c = 0

theorem clearAbove_triangular {n : ℕ} {M : ℕ → ℕ → K} (hn : n < k) (hM : Triangular k M) :
    Triangular k (clearAbove n M) := by
  intro r hr
  obtain ⟨one, zero⟩ := hM r hr
  by_cases h : r < n
  · have pivot := (hM n hn).2
    refine ⟨?_, fun j hj => ?_⟩
    · simp [clearAbove, h, one, pivot r h]
    · simp [clearAbove, h, zero j hj, pivot j (by omega)]
  · simpa [clearAbove, h] using ⟨one, zero⟩

theorem clearAbove_clearFrom {n : ℕ} {M : ℕ → ℕ → K} (hn : n < k) (hM : Triangular k M)
    (hc : ClearFrom (n + 1) k M) : ClearFrom n k (clearAbove n M) := by
  intro c hnc hck r hr
  by_cases h : r < n
  · by_cases hcn : c = n
    · subst hcn
      simp [clearAbove, h, (hM c hn).1]
    · simp [clearAbove, h, hc c (by omega) hck r hr, hc c (by omega) hck n (by omega)]
  · simp only [clearAbove, h, if_false]
    exact hc c (by omega) hck r hr

private theorem backSubstitute_spec (n : ℕ) (hn : n ≤ k) (M : ℕ → ℕ → K)
    (hM : Triangular k M) (hc : ClearFrom n k M) :
    Triangular k (backSubstitute n M) ∧ ClearFrom 0 k (backSubstitute n M) := by
  induction n generalizing M with
  | zero => exact ⟨hM, hc⟩
  | succ n ih =>
    have below : n < k := by omega
    exact ih (by omega) (clearAbove n M) (clearAbove_triangular below hM)
      (clearAbove_clearFrom below hM hc)

theorem backSubstitute_identity {M : ℕ → ℕ → K} (hM : Triangular k M) {r j : ℕ} (hr : r < k)
    (hj : j < k) : backSubstitute k M r j = if r = j then 1 else 0 := by
  have vacuous : ClearFrom k k M := fun c hkc hck => by omega
  obtain ⟨tri, clear⟩ := backSubstitute_spec k le_rfl M hM vacuous
  rcases lt_trichotomy r j with h | h | h
  · rw [if_neg (by omega)]
    exact clear j (by omega) hj r h
  · subst h
    rw [if_pos rfl]
    exact (tri r hr).1
  · rw [if_neg (by omega)]
    exact (tri r hr).2 j h

theorem backSubstitute_triangular {M : ℕ → ℕ → K} (hM : Triangular k M) :
    Triangular k (backSubstitute k M) :=
  (backSubstitute_spec k le_rfl M hM fun c hkc hck => by omega).1

theorem backSubstitute_mem {W : Submodule K (ℕ → K)} {M : ℕ → ℕ → K} (n : ℕ) (hn : n ≤ k)
    (hM : ∀ r < k, M r ∈ W) : ∀ r < k, backSubstitute n M r ∈ W := by
  induction n generalizing M with
  | zero => exact hM
  | succ n ih =>
    refine ih (by omega) fun r hr => ?_
    by_cases h : r < n
    · simp only [clearAbove, h, if_true]
      exact W.sub_mem (hM r hr) (W.smul_mem _ (hM n (by omega)))
    · simpa only [clearAbove, h, if_false] using hM r hr

namespace Echelon

theorem triangular {E : Echelon K k} {M : ℕ → ℕ → K} (hM : ∀ c < k, E.slot c = some (M c)) :
    Triangular k M := by
  intro r hr
  exact ⟨E.lead (hM r hr), E.left (hM r hr)⟩

def ofTriangular (M : ℕ → ℕ → K) (hM : Triangular k M) : Echelon K k where
  slot c := if c < k then some (M c) else none
  bound {c r} h := by
    by_contra hc
    rw [if_neg hc] at h
    cases h
  lead {c r} h := by
    by_cases hc : c < k
    · rw [if_pos hc] at h
      cases h
      exact (hM c hc).1
    · rw [if_neg hc] at h
      cases h
  left {c r} h := by
    by_cases hc : c < k
    · rw [if_pos hc] at h
      cases h
      exact (hM c hc).2
    · rw [if_neg hc] at h
      cases h

theorem slot_ofTriangular {M : ℕ → ℕ → K} (hM : Triangular k M) {c : ℕ} (hc : c < k) :
    (ofTriangular M hM).slot c = some (M c) := if_pos hc

theorem rank_ofTriangular {M : ℕ → ℕ → K} (hM : Triangular k M) :
    (ofTriangular M hM).rank = k := by
  have all : (Finset.range k).filter (fun c => ((ofTriangular M hM).slot c).isSome) =
      Finset.range k := by
    apply Finset.filter_true_of_mem
    intro c hc
    rw [slot_ofTriangular hM (Finset.mem_range.mp hc)]
    rfl
  rw [rank, all, Finset.card_range]

theorem ofTriangular_within {W : Submodule K (ℕ → K)} {M : ℕ → ℕ → K} (hM : Triangular k M)
    (hW : ∀ r < k, M r ∈ W) : Within (ofTriangular M hM).slot W := by
  intro c r h
  have hc := (ofTriangular M hM).bound h
  rw [slot_ofTriangular hM hc] at h
  cases h
  exact hW c hc

end Echelon

end Craftec.Library.Elimination
