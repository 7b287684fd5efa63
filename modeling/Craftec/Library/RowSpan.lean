/- GID: Craftec/Library/RowSpan
   generality: G
   digest: What the rows of an echelon span, its rank as a dimension, and vectors that may be exchanged. -/

import Craftec.Library.Elimination
import Mathlib.LinearAlgebra.FiniteDimensional.Lemmas
import Mathlib.LinearAlgebra.Matrix.Block

set_option autoImplicit false
set_option relaxedAutoImplicit false

namespace Craftec.Library.RowSpan

open Craftec.Library.Elimination

section Exchange

variable {K V : Type*} [Field K] [AddCommGroup V] [Module K V]

theorem sup_span_add_smul {U : Submodule K V} {u x : V} (inside : u ∈ U) {a : K} (nonzero : a ≠ 0) :
    U ⊔ Submodule.span K {u + a • x} = U ⊔ Submodule.span K {x} := by
  have back : a⁻¹ • ((u + a • x) - u) = x := by
    rw [add_sub_cancel_left, smul_smul, inv_mul_cancel₀ nonzero, one_smul]
  apply le_antisymm
  · refine sup_le le_sup_left ?_
    rw [Submodule.span_singleton_le_iff_mem]
    exact Submodule.add_mem _ (Submodule.mem_sup_left inside)
      (Submodule.smul_mem _ a (Submodule.mem_sup_right (Submodule.mem_span_singleton_self x)))
  · refine sup_le le_sup_left ?_
    rw [Submodule.span_singleton_le_iff_mem]
    have recovered := Submodule.smul_mem _ a⁻¹ (Submodule.sub_mem (U ⊔ Submodule.span K {u + a • x})
      (Submodule.mem_sup_right (Submodule.mem_span_singleton_self _)) (Submodule.mem_sup_left inside))
    rwa [back] at recovered

variable {α : Type*} (K) (f : α → V)

/-- The span of the vectors of the entries of a list. -/
def listSpan (l : List α) : Submodule K V := Submodule.span K (f '' {a | a ∈ l})

variable {K f}

@[simp] theorem listSpan_nil : listSpan K f [] = ⊥ := by
  simp [listSpan]

theorem mem_listSpan {l : List α} {a : α} (listed : a ∈ l) : f a ∈ listSpan K f l :=
  Submodule.subset_span ⟨a, listed, rfl⟩

theorem listSpan_le {l : List α} {W : Submodule K V} : listSpan K f l ≤ W ↔ ∀ a ∈ l, f a ∈ W := by
  rw [listSpan, Submodule.span_le, Set.image_subset_iff]
  rfl

theorem listSpan_append (l l' : List α) :
    listSpan K f (l ++ l') = listSpan K f l ⊔ listSpan K f l' := by
  rw [listSpan, listSpan, listSpan, ← Submodule.span_union, ← Set.image_union]
  congr 2
  ext a
  exact List.mem_append

theorem listSpan_singleton (a : α) : listSpan K f [a] = Submodule.span K {f a} := by
  rw [listSpan]
  congr 1
  simp

theorem listSpan_cons (a : α) (l : List α) :
    listSpan K f (a :: l) = Submodule.span K {f a} ⊔ listSpan K f l := by
  rw [← listSpan_singleton, ← listSpan_append, List.singleton_append]

theorem listSpan_perm {l l' : List α} (same : l.Perm l') : listSpan K f l = listSpan K f l' := by
  rw [listSpan, listSpan]
  congr 2
  ext a
  exact same.mem_iff

def combination (f : α → V) (l : List α) (scalars : List K) : V :=
  ((l.zip scalars).map fun t => t.2 • f t.1).sum

theorem combination_mem (l : List α) (scalars : List K) :
    combination f l scalars ∈ listSpan K f l := by
  refine list_sum_mem fun v among => ?_
  obtain ⟨t, listed, rfl⟩ := List.mem_map.mp among
  exact Submodule.smul_mem _ _ (mem_listSpan (List.of_mem_zip listed).1)

theorem listSpan_set {l : List α} {scalars : List K} {i : ℕ} {a b : α} {c : K}
    (entry : l[i]? = some a) (scalar : scalars[i]? = some c) (nonzero : c ≠ 0)
    (combines : f b = combination f l scalars) : listSpan K f (l.set i b) = listSpan K f l := by
  obtain ⟨below, rfl⟩ := List.getElem?_eq_some_iff.mp entry
  obtain ⟨inside, rfl⟩ := List.getElem?_eq_some_iff.mp scalar
  have split : l = l.take i ++ l[i] :: l.drop (i + 1) := by
    rw [List.getElem_cons_drop, List.take_append_drop]
  have splitScalars : scalars = scalars.take i ++ scalars[i] :: scalars.drop (i + 1) := by
    rw [List.getElem_cons_drop, List.take_append_drop]
  have lengths : (l.take i).length = (scalars.take i).length := by
    rw [List.length_take, List.length_take]
    omega
  have parts : f b = (combination f (l.take i) (scalars.take i) +
      combination f (l.drop (i + 1)) (scalars.drop (i + 1))) + scalars[i] • f l[i] := by
    rw [combines]
    unfold combination
    nth_rewrite 1 [split, splitScalars]
    rw [List.zip_append lengths, List.zip_cons_cons, List.map_append, List.map_cons, List.sum_append,
      List.sum_cons]
    abel
  have others : combination f (l.take i) (scalars.take i) +
      combination f (l.drop (i + 1)) (scalars.drop (i + 1)) ∈
        listSpan K f (l.take i ++ l.drop (i + 1)) := by
    rw [listSpan_append]
    exact Submodule.add_mem _ (Submodule.mem_sup_left (combination_mem _ _))
      (Submodule.mem_sup_right (combination_mem _ _))
  have around (x : α) : listSpan K f (l.take i ++ x :: l.drop (i + 1)) =
      listSpan K f (l.take i ++ l.drop (i + 1)) ⊔ Submodule.span K {f x} := by
    rw [listSpan_append, listSpan_cons, listSpan_append, sup_assoc, sup_comm (Submodule.span K {f x})]
  calc listSpan K f (l.set i b) = listSpan K f (l.take i ++ b :: l.drop (i + 1)) := by
        rw [List.set_eq_take_append_cons_drop, if_pos below]
    _ = listSpan K f (l.take i ++ l.drop (i + 1)) ⊔ Submodule.span K {f l[i]} := by
        rw [around, parts, sup_span_add_smul others nonzero]
    _ = listSpan K f l := by
        rw [← around, ← split]

end Exchange

variable {K : Type*} [Field K] {k : ℕ}

/-- The entries of a row that may carry a pivot. -/
def coefficients (k : ℕ) : (ℕ → K) →ₗ[K] (Fin k → K) := LinearMap.funLeft K K Fin.val

theorem coefficients_eq_zero {v : ℕ → K} : coefficients k v = 0 ↔ ∀ c < k, v c = 0 := by
  constructor
  · intro zero c below
    exact congrFun zero ⟨c, below⟩
  · intro zero
    funext c
    exact zero c c.isLt

def rowSpan (E : Echelon K k) : Submodule K (ℕ → K) :=
  Submodule.span K {r | ∃ c, E.slot c = some r}

theorem rowSpan_le {E : Echelon K k} {W : Submodule K (ℕ → K)} :
    rowSpan E ≤ W ↔ Within E.slot W := by
  rw [rowSpan, Submodule.span_le]
  constructor
  · intro all c r held
    exact all ⟨c, held⟩
  · rintro all r ⟨c, held⟩
    exact all c r held

theorem within_rowSpan (E : Echelon K k) : Within E.slot (rowSpan E) := rowSpan_le.mp le_rfl

theorem rowSpan_empty : rowSpan (Echelon.empty : Echelon K k) = ⊥ := by
  rw [← le_bot_iff, rowSpan_le]
  intro c r held
  cases held

/-! Reduction -/

theorem sub_reduceTo_mem (E : Echelon K k) (n : ℕ) (v : ℕ → K) : v - E.reduceTo n v ∈ rowSpan E := by
  induction n with
  | zero =>
    rw [Echelon.reduceTo, sub_self]
    exact Submodule.zero_mem _
  | succ n ih =>
    rw [Echelon.reduceTo]
    cases held : E.slot n with
    | none => exact ih
    | some r =>
      have taken : v - clear (some r) n (E.reduceTo n v) =
          (v - E.reduceTo n v) + E.reduceTo n v n • r := by
        rw [clear]
        abel
      rw [taken]
      exact Submodule.add_mem _ ih (Submodule.smul_mem _ _ (within_rowSpan E n r held))

theorem reduceTo_add (E : Echelon K k) (n : ℕ) (u v : ℕ → K) :
    E.reduceTo n (u + v) = E.reduceTo n u + E.reduceTo n v := by
  induction n with
  | zero => rfl
  | succ n ih =>
    simp only [Echelon.reduceTo, ih]
    cases E.slot n with
    | none => rfl
    | some r =>
      simp only [clear, Pi.add_apply, add_smul]
      abel

theorem reduceTo_smul (E : Echelon K k) (n : ℕ) (a : K) (v : ℕ → K) :
    E.reduceTo n (a • v) = a • E.reduceTo n v := by
  induction n with
  | zero => rfl
  | succ n ih =>
    simp only [Echelon.reduceTo, ih]
    cases E.slot n with
    | none => rfl
    | some r => simp only [clear, Pi.smul_apply, smul_eq_mul, mul_smul, smul_sub]

theorem reduceTo_of_zero (E : Echelon K k) {v : ℕ → K} (n : ℕ) (zero : ∀ c < n, v c = 0) :
    E.reduceTo n v = v := by
  induction n with
  | zero => rfl
  | succ n ih =>
    rw [Echelon.reduceTo, ih fun c below => zero c (by omega)]
    cases E.slot n with
    | none => rfl
    | some r => rw [clear, zero n (by omega), zero_smul, sub_zero]

theorem reduceTo_slot {E : Echelon K k} {c : ℕ} {r : ℕ → K} (held : E.slot c = some r) (n : ℕ)
    (above : c < n) : E.reduceTo n r = 0 := by
  induction n, above using Nat.le_induction with
  | base =>
    rw [Echelon.reduceTo, reduceTo_of_zero E c (E.left held), held, clear, E.lead held, one_smul,
      sub_self]
  | succ n _ ih =>
    rw [Echelon.reduceTo, ih]
    cases E.slot n with
    | none => rfl
    | some r => rw [clear, Pi.zero_apply, zero_smul, sub_zero]

theorem reduceTo_of_mem {E : Echelon K k} {v : ℕ → K} (inside : v ∈ rowSpan E) :
    E.reduceTo k v = 0 := by
  induction inside using Submodule.span_induction with
  | mem r held =>
    obtain ⟨c, held⟩ := held
    exact reduceTo_slot held k (E.bound held)
  | zero => exact reduceTo_of_zero E k fun _ _ => rfl
  | add u v _ _ hu hv => rw [reduceTo_add, hu, hv, add_zero]
  | smul a v _ hv => rw [reduceTo_smul, hv, smul_zero]

theorem eq_zero_of_coefficients {E : Echelon K k} {v : ℕ → K} (inside : v ∈ rowSpan E)
    (zero : coefficients k v = 0) : v = 0 := by
  rw [← reduceTo_of_zero E k (coefficients_eq_zero.mp zero), reduceTo_of_mem inside]

theorem coefficients_reduceTo {E : Echelon K k} {v : ℕ → K} :
    coefficients k (E.reduceTo k v) = 0 ↔ coefficients k v ∈ (rowSpan E).map (coefficients k) := by
  constructor
  · intro zero
    refine ⟨v - E.reduceTo k v, sub_reduceTo_mem E k v, ?_⟩
    rw [map_sub, zero, sub_zero]
  · rintro ⟨w, inside, same⟩
    have rest : coefficients k (v - w) = 0 := by rw [map_sub, same, sub_self]
    have split : E.reduceTo k v = v - w := by
      calc E.reduceTo k v = E.reduceTo k (w + (v - w)) := by rw [add_sub_cancel]
        _ = E.reduceTo k (v - w) := by rw [reduceTo_add, reduceTo_of_mem inside, zero_add]
        _ = v - w := reduceTo_of_zero E k (coefficients_eq_zero.mp rest)
    rw [split, rest]

/-! Rows that arrive -/

theorem rowSpan_store {E : Echelon K k} {c : ℕ} {v : ℕ → K} (hc : c < k) (hv : v c ≠ 0)
    (hl : ∀ j < c, v j = 0) (free : E.slot c = none) :
    rowSpan (E.store c v hc hv hl) = rowSpan E ⊔ Submodule.span K {v} := by
  apply le_antisymm
  · rw [rowSpan_le]
    exact Echelon.store_within (fun c r held => Submodule.mem_sup_left (within_rowSpan E c r held)) hc hv
      hl (Submodule.mem_sup_right (Submodule.mem_span_singleton_self v))
  · have stored : (E.store c v hc hv hl).slot c = some ((v c)⁻¹ • v) := Function.update_self ..
    refine sup_le (rowSpan_le.mpr fun c' r held => ?_) ?_
    · have other : c' ≠ c := by
        rintro rfl
        rw [free] at held
        cases held
      refine within_rowSpan _ c' r ?_
      rw [← held]
      exact Function.update_of_ne other ..
    · rw [Submodule.span_singleton_le_iff_mem]
      have scaled := Submodule.smul_mem _ (v c) (within_rowSpan _ c _ stored)
      rwa [smul_smul, mul_inv_cancel₀ hv, one_smul] at scaled

section Offer

variable [DecidableEq K] {E : Echelon K k} {v : ℕ → K}

theorem offer_snd : (E.offer v).2 = true ↔ coefficients k v ∉ (rowSpan E).map (coefficients k) := by
  rw [← coefficients_reduceTo, coefficients_eq_zero, Echelon.offer, Echelon.keep]
  push Not
  split
  · rename_i left
    exact iff_of_true rfl left
  · rename_i nothing
    exact iff_of_false Bool.false_ne_true nothing

theorem offer_of_dropped (dropped : (E.offer v).2 = false) : (E.offer v).1 = E := by
  unfold Echelon.offer Echelon.keep at dropped ⊢
  split at dropped
  · cases dropped
  · rename_i nothing
    rw [dif_neg nothing]

theorem rowSpan_offer (kept : (E.offer v).2 = true) :
    rowSpan (E.offer v).1 = rowSpan E ⊔ Submodule.span K {v} := by
  have reduced : rowSpan E ⊔ Submodule.span K {E.reduceTo k v} = rowSpan E ⊔ Submodule.span K {v} := by
    have same := sup_span_add_smul (x := v) ((rowSpan E).neg_mem (sub_reduceTo_mem E k v)) one_ne_zero
    rwa [one_smul, neg_sub, sub_add_cancel] at same
  unfold Echelon.offer Echelon.keep at kept ⊢
  split at kept
  · rename_i left
    obtain ⟨below, nonzero⟩ := Nat.find_spec left
    rw [dif_pos left, ← reduced]
    exact rowSpan_store below nonzero (Echelon.zero_of_lt_find left) (E.free_of_reduced below nonzero)
  · cases kept

theorem map_rowSpan_offer : (rowSpan (E.offer v).1).map (coefficients k) =
    (rowSpan E).map (coefficients k) ⊔ Submodule.span K {coefficients k v} := by
  cases flag : (E.offer v).2 with
  | true => rw [rowSpan_offer flag, Submodule.map_sup, Submodule.map_span, Set.image_singleton]
  | false =>
    have known : coefficients k v ∈ (rowSpan E).map (coefficients k) := by
      by_contra new
      rw [offer_snd.mpr new] at flag
      cases flag
    rw [offer_of_dropped flag, eq_comm, sup_eq_left, Submodule.span_singleton_le_iff_mem]
    exact known

end Offer

/-! Rank -/

private abbrev Pivot (E : Echelon K k) := {c : Fin k // (E.slot c).isSome}

private def pivotRow (E : Echelon K k) (c : Pivot E) : Fin k → K :=
  coefficients k ((E.slot c).get c.2)

private theorem slot_pivot {E : Echelon K k} (c : Pivot E) : E.slot c = some ((E.slot c).get c.2) :=
  (Option.some_get c.2).symm

private theorem linearIndependent_pivotRow (E : Echelon K k) : LinearIndependent K (pivotRow E) := by
  let square : Matrix (Pivot E) (Pivot E) K := fun c c' => pivotRow E c c'
  have triangular : square.IsUpperTriangular := fun c c' below => E.left (slot_pivot c) c' below
  have det : square.det ≠ 0 := by
    have diagonal : ∀ c, square c c = 1 := fun c => E.lead (slot_pivot c)
    rw [Matrix.det_of_isUpperTriangular triangular, Finset.prod_congr rfl fun c _ => diagonal c,
      Finset.prod_const_one]
    exact one_ne_zero
  exact LinearIndependent.of_comp (LinearMap.funLeft K K Subtype.val)
    (Matrix.linearIndependent_rows_of_det_ne_zero det)

private theorem map_rowSpan (E : Echelon K k) :
    (rowSpan E).map (coefficients k) = Submodule.span K (Set.range (pivotRow E)) := by
  rw [rowSpan, Submodule.map_span]
  congr 1
  ext w
  constructor
  · rintro ⟨r, ⟨c, held⟩, rfl⟩
    have some : (E.slot c).isSome := by rw [held]; rfl
    refine ⟨⟨⟨c, E.bound held⟩, some⟩, ?_⟩
    simp only [pivotRow, held, Option.get_some]
  · rintro ⟨c, rfl⟩
    exact ⟨_, ⟨c, slot_pivot c⟩, rfl⟩

/-- The number of occupied slots is the dimension of the span of the coefficients. -/
theorem rank_eq_finrank (E : Echelon K k) :
    E.rank = Module.finrank K ((rowSpan E).map (coefficients k)) := by
  rw [map_rowSpan, finrank_span_eq_card (linearIndependent_pivotRow E), Fintype.card_subtype,
    Echelon.rank, ← Nat.Iio_eq_range, ← Fin.map_valEmbedding_univ, Finset.filter_map, Finset.card_map]
  rfl

theorem map_rowSpan_eq_top {E : Echelon K k} (full : E.rank = k) :
    (rowSpan E).map (coefficients k) = ⊤ := by
  rw [Submodule.eq_top_iff_finrank_eq, ← rank_eq_finrank, full, Module.finrank_fin_fun]

theorem rowSpan_eq_of_le {E E' : Echelon K k} (le : rowSpan E' ≤ rowSpan E) (full : E'.rank = k) :
    rowSpan E' = rowSpan E := by
  refine le_antisymm le fun v inside => ?_
  have all : coefficients k v ∈ (rowSpan E').map (coefficients k) := by
    rw [map_rowSpan_eq_top full]
    exact Submodule.mem_top
  obtain ⟨w, among, same⟩ := all
  have equal : v - w = 0 := by
    refine eq_zero_of_coefficients (Submodule.sub_mem _ inside (le among)) ?_
    rw [map_sub, same, sub_self]
  rwa [sub_eq_zero.mp equal]

theorem eq_sum_of_unit {E : Echelon K k} {M : ℕ → ℕ → K} (slots : ∀ c < k, E.slot c = some (M c))
    (unit : ∀ c < k, ∀ j < k, M c j = if c = j then 1 else 0) {v : ℕ → K} (inside : v ∈ rowSpan E) :
    v = ∑ c ∈ Finset.range k, v c • M c := by
  refine sub_eq_zero.mp (eq_zero_of_coefficients (E := E) ?_ ?_)
  · refine Submodule.sub_mem _ inside (Submodule.sum_mem _ fun c listed => ?_)
    exact Submodule.smul_mem _ _ (within_rowSpan E c _ (slots c (Finset.mem_range.mp listed)))
  · rw [coefficients_eq_zero]
    intro j below
    have entry : ∀ c ∈ Finset.range k, (v c • M c) j = if c = j then v j else 0 := by
      intro c listed
      rw [Pi.smul_apply, unit c (Finset.mem_range.mp listed) j below, smul_eq_mul]
      split
      · rename_i same
        rw [same, mul_one]
      · exact mul_zero _
    rw [Pi.sub_apply, Finset.sum_apply, Finset.sum_congr rfl entry, Finset.sum_ite_eq',
      if_pos (Finset.mem_range.mpr below), sub_self]

end Craftec.Library.RowSpan
