/- GID: Craftec/Library/SortBy
   generality: G
   digest: Sorting by a comparator and the first least element, both seen through a key. -/

import Mathlib.Data.List.Sort
import Mathlib.Order.Compare

set_option autoImplicit false
set_option relaxedAutoImplicit false

namespace Craftec.Library.SortBy

open Std (LawfulEqCmp OrientedCmp ReflCmp TransCmp)

variable {α κ : Type*}

def sortBy (cmp : α → α → Ordering) (l : List α) : List α := l.mergeSort fun a b => (cmp a b).isLE

def lesser (cmp : α → α → Ordering) (best next : α) : α := if cmp best next = .gt then next else best

def minBy (cmp : α → α → Ordering) : List α → Option α
  | [] => none
  | first :: rest => some (rest.foldl (lesser cmp) first)

section Keys

variable {cmp : α → α → Ordering} {kcmp : κ → κ → Ordering} {key : α → κ} {l : List α}

def Follows (cmp : α → α → Ordering) (kcmp : κ → κ → Ordering) (key : α → κ) (l : List α) : Prop :=
  ∀ a ∈ l, ∀ b ∈ l, cmp a b = kcmp (key a) (key b)

theorem map_sortBy (follows : Follows cmp kcmp key l) :
    (sortBy cmp l).map key = sortBy kcmp (l.map key) := by
  apply List.map_mergeSort
  intro a ha b hb
  rw [follows a ha b hb]

theorem foldl_lesser_mem (rest : List α) (first : α) :
    rest.foldl (lesser cmp) first ∈ first :: rest := by
  induction rest generalizing first with
  | nil => exact List.mem_cons_self
  | cons next rest ih =>
    have kept := ih (lesser cmp first next)
    rw [List.foldl_cons]
    rcases List.mem_cons.mp kept with same | later
    · rw [same]
      unfold lesser
      split <;> simp
    · exact List.mem_cons_of_mem _ (List.mem_cons_of_mem _ later)

theorem map_foldl_lesser (rest : List α) (first : α) (follows : Follows cmp kcmp key (first :: rest)) :
    key (rest.foldl (lesser cmp) first) = (rest.map key).foldl (lesser kcmp) (key first) := by
  induction rest generalizing first with
  | nil => rfl
  | cons next rest ih =>
    have step : key (lesser cmp first next) = lesser kcmp (key first) (key next) := by
      unfold lesser
      rw [follows first List.mem_cons_self next (by simp), apply_ite key]
    have among : Follows cmp kcmp key (lesser cmp first next :: rest) := by
      have listed : ∀ a ∈ lesser cmp first next :: rest, a ∈ first :: next :: rest := by
        intro a ha
        rcases List.mem_cons.mp ha with rfl | later
        · unfold lesser
          split <;> simp
        · exact List.mem_cons_of_mem _ (List.mem_cons_of_mem _ later)
      exact fun a ha b hb => follows a (listed a ha) b (listed b hb)
    rw [List.foldl_cons, List.map_cons, List.foldl_cons, ih _ among, step]

theorem map_minBy (follows : Follows cmp kcmp key l) :
    (minBy cmp l).map key = minBy kcmp (l.map key) := by
  cases l with
  | nil => rfl
  | cons first rest => exact congrArg some (map_foldl_lesser rest first follows)

end Keys

section Lawful

variable (cmp : α → α → Ordering) [TransCmp cmp]

theorem isLE_self (a : α) : (cmp a a).isLE = true := by
  have same : cmp a a = .eq := ReflCmp.compare_self
  rw [same]
  rfl

theorem pairwise_sortBy (l : List α) :
    (sortBy cmp l).Pairwise fun a b => (cmp a b).isLE = true := by
  apply List.pairwise_mergeSort
  · exact fun _ _ _ => TransCmp.isLE_trans
  · intro a b
    have swapped : cmp b a = (cmp a b).swap := OrientedCmp.eq_swap
    rw [swapped]
    cases cmp a b <;> rfl

theorem foldl_lesser_le (rest : List α) (first : α) :
    ∀ a ∈ first :: rest, (cmp (rest.foldl (lesser cmp) first) a).isLE = true := by
  induction rest generalizing first with
  | nil =>
    intro a ha
    rw [List.mem_singleton.mp ha]
    exact isLE_self cmp first
  | cons next rest ih =>
    have least := ih (lesser cmp first next)
    have below : (cmp (lesser cmp first next) first).isLE = true ∧
        (cmp (lesser cmp first next) next).isLE = true := by
      unfold lesser
      split
      · rename_i greater
        refine ⟨?_, isLE_self cmp next⟩
        rw [OrientedCmp.gt_iff_lt.mp greater]
        rfl
      · rename_i kept
        refine ⟨isLE_self cmp first, ?_⟩
        cases order : cmp first next with
        | gt => exact absurd order kept
        | lt | eq => rfl
    intro a ha
    have chosen := least _ List.mem_cons_self
    rcases List.mem_cons.mp ha with rfl | ha
    · exact TransCmp.isLE_trans chosen below.1
    · rcases List.mem_cons.mp ha with rfl | ha
      · exact TransCmp.isLE_trans chosen below.2
      · exact least a (List.mem_cons_of_mem _ ha)

variable [LawfulEqCmp cmp]

variable {cmp} in
theorem eq_of_le_of_le {a b : α} (le : (cmp a b).isLE = true) (ge : (cmp b a).isLE = true) : a = b :=
  LawfulEqCmp.eq_of_compare (OrientedCmp.isLE_antisymm le ge)

theorem sortBy_eq_of_perm {l m : List α} (perm : l.Perm m) : sortBy cmp l = sortBy cmp m := by
  have same : (sortBy cmp l).Perm (sortBy cmp m) :=
    ((List.mergeSort_perm l _).trans perm).trans (List.mergeSort_perm m _).symm
  exact List.Perm.eq_of_pairwise (fun a b _ _ => eq_of_le_of_le) (pairwise_sortBy cmp l)
    (pairwise_sortBy cmp m) same

theorem minBy_eq_head? (l : List α) : minBy cmp l = (sortBy cmp l).head? := by
  cases l with
  | nil => simp [minBy, sortBy]
  | cons first rest =>
    have perm : (sortBy cmp (first :: rest)).Perm (first :: rest) := List.mergeSort_perm _ _
    cases sorted : sortBy cmp (first :: rest) with
    | nil =>
      rw [sorted] at perm
      exact absurd perm.symm.eq_nil (List.cons_ne_nil _ _)
    | cons head tail =>
      have ordered := pairwise_sortBy cmp (first :: rest)
      rw [sorted] at perm ordered
      have least : (cmp (rest.foldl (lesser cmp) first) head).isLE = true :=
        foldl_lesser_le cmp rest first head (perm.mem_iff.mp List.mem_cons_self)
      have heads : (cmp head (rest.foldl (lesser cmp) first)).isLE = true := by
        rcases List.mem_cons.mp (perm.mem_iff.mpr (foldl_lesser_mem rest first)) with same | later
        · rw [same]
          exact isLE_self cmp head
        · exact (List.pairwise_cons.mp ordered).1 _ later
      exact congrArg some (eq_of_le_of_le least heads)

end Lawful

end Craftec.Library.SortBy
