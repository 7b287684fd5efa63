/- GID: Craftec/Library/PairTree
   generality: G
   digest: Reducing a list to one node, layer by layer, by a function of neighbouring pairs. -/

import Mathlib.Data.List.Basic
import Mathlib.Data.Set.Function

set_option autoImplicit false
set_option relaxedAutoImplicit false

namespace Craftec.Library.PairTree

variable {α : Type*}

/-- Neighbours; the last node of a list of odd length is paired with itself. -/
def pairs : List α → List (α × α)
  | [] => []
  | [last] => [(last, last)]
  | left :: right :: rest => (left, right) :: pairs rest

variable (node : α × α → α)

def layer (l : List α) : List α := (pairs l).map node

/-- Layer upon layer until at most one node is left; `none` when `n` layers are not enough. -/
def reduce : ℕ → List α → Option (List α)
  | 0, l => if 1 < l.length then none else some l
  | n + 1, l => if 1 < l.length then reduce n (layer node l) else some l

/-- The pairs `node` is applied to on the way. -/
def inputs : ℕ → List α → List (α × α)
  | 0, _ => []
  | n + 1, l => if 1 < l.length then pairs l ++ inputs n (layer node l) else []

theorem length_pairs (l : List α) : (pairs l).length = (l.length + 1) / 2 := by
  fun_induction pairs l with
  | case1 => simp
  | case2 last => simp
  | case3 left right rest ih =>
    rw [List.length_cons, ih, List.length_cons, List.length_cons]
    omega

theorem length_layer (l : List α) : (layer node l).length = (l.length + 1) / 2 := by
  rw [layer, List.length_map, length_pairs]

theorem pairs_injective {l m : List α} (lengths : l.length = m.length) (same : pairs l = pairs m) :
    l = m := by
  fun_induction pairs l generalizing m with
  | case1 => exact (List.length_eq_zero_iff.mp lengths.symm).symm
  | case2 last =>
    obtain ⟨other, rfl⟩ := List.length_eq_one_iff.mp lengths.symm
    cases same
    rfl
  | case3 left right rest ih =>
    obtain _ | ⟨left', _ | ⟨right', rest'⟩⟩ := m
    · cases lengths
    · cases lengths
    · obtain ⟨heads, tails⟩ := List.cons.inj same
      cases heads
      rw [ih (by simpa using lengths) tails]

theorem exists_reduce {l : List α} (nonempty : l ≠ []) :
    ∃ root, ∀ n, l.length ≤ n → reduce node n l = some [root] := by
  induction size : l.length using Nat.strong_induction_on generalizing l with
  | _ size ih =>
    subst size
    by_cases more : 1 < l.length
    · have shorter : (layer node l).length < l.length := by
        rw [length_layer]
        omega
      have inhabited : layer node l ≠ [] := by
        apply List.ne_nil_of_length_pos
        rw [length_layer]
        omega
      obtain ⟨root, reached⟩ := ih _ shorter inhabited rfl
      refine ⟨root, fun n enough => ?_⟩
      obtain ⟨n, rfl⟩ : ∃ m, n = m + 1 := ⟨n - 1, by omega⟩
      rw [reduce, if_pos more]
      exact reached n (by omega)
    · have one : l.length = 1 := by
        have positive := List.length_pos_of_ne_nil nonempty
        omega
      obtain ⟨root, rfl⟩ := List.length_eq_one_iff.mp one
      refine ⟨root, fun n _ => ?_⟩
      cases n <;> rfl

theorem reduce_injective {n : ℕ} {l m : List α} (lengths : l.length = m.length)
    (injective : Set.InjOn node {p | p ∈ inputs node n l ∨ p ∈ inputs node n m})
    (done : (reduce node n l).isSome) (same : reduce node n l = reduce node n m) : l = m := by
  induction n generalizing l m with
  | zero =>
    rw [reduce] at done same
    split at done
    · cases done
    · rename_i few
      rw [if_neg few, reduce, if_neg (lengths ▸ few)] at same
      exact Option.some.inj same
  | succ n ih =>
    rw [reduce] at done same
    rw [reduce, ← lengths] at same
    split at done
    · rename_i more
      rw [if_pos more, if_pos more] at same
      have more' : 1 < m.length := lengths ▸ more
      simp only [inputs, if_pos more, if_pos more', List.mem_append] at injective
      have layers : layer node l = layer node m := by
        refine ih ?_ (injective.mono ?_) done same
        · rw [length_layer, length_layer, lengths]
        · rintro p (first | second)
          · exact .inl (.inr first)
          · exact .inr (.inr second)
      refine pairs_injective lengths ?_
      have lists : (pairs l).length = (pairs m).length := by rw [length_pairs, length_pairs, lengths]
      refine List.ext_getElem lists fun i inL inM => ?_
      apply injective (.inl (.inl (List.getElem_mem inL))) (.inr (.inl (List.getElem_mem inM)))
      have entry := congrArg (fun q : List α => q[i]?) layers
      simpa [layer, List.getElem?_eq_getElem, inL, inM] using entry
    · rename_i few
      rw [if_neg few, if_neg few] at same
      exact Option.some.inj same

end Craftec.Library.PairTree
