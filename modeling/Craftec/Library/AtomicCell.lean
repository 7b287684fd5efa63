/- GID: Craftec/Library/AtomicCell
   generality: G
   digest: The successful writes of a cell that is only ever exchanged against the value it holds. -/

import Mathlib.Data.List.Pairwise
import Mathlib.Order.Basic

set_option autoImplicit false
set_option relaxedAutoImplicit false

namespace Craftec.Library.AtomicCell

variable {κ V : Type*}

/-- One successful exchange: the call it belongs to, the value it was compared
against and the value it stored. -/
structure Write (κ V : Type*) where
  event : κ
  before : V
  after : V

/-- The writes, oldest first, take the cell from `first` to `last`: each was
compared against what the one before it stored. -/
def Linked (first : V) : List (Write κ V) → V → Prop
  | [], last => first = last
  | w :: rest, last => first = w.before ∧ Linked w.after rest last

theorem Linked.concat {first last : V} {writes : List (Write κ V)} (linked : Linked first writes last)
    (e : κ) (next : V) : Linked first (writes ++ [⟨e, last, next⟩]) next := by
  induction writes generalizing first with
  | nil => exact ⟨linked, rfl⟩
  | cons w rest ih => exact ⟨linked.1, ih linked.2⟩

theorem Linked.cut {first last : V} {front back : List (Write κ V)} {w : Write κ V}
    (linked : Linked first (front ++ w :: back) last) : Linked first front w.before := by
  induction front generalizing first with
  | nil => exact linked.1
  | cons v rest ih => exact ⟨linked.1, ih linked.2⟩

section Ranked

variable {α : Type*} [Preorder α] {rank : V → α} {first last : V} {writes : List (Write κ V)}

theorem Linked.rank_le (linked : Linked first writes last)
    (grows : ∀ w ∈ writes, rank w.before ≤ rank w.after) : rank first ≤ rank last := by
  induction writes generalizing first with
  | nil => exact (congrArg rank linked).le
  | cons w rest ih =>
    have onward : rank w.after ≤ rank last :=
      ih linked.2 fun v listed => grows v (List.mem_cons_of_mem w listed)
    calc rank first = rank w.before := congrArg rank linked.1
      _ ≤ rank w.after := grows w List.mem_cons_self
      _ ≤ rank last := onward

theorem Linked.pairwise (linked : Linked first writes last)
    (grows : ∀ w ∈ writes, rank w.before ≤ rank w.after) :
    writes.Pairwise fun earlier later => rank earlier.after ≤ rank later.before := by
  induction writes generalizing first with
  | nil => exact .nil
  | cons w rest ih =>
    have tailGrows : ∀ v ∈ rest, rank v.before ≤ rank v.after :=
      fun v listed => grows v (List.mem_cons_of_mem w listed)
    refine .cons ?_ (ih linked.2 tailGrows)
    intro later listed
    -- Cut the rest at the later write: what precedes it links `w` to its `before`.
    obtain ⟨front, back, rfl⟩ := List.append_of_mem listed
    exact (Linked.cut linked.2).rank_le fun v inFront => tailGrows v (List.mem_append_left _ inFront)

end Ranked

end Craftec.Library.AtomicCell
