/- GID: Craftec/Crypto/Merkle
   generality: I
   digest: The binary Merkle root of a list of hashes: it is reached, and it determines the list. -/

import Mathlib.Data.List.Basic
import Mathlib.Data.Set.Function
import Craftec.Library.PairTree
import Craftec.Types.Digest

set_option autoImplicit false
set_option relaxedAutoImplicit false

namespace Craftec.Crypto.Merkle

open Craftec.Library.PairTree
open Craftec.Types.Digest (Blake3 Bytes Bytes32 leading)

def combined (left right : Bytes32) : Bytes := left.bytes ++ right.bytes

/-- At most `turns` turns of the loop over one layer, from index `i`, with the nodes already pushed
in `next`; `none` when it would go on. The last node of an odd layer is its own right child. -/
def innerLoop (B : Blake3) (current : List Bytes32) : ℕ → ℕ → List Bytes32 → Option (List Bytes32)
  | 0, i, next => if i < current.length then none else some next
  | turns + 1, i, next =>
    if i < current.length then do
      let left ← current[i]?
      let right ← (if i + 1 < current.length then current[i + 1]? else current[i]?)
      innerLoop B current turns (i + 2) (next ++ [B.hash (combined left right)])
    else some next

/-- At most `turns` turns of the loop over the layers; `none` when it would go on. -/
def outerLoop (B : Blake3) : ℕ → List Bytes32 → Option (List Bytes32)
  | 0, current => if 1 < current.length then none else some current
  | turns + 1, current =>
    if 1 < current.length then do
      -- The index goes up in every turn, so a layer takes no more turns than it has nodes.
      let next ← innerLoop B current current.length 0 []
      outerLoop B turns next
    else some current

/-- The Merkle root of `leaves`, if `turns` turns of the loop over the layers are enough for it. -/
def merkleRoot (B : Blake3) (turns : ℕ) (leaves : List Bytes32) : Option Bytes32 :=
  if leaves.isEmpty then some (Bytes32.fill 0)
  else do
    let current ← outerLoop B turns leaves
    current[0]?

def node (B : Blake3) (children : Bytes32 × Bytes32) : Bytes32 :=
  B.hash (combined children.1 children.2)

/-- What is hashed while the root of `leaves` is computed. -/
def nodeInputs (B : Blake3) (leaves : List Bytes32) : List Bytes :=
  (inputs (node B) leaves.length leaves).map fun children => combined children.1 children.2

theorem combined_injective {p q : Bytes32 × Bytes32}
    (same : combined p.1 p.2 = combined q.1 q.2) : p = q := by
  obtain ⟨⟨left, leftSize⟩, ⟨right, rightSize⟩⟩ := p
  obtain ⟨⟨left', leftSize'⟩, ⟨right', rightSize'⟩⟩ := q
  obtain ⟨lefts, rights⟩ := List.append_inj same (leftSize.trans leftSize'.symm)
  dsimp only at lefts rights
  subst lefts rights
  rfl

theorem innerLoop_eq (B : Blake3) (current : List Bytes32) {turns i : ℕ}
    (enough : current.length ≤ i + 2 * turns) (next : List Bytes32) :
    innerLoop B current turns i next = some (next ++ layer (node B) (current.drop i)) := by
  induction turns generalizing i next with
  | zero =>
    rw [innerLoop, if_neg (by omega), List.drop_eq_nil_of_le (by omega)]
    simp [layer, pairs]
  | succ turns ih =>
    have remaining : current.length ≤ i + 2 + 2 * turns := by omega
    rw [innerLoop]
    by_cases left : i < current.length
    · rw [if_pos left, List.getElem?_eq_getElem left, List.drop_eq_getElem_cons left]
      by_cases right : i + 1 < current.length
      · rw [if_pos right, List.getElem?_eq_getElem right, List.drop_eq_getElem_cons right]
        simp only [Option.bind_eq_bind, Option.bind_some, ih remaining, layer, pairs, List.map_cons,
          List.append_assoc, List.singleton_append, node]
      · rw [if_neg right, List.drop_eq_nil_of_le (show current.length ≤ i + 1 by omega)]
        simp only [Option.bind_eq_bind, Option.bind_some, ih remaining,
          List.drop_eq_nil_of_le (show current.length ≤ i + 2 by omega), layer, pairs, List.map_cons,
          List.map_nil, List.append_nil, node]
    · rw [if_neg left, List.drop_eq_nil_of_le (by omega)]
      simp [layer, pairs]

theorem outerLoop_eq (B : Blake3) (turns : ℕ) (current : List Bytes32) :
    outerLoop B turns current = reduce (node B) turns current := by
  induction turns generalizing current with
  | zero => rw [outerLoop, reduce]
  | succ turns ih =>
    rw [outerLoop, reduce, innerLoop_eq B current (by omega), List.nil_append, List.drop_zero]
    simp only [Option.bind_eq_bind, Option.bind_some, ih]

theorem exists_merkleRoot (B : Blake3) {leaves : List Bytes32} (nonempty : leaves ≠ []) :
    ∃ root, reduce (node B) leaves.length leaves = some [root] ∧
      ∀ turns, leaves.length ≤ turns → merkleRoot B turns leaves = some root := by
  obtain ⟨root, reached⟩ := exists_reduce (node B) nonempty
  refine ⟨root, reached _ le_rfl, fun turns enough => ?_⟩
  rw [merkleRoot, if_neg (by simpa using nonempty), outerLoop_eq, reached turns enough]
  rfl

theorem node_injOn {B : Blake3} {leaves leaves' : List Bytes32}
    (injective : Set.InjOn B.hash {x | x ∈ nodeInputs B leaves ∨ x ∈ nodeInputs B leaves'}) :
    Set.InjOn (node B) {p | p ∈ inputs (node B) leaves.length leaves ∨
      p ∈ inputs (node B) leaves'.length leaves'} := by
  intro p occursP q occursQ same
  apply combined_injective
  exact injective (occursP.imp (List.mem_map_of_mem ·) (List.mem_map_of_mem ·))
    (occursQ.imp (List.mem_map_of_mem ·) (List.mem_map_of_mem ·)) same

/-- The Merkle root of every list is reached, and lists of one length, not empty, that have the same
root are equal, if no two different inputs of the inner nodes have one hash. -/
theorem merkleRoot_binding (B : Blake3) :
    (∀ leaves, ∃ root, ∀ turns, leaves.length ≤ turns → merkleRoot B turns leaves = some root) ∧
      ∀ leaves leaves' : List Bytes32, leaves ≠ [] → leaves' ≠ [] → leaves.length = leaves'.length →
        Set.InjOn B.hash {x | x ∈ nodeInputs B leaves ∨ x ∈ nodeInputs B leaves'} →
        ∀ turns, leaves.length ≤ turns →
          merkleRoot B turns leaves = merkleRoot B turns leaves' → leaves = leaves' := by
  refine ⟨fun leaves => ?_, ?_⟩
  · by_cases empty : leaves = []
    · subst empty
      exact ⟨Bytes32.fill 0, fun turns _ => rfl⟩
    · obtain ⟨root, -, reached⟩ := exists_merkleRoot B empty
      exact ⟨root, reached⟩
  · intro leaves leaves' nonempty nonempty' lengths injective turns enough same
    obtain ⟨root, reduced, reached⟩ := exists_merkleRoot B nonempty
    obtain ⟨root', reduced', reached'⟩ := exists_merkleRoot B nonempty'
    rw [reached turns enough, reached' turns (lengths ▸ enough)] at same
    cases same
    have apart := node_injOn injective
    rw [← lengths] at apart reduced'
    refine reduce_injective (node B) lengths apart ?_ (reduced.trans reduced'.symm)
    rw [reduced]
    rfl

def interleaving : Blake3 :=
  ⟨fun data => leading ((data.zip (data.drop 32)).flatMap fun bytes => [bytes.1, bytes.2]), fun _ _ => 0⟩

theorem merkleRoot_binding_three :
    merkleRoot interleaving 3 [Bytes32.fill 1, Bytes32.fill 2, Bytes32.fill 3] ≠
      merkleRoot interleaving 3 [Bytes32.fill 1, Bytes32.fill 2, Bytes32.fill 4] := by
  intro same
  have apart : ∀ x ∈ nodeInputs interleaving [Bytes32.fill 1, Bytes32.fill 2, Bytes32.fill 3] ++
      nodeInputs interleaving [Bytes32.fill 1, Bytes32.fill 2, Bytes32.fill 4],
      ∀ y ∈ nodeInputs interleaving [Bytes32.fill 1, Bytes32.fill 2, Bytes32.fill 3] ++
        nodeInputs interleaving [Bytes32.fill 1, Bytes32.fill 2, Bytes32.fill 4],
      interleaving.hash x = interleaving.hash y → x = y := by decide +kernel
  have equal := (merkleRoot_binding interleaving).2
    [Bytes32.fill 1, Bytes32.fill 2, Bytes32.fill 3] [Bytes32.fill 1, Bytes32.fill 2, Bytes32.fill 4]
    (List.cons_ne_nil _ _) (List.cons_ne_nil _ _) rfl
    (fun x occursX y occursY => apart x (List.mem_append.mpr occursX) y (List.mem_append.mpr occursY))
    3 le_rfl same
  exact absurd equal (by decide)

end Craftec.Crypto.Merkle
