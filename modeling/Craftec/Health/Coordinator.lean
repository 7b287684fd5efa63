/- GID: Craftec/Health/Coordinator
   generality: I
   digest: The ranking of repair candidates, which no order of the candidates changes. -/

import Mathlib
import Craftec.Library.SortBy
import Craftec.Types.Digest

set_option autoImplicit false
set_option relaxedAutoImplicit false

namespace Craftec.Health.Coordinator

open Craftec.Library.SortBy
open Craftec.Types.Digest (Bytes NodeId)
open Std (LawfulEqCmp TransCmp)

/-- A 64-bit float as far as comparisons go: a finite value or an infinity, with one
zero, or not a number. -/
inductive F64 where
  | nan
  | num (value : WithBot (WithTop ℚ))
  deriving DecidableEq

def F64.partialCmp : F64 → F64 → Option Ordering
  | .num a, .num b => some (compare a b)
  | _, _ => none

structure NodeRanking where
  nodeId : NodeId
  uptimeSecs : UInt64
  reputationScore : F64
  deriving DecidableEq

def compareRankings (a b : NodeRanking) : Ordering :=
  (compare b.uptimeSecs a.uptimeSecs).then
    (((b.reputationScore.partialCmp a.reputationScore).getD .eq).then
      (compare a.nodeId.key.bytes b.nodeId.key.bytes))

def selectCoordinator (providers : List NodeRanking) : Option NodeId :=
  (minBy compareRankings providers).map NodeRanking.nodeId

def rankProviders (providers : List NodeRanking) : List NodeId :=
  (sortBy compareRankings providers).map NodeRanking.nodeId

abbrev Key := UInt64 × WithBot (WithTop ℚ) × NodeId

def compareKeys : Key → Key → Ordering :=
  compareLex (fun a b => compare b.1 a.1)
    (compareLex (fun a b => compare b.2.1 a.2.1) (compareOn fun a => a.2.2.key.bytes))

instance : TransCmp fun a b : Key => compare b.1 a.1 :=
  (TransCmp.opposite : TransCmp fun a b : Key => compareOn Prod.fst b a)

instance : TransCmp fun a b : Key => compare b.2.1 a.2.1 :=
  (TransCmp.opposite : TransCmp fun a b : Key => compareOn (fun c : Key => c.2.1) b a)

instance : TransCmp compareKeys :=
  inferInstanceAs (TransCmp (compareLex _ (compareLex _ (compareOn fun a : Key => a.2.2.key.bytes))))

instance : LawfulEqCmp compareKeys where
  compare_self := by simp [compareKeys, compareLex, compareOn]
  eq_of_compare := by
    rintro ⟨uptime, reputation, node⟩ ⟨uptime', reputation', node'⟩ same
    simp only [compareKeys, compareLex, compareOn, Ordering.then_eq_eq,
      LawfulEqCmp.compare_eq_iff_eq] at same
    obtain ⟨rfl, rfl, bytes⟩ := same
    rw [NodeId.asBytes_injective bytes]

def NodeRanking.Rated (r : NodeRanking) : Prop := r.reputationScore ≠ .nan

def F64.value : F64 → WithBot (WithTop ℚ)
  | .num value => value
  | .nan => ⊥

def NodeRanking.rank (r : NodeRanking) : Key := (r.uptimeSecs, r.reputationScore.value, r.nodeId)

theorem compareRankings_eq {a b : NodeRanking} (ra : a.Rated) (rb : b.Rated) :
    compareRankings a b = compareKeys a.rank b.rank := by
  obtain ⟨node, uptime, reputation⟩ := a
  obtain ⟨node', uptime', reputation'⟩ := b
  cases reputation with
  | nan => exact absurd rfl ra
  | num value =>
    cases reputation' with
    | nan => exact absurd rfl rb
    | num value' => rfl

theorem follows_rank {providers : List NodeRanking} (rated : ∀ r ∈ providers, r.Rated) :
    Follows compareRankings compareKeys NodeRanking.rank providers :=
  fun a ha b hb => compareRankings_eq (rated a ha) (rated b hb)

theorem rankProviders_eq {providers : List NodeRanking} (rated : ∀ r ∈ providers, r.Rated) :
    rankProviders providers =
      (sortBy compareKeys (providers.map NodeRanking.rank)).map fun key => key.2.2 := by
  rw [← map_sortBy (follows_rank rated), List.map_map]
  rfl

theorem rankProviders_eq_of_perm {providers others : List NodeRanking}
    (rated : ∀ r ∈ providers, r.Rated) (perm : providers.Perm others) :
    rankProviders providers = rankProviders others := by
  rw [rankProviders_eq rated, rankProviders_eq fun r hr => rated r (perm.mem_iff.mpr hr),
    sortBy_eq_of_perm compareKeys (perm.map NodeRanking.rank)]

theorem selectCoordinator_eq_head? {providers : List NodeRanking}
    (rated : ∀ r ∈ providers, r.Rated) :
    selectCoordinator providers = (rankProviders providers).head? := by
  have least := map_minBy (follows_rank rated)
  rw [minBy_eq_head? compareKeys] at least
  rw [rankProviders_eq rated, List.head?_map, ← least, Option.map_map]
  rfl

theorem rankProviders_perm (providers : List NodeRanking) :
    (rankProviders providers).Perm (providers.map NodeRanking.nodeId) :=
  (List.mergeSort_perm providers _).map NodeRanking.nodeId

end Craftec.Health.Coordinator
