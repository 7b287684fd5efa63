/- GID: Craftec/Health/Election
   generality: I
   digest: Nodes that share the holder records of a content elect the same repairers. -/

import Mathlib
import Craftec.Health.Coordinator
import Craftec.Health.Repair
import Craftec.Health.Tracker
import Craftec.Net.Swim
import Craftec.Types.Digest

set_option autoImplicit false
set_option relaxedAutoImplicit false

namespace Craftec.Health.Election

open Craftec.Health.Coordinator
open Craftec.Health.Repair
open Craftec.Health.Repair.RepairExecutor (placeholder)
open Craftec.Health.Tracker (PieceTracker Recorded localPieceCount_of_mem)
open Craftec.Net.Swim (SwimMembership peerId)
open Craftec.Node.Handler (PieceHolder)
open Craftec.Types.Digest (Bytes32 Cid NodeId someCid)

/-- A node as an elector: its executor, and the order in which it sees its members. -/
structure Elector where
  executor : RepairExecutor
  order : List NodeId

/-- The elector has come to these records for the content, in some order, and sees
every other holder alive. -/
structure Shares (records : List (NodeId × UInt32)) (cid : Cid) (e : Elector) : Prop where
  recorded : Recorded e.executor.tracker
  same : (e.executor.tracker.holdersWithCount cid).Perm records
  alive : ∀ h ∈ records, h.1 ≠ e.executor.nodeId → h.1 ∈ e.executor.swim.aliveMembers e.order

def eligible (records : List (NodeId × UInt32)) : List NodeId :=
  (records.filter fun h => 2 ≤ h.2).map Prod.fst

def elect (records : List (NodeId × UInt32)) (deficit : ℕ) : List NodeId :=
  (rankProviders ((eligible records).map placeholder)).take deficit

section Agreement

variable {records : List (NodeId × UInt32)} {cid : Cid} {e : Elector}

theorem rated_placeholders (nodes : List NodeId) : ∀ r ∈ nodes.map placeholder, r.Rated := by
  intro r listed
  obtain ⟨node, -, rfl⟩ := List.mem_map.mp listed
  intro same
  cases same

theorem map_nodeId_placeholder (nodes : List NodeId) :
    (nodes.map placeholder).map NodeRanking.nodeId = nodes := by
  rw [List.map_map]
  exact List.map_id nodes

theorem Shares.nodup (shares : Shares records cid e) : (records.map Prod.fst).Nodup := by
  have nodes : (e.executor.tracker.holdersWithCount cid).map Prod.fst =
      (e.executor.tracker.getHolders cid).map PieceHolder.nodeId := by
    rw [PieceTracker.holdersWithCount, List.map_map]
    rfl
  rw [← (shares.same.map Prod.fst).nodup_iff, nodes]
  exact shares.recorded.nodup cid

theorem Shares.rankings (shares : Shares records cid e) :
    (e.executor.rankings e.order cid).Perm ((eligible records).map placeholder) := by
  have once := shares.recorded.nodup cid
  -- the count looked up for a holder is that of its record
  have counted : (e.executor.tracker.getHolders cid).filter
        (fun h => 2 ≤ e.executor.tracker.localPieceCount cid h.nodeId) =
      (e.executor.tracker.getHolders cid).filter fun h => 2 ≤ h.pieceCount := by
    apply List.filter_congr
    intro h listed
    rw [localPieceCount_of_mem once listed]
  -- nobody falls to the liveness test, the elector itself being exempt from it
  have present : ((e.executor.tracker.getHolders cid).filter fun h => 2 ≤ h.pieceCount).filter
        (fun h => h.nodeId ∈ e.executor.swim.aliveMembers e.order ∨ h.nodeId = e.executor.nodeId) =
      (e.executor.tracker.getHolders cid).filter fun h => 2 ≤ h.pieceCount := by
    apply List.filter_eq_self.mpr
    intro h listed
    rw [decide_eq_true_iff]
    have held : (h.nodeId, h.pieceCount) ∈ records :=
      shares.same.mem_iff.mp (List.mem_map.mpr ⟨h, (List.mem_filter.mp listed).1, rfl⟩)
    by_cases own : h.nodeId = e.executor.nodeId
    · exact .inr own
    · exact .inl (shares.alive _ held own)
  have listed : (eligible records).map placeholder =
      (records.filter fun h => 2 ≤ h.2).map fun h => placeholder h.1 := List.map_map
  rw [RepairExecutor.rankings, counted, present, listed]
  refine .trans (.of_eq ?_) ((shares.same.filter _).map fun h => placeholder h.1)
  rw [PieceTracker.holdersWithCount, List.filter_map, List.map_map]
  rfl

theorem Shares.electedNodes {request : RepairRequest} (shares : Shares records request.cid e) :
    e.executor.electedNodes e.order request = elect records request.deficit := by
  have ranked : rankProviders (e.executor.rankings e.order request.cid) =
      rankProviders ((eligible records).map placeholder) :=
    (rankProviders_eq_of_perm (rated_placeholders _) shares.rankings.symm).symm
  rw [RepairExecutor.electedNodes, elect, ranked, Nat.min_comm]
  exact List.take_eq_take_min.symm

theorem elect_perm (records : List (NodeId × UInt32)) :
    (rankProviders ((eligible records).map placeholder)).Perm (eligible records) := by
  have perm := rankProviders_perm ((eligible records).map placeholder)
  rwa [map_nodeId_placeholder] at perm

theorem length_elect (records : List (NodeId × UInt32)) (deficit : ℕ) :
    (elect records deficit).length = min deficit (records.filter fun h => 2 ≤ h.2).length := by
  rw [elect, List.length_take, (elect_perm records).length_eq, eligible, List.length_map]

theorem mem_eligible_of_elect {deficit : ℕ} {node : NodeId} (listed : node ∈ elect records deficit) :
    node ∈ eligible records :=
  (elect_perm records).mem_iff.mp (List.mem_of_mem_take listed)

theorem nodup_elect (once : (records.map Prod.fst).Nodup) (deficit : ℕ) :
    (elect records deficit).Nodup := by
  have distinct : (eligible records).Nodup :=
    once.sublist (List.filter_sublist.map Prod.fst)
  exact ((elect_perm records).nodup_iff.mpr distinct).sublist (List.take_sublist _ _)

end Agreement

instance (x : RepairExecutor) (order : List NodeId) (request : RepairRequest) :
    Decidable (FindsItselfElected x order request) :=
  decidable_of_iff _ (findsItselfElected_iff x order request).symm

/-- The nodes of a set that find themselves elected. -/
def electedOf (nodes : Finset NodeId) (view : NodeId → Elector) (request : RepairRequest) :
    Finset NodeId :=
  nodes.filter fun node => FindsItselfElected (view node).executor (view node).order request

/-- The nodes of a set are electors that share the records. -/
def AllShare (nodes : Finset NodeId) (view : NodeId → Elector) (records : List (NodeId × UInt32))
    (cid : Cid) : Prop :=
  ∀ node ∈ nodes, (view node).executor.nodeId = node ∧ Shares records cid (view node)

theorem electedOf_eq {nodes : Finset NodeId} {view : NodeId → Elector}
    {records : List (NodeId × UInt32)} {request : RepairRequest}
    (share : AllShare nodes view records request.cid) :
    electedOf nodes view request = nodes ∩ (elect records request.deficit).toFinset := by
  ext node
  rw [electedOf, Finset.mem_filter, Finset.mem_inter, List.mem_toFinset]
  refine and_congr_right ?_
  intro listed
  obtain ⟨own, shares⟩ := share node listed
  rw [findsItselfElected_iff, shares.electedNodes, own]

/-- For every content, request and set of nodes that share the holder records, see all
other holders alive and include the holders of at least two pieces: the number of nodes
that find themselves elected is the deficit, or the number of those holders if that is
less. Ranking does not depend on the order of its input, and the coordinator selected
heads the ranking. -/
theorem election_agreement :
    (∀ (request : RepairRequest) (records : List (NodeId × UInt32)) (nodes : Finset NodeId)
        (view : NodeId → Elector), AllShare nodes view records request.cid →
        (∀ h ∈ records, 2 ≤ h.2 → h.1 ∈ nodes) →
          (electedOf nodes view request).card =
            min request.deficit (records.filter fun h => 2 ≤ h.2).length) ∧
      ∀ providers others : List NodeRanking, (∀ r ∈ providers, r.Rated) → providers.Perm others →
        rankProviders providers = rankProviders others ∧
          selectCoordinator providers = (rankProviders providers).head? := by
  refine ⟨?_, ?_⟩
  · intro request records nodes view share contains
    have within : (elect records request.deficit).toFinset ⊆ nodes := by
      intro node elected
      obtain ⟨h, held, rfl⟩ := List.mem_map.mp (mem_eligible_of_elect (List.mem_toFinset.mp elected))
      obtain ⟨listed, enough⟩ := List.mem_filter.mp held
      exact contains h listed (decide_eq_true_iff.mp enough)
    have count : (elect records request.deficit).toFinset.card =
        (elect records request.deficit).length := by
      rcases nodes.eq_empty_or_nonempty with rfl | ⟨node, listed⟩
      · -- without nodes there is nobody to elect
        have nobody : (elect records request.deficit).toFinset = ∅ := Finset.subset_empty.mp within
        rw [nobody, (List.toFinset_eq_empty_iff _).mp nobody]
        rfl
      · exact List.toFinset_card_of_nodup (nodup_elect (share node listed).2.nodup _)
    rw [electedOf_eq share, Finset.inter_eq_right.mpr within, count, length_elect]
  · intro providers others rated perm
    exact ⟨rankProviders_eq_of_perm rated perm, selectCoordinator_eq_head? rated⟩

section Two

/-- A tracker that has heard of two pieces at each of these nodes, in this order. -/
def heardOf (nodes : List NodeId) : PieceTracker :=
  nodes.foldl (fun tracker node => tracker.recordPiece someCid ⟨node, 2, 0⟩) .new

theorem recorded_heardOf (nodes : List NodeId) : Recorded (heardOf nodes) := by
  have run : ∀ tracker, Recorded tracker →
      Recorded (nodes.foldl (fun tracker node => tracker.recordPiece someCid ⟨node, 2, 0⟩) tracker) := by
    induction nodes with
    | nil => exact fun tracker recorded => recorded
    | cons node rest ih => exact fun tracker recorded => ih _ (recorded.recordPiece someCid ⟨node, 2, 0⟩)
  exact run _ .new

def knowing (node peer : NodeId) (holders : List NodeId) : Elector :=
  ⟨⟨heardOf holders, (SwimMembership.new node).markAlive peer 0, fun _ => none, node, 0⟩, [peer]⟩

def pair (node : NodeId) : Elector :=
  if node = peerId 1 then knowing (peerId 1) (peerId 2) [peerId 1, peerId 2]
  else knowing (peerId 2) (peerId 1) [peerId 2, peerId 1]

def onePieceShort : RepairRequest := .normal someCid 4 5

theorem election_agreement_of_pair :
    (electedOf {peerId 1, peerId 2} pair onePieceShort).card = 1 := by
  refine (election_agreement.1 onePieceShort [(peerId 1, 2), (peerId 2, 2)] {peerId 1, peerId 2} pair
    ?_ (by decide)).trans (by decide)
  intro node listed
  rcases Finset.mem_insert.mp listed with rfl | listed
  · exact ⟨rfl, recorded_heardOf _, by decide, by decide⟩
  · rw [Finset.mem_singleton.mp listed]
    exact ⟨rfl, recorded_heardOf _, by decide, by decide⟩

/-- A set of one node that holds nothing shares the record of the one holder; none of
the set is elected. -/
theorem bystander_not_elected :
    AllShare {peerId 2} (fun _ => knowing (peerId 2) (peerId 1) [peerId 1]) [(peerId 1, 2)]
        onePieceShort.cid ∧
      (electedOf {peerId 2} (fun _ => knowing (peerId 2) (peerId 1) [peerId 1]) onePieceShort).card ≠
        min onePieceShort.deficit ([(peerId 1, (2 : UInt32))].filter fun h => 2 ≤ h.2).length := by
  have share : AllShare {peerId 2} (fun _ => knowing (peerId 2) (peerId 1) [peerId 1])
      [(peerId 1, 2)] onePieceShort.cid := by
    intro node listed
    rw [Finset.mem_singleton.mp listed]
    exact ⟨rfl, recorded_heardOf _, by decide, by decide⟩
  refine ⟨share, ?_⟩
  have nobody : electedOf {peerId 2} (fun _ => knowing (peerId 2) (peerId 1) [peerId 1])
      onePieceShort = ∅ := by
    rw [electedOf_eq share, Finset.singleton_inter_of_notMem]
    intro listed
    have eligible := mem_eligible_of_elect (List.mem_toFinset.mp listed)
    revert eligible
    decide
  rw [nobody]
  decide

end Two

end Craftec.Health.Election
