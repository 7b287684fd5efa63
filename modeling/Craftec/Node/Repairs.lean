/- GID: Craftec/Node/Repairs
   generality: I
   digest: What becomes of a repaired piece at the node it is sent to. -/

import Mathlib
import Craftec.Health.Coordinator
import Craftec.Health.Election
import Craftec.Health.Repair
import Craftec.Library.SortBy
import Craftec.Net.Swim
import Craftec.Node.Deliveries
import Craftec.Node.Dispatch
import Craftec.Node.Handler
import Craftec.Sql.Database
import Craftec.Types.Digest
import Craftec.Types.Piece
import Craftec.Types.Wire

set_option autoImplicit false
set_option relaxedAutoImplicit false

namespace Craftec.Node.Repairs

open Craftec.Health.Coordinator (rankProviders)
open Craftec.Health.Election (heardOf knowing onePieceShort)
open Craftec.Health.Repair
open Craftec.Net.Swim (SwimMembership peerId)
open Craftec.Node.Deliveries
open Craftec.Node.Dispatch (somePackages somePiece stocked twoNodes)
open Craftec.Node.Handler
open Craftec.Sql.Database (Libsql pageEngine)
open Craftec.Types.Digest (Bytes32 Blake3 Cid NodeId someCid)
open Craftec.Types.Piece (CodedPiece)
open Craftec.Types.Wire (WireMessage)

section Held

variable {B : Blake3} {Db : Type} {L : Libsql Db} {X : Packages}

/-- Between the two states the piece was sent to a registered waiter. -/
def HandedOver (before after : PendingFetches) (piece : CodedPiece) : Prop :=
  ∃ fresh waiter, after.sent = before.sent ++ fresh ∧ (waiter, piece) ∈ fresh

/-- The piece is stored, and listed among the coded pieces of the content. -/
def Stored (X : Packages) (h : NodeMessageHandler Db) (env : Surroundings) (cid : Cid)
    (piece : CodedPiece) : Prop :=
  piece ∈ storedPieces X env ((h.pieceIndex.get cid).getD [])

theorem handedOver_iff (pending : PendingFetches) (isClosed : ℕ → Bool) (piece : CodedPiece) :
    HandedOver pending (pending.resolveAll isClosed [piece]) piece ↔
      pending.listening isClosed piece.cid ≠ [] := by
  have sends : (pending.resolveAll isClosed [piece]).sent = pending.sent ++
      (deliveries pending isClosed piece.cid piece).map Delivery.sending := sent_resolve_eq pending _ _ _
  constructor
  · rintro ⟨fresh, waiter, grown, listed⟩ nobody
    rw [sends] at grown
    rw [← List.append_cancel_left grown, deliveries, nobody] at listed
    cases listed
  · intro waited
    obtain ⟨entry, waits⟩ := List.exists_mem_of_ne_nil _ waited
    refine ⟨_, entry.waiter, sends, List.mem_map.mpr ⟨⟨piece.cid, entry.waiter, piece⟩, ?_, rfl⟩⟩
    exact List.mem_map.mpr ⟨entry, waits, rfl⟩

/-- For every pair of nodes: when a repair has sent its piece and the target's handler has
handled the message, the target holds the piece if and only if somebody there waited for
its content and had not dropped its receiver, or the same piece was stored and listed there before. -/
theorem repaired_piece_held_iff {x later : RepairExecutor} {request : RepairRequest}
    {env : RepairEnv} {target : NodeId} {msg : WireMessage}
    (sent : x.executeRepair B request env = (later, .ok (.sent target msg)))
    (h : NodeMessageHandler Db) (around : Surroundings) :
    ∃ piece, msg = .pieceResponse [piece] x.nextRequestId ∧
      ((HandedOver h.pending (handleMessage B L X h x.nodeId msg around).1.pending piece ∨
          Stored X (handleMessage B L X h x.nodeId msg around).1 around request.cid piece) ↔
        h.pending.listening around.isClosed piece.cid ≠ [] ∨ Stored X h around request.cid piece) := by
  obtain ⟨pieces, piece, -, -, rfl⟩ := sent_of_executeRepair sent
  refine ⟨piece, rfl, ?_⟩
  exact or_congr (handedOver_iff h.pending around.isClosed piece) Iff.rfl

end Held

section Lost

def repairer : RepairExecutor :=
  { (knowing (peerId 1) (peerId 2) [peerId 1]).executor with
    pieceLookup := fun _ => some [⟨Bytes32.fill 6⟩, ⟨Bytes32.fill 7⟩] }

def meets : RepairEnv :=
  ⟨[peerId 2], fun _ => .ok (some [9]), fun _ => some somePiece, false, [1, 1], repairer.tracker,
    repairer.swim, [peerId 2], 0, .ok ()⟩

theorem repairer_elected : FindsItselfElected repairer meets.order onePieceShort := by
  have ranked : rankProviders (repairer.rankings meets.order onePieceShort.cid) = [peerId 1] := by
    have only : repairer.rankings meets.order onePieceShort.cid =
        [RepairExecutor.placeholder (peerId 1)] := rfl
    rw [only, rankProviders, Craftec.Library.SortBy.sortBy, List.mergeSort_singleton]
    rfl
  rw [findsItselfElected_iff, RepairExecutor.electedNodes, ranked]
  decide

theorem repairer_sends : ∃ later piece, repairer.executeRepair .byLeading onePieceShort meets =
    (later, .ok (.sent (peerId 2) (.pieceResponse [piece] 0))) ∧ piece.cid = someCid := by
  rw [executeRepair_of_elected repairer_elected]
  exact ⟨_, _, rfl, rfl⟩

theorem repaired_piece_held_iff_waited : ∃ later piece,
    repairer.executeRepair .byLeading onePieceShort meets =
        (later, .ok (.sent (peerId 2) (.pieceResponse [piece] 0))) ∧
      (HandedOver (twoNodes (peerId 1)).handler.pending
          (handleMessage .byLeading pageEngine somePackages (twoNodes (peerId 1)).handler (peerId 1)
            (.pieceResponse [piece] 0) stocked).1.pending piece ∨
        Stored somePackages
          (handleMessage .byLeading pageEngine somePackages (twoNodes (peerId 1)).handler (peerId 1)
            (.pieceResponse [piece] 0) stocked).1 stocked someCid piece) := by
  obtain ⟨later, made, sent, own⟩ := repairer_sends
  obtain ⟨piece, same, held⟩ := repaired_piece_held_iff (L := pageEngine) (X := somePackages) sent
    (twoNodes (peerId 1)).handler stocked
  cases same
  refine ⟨later, made, sent, held.mpr (.inl ?_)⟩
  rw [own]
  decide

def bare : NodeMessageHandler ℕ := { (twoNodes (peerId 2)).handler with pieceIndex := ⟨∅⟩ }

/-- The piece that a repair sent with success is dropped by its target. -/
theorem repaired_piece_lost : ∃ later piece,
    repairer.executeRepair .byLeading onePieceShort meets =
        (later, .ok (.sent (peerId 2) (.pieceResponse [piece] 0))) ∧
      ¬ HandedOver bare.pending (handleMessage .byLeading pageEngine somePackages bare (peerId 1)
          (.pieceResponse [piece] 0) stocked).1.pending piece ∧
      ¬ Stored somePackages (handleMessage .byLeading pageEngine somePackages bare (peerId 1)
          (.pieceResponse [piece] 0) stocked).1 stocked someCid piece := by
  obtain ⟨later, piece, sent, own⟩ := repairer_sends
  refine ⟨later, piece, sent, ?_, ?_⟩
  · intro handed
    refine (handedOver_iff bare.pending stocked.isClosed piece).mp handed ?_
    rw [own]
    decide
  · intro stored
    have none : piece ∈ ([] : List CodedPiece) := stored
    cases none

end Lost

end Craftec.Node.Repairs
