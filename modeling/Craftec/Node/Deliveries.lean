/- GID: Craftec/Node/Deliveries
   generality: I
   digest: Which pieces of a response are handed to which waiters, and when they are all genuine. -/

import Mathlib
import Craftec.Net.Swim
import Craftec.Node.Dispatch
import Craftec.Node.Handler
import Craftec.Sql.Database
import Craftec.Types.Digest
import Craftec.Types.Piece
import Craftec.Types.Wire

set_option autoImplicit false
set_option relaxedAutoImplicit false

namespace Craftec.Node.Deliveries

open Craftec.Net.Swim (peerId)
open Craftec.Node.Dispatch (somePackages stocked twoNodes)
open Craftec.Node.Handler
open Craftec.Sql.Database (Libsql pageEngine)
open Craftec.Types.Digest (Bytes Bytes32 Blake3 Cid NodeId someCid)
open Craftec.Types.Piece (CodedPiece)
open Craftec.Types.Wire (WireMessage)

/-- A piece handed to a waiter that registered for `cid`. -/
structure Delivery where
  cid : Cid
  waiter : ℕ
  piece : CodedPiece
  deriving DecidableEq

def Delivery.sending (d : Delivery) : ℕ × CodedPiece := (d.waiter, d.piece)

/-- What `resolve` hands over. -/
def deliveries (pending : PendingFetches) (isClosed : ℕ → Bool) (cid : Cid) (piece : CodedPiece) :
    List Delivery :=
  (pending.listening isClosed cid).map fun entry => ⟨cid, entry.waiter, piece⟩

/-- What the handler's loop over the pieces of a response hands over. -/
def handOvers (pending : PendingFetches) (isClosed : ℕ → Bool) : List CodedPiece → List Delivery
  | [] => []
  | piece :: rest =>
    deliveries pending isClosed piece.cid piece ++
      handOvers (pending.resolve isClosed piece.cid piece) isClosed rest

section Sending

variable (pending : PendingFetches) (isClosed : ℕ → Bool)

theorem sent_resolve_eq (cid : Cid) (piece : CodedPiece) :
    (pending.resolve isClosed cid piece).sent =
      pending.sent ++ (deliveries pending isClosed cid piece).map Delivery.sending := by
  unfold PendingFetches.resolve deliveries PendingFetches.listening PendingFetches.waiting
  cases pending.waiters.lookup cid with
  | none => simp
  | some entries =>
    rw [Option.getD_some, List.map_map]
    rfl

theorem sent_resolveAll_eq (pieces : List CodedPiece) :
    (pending.resolveAll isClosed pieces).sent =
      pending.sent ++ (handOvers pending isClosed pieces).map Delivery.sending := by
  induction pieces generalizing pending with
  | nil => exact (List.append_nil _).symm
  | cons piece rest ih =>
    have later := ih (pending.resolve isClosed piece.cid piece)
    rw [sent_resolve_eq] at later
    rw [handOvers, List.map_append, ← List.append_assoc]
    exact later

theorem listening_resolve_self (cid : Cid) (piece : CodedPiece) :
    (pending.resolve isClosed cid piece).listening isClosed cid = [] := by
  have gone : (pending.resolve isClosed cid piece).waiting cid = [] := by
    unfold PendingFetches.resolve
    cases found : pending.waiters.lookup cid with
    | none => simp only [PendingFetches.waiting, found, Option.getD_none]
    | some entries => simp only [PendingFetches.waiting, Finmap.lookup_erase, Option.getD_none]
  rw [PendingFetches.listening, gone, List.filter_nil]

theorem mem_deliveries {cid : Cid} {piece : CodedPiece} {d : Delivery} :
    d ∈ deliveries pending isClosed cid piece ↔
      (∃ entry ∈ pending.listening isClosed d.cid, entry.waiter = d.waiter) ∧
        d.cid = cid ∧ d.piece = piece := by
  constructor
  · intro listed
    obtain ⟨entry, waits, rfl⟩ := List.mem_map.mp listed
    exact ⟨⟨entry, waits, rfl⟩, rfl, rfl⟩
  · rintro ⟨⟨entry, waits, same⟩, rfl, rfl⟩
    refine List.mem_map.mpr ⟨entry, waits, ?_⟩
    rw [same]

theorem mem_handOvers {pieces : List CodedPiece} {d : Delivery} :
    d ∈ handOvers pending isClosed pieces ↔
      (∃ entry ∈ pending.listening isClosed d.cid, entry.waiter = d.waiter) ∧
        pieces.find? (fun piece => piece.cid = d.cid) = some d.piece := by
  induction pieces generalizing pending with
  | nil =>
    constructor
    · intro listed
      cases listed
    · rintro ⟨-, found⟩
      cases found
  | cons piece rest ih =>
    rw [handOvers, List.mem_append, mem_deliveries, ih]
    by_cases own : piece.cid = d.cid
    · -- the waiters are gone after the first piece
      rw [own, listening_resolve_self, List.find?_cons_of_pos (by simpa using own)]
      constructor
      · rintro (⟨waits, -, rfl⟩ | ⟨⟨entry, none, -⟩, -⟩)
        · exact ⟨waits, rfl⟩
        · cases none
      · rintro ⟨waits, same⟩
        exact .inl ⟨waits, rfl, (Option.some.inj same).symm⟩
    · rw [listening_resolve_of_ne (Ne.symm own),
        List.find?_cons_of_neg (by simpa using own)]
      constructor
      · rintro (⟨-, same, -⟩ | later)
        · exact absurd same.symm own
        · exact later
      · exact .inr

end Sending

section Genuine

variable (B : Blake3) {Db : Type} (L : Libsql Db) (X : Packages)

/-- The piece is for the content waited for, under its own identifier and tag. -/
def Delivery.Genuine (d : Delivery) : Prop :=
  d.piece.cid = d.cid ∧ d.piece.verifyPieceId B = true ∧ d.piece.verifyMac B = true

/-- For every content somebody still listens for, the first piece of the response that names it
passes both checks. -/
def FirstPiecesVerify (pending : PendingFetches) (isClosed : ℕ → Bool) (pieces : List CodedPiece) : Prop :=
  ∀ cid, pending.listening isClosed cid ≠ [] → ∀ piece,
    pieces.find? (fun piece => piece.cid = cid) = some piece →
      piece.verifyPieceId B = true ∧ piece.verifyMac B = true

/-- For every handler state and every response: the sends made while it is handled are
the hand-overs, and each of these is genuine exactly when the first piece for every
content listened for passes both checks. -/
theorem delivered_genuine_iff (h : NodeMessageHandler Db) (fromNode : NodeId)
    (pieces : List CodedPiece) (requestId : UInt64) (env : Surroundings) :
    (handleMessage B L X h fromNode (.pieceResponse pieces requestId) env).1.pending.sent =
        h.pending.sent ++ (handOvers h.pending env.isClosed pieces).map Delivery.sending ∧
      ((∀ d ∈ handOvers h.pending env.isClosed pieces, d.Genuine B) ↔
        FirstPiecesVerify B h.pending env.isClosed pieces) := by
  refine ⟨sent_resolveAll_eq h.pending env.isClosed pieces, ?_⟩
  constructor
  · intro genuine cid waited piece first
    obtain ⟨entry, waits⟩ := List.exists_mem_of_ne_nil _ waited
    have handed : (⟨cid, entry.waiter, piece⟩ : Delivery) ∈ handOvers h.pending env.isClosed pieces :=
      (mem_handOvers h.pending env.isClosed).mpr ⟨⟨entry, waits, rfl⟩, first⟩
    exact (genuine _ handed).2
  · intro verify d handed
    obtain ⟨⟨entry, waits, -⟩, first⟩ := (mem_handOvers h.pending env.isClosed).mp handed
    have own : d.piece.cid = d.cid := by simpa using List.find?_some first
    exact ⟨own, verify d.cid (List.ne_nil_of_mem waits) d.piece first⟩

def forged : CodedPiece := ⟨⟨Bytes32.fill 6⟩, someCid, [1], [42], Bytes32.fill 7⟩

/-- Peer 1 waits for a content and is handed the forged piece. -/
theorem forged_piece_delivered :
    (handleMessage .byLeading pageEngine somePackages (twoNodes (peerId 1)).handler (peerId 2)
        (.pieceResponse [forged] 7) stocked).1.pending.sent = [(0, forged)] ∧
      (⟨someCid, 0, forged⟩ : Delivery) ∈ handOvers (twoNodes (peerId 1)).handler.pending stocked.isClosed
        [forged] ∧
      forged.verifyPieceId .byLeading = false ∧ forged.verifyMac .byLeading = false := by
  refine ⟨by decide, by decide, by decide, ?_⟩
  decide

end Genuine

end Craftec.Node.Deliveries
