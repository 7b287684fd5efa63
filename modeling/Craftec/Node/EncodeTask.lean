/- GID: Craftec/Node/EncodeTask
   generality: I
   digest: The task that encodes a written object, and whether the scanner then asks for repair. -/

import Mathlib
import Craftec.Health.Repair
import Craftec.Health.Scanner
import Craftec.Health.Tracker
import Craftec.Library.Binary64
import Craftec.Net.Swim
import Craftec.Node.Handler
import Craftec.Obj.Store
import Craftec.Rlnc.Engine
import Craftec.Types.Digest
import Craftec.Types.Piece

set_option autoImplicit false
set_option relaxedAutoImplicit false

namespace Craftec.Node.EncodeTask

open Craftec.Health.Repair (RepairRequest)
open Craftec.Health.Scanner
open Craftec.Health.Tracker (PieceTracker getHolders_recordK getHolders_recordPiece_self)
open Craftec.Library
open Craftec.Net.Swim (peerId)
open Craftec.Node.Handler (PieceHolder updateFirst)
open Craftec.Obj.Store (ObjError)
open Craftec.Rlnc.Encoder (RlncEncoder)
open Craftec.Rlnc.Engine (ceilU32 encode length_of_encode targetN targetN_between targetN_thirtyTwo)
open Craftec.Types.Digest (Bytes Bytes32 Blake3 Cid NodeId someCid)
open Craftec.Types.Piece (CodedPiece)

/-- The index with the set of identifiers that are coded pieces themselves. -/
structure CodedPieceIndex extends Craftec.Node.Handler.CodedPieceIndex where
  pieceCids : Finset Cid

namespace CodedPieceIndex

def new : CodedPieceIndex := ⟨⟨∅⟩, ∅⟩

def insert (index : CodedPieceIndex) (cid : Cid) (pcids : List Cid) : CodedPieceIndex :=
  { index with index := index.index.insert cid pcids }

def markPieceCid (index : CodedPieceIndex) (cid : Cid) : CodedPieceIndex :=
  { index with pieceCids := Insert.insert cid index.pieceCids }

def isPieceCid (index : CodedPieceIndex) (cid : Cid) : Bool := cid ∈ index.pieceCids

end CodedPieceIndex

structure Encoding where
  nodeId : NodeId
  tracker : PieceTracker
  pieceIndex : CodedPieceIndex

/-- What the task meets: the store's answer, the engine and the vectors it draws, the
serialiser, the store's answer to the put of each piece, and the clock. -/
structure EncodeEnv where
  get : Cid → Except ObjError (Option Bytes)
  closed : Bool
  vectors : ℕ → Bytes
  serialise : CodedPiece → Except String Bytes
  put : ℕ → Bytes → Except ObjError Cid
  now : ℕ

variable (B : Blake3)

/-- One turn of the loop over the pieces. A piece that cannot be serialised or stored is
left out; its identifier is marked before the put. -/
def storePiece (env : EncodeEnv) (s : CodedPieceIndex × List Cid) (entry : CodedPiece × ℕ) :
    CodedPieceIndex × List Cid :=
  match env.serialise entry.1 with
  | .error _ => s
  | .ok bytes =>
    let marked := s.1.markPieceCid (Cid.fromData B bytes)
    match env.put entry.2 bytes with
    | .ok pcid => (marked, s.2 ++ [pcid])
    | .error _ => (marked, s.2)

def storePieces (env : EncodeEnv) (index : CodedPieceIndex) (pieces : List CodedPiece) :
    CodedPieceIndex × List Cid :=
  pieces.zipIdx.foldl (storePiece B env) (index, [])

/-- The task spawned for a written object; the node passes 32 for `k`, and computes in doubles. -/
def encodeTask (round : ℚ → ℚ) (k : UInt32) (node : Encoding) (cid : Cid) (env : EncodeEnv) : Encoding :=
  match env.get cid with
  | .ok (some data) =>
    match encode B round env.closed data k.toNat env.vectors with
    | .ok pieces =>
      let stored := storePieces B env node.pieceIndex pieces
      { node with
        tracker := (node.tracker.recordK cid k).recordPiece cid
          ⟨node.nodeId, UInt32.ofNat stored.2.length, env.now⟩
        pieceIndex := stored.1.insert cid stored.2 }
    | .error _ => node
  | _ => node

section Encoded

variable {B} {env : EncodeEnv}

/-- Every piece can be serialised and every put succeeds. -/
structure StoresAll (env : EncodeEnv) : Prop where
  serialises : ∀ piece, ∃ bytes, env.serialise piece = .ok bytes
  puts : ∀ i bytes, ∃ pcid, env.put i bytes = .ok pcid

theorem length_storePieces (all : StoresAll env) (index : CodedPieceIndex)
    (pieces : List CodedPiece) : (storePieces B env index pieces).2.length = pieces.length := by
  have run : ∀ (entries : List (CodedPiece × ℕ)) (s : CodedPieceIndex × List Cid),
      (entries.foldl (storePiece B env) s).2.length = s.2.length + entries.length := by
    intro entries
    induction entries with
    | nil => exact fun s => rfl
    | cons entry rest ih =>
      intro s
      obtain ⟨bytes, serialised⟩ := all.serialises entry.1
      obtain ⟨pcid, stored⟩ := all.puts entry.2 bytes
      rw [List.foldl_cons, ih]
      simp only [storePiece, serialised, stored, List.length_append, List.length_cons,
        List.length_nil]
      omega
  rw [storePieces, run, List.length_zipIdx, List.length_nil, Nat.zero_add]

theorem tracker_encodeTask {round : ℚ → ℚ} {k : UInt32} (pos : 1 ≤ k) {node : Encoding} {cid : Cid} {data : Bytes}
    (noHolders : node.tracker.getHolders cid = []) (noK : node.tracker.getK cid = none)
    (reads : env.get cid = .ok (some data)) (running : env.closed = false) (all : StoresAll env) :
    (encodeTask B round k node cid env).tracker.availableCount cid =
        UInt32.ofNat (targetN round k.toNat) ∧
      (encodeTask B round k node cid env).tracker.getK cid = some k := by
  have nonzero : k.toNat ≠ 0 := Nat.one_le_iff_ne_zero.mp (UInt32.le_iff_toNat_le.mp pos)
  obtain ⟨pieces, encoded⟩ : ∃ pieces, encode B round env.closed data k.toNat env.vectors = .ok pieces := by
    simp [encode, running, RlncEncoder.new, nonzero]
  have count := length_of_encode encoded
  simp only [encodeTask, reads, encoded]
  constructor
  · rw [PieceTracker.availableCount, getHolders_recordPiece_self, getHolders_recordK, noHolders]
    simp only [updateFirst, List.map_cons, List.map_nil, List.sum_cons, List.sum_nil]
    rw [length_storePieces all, count, UInt32.add_zero]
  · simp only [PieceTracker.getK, PieceTracker.recordPiece, PieceTracker.recordK] at noK ⊢
    simp only [noK, Finmap.lookup_insert]

/-- For every `k`, in exact arithmetic and in doubles: a content encoded afresh, with all its pieces
stored, needs no repair if and only if `k` divides sixteen or the scanner's product overflows. -/
theorem encoded_needs_no_repair_iff {round : ℚ → ℚ} (arithmetic : round = id ∨ round = Binary64.rounded)
    {k : UInt32} (pos : 1 ≤ k) {node : Encoding} {cid : Cid}
    {data : Bytes} (noHolders : node.tracker.getHolders cid = [])
    (noK : node.tracker.getK cid = none) (reads : env.get cid = .ok (some data))
    (running : env.closed = false) (all : StoresAll env) :
    evaluateCid (encodeTask B round k node cid env).tracker cid = none ↔
      k.toNat ∣ 16 ∨ 2 ^ 32 ≤ 3 * k.toNat := by
  have known : (encodeTask B round k node cid env).tracker.availableCount cid = _ ∧
      (encodeTask B round k node cid env).tracker.getK cid = some k :=
    tracker_encodeTask pos noHolders noK reads running all
  obtain ⟨available, recorded⟩ := known
  have positive : 1 ≤ k.toNat := UInt32.le_iff_toNat_le.mp pos
  have word := k.toNat_lt
  have fits : (UInt32.ofNat (targetN round k.toNat)).toNat = targetN round k.toNat := by
    rw [UInt32.toNat_ofNat', Nat.mod_eq_of_lt]
    rw [targetN, ceilU32]
    omega
  have enough : ¬ UInt32.ofNat (targetN round k.toNat) < k := by
    have least := (targetN_between arithmetic positive word).1
    rw [UInt32.lt_iff_toNat_lt, fits]
    omega
  rw [← target_le_targetN_iff arithmetic positive]
  simp only [evaluateCid, available, recorded, Option.getD_some, if_neg enough]
  simp only [UInt32.lt_iff_toNat_lt, fits]
  by_cases short : targetN round k.toNat < (targetPieceCount k).toNat
  · rw [if_pos short]
    exact ⟨fun same => (by cases same), fun reached => absurd short (Nat.not_lt.mpr reached)⟩
  · rw [if_neg short]
    exact ⟨fun _ => Nat.not_lt.mp short, fun _ => rfl⟩

/-- A node that has heard of nothing, and a store that takes everything. -/
def fresh : Encoding := ⟨peerId 1, .new, .new⟩

def obliging : EncodeEnv :=
  ⟨fun _ => .ok (some [7]), false, fun _ => [], fun _ => .ok [], fun _ _ => .ok ⟨Bytes32.fill 9⟩, 0⟩

theorem storesAll_obliging : StoresAll obliging := ⟨fun _ => ⟨_, rfl⟩, fun _ _ => ⟨_, rfl⟩⟩

theorem encoded_needs_no_repair_iff_at_sixteen :
    evaluateCid (encodeTask .byLeading Binary64.rounded 16 fresh someCid obliging).tracker someCid = none :=
  (encoded_needs_no_repair_iff (B := .byLeading) (.inr rfl) (by decide) rfl rfl rfl rfl
    storesAll_obliging).mpr (by decide)

/-- The node's own `k`: eighty pieces are made, and the scanner asks for ninety-six. -/
theorem fresh_encoding_reported :
    evaluateCid (encodeTask .byLeading id 32 fresh someCid obliging).tracker someCid =
        some (.normal someCid 80 96) ∧
      evaluateCid (encodeTask .byLeading Binary64.rounded 32 fresh someCid obliging).tracker someCid =
        some (.normal someCid 80 96) := by
  have wanted : targetPieceCount 32 = 96 :=
    UInt32.toNat_inj.mp ((toNat_targetPieceCount (by decide)).trans (by decide))
  have reported (round : ℚ → ℚ) (arithmetic : round = id ∨ round = Binary64.rounded) :
      evaluateCid (encodeTask .byLeading round 32 fresh someCid obliging).tracker someCid =
        some (.normal someCid 80 96) := by
    have known : (encodeTask .byLeading round 32 fresh someCid obliging).tracker.availableCount someCid = _ ∧
        (encodeTask .byLeading round 32 fresh someCid obliging).tracker.getK someCid = some 32 :=
      tracker_encodeTask (by decide) rfl rfl rfl rfl storesAll_obliging
    obtain ⟨available, recorded⟩ := known
    have made : targetN round (32 : UInt32).toNat = 80 := targetN_thirtyTwo arithmetic
    simp only [evaluateCid, available, recorded, made, wanted, Option.getD_some]
    decide
  exact ⟨reported id (.inl rfl), reported Binary64.rounded (.inr rfl)⟩

end Encoded

end Craftec.Node.EncodeTask
