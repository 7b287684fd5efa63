/- GID: Craftec/Crypto/HomMac
   generality: I
   digest: Inner-product tags over a keyed output stream, and their linear combination. -/

import Craftec.Library.Chunks
import Craftec.Types.Piece

set_option autoImplicit false
set_option relaxedAutoImplicit false

namespace Craftec.Crypto.HomMac

open Craftec.Types.Digest
open Craftec.Types.Piece (CodedPiece HomMac)
open Craftec.Library.Chunks (chunks)

/-- A 32-byte key; pieces use the bytes of their CID. -/
structure HomMacKey where
  key : Bytes32
  deriving DecidableEq

/-- The body of the `for _ in 0..8` loop of `gf256_mul`. -/
def mulTurn (s : UInt8 × UInt8 × UInt8) (_ : ℕ) : UInt8 × UInt8 × UInt8 :=
  let result := if s.2.2 &&& 1 ≠ 0 then s.1 ^^^ s.2.1 else s.1
  let highBit := s.2.1 &&& 0x80
  let aa := s.2.1 <<< 1
  let aa := if highBit ≠ 0 then aa ^^^ 0x1B else aa
  (result, aa, s.2.2 >>> 1)

/-- Multiply in GF(2^8); the state is the result and what is left of both operands. -/
def gf256Mul (a b : UInt8) : UInt8 := ((List.range 8).foldl mulTurn (0, a, b)).1

/-- Fold one chunk into the accumulator; the state also keeps the stream position. -/
def tagChunk (stream : ℕ → UInt8) (s : UInt8 × ℕ) (part : Bytes) : UInt8 × ℕ :=
  (part.zipIdx.foldl (fun acc b => acc ^^^ gf256Mul (stream (s.2 + b.2)) b.1) s.1,
    s.2 + part.length)

/-- Tag byte `j`: the stream is keyed once and read on through both parts of the piece. -/
def tagByte (B : Blake3) (key : HomMacKey) (codingVector data : Bytes) (j : ℕ) : UInt8 :=
  let stream := B.xof (key.key.bytes ++ [UInt8.ofNat j])
  ((chunks 256 data).foldl (tagChunk stream)
    ((chunks 256 codingVector).foldl (tagChunk stream) (0, 0))).1

def computeTag (B : Blake3) (key : HomMacKey) (codingVector data : Bytes) : HomMac :=
  ⟨(List.range 32).map (tagByte B key codingVector data), by simp⟩

theorem verifyMac_iff (B : Blake3) (piece : CodedPiece) : piece.verifyMac B = true ↔
    computeTag B ⟨piece.cid.digest⟩ piece.codingVector piece.data = piece.hommacTag := by
  have bytes : (computeTag B ⟨piece.cid.digest⟩ piece.codingVector piece.data).bytes =
      (List.range 32).map (piece.macByte B) := rfl
  rw [CodedPiece.verifyMac, decide_eq_true_iff, ← bytes]
  exact (Bytes32.mk.injEq _ _ _ _).symm.to_iff

/-- Two pieces with one identifier, where the hash tells their bytes apart, agree as soon as
their coding vectors have one length: the identifier covers only the concatenation. -/
theorem piece_determined_iff {B : Blake3} {p q : CodedPiece} (verified : p.verifyPieceId B = true)
    (verified' : q.verifyPieceId B = true) (same : p.pieceId = q.pieceId)
    (collisionFree : B.hash (p.codingVector ++ p.data) = B.hash (q.codingVector ++ q.data) →
      p.codingVector ++ p.data = q.codingVector ++ q.data) :
    (p.codingVector = q.codingVector ∧ p.data = q.data) ↔
      p.codingVector.length = q.codingVector.length := by
  constructor
  · rintro ⟨vectors, -⟩
    rw [vectors]
  · intro lengths
    have left : PieceId.fromData B (p.codingVector ++ p.data) = p.pieceId := of_decide_eq_true verified
    have right : PieceId.fromData B (q.codingVector ++ q.data) = q.pieceId := of_decide_eq_true verified'
    have bytes := collisionFree (congrArg PieceId.digest (left.trans (same.trans right.symm)))
    exact List.append_inj bytes lengths

theorem piece_determined_split :
    let p := CodedPiece.new Blake3.byLeading ⟨Bytes32.fill 0⟩ [1, 2] [3] (Bytes32.fill 0)
    let q := CodedPiece.new Blake3.byLeading ⟨Bytes32.fill 0⟩ [1] [2, 3] (Bytes32.fill 0)
    p.pieceId = q.pieceId ∧ p.codingVector ++ p.data = q.codingVector ++ q.data ∧
      ¬ (p.codingVector = q.codingVector ∧ p.data = q.data) := by
  intro p q
  have determined := piece_determined_iff (CodedPiece.verifyPieceId_new .. : p.verifyPieceId _ = true)
    (CodedPiece.verifyPieceId_new .. : q.verifyPieceId _ = true) rfl fun _ => rfl
  refine ⟨rfl, rfl, fun equal => ?_⟩
  exact absurd (determined.mp equal) (by decide)

theorem verified_across_boundary (B : Blake3) (cid : Cid) {vector vector' data data' : Bytes}
    (bytes : vector ++ data = vector' ++ data') :
    let p := CodedPiece.new B cid vector data (computeTag B ⟨cid.digest⟩ vector data)
    let q := CodedPiece.new B cid vector' data' (computeTag B ⟨cid.digest⟩ vector' data')
    p.cid = q.cid ∧ p.pieceId = q.pieceId ∧
      (p.verifyPieceId B = true ∧ p.verifyMac B = true) ∧
      q.verifyPieceId B = true ∧ q.verifyMac B = true := by
  intro p q
  have tagP : p.verifyMac B = true := (verifyMac_iff B p).mpr rfl
  have tagQ : q.verifyMac B = true := (verifyMac_iff B q).mpr rfl
  have identifiers : p.pieceId = q.pieceId := congrArg (PieceId.fromData B) bytes
  exact ⟨rfl, identifiers, ⟨CodedPiece.verifyPieceId_new .., tagP⟩, CodedPiece.verifyPieceId_new .., tagQ⟩

/-- One coefficient and one byte, or two coefficients and no data. -/
theorem boundary_is_ambiguous :
    let B := Blake3.byLeading
    let cid : Cid := ⟨Bytes32.fill 0⟩
    let p := CodedPiece.new B cid [1] [2] (computeTag B ⟨cid.digest⟩ [1] [2])
    let q := CodedPiece.new B cid [1, 2] [] (computeTag B ⟨cid.digest⟩ [1, 2] [])
    (p.cid = q.cid ∧ p.pieceId = q.pieceId ∧
      (p.verifyPieceId B = true ∧ p.verifyMac B = true) ∧
      q.verifyPieceId B = true ∧ q.verifyMac B = true) ∧
      p.codingVector ≠ q.codingVector ∧ p.data ≠ q.data := by
  intro B cid p q
  exact ⟨verified_across_boundary B cid rfl, by decide, by decide⟩

/-- Add `coeff` times a tag into the combination, byte by byte. -/
def addTag (combined : Bytes) (t : HomMac × UInt8) : Bytes :=
  List.zipWith (fun acc b => acc ^^^ gf256Mul t.2 b) combined t.1.bytes

private theorem length_addTag (combined : Bytes) (t : HomMac × UInt8)
    (h : combined.length = 32) : (addTag combined t).length = 32 := by
  simp [addTag, h, t.1.size]

private theorem length_foldl_addTag (terms : List (HomMac × UInt8)) (combined : Bytes)
    (h : combined.length = 32) : (terms.foldl addTag combined).length = 32 := by
  induction terms generalizing combined with
  | nil => exact h
  | cons t terms ih => exact ih _ (length_addTag combined t h)

def combineTags (tags : List HomMac) (coefficients : Bytes) : HomMac :=
  ⟨(tags.zip coefficients).foldl addTag (List.replicate 32 0),
    length_foldl_addTag _ _ List.length_replicate⟩

end Craftec.Crypto.HomMac
