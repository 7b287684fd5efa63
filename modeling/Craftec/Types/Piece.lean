/- GID: Craftec/Types/Piece
   generality: I
   digest: Coded pieces as they are stored and sent, and the two checks of a received one. -/

import Craftec.Library.Chunks
import Craftec.Types.Digest

set_option autoImplicit false
set_option relaxedAutoImplicit false

namespace Craftec.Types.Piece

open Craftec.Library.Chunks (chunks)
open Craftec.Types.Digest

abbrev HomMac := Bytes32

structure CodedPiece where
  pieceId : PieceId
  cid : Cid
  codingVector : Bytes
  data : Bytes
  hommacTag : HomMac
  deriving DecidableEq

/-- The piece id covers the coding vector followed by the data. -/
def CodedPiece.new (B : Blake3) (cid : Cid) (codingVector data : Bytes) (hommacTag : HomMac) :
    CodedPiece where
  pieceId := PieceId.fromData B (codingVector ++ data)
  cid := cid
  codingVector := codingVector
  data := data
  hommacTag := hommacTag

def CodedPiece.verifyPieceId (B : Blake3) (piece : CodedPiece) : Bool :=
  PieceId.fromData B (piece.codingVector ++ piece.data) = piece.pieceId

/-- The body of the `for _ in 0..8` loop of `gf256_mul_0x11b`. -/
def mulTurn0x11b (s : UInt8 × UInt8 × UInt8) (_ : ℕ) : UInt8 × UInt8 × UInt8 :=
  let result := if s.2.2 &&& 1 ≠ 0 then s.1 ^^^ s.2.1 else s.1
  let highBit := s.2.1 &&& 0x80
  let aa := s.2.1 <<< 1
  let aa := if highBit ≠ 0 then aa ^^^ 0x1B else aa
  (result, aa, s.2.2 >>> 1)

/-- The multiplication of `craftec-crypto`, duplicated in this crate. -/
def gf256Mul0x11b (a b : UInt8) : UInt8 := ((List.range 8).foldl mulTurn0x11b (0, a, b)).1

/-- Fold one chunk into the accumulator; the state also keeps the stream position. -/
def macChunk (stream : ℕ → UInt8) (s : UInt8 × ℕ) (part : Bytes) : UInt8 × ℕ :=
  (part.zipIdx.foldl (fun acc b => acc ^^^ gf256Mul0x11b (stream (s.2 + b.2)) b.1) s.1,
    s.2 + part.length)

/-- Byte `j` of the tag, keyed by the CID. -/
def CodedPiece.macByte (B : Blake3) (piece : CodedPiece) (j : ℕ) : UInt8 :=
  let stream := B.xof (piece.cid.asBytes ++ [UInt8.ofNat j])
  ((chunks 256 piece.data).foldl (macChunk stream)
    ((chunks 256 piece.codingVector).foldl (macChunk stream) (0, 0))).1

def CodedPiece.verifyMac (B : Blake3) (piece : CodedPiece) : Bool :=
  (List.range 32).map (piece.macByte B) = piece.hommacTag.bytes

theorem CodedPiece.verifyPieceId_new (B : Blake3) (cid : Cid) (codingVector data : Bytes)
    (hommacTag : HomMac) :
    (CodedPiece.new B cid codingVector data hommacTag).verifyPieceId B = true :=
  decide_eq_true rfl

end Craftec.Types.Piece
