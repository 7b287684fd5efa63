/- GID: Craftec/Rlnc/MacBuffer
   generality: I
   digest: The reused stream buffer of the tags, and the inner product it computes chunk by chunk. -/

import Craftec.Rlnc.Tags

set_option autoImplicit false
set_option relaxedAutoImplicit false

namespace Craftec.Rlnc.MacBuffer

open Craftec.Types.Digest
open Craftec.Types.Piece (CodedPiece HomMac gf256Mul0x11b macChunk)
open Craftec.Crypto.HomMac
open Craftec.Library.ByteField (GF256)
open Craftec.Library.Chunks
open Craftec.Rlnc.Gf256
open Craftec.Rlnc.Tags

/-- `OutputReader` of the hash package: an output stream and how much of it has been read. -/
structure OutputReader where
  stream : ℕ → UInt8
  position : ℕ

/-- The next `n` bytes of the output; successive calls return consecutive bytes. -/
def OutputReader.fill (xof : OutputReader) (n : ℕ) : Bytes × OutputReader :=
  ((List.range' xof.position n).map xof.stream, { xof with position := xof.position + n })

/-- The variables of the loop over `j`, which live through all chunks of both parts. -/
structure Buffered where
  acc : UInt8
  rBuf : Bytes
  xof : OutputReader

/-- The body of both chunk loops: `fill` overwrites the front of the buffer, as long as the chunk;
what the last chunk left behind it stays, and the `zip` ends with the chunk. `none` is the panic on
a chunk that is longer than the buffer. -/
def chunkTurn (product : UInt8 → UInt8 → UInt8) (s : Buffered) (part : Bytes) : Option Buffered :=
  if part.length ≤ s.rBuf.length then
    let filled := s.xof.fill part.length
    let rBuf := filled.1 ++ s.rBuf.drop part.length
    some { acc := (rBuf.zip part).foldl (fun acc p => acc ^^^ product p.1 p.2) s.acc,
           rBuf := rBuf, xof := filled.2 }
  else none

/-- One byte of the tag: a buffer of zeros, the chunks of the coding vector, those of the data. -/
def bufferedByte (product : UInt8 → UInt8 → UInt8) (stream : ℕ → UInt8) (codingVector data : Bytes) :
    Option UInt8 := do
  let s ← (chunks 256 codingVector).foldlM (chunkTurn product) ⟨0, List.replicate 256 0, ⟨stream, 0⟩⟩
  let s ← (chunks 256 data).foldlM (chunkTurn product) s
  return s.acc

/-- `compute_tag` with its buffer. -/
def computeTagBuffered (B : Blake3) (key : HomMacKey) (codingVector data : Bytes) : Option Bytes :=
  (List.range 32).mapM fun j =>
    bufferedByte gf256Mul (B.xof (key.key.bytes ++ [UInt8.ofNat j])) codingVector data

/-- `verify_mac` with its buffer. -/
def verifyMacBuffered (B : Blake3) (piece : CodedPiece) : Option Bool := do
  let tag ← (List.range 32).mapM fun j =>
    bufferedByte gf256Mul0x11b (B.xof (piece.cid.asBytes ++ [UInt8.ofNat j])) piece.codingVector piece.data
  return tag = piece.hommacTag.bytes

/-- The inner product of a byte string with as many bytes of a stream. -/
def innerProduct (stream : ℕ → UInt8) (bytes : Bytes) : GF256 :=
  ∑ i ∈ Finset.range bytes.length, (⟨stream i⟩ : GF256) * ⟨bytes.getD i 0⟩

/-! The loops without the buffer -/

/-- What a turn computes when it reads the stream itself, from the position it has reached. -/
def streamTurn (product : UInt8 → UInt8 → UInt8) (stream : ℕ → UInt8) (s : UInt8 × ℕ) (part : Bytes) :
    UInt8 × ℕ :=
  (part.zipIdx.foldl (fun acc b => acc ^^^ product (stream (s.2 + b.2)) b.1) s.1, s.2 + part.length)

private theorem foldl_filled (product : UInt8 → UInt8 → UInt8) (stream : ℕ → UInt8) (start offset : ℕ)
    (part : Bytes) (acc : UInt8) :
    (((List.range' (start + offset) part.length).map stream).zip part).foldl
        (fun acc p => acc ^^^ product p.1 p.2) acc =
      (part.zipIdx offset).foldl (fun acc b => acc ^^^ product (stream (start + b.2)) b.1) acc := by
  induction part generalizing offset acc with
  | nil => rfl
  | cons b part ih =>
    rw [List.length_cons, List.range'_succ, List.map_cons, List.zip_cons_cons, List.foldl_cons,
      List.zipIdx_cons, List.foldl_cons, Nat.add_assoc, ih]

theorem chunkTurn_eq (product : UInt8 → UInt8 → UInt8) {s : Buffered} {part : Bytes}
    (fits : part.length ≤ s.rBuf.length) :
    ∃ rBuf, rBuf.length = s.rBuf.length ∧
      let turn := streamTurn product s.xof.stream (s.acc, s.xof.position) part
      chunkTurn product s part = some ⟨turn.1, rBuf, ⟨s.xof.stream, turn.2⟩⟩ := by
  have front : ∀ bytes : Bytes, bytes.length = part.length → ∀ behind : Bytes,
      (bytes ++ behind).zip part = bytes.zip part := by
    intro bytes lengths behind
    have parts : (bytes ++ behind).zip (part ++ []) = bytes.zip part ++ behind.zip [] :=
      List.zip_append lengths
    rwa [List.append_nil, List.zip_nil_right, List.append_nil] at parts
  have filled : ((List.range' s.xof.position part.length).map s.xof.stream).length = part.length := by
    rw [List.length_map, List.length_range']
  refine ⟨(s.xof.fill part.length).1 ++ s.rBuf.drop part.length, ?_, ?_⟩
  · rw [List.length_append, List.length_drop, OutputReader.fill, filled]
    omega
  · rw [chunkTurn, if_pos fits]
    dsimp only [OutputReader.fill, streamTurn]
    rw [front _ filled, ← foldl_filled product s.xof.stream s.xof.position 0 part s.acc, Nat.add_zero]

theorem foldlM_chunkTurn (product : UInt8 → UInt8 → UInt8) {parts : List Bytes} {s : Buffered}
    (fits : ∀ part ∈ parts, part.length ≤ s.rBuf.length) :
    ∃ rBuf, rBuf.length = s.rBuf.length ∧
      let turns := parts.foldl (streamTurn product s.xof.stream) (s.acc, s.xof.position)
      parts.foldlM (chunkTurn product) s = some ⟨turns.1, rBuf, ⟨s.xof.stream, turns.2⟩⟩ := by
  induction parts generalizing s with
  | nil => exact ⟨s.rBuf, rfl, rfl⟩
  | cons part parts ih =>
    obtain ⟨rBuf, size, turn⟩ := chunkTurn_eq product (fits part List.mem_cons_self)
    dsimp only at turn
    rw [List.foldlM_cons, turn]
    have later : ∀ next ∈ parts, next.length ≤ rBuf.length := by
      intro next listed
      rw [size]
      exact fits next (List.mem_cons_of_mem part listed)
    obtain ⟨last, lastSize, turns⟩ := @ih
      ⟨(streamTurn product s.xof.stream (s.acc, s.xof.position) part).1, rBuf,
        ⟨s.xof.stream, (streamTurn product s.xof.stream (s.acc, s.xof.position) part).2⟩⟩ later
    exact ⟨last, lastSize.trans size, turns⟩

private theorem length_of_mem_chunks {part l : Bytes} (listed : part ∈ chunks 256 l) :
    part.length ≤ 256 := by
  obtain ⟨i, -, rfl⟩ := List.mem_map.mp listed
  exact List.length_take_le 256 _

theorem bufferedByte_eq (product : UInt8 → UInt8 → UInt8) (stream : ℕ → UInt8)
    (codingVector data : Bytes) :
    bufferedByte product stream codingVector data =
      some ((chunks 256 data).foldl (streamTurn product stream)
        ((chunks 256 codingVector).foldl (streamTurn product stream) (0, 0))).1 := by
  have zeros : (List.replicate 256 (0 : UInt8)).length = 256 := List.length_replicate
  obtain ⟨rBuf, size, vector⟩ := @foldlM_chunkTurn product (chunks 256 codingVector)
    ⟨0, List.replicate 256 0, ⟨stream, 0⟩⟩ fun part listed => by
      rw [zeros]
      exact length_of_mem_chunks listed
  dsimp only at size vector
  obtain ⟨last, -, rest⟩ := @foldlM_chunkTurn product (chunks 256 data)
    ⟨((chunks 256 codingVector).foldl (streamTurn product stream) (0, 0)).1, rBuf,
      ⟨stream, ((chunks 256 codingVector).foldl (streamTurn product stream) (0, 0)).2⟩⟩
    fun part listed => by
      rw [size, zeros]
      exact length_of_mem_chunks listed
  dsimp only at rest
  rw [bufferedByte, vector, Option.bind_eq_bind, Option.bind_some, rest]
  rfl

/-! The two implementations -/

theorem computeTagBuffered_eq (B : Blake3) (key : HomMacKey) (codingVector data : Bytes) :
    computeTagBuffered B key codingVector data = some (computeTag B key codingVector data).bytes := by
  unfold computeTagBuffered
  simp only [bufferedByte_eq]
  exact List.mapM_pure

theorem verifyMacBuffered_eq (B : Blake3) (piece : CodedPiece) :
    verifyMacBuffered B piece = some (piece.verifyMac B) := by
  have tag : ((List.range 32).mapM fun j => bufferedByte gf256Mul0x11b
      (B.xof (piece.cid.asBytes ++ [UInt8.ofNat j])) piece.codingVector piece.data) =
      some ((List.range 32).map (piece.macByte B)) := by
    simp only [bufferedByte_eq]
    exact List.mapM_pure
  rw [verifyMacBuffered, tag]
  rfl

theorem getElem?_computeTag (B : Blake3) (key : HomMacKey) (codingVector data : Bytes) {j : ℕ}
    (position : j < 32) :
    (computeTag B key codingVector data).bytes[j]? =
      some (innerProduct (B.xof (key.key.bytes ++ [UInt8.ofNat j])) (codingVector ++ data)).byte := by
  have entry : tagByte B key codingVector data j =
      (innerProduct (B.xof (key.key.bytes ++ [UInt8.ofNat j])) (codingVector ++ data)).byte := by
    rw [tagByte_eq, dot_apply, innerProduct]
    simp only [Nat.zero_add, vec]
  change ((List.range 32).map (tagByte B key codingVector data))[j]? = _
  rw [List.getElem?_map, List.getElem?_range position, Option.map_some, entry]

/-- Both implementations with their reused buffer of 256 bytes: for coding vectors and data of any
lengths no chunk panics, byte `j` of the tag under a content id is the inner product of the `j`-th
stream with the coding vector followed by the data, and a piece is accepted exactly when its tag
consists of these 32 values. -/
theorem mac_chunking_transparent (B : Blake3) :
    (∀ (cid : Cid) (codingVector data : Bytes), ∃ tag : Bytes,
      computeTagBuffered B ⟨cid.digest⟩ codingVector data = some tag ∧ tag.length = 32 ∧
        ∀ j < 32, tag[j]? =
          some (innerProduct (B.xof (cid.asBytes ++ [UInt8.ofNat j])) (codingVector ++ data)).byte) ∧
      ∀ piece : CodedPiece, ∃ accepted : Bool,
        verifyMacBuffered B piece = some accepted ∧
          (accepted = true ↔ ∀ j < 32, piece.hommacTag.bytes[j]? =
            some (innerProduct (B.xof (piece.cid.asBytes ++ [UInt8.ofNat j]))
              (piece.codingVector ++ piece.data)).byte) := by
  refine ⟨fun cid codingVector data => ?_, fun piece => ?_⟩
  · refine ⟨_, computeTagBuffered_eq B ⟨cid.digest⟩ codingVector data, Bytes32.size _, ?_⟩
    intro j position
    exact getElem?_computeTag B ⟨cid.digest⟩ codingVector data position
  · refine ⟨_, verifyMacBuffered_eq B piece, (verifyMac_iff B piece).trans ⟨?_, ?_⟩⟩
    · intro same j position
      rw [← same]
      exact getElem?_computeTag B ⟨piece.cid.digest⟩ _ _ position
    · intro values
      have bytes : (computeTag B ⟨piece.cid.digest⟩ piece.codingVector piece.data).bytes =
          piece.hommacTag.bytes := by
        refine List.ext_getElem? fun j => ?_
        by_cases position : j < 32
        · rw [values j position]
          exact getElem?_computeTag B ⟨piece.cid.digest⟩ _ _ position
        · rw [List.getElem?_eq_none (by rw [Bytes32.size]; omega),
            List.getElem?_eq_none (by rw [Bytes32.size]; omega)]
      exact (Bytes32.mk.injEq _ _ _ _).mpr bytes

end Craftec.Rlnc.MacBuffer
