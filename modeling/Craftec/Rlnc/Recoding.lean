/- GID: Craftec/Rlnc/Recoding
   generality: I
   digest: When a recoded piece verifies, and what a set of pieces spans after one is replaced. -/

import Craftec.Library.RowSpan
import Craftec.Rlnc.Decoder
import Craftec.Rlnc.Tags

set_option autoImplicit false
set_option relaxedAutoImplicit false

namespace Craftec.Rlnc.Recoding

open Craftec.Types.Digest
open Craftec.Types.Piece (CodedPiece)
open Craftec.Crypto.HomMac (computeTag combineTags verifyMac_iff)
open Craftec.Library.ByteField (GF256)
open Craftec.Library.RowSpan
open Craftec.Rlnc.Gf256
open Craftec.Rlnc.Encoder
open Craftec.Rlnc.Decoder.RlncDecoder (pieceRow)
open Craftec.Rlnc.Tags

/-- All pieces have `k` coefficients and `n` bytes of data. -/
def Uniform (k n : ℕ) (pieces : List CodedPiece) : Prop :=
  ∀ q ∈ pieces, q.codingVector.length = k ∧ q.data.length = n

instance (k n : ℕ) (pieces : List CodedPiece) : Decidable (Uniform k n pieces) :=
  inferInstanceAs (Decidable (∀ q ∈ pieces, _))

def Verified (B : Blake3) (p : CodedPiece) : Prop := p.verifyPieceId B = true ∧ p.verifyMac B = true

instance (B : Blake3) (p : CodedPiece) : Decidable (Verified B p) :=
  inferInstanceAs (Decidable (_ ∧ _))

section Recoded

variable {B : Blake3} {pieces : List CodedPiece} {scalars : Bytes} {p : CodedPiece} {k n : ℕ}

theorem uniform_recode (result : recode B pieces scalars = .ok p) (uniform : Uniform k n pieces) :
    p.codingVector.length = k ∧ p.data.length = n := by
  obtain ⟨first, listed, -, -, rfl⟩ := recode_eq_ok result
  simpa [CodedPiece.new] using uniform first listed

theorem verified_recode (result : recode B pieces scalars = .ok p) (uniform : Uniform k n pieces)
    (verified : ∀ q ∈ pieces, Verified B q) : Verified B p := by
  obtain ⟨first, listed, -, cids, rfl⟩ := recode_eq_ok result
  obtain ⟨vectors, sizes⟩ := uniform first listed
  have tags : pieces.map CodedPiece.hommacTag =
      pieces.map fun q => computeTag B ⟨first.cid.digest⟩ q.codingVector q.data := by
    refine List.map_congr_left fun q inside => ?_
    rw [← (verifyMac_iff B q).mp (verified q inside).2, cids q inside]
  refine ⟨CodedPiece.verifyPieceId_new .., (verifyMac_iff B _).mpr ?_⟩
  rw [CodedPiece.new, tags, vectors, sizes]
  exact (combineTags_eq B ⟨first.cid.digest⟩ scalars uniform).symm

end Recoded

/-- For verified inputs of any sizes, recoding keeps what a receiver relies on (the result
verifies, and has the size of every input) exactly when it refuses anyway, for too few pieces
or for different contents, or when the inputs all have one size: sizes are not compared. -/
theorem recode_sound_iff {B : Blake3} {pieces : List CodedPiece}
    (verified : ∀ q ∈ pieces, Verified B q) (scalars : Bytes) :
    (∀ p, recode B pieces scalars = .ok p →
        Verified B p ∧ Uniform p.codingVector.length p.data.length pieces) ↔
      pieces.length < 2 ∨ (∃ q ∈ pieces, ∃ r ∈ pieces, q.cid ≠ r.cid) ∨ ∃ k n, Uniform k n pieces := by
  constructor
  · intro sound
    by_cases several : pieces.length < 2
    · exact .inl several
    by_cases mixed : ∃ q ∈ pieces, ∃ r ∈ pieces, q.cid ≠ r.cid
    · exact .inr (.inl mixed)
    push Not at several mixed
    obtain ⟨first, listed⟩ := List.exists_mem_of_length_pos (by omega : 0 < pieces.length)
    obtain ⟨p, result⟩ := recode_of_alike B several (fun q inside => mixed q inside first listed) scalars
    exact .inr (.inr ⟨_, _, (sound p result).2⟩)
  · rintro refusal p result
    obtain ⟨first, -, several, cids, -⟩ := recode_eq_ok result
    rcases refusal with few | ⟨q, inside, r, among, apart⟩ | ⟨k, n, uniform⟩
    · omega
    · exact absurd ((cids q inside).trans (cids r among).symm) apart
    · obtain ⟨vectors, sizes⟩ := uniform_recode result uniform
      rw [vectors, sizes]
      exact ⟨verified_recode result uniform verified, uniform⟩

theorem recode_sound_pair :
    let B : Blake3 := ⟨leading, fun _ _ => 1⟩
    let coded (cv data : Bytes) := CodedPiece.new B ⟨Bytes32.fill 0⟩ cv data
      (computeTag B ⟨Bytes32.fill 0⟩ cv data)
    (∀ q ∈ [coded [1, 1] [3], coded [1, 0] [5]], Verified B q) ∧
      ∀ p, recode B [coded [1, 1] [3], coded [1, 0] [5]] [1, 1] = .ok p →
        Verified B p ∧ Uniform p.codingVector.length p.data.length
          [coded [1, 1] [3], coded [1, 0] [5]] := by
  intro B coded
  have verified : ∀ q ∈ [coded [1, 1] [3], coded [1, 0] [5]], Verified B q := by decide +kernel
  have uniform : Uniform 2 1 [coded [1, 1] [3], coded [1, 0] [5]] := by decide
  exact ⟨verified, (recode_sound_iff verified [1, 1]).mpr (.inr (.inr ⟨2, 1, uniform⟩))⟩

/-- The content `[5, 6]` cut into two pieces, and the same content as the single piece that a
node serves when it has no coded pieces: recoded together they give a piece whose tag is wrong. -/
theorem recode_mixes_sizes :
    let B : Blake3 := ⟨leading, fun _ _ => 1⟩
    let cid := Cid.fromData B [5, 6]
    let coded := CodedPiece.new B cid [1, 1] [3] (computeTag B ⟨cid.digest⟩ [1, 1] [3])
    let whole := CodedPiece.new B cid [1] [5, 6] (computeTag B ⟨cid.digest⟩ [1] [5, 6])
    Verified B coded ∧ Verified B whole ∧
      ∃ p, recode B [coded, whole] [1, 1] = .ok p ∧ p.verifyMac B = false ∧
        p.codingVector.length ≠ whole.codingVector.length ∧ p.data.length ≠ whole.data.length := by
  intro B cid coded whole
  refine ⟨by decide +kernel, by decide +kernel, _, rfl, by decide +kernel, ?_, ?_⟩
  · decide
  · decide

/-! Information -/

theorem pieceRow_recode {B : Blake3} {pieces : List CodedPiece} {scalars : Bytes} {p : CodedPiece}
    {k n : ℕ} (result : recode B pieces scalars = .ok p) (uniform : Uniform k n pieces) :
    pieceRow p = combination pieceRow pieces (scalars.map GF256.mk) := by
  obtain ⟨first, listed, -, -, rfl⟩ := recode_eq_ok result
  obtain ⟨vectors, sizes⟩ := uniform first listed
  have dimensions : ∀ t ∈ pieces.zip scalars, t.1.codingVector.length = k ∧ t.1.data.length = n :=
    fun t inside => uniform t.1 (List.of_mem_zip inside).1
  rw [combination, List.zip_map_right, List.map_map, pieceRow, CodedPiece.new, vectors, sizes]
  exact vec_append_mulAddAll dimensions

/-- For several pieces of one size and scalars none of which is zero, the recoded piece may
take the place of any of its inputs: the augmented rows span the same. And pieces of one content
are recoded. -/
theorem recoded_replaces_any (B : Blake3) {pieces : List CodedPiece} {scalars : Bytes} {k n : ℕ}
    (several : 2 ≤ pieces.length) (uniform : Uniform k n pieces)
    (count : scalars.length = pieces.length) (nonzero : ∀ c ∈ scalars, c ≠ 0) :
    ((∀ q ∈ pieces, ∀ r ∈ pieces, q.cid = r.cid) → ∃ p, recode B pieces scalars = .ok p) ∧
      ∀ p, recode B pieces scalars = .ok p → ∀ i < pieces.length,
        listSpan GF256 pieceRow (pieces.set i p) = listSpan GF256 pieceRow pieces := by
  constructor
  · intro alike
    obtain ⟨first, listed⟩ := List.exists_mem_of_length_pos (by omega : 0 < pieces.length)
    exact recode_of_alike B several (fun q inside => alike q inside first listed) scalars
  · intro p result i inside
    have among : i < scalars.length := by omega
    have entry : pieces[i]? = some pieces[i] := List.getElem?_eq_getElem inside
    have scalar : (scalars.map GF256.mk)[i]? = some ⟨scalars[i]⟩ := by
      rw [List.getElem?_map, List.getElem?_eq_getElem among]
      rfl
    have apart : (⟨scalars[i]⟩ : GF256) ≠ 0 := by
      intro zero
      exact nonzero _ (List.getElem_mem among) (congrArg GF256.byte zero)
    exact listSpan_set entry scalar apart (pieceRow_recode result uniform)

theorem recoded_replaces_either :
    let B : Blake3 := Blake3.byLeading
    let coded (cv data : Bytes) := CodedPiece.new B ⟨Bytes32.fill 0⟩ cv data (Bytes32.fill 0)
    ∃ p, recode B [coded [1, 1] [3], coded [1, 0] [5]] [1, 2] = .ok p ∧
      listSpan GF256 pieceRow [p, coded [1, 0] [5]] =
        listSpan GF256 pieceRow [coded [1, 1] [3], coded [1, 0] [5]] ∧
      listSpan GF256 pieceRow [coded [1, 1] [3], p] =
        listSpan GF256 pieceRow [coded [1, 1] [3], coded [1, 0] [5]] := by
  intro B coded
  have uniform : Uniform 2 1 [coded [1, 1] [3], coded [1, 0] [5]] := by decide
  have one : ∀ q ∈ [coded [1, 1] [3], coded [1, 0] [5]], q.cid = ⟨Bytes32.fill 0⟩ := by
    intro q listed
    rcases List.mem_pair.mp listed with rfl | rfl <;> rfl
  have nonzero : ∀ c ∈ ([1, 2] : Bytes), c ≠ 0 := by simp
  obtain ⟨recodes, replaces⟩ := recoded_replaces_any B (by decide) uniform rfl nonzero
  obtain ⟨p, result⟩ := recodes fun q listed r among => (one q listed).trans (one r among).symm
  exact ⟨p, result, replaces p result 0 (by decide), replaces p result 1 (by decide)⟩

end Craftec.Rlnc.Recoding
