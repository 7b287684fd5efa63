/- GID: Craftec/Rlnc/Encoder
   generality: I
   digest: Source blocks of a generation, coded pieces drawn from them, and recoding without decoding. -/

import Craftec.Crypto.HomMac
import Craftec.Rlnc.Gf256

set_option autoImplicit false
set_option relaxedAutoImplicit false

namespace Craftec.Rlnc.Encoder

open Craftec.Types.Digest
open Craftec.Types.Piece (CodedPiece HomMac)
open Craftec.Crypto.HomMac (HomMacKey computeTag combineTags)
open Craftec.Library.ByteField (GF256)
open Craftec.Library.Chunks
open Craftec.Rlnc.Gf256

/-- Errors of encoding, decoding and recoding that the modelled functions return. -/
inductive RlncError
  | insufficientPieces (have_ need : ℕ)
  | decodeFailed (message : String)
  | invalidPieceSize (expected got : ℕ)
  | codingVectorLengthMismatch (expected got : ℕ)
  | insufficientRecodeInputs (got : ℕ)
  | mismatchedCids
  deriving DecidableEq

structure RlncEncoder where
  k : ℕ
  pieceSize : ℕ
  originalPieces : List Bytes
  cid : Cid
  deriving DecidableEq

/-- Source piece `i`: a zeroed buffer with the bytes of the data copied over its front. -/
def sourcePiece (data : Bytes) (pieceSize i : ℕ) : Bytes :=
  let start := i * pieceSize
  let stop := min ((i + 1) * pieceSize) data.length
  let piece := List.replicate pieceSize 0
  if start < data.length then
    (data.drop start).take (stop - start) ++ piece.drop (stop - start)
  else piece

/-- Ceiling division, so that all data fits in `k` pieces; empty data takes one byte each. -/
def pieceSizeFor (total k : ℕ) : ℕ := if total = 0 then 1 else (total + k - 1) / k

namespace RlncEncoder

variable (B : Blake3)

def new (data : Bytes) (k : ℕ) : Except RlncError RlncEncoder :=
  if k = 0 then .error (.insufficientPieces 0 1)
  else
    let pieceSize := pieceSizeFor data.length k
    .ok { k := k
          pieceSize := pieceSize
          originalPieces := (List.range k).map (sourcePiece data pieceSize)
          cid := Cid.fromData B data }

/-- Draw one coded piece. The random coefficients are the argument `codingVector`;
the code rerolls zeros, the model allows any byte. -/
def encodePiece (enc : RlncEncoder) (codingVector : Bytes) : CodedPiece :=
  let codedData := mulAddAll (List.replicate enc.pieceSize 0)
    (enc.originalPieces.zipIdx.map fun p => (p.1, codingVector.getD p.2 0))
  let homMac := computeTag B ⟨enc.cid.digest⟩ codingVector codedData
  CodedPiece.new B enc.cid codingVector codedData homMac

end RlncEncoder

/-- Recode pieces of one generation. The fresh random scalars are an argument. -/
def recode (B : Blake3) (pieces : List CodedPiece) (scalars : Bytes) :
    Except RlncError CodedPiece :=
  match pieces with
  | first :: second :: rest =>
      if (second :: rest).any (fun p => p.cid ≠ first.cid) then .error .mismatchedCids
      else
        let newCodingVector := mulAddAll (List.replicate first.codingVector.length 0)
          ((pieces.zip scalars).map fun p => (p.1.codingVector, p.2))
        let newData := mulAddAll (List.replicate first.data.length 0)
          ((pieces.zip scalars).map fun p => (p.1.data, p.2))
        let homMac := combineTags (pieces.map CodedPiece.hommacTag) scalars
        .ok (CodedPiece.new B first.cid newCodingVector newData homMac)
  | _ => .error (.insufficientRecodeInputs pieces.length)

/-! Source pieces -/

/-- The data with the zero bytes that fill up the last pieces. -/
def padded (data : Bytes) (k n : ℕ) : Bytes := data ++ List.replicate (k * n - data.length) 0

private theorem sourcePiece_eq_chunk (data : Bytes) {n i k : ℕ} (hi : i < k)
    (hk : data.length ≤ k * n) : sourcePiece data n i = chunk n (padded data k n) i := by
  have next : (i + 1) * n = i * n + n := Nat.succ_mul i n
  have inside : i * n + n ≤ k * n := by
    rw [← next]
    exact Nat.mul_le_mul_right n hi
  unfold sourcePiece chunk padded
  simp only [next, List.drop_append, List.take_append, List.drop_replicate, List.take_replicate,
    List.length_drop]
  by_cases h : i * n < data.length
  · have room : min (n - (data.length - i * n)) (k * n - data.length - (i * n - data.length)) =
        n - (min (i * n + n) data.length - i * n) := by omega
    rw [if_pos h, room]
    congr 1
    by_cases whole : i * n + n ≤ data.length
    · rw [Nat.min_eq_left whole, Nat.add_sub_cancel_left]
    · rw [List.take_of_length_le, List.take_of_length_le]
      · rw [List.length_drop]
        omega
      · rw [List.length_drop]
        omega
  · have room : min (n - (data.length - i * n)) (k * n - data.length - (i * n - data.length)) =
        n := by omega
    rw [if_neg h, room, List.drop_of_length_le (by omega), List.take_nil, List.nil_append]

theorem pieceSizeFor_fits {total k : ℕ} (hk : 0 < k) : total ≤ k * pieceSizeFor total k := by
  unfold pieceSizeFor
  by_cases h : total = 0
  · omega
  · rw [if_neg h, Nat.mul_comm]
    exact length_le_count_mul hk

private theorem length_chunk_padded (data : Bytes) {n i k : ℕ} (hi : i < k)
    (hk : data.length ≤ k * n) : (chunk n (padded data k n) i).length = n := by
  have inside : (i + 1) * n ≤ k * n := Nat.mul_le_mul_right n hi
  rw [Nat.succ_mul] at inside
  simp only [chunk, padded, List.length_take, List.length_drop, List.length_append,
    List.length_replicate]
  omega

/-- What `RlncEncoder::new` establishes about its source pieces. -/
structure RlncEncoder.Splits (enc : RlncEncoder) (data : Bytes) : Prop where
  positive : 0 < enc.k
  count : enc.originalPieces.length = enc.k
  size : ∀ piece ∈ enc.originalPieces, piece.length = enc.pieceSize
  content : enc.originalPieces.flatten = padded data enc.k enc.pieceSize

theorem RlncEncoder.new_splits {B : Blake3} {data : Bytes} {k : ℕ} {enc : RlncEncoder}
    (h : RlncEncoder.new B data k = .ok enc) : enc.k = k ∧ enc.Splits data := by
  unfold RlncEncoder.new at h
  by_cases hk : k = 0
  · rw [if_pos hk] at h
    cases h
  rw [if_neg hk] at h
  cases h
  have positive : 0 < k := Nat.pos_of_ne_zero hk
  have fits : data.length ≤ k * pieceSizeFor data.length k := pieceSizeFor_fits positive
  have pieces : (List.range k).map (sourcePiece data (pieceSizeFor data.length k)) =
      (List.range k).map (chunk (pieceSizeFor data.length k)
        (padded data k (pieceSizeFor data.length k))) := by
    apply List.map_congr_left
    intro i hi
    exact sourcePiece_eq_chunk data (List.mem_range.mp hi) fits
  refine ⟨rfl, positive, by simp, ?_, ?_⟩
  · intro piece hp
    simp only [pieces, List.mem_map, List.mem_range] at hp
    obtain ⟨i, hi, rfl⟩ := hp
    exact length_chunk_padded data hi fits
  · simp only [pieces, flatten_chunks]
    apply List.take_of_length_le
    simp only [padded, List.length_append, List.length_replicate]
    omega

theorem RlncEncoder.pieceSize_new {B : Blake3} {data : Bytes} {k : ℕ} {enc : RlncEncoder}
    (h : RlncEncoder.new B data k = .ok enc) : enc.pieceSize = pieceSizeFor data.length k := by
  unfold RlncEncoder.new at h
  split at h
  · cases h
  · cases h
    rfl

/-! Linear structure -/

/-- Source block `j` as a vector. -/
def RlncEncoder.block (enc : RlncEncoder) (j : ℕ) : ℕ → GF256 :=
  vec (enc.originalPieces.getD j [])

def RlncEncoder.combine (enc : RlncEncoder) : (ℕ → GF256) →ₗ[GF256] (ℕ → GF256) :=
  ∑ j ∈ Finset.range enc.k, (LinearMap.proj j).smulRight (enc.block j)

theorem RlncEncoder.combine_apply (enc : RlncEncoder) (v : ℕ → GF256) :
    enc.combine v = ∑ j ∈ Finset.range enc.k, v j • enc.block j := by
  simp [RlncEncoder.combine]

/-- A piece of the right dimensions whose data is what its coding vector calls for. -/
structure RlncEncoder.Codes (enc : RlncEncoder) (p : CodedPiece) : Prop where
  coefficients : p.codingVector.length = enc.k
  size : p.data.length = enc.pieceSize
  data : vec p.data = enc.combine (vec p.codingVector)

private theorem sum_zipIdx_map (pieces : List Bytes) (f : ℕ → GF256) (start : ℕ) :
    ((pieces.zipIdx start).map fun p => f p.2 • vec p.1).sum =
      ∑ j ∈ Finset.range pieces.length, f (start + j) • vec (pieces.getD j []) := by
  induction pieces generalizing start with
  | nil => simp
  | cons p pieces ih =>
    rw [List.zipIdx_cons, List.map_cons, List.sum_cons, ih, List.length_cons,
      Finset.sum_range_succ', add_comm]
    congr 1
    apply Finset.sum_congr rfl
    intro j _
    rw [show start + 1 + j = start + (j + 1) by omega]
    rfl

theorem RlncEncoder.encodePiece_codes {B : Blake3} {enc : RlncEncoder} {data codingVector : Bytes}
    (h : enc.Splits data) (hv : codingVector.length = enc.k) :
    enc.Codes (enc.encodePiece B codingVector) := by
  refine ⟨hv, by simp [encodePiece, CodedPiece.new], ?_⟩
  have short : ∀ t ∈ enc.originalPieces.zipIdx.map (fun p => (p.1, codingVector.getD p.2 0)),
      t.1.length ≤ (List.replicate enc.pieceSize (0 : UInt8)).length := by
    intro t ht
    obtain ⟨p, hp, rfl⟩ := List.mem_map.mp ht
    have mem : p.1 ∈ enc.originalPieces := List.fst_mem_of_mem_zipIdx hp
    rw [h.size p.1 mem, List.length_replicate]
  have terms := sum_zipIdx_map enc.originalPieces (vec codingVector) 0
  change vec (mulAddAll _ _) = enc.combine (vec codingVector)
  rw [vec_mulAddAll _ _ short, vec_replicate_zero, zero_add, List.map_map, enc.combine_apply,
    ← h.count]
  simpa [Function.comp_def, vec, RlncEncoder.block] using terms

private theorem vec_mulAddAll_zip (n : ℕ) (terms : List (CodedPiece × UInt8))
    (field : CodedPiece → Bytes) (h : ∀ t ∈ terms, (field t.1).length = n) :
    vec (mulAddAll (List.replicate n 0) (terms.map fun t => (field t.1, t.2))) =
      (terms.map fun t => (⟨t.2⟩ : GF256) • vec (field t.1)).sum := by
  have short : ∀ u ∈ terms.map (fun t => (field t.1, t.2)),
      u.1.length ≤ (List.replicate n (0 : UInt8)).length := by
    intro u hu
    obtain ⟨t, ht, rfl⟩ := List.mem_map.mp hu
    rw [h t ht, List.length_replicate]
  rw [vec_mulAddAll _ _ short, vec_replicate_zero, zero_add, List.map_map]
  rfl

theorem recode_eq_ok {B : Blake3} {pieces : List CodedPiece} {scalars : Bytes} {p : CodedPiece}
    (h : recode B pieces scalars = .ok p) :
    ∃ first ∈ pieces, 2 ≤ pieces.length ∧ (∀ q ∈ pieces, q.cid = first.cid) ∧
      p = CodedPiece.new B first.cid
        (mulAddAll (List.replicate first.codingVector.length 0)
          ((pieces.zip scalars).map fun t => (t.1.codingVector, t.2)))
        (mulAddAll (List.replicate first.data.length 0)
          ((pieces.zip scalars).map fun t => (t.1.data, t.2)))
        (combineTags (pieces.map CodedPiece.hommacTag) scalars) := by
  rcases pieces with _ | ⟨first, _ | ⟨second, rest⟩⟩
  · cases h
  · cases h
  · unfold recode at h
    by_cases mixed : (second :: rest).any (fun p => p.cid ≠ first.cid) = true
    · simp only [mixed, if_true] at h
      cases h
    simp only [mixed] at h
    cases h
    refine ⟨first, List.mem_cons_self, by simp, ?_, rfl⟩
    intro q listed
    rcases List.mem_cons.mp listed with rfl | later
    · rfl
    · by_contra other
      exact mixed (List.any_eq_true.mpr ⟨q, later, decide_eq_true other⟩)

theorem recode_of_alike (B : Blake3) {pieces : List CodedPiece} {cid : Cid}
    (several : 2 ≤ pieces.length) (alike : ∀ p ∈ pieces, p.cid = cid) (scalars : Bytes) :
    ∃ piece, recode B pieces scalars = .ok piece := by
  rcases pieces with _ | ⟨first, _ | ⟨second, rest⟩⟩
  · exact absurd several (Nat.not_succ_le_zero 1)
  · exact absurd several (Nat.not_succ_le_self 1)
  · have one : ¬ (second :: rest).any (fun p => p.cid ≠ first.cid) = true := by
      rw [List.any_eq_true]
      rintro ⟨p, listed, apart⟩
      refine of_decide_eq_true apart ?_
      rw [alike p (List.mem_cons_of_mem _ listed), alike first List.mem_cons_self]
    exact ⟨_, if_neg one⟩

theorem recode_codes {B : Blake3} {enc : RlncEncoder} {pieces : List CodedPiece}
    {scalars : Bytes} {p : CodedPiece} (hp : ∀ q ∈ pieces, enc.Codes q)
    (h : recode B pieces scalars = .ok p) : enc.Codes p := by
  obtain ⟨first, listed, -, -, rfl⟩ := recode_eq_ok h
  have head := hp first listed
  have mem : ∀ t ∈ pieces.zip scalars, enc.Codes t.1 := by
    intro t ht
    exact hp t.1 (List.of_mem_zip ht).1
  have vectors := vec_mulAddAll_zip first.codingVector.length _ CodedPiece.codingVector
    fun t ht => (mem t ht).coefficients.trans head.coefficients.symm
  have payload := vec_mulAddAll_zip first.data.length _ CodedPiece.data
    fun t ht => (mem t ht).size.trans head.size.symm
  refine ⟨?_, ?_, ?_⟩
  · simp [CodedPiece.new, head.coefficients]
  · simp [CodedPiece.new, head.size]
  · change vec (mulAddAll _ _) = enc.combine (vec (mulAddAll _ _))
    rw [vectors, payload, map_list_sum, List.map_map]
    congr 1
    apply List.map_congr_left
    intro t ht
    rw [Function.comp_apply, map_smul, (mem t ht).data]

theorem recode_vector (B : Blake3) {pieces : List CodedPiece} {cid : Cid} {k : ℕ}
    (several : 2 ≤ pieces.length) (alike : ∀ p ∈ pieces, p.cid = cid ∧ p.codingVector.length = k)
    (scalars : Bytes) :
    ∃ piece, recode B pieces scalars = .ok piece ∧
      vec piece.codingVector =
        ((pieces.zip scalars).map fun t => (⟨t.2⟩ : GF256) • vec t.1.codingVector).sum := by
  obtain ⟨piece, result⟩ := recode_of_alike B several (fun p listed => (alike p listed).1) scalars
  obtain ⟨first, listed, -, -, rfl⟩ := recode_eq_ok result
  refine ⟨_, result, ?_⟩
  exact vec_mulAddAll_zip first.codingVector.length _ CodedPiece.codingVector fun t inside =>
    (alike t.1 (List.of_mem_zip inside).1).2.trans (alike first listed).2.symm

end Craftec.Rlnc.Encoder
