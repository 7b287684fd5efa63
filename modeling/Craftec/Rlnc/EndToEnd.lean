/- GID: Craftec/Rlnc/EndToEnd
   generality: I
   digest: Any mix of encoded and recoded pieces decodes to the padded data once the rank is full. -/

import Craftec.Rlnc.Decoder

set_option autoImplicit false
set_option relaxedAutoImplicit false

namespace Craftec.Rlnc.EndToEnd

open Craftec.Types.Digest (Bytes Bytes32 Blake3)
open Craftec.Types.Piece (CodedPiece)
open Craftec.Library.ByteField (GF256)
open Craftec.Library.Elimination
open Craftec.Rlnc.Gf256
open Craftec.Rlnc.Encoder
open Craftec.Rlnc.Decoder

variable {B : Blake3}

/-- Pieces that one generation can put on the network: drawn from the encoder with any
coding vector, or recoded from such pieces with any scalars, to any depth. -/
inductive Derived (B : Blake3) (enc : RlncEncoder) : CodedPiece → Prop
  | encode (codingVector : Bytes) (len : codingVector.length = enc.k) :
      Derived B enc (enc.encodePiece B codingVector)
  | recode {pieces : List CodedPiece} {scalars : Bytes} {p : CodedPiece}
      (inputs : ∀ q ∈ pieces, Derived B enc q) (count : scalars.length = pieces.length)
      (result : recode B pieces scalars = .ok p) : Derived B enc p

inductive Call
  | addPiece (p : CodedPiece)
  | decode

def step (d : RlncDecoder) : Call → RlncDecoder
  | .addPiece p => (d.addPiece p).1
  | .decode => d.decode.1

def run (d : RlncDecoder) (calls : List Call) : RlncDecoder := calls.foldl step d

theorem derived_codes {enc : RlncEncoder} {data : Bytes} (splits : enc.Splits data)
    {p : CodedPiece} (h : Derived B enc p) : enc.Codes p := by
  induction h with
  | encode codingVector len => exact RlncEncoder.encodePiece_codes splits len
  | recode inputs count result ih => exact recode_codes ih result

def payload (k : ℕ) : (ℕ → GF256) →ₗ[GF256] (ℕ → GF256) :=
  LinearMap.funLeft GF256 GF256 (k + ·)

def codewords (enc : RlncEncoder) : Submodule GF256 (ℕ → GF256) :=
  LinearMap.eqLocus (payload enc.k) enc.combine

theorem mem_codewords {enc : RlncEncoder} {v : ℕ → GF256} :
    v ∈ codewords enc ↔ ∀ t, v (enc.k + t) = enc.combine v t := by
  constructor
  · intro h t
    exact congrFun h t
  · intro h
    exact funext h

theorem pieceRow_mem {enc : RlncEncoder} {p : CodedPiece} (h : enc.Codes p) :
    RlncDecoder.pieceRow p ∈ codewords enc := by
  rw [mem_codewords]
  intro t
  have right : RlncDecoder.pieceRow p (enc.k + t) = vec p.data t := by
    rw [RlncDecoder.pieceRow, vec_append, if_neg (by rw [h.coefficients]; omega), h.coefficients,
      Nat.add_sub_cancel_left]
  have left : enc.combine (RlncDecoder.pieceRow p) = enc.combine (vec p.codingVector) := by
    rw [enc.combine_apply, enc.combine_apply]
    apply Finset.sum_congr rfl
    intro j hj
    have inside : j < p.codingVector.length := by
      rw [h.coefficients]
      exact Finset.mem_range.mp hj
    rw [RlncDecoder.pieceRow, vec_append, if_pos inside]
  rw [right, left, h.data]

private def Sound (enc : RlncEncoder) (d : RlncDecoder) : Prop :=
  d.pieceSize = enc.pieceSize ∧
    ∃ E : Echelon GF256 enc.k, d.Represents E ∧ Within E.slot (codewords enc)

private theorem sound_new (enc : RlncEncoder) : Sound enc (RlncDecoder.new enc.k enc.pieceSize) := by
  refine ⟨rfl, Echelon.empty, RlncDecoder.represents_new enc.k enc.pieceSize, ?_⟩
  intro c r h
  cases h

theorem pieceSize_addPiece (d : RlncDecoder) (p : CodedPiece) :
    (d.addPiece p).1.pieceSize = d.pieceSize := by
  unfold RlncDecoder.addPiece
  split_ifs
  · rfl
  · rfl
  · dsimp only
    split <;> rfl

private theorem sound_addPiece {enc : RlncEncoder} {d : RlncDecoder} (h : Sound enc d)
    {p : CodedPiece} (hp : d.Fits p → enc.Codes p) : Sound enc (d.addPiece p).1 := by
  by_cases fits : d.Fits p
  · obtain ⟨size, E, rep, within⟩ := h
    refine ⟨(pieceSize_addPiece d p).trans size, (E.offer (RlncDecoder.pieceRow p)).1,
      (RlncDecoder.addPiece_of_fits rep fits).1, ?_⟩
    exact Echelon.offer_within within (pieceRow_mem (hp fits))
  · rw [RlncDecoder.addPiece_of_not_fits fits]
    exact h

private theorem sound_decode {enc : RlncEncoder} {d : RlncDecoder} (h : Sound enc d) :
    Sound enc d.decode.1 := by
  obtain ⟨size, E, rep, within⟩ := h
  cases full : d.isDecodable with
  | false =>
    rw [RlncDecoder.decode_of_short rep full]
    exact ⟨size, E, rep, within⟩
  | true =>
    obtain ⟨E', M, rep', _, _, keeps⟩ := RlncDecoder.decode_of_full rep full
    obtain ⟨matrix, decoded, same⟩ := d.decode_fst
    refine ⟨?_, E', rep', keeps _ within⟩
    rw [same]
    exact size

/-- Every piece handed to the decoder is either of the wrong dimensions, and then rejected,
or derived from the generation. -/
def Honest (B : Blake3) (enc : RlncEncoder) (calls : List Call) : Prop :=
  ∀ p, Call.addPiece p ∈ calls →
    p.codingVector.length ≠ enc.k ∨ p.data.length ≠ enc.pieceSize ∨ Derived B enc p

private theorem sound_run {enc : RlncEncoder} {data : Bytes} (splits : enc.Splits data)
    (calls : List Call) (honest : Honest B enc calls) {d : RlncDecoder} (h : Sound enc d) :
    Sound enc (run d calls) := by
  induction calls generalizing d with
  | nil => exact h
  | cons call calls ih =>
    have rest : Honest B enc calls := fun p hp => honest p (List.mem_cons_of_mem _ hp)
    apply ih rest
    cases call with
    | decode => exact sound_decode h
    | addPiece p =>
      apply sound_addPiece h
      rintro ⟨len, size⟩
      obtain ⟨same, E, rep, _⟩ := h
      rcases honest p List.mem_cons_self with wrong | wrong | derived
      · exact (wrong (len.trans rep.width)).elim
      · exact (wrong (size.trans same)).elim
      · exact derived_codes splits derived

theorem unit_codeword {enc : RlncEncoder} {row : Bytes} {c : ℕ} (hc : c < enc.k)
    (size : (enc.originalPieces.getD c []).length = enc.pieceSize)
    (len : row.length = enc.k + enc.pieceSize) (mem : vec row ∈ codewords enc)
    (unit : ∀ j < enc.k, vec row j = if c = j then 1 else 0) :
    row.drop enc.k = enc.originalPieces.getD c [] := by
  have only : enc.combine (vec row) = enc.block c := by
    rw [enc.combine_apply, Finset.sum_eq_single c]
    · rw [unit c hc, if_pos rfl, one_smul]
    · intro j hj other
      rw [unit j (Finset.mem_range.mp hj), if_neg (Ne.symm other), zero_smul]
    · intro missing
      exact (missing (Finset.mem_range.mpr hc)).elim
  apply eq_of_vec_eq
  · rw [List.length_drop, len, size, Nat.add_sub_cancel_left]
  · intro t _
    have shifted : vec (row.drop enc.k) t = vec row (enc.k + t) := by
      simp only [vec, List.getD_eq_getElem?_getD, List.getElem?_drop]
    rw [shifted, mem_codewords.mp mem t, only]
    rfl

/-- For all data and every generation size from 1 on, whatever honest calls were made, a
decoder that reports itself decodable returns the data followed by its zero padding. -/
theorem decode_returns_data (B : Blake3) (data : Bytes) (k : ℕ) (hk : 1 ≤ k) :
    ∃ enc : RlncEncoder, RlncEncoder.new B data k = .ok enc ∧
      ∀ calls : List Call, Honest B enc calls →
        (run (RlncDecoder.new k enc.pieceSize) calls).isDecodable = true →
        (run (RlncDecoder.new k enc.pieceSize) calls).decode.2 =
          .ok (data ++ List.replicate (k * enc.pieceSize - data.length) 0) := by
  obtain ⟨enc, henc⟩ : ∃ enc, RlncEncoder.new B data k = .ok enc := by
    unfold RlncEncoder.new
    rw [if_neg (by omega)]
    exact ⟨_, rfl⟩
  obtain ⟨rfl, splits⟩ := RlncEncoder.new_splits henc
  refine ⟨enc, henc, ?_⟩
  intro calls honest full
  obtain ⟨size, E, rep, within⟩ := sound_run splits calls honest (sound_new enc)
  generalize run (RlncDecoder.new enc.k enc.pieceSize) calls = d at full size rep
  obtain ⟨E', M, _, result, rows, keeps⟩ := RlncDecoder.decode_of_full rep full
  have blocks : (List.range enc.k).map (fun c => (M c).drop enc.k) = enc.originalPieces := by
    apply List.ext_getElem
    · rw [List.length_map, List.length_range, splits.count]
    · intro c _ hc
      obtain ⟨len, slot, unit⟩ := rows c (splits.count ▸ hc)
      have block : (enc.originalPieces.getD c []).length = enc.pieceSize := by
        rw [List.getD_eq_getElem _ _ hc]
        exact splits.size _ (List.getElem_mem hc)
      rw [List.getElem_map, List.getElem_range,
        unit_codeword (splits.count ▸ hc) block (by rw [len, size]) (keeps _ within c _ slot) unit,
        List.getD_eq_getElem _ _ hc]
  rw [result, blocks, splits.content]
  rfl

theorem decode_returns_data_recoded :
    let B : Blake3 := ⟨fun _ => Bytes32.fill 0, fun _ _ => 0⟩
    ∃ (enc : RlncEncoder) (p : CodedPiece), RlncEncoder.new B [7, 8, 9] 2 = .ok enc ∧
      recode B [enc.encodePiece B [1, 0], enc.encodePiece B [0, 1]] [1, 1] = .ok p ∧
      let d := run (RlncDecoder.new 2 enc.pieceSize)
        [.addPiece (enc.encodePiece B [0, 1]), .decode, .addPiece p]
      d.isDecodable = true ∧ d.decode.2 = .ok [7, 8, 9, 0] := by
  intro B
  obtain ⟨enc, henc, sound⟩ := decode_returns_data B [7, 8, 9] 2 (by decide)
  have shape : enc = ⟨2, 2, [[7, 8], [9, 0]], ⟨Bytes32.fill 0⟩⟩ := by
    cases henc
    decide +kernel
  obtain ⟨p, hp⟩ : ∃ p, recode B [enc.encodePiece B [1, 0], enc.encodePiece B [0, 1]] [1, 1] =
      .ok p := by
    rw [shape]
    exact ⟨_, rfl⟩
  have full : (run (RlncDecoder.new 2 enc.pieceSize)
      [.addPiece (enc.encodePiece B [0, 1]), .decode, .addPiece p]).isDecodable = true := by
    subst shape
    cases hp
    simp [run, step, RlncDecoder.new, RlncDecoder.addPiece, RlncDecoder.decode,
      RlncDecoder.eliminate, RlncDecoder.isDecodable, RlncEncoder.encodePiece, CodedPiece.new,
      mulAddAll, gfVecMulAdd, zipInto, gfInv_one, gfMul_one, List.range_succ, List.zipIdx,
      List.findIdx?_cons]
  have honest : Honest B enc [.addPiece (enc.encodePiece B [0, 1]), .decode, .addPiece p] := by
    have drawn (v : Bytes) (len : v.length = 2) : Derived B enc (enc.encodePiece B v) :=
      .encode v (by rw [shape]; exact len)
    have recoded : Derived B enc p := by
      refine .recode (fun q hq => ?_) rfl hp
      rcases List.mem_pair.mp hq with rfl | rfl
      · exact drawn [1, 0] rfl
      · exact drawn [0, 1] rfl
    intro q hq
    simp only [List.mem_cons, Call.addPiece.injEq, reduceCtorEq, List.not_mem_nil, or_false,
      false_or] at hq
    rcases hq with rfl | rfl
    · exact .inr (.inr (drawn [0, 1] rfl))
    · exact .inr (.inr recoded)
  refine ⟨enc, p, henc, hp, full, ?_⟩
  have result := sound _ honest full
  rw [result, shape]
  rfl

end Craftec.Rlnc.EndToEnd
