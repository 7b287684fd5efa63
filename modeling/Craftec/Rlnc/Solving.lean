/- GID: Craftec/Rlnc/Solving
   generality: I
   digest: The decoder on arbitrary pieces: its rank is a dimension and its output the one solution. -/

import Craftec.Library.RowSpan
import Craftec.Rlnc.EndToEnd

set_option autoImplicit false
set_option relaxedAutoImplicit false

namespace Craftec.Rlnc.Solving

open Craftec.Types.Digest (Bytes Bytes32)
open Craftec.Types.Piece (CodedPiece)
open Craftec.Library.ByteField (GF256)
open Craftec.Library.Elimination
open Craftec.Library.RowSpan
open Craftec.Rlnc.Gf256
open Craftec.Rlnc.Encoder (RlncEncoder RlncError)
open Craftec.Rlnc.Decoder
open Craftec.Rlnc.Decoder.RlncDecoder (pieceRow)
open Craftec.Rlnc.EndToEnd

/-- The coding vector of a piece as a vector of the field. -/
def vector (k : ℕ) (p : CodedPiece) : Fin k → GF256 := coefficients k (vec p.codingVector)

def fittingPiece (k pieceSize : ℕ) : Call → Option CodedPiece
  | .addPiece p => if p.codingVector.length = k ∧ p.data.length = pieceSize then some p else none
  | .decode => none

def fitting (k pieceSize : ℕ) (calls : List Call) : List CodedPiece :=
  calls.filterMap (fittingPiece k pieceSize)

/-- The pieces whose call returns `Ok(true)`. -/
def accepted : RlncDecoder → List Call → List CodedPiece
  | _, [] => []
  | d, .decode :: rest => accepted d.decode.1 rest
  | d, .addPiece p :: rest =>
    match (d.addPiece p).2 with
    | .ok true => p :: accepted (d.addPiece p).1 rest
    | _ => accepted (d.addPiece p).1 rest

/-- The decoder holds rows that span what the accepted pieces span, with coefficients
that span the coding vectors of all pieces handed in. -/
structure Tracks (k pieceSize : ℕ) (handed kept : List CodedPiece) (d : RlncDecoder) : Prop where
  size : d.pieceSize = pieceSize
  dimensions : ∀ p ∈ kept, p.codingVector.length = k ∧ p.data.length = pieceSize
  echelon : ∃ E : Echelon GF256 k, d.Represents E ∧ rowSpan E = listSpan GF256 pieceRow kept ∧
    (rowSpan E).map (coefficients k) = listSpan GF256 (vector k) handed

theorem tracks_new (k pieceSize : ℕ) : Tracks k pieceSize [] [] (RlncDecoder.new k pieceSize) := by
  refine ⟨rfl, fun p listed => absurd listed List.not_mem_nil, Echelon.empty,
    RlncDecoder.represents_new k pieceSize, ?_, ?_⟩
  · rw [rowSpan_empty, listSpan_nil]
  · rw [rowSpan_empty, listSpan_nil, Submodule.map_bot]

theorem coefficients_pieceRow {k : ℕ} {p : CodedPiece} (long : p.codingVector.length = k) :
    coefficients k (pieceRow p) = vector k p := by
  funext c
  change vec (p.codingVector ++ p.data) c = vec p.codingVector c
  rw [vec_append, if_pos (by rw [long]; exact c.isLt)]

section Calls

variable {k pieceSize : ℕ} {handed kept : List CodedPiece} {d : RlncDecoder} {p : CodedPiece}

theorem Tracks.fits_iff (tracks : Tracks k pieceSize handed kept d) :
    d.Fits p ↔ p.codingVector.length = k ∧ p.data.length = pieceSize := by
  obtain ⟨E, rep, -, -⟩ := tracks.echelon
  rw [RlncDecoder.Fits, rep.width, tracks.size]

theorem Tracks.flag (tracks : Tracks k pieceSize handed kept d) (fits : d.Fits p) :
    ∃ fresh, (d.addPiece p).2 = .ok fresh ∧
      (fresh = true ↔ vector k p ∉ listSpan GF256 (vector k) handed) := by
  obtain ⟨E, rep, -, coded⟩ := tracks.echelon
  have long := (tracks.fits_iff.mp fits).1
  refine ⟨_, (RlncDecoder.addPiece_of_fits rep fits).2, ?_⟩
  rw [offer_snd, coefficients_pieceRow long, coded]

theorem Tracks.offered (tracks : Tracks k pieceSize handed kept d) (fits : d.Fits p) {fresh : Bool}
    (result : (d.addPiece p).2 = .ok fresh) :
    Tracks k pieceSize (handed ++ [p]) (kept ++ if fresh then [p] else []) (d.addPiece p).1 := by
  obtain ⟨E, rep, spans, coded⟩ := tracks.echelon
  have dimensions := tracks.fits_iff.mp fits
  obtain ⟨rep', flag⟩ := RlncDecoder.addPiece_of_fits rep fits
  rw [result, Except.ok.injEq] at flag
  have vectors : ((rowSpan (E.offer (pieceRow p)).1).map (coefficients k)) =
      listSpan GF256 (vector k) (handed ++ [p]) := by
    rw [map_rowSpan_offer, coefficients_pieceRow dimensions.1, coded, listSpan_append,
      listSpan_singleton]
  refine ⟨(pieceSize_addPiece d p).trans tracks.size, ?_, _, rep', ?_, vectors⟩
  · intro q listed
    rcases List.mem_append.mp listed with old | new
    · exact tracks.dimensions q old
    · cases fresh with
      | true =>
        rw [List.mem_singleton.mp new]
        exact dimensions
      | false => cases new
  · cases fresh with
    | true => rw [rowSpan_offer flag.symm, spans, if_pos rfl, listSpan_append, listSpan_singleton]
    | false => rw [offer_of_dropped flag.symm, spans, if_neg Bool.false_ne_true, List.append_nil]

theorem Tracks.decoded (tracks : Tracks k pieceSize handed kept d) :
    Tracks k pieceSize handed kept d.decode.1 := by
  obtain ⟨E, rep, spans, coded⟩ := tracks.echelon
  cases full : d.isDecodable with
  | false =>
    rw [RlncDecoder.decode_of_short rep full]
    exact tracks
  | true =>
    obtain ⟨E', M, rep', -, -, keeps⟩ := RlncDecoder.decode_of_full rep full
    obtain ⟨matrix, decoded, same⟩ := d.decode_fst
    have rank : E'.rank = k := by
      rw [← rep'.rank, same, ← rep.width]
      exact of_decide_eq_true full
    have equal : rowSpan E' = rowSpan E :=
      rowSpan_eq_of_le (rowSpan_le.mpr (keeps _ (within_rowSpan E))) rank
    refine ⟨?_, tracks.dimensions, E', rep', equal.trans spans, ?_⟩
    · rw [same]
      exact tracks.size
    · rw [equal, coded]

theorem addPiece_error (wrong : ¬ d.Fits p) : ∃ e, (d.addPiece p).2 = .error e := by
  unfold RlncDecoder.addPiece
  by_cases long : p.codingVector.length = d.k
  · rw [if_neg (not_not.mpr long), if_pos fun size => wrong ⟨long, size⟩]
    exact ⟨_, rfl⟩
  · rw [if_pos long]
    exact ⟨_, rfl⟩

theorem Tracks.run (tracks : Tracks k pieceSize handed kept d) (calls : List Call) :
    Tracks k pieceSize (handed ++ fitting k pieceSize calls) (kept ++ accepted d calls)
      (run d calls) := by
  induction calls generalizing handed kept d with
  | nil =>
    rw [fitting, accepted, List.filterMap_nil, List.append_nil, List.append_nil]
    exact tracks
  | cons call calls ih =>
    cases call with
    | decode => exact ih tracks.decoded
    | addPiece p =>
      by_cases fits : d.Fits p
      · obtain ⟨fresh, result, -⟩ := tracks.flag fits
        have later := ih (tracks.offered fits result)
        have taken : fitting k pieceSize (.addPiece p :: calls) = p :: fitting k pieceSize calls :=
          List.filterMap_cons_some (if_pos (tracks.fits_iff.mp fits))
        have grown : accepted d (.addPiece p :: calls) =
            (if fresh then [p] else []) ++ accepted (d.addPiece p).1 calls := by
          rw [accepted, result]
          cases fresh <;> rfl
        rw [taken, grown, ← List.append_assoc, List.append_cons]
        exact later
      · obtain ⟨e, result⟩ := addPiece_error fits
        have unchanged := RlncDecoder.addPiece_of_not_fits fits
        have skipped : fitting k pieceSize (.addPiece p :: calls) = fitting k pieceSize calls :=
          List.filterMap_cons_none (if_neg fun right => fits (tracks.fits_iff.mpr right))
        have same : accepted d (.addPiece p :: calls) = accepted d calls := by
          rw [accepted, result, unchanged]
        rw [skipped, same]
        change Tracks _ _ _ _ (EndToEnd.run (d.addPiece p).1 calls)
        rw [unchanged]
        exact ih tracks

end Calls

theorem tracks_run (k pieceSize : ℕ) (calls : List Call) :
    Tracks k pieceSize (fitting k pieceSize calls) (accepted (RlncDecoder.new k pieceSize) calls)
      (run (RlncDecoder.new k pieceSize) calls) :=
  (tracks_new k pieceSize).run calls

/-! The rank -/

theorem Tracks.rank_eq {k pieceSize : ℕ} {handed kept : List CodedPiece} {d : RlncDecoder}
    (tracks : Tracks k pieceSize handed kept d) :
    d.rank = Module.finrank GF256 (listSpan GF256 (vector k) handed) := by
  obtain ⟨E, rep, -, coded⟩ := tracks.echelon
  rw [rep.rank, rank_eq_finrank, coded]

/-- Whatever was handed in before, the rank is the dimension of the span of the coding
vectors of the pieces that fit; a piece that fits raises it exactly when its coding vector is
outside that span, a piece that does not fit changes nothing; and the order is irrelevant. -/
theorem rank_is_dimension (k pieceSize : ℕ) (calls : List Call) :
    let d := run (RlncDecoder.new k pieceSize) calls
    let vectors := listSpan GF256 (vector k) (fitting k pieceSize calls)
    d.rank = Module.finrank GF256 vectors ∧
      (∀ p : CodedPiece, p.codingVector.length = k → p.data.length = pieceSize →
        ∃ fresh, (d.addPiece p).2 = .ok fresh ∧ (fresh = true ↔ vector k p ∉ vectors)) ∧
      (∀ p : CodedPiece, ¬ (p.codingVector.length = k ∧ p.data.length = pieceSize) →
        (d.addPiece p).1 = d ∧ ∃ e, (d.addPiece p).2 = .error e) ∧
      ∀ reordered : List Call, reordered.Perm calls →
        (run (RlncDecoder.new k pieceSize) reordered).rank = d.rank := by
  intro d vectors
  have tracks : Tracks k pieceSize _ _ d := tracks_run k pieceSize calls
  refine ⟨tracks.rank_eq, ?_, ?_, ?_⟩
  · intro p long size
    exact tracks.flag (tracks.fits_iff.mpr ⟨long, size⟩)
  · intro p wrong
    have misfit : ¬ d.Fits p := fun fits => wrong (tracks.fits_iff.mp fits)
    exact ⟨RlncDecoder.addPiece_of_not_fits misfit, addPiece_error misfit⟩
  · intro reordered same
    have handed : (fitting k pieceSize reordered).Perm (fitting k pieceSize calls) := same.filterMap _
    rw [(tracks_run k pieceSize reordered).rank_eq, tracks.rank_eq, listSpan_perm handed]

/-! The solution -/

/-- `k` blocks of the size of a piece. -/
structure Blocks (k pieceSize : ℕ) (X : List Bytes) : Prop where
  count : X.length = k
  size : ∀ block ∈ X, block.length = pieceSize

/-- The data of every piece is the combination of the blocks that its coding vector
calls for. -/
def Solves (k : ℕ) (pieces : List CodedPiece) (X : List Bytes) : Prop :=
  ∀ p ∈ pieces, vec p.data = ∑ j ∈ Finset.range k, vec p.codingVector j • vec (X.getD j [])

private theorem vec_drop (row : Bytes) (k t : ℕ) : vec (row.drop k) t = vec row (k + t) := by
  simp only [vec, List.getD_eq_getElem?_getD, List.getElem?_drop]

section Solved

variable {k pieceSize : ℕ} {handed kept : List CodedPiece} {d : RlncDecoder}

theorem solves_of_unit {E : Echelon GF256 k} {M : ℕ → Bytes} (long : ∀ p ∈ kept, p.codingVector.length = k)
    (spans : listSpan GF256 pieceRow kept ≤ rowSpan E)
    (slots : ∀ c < k, E.slot c = some (vec (M c)))
    (unit : ∀ c < k, ∀ j < k, vec (M c) j = if c = j then 1 else 0) :
    Solves k kept ((List.range k).map fun c => (M c).drop k) := by
  intro p listed
  have row := eq_sum_of_unit slots unit (spans (mem_listSpan listed))
  funext t
  have data : pieceRow p (k + t) = vec p.data t := by
    rw [pieceRow, vec_append, if_neg (by rw [long p listed]; omega), long p listed,
      Nat.add_sub_cancel_left]
  rw [← data, congrFun row (k + t), Finset.sum_apply, Finset.sum_apply]
  refine Finset.sum_congr rfl fun c inside => ?_
  have below := Finset.mem_range.mp inside
  have coefficient : pieceRow p c = vec p.codingVector c := by
    rw [pieceRow, vec_append, if_pos (by rw [long p listed]; exact below)]
  have block : ((List.range k).map fun c => (M c).drop k).getD c [] = (M c).drop k := by
    rw [List.getD_eq_getElem _ _ (by simpa using below), List.getElem_map, List.getElem_range]
  rw [coefficient, block, Pi.smul_apply, Pi.smul_apply, vec_drop]

theorem eq_of_solves {E : Echelon GF256 k} {M : ℕ → Bytes} (long : ∀ p ∈ kept, p.codingVector.length = k)
    (sizes : ∀ p ∈ kept, p.data.length = pieceSize)
    (spans : rowSpan E ≤ listSpan GF256 pieceRow kept)
    (rows : ∀ c < k, (M c).length = k + pieceSize ∧ E.slot c = some (vec (M c)) ∧
      ∀ j < k, vec (M c) j = if c = j then 1 else 0)
    {Y : List Bytes} (blocks : Blocks k pieceSize Y) (solves : Solves k kept Y) :
    Y = (List.range k).map fun c => (M c).drop k := by
  -- An encoder with these source pieces has the accepted pieces as its codewords.
  let enc : RlncEncoder := ⟨k, pieceSize, Y, ⟨Bytes32.fill 0⟩⟩
  have codes : listSpan GF256 pieceRow kept ≤ codewords enc := by
    rw [listSpan_le]
    intro p listed
    refine pieceRow_mem ⟨long p listed, sizes p listed, ?_⟩
    rw [enc.combine_apply]
    exact solves p listed
  refine List.ext_getElem (by simp [blocks.count]) fun c inside _ => ?_
  have below : c < k := blocks.count ▸ inside
  obtain ⟨len, slot, unit⟩ := rows c below
  have source : enc.originalPieces.getD c [] = Y[c] := List.getD_eq_getElem _ _ inside
  have size : (enc.originalPieces.getD c []).length = enc.pieceSize := by
    rw [source]
    exact blocks.size _ (List.getElem_mem inside)
  have codeword : vec (M c) ∈ codewords enc := codes (spans (within_rowSpan E c _ slot))
  have carried : (M c).drop k = enc.originalPieces.getD c [] :=
    unit_codeword below size len codeword unit
  rw [List.getElem_map, List.getElem_range, carried, source]

theorem Tracks.solution (tracks : Tracks k pieceSize handed kept d) (full : d.rank = k) :
    ∃ X, d.decode.2 = .ok X.flatten ∧ Blocks k pieceSize X ∧ Solves k kept X ∧
      ∀ Y, Blocks k pieceSize Y → Solves k kept Y → Y = X := by
  obtain ⟨E, rep, spans, -⟩ := tracks.echelon
  have decodable : d.isDecodable = true := decide_eq_true (full.trans rep.width.symm)
  obtain ⟨E', M, rep', result, rows, keeps⟩ := RlncDecoder.decode_of_full rep decodable
  rw [tracks.size] at rows
  have within : rowSpan E' ≤ rowSpan E := rowSpan_le.mpr (keeps _ (within_rowSpan E))
  have rank : E'.rank = k := by
    obtain ⟨matrix, decoded, same⟩ := d.decode_fst
    rw [← rep'.rank, same]
    exact full
  refine ⟨_, result, ⟨by simp, ?_⟩, ?_, ?_⟩
  · intro block listed
    obtain ⟨c, inside, rfl⟩ := List.mem_map.mp listed
    rw [List.length_drop, (rows c (List.mem_range.mp inside)).1, Nat.add_sub_cancel_left]
  · refine solves_of_unit (fun p listed => (tracks.dimensions p listed).1) ?_
      (fun c below => (rows c below).2.1) (fun c below => (rows c below).2.2)
    rw [rowSpan_eq_of_le within rank, spans]
  · intro Y blocks solves
    exact eq_of_solves (fun p listed => (tracks.dimensions p listed).1)
      (fun p listed => (tracks.dimensions p listed).2) (within.trans spans.le) rows blocks solves

theorem Tracks.refuses (tracks : Tracks k pieceSize handed kept d)
    (all : listSpan GF256 (vector k) handed = ⊤) {p : CodedPiece} (fits : d.Fits p) :
    (d.addPiece p).2 = .ok false := by
  obtain ⟨fresh, result, new⟩ := tracks.flag fits
  cases fresh with
  | false => exact result
  | true =>
    refine absurd ?_ (new.mp rfl)
    rw [all]
    exact Submodule.mem_top

theorem Tracks.accepted_eq_nil (tracks : Tracks k pieceSize handed kept d)
    (all : listSpan GF256 (vector k) handed = ⊤) (calls : List Call) : accepted d calls = [] := by
  induction calls generalizing handed kept d with
  | nil => rfl
  | cons call calls ih =>
    cases call with
    | decode => exact ih tracks.decoded all
    | addPiece p =>
      by_cases fits : d.Fits p
      · have refused := tracks.refuses all fits
        have still : listSpan GF256 (vector k) (handed ++ [p]) = ⊤ := by
          rw [listSpan_append, all, top_sup_eq]
        rw [accepted, refused]
        exact ih (tracks.offered fits refused) still
      · obtain ⟨e, result⟩ := addPiece_error fits
        rw [accepted, result, RlncDecoder.addPiece_of_not_fits fits]
        exact ih tracks all

theorem Tracks.rank_eq_iff (tracks : Tracks k pieceSize handed kept d) :
    d.rank = k ↔ listSpan GF256 (vector k) handed = ⊤ := by
  rw [tracks.rank_eq, Submodule.eq_top_iff_finrank_eq, Module.finrank_fin_fun]

end Solved

/-- In every state a client can bring the decoder to, `decode` succeeds at full rank and
reports too few pieces otherwise. Its blocks are then the one solution of the system of the
accepted pieces, whatever their data; later pieces that fit are dependent, and decoding again
returns the same bytes. No piece ever overwrites a slot in use. -/
theorem decode_solves_accepted (k pieceSize : ℕ) (calls : List Call) :
    let d := run (RlncDecoder.new k pieceSize) calls
    let system := accepted (RlncDecoder.new k pieceSize) calls
    (d.rank ≠ k → d.decode = (d, .error (.insufficientPieces d.rank k))) ∧
      (d.rank = k → ∃ X, d.decode.2 = .ok X.flatten ∧ Blocks k pieceSize X ∧ Solves k system X ∧
        (∀ Y, Blocks k pieceSize Y → Solves k system Y → Y = X) ∧
        ∀ more : List Call,
          (∀ p : CodedPiece, p.codingVector.length = k → p.data.length = pieceSize →
            ((run d.decode.1 more).addPiece p).2 = .ok false) ∧
          (run d.decode.1 more).decode.2 = .ok X.flatten) ∧
      ∀ (p : CodedPiece) (c : ℕ), d.pivotCol.getD c none ≠ none →
        (d.addPiece p).1.matrix.getD c [] = d.matrix.getD c [] ∧
          (d.addPiece p).1.pivotCol.getD c none = d.pivotCol.getD c none := by
  intro d system
  have tracks : Tracks k pieceSize _ system d := tracks_run k pieceSize calls
  obtain ⟨E, rep, -, -⟩ := tracks.echelon
  refine ⟨?_, ?_, ?_⟩
  · intro short
    have refused := RlncDecoder.decode_of_short rep (decide_eq_false (by rwa [rep.width]))
    rwa [rep.width] at refused
  · intro full
    obtain ⟨X, result, blocks, solves, only⟩ := tracks.solution full
    refine ⟨X, result, blocks, solves, only, ?_⟩
    intro more
    have all := tracks.rank_eq_iff.mp full
    have later := tracks.decoded.run more
    rw [tracks.decoded.accepted_eq_nil all more, List.append_nil] at later
    have still : listSpan GF256 (vector k) (fitting k pieceSize calls ++ fitting k pieceSize more) =
        ⊤ := by
      rw [listSpan_append, all, top_sup_eq]
    refine ⟨fun p long size => later.refuses still (later.fits_iff.mpr ⟨long, size⟩), ?_⟩
    obtain ⟨X', result', blocks', solves', -⟩ := later.solution (later.rank_eq_iff.mpr still)
    rw [result', only X' blocks' solves']
  · intro p c used
    exact RlncDecoder.addPiece_keeps rep p used

end Craftec.Rlnc.Solving
