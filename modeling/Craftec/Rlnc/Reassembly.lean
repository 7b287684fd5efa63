/- GID: Craftec/Rlnc/Reassembly
   generality: I
   digest: The engine's decoding of a batch: skipped pieces, the early stop, and exactly when data comes back. -/

import Mathlib
import Craftec.Library.Run
import Craftec.Rlnc.Engine
import Craftec.Rlnc.Recoding
import Craftec.Rlnc.Solving

set_option autoImplicit false
set_option relaxedAutoImplicit false

namespace Craftec.Rlnc.Reassembly

open Craftec.Library.ByteField (GF256)
open Craftec.Library.RowSpan
open Craftec.Library.Run (Reach anyStep exists_reach)
open Craftec.Rlnc.Decoder
open Craftec.Rlnc.Decoder.RlncDecoder (pieceRow)
open Craftec.Rlnc.Encoder
open Craftec.Rlnc.EndToEnd (Call Derived derived_codes codewords pieceRow_mem run)
open Craftec.Rlnc.Engine (EngineError encode encodeN of_encode)
open Craftec.Rlnc.Gf256 (vec)
open Craftec.Rlnc.Recoding (Uniform pieceRow_recode uniform_recode)
open Craftec.Rlnc.Solving
open Craftec.Types.Digest (Bytes Bytes32 Blake3)
open Craftec.Types.Piece (CodedPiece)

/-- The loop of the engine's `decode`: a malformed piece is skipped, any other error ends it,
and nothing more is read once the rank is full. -/
def feed (d : RlncDecoder) : List CodedPiece → Except RlncError RlncDecoder
  | [] => .ok d
  | piece :: rest =>
    match (d.addPiece piece).2 with
    | .ok _ | .error (.codingVectorLengthMismatch _ _) | .error (.invalidPieceSize _ _) =>
      if (d.addPiece piece).1.isDecodable then .ok (d.addPiece piece).1
      else feed (d.addPiece piece).1 rest
    | .error e => .error e

/-- `decode` of the engine, whose semaphore may be closed. -/
def decode (closed : Bool) (k pieceSize : ℕ) (pieces : List CodedPiece) : Except EngineError Bytes :=
  if closed then .error .semaphoreError
  else
    match feed (RlncDecoder.new k pieceSize) pieces with
    | .error e => .error (.rlnc e)
    | .ok d => d.decode.2.mapError .rlnc

def handAll (k pieceSize : ℕ) (pieces : List CodedPiece) : RlncDecoder :=
  run (RlncDecoder.new k pieceSize) (pieces.map .addPiece)

theorem handAll_append (k pieceSize : ℕ) (front back : List CodedPiece) :
    handAll k pieceSize (front ++ back) =
      run (run (RlncDecoder.new k pieceSize) (front.map .addPiece)) (back.map .addPiece) := by
  rw [handAll, List.map_append]
  exact List.foldl_append

section Loop

variable {k pieceSize : ℕ} {handed kept : List CodedPiece} {d : RlncDecoder}

theorem feed_cons (d : RlncDecoder) (piece : CodedPiece) (rest : List CodedPiece) :
    feed d (piece :: rest) =
      if (d.addPiece piece).1.isDecodable then .ok (d.addPiece piece).1
      else feed (d.addPiece piece).1 rest := by
  rw [feed]
  by_cases long : piece.codingVector.length = d.k
  · by_cases size : piece.data.length = d.pieceSize
    · have added : ∃ fresh, (d.addPiece piece).2 = .ok fresh := by
        unfold RlncDecoder.addPiece
        rw [if_neg (not_not.mpr long), if_neg (not_not.mpr size)]
        dsimp only
        split
        · exact ⟨false, rfl⟩
        · exact ⟨true, rfl⟩
      obtain ⟨fresh, result⟩ := added
      rw [result]
    · have result : (d.addPiece piece).2 =
          .error (.invalidPieceSize d.pieceSize piece.data.length) := by
        unfold RlncDecoder.addPiece
        rw [if_neg (not_not.mpr long), if_pos size]
      rw [result]
  · have result : (d.addPiece piece).2 =
        .error (.codingVectorLengthMismatch d.k piece.codingVector.length) := by
      unfold RlncDecoder.addPiece
      rw [if_pos long]
    rw [result]

theorem feed_prefix (d : RlncDecoder) (pieces : List CodedPiece) :
    ∃ front back, pieces = front ++ back ∧ feed d pieces = .ok (run d (front.map .addPiece)) ∧
      (back ≠ [] → (run d (front.map .addPiece)).isDecodable = true) := by
  induction pieces generalizing d with
  | nil => exact ⟨[], [], rfl, rfl, fun some_ => absurd rfl some_⟩
  | cons piece rest ih =>
    rw [feed_cons]
    cases full : (d.addPiece piece).1.isDecodable with
    | true => exact ⟨[piece], rest, rfl, rfl, fun _ => full⟩
    | false =>
      obtain ⟨front, back, rfl, fed, stopped⟩ := ih (d.addPiece piece).1
      exact ⟨piece :: front, back, rfl, fed, stopped⟩

theorem decode_run_of_full (tracks : Tracks k pieceSize handed kept d) (full : d.rank = k)
    (calls : List Call) : (run d calls).decode.2 = d.decode.2 := by
  have all := tracks.rank_eq_iff.mp full
  have later := tracks.run calls
  rw [tracks.accepted_eq_nil all calls, List.append_nil] at later
  have still : listSpan GF256 (vector k) (handed ++ fitting k pieceSize calls) = ⊤ := by
    rw [listSpan_append, all, top_sup_eq]
  obtain ⟨X, result, blocks, solves, -⟩ := tracks.solution full
  obtain ⟨Y, result', -, -, only⟩ := later.solution (later.rank_eq_iff.mpr still)
  rw [result, result', only X blocks solves]

end Loop

theorem decode_as_all (k pieceSize : ℕ) (pieces : List CodedPiece) :
    decode false k pieceSize pieces = (handAll k pieceSize pieces).decode.2.mapError .rlnc := by
  obtain ⟨front, back, rfl, fed, stopped⟩ := feed_prefix (RlncDecoder.new k pieceSize) pieces
  have read : decode false k pieceSize (front ++ back) =
      (run (RlncDecoder.new k pieceSize) (front.map .addPiece)).decode.2.mapError .rlnc := by
    rw [decode, if_neg Bool.false_ne_true, fed]
  rw [read, handAll_append]
  by_cases rest : back = []
  · subst rest
    rfl
  · have tracks := tracks_run k pieceSize (front.map .addPiece)
    obtain ⟨E, rep, -, -⟩ := tracks.echelon
    have full : (run (RlncDecoder.new k pieceSize) (front.map .addPiece)).rank = k :=
      (of_decide_eq_true (stopped rest)).trans rep.width
    rw [decode_run_of_full tracks full]

/-- Every piece is malformed, or was derived from the generation by encoding and recoding. -/
def Genuine (B : Blake3) (enc : RlncEncoder) (pieces : List CodedPiece) : Prop :=
  ∀ p ∈ pieces, (p.codingVector.length = enc.k ∧ p.data.length = enc.pieceSize) → Derived B enc p

/-- The dimension of the coding vectors among the pieces of the right dimensions. -/
noncomputable def dimension (k pieceSize : ℕ) (pieces : List CodedPiece) : ℕ :=
  Module.finrank GF256 (listSpan GF256 (vector k) (fitting k pieceSize (pieces.map .addPiece)))

theorem rank_handAll (k pieceSize : ℕ) (pieces : List CodedPiece) :
    (handAll k pieceSize pieces).rank = dimension k pieceSize pieces :=
  (tracks_run k pieceSize (pieces.map .addPiece)).rank_eq

theorem decode_handAll_of_short {k pieceSize : ℕ} {pieces : List CodedPiece}
    (short : dimension k pieceSize pieces ≠ k) :
    (handAll k pieceSize pieces).decode.2 =
      .error (.insufficientPieces (dimension k pieceSize pieces) k) := by
  obtain ⟨E, rep, -, -⟩ := (tracks_run k pieceSize (pieces.map .addPiece)).echelon
  have lacking : (handAll k pieceSize pieces).isDecodable = false := by
    refine decide_eq_false ?_
    rw [rank_handAll]
    intro same
    exact short (same.trans rep.width)
  have refused := RlncDecoder.decode_of_short rep lacking
  rw [rep.width] at refused
  rw [← rank_handAll]
  exact congrArg Prod.snd refused

/-- Whatever the pieces of a batch contain, the engine decodes it exactly when the coding vectors
of those with the right dimensions span everything, and else names their dimension. The blocks it
returns are the one solution of the pieces that raised the rank, and no piece that comes after
them changes the answer. -/
theorem decode_batch_exact (k pieceSize : ℕ) (pieces : List CodedPiece) :
    let kept := accepted (RlncDecoder.new k pieceSize) (pieces.map .addPiece)
    (dimension k pieceSize pieces ≠ k → decode false k pieceSize pieces =
        .error (.rlnc (.insufficientPieces (dimension k pieceSize pieces) k))) ∧
      (dimension k pieceSize pieces = k → ∃ X, Blocks k pieceSize X ∧ Solves k kept X ∧
        (∀ Y, Blocks k pieceSize Y → Solves k kept Y → Y = X) ∧
        ∀ more, decode false k pieceSize (pieces ++ more) = .ok X.flatten) := by
  intro kept
  constructor
  · intro short
    rw [decode_as_all, decode_handAll_of_short short]
    rfl
  · intro full
    have tracks := tracks_run k pieceSize (pieces.map .addPiece)
    have rank := (rank_handAll k pieceSize pieces).trans full
    obtain ⟨X, result, blocks, solves, only⟩ := tracks.solution rank
    refine ⟨X, blocks, solves, only, fun more => ?_⟩
    rw [decode_as_all, handAll_append, decode_run_of_full tracks rank, result]
    rfl

section Recovery

variable {B : Blake3} {enc : RlncEncoder} {data : Bytes} {pieces : List CodedPiece}

theorem mem_of_accepted (d : RlncDecoder) (calls : List Call) {p : CodedPiece}
    (listed : p ∈ accepted d calls) : .addPiece p ∈ calls := by
  induction calls generalizing d with
  | nil => cases listed
  | cons call calls ih =>
    cases call with
    | decode => exact List.mem_cons_of_mem _ (ih _ listed)
    | addPiece q =>
      rw [accepted] at listed
      split at listed
      · rcases List.mem_cons.mp listed with rfl | later
        · exact List.mem_cons_self
        · exact List.mem_cons_of_mem _ (ih _ later)
      · exact List.mem_cons_of_mem _ (ih _ listed)

theorem solves_source (splits : enc.Splits data) (genuine : ∀ p ∈ pieces, Derived B enc p) :
    Solves enc.k pieces enc.originalPieces := by
  intro p listed
  have codes := derived_codes splits (genuine p listed)
  rw [codes.data, enc.combine_apply]
  rfl

theorem decode_handAll (splits : enc.Splits data) (genuine : Genuine B enc pieces) :
    (handAll enc.k enc.pieceSize pieces).decode.2 =
      if dimension enc.k enc.pieceSize pieces = enc.k then .ok (padded data enc.k enc.pieceSize)
      else .error (.insufficientPieces (dimension enc.k enc.pieceSize pieces) enc.k) := by
  by_cases full : dimension enc.k enc.pieceSize pieces = enc.k
  · rw [if_pos full]
    have tracks := tracks_run enc.k enc.pieceSize (pieces.map .addPiece)
    obtain ⟨X, result, -, -, only⟩ := tracks.solution ((rank_handAll _ _ _).trans full)
    have source : Solves enc.k (accepted (RlncDecoder.new enc.k enc.pieceSize)
        (pieces.map .addPiece)) enc.originalPieces := by
      refine solves_source (B := B) splits fun p listed => ?_
      obtain ⟨q, among, same⟩ := List.mem_map.mp (mem_of_accepted _ _ listed)
      cases same
      exact genuine p among (tracks.dimensions p listed)
    rw [handAll, result, ← only _ ⟨splits.count, splits.size⟩ source, splits.content]
  · rw [if_neg full, decode_handAll_of_short full]

end Recovery

/-- What the engine has encoded it decodes again from whatever arrives: pieces lost, repeated,
reordered, recoded to any depth and mixed with malformed ones. The data comes back, with its zero
padding, exactly when the coding vectors that arrived span everything; otherwise the error names
their dimension. -/
theorem decode_recovers_iff {B : Blake3} {round : ℚ → ℚ} {closed : Bool} {data : Bytes} {k : ℕ}
    {vectors : ℕ → Bytes} {made : List CodedPiece}
    (encoded : encode B round closed data k vectors = .ok made) :
    ∃ enc, RlncEncoder.new B data k = .ok enc ∧
      ∀ pieces, Genuine B enc pieces →
        decode false k enc.pieceSize pieces =
          if dimension k enc.pieceSize pieces = k then .ok (padded data k enc.pieceSize)
          else .error (.rlnc (.insufficientPieces (dimension k enc.pieceSize pieces) k)) := by
  obtain ⟨enc, new, -⟩ := of_encode encoded
  obtain ⟨rfl, splits⟩ := RlncEncoder.new_splits new
  refine ⟨enc, new, fun pieces genuine => ?_⟩
  rw [decode_as_all, decode_handAll splits genuine]
  split <;> rfl

theorem decode_recovers_recoded :
    let B : Blake3 := ⟨fun _ => Bytes32.fill 0, fun _ _ => 0⟩
    ∃ (enc : RlncEncoder) (p : CodedPiece), RlncEncoder.new B [7, 8, 9] 2 = .ok enc ∧
      recode B [enc.encodePiece B [1, 0], enc.encodePiece B [0, 1]] [1, 1] = .ok p ∧
      decode false 2 enc.pieceSize
        [{ p with codingVector := [1] }, enc.encodePiece B [0, 1], p] = .ok [7, 8, 9, 0] := by
  intro B
  have encoded : ∃ made, encode B id false [7, 8, 9] 2 (fun _ => [1, 1]) = .ok made := ⟨_, rfl⟩
  obtain ⟨enc, new, recovers⟩ := decode_recovers_iff encoded.choose_spec
  have shape : enc = ⟨2, 2, [[7, 8], [9, 0]], ⟨Bytes32.fill 0⟩⟩ := by
    cases new
    decide +kernel
  obtain ⟨p, recoded⟩ : ∃ p, recode B [enc.encodePiece B [1, 0], enc.encodePiece B [0, 1]] [1, 1] =
      .ok p := by
    rw [shape]
    exact ⟨_, rfl⟩
  have full : dimension 2 enc.pieceSize [{ p with codingVector := [1] }, enc.encodePiece B [0, 1], p] =
      2 := by
    rw [← rank_handAll]
    subst shape
    cases recoded
    simp [handAll, run, EndToEnd.step, RlncDecoder.new, RlncDecoder.addPiece, RlncDecoder.eliminate,
      RlncEncoder.encodePiece, CodedPiece.new, Gf256.mulAddAll, Gf256.gfVecMulAdd, Gf256.zipInto,
      Gf256.gfInv_one, Gf256.gfMul_one, List.range_succ, List.zipIdx, List.findIdx?_cons]
  refine ⟨enc, p, new, recoded, ?_⟩
  rw [recovers, if_pos full, shape]
  · rfl
  · have drawn (v : Bytes) (len : v.length = 2) : Derived B enc (enc.encodePiece B v) :=
      .encode v (by rw [shape]; exact len)
    intro q listed dimensions
    simp only [List.mem_cons, List.not_mem_nil, or_false] at listed
    rcases listed with rfl | rfl | rfl
    · rw [shape] at dimensions
      cases dimensions.1
    · exact drawn [0, 1] rfl
    · refine .recode (fun r among => ?_) rfl recoded
      rcases List.mem_pair.mp among with rfl | rfl
      · exact drawn [1, 0] rfl
      · exact drawn [0, 1] rfl

section Network

/-! Everything that is left of a generation: pieces get lost anywhere, and any holder recodes
what it finds. -/

variable (B : Blake3)

inductive Event where
  | lose (i : ℕ)
  | recode (inputs : List ℕ) (scalars : Bytes)

def step (net : List CodedPiece) : Event → Option (List CodedPiece)
  | .lose i => some (net.eraseIdx i)
  | .recode inputs scalars =>
    match recode B (inputs.filterMap (net[·]?)) scalars with
    | .ok p => some (net ++ [p])
    | .error _ => none

variable {B} {k n : ℕ} {net later : List CodedPiece}

theorem step_span {event : Event} (uniform : Uniform k n net)
    (taken : step B net event = some later) :
    Uniform k n later ∧ listSpan GF256 pieceRow later ≤ listSpan GF256 pieceRow net := by
  cases event with
  | lose i =>
    cases taken
    refine ⟨fun q listed => uniform q (List.mem_of_mem_eraseIdx listed), ?_⟩
    exact listSpan_le.mpr fun q listed => mem_listSpan (List.mem_of_mem_eraseIdx listed)
  | recode inputs scalars =>
    simp only [step] at taken
    split at taken
    · rename_i p result
      cases taken
      have held : ∀ q ∈ inputs.filterMap (net[·]?), q ∈ net := by
        intro q listed
        obtain ⟨i, -, found⟩ := List.mem_filterMap.mp listed
        exact List.mem_of_getElem? found
      have alike : Uniform k n (inputs.filterMap (net[·]?)) := fun q listed => uniform q (held q listed)
      have row : pieceRow p ∈ listSpan GF256 pieceRow net := by
        rw [pieceRow_recode result alike]
        exact (listSpan_le.mpr fun q listed => mem_listSpan (held q listed)) (combination_mem _ _)
      refine ⟨?_, ?_⟩
      · intro q listed
        rcases List.mem_append.mp listed with old | new
        · exact uniform q old
        · rw [List.mem_singleton.mp new]
          exact uniform_recode result alike
      · rw [listSpan_append, listSpan_singleton]
        exact sup_le le_rfl ((Submodule.span_singleton_le_iff_mem _ _).mpr row)
    · cases taken

theorem reach_span (uniform : Uniform k n net) (reach : Reach (step B) anyStep net later) :
    Uniform k n later ∧ listSpan GF256 pieceRow later ≤ listSpan GF256 pieceRow net := by
  let inv (l : List CodedPiece) : Prop :=
    Uniform k n l ∧ listSpan GF256 pieceRow l ≤ listSpan GF256 pieceRow net
  have kept : inv later := by
    refine reach.invariant ⟨uniform, le_rfl⟩ ?_
    rintro u event v ⟨alike, below⟩ - taken
    obtain ⟨alike', below'⟩ := step_span alike taken
    exact ⟨alike', below'.trans below⟩
  exact kept

theorem listSpan_vector (uniform : Uniform k n net) :
    listSpan GF256 (vector k) net = (listSpan GF256 pieceRow net).map (coefficients k) := by
  rw [listSpan, listSpan, Submodule.map_span, Set.image_image]
  congr 1
  exact Set.image_congr fun p listed => (coefficients_pieceRow (uniform p listed).1).symm

theorem fitting_of_uniform (uniform : Uniform k n net) :
    fitting k n (net.map .addPiece) = net := by
  rw [fitting, List.filterMap_map]
  refine (List.filterMap_congr fun p listed => ?_).trans List.filterMap_some
  exact if_pos (uniform p listed)

end Network

/-- Recoding makes no information: once the pieces that are left have fewer than `k` independent
coding vectors, no run of further losses and recodings, however long, gives the engine anything it
decodes; the error it returns never reports more than was left. -/
theorem lost_for_good {B : Blake3} {k n : ℕ} {net later pieces : List CodedPiece}
    (uniform : Uniform k n net) (short : dimension k n net < k)
    (reach : Reach (step B) anyStep net later) (among : ∀ p ∈ pieces, p ∈ later) :
    dimension k n pieces ≤ dimension k n net ∧
      decode false k n pieces = .error (.rlnc (.insufficientPieces (dimension k n pieces) k)) := by
  obtain ⟨alike, below⟩ := reach_span uniform reach
  have chosen : Uniform k n pieces := fun p listed => alike p (among p listed)
  have fewer : dimension k n pieces ≤ dimension k n net := by
    rw [dimension, dimension, fitting_of_uniform chosen, fitting_of_uniform uniform,
      listSpan_vector chosen, listSpan_vector uniform]
    refine Submodule.finrank_mono (Submodule.map_mono (le_trans ?_ below))
    exact listSpan_le.mpr fun p listed => mem_listSpan (among p listed)
  refine ⟨fewer, ?_⟩
  rw [decode_as_all, decode_handAll_of_short (by omega)]
  rfl

theorem lost_for_good_copies :
    let B : Blake3 := Blake3.byLeading
    let copy := CodedPiece.new B ⟨Bytes32.fill 0⟩ [1, 0] [5] (Bytes32.fill 0)
    ∃ later, Reach (step B) anyStep [copy, copy] later ∧ later.length = 2 ∧
      decode false 2 1 later = .error (.rlnc (.insufficientPieces (dimension 2 1 later) 2)) := by
  intro B copy
  have short : dimension 2 1 [copy, copy] < 2 := by
    rw [← rank_handAll]
    simp [copy, handAll, run, EndToEnd.step, RlncDecoder.new, RlncDecoder.addPiece,
      RlncDecoder.eliminate, CodedPiece.new, Gf256.gfVecMulAdd, Gf256.zipInto,
      Gf256.gfInv_one, Gf256.gfMul_one, List.range_succ, List.findIdx?_cons]
  obtain ⟨later, reach, two⟩ : ∃ later, Reach (step B) anyStep [copy, copy] later ∧ later.length = 2 :=
    exists_reach _ _ [.recode [0, 1] [1, 2], .lose 0] rfl
  exact ⟨later, reach, two,
    (lost_for_good (by decide) short reach fun _ listed => listed).2⟩

end Craftec.Rlnc.Reassembly
