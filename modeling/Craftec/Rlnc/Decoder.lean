/- GID: Craftec/Rlnc/Decoder
   generality: I
   digest: The progressive decoder on byte rows, and its refinement of slot-per-pivot elimination. -/

import Craftec.Library.Elimination
import Craftec.Rlnc.Encoder

set_option autoImplicit false
set_option relaxedAutoImplicit false

namespace Craftec.Rlnc.Decoder

open Craftec.Types.Digest (Bytes)
open Craftec.Types.Piece (CodedPiece)
open Craftec.Library.ByteField (GF256)
open Craftec.Library.Elimination
open Craftec.Rlnc.Gf256
open Craftec.Rlnc.Encoder (RlncError)

/-- Row `r` of `matrix` is `[coding_vector | data]` and is in use when `pivotCol[r]` is set. -/
structure RlncDecoder where
  k : ℕ
  pieceSize : ℕ
  matrix : List Bytes
  pivotCol : List (Option ℕ)
  rank : ℕ
  decoded : Bool
  deriving DecidableEq

namespace RlncDecoder

def new (k pieceSize : ℕ) : RlncDecoder where
  k := k
  pieceSize := pieceSize
  matrix := List.replicate k []
  pivotCol := List.replicate k none
  rank := 0
  decoded := false

def isDecodable (d : RlncDecoder) : Bool := d.rank = d.k

/-- Reduce `row` by the pivot row in slot `r`, if there is one. -/
def eliminate (d : RlncDecoder) (row : Bytes) (r : ℕ) : Bytes :=
  match d.pivotCol.getD r none with
  | none => row
  | some col =>
      let coeff := row.getD col 0
      if coeff = 0 then row else gfVecMulAdd row (d.matrix.getD r []) coeff

/-- Add one coded piece; `.ok true` when it raised the rank. -/
def addPiece (d : RlncDecoder) (piece : CodedPiece) : RlncDecoder × Except RlncError Bool :=
  if piece.codingVector.length ≠ d.k then
    (d, .error (.codingVectorLengthMismatch d.k piece.codingVector.length))
  else if piece.data.length ≠ d.pieceSize then
    (d, .error (.invalidPieceSize d.pieceSize piece.data.length))
  else
    let row := (List.range d.k).foldl d.eliminate (piece.codingVector ++ piece.data)
    match (row.take d.k).findIdx? (· ≠ 0) with
    | none => (d, .ok false)
    | some col =>
        let inv := gfInv (row.getD col 0)
        let row := row.map (gfMul · inv)
        ({ d with
            matrix := d.matrix.set col row
            pivotCol := d.pivotCol.set col (some col)
            rank := d.rank + 1 }, .ok true)

/-- Clear column `col` of row `row` with the pivot row of that column. -/
def clearEntry (col : ℕ) (matrix : List Bytes) (row : ℕ) : List Bytes :=
  let coeff := (matrix.getD row []).getD col 0
  if coeff = 0 then matrix
  else matrix.set row (gfVecMulAdd (matrix.getD row []) (matrix.getD col []) coeff)

/-- The inner loop of back-substitution, over the rows above the pivot row. -/
def clearColumn (matrix : List Bytes) (col : ℕ) : List Bytes :=
  (List.range col).foldl (clearEntry col) matrix

/-- Decode after `k` independent pieces. The matrix keeps the reduced rows also when the
final check of the diagonal fails. -/
def decode (d : RlncDecoder) : RlncDecoder × Except RlncError Bytes :=
  if d.rank < d.k then (d, .error (.insufficientPieces d.rank d.k))
  else
    match (List.range d.k).find? fun col =>
        (d.pivotCol.getD col none).isNone || (d.matrix.getD col []).isEmpty with
    | some col => (d, .error (.decodeFailed s!"pivot slot {col} is empty despite rank == k"))
    | none =>
        let matrix := (List.range d.k).reverse.foldl clearColumn d.matrix
        match (List.range d.k).find? fun col => (matrix.getD col []).getD col 0 ≠ 1 with
        | some col =>
            let got := (matrix.getD col []).getD col 0
            ({ d with matrix := matrix },
              .error (.decodeFailed s!"row {col}: expected pivot 1, got {got}"))
        | none =>
            ({ d with matrix := matrix, decoded := true },
              .ok ((List.range d.k).map fun col => (matrix.getD col []).drop d.k).flatten)

/-! Refinement -/

variable {k : ℕ}

/-- The byte decoder `d` stores the pivot rows of `E`, each in the slot of its column. -/
structure Represents (d : RlncDecoder) (E : Echelon GF256 k) : Prop where
  width : d.k = k
  rows : d.matrix.length = k
  pivots : d.pivotCol.length = k
  rank : d.rank = E.rank
  free : ∀ c < k, E.slot c = none → d.pivotCol.getD c none = none
  used : ∀ c < k, ∀ r, E.slot c = some r → d.pivotCol.getD c none = some c ∧
    (d.matrix.getD c []).length = k + d.pieceSize ∧ vec (d.matrix.getD c []) = r

theorem represents_new (k pieceSize : ℕ) :
    (new k pieceSize).Represents (Echelon.empty : Echelon GF256 k) where
  width := rfl
  rows := List.length_replicate
  pivots := List.length_replicate
  rank := Echelon.rank_empty.symm
  free c hc _ := by simp [new]
  used c _ r h := by cases h

private theorem vec_apply (row : Bytes) (c : ℕ) : vec row c = ⟨row.getD c 0⟩ := rfl

private theorem sub_eq_add (a b : ℕ → GF256) : a - b = a + b := by
  funext i
  rfl

private theorem eliminate_spec {d : RlncDecoder} {E : Echelon GF256 k} (h : d.Represents E)
    {r : ℕ} (hr : r < k) {row : Bytes} (len : row.length = k + d.pieceSize) :
    (d.eliminate row r).length = k + d.pieceSize ∧
      vec (d.eliminate row r) = clear (E.slot r) r (vec row) := by
  unfold eliminate
  cases hs : E.slot r with
  | none =>
    rw [h.free r hr hs]
    exact ⟨len, rfl⟩
  | some p =>
    obtain ⟨pivot, size, content⟩ := h.used r hr p hs
    rw [pivot]
    by_cases zero : row.getD r 0 = 0
    · have entry : vec row r = 0 := by rw [vec_apply, zero]; rfl
      simp only [zero, if_true, clear, entry, zero_smul, sub_zero]
      exact ⟨len, trivial⟩
    · simp only [zero, if_false]
      refine ⟨by rw [length_gfVecMulAdd, len], ?_⟩
      rw [vec_gfVecMulAdd _ _ _ (by rw [size, len]), content, clear, sub_eq_add, vec_apply]

private theorem eliminate_fold {d : RlncDecoder} {E : Echelon GF256 k} (h : d.Represents E)
    {row : Bytes} (len : row.length = k + d.pieceSize) (n : ℕ) (hn : n ≤ k) :
    ((List.range n).foldl d.eliminate row).length = k + d.pieceSize ∧
      vec ((List.range n).foldl d.eliminate row) = E.reduceTo n (vec row) := by
  induction n with
  | zero => exact ⟨len, rfl⟩
  | succ n ih =>
    obtain ⟨size, content⟩ := ih (by omega)
    rw [List.range_succ, List.foldl_append]
    simp only [List.foldl_cons, List.foldl_nil]
    obtain ⟨size', content'⟩ := eliminate_spec h (by omega : n < k) size
    refine ⟨size', ?_⟩
    rw [content', content]
    rfl

private theorem vec_map_mul (row : Bytes) (c : UInt8) :
    vec (row.map (gfMul · c)) = (⟨c⟩ : GF256) • vec row := by
  funext i
  apply GF256.ext
  have none : gfMul 0 c = 0 := by simp [gfMul]
  have comm : gfMul (row.getD i 0) c = Library.ByteField.mul c (row.getD i 0) := by
    rw [gfMul_eq]
    exact congrArg GF256.byte (mul_comm (⟨row.getD i 0⟩ : GF256) ⟨c⟩)
  change (row.map (gfMul · c)).getD i 0 = Library.ByteField.mul c (row.getD i 0)
  rw [← comm]
  simp only [List.getD_eq_getElem?_getD, List.getElem?_map]
  cases row[i]? with
  | none => simpa using none.symm
  | some b => rfl

private theorem represents_store {d : RlncDecoder} {E : Echelon GF256 k} (h : d.Represents E)
    {col : ℕ} {row : Bytes} (len : row.length = k + d.pieceSize) (hc : col < k)
    (hv : vec row col ≠ 0) (hl : ∀ j < col, vec row j = 0) (free : E.slot col = none) :
    Represents { d with
      matrix := d.matrix.set col (row.map (gfMul · (gfInv (row.getD col 0))))
      pivotCol := d.pivotCol.set col (some col)
      rank := d.rank + 1 } (E.store col (vec row) hc hv hl) := by
  have nonzero : row.getD col 0 ≠ 0 := fun zero => hv (by rw [vec_apply, zero]; rfl)
  refine ⟨h.width, by simpa using h.rows, by simpa using h.pivots, ?_, ?_, ?_⟩
  · rw [E.rank_store hc hv hl free, h.rank]
  · intro c hck hs
    have other : col ≠ c := by
      rintro rfl
      simp [Echelon.store] at hs
    have old : E.slot c = none := by simpa [Echelon.store, Ne.symm other] using hs
    simpa [List.getD_eq_getElem?_getD, List.getElem?_set, other] using h.free c hck old
  · intro c hck r hs
    by_cases same : col = c
    · subst same
      have scaled : r = (vec row col)⁻¹ • vec row := by
        simpa [Echelon.store] using hs.symm
      have there : (d.matrix.set col (row.map (gfMul · (gfInv (row.getD col 0))))).getD col [] =
          row.map (gfMul · (gfInv (row.getD col 0))) := by
        simp [List.getD_eq_getElem?_getD, h.rows, hc]
      refine ⟨by simp [List.getD_eq_getElem?_getD, h.pivots, hc], ?_, ?_⟩
      · rw [there, List.length_map, len]
      · rw [there, vec_map_mul, gfInv_eq nonzero, scaled, vec_apply]
    · have old : E.slot c = some r := by simpa [Echelon.store, Ne.symm same] using hs
      have kept := h.used c hck r old
      simpa [List.getD_eq_getElem?_getD, List.getElem?_set, same] using kept

private theorem findIdx_take {row : Bytes} (hk : k ≤ row.length)
    (h : ∃ c, c < k ∧ vec row c ≠ 0) : (row.take k).findIdx? (· ≠ 0) = some (Nat.find h) := by
  have entry (i : ℕ) (hi : i < k) : (row.take k)[i]? = some (row.getD i 0) := by
    rw [List.getElem?_take_of_lt hi, List.getD_eq_getElem?_getD, List.getElem?_eq_getElem (by omega)]
    rfl
  obtain ⟨below, nonzero⟩ := Nat.find_spec h
  have size : Nat.find h < (row.take k).length := by
    rw [List.length_take]
    omega
  rw [List.findIdx?_eq_some_iff_getElem]
  refine ⟨size, ?_, ?_⟩
  · have value := entry (Nat.find h) below
    rw [List.getElem?_eq_getElem size, Option.some.injEq] at value
    rw [value]
    have byte : row.getD (Nat.find h) 0 ≠ 0 := fun zero => nonzero (by rw [vec_apply, zero]; rfl)
    exact decide_eq_true byte
  · intro j hj
    have value := entry j (by omega)
    rw [List.getElem?_eq_getElem (by omega), Option.some.injEq] at value
    rw [value]
    have zero := congrArg GF256.byte (Echelon.zero_of_lt_find h j hj)
    simpa [vec_apply] using zero

private theorem findIdx_take_none {row : Bytes} (h : ¬ ∃ c, c < k ∧ vec row c ≠ 0) :
    (row.take k).findIdx? (· ≠ 0) = none := by
  rw [List.findIdx?_eq_none_iff]
  intro b hb
  obtain ⟨i, hi, rfl⟩ := List.mem_iff_getElem.mp hb
  rw [List.length_take] at hi
  have zero : vec row i = 0 := by
    by_contra hne
    exact h ⟨i, by omega, hne⟩
  have byte := congrArg GF256.byte zero
  rw [vec_apply, List.getD_eq_getElem?_getD, List.getElem?_eq_getElem (by omega)] at byte
  simpa using byte

private theorem free_of_left {E : Echelon GF256 k} {row : Bytes} {v : ℕ → GF256} {c : ℕ}
    (content : vec row = E.reduceTo k v) (hc : c < k) (hne : vec row c ≠ 0) : E.slot c = none := by
  rw [content] at hne
  exact E.free_of_reduced hc hne

def pieceRow (p : CodedPiece) : ℕ → GF256 := vec (p.codingVector ++ p.data)

def Fits (d : RlncDecoder) (p : CodedPiece) : Prop :=
  p.codingVector.length = d.k ∧ p.data.length = d.pieceSize

theorem addPiece_of_not_fits {d : RlncDecoder} {p : CodedPiece} (h : ¬ d.Fits p) :
    (d.addPiece p).1 = d := by
  unfold addPiece
  by_cases hv : p.codingVector.length = d.k
  · by_cases hd : p.data.length = d.pieceSize
    · exact (h ⟨hv, hd⟩).elim
    · simp [hv, hd]
  · simp [hv]

private theorem addPiece_spec {d : RlncDecoder} {E : Echelon GF256 k} (h : d.Represents E)
    {p : CodedPiece} (hp : d.Fits p) :
    ((d.addPiece p).1.Represents (E.offer (pieceRow p)).1 ∧
      (d.addPiece p).2 = .ok (E.offer (pieceRow p)).2) ∧
    ((d.addPiece p).1 = d ∨ ∃ col row, d.pivotCol.getD col none = none ∧
      (d.addPiece p).1 = { d with
        matrix := d.matrix.set col row
        pivotCol := d.pivotCol.set col (some col)
        rank := d.rank + 1 }) := by
  have width := h.width
  subst width
  obtain ⟨hv, hd⟩ := hp
  have len : (p.codingVector ++ p.data).length = d.k + d.pieceSize := by
    rw [List.length_append, hv, hd]
  obtain ⟨size, content⟩ := eliminate_fold h len d.k le_rfl
  unfold addPiece
  rw [if_neg (not_not.mpr hv), if_neg (not_not.mpr hd)]
  generalize (List.range d.k).foldl d.eliminate (p.codingVector ++ p.data) = row at size content ⊢
  change vec row = E.reduceTo d.k (pieceRow p) at content
  rw [Echelon.offer, ← content, Echelon.keep]
  by_cases left : ∃ c, c < d.k ∧ vec row c ≠ 0
  · obtain ⟨hc, hne⟩ := Nat.find_spec left
    have free : E.slot (Nat.find left) = none := free_of_left content hc hne
    simp only [dif_pos left, findIdx_take (by omega) left]
    exact ⟨⟨represents_store h size hc hne (Echelon.zero_of_lt_find left) free, trivial⟩,
      .inr ⟨_, _, h.free _ hc free, rfl⟩⟩
  · simp only [dif_neg left, findIdx_take_none left]
    exact ⟨⟨h, trivial⟩, .inl trivial⟩

theorem addPiece_of_fits {d : RlncDecoder} {E : Echelon GF256 k} (h : d.Represents E)
    {p : CodedPiece} (hp : d.Fits p) :
    (d.addPiece p).1.Represents (E.offer (pieceRow p)).1 ∧
      (d.addPiece p).2 = .ok (E.offer (pieceRow p)).2 := (addPiece_spec h hp).1

theorem addPiece_writes {d : RlncDecoder} {E : Echelon GF256 k} (h : d.Represents E) (p : CodedPiece) :
    (d.addPiece p).1 = d ∨ ∃ col row, d.pivotCol.getD col none = none ∧
      (d.addPiece p).1 = { d with
        matrix := d.matrix.set col row
        pivotCol := d.pivotCol.set col (some col)
        rank := d.rank + 1 } := by
  by_cases hp : d.Fits p
  · exact (addPiece_spec h hp).2
  · exact .inl (addPiece_of_not_fits hp)

theorem addPiece_keeps {d : RlncDecoder} {E : Echelon GF256 k} (h : d.Represents E) (p : CodedPiece)
    {c : ℕ} (used : d.pivotCol.getD c none ≠ none) :
    (d.addPiece p).1.matrix.getD c [] = d.matrix.getD c [] ∧
      (d.addPiece p).1.pivotCol.getD c none = d.pivotCol.getD c none := by
  rcases addPiece_writes h p with same | ⟨col, row, free, written⟩
  · rw [same]
    exact ⟨rfl, rfl⟩
  · have other : col ≠ c := by
      rintro rfl
      exact used free
    rw [written]
    simp only [List.getD_eq_getElem?_getD, List.getElem?_set_ne other, and_self]

/-! Decoding -/

/-- Rows `c < k` of a matrix of byte rows, as vectors. -/
private def rowsOf (matrix : List Bytes) : ℕ → ℕ → GF256 := fun r => vec (matrix.getD r [])

private def Rectangular (k width : ℕ) (matrix : List Bytes) : Prop :=
  matrix.length = k ∧ ∀ r < k, (matrix.getD r []).length = width

private theorem getD_set_row (matrix : List Bytes) (i r : ℕ) (row : Bytes) (hi : i < matrix.length) :
    (matrix.set i row).getD r [] = if i = r then row else matrix.getD r [] := by
  simp only [List.getD_eq_getElem?_getD, List.getElem?_set]
  split <;> simp_all

private theorem clearEntry_spec {k width col row : ℕ} {matrix : List Bytes}
    (h : Rectangular k width matrix) (hcol : col < k) (hrow : row < k) :
    Rectangular k width (clearEntry col matrix row) ∧
      ∀ r, rowsOf (clearEntry col matrix row) r =
        if r = row then rowsOf matrix row - rowsOf matrix row col • rowsOf matrix col
        else rowsOf matrix r := by
  obtain ⟨len, widths⟩ := h
  unfold clearEntry
  by_cases zero : (matrix.getD row []).getD col 0 = 0
  · have entry : rowsOf matrix row col = 0 := by
      rw [rowsOf, vec_apply, zero]
      rfl
    simp only [zero, if_true]
    refine ⟨⟨len, widths⟩, fun r => ?_⟩
    by_cases hr : r = row
    · rw [if_pos hr, entry, zero_smul, sub_zero, hr]
    · rw [if_neg hr]
  · simp only [zero, if_false]
    refine ⟨⟨by rw [List.length_set, len], fun r hr => ?_⟩, fun r => ?_⟩
    · rw [getD_set_row _ _ _ _ (by omega)]
      split
      · rw [length_gfVecMulAdd, widths row hrow]
      · exact widths r hr
    · simp only [rowsOf]
      rw [getD_set_row _ _ _ _ (by omega)]
      by_cases hr : r = row
      · rw [if_pos hr.symm, if_pos hr, vec_gfVecMulAdd _ _ _ (by rw [widths row hrow, widths col hcol]),
          sub_eq_add, vec_apply]
      · rw [if_neg (Ne.symm hr), if_neg hr]

private theorem clearColumn_spec {k width col : ℕ} {matrix : List Bytes}
    (h : Rectangular k width matrix) (hcol : col < k) :
    Rectangular k width (clearColumn matrix col) ∧
      rowsOf (clearColumn matrix col) = clearAbove col (rowsOf matrix) := by
  have turns (n : ℕ) (hn : n ≤ col) :
      Rectangular k width ((List.range n).foldl (clearEntry col) matrix) ∧
        ∀ r, rowsOf ((List.range n).foldl (clearEntry col) matrix) r =
          if r < n then rowsOf matrix r - rowsOf matrix r col • rowsOf matrix col
          else rowsOf matrix r := by
    induction n with
    | zero => exact ⟨h, fun r => by simp⟩
    | succ n ih =>
      obtain ⟨shape, rows⟩ := ih (by omega)
      rw [List.range_succ, List.foldl_append]
      simp only [List.foldl_cons, List.foldl_nil]
      obtain ⟨shape', rows'⟩ := clearEntry_spec shape hcol (by omega : n < k)
      refine ⟨shape', fun r => ?_⟩
      rw [rows']
      by_cases hr : r = n
      · rw [if_pos hr, if_pos (by omega), rows n, rows col, if_neg (by omega), if_neg (by omega), hr]
      · rw [if_neg hr, rows r]
        by_cases below : r < n
        · rw [if_pos below, if_pos (by omega)]
        · rw [if_neg below, if_neg (by omega)]
  obtain ⟨shape, rows⟩ := turns col le_rfl
  exact ⟨shape, funext rows⟩

private theorem backSubstitution_spec {k width : ℕ} (n : ℕ) (hn : n ≤ k) {matrix : List Bytes}
    (h : Rectangular k width matrix) :
    Rectangular k width ((List.range n).reverse.foldl clearColumn matrix) ∧
      rowsOf ((List.range n).reverse.foldl clearColumn matrix) =
        backSubstitute n (rowsOf matrix) := by
  induction n generalizing matrix with
  | zero => exact ⟨h, rfl⟩
  | succ n ih =>
    obtain ⟨shape, rows⟩ := clearColumn_spec h (by omega : n < k)
    rw [List.range_succ, List.reverse_append, List.reverse_singleton, List.singleton_append,
      List.foldl_cons]
    obtain ⟨shape', rows'⟩ := ih (by omega) shape
    refine ⟨shape', ?_⟩
    rw [rows', rows]
    rfl

theorem decode_fst (d : RlncDecoder) : ∃ matrix decoded,
    d.decode.1 = { d with matrix := matrix, decoded := decoded } := by
  unfold decode
  split_ifs
  · exact ⟨_, _, rfl⟩
  · split
    · exact ⟨_, _, rfl⟩
    · dsimp only
      split <;> exact ⟨_, _, rfl⟩

private theorem decode_of_filled {d : RlncDecoder} (rank : d.rank = d.k)
    (pivots : ∀ col < d.k, d.pivotCol.getD col none ≠ none)
    (nonempty : ∀ col < d.k, d.matrix.getD col [] ≠ [])
    (ones : ∀ col < d.k,
      (((List.range d.k).reverse.foldl clearColumn d.matrix).getD col []).getD col 0 = 1) :
    d.decode = ({ d with
      matrix := (List.range d.k).reverse.foldl clearColumn d.matrix
      decoded := true },
      .ok ((List.range d.k).map fun col =>
        (((List.range d.k).reverse.foldl clearColumn d.matrix).getD col []).drop d.k).flatten) := by
  have filled : (List.range d.k).find? (fun col =>
      (d.pivotCol.getD col none).isNone || (d.matrix.getD col []).isEmpty) = none := by
    rw [List.find?_eq_none]
    intro col listed
    have inside := List.mem_range.mp listed
    rw [Bool.or_eq_true, Option.isNone_iff_eq_none, List.isEmpty_iff]
    exact not_or.mpr ⟨pivots col inside, nonempty col inside⟩
  have diagonal : (List.range d.k).find? (fun col =>
      (((List.range d.k).reverse.foldl clearColumn d.matrix).getD col []).getD col 0 ≠ 1) = none := by
    rw [List.find?_eq_none]
    intro col listed
    simpa using ones col (List.mem_range.mp listed)
  unfold decode
  rw [if_neg (by omega), filled]
  simp only [diagonal]

private theorem slot_of_full {d : RlncDecoder} {E : Echelon GF256 d.k} (h : d.Represents E)
    (rank : d.rank = d.k) (c : ℕ) (hc : c < d.k) : E.slot c = some (rowsOf d.matrix c) := by
  obtain ⟨r, hr⟩ := Echelon.slot_of_rank (h.rank.symm.trans rank) hc
  rw [hr, ← (h.used c hc r hr).2.2]
  rfl

private theorem represents_solved {d : RlncDecoder} {E : Echelon GF256 d.k} (h : d.Represents E)
    (rank : d.rank = d.k) {solved : List Bytes} (shape : Rectangular d.k (d.k + d.pieceSize) solved)
    (triangular : Triangular d.k (rowsOf solved)) :
    RlncDecoder.Represents { d with matrix := solved, decoded := true }
      (Echelon.ofTriangular (rowsOf solved) triangular) := by
  refine ⟨rfl, shape.1, h.pivots, ?_, ?_, ?_⟩
  · rw [Echelon.rank_ofTriangular]
    exact rank
  · intro c hc none
    rw [Echelon.slot_ofTriangular _ hc] at none
    cases none
  · intro c hc r hr
    rw [Echelon.slot_ofTriangular _ hc] at hr
    cases hr
    exact ⟨(h.used c hc _ (slot_of_full h rank c hc)).1, shape.2 c hc, rfl⟩

theorem decode_of_full {d : RlncDecoder} {E : Echelon GF256 k} (h : d.Represents E)
    (full : d.isDecodable = true) :
    ∃ (E' : Echelon GF256 k) (M : ℕ → Bytes),
      d.decode.1.Represents E' ∧
      d.decode.2 = .ok ((List.range k).map fun c => (M c).drop k).flatten ∧
      (∀ c < k, (M c).length = k + d.pieceSize ∧ E'.slot c = some (vec (M c)) ∧
        ∀ j < k, vec (M c) j = if c = j then 1 else 0) ∧
      ∀ W : Submodule GF256 (ℕ → GF256), Within E.slot W → Within E'.slot W := by
  have width := h.width
  subst width
  have rank : d.rank = d.k := of_decide_eq_true full
  have slot := slot_of_full h rank
  have shape : Rectangular d.k (d.k + d.pieceSize) d.matrix :=
    ⟨h.rows, fun r hr => (h.used r hr _ (slot r hr)).2.1⟩
  have triangular := Echelon.triangular slot
  obtain ⟨shape', rows'⟩ := backSubstitution_spec d.k le_rfl shape
  have unit : ∀ r < d.k, ∀ j < d.k,
      rowsOf ((List.range d.k).reverse.foldl clearColumn d.matrix) r j = if r = j then 1 else 0 := by
    intro r hr j hj
    rw [rows']
    exact backSubstitute_identity triangular hr hj
  have pivots : ∀ col < d.k, d.pivotCol.getD col none ≠ none := by
    intro col inside
    rw [(h.used col inside _ (slot col inside)).1]
    exact Option.some_ne_none _
  have nonempty : ∀ col < d.k, d.matrix.getD col [] ≠ [] := by
    intro col inside empty
    have size := shape.2 col inside
    rw [empty, List.length_nil] at size
    omega
  have ones : ∀ col < d.k,
      (((List.range d.k).reverse.foldl clearColumn d.matrix).getD col []).getD col 0 = 1 := by
    intro col inside
    have one := congrArg GF256.byte (unit col inside col inside)
    rw [if_pos rfl] at one
    simpa [rowsOf, vec_apply] using one
  rw [decode_of_filled rank pivots nonempty ones]
  generalize (List.range d.k).reverse.foldl clearColumn d.matrix = solved at shape' rows' unit
  have solvedTriangular : Triangular d.k (rowsOf solved) := by
    rw [rows']
    exact backSubstitute_triangular triangular
  refine ⟨Echelon.ofTriangular (rowsOf solved) solvedTriangular, fun c => solved.getD c [],
    ?_, rfl, ?_, ?_⟩
  · exact represents_solved h rank shape' solvedTriangular
  · intro c hc
    exact ⟨shape'.2 c hc, Echelon.slot_ofTriangular _ hc, unit c hc⟩
  · intro W hW
    apply Echelon.ofTriangular_within
    rw [rows']
    exact backSubstitute_mem d.k le_rfl fun r hr => hW r _ (slot r hr)

theorem decode_of_short {d : RlncDecoder} {E : Echelon GF256 k} (h : d.Represents E)
    (short : d.isDecodable = false) : d.decode = (d, .error (.insufficientPieces d.rank d.k)) := by
  have ne : d.rank ≠ d.k := of_decide_eq_false short
  have le : d.rank ≤ d.k := by
    rw [h.rank, h.width]
    exact E.rank_le
  unfold decode
  rw [if_pos (by omega)]

end RlncDecoder

end Craftec.Rlnc.Decoder
