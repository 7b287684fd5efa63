/- GID: Craftec/Rlnc/Tags
   generality: I
   digest: Tags as inner products over the field of the coder, and the tag of a linear combination. -/

import Craftec.Crypto.HomMac
import Craftec.Rlnc.Gf256

set_option autoImplicit false
set_option relaxedAutoImplicit false

namespace Craftec.Rlnc.Tags

open Craftec.Types.Digest
open Craftec.Types.Piece (HomMac gf256Mul0x11b)
open Craftec.Crypto.HomMac
open Craftec.Library.ByteField (GF256 modulus mul poly poly_mul rounds xtime)
open Craftec.Library.Chunks
open Craftec.Rlnc.Gf256

/-! The product of the tags -/

private theorem foldl_mulTurn (turns : List ℕ) (result a b : UInt8) :
    (turns.foldl mulTurn (result, a, b)).1 = rounds turns.length result a b := by
  induction turns generalizing result a b with
  | nil => rfl
  | cons turn turns ih => exact ih ..

theorem gf256Mul_eq (a b : UInt8) : gf256Mul a b = mul a b := by
  unfold gf256Mul
  rw [foldl_mulTurn, List.length_range]
  rfl

theorem gf256Mul0x11b_eq (a b : UInt8) : gf256Mul0x11b a b = mul a b := gf256Mul_eq a b

open Polynomial in
/-- The kernel of the coder on slices of one length: whichever path the coefficient takes, every byte
receives the remainder of a product of polynomials, and the tags are computed with the same product. -/
theorem gfVecMulAdd_at_every_index (coeff : UInt8) {dst src : Bytes} (lengths : dst.length = src.length) :
    (gfVecMulAdd dst src coeff).length = dst.length ∧
      ∀ (i : ℕ) (d s : UInt8), dst[i]? = some d → src[i]? = some s →
        ∃ product, (gfVecMulAdd dst src coeff)[i]? = some (d ^^^ product) ∧
          poly product = poly coeff * poly s %ₘ modulus ∧
          product = gfMul coeff s ∧ product = gf256Mul coeff s ∧ product = gf256Mul0x11b coeff s := by
  refine ⟨length_gfVecMulAdd dst src coeff, fun i d s target source => ?_⟩
  refine ⟨mul coeff s, ?_, poly_mul coeff s, (gfMul_eq coeff s).symm, (gf256Mul_eq coeff s).symm,
    (gf256Mul0x11b_eq coeff s).symm⟩
  have entry := congrArg GF256.byte (congrFun (vec_gfVecMulAdd dst src coeff lengths.ge) i)
  change (gfVecMulAdd dst src coeff).getD i 0 = dst.getD i 0 ^^^ mul coeff (src.getD i 0) at entry
  obtain ⟨inside, -⟩ := List.getElem?_eq_some_iff.mp target
  rw [← length_gfVecMulAdd dst src coeff] at inside
  rw [List.getD_eq_getElem _ _ inside, List.getD_eq_getElem?_getD, List.getD_eq_getElem?_getD, target,
    source] at entry
  rw [List.getElem?_eq_getElem inside, entry]
  rfl

open Polynomial in
theorem gfVecMulAdd_at_inverse :
    ∃ product, (gfVecMulAdd [7] [0xCA] 0x53)[0]? = some (7 ^^^ product) ∧
      poly product = poly 0x53 * poly 0xCA %ₘ modulus ∧
      product = gfMul 0x53 0xCA ∧ product = gf256Mul 0x53 0xCA ∧ product = gf256Mul0x11b 0x53 0xCA := by
  have lengths : ([7] : Bytes).length = ([0xCA] : Bytes).length := rfl
  exact (gfVecMulAdd_at_every_index 0x53 lengths).2 0 7 0xCA rfl rfl

/-! Inner products -/

/-- The inner product of `n` entries with the stream from position `start` on. -/
def dot (stream : ℕ → UInt8) (start n : ℕ) : (ℕ → GF256) →ₗ[GF256] GF256 :=
  ∑ i ∈ Finset.range n, (⟨stream (start + i)⟩ : GF256) • LinearMap.proj i

theorem dot_apply (stream : ℕ → UInt8) (start n : ℕ) (v : ℕ → GF256) :
    dot stream start n v = ∑ i ∈ Finset.range n, (⟨stream (start + i)⟩ : GF256) * v i := by
  simp [dot]

theorem dot_cons (stream : ℕ → UInt8) (start : ℕ) (b : UInt8) (l : Bytes) :
    dot stream start (b :: l).length (vec (b :: l)) =
      ⟨stream start⟩ * ⟨b⟩ + dot stream (start + 1) l.length (vec l) := by
  rw [dot_apply, dot_apply, List.length_cons, Finset.sum_range_succ', add_comm]
  congr 1
  refine Finset.sum_congr rfl fun i _ => ?_
  rw [Nat.add_right_comm, Nat.add_assoc]
  rfl

theorem dot_append (stream : ℕ → UInt8) (start : ℕ) (a b : Bytes) :
    dot stream start (a ++ b).length (vec (a ++ b)) =
      dot stream start a.length (vec a) + dot stream (start + a.length) b.length (vec b) := by
  induction a generalizing start with
  | nil => simp [dot_apply]
  | cons x a ih =>
    have next : start + 1 + a.length = start + (x :: a).length := by
      rw [List.length_cons]
      omega
    rw [List.cons_append, dot_cons, dot_cons, ih, next, add_assoc]

private theorem foldl_zipIdx (stream : ℕ → UInt8) (start : ℕ) (part : Bytes) (offset : ℕ) (acc : UInt8) :
    (part.zipIdx offset).foldl (fun acc b => acc ^^^ gf256Mul (stream (start + b.2)) b.1) acc =
      ((⟨acc⟩ : GF256) + dot stream (start + offset) part.length (vec part)).byte := by
  induction part generalizing offset acc with
  | nil => simp [dot_apply]
  | cons b part ih =>
    have turn : (⟨acc ^^^ gf256Mul (stream (start + offset)) b⟩ : GF256) =
        ⟨acc⟩ + ⟨stream (start + offset)⟩ * ⟨b⟩ := by
      rw [gf256Mul_eq]
      rfl
    rw [List.zipIdx_cons, List.foldl_cons, ih, dot_cons, turn, add_assoc]
    rfl

private theorem tagChunk_eq (stream : ℕ → UInt8) (s : UInt8 × ℕ) (part : Bytes) :
    tagChunk stream s part =
      (((⟨s.1⟩ : GF256) + dot stream s.2 part.length (vec part)).byte, s.2 + part.length) := by
  rw [tagChunk, foldl_zipIdx, Nat.add_zero]

private theorem foldl_tagChunk (stream : ℕ → UInt8) (parts : List Bytes) (s : UInt8 × ℕ) :
    parts.foldl (tagChunk stream) s =
      (((⟨s.1⟩ : GF256) + dot stream s.2 parts.flatten.length (vec parts.flatten)).byte,
        s.2 + parts.flatten.length) := by
  induction parts generalizing s with
  | nil => simp [dot_apply]
  | cons part parts ih =>
    rw [List.foldl_cons, tagChunk_eq, ih, List.flatten_cons, dot_append, add_assoc,
      List.length_append, Nat.add_assoc]

private theorem flatten_chunks_256 (l : Bytes) : (chunks 256 l).flatten = l := by
  rw [chunks, flatten_chunks]
  exact List.take_of_length_le (length_le_count_mul (by decide))

theorem tagByte_eq (B : Blake3) (key : HomMacKey) (codingVector data : Bytes) (j : ℕ) :
    tagByte B key codingVector data j =
      (dot (B.xof (key.key.bytes ++ [UInt8.ofNat j])) 0 (codingVector ++ data).length
        (vec (codingVector ++ data))).byte := by
  unfold tagByte
  simp only
  rw [foldl_tagChunk, foldl_tagChunk, flatten_chunks_256, flatten_chunks_256, dot_append, add_assoc]
  change ((0 : GF256) + _).byte = _
  rw [zero_add]

theorem vec_computeTag (B : Blake3) (key : HomMacKey) (codingVector data : Bytes) {j : ℕ} (hj : j < 32) :
    vec (computeTag B key codingVector data).bytes j =
      dot (B.xof (key.key.bytes ++ [UInt8.ofNat j])) 0 (codingVector ++ data).length
        (vec (codingVector ++ data)) := by
  apply GF256.ext
  rw [← tagByte_eq]
  change ((List.range 32).map (tagByte B key codingVector data)).getD j 0 = _
  rw [List.getD_eq_getElem _ _ (by simpa using hj), List.getElem_map, List.getElem_range]

/-! Combination -/

private theorem vec_addTag {combined : Bytes} (len : combined.length = 32) (t : HomMac × UInt8) :
    vec (addTag combined t) = vec combined + (⟨t.2⟩ : GF256) • vec t.1.bytes := by
  have none : mul t.2 0 = 0 := congrArg GF256.byte (mul_zero (⟨t.2⟩ : GF256))
  funext i
  apply GF256.ext
  change (addTag combined t).getD i 0 = combined.getD i 0 ^^^ mul t.2 (t.1.bytes.getD i 0)
  by_cases inside : i < 32
  · have left : i < combined.length := by omega
    have right : i < t.1.bytes.length := by
      rw [t.1.size]
      exact inside
    have both : i < (addTag combined t).length := by
      rw [addTag, List.length_zipWith]
      omega
    rw [List.getD_eq_getElem _ _ left, List.getD_eq_getElem _ _ right, List.getD_eq_getElem _ _ both,
      ← gf256Mul_eq]
    exact List.getElem_zipWith
  · have size := t.1.size
    have outside : (addTag combined t).length ≤ i := by
      rw [addTag, List.length_zipWith]
      omega
    rw [List.getD_eq_default _ _ outside, List.getD_eq_default _ _ (by omega : combined.length ≤ i),
      List.getD_eq_default _ _ (by omega : t.1.bytes.length ≤ i), none]
    rfl

private theorem vec_foldl_addTag (terms : List (HomMac × UInt8)) {combined : Bytes}
    (len : combined.length = 32) :
    vec (terms.foldl addTag combined) =
      vec combined + (terms.map fun t => (⟨t.2⟩ : GF256) • vec t.1.bytes).sum := by
  induction terms generalizing combined with
  | nil => simp
  | cons t terms ih =>
    have next : (addTag combined t).length = 32 := by simp [addTag, len, t.1.size]
    rw [List.foldl_cons, ih next, vec_addTag len, List.map_cons, List.sum_cons, add_assoc]

theorem vec_combineTags (tags : List HomMac) (coefficients : Bytes) :
    vec (combineTags tags coefficients).bytes =
      ((tags.zip coefficients).map fun t => (⟨t.2⟩ : GF256) • vec t.1.bytes).sum := by
  change vec ((tags.zip coefficients).foldl addTag (List.replicate 32 0)) = _
  rw [vec_foldl_addTag _ List.length_replicate, vec_replicate_zero, zero_add]

section Linear

private theorem list_sum_apply (l : List (ℕ → GF256)) (i : ℕ) : l.sum i = (l.map fun v => v i).sum :=
  map_list_sum (Pi.evalAddMonoidHom (fun _ : ℕ => GF256) i) l

variable {α : Type*} {first second : α → Bytes} {k n : ℕ}

theorem vec_append_mulAddAll {terms : List (α × UInt8)}
    (lengths : ∀ t ∈ terms, (first t.1).length = k ∧ (second t.1).length = n) :
    vec (mulAddAll (List.replicate k 0) (terms.map fun t => (first t.1, t.2)) ++
        mulAddAll (List.replicate n 0) (terms.map fun t => (second t.1, t.2))) =
      (terms.map fun t => (⟨t.2⟩ : GF256) • vec (first t.1 ++ second t.1)).sum := by
  have fits (part : α → Bytes) (m : ℕ) (len : ∀ t ∈ terms, (part t.1).length = m) :
      vec (mulAddAll (List.replicate m 0) (terms.map fun t => (part t.1, t.2))) =
        (terms.map fun t => (⟨t.2⟩ : GF256) • vec (part t.1)).sum := by
    rw [vec_mulAddAll, vec_replicate_zero, zero_add, List.map_map]
    · rfl
    · intro u listed
      obtain ⟨t, inside, rfl⟩ := List.mem_map.mp listed
      rw [len t inside, List.length_replicate]
  have entry (part : α → Bytes) (i : ℕ) :
      (terms.map fun t => (⟨t.2⟩ : GF256) • vec (part t.1)).sum i =
        (terms.map fun t => (⟨t.2⟩ : GF256) * vec (part t.1) i).sum := by
    rw [list_sum_apply, List.map_map]
    rfl
  funext i
  rw [vec_append, length_mulAddAll, List.length_replicate, fits first k fun t h => (lengths t h).1,
    fits second n fun t h => (lengths t h).2, entry, entry, entry fun a => first a ++ second a]
  by_cases left : i < k
  · rw [if_pos left]
    congr 1
    refine List.map_congr_left fun t inside => ?_
    rw [vec_append, if_pos (by rw [(lengths t inside).1]; exact left)]
  · rw [if_neg left]
    congr 1
    refine List.map_congr_left fun t inside => ?_
    rw [vec_append, if_neg (by rw [(lengths t inside).1]; exact left), (lengths t inside).1]

theorem combineTags_eq (B : Blake3) (key : HomMacKey) {items : List α} (coefficients : Bytes)
    (lengths : ∀ a ∈ items, (first a).length = k ∧ (second a).length = n) :
    combineTags (items.map fun a => computeTag B key (first a) (second a)) coefficients =
      computeTag B key
        (mulAddAll (List.replicate k 0) ((items.zip coefficients).map fun t => (first t.1, t.2)))
        (mulAddAll (List.replicate n 0) ((items.zip coefficients).map fun t => (second t.1, t.2))) := by
  have dimensions : ∀ t ∈ items.zip coefficients,
      (first t.1).length = k ∧ (second t.1).length = n := by
    intro t listed
    exact lengths t.1 (List.of_mem_zip listed).1
  have bytes : (combineTags (items.map fun a => computeTag B key (first a) (second a))
      coefficients).bytes = (computeTag B key
        (mulAddAll (List.replicate k 0) ((items.zip coefficients).map fun t => (first t.1, t.2)))
        (mulAddAll (List.replicate n 0)
          ((items.zip coefficients).map fun t => (second t.1, t.2)))).bytes := by
    refine eq_of_vec_eq ?_ fun j inside => ?_
    · rw [Bytes32.size, Bytes32.size]
    rw [Bytes32.size] at inside
    rw [vec_combineTags, vec_computeTag B key _ _ inside, vec_append_mulAddAll dimensions,
      map_list_sum, List.zip_map_left, List.map_map, List.map_map, list_sum_apply, List.map_map]
    congr 1
    refine List.map_congr_left fun t listed => ?_
    simp only [Function.comp_apply, map_smul]
    rw [Pi.smul_apply, Prod.map_fst, vec_computeTag B key _ _ inside, List.length_append,
      List.length_append, length_mulAddAll, length_mulAddAll, List.length_replicate,
      List.length_replicate, (dimensions t listed).1, (dimensions t listed).2]
    rfl
  cases left : combineTags (items.map fun a => computeTag B key (first a) (second a)) coefficients
  rw [left] at bytes
  cases bytes
  rfl

end Linear

/-- For every key and stream, and pieces of one size, combining the tags gives the tag of the
piece that is accumulated with the same coefficients. -/
theorem tags_are_homomorphic (B : Blake3) (key : HomMacKey) {k n : ℕ} {pieces : List (Bytes × Bytes)}
    (alike : ∀ p ∈ pieces, p.1.length = k ∧ p.2.length = n) (coefficients : Bytes) :
    combineTags (pieces.map fun p => computeTag B key p.1 p.2) coefficients =
      computeTag B key
        (mulAddAll (List.replicate k 0) ((pieces.zip coefficients).map fun t => (t.1.1, t.2)))
        (mulAddAll (List.replicate n 0) ((pieces.zip coefficients).map fun t => (t.1.2, t.2))) :=
  combineTags_eq B key coefficients alike

theorem tags_are_homomorphic_two :
    let B : Blake3 := ⟨fun _ => Bytes32.fill 0, fun input i => UInt8.ofNat (input.length + i)⟩
    let key : HomMacKey := ⟨Bytes32.fill 9⟩
    let pieces : List (Bytes × Bytes) := [([1, 2], [3, 4, 5]), ([6, 7], [8, 9, 10])]
    (∀ p ∈ pieces, p.1.length = 2 ∧ p.2.length = 3) ∧
      combineTags (pieces.map fun p => computeTag B key p.1 p.2) [2, 200] =
        computeTag B key (mulAddAll [0, 0] [([1, 2], 2), ([6, 7], 200)])
          (mulAddAll [0, 0, 0] [([3, 4, 5], 2), ([8, 9, 10], 200)]) := by
  intro B key pieces
  have alike : ∀ p ∈ pieces, p.1.length = 2 ∧ p.2.length = 3 := by decide
  exact ⟨alike, tags_are_homomorphic B key alike [2, 200]⟩

end Craftec.Rlnc.Tags
