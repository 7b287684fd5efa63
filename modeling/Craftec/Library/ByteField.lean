/- GID: Craftec/Library/ByteField
   generality: G
   digest: Bytes as residues of binary polynomials modulo x^8+x^4+x^3+x+1, and bit-serial products. -/

import Mathlib

set_option autoImplicit false
set_option relaxedAutoImplicit false

namespace Craftec.Library.ByteField

open Polynomial

/-- The reduction polynomial x^8 + x^4 + x^3 + x + 1, written 0x11B on bytes. -/
noncomputable def modulus : (ZMod 2)[X] := X ^ 8 + X ^ 4 + X ^ 3 + X + 1

abbrev Residue := AdjoinRoot modulus

/-- Coefficient `i` of the polynomial packed in a byte. -/
def bit (a : UInt8) (i : ℕ) : Bool := a.toBitVec.getLsbD i

/-- Bit `i` of a byte is the coefficient of `X ^ i`. -/
noncomputable def poly (a : UInt8) : (ZMod 2)[X] :=
  ∑ i ∈ Finset.range 8, if bit a i then X ^ i else 0

noncomputable def residue (a : UInt8) : Residue := AdjoinRoot.mk modulus (poly a)

/-- Multiply a byte by `x`: shift left, and fold back the coefficient of `x^8`. -/
def xtime (a : UInt8) : UInt8 :=
  if a &&& 0x80 ≠ 0 then (a <<< 1) ^^^ 0x1B else a <<< 1

/-- `n` rounds of the bit-serial product, reading `b` from its low bit. -/
def rounds : ℕ → UInt8 → UInt8 → UInt8 → UInt8
  | 0, result, _, _ => result
  | n + 1, result, a, b =>
      rounds n (if b &&& 1 ≠ 0 then result ^^^ a else result) (xtime a) (b >>> 1)

def mul (a b : UInt8) : UInt8 := rounds 8 0 a b

theorem bit_of_le (a : UInt8) {i : ℕ} (h : 8 ≤ i) : bit a i = false :=
  BitVec.getLsbD_of_ge _ _ h

theorem eq_of_bit_eq {a b : UInt8} (h : ∀ i < 8, bit a i = bit b i) : a = b := by
  apply UInt8.toBitVec_inj.mp
  exact BitVec.eq_of_getLsbD_eq h

@[simp] theorem bit_zero (i : ℕ) : bit 0 i = false := by simp [bit]

@[simp] theorem bit_xor (a b : UInt8) (i : ℕ) : bit (a ^^^ b) i = (bit a i ^^ bit b i) := by
  simp [bit]

theorem bit_shiftRight (b : UInt8) (i : ℕ) : bit (b >>> 1) i = bit b (i + 1) := by
  simp [bit, UInt8.toBitVec_shiftRight, Nat.add_comm]

theorem bit_shiftLeft (a : UInt8) (i : ℕ) (h : i < 7) : bit (a <<< 1) (i + 1) = bit a i := by
  simp [bit, UInt8.toBitVec_shiftLeft]
  omega

theorem bit_shiftLeft_zero (a : UInt8) : bit (a <<< 1) 0 = false := by
  simp [bit, UInt8.toBitVec_shiftLeft]

/-- The residue of `x` itself. -/
private noncomputable abbrev x : Residue := AdjoinRoot.root modulus

private noncomputable def term (a : UInt8) (i : ℕ) : Residue := if bit a i then x ^ i else 0

private theorem residue_eq_sum (a : UInt8) :
    residue a = ∑ i ∈ Finset.range 8, term a i := by
  simp only [residue, poly, map_sum, term]
  refine Finset.sum_congr rfl fun i _ => ?_
  split <;> simp [AdjoinRoot.mk_X]

private theorem two_eq_zero : (2 : Residue) = 0 := by
  have h : (2 : ZMod 2) = 0 := by decide
  have hc := congrArg (AdjoinRoot.of modulus) h
  rwa [map_ofNat, map_zero] at hc

private theorem add_self (r : Residue) : r + r = 0 := by
  rw [← two_mul, two_eq_zero, zero_mul]

@[simp] theorem residue_zero : residue 0 = 0 := by
  rw [residue_eq_sum]
  simp [term]

theorem residue_xor (a b : UInt8) : residue (a ^^^ b) = residue a + residue b := by
  simp only [residue_eq_sum, ← Finset.sum_add_distrib]
  refine Finset.sum_congr rfl fun i _ => ?_
  simp only [term, bit_xor]
  cases bit a i <;> cases bit b i <;> simp [add_self]

private theorem x_pow_eight : x ^ 8 = x ^ 4 + x ^ 3 + x + 1 := by
  have h : x ^ 8 + x ^ 4 + x ^ 3 + x + 1 = 0 := by
    have hm : AdjoinRoot.mk modulus (X ^ 8 + X ^ 4 + X ^ 3 + X + 1) = 0 := AdjoinRoot.mk_self
    simpa only [map_add, map_pow, AdjoinRoot.mk_X, map_one] using hm
  calc x ^ 8 = x ^ 8 + ((x ^ 4 + x ^ 3 + x + 1) + (x ^ 4 + x ^ 3 + x + 1)) := by
        rw [add_self, add_zero]
    _ = (x ^ 8 + x ^ 4 + x ^ 3 + x + 1) + (x ^ 4 + x ^ 3 + x + 1) := by ring
    _ = x ^ 4 + x ^ 3 + x + 1 := by rw [h, zero_add]

private theorem residue_low (b : UInt8) :
    residue b = (if bit b 0 then (1 : Residue) else 0) + x * residue (b >>> 1) := by
  have low : term b 0 = if bit b 0 then (1 : Residue) else 0 := by simp [term]
  have body : ∑ i ∈ Finset.range 7, term b (i + 1) =
      ∑ i ∈ Finset.range 7, x * term (b >>> 1) i := by
    refine Finset.sum_congr rfl fun i _ => ?_
    simp only [term, bit_shiftRight]
    split
    · rw [pow_succ']
    · rw [mul_zero]
  have high : term (b >>> 1) 7 = 0 := by simp [term, bit_shiftRight, bit_of_le]
  rw [residue_eq_sum, residue_eq_sum, Finset.sum_range_succ', low, body,
    Finset.sum_range_succ _ 7, high, add_zero, Finset.mul_sum, add_comm]

private theorem residue_shiftLeft (a : UInt8) :
    residue (a <<< 1) = x * residue a + if bit a 7 then x ^ 8 else 0 := by
  have low : term (a <<< 1) 0 = 0 := by simp [term, bit_shiftLeft_zero]
  have body : ∑ i ∈ Finset.range 7, term (a <<< 1) (i + 1) =
      ∑ i ∈ Finset.range 7, x * term a i := by
    refine Finset.sum_congr rfl fun i hi => ?_
    simp only [term, bit_shiftLeft a i (Finset.mem_range.mp hi)]
    split
    · rw [pow_succ']
    · rw [mul_zero]
  have top : x * term a 7 = if bit a 7 then x ^ 8 else 0 := by
    simp only [term]
    split
    · rw [← pow_succ']
    · rw [mul_zero]
  rw [residue_eq_sum, residue_eq_sum, Finset.sum_range_succ', low, add_zero, body,
    Finset.sum_range_succ _ 7, mul_add, Finset.mul_sum, top, add_assoc, add_self, add_zero]

private theorem residue_fold_back : residue 0x1B = x ^ 8 := by
  rw [x_pow_eight, residue_eq_sum]
  simp only [Finset.sum_range_succ, Finset.sum_range_zero, term,
    show bit 0x1B 0 = true by decide, show bit 0x1B 1 = true by decide,
    show bit 0x1B 2 = false by decide, show bit 0x1B 3 = true by decide,
    show bit 0x1B 4 = true by decide, show bit 0x1B 5 = false by decide,
    show bit 0x1B 6 = false by decide, show bit 0x1B 7 = false by decide]
  simp only [if_true, Bool.false_eq_true, if_false]
  ring

private theorem mask_ne_zero (a m : UInt8) (j : ℕ) (hm : ∀ i, bit m i = decide (i = j)) :
    a &&& m ≠ 0 ↔ bit a j = true := by
  have masked (i : ℕ) : bit (a &&& m) i = (bit a i && decide (i = j)) := by
    rw [← hm i]
    simp [bit]
  constructor
  · intro h
    by_contra hb
    refine h (eq_of_bit_eq fun i _ => ?_)
    rw [masked, bit_zero]
    by_cases hij : i = j
    · subst hij
      simpa using hb
    · simp [hij]
  · intro hb h
    have := masked j
    simp [h, hb] at this

private theorem bit_of_small (m : UInt8) (j : ℕ) (hj : j < 8)
    (hm : ∀ i < 8, bit m i = decide (i = j)) (i : ℕ) : bit m i = decide (i = j) := by
  by_cases hi : i < 8
  · exact hm i hi
  · rw [bit_of_le m (by omega), decide_eq_false (by omega)]

private theorem high_bit (a : UInt8) : a &&& 0x80 ≠ 0 ↔ bit a 7 = true :=
  mask_ne_zero a 0x80 7 (bit_of_small 0x80 7 (by decide) (by decide))

private theorem low_bit (b : UInt8) : b &&& 1 ≠ 0 ↔ bit b 0 = true :=
  mask_ne_zero b 1 0 (bit_of_small 1 0 (by decide) (by decide))

theorem residue_xtime (a : UInt8) : residue (xtime a) = x * residue a := by
  unfold xtime
  by_cases h : bit a 7 = true
  · rw [if_pos ((high_bit a).mpr h), residue_xor, residue_shiftLeft, if_pos h, residue_fold_back,
      add_assoc, add_self, add_zero]
  · rw [if_neg (fun g => h ((high_bit a).mp g)), residue_shiftLeft, if_neg h, add_zero]

theorem residue_rounds (n : ℕ) (result a b : UInt8) (h : ∀ i, n ≤ i → bit b i = false) :
    residue (rounds n result a b) = residue result + residue a * residue b := by
  induction n generalizing result a b with
  | zero =>
    have hb : b = 0 := eq_of_bit_eq fun i _ => by rw [h i (Nat.zero_le i), bit_zero]
    simp [rounds, hb]
  | succ n ih =>
    have rest : ∀ i, n ≤ i → bit (b >>> 1) i = false := fun i hi => by
      rw [bit_shiftRight]
      exact h (i + 1) (by omega)
    rw [rounds, ih _ _ _ rest, residue_xtime, residue_low b]
    by_cases hb : bit b 0 = true
    · rw [if_pos ((low_bit b).mpr hb), if_pos hb, residue_xor]
      ring
    · rw [if_neg (fun g => hb ((low_bit b).mp g)), if_neg hb]
      ring

theorem residue_mul (a b : UInt8) : residue (mul a b) = residue a * residue b := by
  rw [mul, residue_rounds 8 0 a b fun i hi => bit_of_le b hi, residue_zero, zero_add]

theorem residue_one : residue 1 = 1 := by
  rw [residue_low, show (1 : UInt8) >>> 1 = 0 by decide, residue_zero, mul_zero, add_zero,
    if_pos (by decide)]

private theorem natDegree_modulus : modulus.natDegree = 8 := by
  unfold modulus
  compute_degree!

private theorem monic_modulus : modulus.Monic := by
  unfold modulus
  monicity!

private theorem coeff_poly (a : UInt8) (i : ℕ) : (poly a).coeff i = if bit a i then 1 else 0 := by
  have each (j : ℕ) : (if bit a j then X ^ j else (0 : (ZMod 2)[X])).coeff i =
      if i = j then (if bit a j then 1 else 0) else 0 := by
    split <;> simp [coeff_X_pow]
  simp only [poly, finsetSum_coeff, each, Finset.sum_ite_eq, Finset.mem_range]
  by_cases hi : i < 8
  · rw [if_pos hi]
  · rw [if_neg hi, bit_of_le a (by omega)]
    simp

private theorem degree_poly_lt (a : UInt8) : (poly a).degree < modulus.degree := by
  rw [degree_eq_natDegree monic_modulus.ne_zero, natDegree_modulus, degree_lt_iff_coeff_zero]
  intro i hi
  simp [coeff_poly, bit_of_le a hi]

theorem residue_injective : Function.Injective residue := by
  intro a b h
  have dvd : modulus ∣ poly a - poly b := AdjoinRoot.mk_eq_mk.mp h
  have small : (poly a - poly b).degree < modulus.degree :=
    (degree_sub_le _ _).trans_lt (max_lt (degree_poly_lt a) (degree_poly_lt b))
  have same : poly a = poly b := sub_eq_zero.mp (eq_zero_of_dvd_of_degree_lt dvd small)
  refine eq_of_bit_eq fun i _ => ?_
  have hc := congrArg (fun p => p.coeff i) same
  simp only [coeff_poly] at hc
  revert hc
  cases bit a i <;> cases bit b i <;> simp

/-- The bit-serial product packs the remainder of the product of the polynomials. -/
theorem poly_mul (a b : UInt8) : poly (mul a b) = poly a * poly b %ₘ modulus := by
  have residues : AdjoinRoot.mk modulus (poly (mul a b)) = AdjoinRoot.mk modulus (poly a * poly b) := by
    rw [map_mul]
    exact residue_mul a b
  have dvd : modulus ∣ poly (mul a b) - poly a * poly b := AdjoinRoot.mk_eq_mk.mp residues
  calc poly (mul a b) = poly (mul a b) %ₘ modulus :=
        ((modByMonic_eq_self_iff monic_modulus).mpr (degree_poly_lt _)).symm
    _ = poly a * poly b %ₘ modulus := modByMonic_eq_of_dvd_sub monic_modulus dvd

/-- A byte read as an element of the field with 256 elements. -/
@[ext] structure GF256 where
  byte : UInt8
  deriving DecidableEq

namespace GF256

instance : Zero GF256 := ⟨⟨0⟩⟩
instance : One GF256 := ⟨⟨1⟩⟩
instance : Add GF256 := ⟨fun a b => ⟨a.byte ^^^ b.byte⟩⟩
instance : Mul GF256 := ⟨fun a b => ⟨mul a.byte b.byte⟩⟩
instance : Neg GF256 := ⟨fun a => a⟩
instance : Sub GF256 := ⟨fun a b => ⟨a.byte ^^^ b.byte⟩⟩

@[simp] theorem byte_zero : (0 : GF256).byte = 0 := rfl
@[simp] theorem byte_one : (1 : GF256).byte = 1 := rfl
@[simp] theorem byte_add (a b : GF256) : (a + b).byte = a.byte ^^^ b.byte := rfl
@[simp] theorem byte_mul (a b : GF256) : (a * b).byte = mul a.byte b.byte := rfl
theorem neg_eq (a : GF256) : -a = a := rfl

private noncomputable def toResidue (a : GF256) : Residue := residue a.byte

private theorem toResidue_injective : Function.Injective toResidue := fun _ _ h =>
  GF256.ext (residue_injective h)

private theorem toResidue_zero : toResidue 0 = 0 := residue_zero
private theorem toResidue_one : toResidue 1 = 1 := residue_one
private theorem toResidue_add (a b : GF256) : toResidue (a + b) = toResidue a + toResidue b :=
  residue_xor _ _
private theorem toResidue_mul (a b : GF256) : toResidue (a * b) = toResidue a * toResidue b :=
  residue_mul _ _

instance : CommRing GF256 where
  add_assoc a b c := toResidue_injective (by simp only [toResidue_add, add_assoc])
  zero_add a := toResidue_injective (by simp only [toResidue_add, toResidue_zero, zero_add])
  add_zero a := toResidue_injective (by simp only [toResidue_add, toResidue_zero, add_zero])
  add_comm a b := toResidue_injective (by simp only [toResidue_add, add_comm])
  left_distrib a b c := toResidue_injective (by
    simp only [toResidue_add, toResidue_mul, left_distrib])
  right_distrib a b c := toResidue_injective (by
    simp only [toResidue_add, toResidue_mul, right_distrib])
  zero_mul a := toResidue_injective (by simp only [toResidue_mul, toResidue_zero, zero_mul])
  mul_zero a := toResidue_injective (by simp only [toResidue_mul, toResidue_zero, mul_zero])
  mul_assoc a b c := toResidue_injective (by simp only [toResidue_mul, mul_assoc])
  one_mul a := toResidue_injective (by simp only [toResidue_mul, toResidue_one, one_mul])
  mul_one a := toResidue_injective (by simp only [toResidue_mul, toResidue_one, mul_one])
  mul_comm a b := toResidue_injective (by simp only [toResidue_mul, mul_comm])
  neg_add_cancel a := toResidue_injective (by
    rw [toResidue_add, neg_eq, toResidue_zero, add_self])
  sub_eq_add_neg _ _ := rfl
  nsmul := nsmulRec
  zsmul := zsmulRec

def generator : GF256 := ⟨3⟩

private def byteEquiv : GF256 ≃ Fin 256 where
  toFun a := a.byte.toFin
  invFun i := ⟨UInt8.ofFin i⟩
  left_inv _ := rfl
  right_inv _ := rfl

instance : Fintype GF256 := Fintype.ofEquiv _ byteEquiv.symm

theorem card_eq : Fintype.card GF256 = 256 := by
  rw [Fintype.card_congr byteEquiv, Fintype.card_fin]

theorem generator_pow_255 : generator ^ 255 = 1 := by decide +kernel

theorem orderOf_generator : orderOf generator = 255 := by
  refine orderOf_eq_of_pow_and_pow_div_prime (by decide) generator_pow_255 fun p hp hd => ?_
  have factors : p ∣ 3 ∨ p ∣ 5 ∨ p ∣ 17 := by
    have h : p ∣ 3 * (5 * 17) := hd
    rcases (Nat.Prime.dvd_mul hp).mp h with h | h
    · exact .inl h
    · exact .inr ((Nat.Prime.dvd_mul hp).mp h)
  rcases factors with h | h | h
  · rw [(Nat.prime_dvd_prime_iff_eq hp (by norm_num)).mp h]
    decide +kernel
  · rw [(Nat.prime_dvd_prime_iff_eq hp (by norm_num)).mp h]
    decide +kernel
  · rw [(Nat.prime_dvd_prime_iff_eq hp (by norm_num)).mp h]
    decide +kernel

private theorem generator_pow_ne_zero (i : ℕ) : generator ^ i ≠ 0 := by
  intro h
  have unit : generator ^ i * generator ^ (254 * i) = 1 := by
    rw [← pow_add, show i + 254 * i = 255 * i by omega, pow_mul, generator_pow_255, one_pow]
  rw [h, zero_mul] at unit
  exact absurd unit (by decide)

theorem exists_generator_pow {a : GF256} (ha : a ≠ 0) : ∃ i < 255, generator ^ i = a := by
  let powers := (Finset.range 255).image (generator ^ ·)
  have card_powers : powers.card = 255 := by
    rw [Finset.card_image_of_injOn, Finset.card_range]
    intro i hi j hj h
    refine pow_injOn_Iio_orderOf ?_ ?_ h
    · simpa [orderOf_generator] using hi
    · simpa [orderOf_generator] using hj
  have sub : powers ⊆ Finset.univ.erase 0 := by
    intro b hb
    obtain ⟨i, _, rfl⟩ := Finset.mem_image.mp hb
    exact Finset.mem_erase.mpr ⟨generator_pow_ne_zero i, Finset.mem_univ _⟩
  have all : powers = Finset.univ.erase 0 := by
    refine Finset.eq_of_subset_of_card_le sub ?_
    rw [Finset.card_erase_of_mem (Finset.mem_univ _), Finset.card_univ, card_eq, card_powers]
  have mem : a ∈ powers := by
    rw [all]
    exact Finset.mem_erase.mpr ⟨ha, Finset.mem_univ _⟩
  obtain ⟨i, hi, h⟩ := Finset.mem_image.mp mem
  exact ⟨i, Finset.mem_range.mp hi, h⟩

theorem pow_255 {a : GF256} (ha : a ≠ 0) : a ^ 255 = 1 := by
  obtain ⟨i, _, rfl⟩ := exists_generator_pow ha
  rw [← pow_mul, mul_comm, pow_mul, generator_pow_255, one_pow]

instance : Field GF256 where
  inv a := a ^ 254
  exists_pair_ne := ⟨0, 1, by decide⟩
  mul_inv_cancel a ha := (pow_succ' a 254).symm.trans (pow_255 ha)
  inv_zero := by decide
  nnqsmul := _
  nnqsmul_def _ _ := rfl
  qsmul := _
  qsmul_def _ _ := rfl

end GF256

end Craftec.Library.ByteField
