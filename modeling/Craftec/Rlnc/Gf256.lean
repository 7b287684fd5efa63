/- GID: Craftec/Rlnc/Gf256
   generality: I
   digest: The log and exp tables, the table product and inverse, and the fused multiply-add on slices. -/

import Craftec.Library.ByteField
import Craftec.Types.Digest

set_option autoImplicit false
set_option relaxedAutoImplicit false

namespace Craftec.Rlnc.Gf256

open Craftec.Library.ByteField
open Craftec.Types.Digest (Bytes)

/-! Table generation -/

/-- The `while b > 0` loop of `gf_mul_slow`; the first argument bounds its turns. -/
def mulSlowLoop : ℕ → UInt8 → UInt8 → UInt8 → UInt8
  | 0, result, _, _ => result
  | n + 1, result, a, b =>
      if b > 0 then
        let result := if b &&& 1 ≠ 0 then result ^^^ a else result
        let hi := a &&& 0x80
        let a := a <<< 1
        let a := if hi ≠ 0 then a ^^^ 0x1B else a
        mulSlowLoop n result a (b >>> 1)
      else result

/-- A byte has no bit left after eight shifts, so eight turns are all of them. -/
def gfMulSlow (a b : UInt8) : UInt8 := mulSlowLoop 8 0 a b

def expStep (s : List UInt8 × UInt8) (i : ℕ) : List UInt8 × UInt8 :=
  ((s.1.set i s.2).set (i + 255) s.2, gfMulSlow s.2 3)

def buildExpTable : List UInt8 :=
  let s := (List.range 255).foldl expStep (List.replicate 512 0, 1)
  (s.1.set 255 1).set 510 1

def logStep (exp : List UInt8) (table : List UInt8) (i : ℕ) : List UInt8 :=
  table.set (exp.getD i 0).toNat (UInt8.ofNat i)

def buildLogTable (exp : List UInt8) : List UInt8 :=
  (List.range 255).foldl (logStep exp) (List.replicate 256 0)

def expTable : List UInt8 := buildExpTable

def logTable : List UInt8 := buildLogTable expTable

/-! Field operations -/

def gfMul (a b : UInt8) : UInt8 :=
  if a = 0 ∨ b = 0 then 0
  else expTable.getD ((logTable.getD a.toNat 0).toNat + (logTable.getD b.toNat 0).toNat) 0

def gfInv (a : UInt8) : UInt8 := expTable.getD (255 - (logTable.getD a.toNat 0).toNat) 0

/-- `dst.iter_mut().zip(src)`: the bytes of `dst` beyond the end of `src` stay. -/
def zipInto (f : UInt8 → UInt8 → UInt8) : Bytes → Bytes → Bytes
  | d :: dst, s :: src => f d s :: zipInto f dst src
  | dst, _ => dst

/-- Fused multiply-add `dst[i] += coeff * src[i]`, with its two fast paths. -/
def gfVecMulAdd (dst src : Bytes) (coeff : UInt8) : Bytes :=
  if coeff = 0 then dst
  else if coeff = 1 then zipInto (fun d s => d ^^^ s) dst src
  else
    let logC := (logTable.getD coeff.toNat 0).toNat
    zipInto (fun d s =>
      if s ≠ 0 then d ^^^ expTable.getD (logC + (logTable.getD s.toNat 0).toNat) 0 else d) dst src

/-- Accumulate a list of slices, each with its coefficient, into `dst`. -/
def mulAddAll (dst : Bytes) (terms : List (Bytes × UInt8)) : Bytes :=
  terms.foldl (fun acc t => gfVecMulAdd acc t.1 t.2) dst

/-! The slow product -/

private theorem rounds_zero (n : ℕ) (result a : UInt8) : rounds n result a 0 = result := by
  induction n generalizing result a with
  | zero => rfl
  | succ n ih => simpa [rounds] using ih result (xtime a)

private theorem mulSlowLoop_eq (n : ℕ) (result a b : UInt8) :
    mulSlowLoop n result a b = rounds n result a b := by
  induction n generalizing result a b with
  | zero => rfl
  | succ n ih =>
    by_cases hb : b > 0
    · simp only [mulSlowLoop, if_pos hb, ih, rounds, xtime]
    · have zero : b = 0 := by
        apply UInt8.toNat_inj.mp
        simpa [UInt8.lt_iff_toNat_lt] using hb
      rw [mulSlowLoop, if_neg hb, zero, rounds_zero]

theorem gfMulSlow_eq (a b : UInt8) : gfMulSlow a b = mul a b := mulSlowLoop_eq 8 0 a b

/-! The tables -/

private def power (i : ℕ) : UInt8 := (GF256.generator ^ i).byte

private theorem power_succ (i : ℕ) : gfMulSlow (power i) 3 = power (i + 1) := by
  rw [gfMulSlow_eq]
  exact (congrArg GF256.byte (pow_succ GF256.generator i)).symm

private theorem power_add_255 (i : ℕ) : power (i + 255) = power i := by
  rw [power, pow_add, GF256.generator_pow_255, mul_one, power]

private theorem power_injOn {i j : ℕ} (hi : i < 255) (hj : j < 255) (h : power i = power j) :
    i = j := by
  refine pow_injOn_Iio_orderOf ?_ ?_ (GF256.ext h)
  · simpa [GF256.orderOf_generator] using hi
  · simpa [GF256.orderOf_generator] using hj

private theorem getD_set (table : List UInt8) (i j : ℕ) (v : UInt8) (hj : j < table.length) :
    (table.set i v).getD j 0 = if i = j then v else table.getD j 0 := by
  simp only [List.getD_eq_getElem?_getD, List.getElem?_set]
  split <;> simp_all

private theorem expStep_fold (n : ℕ) (hn : n ≤ 255) :
    let s := (List.range n).foldl expStep (List.replicate 512 0, 1)
    s.1.length = 512 ∧ s.2 = power n ∧
      ∀ j < n, s.1.getD j 0 = power j ∧ s.1.getD (j + 255) 0 = power j := by
  induction n with
  | zero => exact ⟨List.length_replicate, by decide, fun j hj => absurd hj (Nat.not_lt_zero j)⟩
  | succ n ih =>
    obtain ⟨len, last, entries⟩ := ih (by omega)
    rw [List.range_succ, List.foldl_append]
    simp only [List.foldl_cons, List.foldl_nil]
    generalize (List.range n).foldl expStep (List.replicate 512 0, 1) = s at len last entries ⊢
    refine ⟨by simp [expStep, len], by simp [expStep, last, power_succ], fun j hj => ?_⟩
    have inner : (s.1.set n s.2).length = 512 := by rw [List.length_set, len]
    simp only [expStep]
    rw [getD_set _ _ _ _ (by omega), getD_set _ _ _ _ (by omega), getD_set _ _ _ _ (by omega),
      getD_set _ _ _ _ (by omega), if_neg (by omega), if_neg (by omega : ¬ n = j + 255)]
    by_cases hjn : n = j
    · rw [if_pos hjn, if_pos (by omega), last, hjn]
      exact ⟨rfl, rfl⟩
    · rw [if_neg hjn, if_neg (by omega)]
      exact entries j (by omega)

private theorem expTable_getD (i : ℕ) (hi : i ≤ 510) : expTable.getD i 0 = power i := by
  obtain ⟨len, _, entries⟩ := expStep_fold 255 le_rfl
  have power_zero : power 0 = 1 := by decide
  have wrap : power 255 = 1 := (power_add_255 0).trans power_zero
  unfold expTable buildExpTable
  generalize (List.range 255).foldl expStep (List.replicate 512 0, 1) = s at len entries ⊢
  simp only
  rw [getD_set _ _ _ _ (by rw [List.length_set]; omega), getD_set _ _ _ _ (by omega)]
  by_cases last : i = 510
  · rw [if_pos last.symm, last]
    exact ((power_add_255 255).trans wrap).symm
  by_cases middle : i = 255
  · rw [if_neg (by omega), if_pos middle.symm, middle, wrap]
  rw [if_neg (by omega), if_neg (by omega)]
  by_cases low : i < 255
  · exact (entries i low).1
  · obtain ⟨j, rfl⟩ : ∃ j, i = j + 255 := ⟨i - 255, by omega⟩
    rw [power_add_255]
    exact (entries j (by omega)).2

private theorem logStep_fold (n : ℕ) (hn : n ≤ 255) :
    let table := (List.range n).foldl (logStep expTable) (List.replicate 256 0)
    table.length = 256 ∧ ∀ i < n, table.getD (power i).toNat 0 = UInt8.ofNat i := by
  induction n with
  | zero => exact ⟨List.length_replicate, fun i hi => absurd hi (Nat.not_lt_zero i)⟩
  | succ n ih =>
    obtain ⟨len, entries⟩ := ih (by omega)
    rw [List.range_succ, List.foldl_append]
    simp only [List.foldl_cons, List.foldl_nil]
    generalize (List.range n).foldl (logStep expTable) (List.replicate 256 0) = table
      at len entries ⊢
    refine ⟨by rw [logStep, List.length_set, len], fun i hi => ?_⟩
    rw [logStep, expTable_getD n (by omega),
      getD_set _ _ _ _ (by rw [len]; exact (power i).toNat_lt)]
    by_cases hin : i = n
    · rw [if_pos (by rw [hin]), hin]
    · rw [if_neg, entries i (by omega)]
      intro same
      exact hin (power_injOn (by omega) (by omega) (UInt8.toNat_inj.mp same)).symm

private theorem logTable_getD (i : ℕ) (hi : i < 255) :
    (logTable.getD (power i).toNat 0).toNat = i := by
  have h := (logStep_fold 255 le_rfl).2 i hi
  unfold logTable buildLogTable
  rw [h, UInt8.toNat_ofNat']
  omega

private theorem exists_power {a : UInt8} (ha : a ≠ 0) : ∃ i < 255, power i = a := by
  obtain ⟨i, hi, h⟩ := GF256.exists_generator_pow (a := ⟨a⟩) fun h => ha (congrArg GF256.byte h)
  exact ⟨i, hi, congrArg GF256.byte h⟩

private theorem mul_power (i j : ℕ) : mul (power i) (power j) = power (i + j) :=
  (congrArg GF256.byte (pow_add GF256.generator i j)).symm

private theorem exp_log_add {a b : UInt8} (ha : a ≠ 0) (hb : b ≠ 0) :
    expTable.getD ((logTable.getD a.toNat 0).toNat + (logTable.getD b.toNat 0).toNat) 0 =
      mul a b := by
  obtain ⟨i, hi, rfl⟩ := exists_power ha
  obtain ⟨j, hj, rfl⟩ := exists_power hb
  rw [logTable_getD i hi, logTable_getD j hj, expTable_getD _ (by omega), mul_power]

theorem gfMul_eq (a b : UInt8) : gfMul a b = mul a b := by
  unfold gfMul
  by_cases h : a = 0 ∨ b = 0
  · rw [if_pos h]
    have zero : (⟨a⟩ : GF256) * ⟨b⟩ = 0 := by
      rcases h with rfl | rfl
      · exact zero_mul _
      · exact mul_zero _
    exact (congrArg GF256.byte zero).symm
  · push Not at h
    rw [if_neg (by tauto), exp_log_add h.1 h.2]

theorem gfInv_eq {a : UInt8} (ha : a ≠ 0) : (⟨gfInv a⟩ : GF256) = (⟨a⟩ : GF256)⁻¹ := by
  obtain ⟨i, hi, rfl⟩ := exists_power ha
  refine eq_inv_of_mul_eq_one_left (GF256.ext ?_)
  rw [GF256.byte_mul, gfInv, logTable_getD i hi, expTable_getD _ (by omega), mul_power,
    show 255 - i + i = 0 + 255 by omega, power_add_255]
  rfl

theorem gfMul_one (a : UInt8) : gfMul a 1 = a := by
  rw [gfMul_eq]
  exact congrArg GF256.byte (mul_one (⟨a⟩ : GF256))

theorem gfInv_one : gfInv 1 = 1 := by
  have unit : (⟨gfInv 1⟩ : GF256) = 1 := by
    rw [gfInv_eq (by decide)]
    exact inv_one
  exact GF256.mk.inj unit

/-! Slices as vectors -/

/-- A slice as a function of its index, zero beyond its end. -/
def vec (l : Bytes) : ℕ → GF256 := fun i => ⟨l.getD i 0⟩

@[simp] theorem vec_nil : vec [] = 0 := by
  funext i
  simp [vec]
  rfl

@[simp] theorem length_zipInto (f : UInt8 → UInt8 → UInt8) (dst src : Bytes) :
    (zipInto f dst src).length = dst.length := by
  induction dst generalizing src with
  | nil => cases src <;> rfl
  | cons d dst ih =>
    cases src with
    | nil => rfl
    | cons s src => simp [zipInto, ih]

private theorem getD_zipInto (f : UInt8 → UInt8 → UInt8) (hf : ∀ d, f d 0 = d) (dst src : Bytes)
    (h : src.length ≤ dst.length) (i : ℕ) :
    (zipInto f dst src).getD i 0 = f (dst.getD i 0) (src.getD i 0) := by
  induction dst generalizing src i with
  | nil =>
    have : src = [] := List.length_eq_zero_iff.mp (Nat.le_zero.mp h)
    subst this
    simp [zipInto, hf]
  | cons d dst ih =>
    cases src with
    | nil => simp [zipInto, hf]
    | cons s src =>
      cases i with
      | zero => simp [zipInto]
      | succ i =>
        have := ih src (by simpa using h) i
        simpa [zipInto] using this

@[simp] theorem length_gfVecMulAdd (dst src : Bytes) (coeff : UInt8) :
    (gfVecMulAdd dst src coeff).length = dst.length := by
  unfold gfVecMulAdd
  split_ifs <;> simp

theorem vec_gfVecMulAdd (dst src : Bytes) (coeff : UInt8) (h : src.length ≤ dst.length) :
    vec (gfVecMulAdd dst src coeff) = vec dst + (⟨coeff⟩ : GF256) • vec src := by
  have one : ∀ s, mul 1 s = s := fun s => congrArg GF256.byte (one_mul (⟨s⟩ : GF256))
  have none : ∀ s, mul s 0 = 0 := fun s => congrArg GF256.byte (mul_zero (⟨s⟩ : GF256))
  funext i
  apply GF256.ext
  change (gfVecMulAdd dst src coeff).getD i 0 = dst.getD i 0 ^^^ mul coeff (src.getD i 0)
  unfold gfVecMulAdd
  by_cases zero : coeff = 0
  · have : mul 0 (src.getD i 0) = 0 := congrArg GF256.byte (zero_mul (⟨src.getD i 0⟩ : GF256))
    rw [if_pos zero, zero, this, UInt8.xor_zero]
  rw [if_neg zero]
  by_cases unit : coeff = 1
  · rw [if_pos unit, getD_zipInto _ (fun d => UInt8.xor_zero) _ _ h, unit, one]
  rw [if_neg unit, getD_zipInto _ (fun d => by simp) _ _ h]
  by_cases hs : src.getD i 0 = 0
  · simp only [hs, ne_eq, not_true_eq_false, if_false, none, UInt8.xor_zero]
  · simp only [ne_eq, hs, not_false_eq_true, if_true, exp_log_add zero hs]

@[simp] theorem length_mulAddAll (dst : Bytes) (terms : List (Bytes × UInt8)) :
    (mulAddAll dst terms).length = dst.length := by
  induction terms generalizing dst with
  | nil => rfl
  | cons t terms ih => simpa [mulAddAll] using ih (gfVecMulAdd dst t.1 t.2)

theorem vec_mulAddAll (dst : Bytes) (terms : List (Bytes × UInt8))
    (h : ∀ t ∈ terms, t.1.length ≤ dst.length) :
    vec (mulAddAll dst terms) =
      vec dst + (terms.map fun t => (⟨t.2⟩ : GF256) • vec t.1).sum := by
  induction terms generalizing dst with
  | nil => simp [mulAddAll]
  | cons t terms ih =>
    have rest : ∀ u ∈ terms, u.1.length ≤ (gfVecMulAdd dst t.1 t.2).length := fun u hu => by
      rw [length_gfVecMulAdd]
      exact h u (List.mem_cons_of_mem _ hu)
    have head := vec_gfVecMulAdd dst t.1 t.2 (h t List.mem_cons_self)
    change vec (mulAddAll (gfVecMulAdd dst t.1 t.2) terms) = _
    rw [ih _ rest, head, List.map_cons, List.sum_cons, add_assoc]

@[simp] theorem vec_replicate_zero (n : ℕ) : vec (List.replicate n 0) = 0 := by
  funext i
  apply GF256.ext
  simp only [vec, List.getD_eq_getElem?_getD, List.getElem?_replicate]
  split <;> rfl

theorem vec_append (a b : Bytes) (i : ℕ) :
    vec (a ++ b) i = if i < a.length then vec a i else vec b (i - a.length) := by
  simp only [vec, List.getD_eq_getElem?_getD]
  split
  · rw [List.getElem?_append_left ‹_›]
  · rw [List.getElem?_append_right (by omega)]

theorem eq_of_vec_eq {a b : Bytes} (len : a.length = b.length) (h : ∀ i < a.length, vec a i = vec b i) :
    a = b := by
  refine List.ext_getElem len fun i ha hb => ?_
  have same := congrArg GF256.byte (h i ha)
  simpa [vec, List.getD_eq_getElem?_getD, List.getElem?_eq_getElem, ha, hb] using same

end Craftec.Rlnc.Gf256
