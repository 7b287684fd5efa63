/- GID: Craftec/Health/Scanner
   generality: I
   digest: The scanner's target for a content, and what it makes of the pieces available. -/

import Mathlib
import Craftec.Health.Repair
import Craftec.Health.Tracker
import Craftec.Library.Binary64
import Craftec.Rlnc.Engine
import Craftec.Types.Digest

set_option autoImplicit false
set_option relaxedAutoImplicit false

namespace Craftec.Health.Scanner

open Craftec.Health.Repair (RepairRequest)
open Craftec.Health.Tracker (PieceTracker)
open Craftec.Library
open Craftec.Rlnc.Engine (ceilU32 redundancy redundancy_rounded_between targetN targetN_between
  targetN_of_le)
open Craftec.Types.Digest (Cid)

def defaultK : UInt32 := 32

/-- `k × ceil(2 + 16/k)`; the product wraps as a release build does. -/
def targetPieceCount (k : UInt32) : UInt32 :=
  let k := max k 1
  k * UInt32.ofNat (ceilU32 (redundancy Binary64.rounded k.toNat))

def evaluateCid (tracker : PieceTracker) (cid : Cid) : Option RepairRequest :=
  let available := tracker.availableCount cid
  let k := (tracker.getK cid).getD defaultK
  let target := targetPieceCount k
  if available < k then some (.critical cid available k)
  else if available < target then some (.normal cid available target)
  else none

theorem cid_evaluateCid {tracker : PieceTracker} {cid : Cid} {request : RepairRequest}
    (asked : evaluateCid tracker cid = some request) : request.cid = cid := by
  simp only [evaluateCid] at asked
  split at asked
  · cases asked
    rfl
  · split at asked
    · cases asked
      rfl
    · cases asked

section Targets

theorem ceil_redundancy {k : ℕ} (pos : 1 ≤ k) : ⌈redundancy id k⌉ = ((2 + (15 + k) / k : ℕ) : ℤ) := by
  have split := Nat.div_add_mod (15 + k) k
  have rest := Nat.mod_lt (15 + k) pos
  have upper : 16 ≤ k * ((15 + k) / k) := by omega
  have lower : k * ((15 + k) / k) < 16 + k := by omega
  have positive : (0 : ℚ) < k := by exact_mod_cast pos
  generalize (15 + k) / k = quotient at upper lower
  rw [Int.ceil_eq_iff, redundancy, id, id]
  push_cast
  constructor
  · have bound : (quotient : ℚ) * k < 16 + k := by
      rw [mul_comm]
      exact_mod_cast lower
    have below : (quotient : ℚ) < 16 / k + 1 := by
      rw [div_add_one positive.ne', lt_div_iff₀ positive]
      exact bound
    linarith
  · have bound : (16 : ℚ) ≤ quotient * k := by
      rw [mul_comm]
      exact_mod_cast upper
    have above : (16 : ℚ) / k ≤ quotient := (div_le_iff₀ positive).mpr bound
    linarith

theorem ceil_redundancy_rounded {k : ℕ} (pos : 1 ≤ k) (word : k < 2 ^ 32) :
    ⌈redundancy Binary64.rounded k⌉ = ⌈redundancy id k⌉ := by
  rw [ceil_redundancy pos]
  by_cases small : k ≤ 16
  · have table : ∀ k ∈ Finset.Icc 1 16,
        ⌈redundancy Binary64.rounded k⌉ = ((2 + (15 + k) / k : ℕ) : ℤ) := by decide +kernel
    exact table k (Finset.mem_Icc.mpr ⟨pos, small⟩)
  · -- above sixteen the quotient lies between 2 ^ -28 and 1
    have one : (15 + k) / k = 1 := Nat.div_eq_of_lt_le (by omega) (by omega)
    have positive : (0 : ℚ) < k := by exact_mod_cast pos
    have least : 1 ≤ ⌊(16 / k * 2 ^ 40 : ℚ)⌋ := by
      have : (k : ℚ) < 2 ^ 32 := by exact_mod_cast word
      rw [Int.le_floor, div_mul_eq_mul_div, le_div_iff₀ positive]
      push_cast
      linarith
    have most : ⌈(16 / k * 2 ^ 40 : ℚ)⌉ ≤ 2 ^ 40 := by
      have : (16 : ℚ) ≤ k := by exact_mod_cast (not_le.mp small).le
      rw [Int.ceil_le, div_mul_eq_mul_div, div_le_iff₀ positive]
      push_cast
      linarith
    obtain ⟨low, high⟩ := redundancy_rounded_between pos
    have least' : (1 : ℚ) ≤ ⌊(16 / k * 2 ^ 40 : ℚ)⌋ := by exact_mod_cast least
    have most' : (⌈(16 / k * 2 ^ 40 : ℚ)⌉ : ℚ) ≤ 2 ^ 40 := by exact_mod_cast most
    rw [one, Int.ceil_eq_iff]
    push_cast
    constructor <;> linarith

theorem toNat_targetPieceCount {k : UInt32} (pos : 1 ≤ k.toNat) :
    (targetPieceCount k).toNat = k.toNat * (2 + (15 + k.toNat) / k.toNat) % 2 ^ 32 := by
  have kept : max k 1 = k := by
    change (if k ≤ 1 then 1 else k) = k
    split
    · rename_i low
      exact UInt32.le_antisymm (UInt32.le_iff_toNat_le.mpr pos) low
    · rfl
  have few : (15 + k.toNat) / k.toNat ≤ 16 := by
    rw [Nat.div_le_iff_le_mul_add_pred pos]
    omega
  have cast : ceilU32 (redundancy Binary64.rounded k.toNat) = 2 + (15 + k.toNat) / k.toNat := by
    rw [ceilU32, ceil_redundancy_rounded pos k.toNat_lt, ceil_redundancy pos, Int.toNat_natCast]
    omega
  rw [targetPieceCount, kept, cast, UInt32.toNat_mul, UInt32.toNat_ofNat', Nat.mul_mod_mod]

theorem target_le_targetN_iff {round : ℚ → ℚ} (arithmetic : round = id ∨ round = Binary64.rounded)
    {k : UInt32} (pos : 1 ≤ k.toNat) :
    (targetPieceCount k).toNat ≤ targetN round k.toNat ↔ k.toNat ∣ 16 ∨ 2 ^ 32 ≤ 3 * k.toNat := by
  have word := k.toNat_lt
  rw [toNat_targetPieceCount pos]
  generalize k.toNat = k at pos word
  -- at seventeen the two differ by one piece, which is what the doubles may be off by
  by_cases small : k ≤ 17
  · rw [targetN_of_le arithmetic pos small]
    interval_cases k <;> decide
  · -- above sixteen the factor is three
    have three : 2 + (15 + k) / k = 3 := by
      have one : (15 + k) / k = 1 := Nat.div_eq_of_lt_le (by omega) (by omega)
      omega
    have apart : ¬ k ∣ 16 := fun divides =>
      absurd (Nat.le_of_dvd (by decide) divides) (by omega)
    obtain ⟨low, high⟩ := targetN_between arithmetic pos word
    generalize targetN round k = made at low high
    rw [three]
    simp only [apart, false_or]
    by_cases wraps : 2 ^ 32 ≤ 3 * k
    · have once : k * 3 % 2 ^ 32 = (k * 3 - 2 ^ 32) % 2 ^ 32 := Nat.mod_eq_sub_mod (by omega)
      have below := Nat.mod_le (k * 3 - 2 ^ 32) (2 ^ 32)
      have fits := Nat.mod_lt (k * 3 - 2 ^ 32) (Nat.two_pow_pos 32)
      rw [once]
      generalize (k * 3 - 2 ^ 32) % 2 ^ 32 = wrapped at below fits
      omega
    · rw [Nat.mod_eq_of_lt (by omega)]
      omega

end Targets

end Craftec.Health.Scanner
