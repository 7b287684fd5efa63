/- GID: Craftec/Rlnc/Engine
   generality: I
   digest: The coding engine: how many pieces an encoding makes, and its errors. -/

import Mathlib
import Craftec.Library.Binary64
import Craftec.Rlnc.Encoder
import Craftec.Types.Digest
import Craftec.Types.Piece

set_option autoImplicit false
set_option relaxedAutoImplicit false

namespace Craftec.Rlnc.Engine

open Craftec.Library
open Craftec.Library.Binary64 (rounded_between)
open Craftec.Rlnc.Encoder (RlncEncoder RlncError pieceSizeFor recode)
open Craftec.Types.Digest (Bytes Blake3)
open Craftec.Types.Piece (CodedPiece)

inductive EngineError where
  | semaphoreError
  | rlnc (e : RlncError)
  deriving DecidableEq

def EngineError.display : EngineError → String
  | .semaphoreError => "RLNC engine semaphore closed (engine is shutting down)"
  | .rlnc (.insufficientPieces has need) => s!"insufficient pieces: have {has}, need {need}"
  | .rlnc (.decodeFailed message) => s!"decode failed: {message}"
  | .rlnc (.invalidPieceSize expected got) =>
    s!"invalid piece size: expected {expected} bytes, got {got}"
  | .rlnc (.codingVectorLengthMismatch expected got) =>
    s!"coding vector length {got} does not match generation size {expected}"
  | .rlnc (.insufficientRecodeInputs got) => s!"recode requires at least 2 input pieces, got {got}"
  | .rlnc .mismatchedCids => "recode input pieces have mismatched CIDs"

/-- The redundancy ratio. `round` is what each operation does to its result: `Binary64.rounded`
for the doubles of the code, `id` for exact arithmetic. -/
def redundancy (round : ℚ → ℚ) (k : ℕ) : ℚ := round (2 + round (16 / k))

/-- `n.ceil() as u32`, a cast that saturates. -/
def ceilU32 (n : ℚ) : ℕ := min ⌈n⌉.toNat (2 ^ 32 - 1)

/-- The number of pieces made of a generation of size `k`. -/
def targetN (round : ℚ → ℚ) (k : ℕ) : ℕ := ceilU32 (round (k * redundancy round k))

theorem targetN_exact {k : ℕ} (pos : 1 ≤ k) : targetN id k = min (2 * k + 16) (2 ^ 32 - 1) := by
  have nonzero : (k : ℚ) ≠ 0 := by
    rw [Nat.cast_ne_zero]
    omega
  have whole : (k : ℚ) * redundancy id k = ((2 * k + 16 : ℕ) : ℚ) := by
    rw [redundancy, id, id, mul_add, mul_div_cancel₀ _ nonzero]
    push_cast
    ring
  rw [targetN, ceilU32, id, whole, Int.ceil_natCast, Int.toNat_natCast]

/-- In doubles the ratio stays within the multiples of `2 ^ -40` around the exact one. -/
theorem redundancy_rounded_between {k : ℕ} (pos : 1 ≤ k) :
    2 + (⌊(16 / k * 2 ^ 40 : ℚ)⌋ : ℚ) / 2 ^ 40 ≤ redundancy Binary64.rounded k ∧
      redundancy Binary64.rounded k ≤ 2 + (⌈(16 / k * 2 ^ 40 : ℚ)⌉ : ℚ) / 2 ^ 40 := by
  have positive : (0 : ℚ) < k := by exact_mod_cast pos
  have few : (16 / k : ℚ) ≤ 16 := div_le_self (by norm_num) (by exact_mod_cast pos)
  have grid : (2 : ℚ) ^ (-40 : ℤ) = (2 ^ 40)⁻¹ := by norm_num
  have least : (0 : ℤ) ≤ ⌊(16 / k * 2 ^ 40 : ℚ)⌋ := Int.floor_nonneg.mpr (by positivity)
  have most : ⌈(16 / k * 2 ^ 40 : ℚ)⌉ ≤ 2 ^ 44 := Int.ceil_le.mpr (by norm_num; linarith)
  have below := Int.floor_le (16 / k * 2 ^ 40 : ℚ)
  have above := Int.le_ceil (16 / k * 2 ^ 40 : ℚ)
  generalize ⌊(16 / k * 2 ^ 40 : ℚ)⌋ = m at least below ⊢
  generalize ⌈(16 / k * 2 ^ 40 : ℚ)⌉ = n at most above ⊢
  obtain ⟨low, high⟩ := @rounded_between (16 / k) (-40) m n (by positivity) (by decide) (by omega)
    (by rw [grid]; linarith) (by rw [grid]; linarith)
  rw [redundancy]
  generalize Binary64.rounded (16 / k) = quotient at low high
  have some_ : (0 : ℚ) ≤ m := by exact_mod_cast least
  rw [grid] at low high
  obtain ⟨low', high'⟩ := @rounded_between (2 + quotient) (-40) (2 ^ 41 + m) (2 ^ 41 + n) (by linarith)
    (by decide) (by omega) (by rw [grid]; push_cast; linarith) (by rw [grid]; push_cast; linarith)
  rw [grid] at low' high'
  push_cast at low' high'
  constructor <;> linarith

theorem targetN_rounded_between {k : ℕ} (pos : 1 ≤ k) (word : k < 2 ^ 32) :
    min (2 * k) (2 ^ 32 - 1) ≤ targetN Binary64.rounded k ∧ targetN Binary64.rounded k ≤ 2 * k + 17 := by
  have positive : (0 : ℚ) < k := by exact_mod_cast pos
  have small : (k : ℚ) < 2 ^ 32 := by exact_mod_cast word
  obtain ⟨low, high⟩ := redundancy_rounded_between pos
  have least : (0 : ℚ) ≤ ⌊(16 / k * 2 ^ 40 : ℚ)⌋ := by
    exact_mod_cast Int.floor_nonneg.mpr (by positivity)
  have most := Int.ceil_lt_add_one (16 / k * 2 ^ 40 : ℚ)
  rw [targetN]
  generalize redundancy Binary64.rounded k = ratio at low high
  have lower : ((2 * k : ℕ) : ℤ) ≤ (k : ℚ) * ratio := by
    have : (2 : ℚ) ≤ ratio := by linarith
    push_cast
    nlinarith
  have upper : (k : ℚ) * ratio ≤ ((2 * k + 17 : ℕ) : ℤ) := by
    have : ratio ≤ 2 + 17 / k := by
      have : (1 : ℚ) / 2 ^ 40 ≤ 1 / k := by
        apply one_div_le_one_div_of_le positive
        linarith
      have : (17 : ℚ) / k = 16 / k + 1 / k := by ring
      linarith
    calc (k : ℚ) * ratio ≤ k * (2 + 17 / k) := by gcongr
      _ = ((2 * k + 17 : ℕ) : ℤ) := by
        field_simp
        push_cast
        ring
  have product : 0 < (k : ℚ) * ratio := lower.trans_lt' (by push_cast; linarith)
  obtain ⟨low', high'⟩ := @rounded_between (k * ratio) 0 (2 * k : ℕ) (2 * k + 17 : ℕ) product
    (by decide) (by omega) (by simpa using lower) (by simpa using upper)
  rw [zpow_zero, mul_one] at low' high'
  have least' : ((2 * k : ℕ) : ℤ) ≤ ⌈Binary64.rounded (k * ratio)⌉ :=
    Int.cast_le.mp (low'.trans (Int.le_ceil _))
  have most' : ⌈Binary64.rounded (k * ratio)⌉ ≤ ((2 * k + 17 : ℕ) : ℤ) := Int.ceil_le.mpr high'
  rw [ceilU32]
  omega

section Arithmetic

variable {round : ℚ → ℚ} (arithmetic : round = id ∨ round = Binary64.rounded)
include arithmetic

theorem targetN_between {k : ℕ} (pos : 1 ≤ k) (word : k < 2 ^ 32) :
    min (2 * k) (2 ^ 32 - 1) ≤ targetN round k ∧ targetN round k ≤ 2 * k + 17 := by
  rcases arithmetic with rfl | rfl
  · rw [targetN_exact pos]
    omega
  · exact targetN_rounded_between pos word

theorem targetN_of_le {k : ℕ} (pos : 1 ≤ k) (small : k ≤ 17) : targetN round k = 2 * k + 16 := by
  rcases arithmetic with rfl | rfl
  · rw [targetN_exact pos]
    omega
  · have table : ∀ k ∈ Finset.Icc 1 17, targetN Binary64.rounded k = 2 * k + 16 := by decide +kernel
    exact table k (Finset.mem_Icc.mpr ⟨pos, small⟩)

theorem targetN_thirtyTwo : targetN round 32 = 80 := by
  rcases arithmetic with rfl | rfl
  · exact targetN_exact (by decide)
  · decide +kernel

end Arithmetic

-- not so for every `k`: in doubles one piece more than `2 * 22 + 16`
example : targetN Binary64.rounded 22 = 61 := by decide +kernel

variable (B : Blake3) (round : ℚ → ℚ)

def encodeN (enc : RlncEncoder) (vectors : ℕ → Bytes) (n : ℕ) : List CodedPiece :=
  (List.range n).map fun i => enc.encodePiece B (vectors i)

/-- `encode` of the engine, whose semaphore may be closed. -/
def encode (closed : Bool) (data : Bytes) (k : ℕ) (vectors : ℕ → Bytes) :
    Except EngineError (List CodedPiece) :=
  if closed then .error .semaphoreError
  else
    match RlncEncoder.new B data k with
    | .error e => .error (.rlnc e)
    | .ok enc => .ok (encodeN B enc vectors (targetN round enc.k))

/-- `recode` of the engine. -/
def engineRecode (closed : Bool) (pieces : List CodedPiece) (scalars : Bytes) :
    Except EngineError CodedPiece :=
  if closed then .error .semaphoreError
  else
    match recode B pieces scalars with
    | .error e => .error (.rlnc e)
    | .ok piece => .ok piece

section Encoded

variable {B} {round} {closed : Bool} {data : Bytes} {k : ℕ} {vectors : ℕ → Bytes} {pieces : List CodedPiece}

theorem of_encode (encoded : encode B round closed data k vectors = .ok pieces) :
    ∃ enc, RlncEncoder.new B data k = .ok enc ∧ pieces = encodeN B enc vectors (targetN round k) := by
  unfold encode at encoded
  split at encoded
  · cases encoded
  · split at encoded
    · cases encoded
    · rename_i enc new
      cases encoded
      rw [(RlncEncoder.new_splits new).1]
      exact ⟨enc, new, rfl⟩

theorem length_of_encode (encoded : encode B round closed data k vectors = .ok pieces) :
    pieces.length = targetN round k := by
  obtain ⟨enc, -, rfl⟩ := of_encode encoded
  rw [encodeN, List.length_map, List.length_range]

theorem dimensions_of_encode (drawn : ∀ i, (vectors i).length = k)
    (encoded : encode B round closed data k vectors = .ok pieces) {piece : CodedPiece}
    (made : piece ∈ pieces) :
    piece.codingVector.length = k ∧ piece.data.length = pieceSizeFor data.length k := by
  obtain ⟨enc, new, rfl⟩ := of_encode encoded
  obtain ⟨i, -, rfl⟩ := List.mem_map.mp made
  obtain ⟨same, splits⟩ := RlncEncoder.new_splits new
  have codes := RlncEncoder.encodePiece_codes (B := B) splits ((drawn i).trans same.symm)
  exact ⟨codes.coefficients.trans same, codes.size.trans (RlncEncoder.pieceSize_new new)⟩

end Encoded

end Craftec.Rlnc.Engine
