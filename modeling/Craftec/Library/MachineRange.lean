/- GID: Craftec/Library/MachineRange
   generality: G
   digest: Ranges of a buffer whose end is a machine sum, checked against the length before use. -/

import Mathlib.Data.List.Basic

set_option autoImplicit false
set_option relaxedAutoImplicit false

namespace Craftec.Library.MachineRange

/-- The sum of two words below `bound`, or the largest word. -/
def saturatingAdd (bound a b : ℕ) : ℕ := min (a + b) (bound - 1)

/-- The sum of two words below `bound`, as the processor computes it. -/
def wrappingAdd (bound a b : ℕ) : ℕ := (a + b) % bound

/-- The bytes of `chunk` in place of as many bytes from `start` on. -/
def overwrite {β : Type*} (data : List β) (start : ℕ) (chunk : List β) : List β :=
  data.take start ++ chunk ++ data.drop (start + chunk.length)

variable {β : Type*} {data chunk : List β} {bound start count size : ℕ}

theorem saturatingAdd_eq (short : size + 1 < bound) (within : saturatingAdd bound start count ≤ size) :
    saturatingAdd bound start count = start + count := by
  unfold saturatingAdd at within ⊢
  omega

theorem wrappingAdd_of_lt (exact : start + count < bound) : wrappingAdd bound start count = start + count :=
  Nat.mod_eq_of_lt exact

theorem wrappingAdd_lt (first : start < bound) (second : count < bound) (wraps : bound ≤ start + count) :
    wrappingAdd bound start count < start := by
  have once : (start + count) % bound = start + count - bound := by
    rw [Nat.mod_eq_sub_mod wraps, Nat.mod_eq_of_lt (by omega)]
  unfold wrappingAdd
  omega

theorem length_overwrite (within : start + chunk.length ≤ data.length) :
    (overwrite data start chunk).length = data.length := by
  rw [overwrite, List.length_append, List.length_append, List.length_take, List.length_drop]
  omega

theorem take_drop_overwrite (within : start + chunk.length ≤ data.length) :
    ((overwrite data start chunk).drop start).take chunk.length = chunk := by
  have front : (data.take start).length = start := by
    rw [List.length_take]
    omega
  rw [overwrite, List.append_assoc, List.drop_left' front, List.take_left' rfl]

theorem getElem?_overwrite (within : start + chunk.length ≤ data.length) (i : ℕ) :
    (overwrite data start chunk)[i]? =
      if start ≤ i ∧ i < start + chunk.length then chunk[i - start]? else data[i]? := by
  have front : (data.take start).length = start := by
    rw [List.length_take]
    omega
  rw [overwrite, List.append_assoc]
  by_cases before : i < start
  · rw [List.getElem?_append_left (by omega), List.getElem?_take_of_lt before, if_neg (by omega)]
  · rw [List.getElem?_append_right (by omega), front]
    by_cases inside : i < start + chunk.length
    · rw [List.getElem?_append_left (by omega), if_pos (by omega)]
    · rw [List.getElem?_append_right (by omega), List.getElem?_drop, if_neg (by omega)]
      congr 1
      omega

end Craftec.Library.MachineRange
