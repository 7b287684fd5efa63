/- GID: Craftec/Library/Rotation
   generality: G
   digest: Windows of a list read in a circle, and how many of them in a row meet every place. -/

import Mathlib.Data.List.Rotate
import Mathlib.Data.List.Basic
import Mathlib.Data.List.Count

set_option autoImplicit false
set_option relaxedAutoImplicit false

namespace Craftec.Library.Rotation

variable {α : Type*} {l : List α} {start count : ℕ}

theorem take_rotate (nonempty : l ≠ []) (fits : count ≤ l.length) :
    (l.rotate start).take count =
      (l.drop (start % l.length)).take (min (start % l.length + count) l.length - start % l.length) ++
        l.take (start % l.length + count - l.length) := by
  have inside : start % l.length < l.length := Nat.mod_lt _ (List.length_pos_of_ne_nil nonempty)
  have front : (l.drop (start % l.length)).take count = (l.drop (start % l.length)).take
      (min (start % l.length + count) l.length - start % l.length) := by
    rw [List.take_eq_take_iff, List.length_drop]
    omega
  have back : (l.take (start % l.length)).take (count - (l.length - start % l.length)) =
      l.take (start % l.length + count - l.length) := by
    rw [List.take_take]
    congr 1
    omega
  rw [List.rotate_eq_drop_append_take_mod, List.take_append, List.length_drop, front, back]

theorem mem_take_rotate {a : α} {j : ℕ} (below : j < count) (fits : count ≤ l.length)
    (there : l[(start + j) % l.length]? = some a) : a ∈ (l.rotate start).take count := by
  have place : ((l.rotate start).take count)[j]? = some a := by
    rw [List.getElem?_take_of_lt below, List.getElem?_rotate (by omega), Nat.add_comm]
    exact there
  exact List.mem_of_getElem? place

theorem mem_take_rotate_of_le {a : α} {place : ℕ} (there : l[place]? = some a)
    (fits : count ≤ l.length) (notPassed : start % l.length ≤ place)
    (reached : place < start % l.length + count) : a ∈ (l.rotate start).take count := by
  have inside : place < l.length := (List.getElem?_eq_some_iff.mp there).1
  have same : (start + (place - start % l.length)) % l.length = place := by
    rw [← Nat.mod_add_mod, Nat.add_sub_cancel' notPassed, Nat.mod_eq_of_lt inside]
  exact mem_take_rotate (by omega : place - start % l.length < count) fits (by rw [same]; exact there)

theorem exists_window {length windows place : ℕ} (start : ℕ) (inside : place < length)
    (enough : length ≤ windows * count) :
    ∃ t < windows, ∃ j < count, (start + t * count + j) % length = place := by
  have wide : 0 < count := by
    rcases Nat.eq_zero_or_pos count with rfl | wide
    · omega
    · exact wide
  -- how far ahead of the start the place lies
  obtain ⟨ahead, below, meets⟩ : ∃ ahead < length, (start + ahead) % length = place := by
    have early := Nat.mod_lt start (Nat.lt_of_le_of_lt (Nat.zero_le _) inside)
    refine ⟨(place + (length - start % length)) % length, Nat.mod_lt _ (by omega), ?_⟩
    rw [Nat.add_mod_mod, ← Nat.mod_add_mod]
    have round : start % length + (place + (length - start % length)) = place + length := by omega
    rw [round, Nat.add_mod_right, Nat.mod_eq_of_lt inside]
  refine ⟨ahead / count, ?_, ahead % count, Nat.mod_lt _ wide, ?_⟩
  · rw [Nat.div_lt_iff_lt_mul wide]
    omega
  · rw [Nat.add_assoc, Nat.div_add_mod', meets]

section Sweep

variable [DecidableEq α] (bad : α → Bool)

/-- One round over a list read in a circle: the place that is next is looked at, and what is found
bad there is taken out. -/
def sweep (c : List α × ℕ) : List α × ℕ :=
  match c.1[c.2 % c.1.length]? with
  | none => c
  | some a => (if bad a then c.1.erase a else c.1, c.2 + 1)

theorem sweep_of_some {c : List α × ℕ} {a : α} (next : c.1[c.2 % c.1.length]? = some a) :
    sweep bad c = (if bad a then c.1.erase a else c.1, c.2 + 1) := by
  simp only [sweep, next]

theorem snd_sweep_le (c : List α × ℕ) : (sweep bad c).2 ≤ c.2 + 1 := by
  unfold sweep
  split
  · exact Nat.le_succ _
  · exact Nat.le_refl _

theorem sublist_sweep (c : List α × ℕ) : (sweep bad c).1.Sublist c.1 := by
  unfold sweep
  split
  · exact List.Sublist.refl _
  · simp only
    split
    · exact List.erase_sublist
    · exact List.Sublist.refl _

theorem sublist_sweeps (c : List α × ℕ) (n : ℕ) : ((sweep bad)^[n] c).1.Sublist c.1 := by
  induction n generalizing c with
  | zero => exact List.Sublist.refl _
  | succ n ih =>
    rw [Function.iterate_succ_apply]
    exact (ih (sweep bad c)).trans (sublist_sweep bad c)

theorem countP_erase_lt {l : List α} {a : α} (listed : a ∈ l) (isBad : bad a = true) :
    (l.erase a).countP bad < l.countP bad := by
  have some_ : 0 < l.countP bad := List.countP_pos_iff.mpr ⟨a, listed, isBad⟩
  rw [List.countP_erase, if_pos ⟨listed, isBad⟩]
  exact Nat.sub_lt some_ Nat.one_pos

theorem countP_sweeps_lt {l : List α} {i ahead : ℕ} {a : α}
    (there : l[(i + ahead) % l.length]? = some a) (isBad : bad a = true) :
    ((sweep bad)^[ahead + 1] (l, i)).1.countP bad < l.countP bad := by
  induction ahead generalizing i with
  | zero =>
    have next : (l, i).1[(l, i).2 % (l, i).1.length]? = some a := there
    rw [Function.iterate_one, sweep_of_some bad next, if_pos isBad]
    exact countP_erase_lt bad (List.mem_of_getElem? there) isBad
  | succ ahead ih =>
    have nonempty : 0 < l.length := List.length_pos_of_mem (List.mem_of_getElem? there)
    obtain ⟨b, next⟩ : ∃ b, (l, i).1[(l, i).2 % (l, i).1.length]? = some b :=
      ⟨_, List.getElem?_eq_getElem (Nat.mod_lt i nonempty)⟩
    rw [Function.iterate_succ_apply, sweep_of_some bad next]
    split
    · rename_i early
      -- another one comes first
      have fewer := (sublist_sweeps bad (l.erase b, i + 1) (ahead + 1)).countP_le (p := bad)
      exact Nat.lt_of_le_of_lt fewer (countP_erase_lt bad (List.mem_of_getElem? next) early)
    · refine ih ?_
      rwa [Nat.add_assoc, Nat.add_comm 1 ahead]

/-- As many rounds as the list is long, for each bad element, leave none. -/
theorem countP_sweeps_eq_zero {l : List α} {size rounds : ℕ} (i : ℕ) (short : l.length ≤ size)
    (enough : l.countP bad * size ≤ rounds) : ((sweep bad)^[rounds] (l, i)).1.countP bad = 0 := by
  induction left : l.countP bad using Nat.strong_induction_on generalizing l i rounds with
  | _ count ih =>
    rcases Nat.eq_zero_or_pos count with rfl | some_
    · have fewer := (sublist_sweeps bad (l, i) rounds).countP_le (p := bad)
      simp only at fewer
      omega
    · obtain ⟨a, listed, isBad⟩ := List.countP_pos_iff.mp (left ▸ some_)
      obtain ⟨place, there⟩ := List.mem_iff_getElem?.mp listed
      have inside : place < l.length := (List.getElem?_eq_some_iff.mp there).1
      obtain ⟨ahead, below, j, zero, meets⟩ :=
        @exists_window 1 l.length l.length place i inside (by omega)
      obtain rfl : j = 0 := by omega
      rw [Nat.mul_one, Nat.add_zero] at meets
      have fewer := countP_sweeps_lt bad (meets ▸ there) isBad
      have shorter := (sublist_sweeps bad (l, i) (ahead + 1)).length_le
      have wide : ahead + 1 ≤ size := by omega
      have most : (count - 1) * size + size = count * size := by
        rw [← Nat.succ_mul, Nat.succ_eq_add_one, Nat.sub_add_cancel some_]
      have lower : ((sweep bad)^[ahead + 1] (l, i)).1.countP bad * size ≤ (count - 1) * size :=
        Nat.mul_le_mul_right size (by omega)
      rw [left] at enough
      have onward : ((sweep bad)^[ahead + 1] (l, i)).1.countP bad * size ≤ rounds - (ahead + 1) := by
        omega
      have later := ih _ (left ▸ fewer) ((sweep bad)^[ahead + 1] (l, i)).2 (shorter.trans short) onward rfl
      rw [← Function.iterate_add_apply] at later
      rwa [Nat.sub_add_cancel (by omega)] at later

end Sweep

end Craftec.Library.Rotation
