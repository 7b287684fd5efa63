/- GID: Craftec/Library/Records
   generality: G
   digest: Words as bytes in either order, reads within bounds, records of one width, lengths of varints. -/

import Mathlib.Data.List.Basic
import Mathlib.Data.List.Induction
import Mathlib.Data.Nat.Log
import Mathlib.Tactic.Ring

set_option autoImplicit false
set_option relaxedAutoImplicit false

namespace Craftec.Library.Records

def toLeBytes (n : UInt32) : List UInt8 :=
  [UInt8.ofNat n.toNat, UInt8.ofNat (n.toNat / 256), UInt8.ofNat (n.toNat / 65536),
    UInt8.ofNat (n.toNat / 16777216)]

def fromLeBytes (l : List UInt8) : UInt32 :=
  UInt32.ofNat ((l.getD 0 0).toNat + 256 * (l.getD 1 0).toNat + 65536 * (l.getD 2 0).toNat +
    16777216 * (l.getD 3 0).toNat)

@[simp] theorem length_toLeBytes (n : UInt32) : (toLeBytes n).length = 4 := rfl

theorem fromLeBytes_append (n : UInt32) (rest : List UInt8) :
    fromLeBytes (toLeBytes n ++ rest) = n := by
  have bound : n.toNat < 4294967296 := n.toNat_lt
  apply UInt32.toNat_inj.mp
  simp only [fromLeBytes, toLeBytes, List.cons_append, List.getD_cons_zero, List.getD_cons_succ,
    UInt32.toNat_ofNat', UInt8.toNat_ofNat']
  omega

theorem toLeBytes_injective : Function.Injective toLeBytes := by
  intro m n same
  rw [← fromLeBytes_append m [], ← fromLeBytes_append n [], same]

theorem toLeBytes_fromLeBytes {l : List UInt8} (four : 4 ≤ l.length) :
    toLeBytes (fromLeBytes l) = l.take 4 := by
  obtain ⟨a, b, c, d, rest, rfl⟩ : ∃ a b c d rest, l = a :: b :: c :: d :: rest := by
    rcases l with _ | ⟨a, _ | ⟨b, _ | ⟨c, _ | ⟨d, rest⟩⟩⟩⟩
    · cases four
    · simp at four
    · simp at four
    · simp at four
    · exact ⟨a, b, c, d, rest, rfl⟩
  have boundA := a.toNat_lt
  have boundB := b.toNat_lt
  have boundC := c.toNat_lt
  have boundD := d.toNat_lt
  simp only [fromLeBytes, toLeBytes, List.getD_cons_zero, List.getD_cons_succ, UInt32.toNat_ofNat',
    List.take_succ_cons, List.take_zero, List.cons.injEq, and_true, ← UInt8.toNat_inj,
    UInt8.toNat_ofNat']
  omega

/-- The lowest `width` bytes of a number, highest first. -/
def toBeBytes : ℕ → ℕ → List UInt8
  | 0, _ => []
  | width + 1, n => UInt8.ofNat (n / 256 ^ width) :: toBeBytes width n

def fromBeBytes (l : List UInt8) : ℕ := l.foldl (fun n b => n * 256 + b.toNat) 0

@[simp] theorem length_toBeBytes (width n : ℕ) : (toBeBytes width n).length = width := by
  induction width with
  | zero => rfl
  | succ width ih => rw [toBeBytes, List.length_cons, ih]

theorem foldl_toBeBytes (width n read : ℕ) :
    (toBeBytes width n).foldl (fun n b => n * 256 + b.toNat) read =
      read * 256 ^ width + n % 256 ^ width := by
  induction width generalizing read with
  | zero => rw [toBeBytes, List.foldl_nil, Nat.pow_zero, Nat.mul_one, Nat.mod_one, Nat.add_zero]
  | succ width ih =>
    have byte : (UInt8.ofNat (n / 256 ^ width)).toNat = n / 256 ^ width % 256 := UInt8.toNat_ofNat'
    have next : n % 256 ^ (width + 1) = n % 256 ^ width + 256 ^ width * (n / 256 ^ width % 256) :=
      Nat.mod_pow_succ
    rw [toBeBytes, List.foldl_cons, ih, byte, next]
    ring

theorem fromBeBytes_toBeBytes {width n : ℕ} (fits : n < 256 ^ width) :
    fromBeBytes (toBeBytes width n) = n := by
  rw [fromBeBytes, foldl_toBeBytes, Nat.zero_mul, Nat.zero_add, Nat.mod_eq_of_lt fits]

theorem fromBeBytes_lt (l : List UInt8) : fromBeBytes l < 256 ^ l.length := by
  induction l using List.reverseRecOn with
  | nil => exact Nat.one_pos
  | append_singleton l b ih =>
    have byte := b.toNat_lt
    rw [fromBeBytes] at ih
    rw [fromBeBytes, List.foldl_append, List.foldl_cons, List.foldl_nil, List.length_append,
      List.length_singleton, Nat.pow_succ]
    omega

section Bounds

variable {β : Type*} {data : List β} {start count : ℕ}

/-- The elements `data[start], data[start + 1], …`, each by its index; `none` is an
index out of bounds. -/
def indexed? (data : List β) (start count : ℕ) : Option (List β) :=
  (List.range count).mapM fun i => data[start + i]?

/-- The slice `data[start..stop]`; `none` is a range out of bounds. -/
def slice? (data : List β) (start stop : ℕ) : Option (List β) :=
  if start ≤ stop ∧ stop ≤ data.length then some ((data.drop start).take (stop - start)) else none

theorem indexed?_eq (within : start + count ≤ data.length) :
    indexed? data start count = some ((data.drop start).take count) := by
  induction count with
  | zero => rfl
  | succ count ih =>
    have there : start + count < data.length := by omega
    have before : (List.range count).mapM (fun i => data[start + i]?) =
        some ((data.drop start).take count) := ih (by omega)
    have last : (data.drop start)[count]? = some data[start + count] := by
      rw [List.getElem?_drop, List.getElem?_eq_getElem there]
    rw [indexed?, List.range_succ, List.mapM_append, before, List.take_add_one, last,
      List.mapM_cons, List.getElem?_eq_getElem there]
    rfl

theorem slice?_eq (within : start + count ≤ data.length) :
    slice? data start (start + count) = some ((data.drop start).take count) := by
  rw [slice?, if_pos ⟨Nat.le_add_right _ _, within⟩, Nat.add_sub_cancel_left]

end Bounds

theorem append_inj_of_mod {β : Type*} {modulus : ℕ} {field field' tail tail' : List β}
    (same : field ++ tail = field' ++ tail')
    (lengths : field.length % modulus = field'.length % modulus) (short : tail.length < modulus)
    (short' : tail'.length < modulus) : field = field' ∧ tail = tail' := by
  have total := congrArg List.length same
  rw [List.length_append, List.length_append] at total
  have parts := Nat.div_add_mod field.length modulus
  have parts' := Nat.div_add_mod field'.length modulus
  have level : field.length = field'.length := by
    rcases Nat.lt_trichotomy (field.length / modulus) (field'.length / modulus) with less | equal | more
    · have gap := Nat.mul_le_mul_left modulus less
      rw [Nat.mul_succ] at gap
      omega
    · rw [equal] at parts
      omega
    · have gap := Nat.mul_le_mul_left modulus more
      rw [Nat.mul_succ] at gap
      omega
  exact List.append_inj same level

variable {α β : Type*} {encode : α → List β} {width : ℕ}

theorem length_records (even : ∀ a, (encode a).length = width) (l : List α) :
    (l.flatMap encode).length = l.length * width := by
  induction l with
  | nil => simp
  | cons a l ih =>
    rw [List.flatMap_cons, List.length_append, even, ih, List.length_cons]
    ring

theorem drop_records (even : ∀ a, (encode a).length = width) (l : List α) (i : ℕ)
    (hi : i < l.length) :
    ∃ rest, (l.flatMap encode).drop (i * width) = encode l[i] ++ rest := by
  induction l generalizing i with
  | nil => simp at hi
  | cons a l ih =>
    cases i with
    | zero => exact ⟨l.flatMap encode, by simp⟩
    | succ i =>
      obtain ⟨rest, found⟩ := ih i (by simpa using hi)
      refine ⟨rest, ?_⟩
      have skip : (i + 1) * width = (encode a).length + i * width := by
        rw [even]
        ring
      rw [List.flatMap_cons, skip, List.drop_append, List.drop_eq_nil_of_le (by omega),
        Nat.add_sub_cancel_left, found]
      simp

theorem records_injective (even : ∀ a, (encode a).length = width) (wide : 0 < width)
    (distinct : Function.Injective encode) : Function.Injective fun l : List α => l.flatMap encode := by
  intro l
  induction l with
  | nil =>
    intro other same
    have lengths := congrArg List.length same
    simp only [length_records even, List.length_nil, Nat.zero_mul] at lengths
    have none_ : other.length = 0 := by
      rcases Nat.mul_eq_zero.mp lengths.symm with zero | narrow
      · exact zero
      · omega
    exact (List.length_eq_zero_iff.mp none_).symm
  | cons a l ih =>
    intro other same
    cases other with
    | nil =>
      have lengths := congrArg List.length same
      simp only [length_records even, List.length_nil, Nat.zero_mul, List.length_cons] at lengths
      have positive : 0 < (l.length + 1) * width := Nat.mul_pos (Nat.succ_pos _) wide
      omega
    | cons b other =>
      simp only [List.flatMap_cons] at same
      obtain ⟨first, rest⟩ := List.append_inj same ((even a).trans (even b).symm)
      rw [distinct first, ih rest]

/-! Words of variable length -/

def varintLength (n : ℕ) : ℕ := Nat.log 128 n + 1

theorem one_le_varintLength (n : ℕ) : 1 ≤ varintLength n := Nat.le_add_left 1 _

theorem varintLength_le {n width : ℕ} (nonzero : width ≠ 0) (small : n < 128 ^ width) :
    varintLength n ≤ width := Nat.log_lt_of_lt_pow' nonzero small

theorem lt_varintLength {n width : ℕ} (large : 128 ^ width ≤ n) : width < varintLength n :=
  Nat.lt_succ_of_le (Nat.le_log_of_pow_le (by decide) large)

end Craftec.Library.Records
