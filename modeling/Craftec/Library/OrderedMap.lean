/- GID: Craftec/Library/OrderedMap
   generality: G
   digest: Writing the entries of one map over another, in whatever order they are listed. -/

import Mathlib

set_option autoImplicit false
set_option relaxedAutoImplicit false

namespace Craftec.Library.OrderedMap

variable {α β γ : Type} {cmp : α → α → Ordering} [Std.TransCmp cmp]

theorem distinct_of_perm {m : Std.ExtTreeMap α β cmp} {order : List (α × β)}
    (perm : order.Perm m.toList) : order.Pairwise fun a b => ¬ cmp a.1 b.1 = .eq := by
  have listed := Std.ExtTreeMap.distinct_keys_toList (t := m)
  refine (perm.pairwise_iff ?_).mpr listed
  intro a b apart back
  exact apart (Std.OrientedCmp.eq_symm back)

variable [Std.LawfulEqCmp cmp]

omit [Std.TransCmp cmp] in
theorem lawfulBEqCmp [DecidableEq α] : Std.LawfulBEqCmp cmp := ⟨by
  intro a b
  rw [Std.LawfulEqCmp.compare_eq_iff_eq, beq_iff_eq]⟩

theorem getElem?_insertMany_of_mem (m : Std.ExtTreeMap α β cmp) {l : List (α × β)}
    (distinct : l.Pairwise fun a b => ¬ cmp a.1 b.1 = .eq) {k : α} {v : β} (listed : (k, v) ∈ l) :
    (m.insertMany l)[k]? = some v := by
  classical
  have _ : Std.LawfulBEqCmp cmp := lawfulBEqCmp
  exact Std.ExtTreeMap.getElem?_insertMany_list_of_mem Std.ReflCmp.compare_self distinct listed

theorem getElem?_insertMany_of_absent (m : Std.ExtTreeMap α β cmp) {l : List (α × β)} {k : α}
    (absent : ∀ e ∈ l, e.1 ≠ k) : (m.insertMany l)[k]? = m[k]? := by
  classical
  have _ : Std.LawfulBEqCmp cmp := lawfulBEqCmp
  have unlisted : (l.map Prod.fst).contains k = false := by
    rw [← Bool.not_eq_true, List.contains_iff_mem, List.mem_map]
    rintro ⟨e, listed, same⟩
    exact absent e listed same
  exact Std.ExtTreeMap.getElem?_insertMany_list_of_contains_eq_false unlisted

theorem getElem?_insertMany_map (start : Std.ExtTreeMap α γ cmp) (m : Std.ExtTreeMap α β cmp)
    {order : List (α × β)} (perm : order.Perm m.toList) (f : β → γ) (k : α) :
    (start.insertMany (order.map fun e => (e.1, f e.2)))[k]? = (m[k]?.map f).or start[k]? := by
  cases found : m[k]? with
  | some v =>
    have listed : (k, v) ∈ order :=
      perm.mem_iff.mpr (Std.ExtTreeMap.mem_toList_iff_getElem?_eq_some.mpr found)
    have distinct : (order.map fun e => (e.1, f e.2)).Pairwise fun a b => ¬ cmp a.1 b.1 = .eq :=
      List.pairwise_map.mpr (distinct_of_perm perm)
    have image : (k, f v) ∈ order.map fun e => (e.1, f e.2) :=
      List.mem_map.mpr ⟨(k, v), listed, rfl⟩
    rw [getElem?_insertMany_of_mem start distinct image]
    rfl
  | none =>
    rw [getElem?_insertMany_of_absent]
    · rfl
    · intro e image same
      obtain ⟨⟨key, v⟩, listed, rfl⟩ := List.mem_map.mp image
      have bound := Std.ExtTreeMap.mem_toList_iff_getElem?_eq_some.mp (perm.mem_iff.mp listed)
      obtain rfl : key = k := same
      rw [found] at bound
      cases bound

theorem insertMany_eq_self_iff (m : Std.ExtTreeMap α β cmp) (l : List (α × β))
    (distinct : l.Pairwise fun a b => ¬ cmp a.1 b.1 = .eq) :
    m.insertMany l = m ↔ ∀ e ∈ l, m[e.1]? = some e.2 := by
  have written : ∀ e ∈ l, (m.insertMany l)[e.1]? = some e.2 :=
    fun e listed => getElem?_insertMany_of_mem m distinct listed
  constructor
  · intro same e listed
    rw [← written e listed, same]
  · intro present
    apply Std.ExtTreeMap.ext_getElem?
    intro k
    by_cases listed : ∃ e ∈ l, e.1 = k
    · obtain ⟨e, member, rfl⟩ := listed
      rw [written e member, present e member]
    · exact getElem?_insertMany_of_absent m fun e member same => listed ⟨e, member, same⟩

theorem mem_toList_insertMany {l : List (α × β)}
    (distinct : l.Pairwise fun a b => ¬ cmp a.1 b.1 = .eq) (e : α × β) :
    e ∈ ((∅ : Std.ExtTreeMap α β cmp).insertMany l).toList ↔ e ∈ l := by
  obtain ⟨k, v⟩ := e
  rw [Std.ExtTreeMap.mem_toList_iff_getElem?_eq_some]
  refine ⟨fun found => ?_, fun listed => getElem?_insertMany_of_mem ∅ distinct listed⟩
  by_cases listed : ∃ e ∈ l, e.1 = k
  · obtain ⟨e, member, rfl⟩ := listed
    rw [getElem?_insertMany_of_mem ∅ distinct member] at found
    cases found
    exact member
  · rw [getElem?_insertMany_of_absent ∅ fun e member same => listed ⟨e, member, same⟩] at found
    simp at found

theorem toList_insertMany_of_ascending (l : List (α × β))
    (ascending : l.Pairwise fun a b => cmp a.1 b.1 = .lt) :
    ((∅ : Std.ExtTreeMap α β cmp).insertMany l).toList = l := by
  have distinct : l.Pairwise fun a b => ¬ cmp a.1 b.1 = .eq := by
    refine ascending.imp ?_
    intro a b less same
    rw [less] at same
    cases same
  have irrefl : ∀ e : α × β, ¬ cmp e.1 e.1 = .lt := by
    intro e less
    have same : cmp e.1 e.1 = .eq := Std.ReflCmp.compare_self
    rw [same] at less
    cases less
  have once {m : List (α × β)} (sorted : m.Pairwise fun a b => cmp a.1 b.1 = .lt) : m.Nodup := by
    refine sorted.imp ?_
    rintro a b less rfl
    exact irrefl a less
  have sorted := Std.ExtTreeMap.ordered_keys_toList (t := (∅ : Std.ExtTreeMap α β cmp).insertMany l)
  refine List.Perm.eq_of_pairwise ?_ sorted ascending
    ((List.perm_ext_iff_of_nodup (once sorted) (once ascending)).mpr (mem_toList_insertMany distinct))
  intro a b _ _ less more
  exact absurd (Std.TransCmp.lt_trans less more) (irrefl a)

theorem insertMany_toList (m : Std.ExtTreeMap α β cmp) :
    (∅ : Std.ExtTreeMap α β cmp).insertMany m.toList = m := by
  apply Std.ExtTreeMap.ext_getElem?
  intro k
  have whole := getElem?_insertMany_map ∅ m (List.Perm.refl m.toList) id k
  simpa using whole

end Craftec.Library.OrderedMap
