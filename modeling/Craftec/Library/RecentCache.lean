/- GID: Craftec/Library/RecentCache
   generality: G
   digest: A least-recently-used cache: at most `capacity` entries, one for each key. -/

import Mathlib.Data.List.Basic
import Mathlib.Data.List.Nodup

set_option autoImplicit false
set_option relaxedAutoImplicit false

namespace Craftec.Library.RecentCache

variable {K V : Type*} [DecidableEq K]

structure Lru (K V : Type*) where
  capacity : ℕ
  entries : List (K × V)
  bounded : entries.length ≤ capacity
  distinct : (entries.map Prod.fst).Nodup

namespace Lru

def empty (capacity : ℕ) : Lru K V := ⟨capacity, [], Nat.zero_le _, List.nodup_nil⟩

def others (entries : List (K × V)) (k : K) : List (K × V) := entries.filter fun e => e.1 ≠ k

theorem mem_others {entries : List (K × V)} {k : K} {e : K × V} :
    e ∈ others entries k ↔ e ∈ entries ∧ e.1 ≠ k := by
  rw [others, List.mem_filter, decide_eq_true_iff]

theorem others_of_absent {entries : List (K × V)} {k : K} (absent : ∀ e ∈ entries, e.1 ≠ k) :
    others entries k = entries :=
  List.filter_eq_self.mpr fun e listed => decide_eq_true (absent e listed)

theorem length_others_lt {entries : List (K × V)} {k : K} {v : V} (listed : (k, v) ∈ entries) :
    (others entries k).length < entries.length := by
  apply List.length_filter_lt_length_iff_exists.mpr
  exact ⟨(k, v), listed, by simp⟩

theorem others_map {W : Type*} (f : V → W) (entries : List (K × V)) (k : K) :
    others (entries.map fun e => (e.1, f e.2)) k = (others entries k).map fun e => (e.1, f e.2) :=
  List.filter_map

theorem distinct_others {entries : List (K × V)} (distinct : (entries.map Prod.fst).Nodup) (k : K) :
    ((others entries k).map Prod.fst).Nodup :=
  distinct.sublist (List.filter_sublist.map Prod.fst)

theorem distinct_cons_others {entries : List (K × V)} (distinct : (entries.map Prod.fst).Nodup)
    (k : K) (v : V) : (((k, v) :: others entries k).map Prod.fst).Nodup := by
  rw [List.map_cons, List.nodup_cons]
  refine ⟨?_, distinct_others distinct k⟩
  intro listed
  obtain ⟨e, kept, same⟩ := List.mem_map.mp listed
  have different := (List.mem_filter.mp kept).2
  simp [same] at different

/-- Insert or replace; the least recently used entry goes when the cache is full. -/
def put (c : Lru K V) (k : K) (v : V) : Lru K V where
  capacity := c.capacity
  entries := ((k, v) :: others c.entries k).take c.capacity
  bounded := List.length_take_le _ _
  distinct := (distinct_cons_others c.distinct k v).sublist ((List.take_sublist _ _).map Prod.fst)

def remove (c : Lru K V) (k : K) : Lru K V where
  capacity := c.capacity
  entries := others c.entries k
  bounded := Nat.le_trans (List.length_filter_le _ _) c.bounded
  distinct := distinct_others c.distinct k

/-- Look a key up and make its entry the most recently used one. -/
def get (c : Lru K V) (k : K) : Lru K V × Option V :=
  match c.entries.find? fun e => e.1 = k with
  | none => (c, none)
  | some e => (c.put k e.2, some e.2)

theorem mem_put {c : Lru K V} {k : K} {v : V} {e : K × V} (member : e ∈ (c.put k v).entries) :
    e = (k, v) ∨ e ∈ c.entries := by
  rcases List.mem_cons.mp (List.mem_of_mem_take member) with rfl | kept
  · exact .inl rfl
  · exact .inr (List.mem_of_mem_filter kept)

theorem mem_of_get {c : Lru K V} {k : K} {v : V} (hit : (c.get k).2 = some v) :
    (k, v) ∈ c.entries := by
  unfold get at hit
  split at hit
  · cases hit
  · rename_i e found
    have member := List.mem_of_find?_eq_some found
    have key : e.1 = k := by simpa using List.find?_some found
    have value : e.2 = v := Option.some.inj hit
    rw [← key, ← value]
    exact member

theorem get_eq_some_iff {c : Lru K V} {k : K} {v : V} : (c.get k).2 = some v ↔ (k, v) ∈ c.entries := by
  refine ⟨mem_of_get, fun listed => ?_⟩
  unfold get
  split
  · rename_i missing
    exact absurd (decide_eq_true rfl) (List.find?_eq_none.mp missing (k, v) listed)
  · rename_i e found
    have key : e.1 = k := by simpa using List.find?_some found
    rw [List.inj_on_of_nodup_map c.distinct (List.mem_of_find?_eq_some found) listed key]

theorem entries_get {c : Lru K V} {k : K} {v : V} (listed : (k, v) ∈ c.entries) :
    (c.get k).1.entries = (k, v) :: others c.entries k := by
  have hit := get_eq_some_iff.mpr listed
  have fits : ((k, v) :: others c.entries k).length ≤ c.capacity :=
    Nat.le_trans (length_others_lt listed) c.bounded
  unfold get at hit ⊢
  split at hit
  · cases hit
  · rw [Option.some.inj hit]
    exact List.take_of_length_le fits

theorem get_of_absent {c : Lru K V} {k : K} (absent : ∀ e ∈ c.entries, e.1 ≠ k) : (c.get k).1 = c := by
  unfold get
  split
  · rfl
  · rename_i e found
    exact absurd (by simpa using List.find?_some found) (absent e (List.mem_of_find?_eq_some found))

theorem mem_get {c : Lru K V} {k : K} {e : K × V} (member : e ∈ (c.get k).1.entries) :
    e ∈ c.entries := by
  cases found : (c.get k).2 with
  | none =>
    unfold get at found member
    split at found
    · rename_i missing
      rw [missing] at member
      exact member
    · cases found
  | some v =>
    have held := mem_of_get found
    unfold get at found member
    split at found
    · cases found
    · rename_i hit
      rw [hit] at member
      rcases mem_put member with rfl | kept
      · rw [Option.some.inj found]
        exact held
      · exact kept

end Lru

end Craftec.Library.RecentCache
