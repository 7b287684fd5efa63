/- GID: Craftec/Net/PoolLru
   generality: I
   digest: The connection pool beside a least-recently-used map, over runs with an increasing clock. -/

import Mathlib.Data.Finmap
import Mathlib.Data.List.MinMax
import Mathlib.Order.Nat
import Craftec.Library.RecentCache
import Craftec.Library.Run
import Craftec.Net.Pool

set_option autoImplicit false
set_option relaxedAutoImplicit false

namespace Craftec.Net.PoolLru

open Craftec.Library.RecentCache (Lru)
open Craftec.Library.RecentCache.Lru (others mem_others others_of_absent others_map length_others_lt
  distinct_others distinct_cons_others get_eq_some_iff entries_get get_of_absent)
open Craftec.Library.Run
open Craftec.Net.Pool
open Craftec.Types.Digest (Bytes32 NodeId)

variable {C : Type}

/-- The pool and the map it is compared with; a later reading of the clock is at least `next`. -/
structure State (C : Type) where
  pool : ConnectionPool C
  reference : Lru NodeId C
  next : ℕ

def start (maxConnections : ℕ) : State C :=
  ⟨.withCapacity maxConnections, .empty maxConnections, 0⟩

/-- A call, with the reading of the clock and the order in which it goes through the pool. -/
inductive Call (C : Type) where
  | get (now : ℕ) (node : NodeId)
  | insert (now : ℕ) (order : List NodeId) (node : NodeId) (conn : C)
  | remove (node : NodeId)

/-- A call on both, when the reading of the clock is later than all before it; a lookup that finds
nothing reads no clock. An insertion goes through all peers of the pool. -/
def step (s : State C) : Call C → Option (State C)
  | .get now node =>
    if (s.pool.held node).isSome then
      if s.next ≤ now then some ⟨(s.pool.get now node).1, (s.reference.get node).1, now + 1⟩ else none
    else some ⟨(s.pool.get now node).1, (s.reference.get node).1, s.next⟩
  | .insert now order node conn =>
    if s.next ≤ now ∧ ∀ key ∈ s.pool.connections.keys, key ∈ order then
      some ⟨s.pool.insert now order node conn, s.reference.put node conn, now + 1⟩
    else none
  | .remove node => some ⟨s.pool.remove node, s.reference.remove node, s.next⟩

/-- The pool is within its capacity and holds what the map holds. -/
def AsReference (s : State C) : Prop :=
  s.pool.len ≤ s.pool.maxConnections ∧ ∀ node, s.pool.held node = (s.reference.get node).2

/-- A peer that is inserted into a full pool is new, or the one used longest ago. -/
def NewOrOldest (s : State C) : Call C → Prop
  | .insert _ order node _ => s.pool.maxConnections ≤ s.pool.len → (s.pool.held node).isSome →
      s.pool.oldestKey order = some node
  | _ => True

instance (s : State C) (a : Call C) : Decidable (NewOrOldest s a) :=
  match a with
  | .get .. => isTrue trivial
  | .insert _ order node _ => inferInstanceAs (Decidable (s.pool.maxConnections ≤ s.pool.len →
      (s.pool.held node).isSome → s.pool.oldestKey order = some node))
  | .remove _ => isTrue trivial

/-! The entries of a pool in the order of their use -/

/-- The entries of `pool` are those of `l`, the one used last first, each used before `next`. -/
structure ByUse (pool : ConnectionPool C) (l : List (NodeId × PooledConnection C)) (next : ℕ) : Prop where
  listed : ∀ node entry, pool.connections.lookup node = some entry ↔ (node, entry) ∈ l
  distinct : (l.map Prod.fst).Nodup
  sorted : l.Pairwise fun later earlier => earlier.2.lastUsed < later.2.lastUsed
  past : ∀ e ∈ l, e.2.lastUsed < next

namespace ByUse

variable {pool : ConnectionPool C} {l front : List (NodeId × PooledConnection C)} {next : ℕ}
  {last : NodeId × PooledConnection C} {order : List NodeId}

theorem empty (maxConnections : ℕ) : ByUse (C := C) (.withCapacity maxConnections) [] 0 where
  listed node entry := by simp [ConnectionPool.withCapacity]
  distinct := List.nodup_nil
  sorted := .nil
  past e listed := absurd listed List.not_mem_nil

theorem held_eq_some_iff (use : ByUse pool l next) {node : NodeId} {conn : C} :
    pool.held node = some conn ↔ (node, conn) ∈ l.map fun e => (e.1, e.2.connection) := by
  rw [ConnectionPool.held, Option.map_eq_some_iff, List.mem_map]
  constructor
  · rintro ⟨entry, found, rfl⟩
    exact ⟨(node, entry), (use.listed node entry).mp found, rfl⟩
  · rintro ⟨e, listed, same⟩
    cases same
    exact ⟨e.2, (use.listed e.1 e.2).mpr listed, rfl⟩

theorem absent_of_held_none (use : ByUse pool l next) {node : NodeId} (free : pool.held node = none) :
    ∀ e ∈ l, e.1 ≠ node := by
  rintro e listed rfl
  have held := use.held_eq_some_iff.mpr (List.mem_map_of_mem listed)
  rw [free] at held
  cases held

theorem len_eq (use : ByUse pool l next) : pool.len = l.length := by
  have keys : pool.connections.keys = (l.map Prod.fst).toFinset := by
    ext node
    rw [Finmap.mem_keys, Finmap.mem_iff, List.mem_toFinset, List.mem_map]
    constructor
    · rintro ⟨entry, found⟩
      exact ⟨(node, entry), (use.listed node entry).mp found, rfl⟩
    · rintro ⟨e, listed, rfl⟩
      exact ⟨e.2, (use.listed e.1 e.2).mpr listed⟩
  rw [ConnectionPool.len, keys, List.toFinset_card_of_nodup use.distinct, List.length_map]

theorem erase (use : ByUse pool l next) (node : NodeId) :
    ByUse (pool.remove node) (others l node) next where
  listed other entry := by
    rw [mem_others, ← use.listed, ConnectionPool.remove]
    rcases eq_or_ne other node with rfl | apart
    · simp [Finmap.lookup_erase]
    · simp [Finmap.lookup_erase_ne apart, apart]
  distinct := distinct_others use.distinct node
  sorted := use.sorted.sublist List.filter_sublist
  past e listed := use.past e (mem_others.mp listed).1

theorem push (use : ByUse pool l next) (node : NodeId) (entry : PooledConnection C)
    (later : next ≤ entry.lastUsed) :
    ByUse { pool with connections := pool.connections.insert node entry } ((node, entry) :: others l node)
      (entry.lastUsed + 1) where
  listed other found := by
    rw [List.mem_cons, mem_others, ← use.listed]
    rcases eq_or_ne other node with rfl | apart
    · simp [Finmap.lookup_insert, eq_comm]
    · simp [Finmap.lookup_insert_of_ne _ apart, apart]
  distinct := distinct_cons_others use.distinct node entry
  sorted := by
    refine List.pairwise_cons.mpr ⟨?_, use.sorted.sublist List.filter_sublist⟩
    intro e listed
    have before := use.past e (mem_others.mp listed).1
    dsimp only
    omega
  past e listed := by
    rcases List.mem_cons.mp listed with rfl | kept
    · exact Nat.lt_succ_self _
    · have before := use.past e (mem_others.mp kept).1
      omega

theorem oldestKey_eq (use : ByUse pool (front ++ [last]) next)
    (all : ∀ key ∈ pool.connections.keys, key ∈ order) : pool.oldestKey order = some last.1 := by
  have present : pool.connections.lookup last.1 = some last.2 :=
    (use.listed last.1 last.2).mpr (by simp)
  have inOrder : last.1 ∈ order :=
    all last.1 (Finmap.mem_keys.mpr (Finmap.mem_iff.mpr ⟨last.2, present⟩))
  unfold ConnectionPool.oldestKey
  generalize entries : (order.filterMap fun node => (pool.connections.lookup node).map fun entry =>
    (node, entry.lastUsed)) = used
  have shown : (last.1, last.2.lastUsed) ∈ used := by
    rw [← entries, List.mem_filterMap]
    exact ⟨last.1, inOrder, by rw [present]; rfl⟩
  cases least : used.argmin Prod.snd with
  | none =>
    rw [List.argmin_eq_none.mp least] at shown
    cases shown
  | some oldest =>
    have bound : oldest.2 ≤ last.2.lastUsed := List.le_of_mem_argmin shown least
    have member := List.argmin_mem least
    rw [← entries, List.mem_filterMap] at member
    obtain ⟨node, -, found⟩ := member
    obtain ⟨entry, stored, rfl⟩ := Option.map_eq_some_iff.mp found
    have listed := (use.listed node entry).mp stored
    rcases List.mem_append.mp listed with earlier | final
    · have after := (List.pairwise_append.mp use.sorted).2.2 _ earlier last List.mem_cons_self
      dsimp only at bound after
      omega
    · rw [← List.mem_singleton.mp final]
      rfl

theorem absent_of_last (use : ByUse pool (front ++ [last]) next) : ∀ e ∈ front, e.1 ≠ last.1 := by
  intro e listed same
  have distinct := use.distinct
  rw [List.map_append, List.nodup_append] at distinct
  exact distinct.2.2 e.1 (List.mem_map_of_mem listed) last.1 (by simp) same

theorem evictLru (use : ByUse pool (front ++ [last]) next)
    (all : ∀ key ∈ pool.connections.keys, key ∈ order) : ByUse (pool.evictLru order) front next := by
  have kept := use.erase last.1
  have gone : others [last] last.1 = [] := by simp [others]
  have rest : others (front ++ [last]) last.1 = front := by
    calc others (front ++ [last]) last.1 = others front last.1 ++ others [last] last.1 := List.filter_append ..
      _ = front := by rw [others_of_absent use.absent_of_last, gone, List.append_nil]
  rw [rest] at kept
  rw [ConnectionPool.evictLru, use.oldestKey_eq all]
  exact kept

end ByUse

/-! Both side by side -/

/-- The map holds the connections of the pool, in the order of their use. -/
structure Together (maxConnections : ℕ) (s : State C) : Prop where
  room : s.pool.maxConnections = maxConnections
  capacity : s.reference.capacity = maxConnections
  entries : ∃ l, ByUse s.pool l s.next ∧ s.reference.entries = l.map fun e => (e.1, e.2.connection)

theorem together_start (maxConnections : ℕ) : Together (C := C) maxConnections (start maxConnections) :=
  ⟨rfl, rfl, [], ByUse.empty maxConnections, rfl⟩

theorem Together.asReference {maxConnections : ℕ} {s : State C} (both : Together maxConnections s) :
    AsReference s := by
  obtain ⟨l, use, entries⟩ := both.entries
  constructor
  · have bounded := s.reference.bounded
    rw [entries, List.length_map, both.capacity] at bounded
    rw [use.len_eq, both.room]
    exact bounded
  · intro node
    refine Option.ext fun conn => ?_
    rw [use.held_eq_some_iff, get_eq_some_iff, entries]

section Steps

variable {maxConnections : ℕ} {s : State C} (both : Together maxConnections s)

include both

theorem together_get_hit {now : ℕ} {node : NodeId} (found : (s.pool.held node).isSome)
    (later : s.next ≤ now) :
    Together maxConnections ⟨(s.pool.get now node).1, (s.reference.get node).1, now + 1⟩ := by
  obtain ⟨l, use, entries⟩ := both.entries
  obtain ⟨conn, held⟩ := Option.isSome_iff_exists.mp found
  obtain ⟨entry, stored, rfl⟩ := Option.map_eq_some_iff.mp held
  have listed : (node, entry.connection) ∈ s.reference.entries := by
    rw [entries]
    exact use.held_eq_some_iff.mp held
  have pool : (s.pool.get now node).1 =
      { s.pool with connections := s.pool.connections.insert node { entry with lastUsed := now } } := by
    rw [ConnectionPool.get, stored]
  have capacity : (s.reference.get node).1.capacity = s.reference.capacity := by
    unfold Lru.get
    split <;> rfl
  rw [pool]
  refine ⟨both.room, capacity.trans both.capacity, _,
    use.push node { entry with lastUsed := now } later, ?_⟩
  rw [entries_get listed, entries, others_map]
  rfl

theorem together_get_miss {now : ℕ} {node : NodeId} (missing : s.pool.held node = none) :
    Together maxConnections ⟨(s.pool.get now node).1, (s.reference.get node).1, s.next⟩ := by
  obtain ⟨l, use, entries⟩ := both.entries
  have pool : (s.pool.get now node).1 = s.pool := by
    rw [ConnectionPool.get, Option.map_eq_none_iff.mp missing]
  have reference : (s.reference.get node).1 = s.reference := by
    refine get_of_absent fun e listed => ?_
    rw [entries] at listed
    obtain ⟨e, inList, rfl⟩ := List.mem_map.mp listed
    exact use.absent_of_held_none missing e inList
  rw [pool, reference]
  exact both

theorem together_remove (node : NodeId) :
    Together maxConnections ⟨s.pool.remove node, s.reference.remove node, s.next⟩ := by
  obtain ⟨l, use, entries⟩ := both.entries
  refine ⟨both.room, both.capacity, _, use.erase node, ?_⟩
  rw [← others_map (fun entry : PooledConnection C => entry.connection), ← entries]
  rfl

theorem together_insert_room {now : ℕ} (later : s.next ≤ now) {order : List NodeId} {node : NodeId}
    {conn : C} (room : s.pool.len < s.pool.maxConnections) :
    Together maxConnections ⟨s.pool.insert now order node conn, s.reference.put node conn, now + 1⟩ := by
  obtain ⟨l, use, entries⟩ := both.entries
  have pool : s.pool.insert now order node conn =
      { s.pool with connections := s.pool.connections.insert node ⟨conn, now, now⟩ } := by
    rw [ConnectionPool.insert, if_neg (by omega)]
  rw [pool]
  refine ⟨both.room, both.capacity, _, use.push node ⟨conn, now, now⟩ later, ?_⟩
  have fits : ((node, conn) :: others s.reference.entries node).length ≤ s.reference.capacity := by
    have fewer : (others s.reference.entries node).length ≤ s.reference.entries.length :=
      List.length_filter_le _ _
    rw [entries, List.length_map, ← use.len_eq] at fewer
    rw [List.length_cons, both.capacity, ← both.room, entries]
    omega
  calc (s.reference.put node conn).entries = (node, conn) :: others s.reference.entries node :=
        List.take_of_length_le fits
    _ = _ := by
      rw [entries, others_map]
      rfl

theorem exists_last {l : List (NodeId × PooledConnection C)} (use : ByUse s.pool l s.next)
    (positive : 1 ≤ maxConnections) (full : s.pool.maxConnections ≤ s.pool.len) :
    ∃ front last, l = front ++ [last] ∧ maxConnections = front.length + 1 := by
  have length : l.length = maxConnections := by
    have bounded := both.asReference.1
    rw [← use.len_eq, ← both.room]
    omega
  have nonempty : l ≠ [] := List.ne_nil_of_length_pos (by omega)
  refine ⟨l.dropLast, l.getLast nonempty, (List.dropLast_append_getLast nonempty).symm, ?_⟩
  rw [List.length_dropLast]
  omega

theorem together_insert_full {now : ℕ} (later : s.next ≤ now) {order : List NodeId}
    (all : ∀ key ∈ s.pool.connections.keys, key ∈ order) {node : NodeId} {conn : C}
    (positive : 1 ≤ maxConnections) (full : s.pool.maxConnections ≤ s.pool.len)
    (fresh : (s.pool.held node).isSome → s.pool.oldestKey order = some node) :
    Together maxConnections ⟨s.pool.insert now order node conn, s.reference.put node conn, now + 1⟩ := by
  obtain ⟨l, use, entries⟩ := both.entries
  obtain ⟨front, last, rfl, size⟩ := exists_last both use positive full
  have absent : ∀ e ∈ front, e.1 ≠ node := by
    intro e listed same
    have oldest : s.pool.oldestKey order = some node := by
      apply fresh
      apply Option.isSome_iff_exists.mpr
      refine ⟨e.2.connection, use.held_eq_some_iff.mpr ?_⟩
      rw [← same]
      exact List.mem_map_of_mem (List.mem_append_left _ listed)
    rw [use.oldestKey_eq all] at oldest
    exact use.absent_of_last e listed (same.trans (Option.some.inj oldest).symm)
  have pool : s.pool.insert now order node conn =
      { s.pool.evictLru order with
        connections := (s.pool.evictLru order).connections.insert node ⟨conn, now, now⟩ } := by
    rw [ConnectionPool.insert, if_pos full]
  have capacity : (s.pool.evictLru order).maxConnections = s.pool.maxConnections := by
    unfold ConnectionPool.evictLru
    split <;> rfl
  rw [pool]
  refine ⟨capacity.trans both.room, both.capacity, _,
    (use.evictLru all).push node ⟨conn, now, now⟩ later, ?_⟩
  -- Whether the map drops its last entry or had it under the key of the new one, the front stays.
  have behind : others (front ++ [last]) node = front ++ others [last] node := by
    calc others (front ++ [last]) node = others front node ++ others [last] node := List.filter_append ..
      _ = front ++ others [last] node := by rw [others_of_absent absent]
  calc (s.reference.put node conn).entries
      = ((node, conn) :: others s.reference.entries node).take s.reference.capacity := rfl
    _ = (node, conn) :: front.map fun e => (e.1, e.2.connection) := by
      rw [entries, others_map, behind, both.capacity, size, List.take_succ_cons, List.map_append,
        List.take_left' (List.length_map ..)]
    _ = _ := by
      rw [others_of_absent absent]
      rfl

theorem newOrOldest_of_insert {now : ℕ} {order : List NodeId}
    (all : ∀ key ∈ s.pool.connections.keys, key ∈ order) {node : NodeId} {conn : C} {next : ℕ}
    (positive : 1 ≤ maxConnections)
    (after : AsReference ⟨s.pool.insert now order node conn, s.reference.put node conn, next⟩) :
    NewOrOldest s (.insert now order node conn) := by
  intro full found
  obtain ⟨l, use, entries⟩ := both.entries
  obtain ⟨front, last, rfl, -⟩ := exists_last both use positive full
  have oldest := use.oldestKey_eq all
  rw [oldest]
  by_contra other
  have apart : last.1 ≠ node := fun same => other (congrArg some same)
  obtain ⟨held, stored⟩ := Option.isSome_iff_exists.mp found
  have present : (node, held) ∈ s.reference.entries := by
    rw [entries]
    exact use.held_eq_some_iff.mp stored
  have evicted := after.2 last.1
  dsimp only at evicted
  rw [ConnectionPool.held_insert_of_ne _ _ _ _ apart, if_pos ⟨full, oldest⟩] at evicted
  have kept : (last.1, last.2.connection) ∈ (s.reference.put node conn).entries := by
    have fits : ((node, conn) :: others s.reference.entries node).length ≤ s.reference.capacity :=
      Nat.le_trans (length_others_lt present) s.reference.bounded
    have whole : (s.reference.put node conn).entries = (node, conn) :: others s.reference.entries node :=
      List.take_of_length_le fits
    rw [whole, List.mem_cons, mem_others, entries]
    exact .inr ⟨List.mem_map_of_mem (by simp), apart⟩
  rw [get_eq_some_iff.mpr kept] at evicted
  cases evicted

end Steps

theorem step_together {maxConnections : ℕ} (positive : 1 ≤ maxConnections) {s t : State C} {a : Call C}
    (both : Together maxConnections s) (kept : NewOrOldest s a) (taken : step s a = some t) :
    Together maxConnections t := by
  cases a with
  | get now node =>
    rw [step] at taken
    split at taken
    · rename_i found
      split at taken
      · rename_i later
        cases taken
        exact together_get_hit both found later
      · cases taken
    · rename_i missing
      cases taken
      exact together_get_miss both (by simpa using missing)
  | insert now order node conn =>
    rw [step] at taken
    split at taken
    · rename_i allowed
      cases taken
      by_cases full : s.pool.maxConnections ≤ s.pool.len
      · exact together_insert_full both allowed.1 allowed.2 positive full (kept full)
      · exact together_insert_room both allowed.1 (by omega)
    · cases taken
  | remove node =>
    cases taken
    exact together_remove both node

theorem step_newOrOldest {maxConnections : ℕ} (positive : 1 ≤ maxConnections) {s t : State C} {a : Call C}
    (both : Together maxConnections s) (taken : step s a = some t) (after : AsReference t) :
    NewOrOldest s a := by
  cases a with
  | get now node => trivial
  | insert now order node conn =>
    rw [step] at taken
    split at taken
    · rename_i allowed
      cases taken
      exact newOrOldest_of_insert both allowed.2 positive after
    · cases taken
  | remove node => trivial

/-- Over a run of lookups, insertions and removals with an increasing clock, the pool holds at every
point what a least-recently-used map of its capacity holds, exactly when every insertion of a peer
that is already in a full pool is one of the peer used longest ago. -/
theorem pool_as_reference_iff {maxConnections : ℕ} (positive : 1 ≤ maxConnections) {calls : List (Call C)}
    {t : State C} (run : Path step anyStep (start maxConnections) calls t) :
    (∀ front u, front <+: calls → Path step anyStep (start maxConnections) front u → AsReference u) ↔
      Path step NewOrOldest (start maxConnections) calls t :=
  run.forall_iff_of_invariant (fun _ both => both.asReference)
    (fun _ _ _ both kept taken => step_together positive both kept taken)
    (fun _ _ _ both taken after => step_newOrOldest positive both taken after)
    (together_start maxConnections)

theorem pool_as_reference_run :
    let a : NodeId := ⟨Bytes32.fill 1⟩
    let b : NodeId := ⟨Bytes32.fill 2⟩
    let c : NodeId := ⟨Bytes32.fill 3⟩
    let calls : List (Call ℕ) := [.insert 0 [] a 10, .insert 1 [a] b 11, .insert 2 [b, a] a 12,
      .get 3 b, .insert 4 [a, b] c 13, .remove b, .insert 5 [c] a 14]
    ∃ t, Path step anyStep (start 2) calls t ∧ t.pool.held a = some 14 ∧ t.pool.held c = some 13 ∧
      ∀ front u, front <+: calls → Path step anyStep (start 2) front u → AsReference u := by
  intro a b c calls
  have ended : ∃ t, Path step NewOrOldest (start 2) calls t ∧
      (t.pool.held a = some 14 ∧ t.pool.held c = some 13) :=
    exists_path (fun t => t.pool.held a = some 14 ∧ t.pool.held c = some 13) (start 2) calls
      (by decide +kernel)
  obtain ⟨t, path, ends⟩ := ended
  have run := path.mono fun _ _ _ => trivial
  exact ⟨t, run, ends.1, ends.2, (pool_as_reference_iff (by decide) run).mpr path⟩

/-- A pool of two that is full: inserting its newer peer again drops the other one, and leaves a
single connection. -/
theorem pool_reinsert_drops_other :
    let a : NodeId := ⟨Bytes32.fill 1⟩
    let b : NodeId := ⟨Bytes32.fill 2⟩
    let calls : List (Call ℕ) := [.insert 0 [] a 10, .insert 1 [a] b 11, .insert 2 [a, b] b 12]
    ∃ t, Path step anyStep (start 2) calls t ∧ t.pool.held a = none ∧ (t.reference.get a).2 = some 10 ∧
      t.pool.held b = some 12 ∧ t.pool.len = 1 := by
  intro a b calls
  exact exists_path (fun t : State ℕ => t.pool.held a = none ∧ (t.reference.get a).2 = some 10 ∧
    t.pool.held b = some 12 ∧ t.pool.len = 1) (start 2) calls (by decide +kernel)

end Craftec.Net.PoolLru
