/- GID: Craftec/Net/Pool
   generality: I
   digest: The pool of live connections, keyed by peer, that gives up the one used longest ago. -/

import Mathlib.Data.Finmap
import Mathlib.Data.List.MinMax
import Mathlib.Order.Nat
import Craftec.Types.Digest

set_option autoImplicit false
set_option relaxedAutoImplicit false

namespace Craftec.Net.Pool

open Craftec.Types.Digest (NodeId)

structure PooledConnection (C : Type) where
  connection : C
  establishedAt : ℕ
  lastUsed : ℕ

structure ConnectionPool (C : Type) where
  connections : Finmap fun _ : NodeId => PooledConnection C
  maxConnections : ℕ

variable {C : Type}

namespace ConnectionPool

def withCapacity (maxConnections : ℕ) : ConnectionPool C := ⟨∅, maxConnections⟩

def len (pool : ConnectionPool C) : ℕ := pool.connections.keys.card

def get (pool : ConnectionPool C) (now : ℕ) (node : NodeId) : ConnectionPool C × Option C :=
  match pool.connections.lookup node with
  | some entry =>
    ({ pool with connections := pool.connections.insert node { entry with lastUsed := now } },
      some entry.connection)
  | none => (pool, none)

/-- The peer with the oldest `last_used`; among equals the first of the iteration. -/
def oldestKey (pool : ConnectionPool C) (order : List NodeId) : Option NodeId :=
  ((order.filterMap fun node => (pool.connections.lookup node).map fun entry =>
    (node, entry.lastUsed)).argmin Prod.snd).map Prod.fst

def evictLru (pool : ConnectionPool C) (order : List NodeId) : ConnectionPool C :=
  match pool.oldestKey order with
  | some node => { pool with connections := pool.connections.erase node }
  | none => pool

def insert (pool : ConnectionPool C) (now : ℕ) (order : List NodeId) (node : NodeId) (conn : C) :
    ConnectionPool C :=
  let room := if pool.maxConnections ≤ pool.len then pool.evictLru order else pool
  { room with connections := room.connections.insert node ⟨conn, now, now⟩ }

def remove (pool : ConnectionPool C) (node : NodeId) : ConnectionPool C :=
  { pool with connections := pool.connections.erase node }

/-- The connection that `get` hands out. -/
def held (pool : ConnectionPool C) (node : NodeId) : Option C :=
  (pool.connections.lookup node).map PooledConnection.connection

/-- An insertion that goes through the pool in this order takes out the entry of `node`. -/
def Displaces (pool : ConnectionPool C) (order : List NodeId) (node : NodeId) : Prop :=
  pool.maxConnections ≤ pool.len ∧ pool.oldestKey order = some node

instance (pool : ConnectionPool C) (order : List NodeId) (node : NodeId) :
    Decidable (pool.Displaces order node) :=
  inferInstanceAs (Decidable (pool.maxConnections ≤ pool.len ∧ pool.oldestKey order = some node))

section Held

variable (pool : ConnectionPool C) (now : ℕ) (order : List NodeId) {node other : NodeId} (conn : C)

theorem get_snd (node : NodeId) : (pool.get now node).2 = pool.held node := by
  unfold get held
  split <;> simp only [*, Option.map_some, Option.map_none]

theorem held_get (other : NodeId) : (pool.get now other).1.held node = pool.held node := by
  unfold get
  split
  · rename_i entry found
    rcases eq_or_ne node other with rfl | apart
    · simp only [held, Finmap.lookup_insert, found, Option.map_some]
    · simp only [held, Finmap.lookup_insert_of_ne _ apart]
  · rfl

theorem held_evictLru (node : NodeId) :
    (pool.evictLru order).held node = if pool.oldestKey order = some node then none else pool.held node := by
  unfold evictLru
  split
  · rename_i oldest found
    rcases eq_or_ne node oldest with rfl | apart
    · rw [if_pos found, held, Finmap.lookup_erase, Option.map_none]
    · rw [if_neg fun same => apart (Option.some.inj (same.symm.trans found)), held,
        Finmap.lookup_erase_ne apart, held]
  · rename_i empty
    rw [if_neg fun same => by rw [empty] at same; cases same]

theorem held_insert_of_ne (apart : node ≠ other) :
    (pool.insert now order other conn).held node =
      if pool.Displaces order node then none else pool.held node := by
  have room : (pool.insert now order other conn).held node =
      (if pool.maxConnections ≤ pool.len then pool.evictLru order else pool).held node := by
    simp only [insert, held, Finmap.lookup_insert_of_ne _ apart]
  rw [room]
  by_cases full : pool.maxConnections ≤ pool.len
  · rw [if_pos full, held_evictLru]
    simp only [Displaces, full, true_and]
  · rw [if_neg full, if_neg fun displaced => full displaced.1]

end Held

end ConnectionPool

end Craftec.Net.Pool
