/- GID: Craftec/Net/Reuse
   generality: I
   digest: Which connection a send takes after an earlier one failed over the connection in the pool. -/

import Mathlib
import Craftec.Library.Run
import Craftec.Net.Endpoint
import Craftec.Net.Pool
import Craftec.Net.Swim
import Craftec.Types.Digest
import Craftec.Types.Frames
import Craftec.Types.Wire

set_option autoImplicit false
set_option relaxedAutoImplicit false

namespace Craftec.Net.Reuse

open Craftec.Library.Run (Reach anyStep exec exists_reach reach_of_exec)
open Craftec.Net.Endpoint
open Craftec.Net.Pool (ConnectionPool)
open Craftec.Net.Pool.ConnectionPool (get_snd held_get held_insert_of_ne)
open Craftec.Net.Swim (peerId)
open Craftec.Types.Digest (Bytes NodeId)
open Craftec.Types.Frames (pongOnly)
open Craftec.Types.Wire (Postcard WireMessage)

/-! What a step does to the pools -/

/-- Whose pool takes a connection, to whom, and the order in which eviction looks for the
entry used longest ago. -/
structure Insertion where
  node : NodeId
  peer : NodeId
  order : List NodeId

section Pools

variable {P : Postcard} {H E : Type}
  {handleMessage : H → NodeId → WireMessage → E → H × Option WireMessage} {w w' : World H}

def insertion (w : World H) : Label H E → Option Insertion
  | .advance i o =>
    match (w.calls i).task with
    | .pooling _ peer _ _ | .greeting _ peer _ => some ⟨(w.calls i).node, peer, o.order⟩
    | _ => none
  | .accept c _ order => (w.conns c).map fun conn => ⟨conn.acceptor, conn.dialler, order⟩
  | _ => none

def pools (w : World H) (node : NodeId) : ConnectionPool Handle := (w.nodes node).connections

/-- The pools after a step: as before, with an entry looked up, or with one inserted. -/
inductive PoolTurn (w : World H) (label : Label H E) : (NodeId → ConnectionPool Handle) → Prop where
  | same (nothing : insertion w label = none) : PoolTurn w label (pools w)
  | looks (node peer : NodeId) (now : ℕ) (nothing : insertion w label = none) :
      PoolTurn w label (Function.update (pools w) node ((pools w node).get now peer).1)
  | inserts (e : Insertion) (now : ℕ) (handle : Handle) (placed : insertion w label = some e) :
      PoolTurn w label
        (Function.update (pools w) e.node ((pools w e.node).insert now e.order e.peer handle))

theorem pools_setConn (w : World H) (c : ℕ) (conn : Connection) : pools (w.setConn c conn) = pools w := rfl

theorem pools_setTask (w : World H) (i : ℕ) (task : Task) : pools (w.setTask i task) = pools w := rfl

theorem pools_setNode (w : World H) (node : NodeId) (e : CraftecEndpoint H) :
    pools (w.setNode node e) = Function.update (pools w) node e.connections := by
  funext other
  rcases eq_or_ne other node with rfl | apart
  · simp only [pools, World.setNode, Function.update_self]
  · simp only [pools, World.setNode, Function.update_of_ne apart]

theorem pools_setNode_of_eq {node : NodeId} {e : CraftecEndpoint H}
    (kept : e.connections = (w.nodes node).connections) : pools (w.setNode node e) = pools w := by
  rw [pools_setNode, kept]
  exact Function.update_eq_self node (pools w)

theorem pools_adopt {node peer : NodeId} {o : Outside} {c : ℕ}
    (adopted : w.adopt node peer o c = some w') :
    pools w' = Function.update (pools w) node
      ((pools w node).insert o.now o.order peer ⟨c, .dialler⟩) := by
  obtain ⟨conn, -, rfl⟩ := Option.map_eq_some_iff.mp adopted
  exact pools_setNode w node _

theorem poolTurn_adopt {label : Label H E} {node peer : NodeId} {o : Outside} {c i : ℕ} {task : Task}
    (taken : (w.adopt node peer o c).map (fun later => later.setTask i task) = some w')
    (placed : insertion w label = some ⟨node, peer, o.order⟩) : PoolTurn w label (pools w') := by
  obtain ⟨later, adopted, rfl⟩ := Option.map_eq_some_iff.mp taken
  rw [pools_setTask, pools_adopt adopted]
  exact .inserts _ o.now _ placed

theorem connections_turn (loop : Loop) (e : CraftecEndpoint H) (r : Reading) (bytes : Bytes) :
    (loop.turn P e r bytes).1.connections = e.connections := by
  have turned := turn_turned (P := P) loop e r bytes
  generalize loop.turn P e r bytes = after at turned
  cases turned <;> rfl

theorem pools_advance {i : ℕ} {o : Outside} (taken : advance P w i o = some w') :
    PoolTurn w (.advance i o : Label H E) (pools w') := by
  cases stands : (w.calls i).task with
  | idle | returned => simp only [advance, stands, reduceCtorEq] at taken
  | stamping job peer msg =>
    have nothing : insertion w (.advance i o : Label H E) = none := by simp only [insertion, stands]
    simp only [advance, stands] at taken
    split at taken <;>
    · cases taken
      rw [pools_setTask, pools_setNode_of_eq]
      · exact .same nothing
      · rfl
  | looking job peer bytes =>
    have nothing : insertion w (.advance i o : Label H E) = none := by simp only [insertion, stands]
    simp only [advance, stands] at taken
    split at taken
    · rename_i pool handle found
      cases taken
      have looked : pool = ((pools w (w.calls i).node).get o.now peer).1 := (congrArg Prod.fst found).symm
      rw [pools_setTask, pools_setNode, looked]
      exact .looks _ _ _ nothing
    · cases taken
      exact .same nothing
  | connecting job peer bytes =>
    have nothing : insertion w (.advance i o : Label H E) = none := by simp only [insertion, stands]
    simp only [advance, stands] at taken
    split at taken <;> cases taken <;> exact .same nothing
  | pooling job peer bytes c =>
    simp only [advance, stands] at taken
    exact poolTurn_adopt taken (by simp only [insertion, stands])
  | writing job peer bytes handle =>
    have nothing : insertion w (.advance i o : Label H E) = none := by simp only [insertion, stands]
    simp only [advance, stands] at taken
    obtain ⟨conn, -, rfl⟩ := Option.map_eq_some_iff.mp taken
    split <;> exact .same nothing
  | joining b =>
    have nothing : insertion w (.advance i o : Label H E) = none := by simp only [insertion, stands]
    simp only [advance, stands] at taken
    split at taken
    · cases taken
      exact .same nothing
    · cases taken
      exact .same nothing
    · split at taken <;> cases taken <;> exact .same nothing
  | greeting b peer c =>
    simp only [advance, stands] at taken
    exact poolTurn_adopt taken (by simp only [insertion, stands])

theorem pools_step {label : Label H E} (taken : step P handleMessage w label = some w') :
    PoolTurn w label (pools w') := by
  cases label with
  | send i node peer msg =>
    simp only [step] at taken
    split at taken <;> cases taken
    exact .same rfl
  | bootstrap i node peers =>
    simp only [step] at taken
    split at taken <;> cases taken
    exact .same rfl
  | advance i o => exact pools_advance taken
  | accept c now order =>
    obtain ⟨conn, found, taken⟩ := Option.bind_eq_some_iff.mp taken
    split at taken <;> cases taken
    have placed : insertion w (.accept c now order : Label H E) =
        some ⟨conn.acceptor, conn.dialler, order⟩ := by
      simp only [insertion, found, Option.map_some]
    rw [pools_setConn, World.pool, pools_setNode]
    exact .inserts _ now _ placed
  | deliver c side k r =>
    obtain ⟨conn, -, taken⟩ := Option.bind_eq_some_iff.mp taken
    obtain ⟨bytes, -, taken⟩ := Option.bind_eq_some_iff.mp taken
    split at taken
    · rename_i loop _
      cases taken
      rw [pools_setConn, pools_setNode_of_eq (connections_turn loop _ r bytes)]
      exact .same rfl
    · cases taken
      exact .same rfl
    · cases taken
  | lose c side =>
    obtain ⟨conn, -, taken⟩ := Option.bind_eq_some_iff.mp taken
    split at taken <;> cases taken
    exact .same rfl
  | handle c side env =>
    obtain ⟨conn, -, taken⟩ := Option.bind_eq_some_iff.mp taken
    split at taken <;> cases taken
    rw [pools_setConn, pools_setNode_of_eq]
    · exact .same rfl
    · rfl
  | reply c side writing =>
    obtain ⟨conn, -, taken⟩ := Option.bind_eq_some_iff.mp taken
    obtain ⟨after, -, rfl⟩ := Option.map_eq_some_iff.mp taken
    exact .same rfl
  | other node handler =>
    cases taken
    rw [pools_setNode_of_eq]
    · exact .same rfl
    · rfl

/-! One entry along a run -/

/-- No connection to `peer` is put into the pool of `node`: none is accepted from the peer,
and none that was dialled meanwhile is pooled. -/
def Quiet (node peer : NodeId) (w : World H) (label : Label H E) : Prop :=
  ∀ e ∈ insertion w label, ¬ (e.node = node ∧ e.peer = peer)

/-- The step inserts a connection to another peer into the full pool of `node`, and the entry of
`peer` is the one that makes room. -/
def Evicts (node peer : NodeId) (w : World H) (label : Label H E) : Prop :=
  ∃ e ∈ insertion w label, e.node = node ∧ (pools w node).Displaces e.order peer

instance (node peer : NodeId) (w : World H) (label : Label H E) : Decidable (Quiet node peer w label) :=
  inferInstanceAs (Decidable (∀ e ∈ insertion w label, ¬ (e.node = node ∧ e.peer = peer)))

instance (node peer : NodeId) (w : World H) (label : Label H E) : Decidable (Evicts node peer w label) :=
  inferInstanceAs (Decidable (∃ e ∈ insertion w label, e.node = node ∧ (pools w node).Displaces e.order peer))

variable {node peer : NodeId} {label : Label H E}

theorem held_step (quiet : Quiet node peer w label) (taken : step P handleMessage w label = some w') :
    (pools w' node).held peer = if Evicts node peer w label then none else (pools w node).held peer := by
  have stays (nothing : insertion w label = none) : ¬ Evicts node peer w label := by
    rintro ⟨e, placed, -⟩
    rw [nothing] at placed
    cases placed
  have turn := pools_step taken
  generalize pools w' = after at turn
  cases turn with
  | same nothing => rw [if_neg (stays nothing)]
  | looks other asked now nothing =>
    rw [if_neg (stays nothing)]
    rcases eq_or_ne node other with rfl | apart
    · rw [Function.update_self, held_get]
    · rw [Function.update_of_ne apart]
  | inserts e now handle placed =>
    have evicts_iff : Evicts node peer w label ↔ e.node = node ∧ (pools w node).Displaces e.order peer := by
      constructor
      · rintro ⟨e', placed', evicts⟩
        cases placed.symm.trans placed'
        exact evicts
      · exact fun evicts => ⟨e, placed, evicts⟩
    rcases eq_or_ne node e.node with same | apart
    · subst same
      have other : peer ≠ e.peer := fun same => quiet e placed ⟨rfl, same.symm⟩
      simp only [Function.update_self, held_insert_of_ne _ _ _ _ other, evicts_iff, true_and]
    · rw [Function.update_of_ne apart, if_neg fun evicts => apart (evicts_iff.mp evicts).1.symm]

/-- Between the two worlds the entry of `peer` was evicted from the pool of `node`. -/
def Evicted (P : Postcard) (handleMessage : H → NodeId → WireMessage → E → H × Option WireMessage)
    (node peer : NodeId) (w w' : World H) : Prop :=
  ∃ u label v, Reach (step P handleMessage) (Quiet node peer) w u ∧ Quiet node peer u label ∧
    Evicts node peer u label ∧ step P handleMessage u label = some v ∧
    Reach (step P handleMessage) (Quiet node peer) v w'

theorem held_none (reach : Reach (step P handleMessage) (Quiet node peer) w w')
    (missing : (pools w node).held peer = none) : (pools w' node).held peer = none := by
  induction reach with
  | refl => exact missing
  | tail _ last ih =>
    obtain ⟨label, quiet, taken⟩ := last
    rw [held_step quiet taken, ih, ite_self]

theorem held_reach {handle : Handle} (reach : Reach (step P handleMessage) (Quiet node peer) w w')
    (pooled : (pools w node).held peer = some handle) :
    ((pools w' node).held peer = none ↔ Evicted P handleMessage node peer w w') ∧
      (¬ Evicted P handleMessage node peer w w' → (pools w' node).held peer = some handle) := by
  have gone (evicted : Evicted P handleMessage node peer w w') : (pools w' node).held peer = none := by
    obtain ⟨u, label, v, -, quiet, evicts, taken, later⟩ := evicted
    refine held_none later ?_
    rw [held_step quiet taken, if_pos evicts]
  have kept (stays : ¬ Evicted P handleMessage node peer w w') : (pools w' node).held peer = some handle := by
    by_contra lost
    obtain ⟨u, label, v, before, quiet, taken, later, holds, lost⟩ :=
      reach.exists_lost (P := fun w => (pools w node).held peer = some handle) pooled lost
    rw [held_step quiet taken] at lost
    split at lost
    · rename_i evicts
      exact stays ⟨u, label, v, before, quiet, evicts, taken, later⟩
    · exact lost holds
  refine ⟨⟨fun missing => ?_, gone⟩, kept⟩
  by_contra stays
  rw [kept stays] at missing
  cases missing

end Pools

/-! Sends -/

/-- What a `send_message` does next to reach its peer. -/
inductive Move where
  | looksUp (peer : NodeId)
  | dials (peer : NodeId)
  | writes (peer : NodeId) (handle : Handle)
  deriving DecidableEq

def move : Task → Option Move
  | .looking none peer _ => some (.looksUp peer)
  | .connecting none peer _ => some (.dials peer)
  | .writing none peer _ handle => some (.writes peer handle)
  | _ => none

/-- `open_uni` or `write_all` fails. -/
def Broken : Writing → Prop
  | .refused _ | .cut _ _ => True
  | .unfinished _ | .whole => False

theorem error_of_broken (peer : NodeId) {writing : Writing} (broken : Broken writing) :
    ∃ e, writing.result peer = .error e := by
  cases writing with
  | refused e | cut n e => exact ⟨_, rfl⟩
  | unfinished e | whole => exact broken.elim

section Sends

variable (P : Postcard) {H E : Type}
  (handleMessage : H → NodeId → WireMessage → E → H × Option WireMessage)

/-- Call `i`, a `send_message` of `node` to `peer`, fails as it writes over the connection that the
pool holds for the peer. -/
structure FailsOver (node peer : NodeId) (handle : Handle) (i : ℕ) (w w' : World H) : Prop where
  pooled : (pools w node).held peer = some handle
  caller : (w.calls i).node = node
  writes : move (w.calls i).task = some (.writes peer handle)
  fails : ∃ o, Broken o.writing ∧ step P handleMessage w (.advance i o) = some w'

variable {P handleMessage} {node peer : NodeId} {handle : Handle} {i j : ℕ} {w w' : World H}

theorem of_writes {task : Task} (writes : move task = some (.writes peer handle)) :
    ∃ bytes, task = .writing none peer bytes handle := by
  unfold move at writes
  split at writes <;> cases writes
  exact ⟨_, rfl⟩

theorem of_looksUp {task : Task} (looks : move task = some (.looksUp peer)) :
    ∃ bytes, task = .looking none peer bytes := by
  unfold move at looks
  split at looks <;> cases looks
  exact ⟨_, rfl⟩

theorem FailsOver.kept (failure : FailsOver P handleMessage node peer handle i w w') :
    (∃ e, (w'.calls i).task = .returned (.error e)) ∧ (pools w' node).held peer = some handle := by
  obtain ⟨o, broken, taken⟩ := failure.fails
  obtain ⟨bytes, stands⟩ := of_writes failure.writes
  have nothing : insertion w (.advance i o : Label H E) = none := by simp only [insertion, stands]
  have quiet : Quiet node peer w (.advance i o : Label H E) := by
    intro e placed
    rw [nothing] at placed
    cases placed
  have stays : ¬ Evicts node peer w (.advance i o : Label H E) := by
    rintro ⟨e, placed, -⟩
    rw [nothing] at placed
    cases placed
  refine ⟨?_, (held_step quiet taken).trans ((if_neg stays).trans failure.pooled)⟩
  simp only [step, advance, stands] at taken
  obtain ⟨conn, -, rfl⟩ := Option.map_eq_some_iff.mp taken
  obtain ⟨e, failed⟩ := error_of_broken peer broken
  exact ⟨e, by simp only [World.setTask, Function.update_self, finish, failed]⟩

theorem move_of_looksUp {o : Outside} (caller : (w.calls j).node = node)
    (looks : move (w.calls j).task = some (.looksUp peer))
    (taken : step P handleMessage w (.advance j o) = some w') :
    move (w'.calls j).task =
      some (((pools w node).held peer).elim (.dials peer) (.writes peer)) := by
  obtain ⟨bytes, stands⟩ := of_looksUp looks
  simp only [step, advance, stands, caller] at taken
  have found := get_snd (pools w node) o.now peer
  split at taken
  · rename_i pool handle looked
    cases taken
    rw [show (pools w node).get o.now peer = (pool, some handle) from looked] at found
    rw [← found]
    simp only [World.setTask, Function.update_self, move, Option.elim_some]
  · rename_i pool looked
    cases taken
    rw [show (pools w node).get o.now peer = (pool, none) from looked] at found
    rw [← found]
    simp only [World.setTask, Function.update_self, move, Option.elim_none]

/-- After a `send_message` has failed over the pooled connection, in any run in which no other
connection to the peer gets into the pool, the next one dials afresh if and only if the pool has
evicted the entry meanwhile for want of room; otherwise it writes over the same connection. -/
theorem dials_afresh_iff {after : World H} {o : Outside}
    {start : World H} (failure : FailsOver P handleMessage node peer handle i start w)
    (reach : Reach (step P handleMessage) (Quiet node peer) w w')
    (caller : (w'.calls j).node = node) (looks : move (w'.calls j).task = some (.looksUp peer))
    (taken : step P handleMessage w' (.advance j o) = some after) :
    (∃ e, (w.calls i).task = .returned (.error e)) ∧
      (move (after.calls j).task = some (.dials peer) ↔ Evicted P handleMessage node peer w w') ∧
      (move (after.calls j).task = some (.writes peer handle) ↔
        ¬ Evicted P handleMessage node peer w w') := by
  obtain ⟨failed, kept⟩ := failure.kept
  obtain ⟨missing_iff, stays⟩ := held_reach reach kept
  refine ⟨failed, ?_⟩
  rw [move_of_looksUp caller looks taken]
  by_cases evicted : Evicted P handleMessage node peer w w'
  · rw [missing_iff.mpr evicted]
    simp [evicted]
  · rw [stays evicted]
    simp [evicted]

end Sends

/-! Peer 1 sends to peer 2 until a write fails, and then once more. -/

def endpoints (maxConnections : ℕ) (node : NodeId) : CraftecEndpoint Unit :=
  ⟨.withCapacity maxConnections, .new node, 0, ()⟩

abbrev sendStep : World Unit → Label Unit Unit → Option (World Unit) :=
  step pongOnly fun handler _ _ _ => (handler, none)

def calm (order : List NodeId) : Outside := ⟨1, 0, order, none, .whole⟩

def lost : Outside := ⟨1, 0, [], none, .refused "connection lost"⟩

/-- Call `i` of peer 1, with its first steps. -/
def sends (i : ℕ) (peer : NodeId) (steps : ℕ) : List (Label Unit Unit) :=
  .send i (peerId 1) peer (.pong 0) :: List.replicate steps (.advance i (calm []))

/-- Call 1 writes over the pooled connection 0 and fails, which leads to a world of this kind. -/
def FailsTo (after : World Unit → Prop) (w : World Unit) : Prop :=
  (pools w (peerId 1)).held (peerId 2) = some ⟨0, .dialler⟩ ∧ (w.calls 1).node = peerId 1 ∧
    move (w.calls 1).task = some (.writes (peerId 2) ⟨0, .dialler⟩) ∧
    ∃ w' ∈ sendStep w (.advance 1 lost), after w'

/-- Call `j` looks peer 2 up and goes on to this move. -/
def LooksUpTo (j : ℕ) (next : Move) (w : World Unit) : Prop :=
  (w.calls j).node = peerId 1 ∧ move (w.calls j).task = some (.looksUp (peerId 2)) ∧
    ∃ w' ∈ sendStep w (.advance j (calm [])), move (w'.calls j).task = some next

instance (after : World Unit → Prop) [DecidablePred after] : DecidablePred (FailsTo after) := fun w =>
  inferInstanceAs (Decidable ((pools w (peerId 1)).held (peerId 2) = some ⟨0, .dialler⟩ ∧
    (w.calls 1).node = peerId 1 ∧ move (w.calls 1).task = some (.writes (peerId 2) ⟨0, .dialler⟩) ∧
    ∃ w' ∈ sendStep w (.advance 1 lost), after w'))

instance (j : ℕ) (next : Move) : DecidablePred (LooksUpTo j next) := fun w =>
  inferInstanceAs (Decidable ((w.calls j).node = peerId 1 ∧
    move (w.calls j).task = some (.looksUp (peerId 2)) ∧
    ∃ w' ∈ sendStep w (.advance j (calm [])), move (w'.calls j).task = some next))

theorem FailsTo.failure {after : World Unit → Prop} {w : World Unit} (fails : FailsTo after w) :
    ∃ w', FailsOver pongOnly (fun handler _ _ (_ : Unit) => (handler, none)) (peerId 1) (peerId 2)
      ⟨0, .dialler⟩ 1 w w' ∧ after w' := by
  obtain ⟨pooled, caller, writes, w', taken, holds⟩ := fails
  exact ⟨w', ⟨pooled, caller, writes, lost, trivial, taken⟩, holds⟩

theorem dials_afresh_after_eviction :
    ∃ w w' u v, Reach sendStep anyStep (start (endpoints 1)) w ∧
      FailsOver pongOnly (fun handler _ _ (_ : Unit) => (handler, none)) (peerId 1) (peerId 2)
        ⟨0, .dialler⟩ 1 w w' ∧
      Reach sendStep (Quiet (peerId 1) (peerId 2)) w' u ∧ sendStep u (.advance 3 (calm [])) = some v ∧
      move (v.calls 3).task = some (.dials (peerId 2)) := by
  have run : ∃ w, Reach sendStep anyStep (start (endpoints 1)) w ∧ FailsTo (fun w' =>
      ∃ x ∈ exec sendStep (Quiet (peerId 1) (peerId 2)) w' (sends 2 (peerId 3) 3),
        Quiet (peerId 1) (peerId 2) x (.advance 2 (calm [peerId 2]) : Label Unit Unit) ∧
        Evicts (peerId 1) (peerId 2) x (.advance 2 (calm [peerId 2]) : Label Unit Unit) ∧
        ∃ y ∈ sendStep x (.advance 2 (calm [peerId 2])),
          ∃ u ∈ exec sendStep (Quiet (peerId 1) (peerId 2)) y (sends 3 (peerId 2) 1),
            LooksUpTo 3 (.dials (peerId 2)) u) w :=
    exists_reach _ _ (sends 0 (peerId 2) 5 ++ sends 1 (peerId 2) 2) (by decide)
  obtain ⟨w, reach, fails⟩ := run
  obtain ⟨w', failure, x, before, quiet, evicts, y, displaced, u, later, caller, looks, v, taken, -⟩ :=
    fails.failure
  have first := reach_of_exec before
  have second := reach_of_exec later
  have whole := first.trans (Relation.ReflTransGen.head ⟨_, quiet, displaced⟩ second)
  exact ⟨w, w', u, v, reach, failure, whole, taken,
    (dials_afresh_iff failure whole caller looks taken).2.1.mpr
      ⟨x, _, y, first, quiet, evicts, displaced, second⟩⟩

/-- The next send writes over the connection that has just failed. -/
theorem lost_connection_reused :
    ∃ w w' u v, Reach sendStep anyStep (start (endpoints 256)) w ∧
      FailsOver pongOnly (fun handler _ _ (_ : Unit) => (handler, none)) (peerId 1) (peerId 2)
        ⟨0, .dialler⟩ 1 w w' ∧
      Reach sendStep (Quiet (peerId 1) (peerId 2)) w' u ∧ (u.calls 2).node = peerId 1 ∧
      move (u.calls 2).task = some (.looksUp (peerId 2)) ∧ sendStep u (.advance 2 (calm [])) = some v ∧
      move (v.calls 2).task = some (.writes (peerId 2) ⟨0, .dialler⟩) := by
  have run : ∃ w, Reach sendStep anyStep (start (endpoints 256)) w ∧ FailsTo (fun w' =>
      ∃ u ∈ exec sendStep (Quiet (peerId 1) (peerId 2)) w' (sends 2 (peerId 2) 1),
        LooksUpTo 2 (.writes (peerId 2) ⟨0, .dialler⟩) u) w :=
    exists_reach _ _ (sends 0 (peerId 2) 5 ++ sends 1 (peerId 2) 2) (by decide)
  obtain ⟨w, reach, fails⟩ := run
  obtain ⟨w', failure, u, ran, caller, looks, v, taken, again⟩ := fails.failure
  exact ⟨w, w', u, v, reach, failure, reach_of_exec ran, caller, looks, taken, again⟩

end Craftec.Net.Reuse
