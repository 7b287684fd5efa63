/- GID: Craftec/Node/Departures
   generality: I
   digest: From the death of a peer over the event bus to the tables that are to forget it. -/

import Mathlib
import Craftec.Health.ScanCycle
import Craftec.Health.Tracker
import Craftec.Library.Broadcast
import Craftec.Library.Run
import Craftec.Library.ShardedTable
import Craftec.Net.Providers
import Craftec.Net.Swim
import Craftec.Net.SwimEvents
import Craftec.Node.Handler
import Craftec.Types.Digest

set_option autoImplicit false
set_option relaxedAutoImplicit false

namespace Craftec.Node.Departures

open Craftec.Health.ScanCycle (content)
open Craftec.Health.Tracker
open Craftec.Library.Broadcast (Channel Received)
open Craftec.Library.Broadcast.Channel (recv_turn)
open Craftec.Library.Run (Reach Reach.invariant anyStep exists_reach mem_set_cases)
open Craftec.Library.ShardedTable (Sharding rows rows_sweepShard sweepShard)
open Craftec.Net.Providers (advance_move twoShards)
open Craftec.Net.Swim (SwimMembership localId_mark peerId)
open Craftec.Net.SwimEvents (connected)
open Craftec.Node.Handler (PieceHolder updateFirst)
open Craftec.Types.Digest (Cid NodeId)

/-- The events of the bus. What a full disk event carries is only logged. -/
inductive Event where
  | cidWritten (cid : Cid)
  | pageCommitted (dbId : Cid) (pageNum : UInt32) (rootCid : Cid)
  | peerConnected (node : NodeId)
  | peerDisconnected (node : NodeId)
  | repairNeeded (cid : Cid) (available target : UInt32)
  | diskWatermarkHit
  | shutdownSignal
  deriving DecidableEq

def Event.isPeer : Event → Bool
  | .peerConnected _ | .peerDisconnected _ => true
  | _ => false

def eventBusCapacity : ℕ := 1024

/-- Where a call of `mark_alive` or `mark_dead` stands: it looks the peer up, updates its entry and
sends an event, with a lock of the table for each of the first two. -/
inductive Marking where
  | alive (node : NodeId) (incarnation : UInt64)
  | aliveSet (node : NodeId) (incarnation : UInt64) (isNew : Bool)
  | aliveSend (node : NodeId) (isNew : Bool)
  | dead (node : NodeId) (incarnation : UInt64)
  | deadSet (node : NodeId) (incarnation : UInt64) (wasConnected : Bool)
  | deadSend (node : NodeId) (wasConnected : Bool)
  | ended
  deriving DecidableEq

/-- Where the dispatch loop stands. It runs through the shards of the tracker, then through the
contents that lost their last holder, and then calls the provider table; `n` is the number of the
event it does this for. -/
inductive Loop where
  | starting
  | waiting
  | announcing (cid : Cid)
  | sweeping (n : ℕ) (node : NodeId) (j : ℕ) (emptied : Finset Cid)
  | clearing (n : ℕ) (node : NodeId) (emptied : Finset Cid)
  | removing (n : ℕ) (node : NodeId) (call : ℕ)
  | stopped

def Loop.subscribed : Loop → Bool
  | .starting => false
  | _ => true

def Loop.number : Loop → Option ℕ
  | .sweeping n _ _ _ | .clearing n _ _ | .removing n _ _ => some n
  | _ => none

/-- The peer that the loop is about to forget. -/
def Loop.node : Loop → Option NodeId
  | .sweeping _ node _ _ | .clearing _ node _ | .removing _ node _ => some node
  | _ => none

/-- The tables of the node, the bus with the time of each event, the loop, and the calls that are
under way. `recorded` is history: when the tracker last took a report of a node on a content. -/
structure State where
  swim : SwimMembership
  markings : List Marking
  bus : Channel (Event × ℕ)
  loop : Loop
  tracker : PieceTracker
  reports : List (Cid × PieceHolder)
  dht : Net.Providers.State
  recorded : Cid → NodeId → ℕ

def State.new (localId : NodeId) : State :=
  ⟨.new localId, [], .new, .starting, .new, [], .new, fun _ _ => 0⟩

def State.publish (s : State) (e : Event) : State :=
  { s with bus := if s.loop.subscribed then s.bus.send (e, s.dht.clock) else s.bus }

/-- One locked step of a call that marks a peer. -/
def advance (s : State) : Marking → Option (State × Marking)
  | .alive node incarnation => some (s, .aliveSet node incarnation (s.swim.members.lookup node).isNone)
  | .aliveSet node incarnation isNew =>
    some ({ s with swim := s.swim.markAlive node incarnation }, .aliveSend node isNew)
  | .aliveSend node isNew => some (if isNew then s.publish (.peerConnected node) else s, .ended)
  | .dead node incarnation => some (s, .deadSet node incarnation (connected s.swim node))
  | .deadSet node incarnation wasConnected =>
    some ({ s with swim := s.swim.markDead node incarnation }, .deadSend node wasConnected)
  | .deadSend node wasConnected =>
    some (if wasConnected then s.publish (.peerDisconnected node) else s, .ended)
  | .ended => none

def dispatch : Received (Event × ℕ) → Loop
  | .event _ (.cidWritten cid, _) => .announcing cid
  | .event n (.peerDisconnected node, _) => .sweeping n node 0 ∅
  | .event _ (.shutdownSignal, _) => .stopped
  | .event _ _ | .lagged _ => .waiting

inductive Label where
  | markAlive (node : NodeId) (incarnation : UInt64)
  | markSuspect (node : NodeId) (incarnation : UInt64)
  | markDead (node : NodeId) (incarnation : UInt64)
  | advance (i : ℕ)
  | publish (e : Event)
  | report (cid : Cid) (node : NodeId) (pieceCount : UInt32)
  | record (i : ℕ)
  | recordK (cid : Cid)
  | dht (l : Net.Providers.Label)
  | subscribe
  | receive
  | announced
  | sweep
  | clear (cid : Cid)
  | cleared
  | removed
  | shutdown

def isOther (node : NodeId) (holder : PieceHolder) : Bool := decide (holder.nodeId ≠ node)

/-- Both tables are locked shard by shard: `S` for the providers, `T` for the tracker. -/
def sweepTracker (T : Sharding Cid) (node : NodeId) (j : ℕ) (tracker : PieceTracker) : PieceTracker :=
  { tracker with availability := sweepShard T (isOther node) j tracker.availability }

/-- The contents of a shard that the removal of a node leaves without holders. -/
def emptiedIn (T : Sharding Cid) (node : NodeId) (j : ℕ) (tracker : PieceTracker) : Finset Cid :=
  tracker.availability.keys.filter fun cid =>
    T.shard cid = j ∧ ((tracker.getHolders cid).filter (isOther node)).isEmpty = true

section Steps

variable (S T : Sharding Cid)

def step (s : State) : Label → Option State
  | .markAlive node incarnation =>
    some { s with markings := s.markings ++
      [if node = s.swim.localId then .ended else .alive node incarnation] }
  | .markDead node incarnation =>
    some { s with markings := s.markings ++
      [if node = s.swim.localId then .ended else .dead node incarnation] }
  | .markSuspect node incarnation =>
    some { s with swim := s.swim.markSuspect s.dht.clock node incarnation }
  | .advance i =>
    (s.markings[i]?).bind fun m => (advance s m).map fun r =>
      { r.1 with markings := s.markings.set i r.2 }
  | .publish e => if e.isPeer then none else some (s.publish e)
  | .report cid node pieceCount =>
    some { s with reports := s.reports ++ [(cid, ⟨node, pieceCount, s.dht.clock⟩)] }
  | .record i =>
    (s.reports[i]?).map fun r =>
      { s with
        tracker := s.tracker.recordPiece r.1 r.2
        reports := s.reports.eraseIdx i
        recorded := fun cid node =>
          if cid = r.1 ∧ node = r.2.nodeId then s.dht.clock else s.recorded cid node }
  | .recordK cid => some { s with tracker := s.tracker.recordK cid 32 }
  | .dht l => (Net.Providers.step S s.dht l).map fun dht => { s with dht := dht }
  | .subscribe =>
    match s.loop with
    | .starting => some { s with loop := .waiting }
    | _ => none
  | .receive =>
    match s.loop with
    | .waiting => (s.bus.recv eventBusCapacity).map fun r => { s with bus := r.1, loop := dispatch r.2 }
    | _ => none
  | .announced =>
    match s.loop with
    | .announcing _ => some { s with loop := .waiting }
    | _ => none
  | .sweep =>
    match s.loop with
    | .sweeping n node j emptied =>
      if j < T.count then
        some { s with
          tracker := sweepTracker T node j s.tracker
          loop := .sweeping n node (j + 1) (emptied ∪ emptiedIn T node j s.tracker) }
      else some { s with loop := .clearing n node emptied }
    | _ => none
  | .clear cid =>
    match s.loop with
    | .clearing n node emptied =>
      if cid ∈ emptied then
        some { s with
          tracker := { s.tracker with kValues := s.tracker.kValues.erase cid }
          loop := .clearing n node (emptied.erase cid) }
      else none
    | _ => none
  | .cleared =>
    match s.loop with
    | .clearing n node emptied =>
      if emptied = ∅ then
        some { s with
          dht := { s.dht with tasks := s.dht.tasks ++ [.removeNode node s.dht.clock 0] }
          loop := .removing n node s.dht.tasks.length }
      else none
    | _ => none
  | .removed =>
    match s.loop with
    | .removing _ _ call =>
      match s.dht.tasks[call]? with
      | some (.nodeRemoved _ _) => some { s with loop := .waiting }
      | _ => none
    | _ => none
  | .shutdown =>
    match s.loop with
    | .waiting => some { s with loop := .stopped }
    | _ => none

end Steps

def Marking.mortal : Marking → Option NodeId
  | .dead node _ | .deadSet node _ _ | .deadSend node _ => some node
  | _ => none

section Moves

variable {S T : Sharding Cid} {s s' : State}

/-- The steps, with what each was decided by. -/
inductive Move (S T : Sharding Cid) (s : State) : State → Prop where
  | mark (m : Marking) (foreign : m.mortal ≠ some s.swim.localId) :
      Move S T s { s with markings := s.markings ++ [m] }
  | markSuspect (node : NodeId) (incarnation : UInt64) :
      Move S T s { s with swim := s.swim.markSuspect s.dht.clock node incarnation }
  | advance {i : ℕ} {m m' : Marking} {s' : State} (there : s.markings[i]? = some m)
      (taken : advance s m = some (s', m')) : Move S T s { s' with markings := s.markings.set i m' }
  | publish {e : Event} (other : e.isPeer = false) : Move S T s (s.publish e)
  | report (r : Cid × PieceHolder) : Move S T s { s with reports := s.reports ++ [r] }
  | record {i : ℕ} {cid : Cid} {holder : PieceHolder} (there : s.reports[i]? = some (cid, holder)) :
      Move S T s { s with
        tracker := s.tracker.recordPiece cid holder
        reports := s.reports.eraseIdx i
        recorded := fun other node =>
          if other = cid ∧ node = holder.nodeId then s.dht.clock else s.recorded other node }
  | recordK (cid : Cid) : Move S T s { s with tracker := s.tracker.recordK cid 32 }
  | dht {l : Net.Providers.Label} {dht : Net.Providers.State}
      (taken : Net.Providers.step S s.dht l = some dht) : Move S T s { s with dht := dht }
  | subscribe (here : s.loop = .starting) : Move S T s { s with loop := .waiting }
  | receive {bus : Channel (Event × ℕ)} {r : Received (Event × ℕ)} (here : s.loop = .waiting)
      (turn : Channel.Turn eventBusCapacity s.bus bus r) :
      Move S T s { s with bus := bus, loop := dispatch r }
  | announced {cid : Cid} (here : s.loop = .announcing cid) : Move S T s { s with loop := .waiting }
  | sweep {n : ℕ} {node : NodeId} {j : ℕ} {emptied : Finset Cid}
      (here : s.loop = .sweeping n node j emptied) :
      Move S T s { s with
        tracker := sweepTracker T node j s.tracker
        loop := .sweeping n node (j + 1) (emptied ∪ emptiedIn T node j s.tracker) }
  | swept {n : ℕ} {node : NodeId} {j : ℕ} {emptied : Finset Cid}
      (here : s.loop = .sweeping n node j emptied) (all : T.count ≤ j) :
      Move S T s { s with loop := .clearing n node emptied }
  | clear {n : ℕ} {node : NodeId} {emptied : Finset Cid} (here : s.loop = .clearing n node emptied)
      (cid : Cid) :
      Move S T s { s with
        tracker := { s.tracker with kValues := s.tracker.kValues.erase cid }
        loop := .clearing n node (emptied.erase cid) }
  | cleared {n : ℕ} {node : NodeId} (here : s.loop = .clearing n node ∅) :
      Move S T s { s with
        dht := { s.dht with tasks := s.dht.tasks ++ [.removeNode node s.dht.clock 0] }
        loop := .removing n node s.dht.tasks.length }
  | removed {n : ℕ} {node gone : NodeId} {call since : ℕ} (here : s.loop = .removing n node call)
      (returned : s.dht.tasks[call]? = some (.nodeRemoved gone since)) :
      Move S T s { s with loop := .waiting }
  | shutdown (here : s.loop = .waiting) : Move S T s { s with loop := .stopped }

theorem step_move {l : Label} (taken : step S T s l = some s') : Move S T s s' := by
  cases l with
  | markAlive node incarnation =>
    cases taken
    refine .mark _ ?_
    split <;> simp [Marking.mortal]
  | markDead node incarnation =>
    cases taken
    refine .mark _ ?_
    split
    · simp [Marking.mortal]
    · rename_i foreign
      simpa [Marking.mortal] using foreign
  | markSuspect node incarnation =>
    cases taken
    exact .markSuspect node incarnation
  | advance i =>
    obtain ⟨m, there, moved⟩ := Option.bind_eq_some_iff.mp taken
    obtain ⟨⟨t, m'⟩, advanced, same⟩ := Option.map_eq_some_iff.mp moved
    cases same
    exact .advance there advanced
  | publish e =>
    simp only [step] at taken
    split at taken
    · cases taken
    · rename_i other
      cases taken
      exact .publish (Bool.eq_false_of_not_eq_true other)
  | report cid node pieceCount =>
    cases taken
    exact .report _
  | record i =>
    obtain ⟨⟨cid, holder⟩, there, same⟩ := Option.map_eq_some_iff.mp taken
    cases same
    exact .record there
  | recordK cid =>
    cases taken
    exact .recordK cid
  | dht l =>
    obtain ⟨dht, advanced, same⟩ := Option.map_eq_some_iff.mp taken
    cases same
    exact .dht advanced
  | subscribe =>
    simp only [step] at taken
    split at taken
    · rename_i here
      cases taken
      exact .subscribe here
    · cases taken
  | receive =>
    simp only [step] at taken
    split at taken
    · rename_i here
      obtain ⟨⟨bus, r⟩, received, same⟩ := Option.map_eq_some_iff.mp taken
      cases same
      exact .receive here (recv_turn received)
    · cases taken
  | announced =>
    simp only [step] at taken
    split at taken
    · rename_i here
      cases taken
      exact .announced here
    · cases taken
  | sweep =>
    simp only [step] at taken
    split at taken
    · rename_i here
      split at taken
      · cases taken
        exact .sweep here
      · rename_i all
        cases taken
        exact .swept here (Nat.le_of_not_lt all)
    · cases taken
  | clear cid =>
    simp only [step] at taken
    split at taken
    · rename_i here
      split at taken
      · cases taken
        exact .clear here cid
      · cases taken
    · cases taken
  | cleared =>
    simp only [step] at taken
    split at taken
    · rename_i here
      split at taken
      · rename_i none_
        cases taken
        subst none_
        exact .cleared here
      · cases taken
    · cases taken
  | removed =>
    simp only [step] at taken
    split at taken
    · rename_i here
      split at taken
      · rename_i returned
        cases taken
        exact .removed here returned
      · cases taken
    · cases taken
  | shutdown =>
    simp only [step] at taken
    split at taken
    · rename_i here
      cases taken
      exact .shutdown here
    · cases taken

/-- What a call that marks a peer does in one step: it may change an entry of the table or send one
event, and it sends a departure only of the peer it declares dead. -/
structure Marks (s : State) (m : Marking) (s' : State) (m' : Marking) : Prop where
  loop : s'.loop = s.loop
  tracker : s'.tracker = s.tracker
  dht : s'.dht = s.dht
  recorded : s'.recorded = s.recorded
  localId : s'.swim.localId = s.swim.localId
  bus : s'.bus = s.bus ∨ ∃ e, s'.bus = s.bus.send (e, s.dht.clock) ∧
    ∀ node, e = .peerDisconnected node → m.mortal = some node
  mortal : ∀ node, m'.mortal = some node → m.mortal = some node

theorem publish_bus (s : State) (e : Event) :
    (s.publish e).bus = s.bus ∨ (s.publish e).bus = s.bus.send (e, s.dht.clock) := by
  unfold State.publish
  cases s.loop.subscribed with
  | true => exact .inr rfl
  | false => exact .inl rfl

theorem advance_marks {m m' : Marking} (taken : advance s m = some (s', m')) : Marks s m s' m' := by
  have silent (m : Marking) (swim : SwimMembership) (m' : Marking)
      (same : swim.localId = s.swim.localId)
      (mortal : ∀ node, m'.mortal = some node → m.mortal = some node) :
      Marks s m { s with swim := swim } m' := ⟨rfl, rfl, rfl, rfl, same, .inl rfl, mortal⟩
  cases m with
  | alive node incarnation =>
    cases taken
    exact silent _ s.swim _ rfl (by simp [Marking.mortal])
  | aliveSet node incarnation isNew =>
    cases taken
    exact silent _ _ _ (@localId_mark s.swim 0 node (.alive incarnation)) (by simp [Marking.mortal])
  | aliveSend node isNew =>
    cases taken
    cases isNew with
    | false => exact silent _ s.swim _ rfl (by simp [Marking.mortal])
    | true =>
      refine ⟨rfl, rfl, rfl, rfl, rfl, ?_, by simp [Marking.mortal]⟩
      refine (publish_bus s (.peerConnected node)).imp id fun sent => ⟨_, sent, ?_⟩
      intro other is
      cases is
  | dead node incarnation =>
    cases taken
    exact silent _ s.swim _ rfl (by simp [Marking.mortal])
  | deadSet node incarnation wasConnected =>
    cases taken
    exact silent _ _ _ (@localId_mark s.swim 0 node (.dead incarnation)) (by simp [Marking.mortal])
  | deadSend node wasConnected =>
    cases taken
    cases wasConnected with
    | false => exact silent _ s.swim _ rfl (by simp [Marking.mortal])
    | true =>
      refine ⟨rfl, rfl, rfl, rfl, rfl, ?_, by simp [Marking.mortal]⟩
      refine (publish_bus s (.peerDisconnected node)).imp id fun sent => ⟨_, sent, ?_⟩
      intro other is
      cases is
      rfl
  | ended => cases taken

end Moves

/-- The removal of a node that a call of the provider table is, with the time it was called at. -/
def removal : Net.Providers.Task → Option (NodeId × ℕ)
  | .removeNode node since _ | .nodeRemoved node since => some (node, since)
  | _ => none

/-- What every step leaves of the tables, the bus and the calls: whatever is new in a table was put
there at the time of the step. -/
structure Later (s s' : State) : Prop where
  clock : s.dht.clock ≤ s'.dht.clock
  sent : s.bus.sent <+: s'.bus.sent
  holders : ∀ cid, ∀ h ∈ s'.tracker.getHolders cid, s.dht.clock ≤ s'.recorded cid h.nodeId ∨
    s'.recorded cid h.nodeId = s.recorded cid h.nodeId ∧
      ∃ old ∈ s.tracker.getHolders cid, old.nodeId = h.nodeId
  records : ∀ cid, ∀ r ∈ rows s'.dht.dht.localProviders cid,
    r ∈ rows s.dht.dht.localProviders cid ∨ s.dht.clock ≤ r.announcedAt
  calls : ∀ (i : ℕ) (d : NodeId × ℕ), (s.dht.tasks[i]?).bind removal = some d →
    (s'.dht.tasks[i]?).bind removal = some d

section Tables

variable {S T : Sharding Cid} {s s' : State}

theorem Later.of_tables (dht : s'.dht = s.dht) (tracker : s'.tracker.getHolders = s.tracker.getHolders)
    (recorded : s'.recorded = s.recorded) (sent : s.bus.sent <+: s'.bus.sent) : Later s s' where
  clock := by rw [dht]
  sent := sent
  holders cid h listed := by
    rw [tracker] at listed
    rw [recorded]
    exact .inr ⟨rfl, h, listed, rfl⟩
  records cid r listed := by
    rw [dht] at listed
    exact .inl listed
  calls i d is := by rwa [dht]

theorem sent_of_bus {e : Event} (bus : s'.bus = s.bus ∨ s'.bus = s.bus.send (e, s.dht.clock)) :
    s.bus.sent <+: s'.bus.sent := by
  rcases bus with same | grown
  · rw [same]
  · rw [grown]
    exact List.prefix_append _ _

theorem removal_of_advance {dht dht' : Handler.DhtProviders} {clock : ℕ} {t t' : Net.Providers.Task}
    (move : Net.Providers.Move S dht clock t dht' t') {d : NodeId × ℕ} (is : removal t = some d) :
    removal t' = some d := by
  cases move with
  | removeNode | nodeRemoved => exact is
  | announce | removeFilter | removeClean | pruneStart | prune => cases is

theorem providers_later {dht : Net.Providers.State} {l : Net.Providers.Label}
    (taken : Net.Providers.step S s.dht l = some dht) : Later s { s with dht := dht } := by
  have kept (cid : Cid) (h : PieceHolder) (listed : h ∈ s.tracker.getHolders cid) :
      s.dht.clock ≤ s.recorded cid h.nodeId ∨ s.recorded cid h.nodeId = s.recorded cid h.nodeId ∧
        ∃ old ∈ s.tracker.getHolders cid, old.nodeId = h.nodeId := .inr ⟨rfl, h, listed, rfl⟩
  cases l with
  | call c =>
    cases taken
    refine ⟨le_rfl, List.prefix_rfl, kept, fun cid r => .inl, fun i d is => ?_⟩
    obtain ⟨t, there, same⟩ := Option.bind_eq_some_iff.mp is
    have inside := (List.getElem?_eq_some_iff.mp there).1
    exact Option.bind_eq_some_iff.mpr ⟨t, (List.getElem?_append_left inside).trans there, same⟩
  | tick elapsed =>
    cases taken
    exact ⟨Nat.le_add_right _ _, List.prefix_rfl, kept, fun cid r => .inl, fun i d is => is⟩
  | advance i found =>
    obtain ⟨t, there, moved⟩ := Option.bind_eq_some_iff.mp taken
    obtain ⟨⟨table, t'⟩, advanced, same⟩ := Option.map_eq_some_iff.mp moved
    cases same
    have move := advance_move advanced
    refine ⟨le_rfl, List.prefix_rfl, kept, fun cid r listed => ?_, fun k d is => ?_⟩
    · exact (move.arrive listed).imp id Eq.ge
    · change ((s.dht.tasks.set i t')[k]?).bind removal = some d
      rw [List.getElem?_set]
      by_cases here : i = k
      · subst here
        rw [there] at is
        rw [if_pos rfl, if_pos (List.getElem?_eq_some_iff.mp there).1]
        exact removal_of_advance move is
      · rwa [if_neg here]

theorem holders_recordPiece {tracker : PieceTracker} {cid other : Cid} {holder h : PieceHolder}
    (listed : h ∈ (tracker.recordPiece cid holder).getHolders other) :
    other = cid ∧ h.nodeId = holder.nodeId ∨ h ∈ tracker.getHolders other := by
  by_cases here : other = cid
  · subst here
    rw [getHolders_recordPiece_self] at listed
    generalize tracker.getHolders other = holders at listed
    induction holders with
    | nil => exact .inl ⟨rfl, congrArg _ (List.mem_singleton.mp listed)⟩
    | cons first rest ih =>
      rw [updateFirst] at listed
      split at listed
      · rename_i own
        rcases List.mem_cons.mp listed with rfl | after
        · exact .inl ⟨rfl, of_decide_eq_true own⟩
        · exact .inr (List.mem_cons_of_mem _ after)
      · rcases List.mem_cons.mp listed with rfl | after
        · exact .inr List.mem_cons_self
        · exact (ih after).imp id (List.mem_cons_of_mem _)
  · rw [getHolders_recordPiece_of_ne here] at listed
    exact .inr listed

theorem holders_sweepTracker {tracker : PieceTracker} {node : NodeId} {j : ℕ} {cid : Cid} :
    (sweepTracker T node j tracker).getHolders cid =
      if T.shard cid = j then (tracker.getHolders cid).filter (isOther node)
      else tracker.getHolders cid := rows_sweepShard

theorem Move.later (move : Move S T s s') : Later s s' := by
  cases move with
  | mark | markSuspect | report | subscribe | announced | swept | clear | removed | shutdown =>
    exact .of_tables rfl rfl rfl List.prefix_rfl
  | @advance i m m' t there taken =>
    have marks := advance_marks taken
    refine .of_tables marks.dht (congrArg PieceTracker.getHolders marks.tracker) marks.recorded ?_
    rcases marks.bus with same | ⟨e, grown, _⟩
    · exact @sent_of_bus s t .shutdownSignal (.inl same)
    · exact @sent_of_bus s t e (.inr grown)
  | publish other => exact .of_tables rfl rfl rfl (sent_of_bus (publish_bus s _))
  | receive here turn =>
    refine .of_tables rfl rfl rfl ?_
    rw [turn.sent_eq]
  | recordK cid =>
    refine .of_tables rfl ?_ rfl List.prefix_rfl
    funext other
    exact getHolders_recordK cid 32
  | dht taken => exact providers_later taken
  | @record i cid holder there =>
    refine ⟨le_rfl, List.prefix_rfl, fun other h listed => ?_, fun other r => .inl, fun k d is => is⟩
    simp only
    by_cases own : other = cid ∧ h.nodeId = holder.nodeId
    · rw [if_pos own]
      exact .inl le_rfl
    · rw [if_neg own]
      exact .inr ⟨rfl, h, (holders_recordPiece listed).resolve_left own, rfl⟩
  | sweep here =>
    refine ⟨le_rfl, List.prefix_rfl, fun cid h listed => ?_, fun cid r => .inl, fun k d is => is⟩
    refine .inr ⟨rfl, h, ?_, rfl⟩
    rw [holders_sweepTracker] at listed
    split at listed
    · exact (List.mem_filter.mp listed).1
    · exact listed
  | @cleared n node here =>
    refine ⟨le_rfl, List.prefix_rfl, fun cid h listed => .inr ⟨rfl, h, listed, rfl⟩, fun cid r => .inl, ?_⟩
    intro i d is
    obtain ⟨t, there, same⟩ := Option.bind_eq_some_iff.mp is
    have inside := (List.getElem?_eq_some_iff.mp there).1
    exact Option.bind_eq_some_iff.mpr ⟨t, (List.getElem?_append_left inside).trans there, same⟩

end Tables

/-- In the first shards, what the tracker has of the node came in after the stamp. -/
def Unheld (T : Sharding Cid) (s : State) (node : NodeId) (stamp j : ℕ) : Prop :=
  ∀ cid, T.shard cid < j → ∀ h ∈ s.tracker.getHolders cid, h.nodeId = node → stamp ≤ s.recorded cid node

/-- What either table has of the node came in after the stamp. -/
def Forgotten (s : State) (node : NodeId) (stamp : ℕ) : Prop :=
  (∀ cid, ∀ h ∈ s.tracker.getHolders cid, h.nodeId = node → stamp ≤ s.recorded cid node) ∧
    ∀ cid, ∀ r ∈ rows s.dht.dht.localProviders cid, r.nodeId = node → stamp ≤ r.announcedAt

def Loop.Works (T : Sharding Cid) (s : State) : Loop → Prop
  | .sweeping n node j _ => ∃ stamp, s.bus.sent[n]? = some (.peerDisconnected node, stamp) ∧
      stamp ≤ s.dht.clock ∧ Unheld T s node stamp j
  | .clearing n node _ => ∃ stamp, s.bus.sent[n]? = some (.peerDisconnected node, stamp) ∧
      stamp ≤ s.dht.clock ∧ Unheld T s node stamp T.count
  | .removing n node call => ∃ stamp, s.bus.sent[n]? = some (.peerDisconnected node, stamp) ∧
      stamp ≤ s.dht.clock ∧ Unheld T s node stamp T.count ∧
      ∃ since, stamp ≤ since ∧ (s.dht.tasks[call]?).bind removal = some (node, since)
  | .starting | .waiting | .announcing _ | .stopped => True

structure Sound (S T : Sharding Cid) (s : State) : Prop where
  dht : Net.Providers.Sound S s.dht
  bus : s.bus.Sound eventBusCapacity
  stamped : ∀ e ∈ s.bus.sent, e.2 ≤ s.dht.clock
  works : s.loop.Works T s
  passed : ∀ n node stamp, n < s.bus.next → s.bus.sent[n]? = some (.peerDisconnected node, stamp) →
    n ∈ s.bus.missed ∨ s.loop.number = some n ∨ Forgotten s node stamp

section Runs

variable {S T : Sharding Cid} {s s' : State} {node : NodeId} {stamp : ℕ}

theorem Later.unheld {j : ℕ} (later : Later s s') (early : stamp ≤ s.dht.clock)
    (unheld : Unheld T s node stamp j) : Unheld T s' node stamp j := by
  intro cid first h listed own
  subst own
  rcases later.holders cid h listed with new | ⟨same, old, there, own⟩
  · exact early.trans new
  · rw [same]
    exact unheld cid first old there own

theorem Later.forgotten (later : Later s s') (early : stamp ≤ s.dht.clock)
    (forgotten : Forgotten s node stamp) : Forgotten s' node stamp := by
  constructor
  · intro cid h listed own
    subst own
    rcases later.holders cid h listed with new | ⟨same, old, there, own⟩
    · exact early.trans new
    · rw [same]
      exact forgotten.1 cid old there own
  · intro cid r listed own
    rcases later.records cid r listed with old | new
    · exact forgotten.2 cid r old own
    · exact early.trans new

theorem Later.getElem? (later : Later s s') {n : ℕ} {e : Event × ℕ} (there : s.bus.sent[n]? = some e) :
    s'.bus.sent[n]? = some e := by
  obtain ⟨rest, grown⟩ := later.sent
  rw [← grown, List.getElem?_append_left (List.getElem?_eq_some_iff.mp there).1, there]

theorem Later.works {l : Loop} (later : Later s s') (works : l.Works T s) : l.Works T s' := by
  cases l with
  | starting | waiting | announcing | stopped => trivial
  | sweeping n node j emptied =>
    obtain ⟨stamp, there, early, unheld⟩ := works
    exact ⟨stamp, later.getElem? there, early.trans later.clock, later.unheld early unheld⟩
  | clearing n node emptied =>
    obtain ⟨stamp, there, early, unheld⟩ := works
    exact ⟨stamp, later.getElem? there, early.trans later.clock, later.unheld early unheld⟩
  | removing n node call =>
    obtain ⟨stamp, there, early, unheld, since, order, called⟩ := works
    exact ⟨stamp, later.getElem? there, early.trans later.clock, later.unheld early unheld, since, order,
      later.calls call _ called⟩

theorem Sound.passed_of (sound : Sound S T s) (later : Later s s')
    (missed : ∀ n ∈ s.bus.missed, n ∈ s'.bus.missed)
    (number : ∀ n node stamp, s.loop.number = some n →
      s.bus.sent[n]? = some (.peerDisconnected node, stamp) →
      s'.loop.number = some n ∨ Forgotten s' node stamp)
    {n : ℕ} (before : n < s.bus.next) (there : s'.bus.sent[n]? = some (.peerDisconnected node, stamp)) :
    n ∈ s'.bus.missed ∨ s'.loop.number = some n ∨ Forgotten s' node stamp := by
  have inside : n < s.bus.sent.length := before.trans_le sound.bus.behind
  have already : s.bus.sent[n]? = some (.peerDisconnected node, stamp) := by
    rw [← there]
    have found := later.getElem? (List.getElem?_eq_getElem inside)
    rw [found, List.getElem?_eq_getElem inside]
  rcases sound.passed n node stamp before already with lost | working | forgotten
  · exact .inl (missed n lost)
  · exact .inr (number n node stamp working already)
  · have early := sound.stamped _ (List.mem_of_getElem? already)
    exact .inr (.inr (later.forgotten early forgotten))

theorem Sound.outside (sound : Sound S T s) (later : Later s s') (dht : Net.Providers.Sound S s'.dht)
    (bus : s'.bus = s.bus ∨ ∃ e, s'.bus = s.bus.send (e, s.dht.clock)) (loop : s'.loop = s.loop) :
    Sound S T s' := by
  have place : s'.bus.next = s.bus.next ∧ s'.bus.missed = s.bus.missed := by
    rcases bus with same | ⟨e, grown⟩
    · rw [same]
      exact ⟨rfl, rfl⟩
    · rw [grown]
      exact ⟨rfl, rfl⟩
  refine ⟨dht, ?_, ?_, ?_, ?_⟩
  · rcases bus with same | ⟨e, grown⟩
    · rw [same]
      exact sound.bus
    · rw [grown]
      exact sound.bus.send _
  · intro e listed
    rcases bus with same | ⟨e', grown⟩
    · rw [same] at listed
      exact (sound.stamped e listed).trans later.clock
    · rw [grown] at listed
      rcases List.mem_append.mp listed with old | new
      · exact (sound.stamped e old).trans later.clock
      · rw [List.mem_singleton.mp new]
        exact later.clock
  · rw [loop]
    exact later.works sound.works
  · intro n node stamp before there
    rw [place.1] at before
    refine sound.passed_of later (fun k lost => place.2 ▸ lost) ?_ before there
    intro k _ _ working _
    exact .inl (loop ▸ working)

theorem Sound.inside (sound : Sound S T s) (later : Later s s') (dht : Net.Providers.Sound S s'.dht)
    (bus : s'.bus = s.bus) (works : s'.loop.Works T s')
    (number : ∀ n node stamp, s.loop.number = some n →
      s.bus.sent[n]? = some (.peerDisconnected node, stamp) →
      s'.loop.number = some n ∨ Forgotten s' node stamp) : Sound S T s' where
  dht := dht
  bus := by
    rw [bus]
    exact sound.bus
  stamped e listed := by
    rw [bus] at listed
    exact (sound.stamped e listed).trans later.clock
  works := works
  passed n node stamp before there := by
    rw [bus] at before
    exact sound.passed_of later (fun k lost => bus ▸ lost) number before there

theorem Unheld.all (unheld : Unheld T s node stamp T.count) (cid : Cid) :
    ∀ h ∈ s.tracker.getHolders cid, h.nodeId = node → stamp ≤ s.recorded cid node :=
  unheld cid (T.below cid)

theorem unheld_sweep {j : ℕ} (unheld : Unheld T s node stamp j) (emptied : Finset Cid) (n : ℕ) :
    Unheld T { s with
      tracker := sweepTracker T node j s.tracker
      loop := .sweeping n node (j + 1) emptied } node stamp (j + 1) := by
  intro cid first h listed own
  have listed' : h ∈ if T.shard cid = j then (s.tracker.getHolders cid).filter (isOther node)
      else s.tracker.getHolders cid := holders_sweepTracker ▸ listed
  split at listed'
  · exact absurd own (of_decide_eq_true (List.mem_filter.mp listed').2)
  · rename_i elsewhere
    exact unheld cid (Nat.lt_of_le_of_ne (Nat.le_of_lt_succ first) elsewhere) h listed' own

theorem dispatch_works {bus : Channel (Event × ℕ)} {r : Received (Event × ℕ)} (sound : Sound S T s)
    (turn : Channel.Turn eventBusCapacity s.bus bus r) :
    (dispatch r).Works T { s with bus := bus, loop := dispatch r } := by
  cases turn with
  | lagged far => trivial
  | @event e near there =>
    obtain ⟨event, stamp⟩ := e
    cases event with
    | peerDisconnected node =>
      refine ⟨stamp, there, sound.stamped _ (List.mem_of_getElem? there), ?_⟩
      intro cid first
      exact absurd first (Nat.not_lt_zero _)
    | cidWritten | pageCommitted | peerConnected | repairNeeded | diskWatermarkHit | shutdownSignal =>
      trivial

theorem Move.sound (move : Move S T s s') (sound : Sound S T s) : Sound S T s' := by
  have later := move.later
  have works := sound.works
  cases move with
  | mark | markSuspect | report | record | recordK =>
    exact sound.outside later sound.dht (.inl rfl) rfl
  | dht taken => exact sound.outside later (Net.Providers.step_sound sound.dht taken) (.inl rfl) rfl
  | publish other =>
    refine sound.outside later sound.dht ?_ rfl
    exact (publish_bus s _).imp id fun sent => ⟨_, sent⟩
  | @advance i m m' t there taken =>
    have marks := advance_marks taken
    refine sound.outside later ?_ ?_ marks.loop
    · change Net.Providers.Sound S t.dht
      rw [marks.dht]
      exact sound.dht
    · exact marks.bus.imp id fun ⟨e, grown, _⟩ => ⟨e, grown⟩
  | subscribe here | announced here | shutdown here =>
    refine sound.inside later sound.dht rfl trivial ?_
    intro n node stamp working
    rw [here] at working
    cases working
  | @receive bus r here turn =>
    have kept : bus.sent = s.bus.sent := turn.sent_eq
    refine ⟨sound.dht, turn.sound sound.bus, ?_, dispatch_works sound turn, ?_⟩
    · intro e listed
      exact sound.stamped e (kept ▸ listed)
    · intro n node stamp before there
      rcases turn.cases_passed before with old | lost | ⟨e, rfl, found⟩
      · refine sound.passed_of later (fun k => turn.missed_of) ?_ old there
        intro k _ _ working
        rw [here] at working
        cases working
      · exact .inl lost
      · change bus.sent[n]? = _ at there
        rw [kept, found] at there
        cases there
        exact .inr (.inl rfl)
  | @sweep n node j emptied here =>
    rw [here] at works
    obtain ⟨stamp, there, early, unheld⟩ := works
    refine sound.inside later sound.dht rfl ⟨stamp, there, early, unheld_sweep unheld _ n⟩ ?_
    intro k _ _ working _
    rw [here] at working
    exact .inl working
  | @swept n node j emptied here all =>
    rw [here] at works
    obtain ⟨stamp, there, early, unheld⟩ := works
    refine sound.inside later sound.dht rfl ⟨stamp, there, early, ?_⟩ ?_
    · intro cid first
      exact unheld cid (first.trans_le all)
    · intro k _ _ working _
      rw [here] at working
      exact .inl working
  | @clear n node emptied here cid =>
    rw [here] at works
    refine sound.inside later sound.dht rfl works ?_
    intro k _ _ working _
    rw [here] at working
    exact .inl working
  | @cleared n node here =>
    rw [here] at works
    obtain ⟨stamp, there, early, unheld⟩ := works
    refine sound.inside later ?_ rfl ⟨stamp, there, early, unheld, s.dht.clock, early, ?_⟩ ?_
    · exact @Net.Providers.step_sound S s.dht _ (.call (.removeNode node)) sound.dht rfl
    · exact congrArg (Option.bind · removal) List.getElem?_concat_length
    · intro k _ _ working _
      rw [here] at working
      exact .inl working
  | @removed n node gone call since here returned =>
    rw [here] at works
    obtain ⟨stamp, there, early, unheld, since', order, called⟩ := works
    rw [returned] at called
    cases called
    have watched := sound.dht.watched _ (List.mem_of_getElem? returned)
    refine sound.inside later sound.dht rfl trivial ?_
    intro k other stamp' working found
    rw [here] at working
    cases working
    rw [there] at found
    cases found
    exact .inr ⟨unheld.all, fun cid r listed own => order.trans (watched.2 cid r listed own)⟩

theorem sound_new (localId : NodeId) : Sound S T (.new localId) where
  dht := Net.Providers.sound_new
  bus := Channel.sound_new
  stamped e listed := by cases listed
  works := trivial
  passed n node stamp before := absurd before (Nat.not_lt_zero n)

theorem reach_sound {localId : NodeId} (reach : Reach (step S T) anyStep (.new localId) s) :
    Sound S T s :=
  reach.invariant (sound_new localId) fun _ _ _ sound _ taken => (step_move taken).sound sound

theorem reach_getElem? (reach : Reach (step S T) anyStep s s') {n : ℕ} {e : Event × ℕ}
    (there : s.bus.sent[n]? = some e) : s'.bus.sent[n]? = some e :=
  @Reach.invariant _ _ _ _ (fun u => u.bus.sent[n]? = some e) _ _ reach there
    fun _ _ _ before _ taken => (step_move taken).later.getElem? before

theorem bus_deadSend {i : ℕ} (called : s.markings[i]? = some (.deadSend node true))
    (taken : step S T s (.advance i) = some s') :
    s'.bus = if s.loop.subscribed then s.bus.send (.peerDisconnected node, s.dht.clock) else s.bus := by
  simp only [step, called, Option.bind_some, advance, if_true, Option.map_some] at taken
  cases taken
  rfl

end Runs

end Craftec.Node.Departures
