/- GID: Craftec/Net/Swim
   generality: I
   digest: The membership table of one node, its updates, message handlers and protocol tick. -/

import Mathlib.Data.Finmap
import Mathlib.Data.List.Sort
import Craftec.Types.Digest
import Craftec.Types.Wire

set_option autoImplicit false
set_option relaxedAutoImplicit false

namespace Craftec.Net.Swim

open Craftec.Types.Digest (Bytes32 NodeId)
open Craftec.Types.Wire (WireMessage)

/-- The observed liveness of a member; instants are milliseconds of the machine's
monotonic clock. -/
inductive MemberState where
  | alive (incarnation : UInt64)
  | suspect (incarnation : UInt64) (since : ℕ)
  | dead (incarnation : UInt64)
  deriving DecidableEq

def MemberState.incarnation : MemberState → UInt64
  | .alive inc | .suspect inc _ | .dead inc => inc

def MemberState.isAlive : MemberState → Bool
  | .alive _ => true
  | _ => false

/-- What `mark_alive` makes of an entry. -/
def MemberState.onAlive (incarnation : UInt64) : MemberState → MemberState
  | .alive inc => if incarnation ≤ inc then .alive inc else .alive incarnation
  | .suspect inc since => if incarnation < inc then .suspect inc since else .alive incarnation
  | .dead inc => if incarnation ≤ inc then .dead inc else .alive incarnation

/-- What `mark_suspect` makes of an entry. -/
def MemberState.onSuspect (incarnation : UInt64) (now : ℕ) : MemberState → MemberState
  | .alive inc => if inc ≤ incarnation then .suspect incarnation now else .alive inc
  | .suspect inc since => if inc < incarnation then .suspect incarnation now else .suspect inc since
  | .dead inc => .dead inc

/-- What `mark_dead` makes of an entry; only a dead one is compared. -/
def MemberState.onDead (incarnation : UInt64) : MemberState → MemberState
  | .dead inc => if inc < incarnation then .dead incarnation else .dead inc
  | _ => .dead incarnation

/-- The concurrent map of members. Nothing depends on an order of its entries
except an iteration, which is given the order it happens to see. -/
abbrev Members := Finmap fun _ : NodeId => MemberState

/-- `entry(node).and_modify(..).or_insert_with(..)`, one atomic access. -/
def Members.modifyOrInsert (m : Members) (node : NodeId) (modify : MemberState → MemberState)
    (fresh : MemberState) : Members :=
  m.insert node (match m.lookup node with
    | some state => modify state
    | none => fresh)

/-- The entries in the order of an iteration. -/
def Members.listed (m : Members) (order : List NodeId) : List (NodeId × MemberState) :=
  order.filterMap fun node => (m.lookup node).map fun state => (node, state)

inductive Receiver where
  | direct (probe : ℕ)
  | indirect (probe : ℕ)
  deriving DecidableEq

/-- The table and the counters of one node. `acks` holds what has been sent on
the channels of resolved probes. -/
structure SwimMembership where
  members : Members
  incarnation : UInt64
  localId : NodeId
  suspectTimeout : ℕ
  probeIndex : UInt64
  probeNonce : UInt64
  pendingProbes : Finmap fun _ : UInt64 => Receiver
  acks : List (Receiver × UInt64)
  tickCount : UInt64

def SwimMembership.new (localId : NodeId) : SwimMembership where
  members := ∅
  incarnation := 0
  localId := localId
  suspectTimeout := 5000
  probeIndex := 0
  probeNonce := 0
  pendingProbes := ∅
  acks := []
  tickCount := 0

namespace SwimMembership

def markAlive (s : SwimMembership) (node : NodeId) (incarnation : UInt64) : SwimMembership :=
  if node = s.localId then s
  else
    { s with
      members := s.members.modifyOrInsert node (MemberState.onAlive incarnation) (.alive incarnation) }

def markSuspect (s : SwimMembership) (now : ℕ) (node : NodeId) (incarnation : UInt64) :
    SwimMembership :=
  if node = s.localId then { s with incarnation := s.incarnation + 1 }
  else
    { s with
      members := s.members.modifyOrInsert node (MemberState.onSuspect incarnation now)
        (.suspect incarnation now) }

def markDead (s : SwimMembership) (node : NodeId) (incarnation : UInt64) : SwimMembership :=
  if node = s.localId then s
  else
    { s with
      members := s.members.modifyOrInsert node (MemberState.onDead incarnation) (.dead incarnation) }

def memberCount (s : SwimMembership) : ℕ := s.members.keys.card

def aliveMembers (s : SwimMembership) (order : List NodeId) : List NodeId :=
  ((s.members.listed order).filter fun e => e.2.isAlive).map Prod.fst

def lastKnownIncarnation (s : SwimMembership) (node : NodeId) : UInt64 :=
  match s.members.lookup node with
  | some state => state.incarnation
  | none => 0

/-- Insert the sender of a channel under `nonce`, dropping a sender that was there. -/
def register (s : SwimMembership) (nonce : UInt64) (receiver : Receiver) : SwimMembership :=
  { s with pendingProbes := s.pendingProbes.insert nonce receiver }

/-- Take the sender under `nonce`, if any, and send on it. -/
def resolveProbe (s : SwimMembership) (nonce incarnation : UInt64) : SwimMembership :=
  match s.pendingProbes.lookup nonce with
  | some receiver =>
    { s with pendingProbes := s.pendingProbes.erase nonce, acks := s.acks ++ [(receiver, incarnation)] }
  | none => s

end SwimMembership

/-- One of the three updates a node receives about a peer. -/
inductive Update where
  | alive (incarnation : UInt64)
  | suspect (incarnation : UInt64)
  | dead (incarnation : UInt64)
  deriving DecidableEq

def SwimMembership.mark (s : SwimMembership) (now : ℕ) (node : NodeId) : Update → SwimMembership
  | .alive incarnation => s.markAlive node incarnation
  | .suspect incarnation => s.markSuspect now node incarnation
  | .dead incarnation => s.markDead node incarnation

/-- One atomic access made while a message is handled. -/
inductive Op where
  | mark (node : NodeId) (u : Update)
  | resolve (fromNode : NodeId) (nonce incarnation : UInt64)

def SwimMembership.perform (s : SwimMembership) (now : ℕ) : Op → SwimMembership
  | .mark node u => s.mark now node u
  | .resolve _ nonce incarnation => s.resolveProbe nonce incarnation

mutual

/-- `SwimMembership::handle_message`: the table after a message and the messages
to pass on. Time does not move within the call; where it does, see the runs. -/
def handleMessage (now : ℕ) (s : SwimMembership) : WireMessage → SwimMembership × List WireMessage
  | .swimJoin node _ =>
    let s' := s.markAlive node 0
    (s', [.swimAlive s'.localId s'.incarnation])
  | .swimAlive node incarnation =>
    (s.markAlive node incarnation, [.swimAlive node incarnation])
  | .swimSuspect node incarnation fromNode =>
    (s.markSuspect now node incarnation, [.swimSuspect node incarnation fromNode])
  | .swimDead node incarnation fromNode =>
    (s.markDead node incarnation, [.swimDead node incarnation fromNode])
  | .swimPing _ nonce piggyback =>
    let (s', responses) := handlePiggyback now s piggyback
    (s', responses ++ [.swimPingAck s'.localId nonce s'.incarnation])
  | .swimPingAck fromNode nonce incarnation =>
    ((s.markAlive fromNode incarnation).resolveProbe nonce incarnation, [])
  | _ => (s, [])

def handlePiggyback (now : ℕ) (s : SwimMembership) :
    List WireMessage → SwimMembership × List WireMessage
  | [] => (s, [])
  | msg :: rest =>
    let (s', responses) := handleMessage now s msg
    let (s'', later) := handlePiggyback now s' rest
    (s'', responses ++ later)

end

/-- `handle_swim_msg` of the endpoint: the table after a message and the reply. -/
def handleSwimMsg (now : ℕ) (s : SwimMembership) : WireMessage → SwimMembership × Option WireMessage
  | .swimPingAck fromNode nonce incarnation =>
    ((s.resolveProbe nonce incarnation).markAlive fromNode incarnation, none)
  | .swimPing fromNode nonce piggyback =>
    let s' := (handlePiggyback now (s.markAlive fromNode 0) piggyback).1
    (s', some (.swimPingAck s'.localId nonce s'.incarnation))
  | .swimAlive node incarnation => (s.markAlive node incarnation, none)
  | .swimSuspect node incarnation _ => (s.markSuspect now node incarnation, none)
  | .swimDead node incarnation _ => (s.markDead node incarnation, none)
  | .swimJoin node _ =>
    let s' := s.markAlive node 0
    (s', some (.swimAlive s'.localId s'.incarnation))
  | _ => (s, none)

/-- `max(4, ceil(log2(n)))`. -/
def adaptivePiggybackCount (n : ℕ) : ℕ :=
  if n ≤ 16 then 4
  else max (if n = 2 ^ n.log2 then n.log2 else n.log2 + 1) 4

def MemberState.priority : MemberState → ℕ
  | .alive _ => 0
  | .suspect _ _ => 1
  | .dead _ => 2

def gossipMsg (localId : NodeId) : NodeId × MemberState → WireMessage
  | (node, .alive incarnation) => .swimAlive node incarnation
  | (node, .suspect incarnation _) => .swimSuspect node incarnation localId
  | (node, .dead incarnation) => .swimDead node incarnation localId

/-- `sort_by_key`, which is stable. -/
def sortByPriority (pairs : List (NodeId × MemberState)) : List (NodeId × MemberState) :=
  pairs.insertionSort fun a b => a.2.priority ≤ b.2.priority

namespace SwimMembership

def collectGossipMsgs (s : SwimMembership) (order : List NodeId) (limit : ℕ) : List WireMessage :=
  ((sortByPriority (s.members.listed order)).take limit).map (gossipMsg s.localId)

/-- The suspects whose time is up, with the incarnation they are suspected at. -/
def expired (s : SwimMembership) (now : ℕ) (order : List NodeId) : List (NodeId × UInt64) :=
  (s.members.listed order).filterMap fun e =>
    match e.2 with
    | .suspect incarnation since =>
      if s.suspectTimeout ≤ now - since then some (e.1, incarnation) else none
    | _ => none

def expireSuspects (s : SwimMembership) (now : ℕ) (order : List NodeId) : SwimMembership :=
  (s.expired now order).foldl (fun s e => s.markDead e.1 e.2) s

/-- `protocol_tick` when nothing else runs; `order` is the order of its iterations. -/
def protocolTick (s : SwimMembership) (now : ℕ) (order : List NodeId) :
    SwimMembership × List (NodeId × WireMessage) :=
  let s := s.expireSuspects now order
  let alive := s.aliveMembers order
  let s := { s with tickCount := s.tickCount + 1 }
  match alive[s.probeIndex.toNat % alive.length]? with
  | none => (s, [])
  | some target =>
    let piggyback := s.collectGossipMsgs order (adaptivePiggybackCount alive.length)
    let ping := .swimPing s.localId s.probeNonce piggyback
    ({ s with probeIndex := s.probeIndex + 1, probeNonce := s.probeNonce + 1 }, [(target, ping)])

end SwimMembership

section Lookup

variable {m : Members} {node other : NodeId}

theorem lookup_modifyOrInsert_self (modify : MemberState → MemberState) (fresh : MemberState) :
    (m.modifyOrInsert node modify fresh).lookup node = some (match m.lookup node with
      | some state => modify state
      | none => fresh) :=
  Finmap.lookup_insert m

theorem lookup_modifyOrInsert_of_ne (apart : other ≠ node) (modify : MemberState → MemberState)
    (fresh : MemberState) : (m.modifyOrInsert node modify fresh).lookup other = m.lookup other :=
  Finmap.lookup_insert_of_ne m apart

end Lookup

section Marks

variable {s : SwimMembership} {now : ℕ} {node other : NodeId}

def Update.modify (now : ℕ) : Update → MemberState → MemberState
  | .alive incarnation => .onAlive incarnation
  | .suspect incarnation => .onSuspect incarnation now
  | .dead incarnation => .onDead incarnation

/-- The entry an update writes for a peer that is not in the table yet. -/
def Update.fresh (now : ℕ) : Update → MemberState
  | .alive incarnation => .alive incarnation
  | .suspect incarnation => .suspect incarnation now
  | .dead incarnation => .dead incarnation

/-- When an update is written over an entry; otherwise the entry stays as it is. -/
def Update.Replaces : Update → MemberState → Prop
  | .alive incarnation, .alive inc => inc < incarnation
  | .alive incarnation, .suspect inc _ => inc ≤ incarnation
  | .alive incarnation, .dead inc => inc < incarnation
  | .suspect incarnation, .alive inc => inc ≤ incarnation
  | .suspect incarnation, .suspect inc _ => inc < incarnation
  | .suspect _, .dead _ => False
  | .dead incarnation, .dead inc => inc < incarnation
  | .dead _, .alive _ => True
  | .dead _, .suspect _ _ => True

instance : ∀ (u : Update) (state : MemberState), Decidable (u.Replaces state)
  | .alive incarnation, .alive inc => inferInstanceAs (Decidable (inc < incarnation))
  | .alive incarnation, .suspect inc _ => inferInstanceAs (Decidable (inc ≤ incarnation))
  | .alive incarnation, .dead inc => inferInstanceAs (Decidable (inc < incarnation))
  | .suspect incarnation, .alive inc => inferInstanceAs (Decidable (inc ≤ incarnation))
  | .suspect incarnation, .suspect inc _ => inferInstanceAs (Decidable (inc < incarnation))
  | .suspect _, .dead _ => isFalse id
  | .dead incarnation, .dead inc => inferInstanceAs (Decidable (inc < incarnation))
  | .dead _, .alive _ => isTrue trivial
  | .dead _, .suspect _ _ => isTrue trivial

theorem modify_eq (now : ℕ) (u : Update) (state : MemberState) :
    u.modify now state = if u.Replaces state then u.fresh now else state := by
  cases u with
  | alive incarnation =>
    cases state with
    | suspect inc since =>
      by_cases below : incarnation < inc
      · exact (if_pos below).trans (if_neg (UInt64.not_le.mpr below)).symm
      · exact (if_neg below).trans (if_pos (UInt64.not_lt.mp below)).symm
    | alive inc | dead inc =>
      -- `mark_alive` asks whether it is dominated, the other two whether they should update.
      simp only [Update.modify, MemberState.onAlive, Update.Replaces, Update.fresh, ← UInt64.not_le,
        ite_not]
  | suspect incarnation =>
    cases state with
    | alive inc | suspect inc since => rfl
    | dead inc => exact (if_neg id).symm
  | dead incarnation =>
    cases state with
    | alive inc | suspect inc since => exact (if_pos trivial).symm
    | dead inc => rfl

def undated : MemberState → MemberState
  | .suspect incarnation _ => .suspect incarnation 0
  | state => state

theorem replaces_undated (u : Update) (state : MemberState) :
    u.Replaces (undated state) ↔ u.Replaces state := by
  cases u <;> cases state <;> exact Iff.rfl

theorem undated_fresh (u : Update) (now : ℕ) : undated (u.fresh now) = u.fresh 0 := by
  cases u <;> rfl

theorem members_mark (foreign : node ≠ s.localId) (u : Update) :
    (s.mark now node u).members = s.members.modifyOrInsert node (u.modify now) (u.fresh now) := by
  cases u with
  | alive inc => simp only [SwimMembership.mark, SwimMembership.markAlive, if_neg foreign]; rfl
  | suspect inc => simp only [SwimMembership.mark, SwimMembership.markSuspect, if_neg foreign]; rfl
  | dead inc => simp only [SwimMembership.mark, SwimMembership.markDead, if_neg foreign]; rfl

theorem members_mark_self (own : node = s.localId) (u : Update) :
    (s.mark now node u).members = s.members := by
  cases u with
  | alive inc => simp only [SwimMembership.mark, SwimMembership.markAlive, if_pos own]
  | suspect inc => simp only [SwimMembership.mark, SwimMembership.markSuspect, if_pos own]
  | dead inc => simp only [SwimMembership.mark, SwimMembership.markDead, if_pos own]

theorem lookup_mark (foreign : node ≠ s.localId) (u : Update) :
    (s.mark now node u).members.lookup node = some (match s.members.lookup node with
      | some state => u.modify now state
      | none => u.fresh now) := by
  rw [members_mark foreign]
  exact lookup_modifyOrInsert_self _ _

theorem lookup_mark_of_ne (apart : other ≠ node) (u : Update) :
    (s.mark now node u).members.lookup other = s.members.lookup other := by
  by_cases own : node = s.localId
  · rw [members_mark_self own]
  · rw [members_mark own]
    exact lookup_modifyOrInsert_of_ne apart _ _

theorem mark_eq (s : SwimMembership) (now : ℕ) (node : NodeId) (u : Update) : ∃ members incarnation,
    s.mark now node u = { s with members := members, incarnation := incarnation } := by
  cases u <;>
    simp only [SwimMembership.mark, SwimMembership.markAlive, SwimMembership.markSuspect,
      SwimMembership.markDead] <;> split <;> exact ⟨_, _, rfl⟩

theorem localId_mark (u : Update) : (s.mark now node u).localId = s.localId := by
  obtain ⟨members, incarnation, same⟩ := mark_eq s now node u
  rw [same]

theorem pendingProbes_mark (s : SwimMembership) (now : ℕ) (node : NodeId) (u : Update) :
    (s.mark now node u).pendingProbes = s.pendingProbes := by
  obtain ⟨members, incarnation, same⟩ := mark_eq s now node u
  rw [same]

def Update.isSuspicion : Update → Bool
  | .suspect _ => true
  | .alive _ | .dead _ => false

theorem incarnation_mark (s : SwimMembership) (now : ℕ) (node : NodeId) (u : Update) :
    (s.mark now node u).incarnation =
      if node = s.localId ∧ u.isSuspicion = true then s.incarnation + 1 else s.incarnation := by
  cases u with
  | alive inc =>
    rw [if_neg fun raised => Bool.false_ne_true raised.2, SwimMembership.mark, SwimMembership.markAlive]
    split <;> rfl
  | dead inc =>
    rw [if_neg fun raised => Bool.false_ne_true raised.2, SwimMembership.mark, SwimMembership.markDead]
    split <;> rfl
  | suspect inc =>
    rw [SwimMembership.mark, SwimMembership.markSuspect]
    by_cases own : node = s.localId
    · rw [if_pos own, if_pos ⟨own, rfl⟩]
    · rw [if_neg own, if_neg fun raised => own raised.1]

theorem resolveProbe_eq (s : SwimMembership) (nonce incarnation : UInt64) : ∃ pending acks,
    s.resolveProbe nonce incarnation = { s with pendingProbes := pending, acks := acks } := by
  unfold SwimMembership.resolveProbe
  split <;> exact ⟨_, _, rfl⟩

theorem resolveProbe_of_none {s : SwimMembership} {nonce : UInt64}
    (waits : s.pendingProbes.lookup nonce = none) (incarnation : UInt64) :
    s.resolveProbe nonce incarnation = s := by
  simp only [SwimMembership.resolveProbe, waits]

theorem resolveProbe_of_some {s : SwimMembership} {nonce : UInt64} {receiver : Receiver}
    (waits : s.pendingProbes.lookup nonce = some receiver) (incarnation : UInt64) :
    s.resolveProbe nonce incarnation =
      { s with
        pendingProbes := s.pendingProbes.erase nonce
        acks := s.acks ++ [(receiver, incarnation)] } := by
  simp only [SwimMembership.resolveProbe, waits]

theorem members_resolveProbe (s : SwimMembership) (nonce incarnation : UInt64) :
    (s.resolveProbe nonce incarnation).members = s.members := by
  obtain ⟨pending, acks, same⟩ := resolveProbe_eq s nonce incarnation
  rw [same]

theorem localId_resolveProbe (s : SwimMembership) (nonce incarnation : UInt64) :
    (s.resolveProbe nonce incarnation).localId = s.localId := by
  obtain ⟨pending, acks, same⟩ := resolveProbe_eq s nonce incarnation
  rw [same]

end Marks

def peerId (n : UInt8) : NodeId := ⟨Bytes32.fill n⟩

end Craftec.Net.Swim
