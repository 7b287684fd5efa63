/- GID: Craftec/Net/SwimEvents
   generality: I
   digest: The connection events of membership, and the updates that go unannounced. -/

import Mathlib.Data.Finmap
import Craftec.Library.Run
import Craftec.Net.Swim

set_option autoImplicit false
set_option relaxedAutoImplicit false

namespace Craftec.Net.SwimEvents

open Craftec.Library.Run (Path anyStep exists_path)
open Craftec.Net.Swim
open Craftec.Types.Digest (NodeId)
open Craftec.Types.Wire (WireMessage)

inductive Event where
  | peerConnected (node : NodeId)
  | peerDisconnected (node : NodeId)
  deriving DecidableEq

/-- The table together with its event sender, `none` until it is set and then the list
of what has been sent on it. -/
structure Membership where
  swim : SwimMembership
  eventTx : Option (List Event)

def isConnected : MemberState → Bool
  | .alive _ | .suspect _ _ => true
  | .dead _ => false

def connected (s : SwimMembership) (peer : NodeId) : Bool :=
  ((s.members.lookup peer).map isConnected).getD false

namespace Membership

def new (localId : NodeId) : Membership := ⟨.new localId, none⟩

def setEventSender (m : Membership) : Membership := { m with eventTx := some (m.eventTx.getD []) }

def send (m : Membership) (e : Event) : Membership :=
  { m with eventTx := m.eventTx.map fun sent => sent ++ [e] }

def markAlive (m : Membership) (node : NodeId) (incarnation : UInt64) : Membership :=
  if node = m.swim.localId then m
  else
    let isNew := (m.swim.members.lookup node).isNone
    let m := { m with swim := m.swim.markAlive node incarnation }
    if isNew then m.send (.peerConnected node) else m

def markSuspect (m : Membership) (now : ℕ) (node : NodeId) (incarnation : UInt64) : Membership :=
  { m with swim := m.swim.markSuspect now node incarnation }

def markDead (m : Membership) (node : NodeId) (incarnation : UInt64) : Membership :=
  if node = m.swim.localId then m
  else
    let wasConnected := connected m.swim node
    let m := { m with swim := m.swim.markDead node incarnation }
    if wasConnected then m.send (.peerDisconnected node) else m

/-- The loop over the expired suspects is the only part of a tick that sends events. -/
def protocolTick (m : Membership) (now : ℕ) (order : List NodeId) :
    Membership × List (NodeId × WireMessage) :=
  let buried := (m.swim.expired now order).foldl (fun m e => m.markDead e.1 e.2) m
  let ticked := m.swim.protocolTick now order
  ({ buried with swim := ticked.1 }, ticked.2)

end Membership

/-- The calls of a sequential run, each with the time or the order of iteration it sees. -/
inductive Call where
  | markAlive (node : NodeId) (incarnation : UInt64)
  | markSuspect (now : ℕ) (node : NodeId) (incarnation : UInt64)
  | markDead (node : NodeId) (incarnation : UInt64)
  | protocolTick (now : ℕ) (order : List NodeId)

def step (m : Membership) : Call → Option Membership
  | .markAlive node incarnation => some (m.markAlive node incarnation)
  | .markSuspect now node incarnation => some (m.markSuspect now node incarnation)
  | .markDead node incarnation => some (m.markDead node incarnation)
  | .protocolTick now order => some (m.protocolTick now order).1

/-! What the events say -/

/-- Whether an event reports the peer connected or disconnected, if it is about the peer. -/
def Event.report (peer : NodeId) : Event → Option Bool
  | .peerConnected node => if node = peer then some true else none
  | .peerDisconnected node => if node = peer then some false else none

def reports (peer : NodeId) (sent : List Event) : List Bool := sent.filterMap (Event.report peer)

/-- Strict alternation, beginning with `first`. -/
def Alternates (first : Bool) : List Bool → Prop
  | [] => True
  | b :: rest => b = first ∧ Alternates (!first) rest

instance (first : Bool) (l : List Bool) : Decidable (Alternates first l) :=
  match l with
  | [] => isTrue trivial
  | b :: rest =>
    have := instDecidableAlternates (!first) rest
    inferInstanceAs (Decidable (b = first ∧ Alternates (!first) rest))

/-- The reports about a peer alternate from a connection on, and the last one agrees
with the table. -/
def Matches (s : SwimMembership) (sent : List Event) (peer : NodeId) : Prop :=
  Alternates true (reports peer sent) ∧
    ((reports peer sent).getLast? = some true ↔ connected s peer = true)

def EventsMatch (m : Membership) : Prop :=
  ∃ sent, m.eventTx = some sent ∧ ∀ peer, Matches m.swim sent peer

theorem alternates_append {first x : Bool} {l : List Bool} (alternates : Alternates first l) :
    Alternates first (l ++ [x]) ↔ x = (l.getLast?.map not).getD first := by
  induction l generalizing first with
  | nil => exact and_iff_left trivial
  | cons b l ih =>
    obtain ⟨rfl, rest⟩ := alternates
    have next := ih rest
    rw [List.cons_append, Alternates, and_iff_right rfl, next, List.getLast?_cons]
    cases l.getLast? with
    | none => rfl
    | some y => rfl

section Reports

variable {m : Membership} {s : SwimMembership} {node : NodeId}

theorem eventsMatch_silent (before : EventsMatch m)
    (others : ∀ peer, peer ≠ node → connected s peer = connected m.swim peer) :
    EventsMatch { m with swim := s } ↔ connected s node = connected m.swim node := by
  obtain ⟨sent, tx, holds⟩ := before
  constructor
  · rintro ⟨sent', tx', after⟩
    cases tx.symm.trans tx'
    exact Bool.eq_iff_iff.mpr ((after node).2.symm.trans (holds node).2)
  · intro same
    refine ⟨sent, tx, fun peer => ⟨(holds peer).1, ?_⟩⟩
    have kept : connected s peer = connected m.swim peer := by
      by_cases about : peer = node
      · rw [about, same]
      · exact others peer about
    rw [(holds peer).2, ← kept]

theorem eventsMatch_send (before : EventsMatch m) {e : Event} {now : Bool}
    (about : ∀ peer, e.report peer = if node = peer then some now else none)
    (others : ∀ peer, peer ≠ node → connected s peer = connected m.swim peer)
    (was : connected m.swim node = !now) (is : connected s node = now) :
    EventsMatch (Membership.send { m with swim := s } e) := by
  obtain ⟨sent, tx, holds⟩ := before
  refine ⟨sent ++ [e], by simp only [Membership.send, tx, Option.map_some], fun peer => ?_⟩
  obtain ⟨alternates, last⟩ := holds peer
  change Alternates true (reports peer (sent ++ [e])) ∧
    ((reports peer (sent ++ [e])).getLast? = some true ↔ connected s peer = true)
  by_cases same : node = peer
  · subst same
    have grown : reports node (sent ++ [e]) = reports node sent ++ [now] := by
      rw [reports, List.filterMap_append, List.filterMap_cons_some (by rw [about, if_pos rfl]),
        List.filterMap_nil]
      rfl
    rw [grown, alternates_append alternates, List.getLast?_append, List.getLast?_singleton,
      Option.some_or, Option.some.injEq, is]
    rw [was] at last
    refine ⟨?_, Iff.rfl⟩
    cases final : (reports node sent).getLast? with
    | none =>
      rw [final] at last
      cases now with
      | true => rfl
      | false => exact absurd (last.mpr rfl) (Option.some_ne_none _).symm
    | some x =>
      rw [final, Option.some.injEq] at last
      cases x with
      | true => exact (Bool.not_eq_true' _).mp (last.mp rfl)
      | false =>
        cases now with
        | true => rfl
        | false => cases last.mpr rfl
  · have kept : reports peer (sent ++ [e]) = reports peer sent := by
      rw [reports, List.filterMap_append, List.filterMap_cons_none (by rw [about, if_neg same]),
        List.filterMap_nil, List.append_nil]
      rfl
    rw [kept, others peer (Ne.symm same)]
    exact ⟨alternates, last⟩

end Reports

/-! What the calls announce -/

section Calls

variable {m : Membership} {node : NodeId}

theorem connected_mark_of_ne (s : SwimMembership) (now : ℕ) (node : NodeId) (u : Update) (peer : NodeId)
    (apart : peer ≠ node) : connected (s.mark now node u) peer = connected s peer := by
  rw [connected, connected, lookup_mark_of_ne apart]

theorem connected_of_lookup {s : SwimMembership} {state : MemberState}
    (entry : s.members.lookup node = some state) : connected s node = isConnected state := by
  rw [connected, entry]
  rfl

theorem connected_of_missing {s : SwimMembership} (missing : s.members.lookup node = none) :
    connected s node = false := by
  rw [connected, missing]
  rfl

theorem connected_mark {s : SwimMembership} (foreign : node ≠ s.localId) {state : MemberState}
    (entry : s.members.lookup node = some state) (now : ℕ) (u : Update) :
    connected (s.mark now node u) node =
      isConnected (if u.Replaces state then u.fresh now else state) := by
  rw [connected, lookup_mark foreign, entry, ← modify_eq]
  rfl

theorem connected_mark_missing {s : SwimMembership} (foreign : node ≠ s.localId)
    (missing : s.members.lookup node = none) (now : ℕ) (u : Update) :
    connected (s.mark now node u) node = isConnected (u.fresh now) := by
  rw [connected, lookup_mark foreign, missing]
  rfl

theorem eventsMatch_markDead (before : EventsMatch m) (incarnation : UInt64) :
    EventsMatch (m.markDead node incarnation) := by
  unfold Membership.markDead
  by_cases own : node = m.swim.localId
  · rw [if_pos own]
    exact before
  rw [if_neg own]
  have others := connected_mark_of_ne m.swim 0 node (.dead incarnation)
  have gone : connected (m.swim.mark 0 node (.dead incarnation)) node = false := by
    cases entry : m.swim.members.lookup node with
    | none => exact connected_mark_missing own entry 0 _
    | some state =>
      rw [connected_mark own entry]
      split
      · rfl
      · rename_i kept
        cases state with
        | dead inc => rfl
        | alive inc | suspect inc since => exact absurd trivial kept
  cases was : connected m.swim node with
  | true => exact eventsMatch_send before (fun peer => rfl) others was gone
  | false => exact (eventsMatch_silent before others).mpr (gone.trans was.symm)

theorem swim_markDead (m : Membership) (node : NodeId) (incarnation : UInt64) :
    (m.markDead node incarnation).swim = m.swim.markDead node incarnation := by
  unfold Membership.markDead
  by_cases own : node = m.swim.localId
  · rw [if_pos own, SwimMembership.markDead, if_pos own]
  · rw [if_neg own]
    dsimp only
    split <;> rfl

theorem burials (newlyDead : List (NodeId × UInt64)) (before : EventsMatch m) :
    EventsMatch (newlyDead.foldl (fun m e => m.markDead e.1 e.2) m) ∧
      (newlyDead.foldl (fun m e => m.markDead e.1 e.2) m).swim =
        newlyDead.foldl (fun s e => s.markDead e.1 e.2) m.swim := by
  induction newlyDead generalizing m with
  | nil => exact ⟨before, rfl⟩
  | cons e rest ih =>
    obtain ⟨holds, swim⟩ := ih (eventsMatch_markDead before e.2)
    rw [swim_markDead] at swim
    exact ⟨holds, swim⟩

theorem members_protocolTick (s : SwimMembership) (now : ℕ) (order : List NodeId) :
    (s.protocolTick now order).1.members = (s.expireSuspects now order).members := by
  unfold SwimMembership.protocolTick
  dsimp only
  split <;> rfl

theorem eventsMatch_protocolTick (before : EventsMatch m) (now : ℕ) (order : List NodeId) :
    EventsMatch (m.protocolTick now order).1 := by
  obtain ⟨⟨sent, tx, holds⟩, swim⟩ := burials (m.swim.expired now order) before
  refine ⟨sent, tx, fun peer => ?_⟩
  have same : connected (m.protocolTick now order).1.swim peer =
      connected ((m.swim.expired now order).foldl (fun m e => m.markDead e.1 e.2) m).swim peer := by
    have table := members_protocolTick m.swim now order
    rw [swim, connected, connected]
    exact congrArg (fun members : Members => ((members.lookup peer).map isConnected).getD false) table
  rw [Matches, same]
  exact holds peer

def Revives (incarnation : UInt64) : Option MemberState → Prop
  | some (.dead inc) => inc < incarnation
  | _ => False

instance (incarnation : UInt64) : (entry : Option MemberState) → Decidable (Revives incarnation entry)
  | some (.dead inc) => inferInstanceAs (Decidable (inc < incarnation))
  | some (.alive _) | some (.suspect _ _) | none => isFalse id

/-- An update that makes a peer connected without saying so: a suspicion about a peer that is
not in the table, or a revival. -/
def Unannounced (s : SwimMembership) : Call → Prop
  | .markAlive node incarnation => node ≠ s.localId ∧ Revives incarnation (s.members.lookup node)
  | .markSuspect _ node _ => node ≠ s.localId ∧ s.members.lookup node = none
  | _ => False

instance (s : SwimMembership) : (call : Call) → Decidable (Unannounced s call)
  | .markAlive node incarnation =>
    inferInstanceAs (Decidable (node ≠ s.localId ∧ Revives incarnation (s.members.lookup node)))
  | .markSuspect _ node _ =>
    inferInstanceAs (Decidable (node ≠ s.localId ∧ s.members.lookup node = none))
  | .markDead _ _ | .protocolTick _ _ => isFalse id

theorem eventsMatch_markAlive (before : EventsMatch m) (incarnation : UInt64) :
    EventsMatch (m.markAlive node incarnation) ↔
      ¬ Unannounced m.swim (.markAlive node incarnation) := by
  unfold Membership.markAlive
  by_cases own : node = m.swim.localId
  · rw [if_pos own]
    exact iff_of_true before fun silent => silent.1 own
  rw [if_neg own]
  have others := connected_mark_of_ne m.swim 0 node (.alive incarnation)
  cases entry : m.swim.members.lookup node with
  | none =>
    have is := connected_mark_missing own entry 0 (.alive incarnation)
    have was := connected_of_missing entry
    refine iff_of_true (eventsMatch_send before (fun peer => rfl) others was is) ?_
    rintro ⟨-, revives⟩
    rw [entry] at revives
    exact revives
  | some state =>
    refine (eventsMatch_silent before others).trans ?_
    rw [connected_mark own entry, connected_of_lookup entry, Unannounced, entry]
    cases state with
    | alive inc | suspect inc since =>
      refine iff_of_true ?_ And.right
      split <;> rfl
    | dead inc =>
      by_cases newer : inc < incarnation
      · have revived : (Update.alive incarnation).Replaces (.dead inc) := newer
        rw [if_pos revived]
        exact iff_of_false Bool.noConfusion fun announced => announced ⟨own, newer⟩
      · have stays : ¬ (Update.alive incarnation).Replaces (.dead inc) := newer
        rw [if_neg stays]
        exact iff_of_true rfl fun revives => newer revives.2

theorem eventsMatch_markSuspect (before : EventsMatch m) (now : ℕ) (incarnation : UInt64) :
    EventsMatch (m.markSuspect now node incarnation) ↔
      ¬ Unannounced m.swim (.markSuspect now node incarnation) := by
  have others := connected_mark_of_ne m.swim now node (.suspect incarnation)
  refine (eventsMatch_silent before others).trans ?_
  by_cases own : node = m.swim.localId
  · refine iff_of_true ?_ fun silent => silent.1 own
    rw [connected, connected, members_mark_self own]
  cases entry : m.swim.members.lookup node with
  | none =>
    rw [connected_mark_missing own entry, connected_of_missing entry]
    exact iff_of_false Bool.noConfusion fun announced => announced ⟨own, entry⟩
  | some state =>
    refine iff_of_true ?_ ?_
    · rw [connected_mark own entry, connected_of_lookup entry]
      split
      · rename_i replaced
        cases state with
        | alive inc | suspect inc since => rfl
        | dead inc => exact replaced.elim
      · rfl
    · rintro ⟨-, missing⟩
      rw [entry] at missing
      cases missing

theorem step_eventsMatch {m t : Membership} {call : Call} (before : EventsMatch m)
    (taken : step m call = some t) : EventsMatch t ↔ ¬ Unannounced m.swim call := by
  cases call with
  | markAlive node incarnation => cases taken; exact eventsMatch_markAlive before incarnation
  | markSuspect now node incarnation =>
    cases taken
    exact eventsMatch_markSuspect before now incarnation
  | markDead node incarnation =>
    cases taken
    exact iff_of_true (eventsMatch_markDead before incarnation) id
  | protocolTick now order =>
    cases taken
    exact iff_of_true (eventsMatch_protocolTick before now order) id

end Calls

def wired (localId : NodeId) : Membership := (Membership.new localId).setEventSender

theorem eventsMatch_wired (localId : NodeId) : EventsMatch (wired localId) := by
  refine ⟨[], rfl, fun peer => ⟨trivial, ?_⟩⟩
  exact iff_of_false (Option.some_ne_none _).symm Bool.noConfusion

/-- Along a sequential run of updates and ticks, the events about every peer alternate and
agree with the table after every call exactly when no call of the run connects a peer
without announcing it. -/
theorem events_match_iff {localId : NodeId} {calls : List Call} {t : Membership}
    (path : Path step anyStep (wired localId) calls t) :
    (∀ front u, front <+: calls → Path step anyStep (wired localId) front u → EventsMatch u) ↔
      Path step (fun m call => ¬ Unannounced m.swim call) (wired localId) calls t :=
  path.forall_iff (fun _ _ _ before taken => step_eventsMatch before taken)
    (eventsMatch_wired localId)

theorem events_match_until_timeout :
    let calls : List Call := [.markAlive (peerId 1) 0, .markSuspect 0 (peerId 1) 0,
      .protocolTick 5000 [peerId 1]]
    ∃ t, Path step anyStep (wired (peerId 0)) calls t ∧
      t.eventTx = some [.peerConnected (peerId 1), .peerDisconnected (peerId 1)] ∧
      ∀ front u, front <+: calls → Path step anyStep (wired (peerId 0)) front u → EventsMatch u := by
  intro calls
  have run : ∃ t, Path step (fun m call => ¬ Unannounced m.swim call) (wired (peerId 0)) calls t ∧
      t.eventTx = some [.peerConnected (peerId 1), .peerDisconnected (peerId 1)] :=
    exists_path _ _ calls (by decide)
  obtain ⟨t, path, sent⟩ := run
  have any : Path step anyStep (wired (peerId 0)) calls t := path.mono fun _ _ _ => trivial
  exact ⟨t, any, sent, (events_match_iff any).mpr path⟩

/-- A peer heard of first by a suspicion is disconnected without having been connected. And a
peer that comes back from the dead is disconnected twice. -/
theorem unannounced_connections :
    (∃ t, Path step anyStep (wired (peerId 0))
        [.markSuspect 0 (peerId 1) 0, .markDead (peerId 1) 0] t ∧
      t.eventTx = some [.peerDisconnected (peerId 1)]) ∧
    ∃ t, Path step anyStep (wired (peerId 0))
        [.markAlive (peerId 1) 0, .markDead (peerId 1) 0, .markAlive (peerId 1) 1,
          .markDead (peerId 1) 1] t ∧
      t.eventTx = some [.peerConnected (peerId 1), .peerDisconnected (peerId 1),
        .peerDisconnected (peerId 1)] :=
  ⟨exists_path _ _ _ (by decide), exists_path _ _ _ (by decide)⟩

end Craftec.Net.SwimEvents
