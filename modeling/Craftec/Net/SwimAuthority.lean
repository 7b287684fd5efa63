/- GID: Craftec/Net/SwimAuthority
   generality: I
   digest: A node is never its own peer, and only raises its own incarnation. -/

import Mathlib
import Craftec.Library.Run
import Craftec.Net.Swim
import Craftec.Net.SwimRuns
import Craftec.Net.SwimSafety
import Craftec.Types.Digest
import Craftec.Types.Wire

set_option autoImplicit false
set_option relaxedAutoImplicit false

namespace Craftec.Net.SwimAuthority

open Craftec.Library.Run (Reach anyStep exists_reach_reach)
open Craftec.Net.Swim
open Craftec.Net.SwimRuns
open Craftec.Net.SwimSafety (issues move_swim mem_aliveMembers)
open Craftec.Types.Digest (NodeId)
open Craftec.Types.Wire (WireMessage)

/-- The nodes a call has picked to ping or picks from. -/
def aims : Task → List NodeId
  | .idle | .handling _ | .expiring _ _ _ | .burying _ => []
  | .listing _ alive | .choosing alive => alive
  | .gossiping target _ _ _ | .numbering target _ => [target]
  | .ticked probes => probes.map Prod.fst
  | .delegating p _ alive => p.target :: alive
  | .enlisting p delegates => p.target :: delegates
  | .registering p | .sending p | .awaiting p | .inserting p _ | .awaitingIndirect p | .lastKnown p
  | .suspecting p _ | .ended p _ => [p.target]

/-- The node with this identity is not in its own table, and no call aims at it. -/
structure Apart (me : NodeId) (s : State) : Prop where
  own : s.shared.swim.localId = me
  absent : s.shared.swim.members.lookup me = none
  spared : ∀ i, me ∉ aims (s.calls i)

theorem apart_start (me : NodeId) : Apart me (start (.new me)) :=
  ⟨rfl, rfl, fun _ => List.not_mem_nil⟩

theorem not_mem_keepAlive {me node : NodeId} {state : MemberState} {m : Members}
    (absent : m.lookup me = none) (found : m.lookup node = some state) : me ∉ keepAlive node state := by
  intro kept
  rw [← (mem_keepAlive kept).1, absent] at found
  cases found

theorem move_spared {me : NodeId} {s s' : Shared} {i : ℕ} {task task' : Task}
    (absent : s.swim.members.lookup me = none) (spared : me ∉ aims task)
    (move : Move s i task s' task') : me ∉ aims task' := by
  cases move with
  | list node state found =>
    intro listed
    rcases List.mem_append.mp listed with before | now
    · exact spared before
    · exact not_mem_keepAlive absent found now
  | delegate node state found =>
    intro listed
    rcases List.mem_cons.mp listed with target | among
    · exact spared (target ▸ List.mem_cons_self)
    rcases List.mem_append.mp among with before | now
    · exact spared (List.mem_cons_of_mem _ before)
    · exact not_mem_keepAlive absent found now
  | choose limit listed =>
    intro chosen
    rw [List.mem_singleton.mp chosen] at spared
    exact spared listed
  | delegateNone p visited alive =>
    intro target
    exact spared (List.mem_singleton.mp target ▸ List.mem_cons_self)
  | delegateEnd listed =>
    intro chosen
    rcases List.mem_cons.mp chosen with target | among
    · exact spared (target ▸ List.mem_cons_self)
    · exact spared (List.mem_cons_of_mem _ (listed me among))
  | enlist p delegates =>
    intro target
    exact spared (List.mem_singleton.mp target ▸ List.mem_cons_self)
  | perform op rest => exact List.not_mem_nil
  | expire node state found => exact List.not_mem_nil
  | expireEnd started visited newlyDead => exact List.not_mem_nil
  | bury node incarnation rest => exact List.not_mem_nil
  | buryEnd => exact List.not_mem_nil
  | chooseNone alive => exact List.not_mem_nil
  | _ => exact spared

theorem aims_spawned {me target : NodeId} (apart : me ≠ target) (msg : WireMessage) :
    me ∉ aims (spawned target msg) := by
  cases msg with
  | swimPing fromNode nonce piggyback =>
    intro chosen
    exact apart (List.mem_singleton.mp chosen)
  | _ => exact List.not_mem_nil

theorem step_apart {me : NodeId} {s t : State} {label : Label} (apart : Apart me s)
    (taken : step s label = some t) : Apart me t := by
  have update : ∀ (calls : ℕ → Task) (i : ℕ) (task : Task), (∀ j, me ∉ aims (calls j)) →
      me ∉ aims task → ∀ j, me ∉ aims (Function.update calls i task j) :=
    fun calls i task before now => (Function.forall_update_iff calls (fun _ t => me ∉ aims t)).mpr
      ⟨now, fun j _ => before j⟩
  obtain ⟨own, absent, spared⟩ := apart
  cases step_cases taken with
  | receive i endpoint msg idle => exact ⟨own, absent, update _ i _ spared List.not_mem_nil⟩
  | tick i idle => exact ⟨own, absent, update _ i _ spared List.not_mem_nil⟩
  | spawn i j target msg rest ready idle =>
    have ticked := spared i
    rw [ready] at ticked
    have foreign : me ≠ target := fun self => ticked (self ▸ List.mem_cons_self)
    have unspawned : me ∉ aims (.ticked rest) := fun listed => ticked (List.mem_cons_of_mem _ listed)
    exact ⟨own, absent, update _ j _ (update _ i _ spared unspawned) (aims_spawned foreign msg)⟩
  | elapse ms => exact ⟨own, absent, spared⟩
  | move i o shared task moves =>
    have aside := update _ i _ spared (move_spared absent (spared i) moves)
    rcases move_swim moves with ⟨node, u, -, rfl⟩ | ⟨table, -, identity⟩
    · refine ⟨(localId_mark u).trans own, ?_, aside⟩
      by_cases self : node = s.shared.swim.localId
      · exact (congrArg (Finmap.lookup me) (members_mark_self self u)).trans absent
      · have other : me ≠ node := fun mine => self (mine.symm.trans own.symm)
        exact (lookup_mark_of_ne other u).trans absent
    · exact ⟨identity.trans own, (congrArg (Finmap.lookup me) table).trans absent, aside⟩

theorem step_counter {s t : State} {label : Label} (taken : step s label = some t) :
    t.shared.swim.incarnation = s.shared.swim.incarnation ∨
      ∃ i o incarnation, label = .advance i o ∧
        issues (s.calls i) = some (s.shared.swim.localId, .suspect incarnation) ∧
        t.shared.swim.incarnation = s.shared.swim.incarnation + 1 := by
  cases step_cases taken with
  | receive i endpoint msg idle => exact .inl rfl
  | tick i idle => exact .inl rfl
  | spawn i j target msg rest ready idle => exact .inl rfl
  | elapse ms => exact .inl rfl
  | move i o shared task moves =>
    rcases move_swim moves with ⟨node, u, issued, rfl⟩ | ⟨-, counter, -⟩
    · have counter := incarnation_mark s.shared.swim s.shared.instant node u
      by_cases raised : node = s.shared.swim.localId ∧ u.isSuspicion = true
      · rw [if_pos raised] at counter
        obtain ⟨rfl, suspicion⟩ := raised
        cases u with
        | suspect incarnation => exact .inr ⟨i, o, incarnation, rfl, issued, counter⟩
        | alive incarnation | dead incarnation => cases suspicion
      · rw [if_neg raised] at counter
        exact .inl counter
    · exact .inl counter

/-- The counter has room for one more: a step that raises it stays below 2^64. -/
def CounterFits (s : State) : Label → Prop
  | .advance i _ => ∀ e ∈ issues (s.calls i), e.1 = s.shared.swim.localId → e.2.isSuspicion = true →
    s.shared.swim.incarnation.toNat + 1 < 2 ^ 64
  | _ => True

instance (s : State) (label : Label) : Decidable (CounterFits s label) :=
  match label with
  | .advance i _ => inferInstanceAs (Decidable (∀ e ∈ issues (s.calls i),
      e.1 = s.shared.swim.localId → e.2.isSuspicion = true →
        s.shared.swim.incarnation.toNat + 1 < 2 ^ 64))
  | .receive _ _ _ | .tick _ | .spawn _ _ | .elapse _ => isTrue trivial

theorem step_counter_le {s t : State} {label : Label} (fits : CounterFits s label)
    (taken : step s label = some t) : s.shared.swim.incarnation ≤ t.shared.swim.incarnation := by
  rcases step_counter taken with same | ⟨i, o, incarnation, rfl, issued, raised⟩
  · exact UInt64.le_of_eq same.symm
  · have room : s.shared.swim.incarnation.toNat + 1 < 2 ^ 64 := fits _ issued rfl rfl
    have one : (1 : UInt64).toNat = 1 := rfl
    rw [raised, UInt64.le_iff_toNat_le, UInt64.toNat_add, one, Nat.mod_eq_of_lt room]
    exact Nat.le_succ _

theorem counter_le {s t : State} (reach : Reach step CounterFits s t) :
    s.shared.swim.incarnation ≤ t.shared.swim.incarnation := by
  refine @Reach.invariant _ _ _ _
    (fun u => s.shared.swim.incarnation ≤ u.shared.swim.incarnation) _ _ reach (UInt64.le_refl _) ?_
  intro u label v below fits taken
  exact UInt64.le_trans below (step_counter_le fits taken)

/-- Whatever messages come in, with whatever they carry, however probes end and ticks
interleave: the node is not in its own table nor among its alive members, no call aims a
probe at it, and from any state reached its own incarnation does not go back for as long as
it stays below 2^64. -/
theorem local_authority {me : NodeId} {s : State} (reach : Reach step anyStep (start (.new me)) s) :
    me ∉ s.shared.swim.members ∧ (∀ order, me ∉ s.shared.swim.aliveMembers order) ∧
      (∀ i, me ∉ aims (s.calls i)) ∧
      ∀ t, Reach step CounterFits s t → s.shared.swim.incarnation ≤ t.shared.swim.incarnation := by
  have apart : Apart me s :=
    reach.invariant (apart_start me) fun _ _ _ before _ taken => step_apart before taken
  refine ⟨Finmap.lookup_eq_none.mp apart.absent, ?_, apart.spared, fun t later => counter_le later⟩
  intro order listed
  obtain ⟨state, held, -⟩ := mem_aliveMembers listed
  rw [apart.absent] at held
  cases held

theorem local_authority_refutes :
    ∃ s t, Reach step anyStep (start (.new (peerId 0))) s ∧ Reach step CounterFits s t ∧
      s.shared.swim.incarnation = 0 ∧ t.shared.swim.incarnation = 1 ∧
      peerId 0 ∉ s.shared.swim.members ∧ (∀ i, peerId 0 ∉ aims (s.calls i)) ∧
      s.shared.swim.incarnation ≤ t.shared.swim.incarnation := by
  have first : ∃ s u, Reach step CounterFits (start (.new (peerId 0))) s ∧ Reach step CounterFits s u ∧
      s.shared.swim.incarnation = 0 ∧ u.shared.swim.incarnation = 1 :=
    exists_reach_reach _ _ _
      [.receive 0 true (.swimAlive (peerId 0) 4), .advance 0 ⟨none, true, []⟩,
        .receive 1 false (.swimDead (peerId 0) 9 (peerId 2)), .advance 1 ⟨none, true, []⟩, .tick 2,
        .advance 2 ⟨none, true, []⟩, .advance 2 ⟨none, true, []⟩, .advance 2 ⟨none, true, []⟩,
        .advance 2 ⟨none, true, []⟩]
      [.receive 3 true (.swimPing (peerId 0) 0
          [.swimPing (peerId 0) 1 [.swimSuspect (peerId 0) 0 (peerId 2)]]),
        .advance 3 ⟨none, true, []⟩, .advance 3 ⟨none, true, []⟩] (by decide)
  obtain ⟨s, t, before, after, zero, one⟩ := first
  have any : Reach step anyStep (start (.new (peerId 0))) s := before.mono fun _ _ _ => trivial
  obtain ⟨absent, -, spared, monotone⟩ := local_authority any
  exact ⟨s, t, any, after, zero, one, absent, spared, monotone t after⟩

end Craftec.Net.SwimAuthority
