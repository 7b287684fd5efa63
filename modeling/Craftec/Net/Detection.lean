/- GID: Craftec/Net/Detection
   generality: I
   digest: Rounds of ticks and probes: when every crashed member is found out, and who is never suspected. -/

import Mathlib
import Craftec.Library.Rotation
import Craftec.Library.Run
import Craftec.Net.Gossip
import Craftec.Net.Swim
import Craftec.Net.SwimEvents
import Craftec.Net.SwimRuns
import Craftec.Types.Digest
import Craftec.Types.Wire

set_option autoImplicit false
set_option relaxedAutoImplicit false

namespace Craftec.Net.Detection

open Craftec.Library.Rotation
open Craftec.Library.Run (Reach anyStep reach_step)
open Craftec.Net.Gossip (Enumerates enumerates_tableOf handled knowing)
open Craftec.Net.Swim
open Craftec.Net.SwimRuns (Label Probe Shared Task advance foldl_keepAlive indirectProbeK keepAlive noChoice
  reach_advance
  reach_iteration reach_received reach_tick step)
open Craftec.Types.Digest (NodeId)
open Craftec.Types.Wire (WireMessage)

/-- How a probe goes: the ping cannot be sent; the target acknowledges it in time; or it does
not, and one of the delegates acknowledges the second ping in time or none does. -/
inductive Outcome where
  | refused
  | acked (incarnation : UInt64)
  | silent (relayed : Option (NodeId × UInt64))

/-- One tick and the probe it starts, which ends before the next tick: their instants, the handler
that takes an acknowledgement, the place of the probe among the calls and how it goes. -/
structure Round where
  now : ℕ
  later : ℕ
  endpoint : Bool
  probe : ℕ
  outcome : Outcome

/-- The last lines of `probe_with_ack`. -/
def suspectTarget (s : SwimMembership) (now : ℕ) (target : NodeId) : SwimMembership :=
  s.markSuspect now target (s.lastKnownIncarnation target)

def registerProbe (s : SwimMembership) (receiver : Receiver) : SwimMembership :=
  SwimMembership.register { s with probeNonce := s.probeNonce + 1 } s.probeNonce receiver

/-- `probe_with_ack`, when nothing else runs. The delegates answer for themselves. -/
def probeWithAck (order : List NodeId) (s : SwimMembership) (r : Round) (target : NodeId)
    (nonce : UInt64) : SwimMembership :=
  let s := s.register nonce (.direct r.probe)
  match r.outcome with
  | .refused =>
    suspectTarget { s with pendingProbes := s.pendingProbes.erase nonce } r.later target
  | .acked incarnation => handled r.endpoint r.later s (.swimPingAck target nonce incarnation)
  | .silent relayed =>
    if (s.aliveMembers order).filter (fun node => decide (node ≠ target)) = [] then
      suspectTarget s r.later target
    else
      match relayed with
      | none => suspectTarget (registerProbe s (.indirect r.probe)) r.later target
      | some (delegate, incarnation) =>
        handled r.endpoint r.later (registerProbe s (.indirect r.probe))
          (.swimPingAck delegate s.probeNonce incarnation)

def probed (order : List NodeId) (s : SwimMembership) (r : Round) :
    List (NodeId × WireMessage) → SwimMembership
  | (target, .swimPing _ nonce _) :: _ => probeWithAck order s r target nonce
  | _ => s

def round (order : List NodeId) (s : SwimMembership) (r : Round) : SwimMembership :=
  probed order (s.protocolTick r.now order).1 r (s.protocolTick r.now order).2

def rounds (order : List NodeId) (s : SwimMembership) (rs : List Round) : SwimMembership :=
  rs.foldl (round order) s

def target? (order : List NodeId) (s : SwimMembership) : Option NodeId :=
  (s.aliveMembers order)[s.probeIndex.toNat % (s.aliveMembers order).length]?

/-- Pings to a crashed member are refused or stay without any answer; any other member answers, or
one of the delegates does. -/
def Expected (order : List NodeId) (crashed : NodeId → Bool) (s : SwimMembership) (target : NodeId) :
    Outcome → Prop
  | .refused => crashed target = true
  | .acked _ => crashed target = false
  | .silent none => crashed target = true
  | .silent (some (delegate, _)) =>
    crashed target = false ∧ crashed delegate = false ∧ delegate ∈ s.aliveMembers order ∧
      delegate ≠ target

/-- Every probe of the rounds goes as expected. -/
def Plays (order : List NodeId) (crashed : NodeId → Bool) : SwimMembership → List Round → Prop
  | _, [] => True
  | s, r :: rest =>
    (∀ target ∈ target? order s, Expected order crashed s target r.outcome) ∧
      Plays order crashed (round order s r) rest

instance (order : List NodeId) (crashed : NodeId → Bool) (s : SwimMembership) (target : NodeId) :
    (outcome : Outcome) → Decidable (Expected order crashed s target outcome)
  | .refused => inferInstanceAs (Decidable (_ = _))
  | .acked _ => inferInstanceAs (Decidable (_ = _))
  | .silent none => inferInstanceAs (Decidable (_ = _))
  | .silent (some _) => inferInstanceAs (Decidable (_ ∧ _ ∧ _ ∧ _))

instance decidablePlays (order : List NodeId) (crashed : NodeId → Bool) :
    (s : SwimMembership) → (rs : List Round) → Decidable (Plays order crashed s rs)
  | _, [] => isTrue trivial
  | s, r :: rest =>
    have := decidablePlays order crashed (round order s r) rest
    inferInstanceAs (Decidable (_ ∧ _))

section Tables

variable {order : List NodeId} {s : SwimMembership} {now : ℕ} {node : NodeId}

theorem aliveMembers_eq_filter (order : List NodeId) (s : SwimMembership) :
    s.aliveMembers order = order.filter fun node => (s.members.lookup node).any MemberState.isAlive := by
  induction order with
  | nil => rfl
  | cons node rest ih =>
    simp only [SwimMembership.aliveMembers, Members.listed] at ih
    simp only [SwimMembership.aliveMembers, Members.listed, List.filterMap_cons]
    cases found : s.members.lookup node with
    | none =>
      rw [List.filter_cons_of_neg (by simp [found])]
      exact ih
    | some state =>
      by_cases alive : state.isAlive = true
      · rw [List.filter_cons_of_pos (by simpa [found] using alive)]
        simp only [Option.map_some, List.filter_cons, alive, if_true, List.map_cons, ih]
      · rw [List.filter_cons_of_neg (by simpa [found] using alive)]
        simp only [Option.map_some, List.filter_cons, alive, Bool.false_eq_true, if_false, ih]

theorem mem_aliveMembers_iff :
    node ∈ s.aliveMembers order ↔ node ∈ order ∧ ∃ inc, s.members.lookup node = some (.alive inc) := by
  rw [aliveMembers_eq_filter, List.mem_filter, Option.any_eq_true]
  refine and_congr_right fun _ => ?_
  constructor
  · rintro ⟨state, found, alive⟩
    cases state with
    | alive inc => exact ⟨inc, found⟩
    | suspect inc since => cases alive
    | dead inc => cases alive
  · rintro ⟨inc, found⟩
    exact ⟨_, found, rfl⟩

def expire (timeout now : ℕ) : MemberState → MemberState
  | .suspect incarnation since =>
    if timeout ≤ now - since then .dead incarnation else .suspect incarnation since
  | state => state

theorem lookup_burials_of_notMem {dead : List (NodeId × UInt64)} (absent : node ∉ dead.map Prod.fst) :
    (dead.foldl (fun s e => s.markDead e.1 e.2) s).members.lookup node = s.members.lookup node := by
  induction dead generalizing s with
  | nil => rfl
  | cons e rest ih =>
    rw [List.map_cons, List.mem_cons, not_or] at absent
    exact (ih absent.2).trans (@lookup_mark_of_ne s 0 e.1 node absent.1 (.dead e.2))

theorem lookup_burials {dead : List (NodeId × UInt64)} {inc : UInt64} {since : ℕ}
    (once : (dead.map Prod.fst).Nodup) (foreign : node ≠ s.localId) (listed : (node, inc) ∈ dead)
    (suspected : s.members.lookup node = some (.suspect inc since)) :
    (dead.foldl (fun s e => s.markDead e.1 e.2) s).members.lookup node = some (.dead inc) := by
  induction dead generalizing s with
  | nil => cases listed
  | cons e rest ih =>
    rw [List.map_cons, List.nodup_cons] at once
    rcases List.mem_cons.mp listed with rfl | later
    · have marked := @lookup_mark s 0 node foreign (.dead inc)
      rw [suspected] at marked
      exact (lookup_burials_of_notMem once.1).trans marked
    · have other : node ≠ e.1 := by
        rintro rfl
        exact once.1 (List.mem_map.mpr ⟨_, later, rfl⟩)
      refine ih once.2 ?_ later ?_
      · exact fun own => foreign (own.trans (@localId_mark s 0 e.1 (.dead e.2)))
      · exact (@lookup_mark_of_ne s 0 e.1 node other (.dead e.2)).trans suspected

theorem mem_expired_iff {inc : UInt64} : (node, inc) ∈ s.expired now order ↔
    node ∈ order ∧ ∃ since, s.members.lookup node = some (.suspect inc since) ∧
      s.suspectTimeout ≤ now - since := by
  rw [SwimMembership.expired, List.mem_filterMap]
  constructor
  · rintro ⟨⟨other, state⟩, listed, kept⟩
    obtain ⟨node', inOrder, found⟩ := List.mem_filterMap.mp listed
    obtain ⟨state', held, same⟩ := Option.map_eq_some_iff.mp found
    cases same
    cases state with
    | alive inc' => cases kept
    | dead inc' => cases kept
    | suspect inc' since =>
      simp only at kept
      split at kept
      · rename_i overdue
        cases kept
        exact ⟨inOrder, since, held, overdue⟩
      · cases kept
  · rintro ⟨inOrder, since, held, overdue⟩
    refine ⟨(node, .suspect inc since), List.mem_filterMap.mpr ⟨node, inOrder, ?_⟩, if_pos overdue⟩
    rw [held]
    rfl

theorem sublist_expired (s : SwimMembership) (now : ℕ) (order : List NodeId) :
    ((s.expired now order).map Prod.fst).Sublist order := by
  induction order with
  | nil => exact List.Sublist.slnil
  | cons node rest ih =>
    simp only [SwimMembership.expired, Members.listed] at ih
    simp only [SwimMembership.expired, Members.listed, List.filterMap_cons]
    cases found : s.members.lookup node with
    | none => exact ih.cons node
    | some state =>
      cases state with
      | alive inc | dead inc => exact ih.cons node
      | suspect inc since =>
        simp only [Option.map_some, List.filterMap_cons]
        by_cases overdue : s.suspectTimeout ≤ now - since
        · simp only [if_pos overdue]
          exact ih.cons_cons node
        · simp only [if_neg overdue]
          exact ih.cons node

theorem lookup_expireSuspects (enumerates : Enumerates order s.members)
    (foreign : ∀ node ∈ order, node ≠ s.localId) (node : NodeId) :
    (s.expireSuspects now order).members.lookup node =
      (s.members.lookup node).map (expire s.suspectTimeout now) := by
  have untouched (stays : ∀ inc, (node, inc) ∉ s.expired now order) :
      (s.expireSuspects now order).members.lookup node = s.members.lookup node := by
    refine lookup_burials_of_notMem fun among => ?_
    obtain ⟨e, listed, rfl⟩ := List.mem_map.mp among
    exact stays e.2 listed
  cases found : s.members.lookup node with
  | none =>
    rw [untouched, found]
    · rfl
    · intro inc listed
      obtain ⟨_, since, suspected, _⟩ := mem_expired_iff.mp listed
      rw [found] at suspected
      cases suspected
  | some state =>
    have member : node ∈ order :=
      (enumerates.mem_iff node).mpr (Finmap.mem_iff.mpr ⟨state, found⟩)
    cases state with
    | alive inc | dead inc =>
      rw [untouched, found]
      · rfl
      · intro inc' listed
        obtain ⟨_, since, suspected, _⟩ := mem_expired_iff.mp listed
        rw [found] at suspected
        cases suspected
    | suspect inc since =>
      by_cases overdue : s.suspectTimeout ≤ now - since
      · rw [Option.map_some, expire, if_pos overdue]
        exact lookup_burials (enumerates.nodup.sublist (sublist_expired s now order)) (foreign node member)
          (mem_expired_iff.mpr ⟨member, since, found, overdue⟩) found
      · rw [untouched, found, Option.map_some, expire, if_neg overdue]
        intro inc' listed
        obtain ⟨_, since', suspected, past⟩ := mem_expired_iff.mp listed
        rw [found] at suspected
        cases suspected
        exact overdue past

theorem burials_eq (dead : List (NodeId × UInt64)) (s : SwimMembership) : ∃ members,
    dead.foldl (fun s e => s.markDead e.1 e.2) s = { s with members := members } := by
  induction dead generalizing s with
  | nil => exact ⟨s.members, rfl⟩
  | cons e rest ih =>
    obtain ⟨members, same⟩ := ih (s.markDead e.1 e.2)
    refine ⟨members, same.trans ?_⟩
    unfold SwimMembership.markDead
    split <;> rfl

theorem any_isAlive_expire (timeout now : ℕ) (entry : Option MemberState) :
    (entry.map (expire timeout now)).any MemberState.isAlive = entry.any MemberState.isAlive := by
  cases entry with
  | none => rfl
  | some state =>
    cases state with
    | alive inc | dead inc => rfl
    | suspect inc since =>
      simp only [Option.map_some, expire]
      split <;> rfl

/-- The suspects whose time is up are marked, and the next of those alive is pinged. -/
structure Ticked (order : List NodeId) (s : SwimMembership) (now : ℕ) (t : SwimMembership)
    (probes : List (NodeId × WireMessage)) : Prop where
  localId : t.localId = s.localId
  suspectTimeout : t.suspectTimeout = s.suspectTimeout
  entries : ∀ node, t.members.lookup node = (s.members.lookup node).map (expire s.suspectTimeout now)
  pings : target? order s = none ∧ probes = [] ∧ t.probeIndex = s.probeIndex ∨
    ∃ target sender nonce piggyback, target? order s = some target ∧
      probes = [(target, .swimPing sender nonce piggyback)] ∧ t.probeIndex = s.probeIndex + 1

theorem protocolTick_ticked (enumerates : Enumerates order s.members)
    (foreign : ∀ node ∈ order, node ≠ s.localId) (now : ℕ) :
    Ticked order s now (s.protocolTick now order).1 (s.protocolTick now order).2 := by
  have entries : ∀ node, (s.expireSuspects now order).members.lookup node =
      (s.members.lookup node).map (expire s.suspectTimeout now) := lookup_expireSuspects enumerates foreign
  obtain ⟨members, same⟩ : ∃ members, s.expireSuspects now order = { s with members := members } :=
    burials_eq (s.expired now order) s
  have alive : (s.expireSuspects now order).aliveMembers order = s.aliveMembers order := by
    rw [aliveMembers_eq_filter, aliveMembers_eq_filter]
    refine List.filter_congr fun node _ => ?_
    rw [entries node, any_isAlive_expire]
  have index : (s.expireSuspects now order).probeIndex = s.probeIndex := by rw [same]
  have own : (s.expireSuspects now order).localId = s.localId := by rw [same]
  have timeout : (s.expireSuspects now order).suspectTimeout = s.suspectTimeout := by rw [same]
  unfold SwimMembership.protocolTick
  simp only [alive, index]
  cases chosen : (s.aliveMembers order)[s.probeIndex.toNat % (s.aliveMembers order).length]? with
  | none => exact ⟨own, timeout, entries, .inl ⟨chosen, rfl, rfl⟩⟩
  | some target => exact ⟨own, timeout, entries, .inr ⟨target, _, _, _, chosen, rfl, rfl⟩⟩

end Tables

section Probes

variable {order : List NodeId} {s : SwimMembership} {crashed : NodeId → Bool} {r : Round}
  {target : NodeId}

theorem handled_ack (endpoint : Bool) (now : ℕ) (s : SwimMembership) (node : NodeId)
    (nonce incarnation : UInt64) : ∃ pending acks,
    handled endpoint now s (.swimPingAck node nonce incarnation) =
      { s.markAlive node incarnation with pendingProbes := pending, acks := acks } := by
  cases endpoint with
  | false => exact resolveProbe_eq (s.markAlive node incarnation) nonce incarnation
  | true =>
    obtain ⟨pending, acks, same⟩ := resolveProbe_eq s nonce incarnation
    refine ⟨pending, acks, ?_⟩
    change (s.resolveProbe nonce incarnation).markAlive node incarnation = _
    rw [same]
    unfold SwimMembership.markAlive
    simp only
    split <;> rfl

/-- A probe makes one mark: a suspicion of the target when it has crashed, otherwise a sign of life
of a member that is alive and has not. -/
structure Probed (order : List NodeId) (crashed : NodeId → Bool) (s : SwimMembership) (now : ℕ)
    (target : NodeId) (t : SwimMembership) : Prop where
  localId : t.localId = s.localId
  suspectTimeout : t.suspectTimeout = s.suspectTimeout
  probeIndex : t.probeIndex = s.probeIndex
  marked : crashed target = true ∧
      t.members = (s.mark now target (.suspect (s.lastKnownIncarnation target))).members ∨
    crashed target = false ∧ ∃ node incarnation, crashed node = false ∧
      node ∈ s.aliveMembers order ∧ t.members = (s.mark now node (.alive incarnation)).members

theorem suspectTarget_probed {t : SwimMembership} {now : ℕ} (isCrashed : crashed target = true)
    (localId : t.localId = s.localId) (suspectTimeout : t.suspectTimeout = s.suspectTimeout)
    (probeIndex : t.probeIndex = s.probeIndex) (members : t.members = s.members) :
    Probed order crashed s now target (suspectTarget t now target) := by
  have level : t.lastKnownIncarnation target = s.lastKnownIncarnation target := by
    simp only [SwimMembership.lastKnownIncarnation, members]
  refine ⟨?_, ?_, ?_, .inl ⟨isCrashed, ?_⟩⟩
  · exact (@localId_mark t now target (.suspect _)).trans localId
  · unfold suspectTarget SwimMembership.markSuspect
    split <;> exact suspectTimeout
  · unfold suspectTarget SwimMembership.markSuspect
    split <;> exact probeIndex
  · rw [suspectTarget, level]
    simp only [SwimMembership.mark, SwimMembership.markSuspect, localId]
    split
    · exact members
    · simp only [members]

theorem ack_probed {t : SwimMembership} {now : ℕ} {node : NodeId} (endpoint : Bool)
    (nonce incarnation : UInt64) (running : crashed target = false) (alike : crashed node = false)
    (alive : node ∈ s.aliveMembers order) (localId : t.localId = s.localId)
    (suspectTimeout : t.suspectTimeout = s.suspectTimeout) (probeIndex : t.probeIndex = s.probeIndex)
    (members : t.members = s.members) :
    Probed order crashed s now target
      (handled endpoint now t (.swimPingAck node nonce incarnation)) := by
  obtain ⟨pending, acks, same⟩ := handled_ack endpoint now t node nonce incarnation
  rw [same]
  refine ⟨?_, ?_, ?_, .inr ⟨running, node, incarnation, alike, alive, ?_⟩⟩
  · exact (@localId_mark t now node (.alive incarnation)).trans localId
  · unfold SwimMembership.markAlive
    split <;> exact suspectTimeout
  · unfold SwimMembership.markAlive
    split <;> exact probeIndex
  · simp only [SwimMembership.mark, SwimMembership.markAlive, localId]
    split
    · exact members
    · simp only [members]

theorem probeWithAck_probed (alive : target ∈ s.aliveMembers order) (nonce : UInt64)
    (expected : Expected order crashed s target r.outcome) :
    Probed order crashed s r.later target (probeWithAck order s r target nonce) := by
  unfold probeWithAck
  simp only
  cases outcome : r.outcome with
  | refused =>
    rw [outcome] at expected
    exact suspectTarget_probed expected rfl rfl rfl rfl
  | acked incarnation =>
    rw [outcome] at expected
    exact ack_probed _ _ _ expected expected alive rfl rfl rfl rfl
  | silent relayed =>
    rw [outcome] at expected
    cases relayed with
    | none =>
      simp only
      split
      · exact suspectTarget_probed expected rfl rfl rfl rfl
      · exact suspectTarget_probed expected rfl rfl rfl rfl
    | some ack =>
      obtain ⟨running, alike, listed, other⟩ := expected
      have some_ : ((s.register nonce (.direct r.probe)).aliveMembers order).filter
          (fun node => decide (node ≠ target)) ≠ [] :=
        List.ne_nil_of_mem (List.mem_filter.mpr ⟨listed, by simpa using other⟩)
      simp only
      rw [if_neg some_]
      exact ack_probed _ _ _ running alike listed rfl rfl rfl rfl

end Probes

section Interleaved

/-! A round is a run of the interleaved calls in which nothing else happens. -/

variable {order : List NodeId} {swim : SwimMembership} {now : ℕ} {heard : List (NodeId × UInt64)}
  {calls : ℕ → Task} {r : Round} {target : NodeId} {nonce : UInt64}

theorem reach_elapse {later : ℕ} (after : now ≤ later) :
    Reach step anyStep ⟨⟨swim, now, heard⟩, calls⟩ ⟨⟨swim, later, heard⟩, calls⟩ := by
  refine @reach_step _ _ _ _ _ _ (Label.elapse (later - now)) trivial ?_
  simp only [step, Nat.add_sub_cancel' after]

theorem reach_suspected (j : ℕ) (p : Probe) :
    Reach step anyStep ⟨⟨swim, now, heard⟩, Function.update calls j (.lastKnown p)⟩
      ⟨⟨suspectTarget swim now p.target, now, heard⟩, Function.update calls j (.ended p true)⟩ := by
  have reads : Reach step anyStep ⟨⟨swim, now, heard⟩, Function.update calls j (.lastKnown p)⟩
      ⟨⟨swim, now, heard⟩, Function.update calls j (.suspecting p (swim.lastKnownIncarnation p.target))⟩ :=
    @reach_advance _ _ _ _ noChoice _ _ rfl
  exact reads.trans (@reach_advance _ _ _ _ noChoice _ _ rfl)

theorem reach_delegated (distinct : order.Nodup) (j : ℕ) (p : Probe) {delegates : List NodeId}
    (others : (swim.aliveMembers order).filter (fun node => decide (node ≠ p.target)) = delegates) :
    Reach step anyStep ⟨⟨swim, now, heard⟩, Function.update calls j (.delegating p [] [])⟩
      ⟨⟨swim, now, heard⟩, Function.update calls j
        (if delegates = [] then .lastKnown p else .enlisting p (delegates.take indirectProbeK))⟩ := by
  obtain ⟨visited, lists⟩ : ∃ visited,
      Reach step anyStep ⟨⟨swim, now, heard⟩, Function.update calls j (.delegating p [] [])⟩
        ⟨⟨swim, now, heard⟩, Function.update calls j (.delegating p visited _)⟩ :=
    @reach_iteration ⟨swim, now, heard⟩ calls j _ (Task.delegating p)
      (fun alive e => alive ++ keepAlive e.1 e.2)
      (fun visited alive node state seen => by simp only [advance, seen, Option.map_some]) order []
      distinct (fun _ _ => List.not_mem_nil) []
  rw [foldl_keepAlive] at lists
  refine lists.trans (@reach_advance _ _ _ _ ⟨none, true, delegates⟩ _ _ ?_)
  simp only [advance, others, if_pos (List.Perm.refl delegates)]
  cases delegates with
  | nil => rfl
  | cons first rest => rfl

theorem acked_of_handled {receiver : Receiver} {s : SwimMembership} (endpoint : Bool) (node : NodeId)
    (incarnation : UInt64) (waits : s.pendingProbes.lookup nonce = some receiver) :
    (handled endpoint now s (.swimPingAck node nonce incarnation)).acks.any
      (fun ack => decide (ack.1 = receiver)) = true := by
  have sent : (receiver, incarnation) ∈
      (handled endpoint now s (.swimPingAck node nonce incarnation)).acks := by
    cases endpoint with
    | false =>
      change _ ∈ ((s.markAlive node incarnation).resolveProbe nonce incarnation).acks
      have waits' : (s.markAlive node incarnation).pendingProbes.lookup nonce = some receiver := by
        rw [show (s.markAlive node incarnation).pendingProbes = s.pendingProbes from
          pendingProbes_mark s 0 node (.alive incarnation)]
        exact waits
      rw [resolveProbe_of_some waits']
      exact List.mem_append_right _ List.mem_cons_self
    | true =>
      change _ ∈ ((s.resolveProbe nonce incarnation).markAlive node incarnation).acks
      rw [resolveProbe_of_some waits]
      unfold SwimMembership.markAlive
      split <;> exact List.mem_append_right _ List.mem_cons_self
  exact List.any_eq_true.mpr ⟨_, sent, decide_eq_true rfl⟩

theorem reach_acknowledged {t u : Task} {j k : ℕ} (free : calls k = .idle) (apart : k ≠ j)
    (endpoint : Bool) (msg : WireMessage)
    (moves : ∀ heard, advance ⟨handled endpoint now swim msg, now, heard⟩ j noChoice t =
      some (⟨handled endpoint now swim msg, now, heard⟩, u)) :
    ∃ heard' calls', Reach step anyStep ⟨⟨swim, now, heard⟩, Function.update calls j t⟩
      ⟨⟨handled endpoint now swim msg, now, heard'⟩, Function.update calls' j u⟩ := by
  have idle : Function.update calls j t k = .idle := by
    rw [Function.update_of_ne apart]
    exact free
  obtain ⟨heard', received⟩ := @reach_received ⟨swim, now, heard⟩ k _ idle endpoint msg
  rw [Function.update_comm apart.symm] at received
  exact ⟨heard', Function.update calls k (.handling []), received.trans (reach_advance (moves heard'))⟩

theorem reach_probed (distinct : order.Nodup) (after : now ≤ r.later) {k : ℕ} (free : calls k = .idle)
    (apart : k ≠ r.probe) : ∃ heard' calls' p suspected,
      Reach step anyStep
        ⟨⟨swim, now, heard⟩, Function.update calls r.probe (.registering ⟨target, nonce, []⟩)⟩
        ⟨⟨probeWithAck order swim r target nonce, r.later, heard'⟩,
          Function.update calls' r.probe (.ended p suspected)⟩ := by
  let registered := swim.register nonce (.direct r.probe)
  let p : Probe := ⟨target, nonce, []⟩
  have registers : Reach step anyStep
      ⟨⟨swim, now, heard⟩, Function.update calls r.probe (.registering p)⟩
      ⟨⟨registered, now, heard⟩, Function.update calls r.probe (.sending p)⟩ :=
    @reach_advance _ _ _ _ noChoice _ _ rfl
  have sends : Reach step anyStep ⟨⟨registered, now, heard⟩, Function.update calls r.probe (.sending p)⟩
      ⟨⟨registered, r.later, heard⟩, Function.update calls r.probe (.awaiting p)⟩ :=
    Relation.ReflTransGen.trans (@reach_advance _ _ _ _ noChoice _ _ rfl) (reach_elapse after)
  unfold probeWithAck
  simp only
  cases outcome : r.outcome with
  | refused =>
    have refuses : Reach step anyStep
        ⟨⟨registered, now, heard⟩, Function.update calls r.probe (.sending p)⟩
        ⟨⟨{ registered with pendingProbes := registered.pendingProbes.erase nonce }, now, heard⟩,
          Function.update calls r.probe (.lastKnown p)⟩ :=
      @reach_advance _ _ _ _ ⟨none, false, []⟩ _ _ rfl
    exact ⟨heard, calls, p, true,
      ((registers.trans refuses).trans (reach_elapse after)).trans (reach_suspected r.probe p)⟩
  | acked incarnation =>
    have waits : registered.pendingProbes.lookup nonce = some (.direct r.probe) :=
      Finmap.lookup_insert _
    obtain ⟨heard', calls', acknowledged⟩ := @reach_acknowledged registered r.later heard calls
      (.awaiting p) (.ended p false) r.probe k free apart r.endpoint
      (.swimPingAck target nonce incarnation) (fun heard => by
        simp only [advance, noChoice, if_true, Shared.acked, acked_of_handled _ _ _ waits])
    exact ⟨heard', calls', p, false, (registers.trans sends).trans acknowledged⟩
  | silent relayed =>
    have gives : Reach step anyStep
        ⟨⟨registered, r.later, heard⟩, Function.update calls r.probe (.awaiting p)⟩
        ⟨⟨registered, r.later, heard⟩, Function.update calls r.probe (.delegating p [] [])⟩ :=
      @reach_advance _ _ _ _ ⟨none, false, []⟩ _ _ rfl
    have listed := (registers.trans sends).trans gives
    cases others : ((registered.aliveMembers order).filter fun node => decide (node ≠ target)) with
    | nil =>
      have nobody := @reach_delegated order registered r.later heard calls distinct r.probe p _ others
      rw [if_pos rfl] at nobody
      exact ⟨heard, calls, p, true, (listed.trans nobody).trans (reach_suspected r.probe p)⟩
    | cons first rest =>
      have enlists := @reach_delegated order registered r.later heard calls distinct r.probe p _ others
      rw [if_neg (List.cons_ne_nil first rest)] at enlists
      let asked := registerProbe registered (.indirect r.probe)
      let p' : Probe := ⟨target, nonce, [registered.probeNonce]⟩
      have asks : Reach step anyStep ⟨⟨registered, r.later, heard⟩,
          Function.update calls r.probe (.enlisting p ((first :: rest).take indirectProbeK))⟩
          ⟨⟨asked, r.later, heard⟩, Function.update calls r.probe (.awaitingIndirect p')⟩ :=
        Relation.ReflTransGen.trans (@reach_advance _ _ _ _ noChoice _ _ rfl)
          (@reach_advance _ _ _ _ noChoice _ _ rfl)
      have waiting := (listed.trans enlists).trans asks
      cases relayed with
      | none =>
        have silence : Reach step anyStep
            ⟨⟨asked, r.later, heard⟩, Function.update calls r.probe (.awaitingIndirect p')⟩
            ⟨⟨asked, r.later, heard⟩, Function.update calls r.probe (.lastKnown p')⟩ :=
          @reach_advance _ _ _ _ ⟨none, false, []⟩ _ _ rfl
        exact ⟨heard, calls, p', true, (waiting.trans silence).trans (reach_suspected r.probe p')⟩
      | some ack =>
        have waits : asked.pendingProbes.lookup registered.probeNonce = some (.indirect r.probe) :=
          Finmap.lookup_insert _
        obtain ⟨heard', calls', acknowledged⟩ := @reach_acknowledged asked r.later heard calls
          (.awaitingIndirect p') (.ended p' false) r.probe k free apart r.endpoint
          (.swimPingAck ack.1 registered.probeNonce ack.2) (fun heard => by
            simp only [advance, noChoice, if_true, Shared.acked, acked_of_handled _ _ _ waits])
        exact ⟨heard', calls', p', false, waiting.trans acknowledged⟩

theorem reach_round (distinct : order.Nodup) (after : r.now ≤ r.later) {i k : ℕ}
    (idle : ∀ c ∈ [i, r.probe, k], calls c = .idle) (apart : [i, r.probe, k].Nodup) :
    ∃ heard' calls', Reach step anyStep ⟨⟨swim, r.now, heard⟩, calls⟩
      ⟨⟨round order swim r, r.later, heard'⟩, calls'⟩ := by
  have ticks := @reach_tick ⟨swim, r.now, heard⟩ i calls order (idle i (by simp)) distinct
  unfold round
  simp only at ticks
  generalize swim.protocolTick r.now order = tick at ticks ⊢
  obtain ⟨t, probes⟩ := tick
  have unprobed : ∃ heard' calls', Reach step anyStep ⟨⟨swim, r.now, heard⟩, calls⟩
      ⟨⟨t, r.later, heard'⟩, calls'⟩ := ⟨_, _, ticks.trans (reach_elapse after)⟩
  cases probes with
  | nil => exact unprobed
  | cons ping rest =>
    obtain ⟨target, msg⟩ := ping
    cases msg with
    | swimPing sender nonce piggyback =>
      simp only [List.nodup_cons, List.mem_cons, List.not_mem_nil, or_false, not_or] at apart
      obtain ⟨⟨tickApart, handlerApart⟩, probeApart, -⟩ := apart
      have spawns : Reach step anyStep
          ⟨⟨t, r.now, heard⟩, Function.update calls i (.ticked ((target, .swimPing sender nonce piggyback) :: rest))⟩
          ⟨⟨t, r.now, heard⟩, Function.update (Function.update calls i (.ticked rest)) r.probe
            (.registering ⟨target, nonce, []⟩)⟩ := by
        refine @reach_step _ _ _ _ _ _ (Label.spawn i r.probe) trivial ?_
        have free : Function.update calls i
            (.ticked ((target, .swimPing sender nonce piggyback) :: rest)) r.probe = .idle := by
          rw [Function.update_of_ne (Ne.symm tickApart)]
          exact idle r.probe (by simp)
        simp only [step, Function.update_self, free, Function.update_idem, SwimRuns.spawned]
      have handlerIdle : Function.update calls i (.ticked rest) k = .idle := by
        rw [Function.update_of_ne (Ne.symm handlerApart)]
        exact idle k (by simp)
      obtain ⟨heard', calls', p, suspected, probes⟩ := @reach_probed order t r.now heard
        (Function.update calls i (.ticked rest)) r target nonce distinct after k handlerIdle
        (Ne.symm probeApart)
      exact ⟨heard', _, (ticks.trans spawns).trans probes⟩
    | _ => exact unprobed

end Interleaved

section Rounds

variable {order : List NodeId} {crashed : NodeId → Bool} {latest : ℕ} {s : SwimMembership} {r : Round}

/-- A table of which `order` lists the members, where everyone who has not crashed is alive and no
suspicion is younger than `latest`. -/
structure Watched (order : List NodeId) (crashed : NodeId → Bool) (latest : ℕ) (s : SwimMembership) :
    Prop where
  enumerates : Enumerates order s.members
  foreign : ∀ node ∈ order, node ≠ s.localId
  live : ∀ node ∈ order, crashed node = false → ∃ inc, s.members.lookup node = some (.alive inc)
  dated : ∀ node inc since, s.members.lookup node = some (.suspect inc since) → since ≤ latest

/-- What a round does to the table: the suspects whose time is up are marked, and then at most one mark
is made. -/
inductive Turn (order : List NodeId) (crashed : NodeId → Bool) (s : SwimMembership) (r : Round)
    (t : SwimMembership) : Prop where
  | nobody (none_ : target? order s = none) (index : t.probeIndex = s.probeIndex)
      (entries : ∀ node, t.members.lookup node =
        (s.members.lookup node).map (expire s.suspectTimeout r.now))
  | suspects (target : NodeId) (incarnation : UInt64) (chosen : target? order s = some target)
      (isCrashed : crashed target = true) (index : t.probeIndex = s.probeIndex + 1)
      (entry : t.members.lookup target = some (.suspect incarnation r.later))
      (entries : ∀ node, node ≠ target → t.members.lookup node =
        (s.members.lookup node).map (expire s.suspectTimeout r.now))
  | hears (target node : NodeId) (incarnation : UInt64) (chosen : target? order s = some target)
      (running : crashed target = false) (alike : crashed node = false)
      (index : t.probeIndex = s.probeIndex + 1)
      (listed : node ∈ order) (entry : t.members.lookup node = some (.alive incarnation))
      (entries : ∀ other, other ≠ node → t.members.lookup other =
        (s.members.lookup other).map (expire s.suspectTimeout r.now))

theorem aliveMembers_of_entries {t : SwimMembership}
    (entries : ∀ node, t.members.lookup node = (s.members.lookup node).map (expire s.suspectTimeout r.now)) :
    t.aliveMembers order = s.aliveMembers order := by
  rw [aliveMembers_eq_filter, aliveMembers_eq_filter]
  refine List.filter_congr fun node _ => ?_
  rw [entries node, any_isAlive_expire]

theorem round_turn (watched : Watched order crashed latest s)
    (expected : ∀ target, target? order s = some target → Expected order crashed s target r.outcome) :
    (round order s r).localId = s.localId ∧ (round order s r).suspectTimeout = s.suspectTimeout ∧
      Turn order crashed s r (round order s r) := by
  have ticked := protocolTick_ticked watched.enumerates watched.foreign r.now
  unfold round
  generalize s.protocolTick r.now order = tick at ticked ⊢
  obtain ⟨t, probes⟩ := tick
  simp only at ticked ⊢
  have alive : t.aliveMembers order = s.aliveMembers order := aliveMembers_of_entries ticked.entries
  rcases ticked.pings with ⟨nobody, rfl, index⟩ | ⟨target, sender, nonce, piggyback, chosen, rfl, index⟩
  · exact ⟨ticked.localId, ticked.suspectTimeout, .nobody nobody index ticked.entries⟩
  · have listed : target ∈ s.aliveMembers order := List.mem_of_getElem? chosen
    have expects : Expected order crashed t target r.outcome := by
      have before := expected target chosen
      cases outcome : r.outcome with
      | silent relayed =>
        cases relayed with
        | none => rw [outcome] at before; exact before
        | some ack =>
          rw [outcome] at before
          obtain ⟨running, alike, member, other⟩ := before
          exact ⟨running, alike, alive ▸ member, other⟩
      | _ => rw [outcome] at before; exact before
    obtain ⟨localId, timeout, sameIndex, marked⟩ :=
      probeWithAck_probed (alive ▸ listed) nonce expects
    refine ⟨localId.trans ticked.localId, timeout.trans ticked.suspectTimeout, ?_⟩
    have foreign : ∀ node ∈ t.aliveMembers order, node ≠ t.localId := by
      intro node member own
      exact watched.foreign node (mem_aliveMembers_iff.mp member).1 (own.trans ticked.localId)
    rcases marked with ⟨isCrashed, members⟩ | ⟨running, node, incarnation, alike, member, members⟩
    · obtain ⟨inOrder, inc, found⟩ := mem_aliveMembers_iff.mp (alive ▸ listed : target ∈ t.aliveMembers order)
      have level : t.lastKnownIncarnation target = inc := by
        simp only [SwimMembership.lastKnownIncarnation, found, MemberState.incarnation]
      refine .suspects target inc chosen isCrashed (sameIndex.trans index) ?_ ?_
      · change (probeWithAck order t r target nonce).members.lookup target = _
        rw [members, lookup_mark (foreign target (alive ▸ listed)), found, level]
        exact congrArg some (if_pos (UInt64.le_refl inc))
      · intro other apart
        change (probeWithAck order t r target nonce).members.lookup other = _
        rw [members, lookup_mark_of_ne apart]
        exact ticked.entries other
    · obtain ⟨inOrder, inc, found⟩ := mem_aliveMembers_iff.mp member
      refine .hears target node (if incarnation ≤ inc then inc else incarnation) chosen running alike
        (sameIndex.trans index) inOrder ?_ ?_
      · change (probeWithAck order t r target nonce).members.lookup node = _
        rw [members, lookup_mark (foreign node member), found]
        simp only [Update.modify, MemberState.onAlive]
        split <;> rfl
      · intro other apart
        change (probeWithAck order t r target nonce).members.lookup other = _
        rw [members, lookup_mark_of_ne apart]
        exact ticked.entries other

theorem expire_crashed {entry : MemberState} {now : ℕ} (past : latest + s.suspectTimeout ≤ now)
    (notAlive : ∀ inc, entry ≠ .alive inc)
    (dated : ∀ inc since, entry = .suspect inc since → since ≤ latest) :
    ∃ inc, expire s.suspectTimeout now entry = .dead inc := by
  cases entry with
  | alive inc => exact absurd rfl (notAlive inc)
  | dead inc => exact ⟨inc, rfl⟩
  | suspect inc since =>
    have early := dated inc since rfl
    exact ⟨inc, if_pos (by omega)⟩

theorem expire_eq_suspect {entry : MemberState} {timeout now : ℕ} {inc : UInt64} {since : ℕ}
    (kept : expire timeout now entry = .suspect inc since) : entry = .suspect inc since := by
  cases entry with
  | alive inc' | dead inc' => cases kept
  | suspect inc' since' =>
    simp only [expire] at kept
    split at kept
    · cases kept
    · exact kept

theorem Turn.entry {t : SwimMembership} (turn : Turn order crashed s r t) (node : NodeId) :
    t.members.lookup node = (s.members.lookup node).map (expire s.suspectTimeout r.now) ∨
      node ∈ order ∧ crashed node = true ∧ (∃ inc, t.members.lookup node = some (.suspect inc r.later)) ∨
      node ∈ order ∧ crashed node = false ∧ ∃ inc, t.members.lookup node = some (.alive inc) := by
  cases turn with
  | nobody none_ index entries => exact .inl (entries node)
  | suspects target incarnation chosen isCrashed index entry entries =>
    by_cases here : node = target
    · subst here
      have listed : node ∈ s.aliveMembers order := List.mem_of_getElem? chosen
      exact .inr (.inl ⟨(mem_aliveMembers_iff.mp listed).1, isCrashed, incarnation, entry⟩)
    · exact .inl (entries node here)
  | hears target node' incarnation chosen running alike index listed entry entries =>
    by_cases here : node = node'
    · subst here
      exact .inr (.inr ⟨listed, alike, incarnation, entry⟩)
    · exact .inl (entries node here)

theorem Turn.watched {t : SwimMembership} (turn : Turn order crashed s r t)
    (watched : Watched order crashed latest s) (localId : t.localId = s.localId)
    (timely : r.later ≤ latest) : Watched order crashed latest t := by
  refine ⟨⟨watched.enumerates.nodup, fun node => ?_⟩, ?_, ?_, ?_⟩
  · rw [watched.enumerates.mem_iff node, ← Finmap.lookup_isSome, ← Finmap.lookup_isSome]
    rcases turn.entry node with same | ⟨listed, -, inc, entry⟩ | ⟨listed, -, inc, entry⟩
    · rw [same, Option.isSome_map]
    · have member := Finmap.lookup_isSome.mpr ((watched.enumerates.mem_iff node).mp listed)
      rw [entry, member]
      rfl
    · have member := Finmap.lookup_isSome.mpr ((watched.enumerates.mem_iff node).mp listed)
      rw [entry, member]
      rfl
  · intro node listed own
    exact watched.foreign node listed (own.trans localId)
  · intro node listed running
    rcases turn.entry node with same | ⟨-, isCrashed, -⟩ | ⟨-, -, alive⟩
    · obtain ⟨inc, found⟩ := watched.live node listed running
      exact ⟨inc, by rw [same, found]; rfl⟩
    · exact absurd (running.symm.trans isCrashed) (by decide)
    · exact alive
  · intro node inc since suspected
    rcases turn.entry node with same | ⟨-, -, inc', entry⟩ | ⟨-, -, inc', entry⟩
    · rw [same] at suspected
      obtain ⟨state, found, kept⟩ := Option.map_eq_some_iff.mp suspected
      rw [expire_eq_suspect kept] at found
      exact watched.dated node inc since found
    · rw [entry] at suspected
      cases suspected
      exact timely
    · rw [entry] at suspected
      cases suspected

theorem Turn.sweeps {t : SwimMembership} (turn : Turn order crashed s r t)
    (watched : Watched order crashed latest s) (small : s.probeIndex.toNat + 1 < 2 ^ 64) :
    (t.aliveMembers order, t.probeIndex.toNat) =
      sweep crashed (s.aliveMembers order, s.probeIndex.toNat) := by
  have counted : (s.probeIndex + 1).toNat = s.probeIndex.toNat + 1 := by
    rw [UInt64.toNat_add]
    exact Nat.mod_eq_of_lt small
  have next {a : NodeId} (chosen : target? order s = some a) :
      sweep crashed (s.aliveMembers order, s.probeIndex.toNat) =
        (if crashed a then (s.aliveMembers order).erase a else s.aliveMembers order,
          s.probeIndex.toNat + 1) := sweep_of_some crashed chosen
  cases turn with
  | nobody none_ index entries =>
    have still : sweep crashed (s.aliveMembers order, s.probeIndex.toNat) =
        (s.aliveMembers order, s.probeIndex.toNat) := by
      unfold target? at none_
      simp only [sweep, none_]
    rw [still, aliveMembers_of_entries entries, index]
  | suspects target incarnation chosen isCrashed index entry entries =>
    rw [next chosen, if_pos isCrashed, index, counted]
    congr 1
    have once : (s.aliveMembers order).Nodup := by
      rw [aliveMembers_eq_filter]
      exact watched.enumerates.nodup.filter _
    rw [once.erase_eq_filter, aliveMembers_eq_filter, aliveMembers_eq_filter, List.filter_filter]
    refine List.filter_congr fun node _ => ?_
    by_cases here : node = target
    · subst here
      rw [entry]
      simp [MemberState.isAlive]
    · rw [entries node here, any_isAlive_expire]
      simp [here]
  | hears target node incarnation chosen running alike index listed entry entries =>
    rw [next chosen, if_neg (by simp [running]), index, counted]
    congr 1
    rw [aliveMembers_eq_filter, aliveMembers_eq_filter]
    refine List.filter_congr fun other _ => ?_
    by_cases here : other = node
    · subst here
      obtain ⟨inc, found⟩ := watched.live other listed alike
      rw [entry, found]
      rfl
    · rw [entries other here, any_isAlive_expire]

theorem rounds_sweep {rs : List Round} (watched : Watched order crashed latest s)
    (plays : Plays order crashed s rs) (timely : ∀ r ∈ rs, r.later ≤ latest)
    (small : s.probeIndex.toNat + rs.length < 2 ^ 64) :
    Watched order crashed latest (rounds order s rs) ∧
      (rounds order s rs).suspectTimeout = s.suspectTimeout ∧
      ((rounds order s rs).aliveMembers order, (rounds order s rs).probeIndex.toNat) =
        (sweep crashed)^[rs.length] (s.aliveMembers order, s.probeIndex.toNat) := by
  induction rs generalizing s with
  | nil => exact ⟨watched, rfl, rfl⟩
  | cons r rest ih =>
    obtain ⟨expected, later⟩ := plays
    obtain ⟨localId, timeout, turn⟩ := round_turn watched expected
    rw [List.length_cons] at small
    have onward := turn.watched watched localId (timely r List.mem_cons_self)
    have swept := turn.sweeps watched (by omega)
    have counted : (round order s r).probeIndex.toNat ≤ s.probeIndex.toNat + 1 :=
      (congrArg Prod.snd swept).trans_le (snd_sweep_le crashed _)
    obtain ⟨watched', timeout', swept'⟩ := ih onward later
      (fun other listed => timely other (List.mem_cons_of_mem _ listed)) (by omega)
    refine ⟨watched', timeout'.trans timeout, ?_⟩
    rw [List.length_cons, Function.iterate_succ_apply, ← swept]
    exact swept'

theorem not_alive_of_rounds {rs : List Round} (watched : Watched order crashed latest s)
    (plays : Plays order crashed s rs) (timely : ∀ r ∈ rs, r.later ≤ latest)
    (small : s.probeIndex.toNat + rs.length < 2 ^ 64)
    (enough : order.countP crashed * order.length ≤ rs.length) {node : NodeId} (listed : node ∈ order)
    (isCrashed : crashed node = true) (inc : UInt64) :
    (rounds order s rs).members.lookup node ≠ some (.alive inc) := by
  obtain ⟨_, _, swept⟩ := rounds_sweep watched plays timely small
  have sub : (s.aliveMembers order).Sublist order := by
    rw [aliveMembers_eq_filter]
    exact List.filter_sublist
  have fewer : (s.aliveMembers order).countP crashed * order.length ≤ rs.length :=
    (Nat.mul_le_mul_right _ sub.countP_le).trans enough
  have gone := countP_sweeps_eq_zero crashed s.probeIndex.toNat sub.length_le fewer
  rw [← swept] at gone
  intro alive
  exact List.countP_eq_zero.mp gone node (mem_aliveMembers_iff.mpr ⟨listed, inc, alive⟩) isCrashed

theorem rounds_concat (order : List NodeId) (s : SwimMembership) (rs : List Round) (last : Round) :
    rounds order s (rs ++ [last]) = round order (rounds order s rs) last := by
  rw [rounds, List.foldl_concat]
  rfl

theorem expected_of_plays {rs : List Round} {last : Round} (plays : Plays order crashed s (rs ++ [last]))
    (target : NodeId) (chosen : target? order (rounds order s rs) = some target) :
    Expected order crashed (rounds order s rs) target last.outcome := by
  induction rs generalizing s with
  | nil => exact plays.1 target chosen
  | cons r rest ih => exact ih plays.2 chosen

theorem Turn.entry_of_not_alive {t : SwimMembership} {node : NodeId} (turn : Turn order crashed s r t)
    (isCrashed : crashed node = true) (notAlive : ∀ inc, s.members.lookup node ≠ some (.alive inc)) :
    t.members.lookup node = (s.members.lookup node).map (expire s.suspectTimeout r.now) := by
  cases turn with
  | nobody none_ index entries => exact entries node
  | suspects target incarnation chosen _ index entry entries =>
    refine entries node ?_
    rintro rfl
    have listed : node ∈ s.aliveMembers order := List.mem_of_getElem? chosen
    obtain ⟨_, inc, alive⟩ := mem_aliveMembers_iff.mp listed
    exact notAlive inc alive
  | hears target other incarnation chosen running alike index listed entry entries =>
    refine entries node ?_
    rintro rfl
    exact absurd (alike.symm.trans isCrashed) (by decide)

end Rounds

end Craftec.Net.Detection
