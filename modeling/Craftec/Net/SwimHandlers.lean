/- GID: Craftec/Net/SwimHandlers
   generality: I
   digest: The two handlers of SWIM messages compared on every table and message. -/

import Mathlib
import Craftec.Net.Swim
import Craftec.Net.SwimRuns
import Craftec.Types.Digest
import Craftec.Types.Wire

set_option autoImplicit false
set_option relaxedAutoImplicit false

namespace Craftec.Net.SwimHandlers

open Craftec.Net.Swim
open Craftec.Net.SwimRuns
open Craftec.Types.Digest (NodeId)
open Craftec.Types.Wire (WireMessage)

/-- Two tables record the same status and incarnation of every peer, next to the same own
incarnation and the same pending probes. -/
structure Agree (s t : SwimMembership) : Prop where
  members : ∀ node, (s.members.lookup node).map undated = (t.members.lookup node).map undated
  incarnation : s.incarnation = t.incarnation
  pending : s.pendingProbes = t.pendingProbes

/-! Updates and the clock -/

theorem undated_modify {now now' : ℕ} {u : Update} {state state' : MemberState}
    (same : undated state = undated state') :
    undated (u.modify now state) = undated (u.modify now' state') := by
  have both : u.Replaces state ↔ u.Replaces state' := by
    rw [← replaces_undated u state, ← replaces_undated u state', same]
  rw [modify_eq, modify_eq]
  by_cases written : u.Replaces state
  · rw [if_pos written, if_pos (both.mp written), undated_fresh, undated_fresh]
  · rw [if_neg written, if_neg fun late => written (both.mpr late), same]

def written (now : ℕ) (u : Update) : Option MemberState → MemberState
  | some state => u.modify now state
  | none => u.fresh now

theorem lookup_mark_written {s : SwimMembership} {node : NodeId} (foreign : node ≠ s.localId) (now : ℕ)
    (u : Update) :
    (s.mark now node u).members.lookup node = some (written now u (s.members.lookup node)) := by
  rw [lookup_mark foreign]
  cases s.members.lookup node <;> rfl

theorem undated_written {now now' : ℕ} {u : Update} {entry entry' : Option MemberState}
    (same : entry.map undated = entry'.map undated) :
    undated (written now u entry) = undated (written now' u entry') := by
  cases entry with
  | none =>
    cases entry' with
    | none => exact (undated_fresh u now).trans (undated_fresh u now').symm
    | some state' => cases same
  | some state =>
    cases entry' with
    | none => cases same
    | some state' => exact undated_modify (Option.some.inj same)

/-! Tables of one node -/

structure SameTable (peers : NodeId → Prop) (s t : SwimMembership) : Prop where
  own : s.localId = t.localId
  members : ∀ node, peers node →
    (s.members.lookup node).map undated = (t.members.lookup node).map undated
  incarnation : s.incarnation = t.incarnation

section Same

variable {peers : NodeId → Prop} {s t : SwimMembership}

theorem SameTable.refl (peers : NodeId → Prop) (s : SwimMembership) : SameTable peers s s :=
  ⟨rfl, fun _ _ => rfl, rfl⟩

theorem SameTable.mark (same : SameTable peers s t) (now now' : ℕ) (node : NodeId) (u : Update) :
    SameTable peers (s.mark now node u) (t.mark now' node u) := by
  refine ⟨?_, ?_, ?_⟩
  · rw [localId_mark, localId_mark, same.own]
  · intro other among
    by_cases about : other = node
    · subst about
      by_cases self : other = s.localId
      · rw [members_mark_self self, members_mark_self (self.trans same.own)]
        exact same.members other among
      · have foreign : other ≠ t.localId := fun self' => self (self'.trans same.own.symm)
        rw [lookup_mark_written self, lookup_mark_written foreign]
        exact congrArg some (undated_written (same.members other among))
    · rw [lookup_mark_of_ne about, lookup_mark_of_ne about]
      exact same.members other among
  · rw [incarnation_mark, incarnation_mark, same.own, same.incarnation]

theorem SameTable.resolveProbe (same : SameTable peers s t) (nonce incarnation : UInt64) :
    SameTable peers (s.resolveProbe nonce incarnation) (t.resolveProbe nonce incarnation) := by
  obtain ⟨pending, acks, left⟩ := resolveProbe_eq s nonce incarnation
  obtain ⟨pending', acks', right⟩ := resolveProbe_eq t nonce incarnation
  rw [left, right]
  exact ⟨same.own, same.members, same.incarnation⟩

theorem SameTable.perform (same : SameTable peers s t) (now now' : ℕ) (op : Op) :
    SameTable peers (s.perform now op) (t.perform now' op) := by
  cases op with
  | mark node u => exact same.mark now now' node u
  | resolve fromNode nonce incarnation => exact same.resolveProbe nonce incarnation

theorem SameTable.performAll (same : SameTable peers s t) (now now' : ℕ) (ops : List Op) :
    SameTable peers (performAll now s ops) (performAll now' t ops) := by
  induction ops generalizing s t with
  | nil => exact same
  | cons op rest ih => exact ih (same.perform now now' op)

theorem pendingProbes_resolveProbe (same : s.pendingProbes = t.pendingProbes)
    (nonce incarnation : UInt64) :
    (s.resolveProbe nonce incarnation).pendingProbes =
      (t.resolveProbe nonce incarnation).pendingProbes := by
  simp only [SwimMembership.resolveProbe, same]
  split
  · rfl
  · exact same

theorem pendingProbes_performAll (same : s.pendingProbes = t.pendingProbes) (now now' : ℕ)
    (ops : List Op) : (performAll now s ops).pendingProbes = (performAll now' t ops).pendingProbes := by
  induction ops generalizing s t with
  | nil => exact same
  | cons op rest ih =>
    refine ih ?_
    cases op with
    | mark node u => exact ((pendingProbes_mark ..).trans same).trans (pendingProbes_mark ..).symm
    | resolve fromNode nonce incarnation => exact pendingProbes_resolveProbe same nonce incarnation

theorem SameTable.agree (same : SameTable (fun _ => True) s t) (pending : s.pendingProbes = t.pendingProbes) :
    Agree s t :=
  ⟨fun node => same.members node trivial, same.incarnation, pending⟩

end Same

/-! Acks -/

theorem agree_ack (s : SwimMembership) (now now' : ℕ) (node : NodeId) (u : Update)
    (nonce incarnation : UInt64) :
    Agree ((s.mark now node u).resolveProbe nonce incarnation)
      ((s.resolveProbe nonce incarnation).mark now' node u) := by
  have resolved : SameTable (fun _ => True) s (s.resolveProbe nonce incarnation) := by
    obtain ⟨pending, acks, same⟩ := resolveProbe_eq s nonce incarnation
    rw [same]
    exact ⟨rfl, fun _ _ => rfl, rfl⟩
  have marked := resolved.mark now now' node u
  obtain ⟨pending, acks, same⟩ := resolveProbe_eq (s.mark now node u) nonce incarnation
  refine ⟨fun other => ?_, ?_, ?_⟩
  · rw [members_resolveProbe]
    exact marked.members other trivial
  · rw [same]
    exact marked.incarnation
  · rw [pendingProbes_mark]
    exact pendingProbes_resolveProbe (pendingProbes_mark s now node u) nonce incarnation

/-! Pings -/

/-- Entries that any update replaces: a peer not in the table, or recorded alive or suspect
at incarnation 0. -/
def Yielding : Option MemberState → Prop
  | none => True
  | some (.alive incarnation) | some (.suspect incarnation _) => incarnation = 0
  | some (.dead _) => False

theorem undated_written_yielding {entry : Option MemberState} (yields : Yielding entry) (now now' : ℕ)
    (u : Update) : undated (written now u entry) = undated (u.fresh now') := by
  cases entry with
  | none => exact (undated_fresh u now).trans (undated_fresh u now').symm
  | some state =>
    rw [written, modify_eq]
    by_cases replaced : u.Replaces state
    · rw [if_pos replaced]
      exact (undated_fresh u now).trans (undated_fresh u now').symm
    · rw [if_neg replaced]
      cases state with
      | dead inc => exact yields.elim
      | alive inc =>
        cases yields
        cases u with
        | alive incarnation =>
          have zero : incarnation = 0 := UInt64.le_zero_iff.mp (UInt64.not_lt.mp replaced)
          rw [zero]
          rfl
        | suspect incarnation => exact absurd UInt64.zero_le replaced
        | dead incarnation => exact absurd trivial replaced
      | suspect inc since =>
        cases yields
        cases u with
        | alive incarnation => exact absurd UInt64.zero_le replaced
        | suspect incarnation =>
          have zero : incarnation = 0 := UInt64.le_zero_iff.mp (UInt64.not_lt.mp replaced)
          rw [zero]
          rfl
        | dead incarnation => exact absurd trivial replaced

def Mentions (node : NodeId) (ops : List Op) : Prop := ∃ u, Op.mark node u ∈ ops

theorem lookup_performAll {node : NodeId} {ops : List Op} (silent : ¬ Mentions node ops) (now : ℕ)
    (s : SwimMembership) : (performAll now s ops).members.lookup node = s.members.lookup node := by
  induction ops generalizing s with
  | nil => rfl
  | cons op rest ih =>
    have later : ¬ Mentions node rest := fun ⟨u, listed⟩ => silent ⟨u, List.mem_cons_of_mem _ listed⟩
    refine (ih later (s.perform now op)).trans ?_
    cases op with
    | mark other u =>
      have apart : node ≠ other := by
        rintro rfl
        exact silent ⟨u, List.mem_cons_self⟩
      exact lookup_mark_of_ne apart u
    | resolve fromNode nonce incarnation =>
      exact congrArg (Finmap.lookup node) (members_resolveProbe s nonce incarnation)

theorem sameTable_of_mentions {node : NodeId} {ops : List Op} (mentioned : Mentions node ops)
    (now now' : ℕ) {s t : SwimMembership} (foreign : node ≠ s.localId)
    (same : SameTable (· ≠ node) s t) (left : Yielding (s.members.lookup node))
    (right : Yielding (t.members.lookup node)) :
    SameTable (fun _ => True) (performAll now s ops) (performAll now' t ops) := by
  induction ops generalizing s t with
  | nil =>
    obtain ⟨u, listed⟩ := mentioned
    cases listed
  | cons op rest ih =>
    by_cases about : ∃ u, op = .mark node u
    · obtain ⟨u, rfl⟩ := about
      have next := same.mark now now' node u
      have foreign' : node ≠ t.localId := by rwa [← same.own]
      refine SameTable.performAll ⟨next.own, fun other _ => ?_, next.incarnation⟩ now now' rest
      by_cases self : other = node
      · subst self
        rw [lookup_mark_written foreign, lookup_mark_written foreign', Option.map_some, Option.map_some,
          undated_written_yielding left now now u, undated_written_yielding right now' now u]
      · exact next.members other self
    · have later : Mentions node rest := by
        obtain ⟨u, listed⟩ := mentioned
        rcases List.mem_cons.mp listed with first | inRest
        · exact absurd ⟨u, first.symm⟩ about
        · exact ⟨u, inRest⟩
      have untouched : ∀ (now : ℕ) (s : SwimMembership),
          (s.perform now op).members.lookup node = s.members.lookup node := by
        intro now s
        have silent : ¬ Mentions node [op] := by
          rintro ⟨u, listed⟩
          exact about ⟨u, (List.mem_singleton.mp listed).symm⟩
        exact lookup_performAll silent now s
      refine ih later ?_ (same.perform now now' op) ?_ ?_
      · have own : (s.perform now op).localId = s.localId := by
          cases op with
          | mark other u => exact localId_mark u
          | resolve fromNode nonce incarnation => exact localId_resolveProbe s nonce incarnation
        rwa [own]
      · rwa [untouched]
      · rwa [untouched]

/-- A peer that a ping makes alive: one not in the table, or suspect at incarnation 0. -/
def Faint : Option MemberState → Prop
  | none => True
  | some (.suspect incarnation _) => incarnation = 0
  | some (.alive _) | some (.dead _) => False

/-- A ping from such a peer that carries no update about it: only the endpoint's handler
takes the ping itself for a sign of life. -/
def Overlooked (s : SwimMembership) : WireMessage → Prop
  | .swimPing fromNode _ piggyback => fromNode ≠ s.localId ∧ Faint (s.members.lookup fromNode) ∧
    ¬ Mentions fromNode (piggybackOps piggyback)
  | _ => False

theorem written_ping (now : ℕ) (entry : Option MemberState) :
    Faint entry ∧ Yielding entry ∧ written now (.alive 0) entry = .alive 0 ∨
      ¬ Faint entry ∧ some (written now (.alive 0) entry) = entry := by
  cases entry with
  | none => exact .inl ⟨trivial, trivial, rfl⟩
  | some state =>
    rw [written, modify_eq]
    cases state with
    | alive inc | dead inc =>
      exact .inr ⟨id, congrArg some (if_neg (UInt64.not_lt.mpr UInt64.zero_le))⟩
    | suspect inc since =>
      by_cases zero : inc = 0
      · subst zero
        exact .inl ⟨rfl, rfl, if_pos UInt64.zero_le⟩
      · exact .inr ⟨zero, congrArg some (if_neg fun below => zero (UInt64.le_zero_iff.mp below))⟩

theorem agree_ping_iff (s : SwimMembership) (now now' : ℕ) (fromNode : NodeId) (nonce : UInt64)
    (piggyback : List WireMessage) :
    Agree (performAll now s (piggybackOps piggyback))
        (performAll now' (s.mark now' fromNode (.alive 0)) (piggybackOps piggyback)) ↔
      ¬ Overlooked s (.swimPing fromNode nonce piggyback) := by
  have pending : s.pendingProbes = (s.mark now' fromNode (.alive 0)).pendingProbes :=
    (pendingProbes_mark ..).symm
  have probes := pendingProbes_performAll pending now now' (piggybackOps piggyback)
  have incarnation : s.incarnation = (s.mark now' fromNode (.alive 0)).incarnation := by
    rw [incarnation_mark, if_neg fun raised => Bool.false_ne_true raised.2]
  have others : SameTable (· ≠ fromNode) s (s.mark now' fromNode (.alive 0)) :=
    ⟨(localId_mark _).symm, fun other apart => by rw [lookup_mark_of_ne apart], incarnation⟩
  by_cases own : fromNode = s.localId
  · refine iff_of_true ?_ fun overlooked => overlooked.1 own
    have same : SameTable (fun _ => True) s (s.mark now' fromNode (.alive 0)) :=
      ⟨(localId_mark _).symm, fun other _ => by rw [members_mark_self own], incarnation⟩
    exact (same.performAll now now' _).agree probes
  have entry := lookup_mark_written own now' (.alive 0)
  rcases written_ping now' (s.members.lookup fromNode) with ⟨faint, yields, alive⟩ | ⟨firm, same⟩
  · rw [alive] at entry
    by_cases mentioned : Mentions fromNode (piggybackOps piggyback)
    · refine iff_of_true ?_ fun overlooked => overlooked.2.2 mentioned
      have right : Yielding ((s.mark now' fromNode (.alive 0)).members.lookup fromNode) := by
        rw [entry]
        rfl
      exact (sameTable_of_mentions mentioned now now' own others yields right).agree probes
    · refine iff_of_false (fun agree => ?_) fun noticed => noticed ⟨own, faint, mentioned⟩
      have recorded := agree.members fromNode
      rw [lookup_performAll mentioned, lookup_performAll mentioned, entry] at recorded
      obtain ⟨state, held, same⟩ := Option.map_eq_some_iff.mp recorded
      rw [held] at faint
      cases state with
      | alive inc | dead inc => exact faint
      | suspect inc since => cases same
  · refine iff_of_true ?_ fun overlooked => firm overlooked.2.1
    have all : SameTable (fun _ => True) s (s.mark now' fromNode (.alive 0)) := by
      refine ⟨others.own, fun other _ => ?_, incarnation⟩
      by_cases about : other = fromNode
      · rw [about, entry, same]
      · exact others.members other about
    exact (all.performAll now now' _).agree probes

/-- For every table and every message, whatever the two clocks show, the handlers of the
membership and of the endpoint leave the same record of every peer, the same own incarnation
and the same pending probes, unless the message is a ping whose sender only the endpoint
notices. -/
theorem handlers_agree_iff (now now' : ℕ) (s : SwimMembership) (msg : WireMessage) :
    Agree (handleMessage now s msg).1 (handleSwimMsg now' s msg).1 ↔ ¬ Overlooked s msg := by
  rw [handleMessage_fst, handleSwimMsg_fst]
  cases msg with
  | swimPing fromNode nonce piggyback => exact agree_ping_iff s now now' fromNode nonce piggyback
  | swimPingAck fromNode nonce incarnation =>
    exact iff_of_true (agree_ack s now now' fromNode (.alive incarnation) nonce incarnation) id
  | _ =>
    refine iff_of_true ?_ id
    exact ((SameTable.refl _ s).performAll now now' _).agree (pendingProbes_performAll rfl now now' _)

/-- A bare ping from an unknown peer: one handler records it, the other does not. -/
theorem bare_ping_divides :
    let s := SwimMembership.new (peerId 0)
    (handleMessage 0 s (.swimPing (peerId 1) 7 [])).1.members.lookup (peerId 1) = none ∧
      (handleSwimMsg 0 s (.swimPing (peerId 1) 7 [])).1.members.lookup (peerId 1) =
        some (.alive 0) := by
  decide

end Craftec.Net.SwimHandlers
