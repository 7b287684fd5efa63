/- GID: Craftec/Net/SwimSafety
   generality: I
   digest: Incarnations that do not go back, deaths that last, and probes that end for a reason. -/

import Mathlib
import Craftec.Library.Run
import Craftec.Net.Swim
import Craftec.Net.SwimRuns
import Craftec.Types.Digest
import Craftec.Types.Wire

set_option autoImplicit false
set_option relaxedAutoImplicit false

namespace Craftec.Net.SwimSafety

open Craftec.Library.Run (Reach anyStep exists_reach exists_reach_reach)
open Craftec.Net.Swim
open Craftec.Net.SwimRuns
open Craftec.Types.Digest (NodeId)
open Craftec.Types.Wire (WireMessage)

def issues : Task → Option (NodeId × Update)
  | .handling (.mark node u :: _) => some (node, u)
  | .burying ((node, incarnation) :: _) => some (node, .dead incarnation)
  | .suspecting p incarnation => some (p.target, .suspect incarnation)
  | _ => none

theorem move_swim {s s' : Shared} {i : ℕ} {task task' : Task} (move : Move s i task s' task') :
    (∃ node u, issues task = some (node, u) ∧ s' = s.perform (.mark node u)) ∨
      s'.swim.members = s.swim.members ∧ s'.swim.incarnation = s.swim.incarnation ∧
        s'.swim.localId = s.swim.localId := by
  cases move with
  | perform op rest =>
    cases op with
    | mark node u => exact .inl ⟨node, u, rfl, rfl⟩
    | resolve fromNode nonce incarnation =>
      obtain ⟨pending, acks, same⟩ := resolveProbe_eq s.swim nonce incarnation
      refine .inr ?_
      change (s.swim.resolveProbe nonce incarnation).members = _ ∧
        (s.swim.resolveProbe nonce incarnation).incarnation = _ ∧
        (s.swim.resolveProbe nonce incarnation).localId = _
      rw [same]
      exact ⟨rfl, rfl, rfl⟩
  | bury node incarnation rest => exact .inl ⟨node, .dead incarnation, rfl, rfl⟩
  | suspect p incarnation => exact .inl ⟨p.target, .suspect incarnation, rfl, rfl⟩
  | _ => exact .inr ⟨rfl, rfl, rfl⟩

theorem step_entry {s t : State} {label : Label} (taken : step s label = some t) (node : NodeId) :
    t.shared.swim.members.lookup node = s.shared.swim.members.lookup node ∨
      ∃ i o u, label = .advance i o ∧ issues (s.calls i) = some (node, u) ∧
        t.shared.swim.members.lookup node = some (match s.shared.swim.members.lookup node with
          | some state => u.modify s.shared.instant state
          | none => u.fresh s.shared.instant) := by
  cases step_cases taken with
  | receive i endpoint msg idle => exact .inl rfl
  | tick i idle => exact .inl rfl
  | spawn i j target msg rest ready idle => exact .inl rfl
  | elapse ms => exact .inl rfl
  | move i o shared task moves =>
    rcases move_swim moves with ⟨written, u, issued, rfl⟩ | ⟨same, -, -⟩
    · by_cases about : node = written
      · subst about
        by_cases own : node = s.shared.swim.localId
        · exact .inl (congrArg _ (members_mark_self own u))
        · exact .inr ⟨i, o, u, rfl, issued, lookup_mark own u⟩
      · exact .inl (lookup_mark_of_ne about u)
    · exact .inl (congrArg _ same)

section Incarnations

/-- A death notice for a member recorded alive or suspect at a higher incarnation. -/
def belated (m : Members) : NodeId × Update → Bool
  | (node, .dead incarnation) =>
    match m.lookup node with
    | some (.alive inc) | some (.suspect inc _) => decide (incarnation < inc)
    | _ => false
  | _ => false

def NoBelatedDeath (s : State) : Label → Prop
  | .advance i _ => ∀ e ∈ issues (s.calls i), belated s.shared.swim.members e = false
  | _ => True

instance (s : State) (label : Label) : Decidable (NoBelatedDeath s label) :=
  match label with
  | .advance _ _ => inferInstanceAs (Decidable (∀ e ∈ issues _, _))
  | .receive _ _ _ | .tick _ | .spawn _ _ | .elapse _ => isTrue trivial

theorem incarnation_le_modify {u : Update} {state : MemberState} {now : ℕ}
    (timely : ∀ incarnation, u = .dead incarnation → (∃ inc, state = .dead inc) ∨
      state.incarnation ≤ incarnation) :
    state.incarnation ≤ (u.modify now state).incarnation := by
  rw [modify_eq]
  split
  · rename_i replaced
    cases u with
    | alive incarnation =>
      cases state with
      | alive inc | dead inc => exact UInt64.le_of_lt replaced
      | suspect inc since => exact replaced
    | suspect incarnation =>
      cases state with
      | alive inc => exact replaced
      | suspect inc since => exact UInt64.le_of_lt replaced
      | dead inc => exact replaced.elim
    | dead incarnation =>
      rcases timely incarnation rfl with ⟨inc, rfl⟩ | below
      · exact UInt64.le_of_lt replaced
      · exact below
  · exact UInt64.le_refl _

/-- The node is recorded, with at least the given incarnation. -/
def RecordedAtLeast (node : NodeId) (incarnation : UInt64) (s : State) : Prop :=
  ∃ state, s.shared.swim.members.lookup node = some state ∧ incarnation ≤ state.incarnation

theorem step_incarnation {s t : State} {label : Label} (timely : NoBelatedDeath s label)
    (taken : step s label = some t) {node : NodeId} {state : MemberState}
    (entry : s.shared.swim.members.lookup node = some state) :
    RecordedAtLeast node state.incarnation t := by
  rcases step_entry taken node with same | ⟨i, o, u, rfl, issued, written⟩
  · exact ⟨state, same.trans entry, UInt64.le_refl _⟩
  · rw [entry] at written
    refine ⟨_, written, incarnation_le_modify ?_⟩
    rintro incarnation rfl
    have inTime : belated s.shared.swim.members (node, .dead incarnation) = false := timely _ issued
    simp only [belated, entry] at inTime
    cases state with
    | dead inc => exact .inl ⟨inc, rfl⟩
    | alive inc | suspect inc since => exact .inr (UInt64.not_lt.mp (of_decide_eq_false inTime))

/-- Along any run, the incarnation recorded for a member does not go back, as long as
no death notice is written over a higher incarnation. -/
theorem incarnations_never_regress {s t : State} (reach : Reach step NoBelatedDeath s t)
    {node : NodeId} {state : MemberState}
    (entry : s.shared.swim.members.lookup node = some state) :
    RecordedAtLeast node state.incarnation t := by
  refine reach.invariant ⟨state, entry, UInt64.le_refl _⟩ ?_
  rintro u label v ⟨now, held, above⟩ timely taken
  obtain ⟨later, written, onward⟩ := step_incarnation timely taken held
  exact ⟨later, written, UInt64.le_trans above onward⟩

theorem incarnations_never_regress_through_death :
    ∃ s t, Reach step NoBelatedDeath s t ∧
      s.shared.swim.members.lookup (peerId 1) = some (.alive 5) ∧
      t.shared.swim.members.lookup (peerId 1) = some (.dead 6) ∧ RecordedAtLeast (peerId 1) 5 t := by
  have run : ∃ s t, Reach step NoBelatedDeath (start (.new (peerId 0))) s ∧
      Reach step NoBelatedDeath s t ∧
      s.shared.swim.members.lookup (peerId 1) = some (.alive 5) ∧
      t.shared.swim.members.lookup (peerId 1) = some (.dead 6) :=
    exists_reach_reach _ _ _
      [.receive 0 true (.swimAlive (peerId 1) 5), .advance 0 ⟨none, true, []⟩]
      [.receive 1 true (.swimPing (peerId 2) 0 [.swimSuspect (peerId 1) 6 (peerId 2)]),
        .receive 2 true (.swimDead (peerId 1) 6 (peerId 3)), .advance 1 ⟨none, true, []⟩,
        .advance 1 ⟨none, true, []⟩, .advance 2 ⟨none, true, []⟩] (by decide)
  obtain ⟨s, t, -, after, recorded, buried⟩ := run
  exact ⟨s, t, after, recorded, buried, incarnations_never_regress after recorded⟩

/-- A death notice of incarnation 3 is written over `alive` 5. And a tick that has
collected an expired suspicion of incarnation 2 still buries the member after a
refutation with 3 has been recorded. -/
theorem belated_death_regresses :
    (∃ s t, Reach step anyStep (start (.new (peerId 0))) s ∧ Reach step anyStep s t ∧
      s.shared.swim.members.lookup (peerId 1) = some (.alive 5) ∧
      t.shared.swim.members.lookup (peerId 1) = some (.dead 3)) ∧
    ∃ s t, Reach step anyStep (start (.new (peerId 0))) s ∧ Reach step anyStep s t ∧
      s.shared.swim.members.lookup (peerId 1) = some (.alive 3) ∧
      t.shared.swim.members.lookup (peerId 1) = some (.dead 2) :=
  ⟨exists_reach_reach _ _ _
      [.receive 0 true (.swimAlive (peerId 1) 5), .advance 0 ⟨none, true, []⟩]
      [.receive 1 true (.swimDead (peerId 1) 3 (peerId 2)), .advance 1 ⟨none, true, []⟩] (by decide),
    exists_reach_reach _ _ _
      [.receive 0 true (.swimSuspect (peerId 1) 2 (peerId 2)), .advance 0 ⟨none, true, []⟩,
        .elapse 5000, .tick 1, .advance 1 ⟨some (peerId 1), true, []⟩, .advance 1 ⟨none, true, []⟩,
        .receive 2 true (.swimAlive (peerId 1) 3), .advance 2 ⟨none, true, []⟩]
      [.advance 1 ⟨none, true, []⟩] (by decide)⟩

end Incarnations

section Deaths

mutual

/-- The incarnations stated in the `SwimAlive` and `SwimPingAck` messages that a
message is or carries, at any depth. -/
def assertions : WireMessage → List (NodeId × UInt64)
  | .swimAlive node incarnation => [(node, incarnation)]
  | .swimPingAck fromNode _ incarnation => [(fromNode, incarnation)]
  | .swimPing _ _ piggyback => piggybackAssertions piggyback
  | _ => []

def piggybackAssertions : List WireMessage → List (NodeId × UInt64)
  | [] => []
  | msg :: rest => assertions msg ++ piggybackAssertions rest

end

/-- An access that marks a node alive comes from an assertion, or from a join or ping,
which count as incarnation 0. -/
def Asserted (stated : List (NodeId × UInt64)) (op : Op) : Prop :=
  ∀ node incarnation, op = .mark node (.alive incarnation) →
    (node, incarnation) ∈ stated ∨ incarnation = 0

theorem Asserted.mono {stated more : List (NodeId × UInt64)} {op : Op} (asserted : Asserted stated op)
    (more_stated : ∀ e ∈ stated, e ∈ more) : Asserted more op :=
  fun node incarnation marks => (asserted node incarnation marks).imp_left (more_stated _)

mutual

theorem asserted_messageOps (msg : WireMessage) : ∀ op ∈ messageOps msg, Asserted (assertions msg) op := by
  cases msg with
  | swimPing fromNode nonce piggyback => exact asserted_piggybackOps piggyback
  | swimPingAck fromNode nonce incarnation =>
    intro op listed node inc marks
    subst marks
    rcases List.mem_cons.mp listed with first | later
    · cases first
      exact .inl List.mem_cons_self
    · cases List.mem_singleton.mp later
  | swimJoin node port =>
    intro op listed node' inc marks
    subst marks
    cases List.mem_singleton.mp listed
    exact .inr rfl
  | swimAlive node incarnation =>
    intro op listed node' inc marks
    subst marks
    cases List.mem_singleton.mp listed
    exact .inl List.mem_cons_self
  | swimSuspect node incarnation fromNode =>
    intro op listed node' inc marks
    subst marks
    cases List.mem_singleton.mp listed
  | swimDead node incarnation fromNode =>
    intro op listed node' inc marks
    subst marks
    cases List.mem_singleton.mp listed
  | _ => intro op listed; cases listed

theorem asserted_piggybackOps (msgs : List WireMessage) :
    ∀ op ∈ piggybackOps msgs, Asserted (piggybackAssertions msgs) op := by
  cases msgs with
  | nil => intro op listed; cases listed
  | cons msg rest =>
    intro op listed
    rcases List.mem_append.mp listed with first | later
    · exact (asserted_messageOps msg op first).mono fun e => List.mem_append_left _
    · exact (asserted_piggybackOps rest op later).mono fun e => List.mem_append_right _

end

theorem asserted_receivedOps (endpoint : Bool) (msg : WireMessage) :
    ∀ op ∈ receivedOps endpoint msg, Asserted (assertions msg) op := by
  cases endpoint with
  | false => exact asserted_messageOps msg
  | true =>
    cases msg with
    | swimPingAck fromNode nonce incarnation =>
      intro op listed
      exact asserted_messageOps (.swimPingAck fromNode nonce incarnation) op
        (List.Perm.mem_iff (List.Perm.swap _ _ _) |>.mp listed)
    | swimPing fromNode nonce piggyback =>
      intro op listed
      rcases List.mem_cons.mp listed with rfl | later
      · intro node inc marks
        cases marks
        exact .inr rfl
      · exact asserted_piggybackOps piggyback op later
    | _ => exact asserted_messageOps _

/-- No received message asserts that the peer is alive above incarnation `i`. -/
def NoRevival (peer : NodeId) (i : UInt64) (_ : State) : Label → Prop
  | .receive _ _ msg => ∀ e ∈ assertions msg, e.1 = peer → e.2 ≤ i
  | _ => True

instance (peer : NodeId) (i : UInt64) (s : State) (label : Label) :
    Decidable (NoRevival peer i s label) :=
  match label with
  | .receive _ _ msg => inferInstanceAs (Decidable (∀ e ∈ assertions msg, e.1 = peer → e.2 ≤ i))
  | .advance _ _ | .tick _ | .spawn _ _ | .elapse _ => isTrue trivial

/-- The nodes a tick or an indirect probe has picked to ping. -/
def picked : Task → List NodeId
  | .gossiping target _ _ _ | .numbering target _ => [target]
  | .ticked probes => probes.map Prod.fst
  | .enlisting _ delegates => delegates
  | _ => []

/-- A handler under way has no assertion about the peer above `i` left to write. -/
def Low (peer : NodeId) (i : UInt64) : Task → Prop
  | .handling ops => ∀ incarnation, Op.mark peer (.alive incarnation) ∈ ops → incarnation ≤ i
  | _ => True

/-- A call that has neither picked the peer nor read it as alive, such as one that has not begun. -/
def Unread (peer : NodeId) : Task → Prop
  | .listing _ alive | .choosing alive | .delegating _ _ alive => peer ∉ alive
  | task => peer ∉ picked task

structure Buried (peer : NodeId) (i : UInt64) (s : State) : Prop where
  dead : ∃ j, s.shared.swim.members.lookup peer = some (.dead j) ∧ i ≤ j
  low : ∀ c, Low peer i (s.calls c)

theorem modify_dead {u : Update} {i j : UInt64} (now : ℕ) (above : i ≤ j)
    (low : ∀ incarnation, u = .alive incarnation → incarnation ≤ i) :
    ∃ k, u.modify now (.dead j) = .dead k ∧ i ≤ k := by
  rw [modify_eq]
  cases u with
  | alive incarnation =>
    have kept : ¬ (Update.alive incarnation).Replaces (.dead j) :=
      UInt64.not_lt.mpr (UInt64.le_trans (low incarnation rfl) above)
    exact ⟨j, if_neg kept, above⟩
  | suspect incarnation => exact ⟨j, if_neg id, above⟩
  | dead incarnation =>
    by_cases later : j < incarnation
    · exact ⟨incarnation, if_pos later, UInt64.le_trans above (UInt64.le_of_lt later)⟩
    · exact ⟨j, if_neg later, above⟩

theorem not_mem_keepAlive {peer node : NodeId} {i : UInt64} {s : State} (buried : Buried peer i s)
    {state : MemberState} (found : s.shared.swim.members.lookup node = some state) :
    peer ∉ keepAlive node state := by
  intro kept
  obtain ⟨rfl, alive⟩ := mem_keepAlive kept
  obtain ⟨j, dead, -⟩ := buried.dead
  rw [dead] at found
  cases found
  cases alive

theorem move_low {peer : NodeId} {i : UInt64} {s s' : Shared} {c : ℕ} {was task : Task}
    (moves : Move s c was s' task) (low : Low peer i was) : Low peer i task := by
  cases moves with
  | perform op rest => exact fun incarnation later => low incarnation (List.mem_cons_of_mem op later)
  | _ => trivial

theorem move_unread {peer : NodeId} {i : UInt64} {s : State} (buried : Buried peer i s) {c : ℕ}
    {shared : Shared} {task : Task} (moves : Move s.shared c (s.calls c) shared task)
    (unread : Unread peer (s.calls c)) : Unread peer task := by
  generalize s.calls c = was at unread moves
  cases moves with
  | list node state found | delegate node state found =>
    intro listed
    rcases List.mem_append.mp listed with before | now
    · exact unread before
    · exact not_mem_keepAlive buried found now
  | listEnd visited alive => exact unread
  | choose limit listed =>
    intro chosen
    rw [List.mem_singleton.mp chosen] at unread
    exact unread listed
  | gossip node state => exact unread
  | gossipEnd piggyback => exact unread
  | number target piggyback => exact unread
  | delegateEnd listed => exact fun chosen => unread (listed peer chosen)
  | _ => exact List.not_mem_nil

theorem low_received {peer : NodeId} {i : UInt64} {endpoint : Bool} {msg : WireMessage}
    (low : ∀ e ∈ assertions msg, e.1 = peer → e.2 ≤ i) :
    Low peer i (.handling (receivedOps endpoint msg)) := by
  intro incarnation listed
  rcases asserted_receivedOps endpoint msg _ listed peer incarnation rfl with stated | rfl
  · exact low _ stated rfl
  · exact UInt64.zero_le

theorem low_spawned (peer : NodeId) (i : UInt64) (target : NodeId) (msg : WireMessage) :
    Low peer i (spawned target msg) := by
  cases msg <;> trivial

theorem unread_spawned (peer target : NodeId) (msg : WireMessage) : Unread peer (spawned target msg) := by
  cases msg <;> exact List.not_mem_nil

theorem step_low {peer : NodeId} {i : UInt64} {s t : State} {label : Label}
    (low : ∀ c, Low peer i (s.calls c)) (allowed : NoRevival peer i s label)
    (taken : step s label = some t) : ∀ c, Low peer i (t.calls c) := by
  have update (calls : ℕ → Task) (c : ℕ) (task : Task) (before : ∀ c, Low peer i (calls c))
      (now : Low peer i task) : ∀ c', Low peer i (Function.update calls c task c') :=
    (Function.forall_update_iff calls (fun _ t => Low peer i t)).mpr ⟨now, fun c' _ => before c'⟩
  cases step_cases taken with
  | receive c endpoint msg idle => exact update _ c _ low (low_received allowed)
  | tick c idle => exact update _ c _ low trivial
  | spawn c d target msg rest ready idle =>
    exact update _ d _ (update _ c _ low trivial) (low_spawned peer i target msg)
  | elapse ms => exact low
  | move c o shared task moves => exact update _ c _ low (move_low moves (low c))

theorem step_dead {peer : NodeId} {i : UInt64} {s t : State} {label : Label}
    (buried : Buried peer i s) (taken : step s label = some t) :
    ∃ j, t.shared.swim.members.lookup peer = some (.dead j) ∧ i ≤ j := by
  obtain ⟨j, dead, above⟩ := buried.dead
  rcases step_entry taken peer with same | ⟨c, o, u, rfl, issued, written⟩
  · exact ⟨j, same.trans dead, above⟩
  · rw [dead] at written
    have low := buried.low c
    have lowUpdate : ∀ incarnation, u = .alive incarnation → incarnation ≤ i := by
      rintro incarnation rfl
      -- Only a handler marks alive: ticks write deaths and probes write suspicions.
      generalize s.calls c = was at issued low
      cases was with
      | handling ops =>
        cases ops with
        | nil => cases issued
        | cons op rest =>
          cases op with
          | mark node u =>
            cases issued
            exact low incarnation List.mem_cons_self
          | resolve fromNode nonce inc => cases issued
      | burying found =>
        cases found with
        | nil => cases issued
        | cons e rest => cases issued
      | suspecting p inc => cases issued
      | _ => cases issued
    obtain ⟨k, modified, aboveLater⟩ := modify_dead s.shared.instant above lowUpdate
    exact ⟨k, written.trans (congrArg some modified), aboveLater⟩

theorem step_buried {peer : NodeId} {i : UInt64} {s t : State} {label : Label}
    (buried : Buried peer i s) (allowed : NoRevival peer i s label) (taken : step s label = some t) :
    Buried peer i t := ⟨step_dead buried taken, step_low buried.low allowed taken⟩

theorem step_unread {peer : NodeId} {i : UInt64} {s t : State} {label : Label}
    (buried : Buried peer i s) (taken : step s label = some t) {c : ℕ}
    (unread : Unread peer (s.calls c)) : Unread peer (t.calls c) := by
  have update {calls : ℕ → Task} {c' : ℕ} {task : Task} (before : Unread peer (calls c))
      (now : c = c' → Unread peer task) : Unread peer (Function.update calls c' task c) := by
    by_cases here : c = c'
    · subst here
      rw [Function.update_self]
      exact now rfl
    · rwa [Function.update_of_ne here]
  cases step_cases taken with
  | receive c' endpoint msg idle => exact update unread fun _ => List.not_mem_nil
  | tick c' idle => exact update unread fun _ => List.not_mem_nil
  | spawn c' d target msg rest ready idle =>
    refine update (update unread ?_) fun _ => unread_spawned peer target msg
    rintro rfl
    rw [ready] at unread
    exact fun chosen => unread (List.mem_cons_of_mem _ chosen)
  | elapse ms => exact unread
  | move c' o shared task moves =>
    refine update unread ?_
    rintro rfl
    exact move_unread buried moves unread

theorem mem_aliveMembers {s : SwimMembership} {peer : NodeId} {order : List NodeId}
    (listed : peer ∈ s.aliveMembers order) :
    ∃ state, s.members.lookup peer = some state ∧ state.isAlive = true := by
  obtain ⟨e, inTable, rfl⟩ := List.mem_map.mp listed
  obtain ⟨inTable, alive⟩ := List.mem_filter.mp inTable
  obtain ⟨node, -, found⟩ := List.mem_filterMap.mp inTable
  obtain ⟨state, held, rfl⟩ := Option.map_eq_some_iff.mp found
  exact ⟨state, held, alive⟩

theorem not_mem_aliveMembers {s : SwimMembership} {peer : NodeId} {j : UInt64}
    (dead : s.members.lookup peer = some (.dead j)) (order : List NodeId) :
    peer ∉ s.aliveMembers order := by
  intro listed
  obtain ⟨state, held, alive⟩ := mem_aliveMembers listed
  rw [dead] at held
  cases held
  cases alive

theorem not_mem_picked {peer : NodeId} {task : Task} (unread : Unread peer task) :
    peer ∉ picked task := by
  cases task with
  | handling _ | listing _ _ | choosing _ | delegating _ _ _ => exact List.not_mem_nil
  | _ => exact unread

/-- Once dead at incarnation `i`, a peer stays dead, at `i` or above, and is not among the alive
members, for as long as no message asserts it alive above `i`: joins and pings count as incarnation 0.
No tick or probe that begins in the meantime picks it, and none that is under way does unless it had
read the peer as alive before. -/
theorem dead_stays_dead {peer : NodeId} {i : UInt64} {s t : State}
    (dead : s.shared.swim.members.lookup peer = some (.dead i))
    (low : ∀ c, Low peer i (s.calls c)) (reach : Reach step (NoRevival peer i) s t) :
    (∃ j, t.shared.swim.members.lookup peer = some (.dead j) ∧ i ≤ j) ∧
      (∀ order, peer ∉ t.shared.swim.aliveMembers order) ∧
      ∀ c, Unread peer (s.calls c) → peer ∉ picked (t.calls c) := by
  let kept (u : State) : Prop := Buried peer i u ∧ ∀ c, Unread peer (s.calls c) → Unread peer (u.calls c)
  have run : kept t := by
    refine reach.invariant ⟨⟨⟨i, dead, UInt64.le_refl i⟩, low⟩, fun _ => id⟩ ?_
    rintro u a v ⟨before, unread⟩ allowed taken
    exact ⟨step_buried before allowed taken, fun c first => step_unread before taken (unread c first)⟩
  obtain ⟨⟨⟨j, held, above⟩, -⟩, unread⟩ := run
  exact ⟨⟨j, held, above⟩, not_mem_aliveMembers held, fun c first => not_mem_picked (unread c first)⟩

theorem dead_stays_dead_through_join :
    ∃ s t, Reach step (NoRevival (peerId 1) 2) s t ∧
      s.shared.swim.members.lookup (peerId 1) = some (.dead 2) ∧
      picked (t.calls 3) = [peerId 2] ∧
      (∃ j, t.shared.swim.members.lookup (peerId 1) = some (.dead j) ∧ 2 ≤ j) ∧
      ∀ order, peerId 1 ∉ t.shared.swim.aliveMembers order := by
  let s : State := start ⟨Finmap.insert (peerId 1) (.dead 2) (Finmap.singleton (peerId 2) (.alive 0)),
    0, peerId 0, 5000, 0, 0, ∅, [], 0⟩
  have dead : s.shared.swim.members.lookup (peerId 1) = some (.dead 2) := by decide
  have run : ∃ t, Reach step (NoRevival (peerId 1) 2) s t ∧ picked (t.calls 3) = [peerId 2] :=
    exists_reach _ _
      [.receive 0 true (.swimJoin (peerId 1) 9000),
        .receive 1 true (.swimPing (peerId 2) 0 [.swimPing (peerId 2) 1 [.swimAlive (peerId 1) 2]]),
        .receive 2 false (.swimSuspect (peerId 1) 7 (peerId 2)), .tick 3,
        .advance 0 ⟨none, true, []⟩, .advance 1 ⟨none, true, []⟩, .advance 3 ⟨some (peerId 1), true, []⟩,
        .advance 1 ⟨none, true, []⟩, .advance 3 ⟨some (peerId 2), true, []⟩,
        .advance 2 ⟨none, true, []⟩, .advance 3 ⟨none, true, []⟩, .advance 3 ⟨none, true, []⟩,
        .advance 3 ⟨some (peerId 1), true, []⟩, .advance 3 ⟨some (peerId 2), true, []⟩,
        .advance 3 ⟨none, true, []⟩, .advance 3 ⟨none, true, []⟩] (by decide)
  obtain ⟨t, reach, chosen⟩ := run
  have kept := dead_stays_dead dead (fun _ => trivial) reach
  exact ⟨s, t, reach, dead, chosen, kept.1, kept.2.1⟩

end Deaths

section Probes

def Receiver.probe : Receiver → ℕ
  | .direct i | .indirect i => i

def probeOf : Task → Option Probe
  | .registering p | .sending p | .awaiting p | .delegating p _ _ | .enlisting p _ | .inserting p _
  | .awaitingIndirect p | .lastKnown p | .suspecting p _ | .ended p _ => some p
  | _ => none

def resolving : Task → Option (NodeId × UInt64)
  | .handling (.resolve fromNode nonce _ :: _) => some (fromNode, nonce)
  | _ => none

/-- An ack whose nonce is registered comes from the target of the probe that
registered it. -/
def AcksFromTarget (s : State) : Label → Prop
  | .advance i _ => ∀ ack ∈ resolving (s.calls i),
    ∀ receiver ∈ s.shared.swim.pendingProbes.lookup ack.2,
      ∀ p ∈ probeOf (s.calls (Receiver.probe receiver)), ack.1 = p.target
  | _ => True

instance (s : State) (label : Label) : Decidable (AcksFromTarget s label) :=
  match label with
  | .advance i _ => inferInstanceAs (Decidable (∀ ack ∈ resolving (s.calls i),
      ∀ receiver ∈ s.shared.swim.pendingProbes.lookup ack.2,
        ∀ p ∈ probeOf (s.calls (Receiver.probe receiver)), ack.1 = p.target))
  | .receive _ _ _ | .tick _ | .spawn _ _ | .elapse _ => isTrue trivial

/-- An ack from the target for one of the nonces of the probe has been handled. -/
def Heard (handled : List (NodeId × UInt64)) (p : Probe) : Prop :=
  ∃ nonce ∈ p.nonces, (p.target, nonce) ∈ handled

/-- Registered nonces belong to the probes that registered them, what has been sent on
a channel goes back to an ack from the target, and so does a probe that ended well. -/
structure Attributed (s : State) : Prop where
  pending : ∀ nonce receiver, s.shared.swim.pendingProbes.lookup nonce = some receiver →
    ∃ p, probeOf (s.calls (Receiver.probe receiver)) = some p ∧ nonce ∈ p.nonces
  acks : ∀ ack ∈ s.shared.swim.acks,
    ∃ p, probeOf (s.calls (Receiver.probe ack.1)) = some p ∧ Heard s.shared.handled p
  ended : ∀ i p, s.calls i = .ended p false → Heard s.shared.handled p

theorem start_attributed (localId : NodeId) : Attributed (start (.new localId)) :=
  ⟨fun _ _ found => absurd found (Option.some_ne_none _).symm,
    fun _ listed => absurd listed List.not_mem_nil, fun _ _ ended => by cases ended⟩

def Follows (was task : Task) : Prop :=
  ∀ p, probeOf was = some p →
    ∃ q, probeOf task = some q ∧ q.target = p.target ∧ ∀ nonce ∈ p.nonces, nonce ∈ q.nonces

theorem Follows.refl (task : Task) : Follows task task :=
  fun p runs => ⟨p, runs, rfl, fun _ listed => listed⟩

theorem follows_of_none {was task : Task} (none : probeOf was = none) : Follows was task := by
  intro p runs
  rw [none] at runs
  cases runs

theorem follows_of_eq {was task : Task} (same : probeOf was = probeOf task) : Follows was task :=
  fun p runs => ⟨p, same ▸ runs, rfl, fun _ listed => listed⟩

theorem Heard.follows {handled later : List (NodeId × UInt64)} {p q : Probe} (heard : Heard handled p)
    (grows : ∀ e ∈ handled, e ∈ later) (target : q.target = p.target)
    (nonces : ∀ nonce ∈ p.nonces, nonce ∈ q.nonces) : Heard later q := by
  obtain ⟨nonce, listed, came⟩ := heard
  exact ⟨nonce, nonces nonce listed, target ▸ grows _ came⟩

theorem Attributed.move {s : State} (before : Attributed s) {i : ℕ} {shared : Shared} {task : Task}
    (follows : Follows (s.calls i) task)
    (grows : ∀ e ∈ s.shared.handled, e ∈ shared.handled)
    (pending : ∀ nonce receiver, shared.swim.pendingProbes.lookup nonce = some receiver →
      s.shared.swim.pendingProbes.lookup nonce = some receiver ∨
        Receiver.probe receiver = i ∧ ∃ q, probeOf task = some q ∧ nonce ∈ q.nonces)
    (acks : ∀ ack ∈ shared.swim.acks, ack ∈ s.shared.swim.acks ∨
      ∃ p, probeOf (s.calls (Receiver.probe ack.1)) = some p ∧ Heard shared.handled p)
    (ended : ∀ p, task = .ended p false → Heard shared.handled p) :
    Attributed ⟨shared, Function.update s.calls i task⟩ := by
  have followsAll : ∀ c, Follows (s.calls c) (Function.update s.calls i task c) :=
    (Function.forall_update_iff s.calls (fun c t => Follows (s.calls c) t)).mpr
      ⟨follows, fun c _ => Follows.refl _⟩
  refine ⟨?_, ?_, ?_⟩
  · intro nonce receiver found
    rcases pending nonce receiver found with old | ⟨rfl, q, runs, listed⟩
    · obtain ⟨p, runs, listed⟩ := before.pending nonce receiver old
      obtain ⟨q, runsLater, -, more⟩ := followsAll _ p runs
      exact ⟨q, runsLater, more nonce listed⟩
    · refine ⟨q, ?_, listed⟩
      change probeOf (Function.update s.calls _ task _) = some q
      rwa [Function.update_self]
  · intro ack listed
    have heard : ∃ p, probeOf (s.calls (Receiver.probe ack.1)) = some p ∧ Heard shared.handled p := by
      rcases acks ack listed with old | new
      · obtain ⟨p, runs, heard⟩ := before.acks ack old
        exact ⟨p, runs, heard.follows grows rfl fun _ listed => listed⟩
      · exact new
    obtain ⟨p, runs, heard⟩ := heard
    obtain ⟨q, runsLater, target, more⟩ := followsAll _ p runs
    exact ⟨q, runsLater, heard.follows (fun _ listed => listed) target more⟩
  · refine (Function.forall_update_iff s.calls
      (fun _ t => ∀ p, t = .ended p false → Heard shared.handled p)).mpr ⟨ended, ?_⟩
    intro c _ p finished
    exact (before.ended c p finished).follows grows rfl fun _ listed => listed

theorem Attributed.keep {s : State} (before : Attributed s) {i : ℕ} {shared : Shared} {task : Task}
    (follows : Follows (s.calls i) task)
    (handled : shared.handled = s.shared.handled)
    (pending : shared.swim.pendingProbes = s.shared.swim.pendingProbes)
    (acks : shared.swim.acks = s.shared.swim.acks)
    (ended : ∀ p, task = .ended p false → Heard s.shared.handled p) :
    Attributed ⟨shared, Function.update s.calls i task⟩ :=
  before.move follows (fun _ listed => handled ▸ listed) (fun _ _ found => .inl (pending ▸ found))
    (fun _ listed => .inl (acks ▸ listed)) fun p finished => handled ▸ ended p finished

theorem Attributed.marks {s : State} (before : Attributed s) {i : ℕ} {task : Task} {node : NodeId}
    {u : Update} (follows : Follows (s.calls i) task) (goesOn : ∀ p, task ≠ .ended p false) :
    Attributed ⟨s.shared.perform (.mark node u), Function.update s.calls i task⟩ := by
  obtain ⟨members, incarnation, same⟩ := mark_eq s.shared.swim s.shared.instant node u
  refine before.keep follows rfl ?_ ?_ fun p finished => absurd finished (goesOn p)
  · change (s.shared.swim.mark s.shared.instant node u).pendingProbes = _
    rw [same]
  · change (s.shared.swim.mark s.shared.instant node u).acks = _
    rw [same]

theorem lookup_of_lookup_erase {m : Finmap fun _ : UInt64 => Receiver} {nonce erased : UInt64}
    {receiver : Receiver} (found : (m.erase erased).lookup nonce = some receiver) :
    m.lookup nonce = some receiver := by
  by_cases same : nonce = erased
  · subst same
    rw [Finmap.lookup_erase] at found
    cases found
  · rwa [Finmap.lookup_erase_ne same] at found

theorem Attributed.registers {s : State} (before : Attributed s) {i : ℕ} {task : Task} {q : Probe}
    {receiver : Receiver} {nonce : UInt64} (follows : Follows (s.calls i) task)
    (own : Receiver.probe receiver = i) (runs : probeOf task = some q) (listed : nonce ∈ q.nonces)
    (goesOn : ∀ p, task ≠ .ended p false) :
    Attributed ⟨s.shared.register nonce receiver, Function.update s.calls i task⟩ := by
  refine before.move follows (fun _ listed => listed) ?_ (fun _ listed => .inl listed)
    fun p finished => absurd finished (goesOn p)
  intro other found lookup
  change (Finmap.insert nonce receiver s.shared.swim.pendingProbes).lookup other = some found at lookup
  by_cases same : other = nonce
  · subst same
    rw [Finmap.lookup_insert] at lookup
    cases lookup
    exact .inr ⟨own, q, runs, listed⟩
  · rw [Finmap.lookup_insert_of_ne _ same] at lookup
    exact .inl lookup

theorem Attributed.heard {s : State} (before : Attributed s) {i : ℕ} {p : Probe} {receiver : Receiver}
    (own : Receiver.probe receiver = i) (runs : probeOf (s.calls i) = some p)
    (acked : s.shared.acked receiver = true) : Heard s.shared.handled p := by
  obtain ⟨ack, listed, same⟩ := List.any_eq_true.mp acked
  obtain ⟨q, runsThere, heard⟩ := before.acks ack listed
  rw [of_decide_eq_true same, own, runs] at runsThere
  cases runsThere
  exact heard

theorem Attributed.resolves {s : State} (before : Attributed s) {i : ℕ} {task : Task}
    {fromNode : NodeId} {nonce incarnation : UInt64} (follows : Follows (s.calls i) task)
    (goesOn : ∀ p, task ≠ .ended p false)
    (fromTarget : ∀ receiver ∈ s.shared.swim.pendingProbes.lookup nonce,
      ∀ p ∈ probeOf (s.calls (Receiver.probe receiver)), fromNode = p.target) :
    Attributed ⟨s.shared.perform (.resolve fromNode nonce incarnation),
      Function.update s.calls i task⟩ := by
  have grows : ∀ e ∈ s.shared.handled, e ∈ s.shared.handled ++ [(fromNode, nonce)] :=
    fun _ listed => List.mem_append_left _ listed
  cases waits : s.shared.swim.pendingProbes.lookup nonce with
  | none =>
    have unchanged := resolveProbe_of_none waits incarnation
    refine before.move follows grows (fun other receiver found => .inl ?_) (fun ack listed => .inl ?_)
      fun p finished => absurd finished (goesOn p)
    · rwa [← unchanged]
    · rwa [← unchanged]
  | some receiver =>
    have taken := resolveProbe_of_some waits incarnation
    obtain ⟨p, runs, listed⟩ := before.pending nonce receiver waits
    have target : fromNode = p.target := fromTarget receiver waits p runs
    refine before.move follows grows (fun other found lookup => .inl ?_) (fun ack among => ?_)
      fun q finished => absurd finished (goesOn q)
    · change (s.shared.swim.resolveProbe nonce incarnation).pendingProbes.lookup other =
        some found at lookup
      rw [taken] at lookup
      exact lookup_of_lookup_erase lookup
    · change ack ∈ (s.shared.swim.resolveProbe nonce incarnation).acks at among
      rw [taken] at among
      rcases List.mem_append.mp among with old | new
      · exact .inl old
      · cases List.mem_singleton.mp new
        exact .inr ⟨p, runs, nonce, listed,
          List.mem_append_right _ (List.mem_singleton.mpr (by rw [target]))⟩

theorem Attributed.advance {s : State} (before : Attributed s) {i : ℕ} {shared : Shared} {was task : Task}
    (stands : s.calls i = was)
    (fromTarget : ∀ ack ∈ resolving was, ∀ receiver ∈ s.shared.swim.pendingProbes.lookup ack.2,
      ∀ p ∈ probeOf (s.calls (Receiver.probe receiver)), ack.1 = p.target)
    (moves : Move s.shared i was shared task) :
    Attributed ⟨shared, Function.update s.calls i task⟩ := by
  cases moves with
  | perform op rest =>
    have follows : Follows (s.calls i) (.handling rest) := follows_of_none (by rw [stands]; rfl)
    cases op with
    | mark node u => exact before.marks follows fun p finished => by cases finished
    | resolve fromNode nonce incarnation =>
      exact before.resolves follows (fun p finished => by cases finished)
        (fromTarget (fromNode, nonce) rfl)
  | bury node incarnation rest =>
    exact before.marks (follows_of_none (by rw [stands]; rfl)) fun p finished => by cases finished
  | register p =>
    exact before.registers (follows_of_eq (by rw [stands]; rfl)) rfl (q := p) rfl
      List.mem_cons_self fun q finished => by cases finished
  | unsent p =>
    refine before.move (follows_of_eq (by rw [stands]; rfl)) (fun _ listed => listed) ?_
      (fun _ listed => .inl listed) fun q finished => by cases finished
    exact fun nonce receiver found => .inl (lookup_of_lookup_erase found)
  | acked p ack =>
    refine before.keep (follows_of_eq (by rw [stands]; rfl)) rfl rfl rfl fun q finished => ?_
    cases finished
    exact before.heard (i := i) rfl (by rw [stands]; rfl) ack
  | ackedIndirect p ack =>
    refine before.keep (follows_of_eq (by rw [stands]; rfl)) rfl rfl rfl fun q finished => ?_
    cases finished
    exact before.heard (i := i) rfl (by rw [stands]; rfl) ack
  | insert p nonce =>
    refine before.registers ?_ rfl (q := { p with indirect := nonce :: p.indirect }) rfl
      (List.mem_cons_of_mem _ List.mem_cons_self) fun q finished => by cases finished
    intro q runs
    rw [stands] at runs
    cases runs
    exact ⟨_, rfl, rfl, fun other listed => List.mem_cons.mpr
      ((List.mem_cons.mp listed).imp_right (List.mem_cons_of_mem _))⟩
  | suspect p incarnation =>
    exact before.marks (follows_of_eq (by rw [stands]; rfl)) fun q finished => by cases finished
  | _ =>
    exact before.keep (follows_of_eq (by rw [stands]; rfl)) rfl rfl rfl fun q finished => by cases finished

theorem Attributed.opens {s : State} (before : Attributed s) {i : ℕ} {task : Task}
    (opens : Opens (s.calls i) task) : Attributed ⟨s.shared, Function.update s.calls i task⟩ := by
  refine before.keep (follows_of_none ?_) rfl rfl rfl fun p finished => ?_
  · generalize s.calls i = was at opens
    cases opens <;> rfl
  · rw [finished] at opens
    exact absurd rfl (opens.ne_ended p false)

theorem step_attributed {s t : State} {label : Label} (taken : step s label = some t)
    (fromTarget : AcksFromTarget s label) (before : Attributed s) : Attributed t := by
  refine step_rule taken before (fun _ _ _ before opens => before.opens opens) (fun ms => ?_) ?_
  · exact ⟨before.pending, before.acks, before.ended⟩
  · rintro i o shared task rfl moves
    exact before.advance rfl fromTarget (advance_move moves)

def unsuspected : Task → Option Probe
  | .ended p false => some p
  | _ => none

theorem eq_ended {task : Task} {p : Probe} (ends : unsuspected task = some p) :
    task = .ended p false := by
  cases task with
  | ended q suspected =>
    cases suspected with
    | false => cases ends; rfl
    | true => cases ends
  | _ => cases ends

def probing : List Label :=
  [.receive 0 true (.swimAlive (peerId 1) 0), .advance 0 ⟨none, true, []⟩, .tick 1,
    .advance 1 ⟨none, true, []⟩, .advance 1 ⟨none, true, []⟩,
    .advance 1 ⟨some (peerId 1), true, []⟩, .advance 1 ⟨none, true, []⟩,
    .advance 1 ⟨none, true, []⟩, .advance 1 ⟨none, true, []⟩, .advance 1 ⟨none, true, []⟩,
    .spawn 1 2, .advance 2 ⟨none, true, []⟩, .advance 2 ⟨none, true, []⟩]

def answered : List Label :=
  [.receive 3 true (.swimPingAck (peerId 1) 0 0), .advance 3 ⟨none, true, []⟩,
    .advance 2 ⟨none, true, []⟩]

def vouched : List Label :=
  [.receive 3 true (.swimAlive (peerId 2) 0), .advance 3 ⟨none, true, []⟩,
    .advance 2 ⟨none, false, []⟩, .advance 2 ⟨some (peerId 1), true, []⟩,
    .advance 2 ⟨some (peerId 2), true, []⟩, .advance 2 ⟨none, true, [peerId 2]⟩,
    .advance 2 ⟨none, true, []⟩, .advance 2 ⟨none, true, []⟩,
    .receive 4 true (.swimPingAck (peerId 2) 1 0), .advance 4 ⟨none, true, []⟩,
    .advance 2 ⟨none, true, []⟩]

end Probes

end Craftec.Net.SwimSafety
