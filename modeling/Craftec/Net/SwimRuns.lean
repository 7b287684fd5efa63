/- GID: Craftec/Net/SwimRuns
   generality: I
   digest: Handlers, ticks and probes of one node as interleaved steps. -/

import Mathlib
import Craftec.Library.Run
import Craftec.Net.Swim
import Craftec.Types.Digest
import Craftec.Types.Wire

set_option autoImplicit false
set_option relaxedAutoImplicit false

namespace Craftec.Net.SwimRuns

open Craftec.Library.Run (Reach Path anyStep reach_step)
open Craftec.Net.Swim
open Craftec.Types.Digest (NodeId)
open Craftec.Types.Wire (WireMessage)

section Accesses

mutual

/-- The accesses of `handle_message` to shared state, in order, pings unfolded. -/
def messageOps : WireMessage → List Op
  | .swimJoin node _ => [.mark node (.alive 0)]
  | .swimAlive node incarnation => [.mark node (.alive incarnation)]
  | .swimSuspect node incarnation _ => [.mark node (.suspect incarnation)]
  | .swimDead node incarnation _ => [.mark node (.dead incarnation)]
  | .swimPing _ _ piggyback => piggybackOps piggyback
  | .swimPingAck fromNode nonce incarnation =>
    [.mark fromNode (.alive incarnation), .resolve fromNode nonce incarnation]
  | _ => []

def piggybackOps : List WireMessage → List Op
  | [] => []
  | msg :: rest => messageOps msg ++ piggybackOps rest

end

/-- The accesses of `handle_swim_msg`. -/
def endpointOps : WireMessage → List Op
  | .swimPingAck fromNode nonce incarnation =>
    [.resolve fromNode nonce incarnation, .mark fromNode (.alive incarnation)]
  | .swimPing fromNode _ piggyback => .mark fromNode (.alive 0) :: piggybackOps piggyback
  | msg => messageOps msg

def receivedOps (endpoint : Bool) (msg : WireMessage) : List Op :=
  if endpoint then endpointOps msg else messageOps msg

def performAll (now : ℕ) (s : SwimMembership) (ops : List Op) : SwimMembership :=
  ops.foldl (fun s op => s.perform now op) s

theorem performAll_append (now : ℕ) (s : SwimMembership) (front back : List Op) :
    performAll now s (front ++ back) = performAll now (performAll now s front) back :=
  List.foldl_append

mutual

theorem handleMessage_fst (now : ℕ) (s : SwimMembership) (msg : WireMessage) :
    (handleMessage now s msg).1 = performAll now s (messageOps msg) := by
  cases msg with
  | swimPing fromNode nonce piggyback => exact handlePiggyback_fst now s piggyback
  | _ => rfl

theorem handlePiggyback_fst (now : ℕ) (s : SwimMembership) (msgs : List WireMessage) :
    (handlePiggyback now s msgs).1 = performAll now s (piggybackOps msgs) := by
  cases msgs with
  | nil => rfl
  | cons msg rest =>
    rw [piggybackOps, performAll_append, ← handleMessage_fst, ← handlePiggyback_fst]
    rfl

end

theorem handleSwimMsg_fst (now : ℕ) (s : SwimMembership) (msg : WireMessage) :
    (handleSwimMsg now s msg).1 = performAll now s (endpointOps msg) := by
  cases msg with
  | swimPing fromNode nonce piggyback =>
    exact handlePiggyback_fst now (s.markAlive fromNode 0) piggyback
  | _ => rfl

end Accesses

/-- A run of `probe_with_ack`: whom it probes, the nonce of its ping and those it has
registered since for pings to delegates. -/
structure Probe where
  target : NodeId
  nonce : UInt64
  indirect : List UInt64
  deriving DecidableEq

def Probe.nonces (p : Probe) : List UInt64 := p.nonce :: p.indirect

/-- Where a call stands: each constructor names the step it takes next. An iteration
over the members holds one entry at a time, so it is many steps. -/
inductive Task where
  | idle
  | handling (ops : List Op)
  | expiring (started : ℕ) (visited : List NodeId) (newlyDead : List (NodeId × UInt64))
  | burying (newlyDead : List (NodeId × UInt64))
  | listing (visited alive : List NodeId)
  | choosing (alive : List NodeId)
  | gossiping (target : NodeId) (limit : ℕ) (visited : List NodeId)
      (pairs : List (NodeId × MemberState))
  | numbering (target : NodeId) (piggyback : List WireMessage)
  | ticked (probes : List (NodeId × WireMessage))
  | registering (p : Probe)
  | sending (p : Probe)
  | awaiting (p : Probe)
  | delegating (p : Probe) (visited alive : List NodeId)
  | enlisting (p : Probe) (delegates : List NodeId)
  | inserting (p : Probe) (nonce : UInt64)
  | awaitingIndirect (p : Probe)
  | lastKnown (p : Probe)
  | suspecting (p : Probe) (incarnation : UInt64)
  | ended (p : Probe) (suspected : Bool)

/-- The membership and the monotonic clock. The senders and nonces of handled acks
are kept for the statements about runs only. -/
structure Shared where
  swim : SwimMembership
  instant : ℕ
  handled : List (NodeId × UInt64)

structure State where
  shared : Shared
  calls : ℕ → Task

/-- What a step does not control: the entry an iteration comes to, or its end; whether
a message went out or an ack came in before the timeout; and the shuffle. -/
structure Outside where
  next : Option NodeId
  success : Bool
  shuffled : List NodeId

inductive Label where
  | receive (i : ℕ) (endpoint : Bool) (msg : WireMessage)
  | tick (i : ℕ)
  | spawn (i j : ℕ)
  | elapse (ms : ℕ)
  | advance (i : ℕ) (outside : Outside)

def Shared.perform (s : Shared) : Op → Shared
  | .mark node u => { s with swim := s.swim.mark s.instant node u }
  | .resolve fromNode nonce incarnation =>
    { s with swim := s.swim.resolveProbe nonce incarnation, handled := s.handled ++ [(fromNode, nonce)] }

/-- The entry an iteration comes to next: one it has not seen and that is there. -/
def visit (m : Members) (visited : List NodeId) (node : NodeId) : Option MemberState :=
  if node ∈ visited then none else m.lookup node

def overdue (timeout started : ℕ) (node : NodeId) : MemberState → List (NodeId × UInt64)
  | .suspect incarnation since => if timeout ≤ started - since then [(node, incarnation)] else []
  | _ => []

def keepAlive (node : NodeId) (state : MemberState) : List NodeId :=
  if state.isAlive then [node] else []

theorem mem_keepAlive {peer node : NodeId} {state : MemberState} (kept : peer ∈ keepAlive node state) :
    peer = node ∧ state.isAlive = true := by
  unfold keepAlive at kept
  split at kept
  · rename_i alive
    exact ⟨List.mem_singleton.mp kept, alive⟩
  · cases kept

def Shared.register (s : Shared) (nonce : UInt64) (receiver : Receiver) : Shared :=
  { s with swim := s.swim.register nonce receiver }

/-- `tick_count` and `probe_index`. -/
def Shared.countTick (s : Shared) : Shared :=
  { s with swim := { s.swim with tickCount := s.swim.tickCount + 1 } }

def Shared.countProbe (s : Shared) : Shared :=
  { s with swim := { s.swim with probeIndex := s.swim.probeIndex + 1 } }

def Shared.takeNonce (s : Shared) : Shared :=
  { s with swim := { s.swim with probeNonce := s.swim.probeNonce + 1 } }

def Shared.forget (s : Shared) (nonce : UInt64) : Shared :=
  { s with swim := { s.swim with pendingProbes := s.swim.pendingProbes.erase nonce } }

def Shared.acked (s : Shared) (receiver : Receiver) : Bool :=
  s.swim.acks.any fun ack => decide (ack.1 = receiver)

def indirectProbeK : ℕ := 3

def advance (s : Shared) (i : ℕ) (o : Outside) : Task → Option (Shared × Task)
  | .idle | .handling [] | .ticked _ | .ended _ _ => none
  | .handling (op :: rest) => some (s.perform op, .handling rest)
  | .expiring started visited newlyDead =>
    match o.next with
    | none => some (s, .burying newlyDead)
    | some node =>
      (visit s.swim.members visited node).map fun state =>
        (s, .expiring started (node :: visited)
          (newlyDead ++ overdue s.swim.suspectTimeout started node state))
  | .burying [] => some (s, .listing [] [])
  | .burying ((node, incarnation) :: rest) =>
    some (s.perform (.mark node (.dead incarnation)), .burying rest)
  | .listing visited alive =>
    match o.next with
    | none => some (s.countTick, .choosing alive)
    | some node =>
      (visit s.swim.members visited node).map fun state =>
        (s, .listing (node :: visited) (alive ++ keepAlive node state))
  | .choosing alive =>
    match alive[s.swim.probeIndex.toNat % alive.length]? with
    | none => some (s, .ticked [])
    | some target =>
      some (s.countProbe, .gossiping target (adaptivePiggybackCount alive.length) [] [])
  | .gossiping target limit visited pairs =>
    match o.next with
    | none =>
      some (s, .numbering target (((sortByPriority pairs).take limit).map (gossipMsg s.swim.localId)))
    | some node =>
      (visit s.swim.members visited node).map fun state =>
        (s, .gossiping target limit (node :: visited) (pairs ++ [(node, state)]))
  | .numbering target piggyback =>
    some (s.takeNonce,
      .ticked [(target, .swimPing s.swim.localId s.swim.probeNonce piggyback)])
  | .registering p => some (s.register p.nonce (.direct i), .sending p)
  | .sending p =>
    if o.success then some (s, .awaiting p) else some (s.forget p.nonce, .lastKnown p)
  | .awaiting p =>
    if o.success then (if s.acked (.direct i) then some (s, .ended p false) else none)
    else some (s, .delegating p [] [])
  | .delegating p visited alive =>
    match o.next with
    | none =>
      if o.shuffled.Perm (alive.filter fun node => decide (node ≠ p.target)) then
        match o.shuffled.take indirectProbeK with
        | [] => some (s, .lastKnown p)
        | delegates => some (s, .enlisting p delegates)
      else none
    | some node =>
      (visit s.swim.members visited node).map fun state =>
        (s, .delegating p (node :: visited) (alive ++ keepAlive node state))
  | .enlisting p _ => some (s.takeNonce, .inserting p s.swim.probeNonce)
  | .inserting p nonce =>
    some (s.register nonce (.indirect i), .awaitingIndirect { p with indirect := nonce :: p.indirect })
  | .awaitingIndirect p =>
    if o.success then (if s.acked (.indirect i) then some (s, .ended p false) else none)
    else some (s, .lastKnown p)
  | .lastKnown p => some (s, .suspecting p (s.swim.lastKnownIncarnation p.target))
  | .suspecting p incarnation =>
    some (s.perform (.mark p.target (.suspect incarnation)), .ended p true)

/-- `probe_with_ack` on what a tick returned; anything but a ping returns at once. -/
def spawned (target : NodeId) : WireMessage → Task
  | .swimPing _ nonce _ => .registering ⟨target, nonce, []⟩
  | _ => .idle

def step (s : State) : Label → Option State
  | .receive i endpoint msg =>
    match s.calls i with
    | .idle => some { s with calls := Function.update s.calls i (.handling (receivedOps endpoint msg)) }
    | _ => none
  | .tick i =>
    match s.calls i with
    | .idle => some { s with calls := Function.update s.calls i (.expiring s.shared.instant [] []) }
    | _ => none
  | .spawn i j =>
    match s.calls i, s.calls j with
    | .ticked ((target, msg) :: rest), .idle =>
      some { s with
        calls := Function.update (Function.update s.calls i (.ticked rest)) j (spawned target msg) }
    | _, _ => none
  | .elapse ms => some { s with shared := { s.shared with instant := s.shared.instant + ms } }
  | .advance i o =>
    match advance s.shared i o (s.calls i) with
    | some (shared, t) => some ⟨shared, Function.update s.calls i t⟩
    | none => none

def start (swim : SwimMembership) : State := ⟨⟨swim, 0, []⟩, fun _ => .idle⟩

/-- Everything a step of call `i` can do to the membership and to the call. -/
inductive Move (s : Shared) (i : ℕ) : Task → Shared → Task → Prop where
  | perform (op : Op) (rest : List Op) :
      Move s i (.handling (op :: rest)) (s.perform op) (.handling rest)
  | expire {started : ℕ} {visited : List NodeId} {newlyDead : List (NodeId × UInt64)}
      (node : NodeId) (state : MemberState) (found : s.swim.members.lookup node = some state) :
      Move s i (.expiring started visited newlyDead) s (.expiring started (node :: visited)
        (newlyDead ++ overdue s.swim.suspectTimeout started node state))
  | expireEnd (started : ℕ) (visited : List NodeId) (newlyDead : List (NodeId × UInt64)) :
      Move s i (.expiring started visited newlyDead) s (.burying newlyDead)
  | bury (node : NodeId) (incarnation : UInt64) (rest : List (NodeId × UInt64)) :
      Move s i (.burying ((node, incarnation) :: rest)) (s.perform (.mark node (.dead incarnation)))
        (.burying rest)
  | buryEnd : Move s i (.burying []) s (.listing [] [])
  | list {visited alive : List NodeId} (node : NodeId) (state : MemberState)
      (found : s.swim.members.lookup node = some state) :
      Move s i (.listing visited alive) s (.listing (node :: visited) (alive ++ keepAlive node state))
  | listEnd (visited alive : List NodeId) :
      Move s i (.listing visited alive) s.countTick (.choosing alive)
  | chooseNone (alive : List NodeId) : Move s i (.choosing alive) s (.ticked [])
  | choose {alive : List NodeId} {target : NodeId} (limit : ℕ) (listed : target ∈ alive) :
      Move s i (.choosing alive) s.countProbe (.gossiping target limit [] [])
  | gossip {target : NodeId} {limit : ℕ} {visited : List NodeId}
      {pairs : List (NodeId × MemberState)} (node : NodeId) (state : MemberState) :
      Move s i (.gossiping target limit visited pairs) s
        (.gossiping target limit (node :: visited) (pairs ++ [(node, state)]))
  | gossipEnd {target : NodeId} {limit : ℕ} {visited : List NodeId}
      {pairs : List (NodeId × MemberState)} (piggyback : List WireMessage) :
      Move s i (.gossiping target limit visited pairs) s (.numbering target piggyback)
  | number (target : NodeId) (piggyback : List WireMessage) :
      Move s i (.numbering target piggyback) s.takeNonce
        (.ticked [(target, .swimPing s.swim.localId s.swim.probeNonce piggyback)])
  | register (p : Probe) :
      Move s i (.registering p) (s.register p.nonce (.direct i)) (.sending p)
  | sent (p : Probe) : Move s i (.sending p) s (.awaiting p)
  | unsent (p : Probe) : Move s i (.sending p) (s.forget p.nonce) (.lastKnown p)
  | acked (p : Probe) (ack : s.acked (.direct i) = true) : Move s i (.awaiting p) s (.ended p false)
  | timeout (p : Probe) : Move s i (.awaiting p) s (.delegating p [] [])
  | delegate {p : Probe} {visited alive : List NodeId} (node : NodeId) (state : MemberState)
      (found : s.swim.members.lookup node = some state) :
      Move s i (.delegating p visited alive) s
        (.delegating p (node :: visited) (alive ++ keepAlive node state))
  | delegateNone (p : Probe) (visited alive : List NodeId) :
      Move s i (.delegating p visited alive) s (.lastKnown p)
  | delegateEnd {p : Probe} {visited alive delegates : List NodeId}
      (listed : ∀ node ∈ delegates, node ∈ alive) :
      Move s i (.delegating p visited alive) s (.enlisting p delegates)
  | enlist (p : Probe) (delegates : List NodeId) :
      Move s i (.enlisting p delegates) s.takeNonce (.inserting p s.swim.probeNonce)
  | insert (p : Probe) (nonce : UInt64) :
      Move s i (.inserting p nonce) (s.register nonce (.indirect i))
        (.awaitingIndirect { p with indirect := nonce :: p.indirect })
  | ackedIndirect (p : Probe) (ack : s.acked (.indirect i) = true) :
      Move s i (.awaitingIndirect p) s (.ended p false)
  | timeoutIndirect (p : Probe) : Move s i (.awaitingIndirect p) s (.lastKnown p)
  | known (p : Probe) (incarnation : UInt64) : Move s i (.lastKnown p) s (.suspecting p incarnation)
  | suspect (p : Probe) (incarnation : UInt64) :
      Move s i (.suspecting p incarnation) (s.perform (.mark p.target (.suspect incarnation)))
        (.ended p true)

theorem visit_eq_some {m : Members} {visited : List NodeId} {node : NodeId} {state : MemberState}
    (found : visit m visited node = some state) : m.lookup node = some state := by
  unfold visit at found
  split at found
  · cases found
  · exact found

theorem visited_of_map {s s' : Shared} {m : Members} {visited : List NodeId} {node : NodeId}
    {next : MemberState → Task} {t : Task}
    (moves : (visit m visited node).map (fun state => (s, next state)) = some (s', t)) :
    ∃ state, m.lookup node = some state ∧ s' = s ∧ t = next state := by
  obtain ⟨state, found, same⟩ := Option.map_eq_some_iff.mp moves
  cases same
  exact ⟨state, visit_eq_some found, rfl, rfl⟩

theorem advance_move {s s' : Shared} {i : ℕ} {o : Outside} {task task' : Task}
    (moves : advance s i o task = some (s', task')) : Move s i task s' task' := by
  cases task with
  | idle | ticked _ | ended _ _ => cases moves
  | handling ops =>
    cases ops with
    | nil => cases moves
    | cons op rest => cases moves; exact .perform op rest
  | expiring started visited newlyDead =>
    cases next : o.next with
    | none =>
      simp only [advance, next] at moves
      cases moves
      exact .expireEnd started visited newlyDead
    | some node =>
      simp only [advance, next] at moves
      obtain ⟨state, found, rfl, rfl⟩ := visited_of_map moves
      exact .expire node state found
  | burying newlyDead =>
    cases newlyDead with
    | nil => cases moves; exact .buryEnd
    | cons e rest => cases moves; exact .bury e.1 e.2 rest
  | listing visited alive =>
    cases next : o.next with
    | none =>
      simp only [advance, next] at moves
      cases moves
      exact .listEnd visited alive
    | some node =>
      simp only [advance, next] at moves
      obtain ⟨state, found, rfl, rfl⟩ := visited_of_map moves
      exact .list node state found
  | choosing alive =>
    cases chosen : alive[s.swim.probeIndex.toNat % alive.length]? with
    | none =>
      simp only [advance, chosen] at moves
      cases moves
      exact .chooseNone alive
    | some target =>
      simp only [advance, chosen] at moves
      cases moves
      exact .choose _ (List.mem_of_getElem? chosen)
  | gossiping target limit visited pairs =>
    cases next : o.next with
    | none =>
      simp only [advance, next] at moves
      cases moves
      exact .gossipEnd _
    | some node =>
      simp only [advance, next] at moves
      obtain ⟨state, -, rfl, rfl⟩ := visited_of_map moves
      exact .gossip node state
  | numbering target piggyback => cases moves; exact .number target piggyback
  | registering p => cases moves; exact .register p
  | sending p =>
    simp only [advance] at moves
    split at moves
    · cases moves; exact .sent p
    · cases moves; exact .unsent p
  | awaiting p =>
    simp only [advance] at moves
    split at moves
    · split at moves
      · rename_i ack
        cases moves
        exact .acked p ack
      · cases moves
    · cases moves; exact .timeout p
  | delegating p visited alive =>
    cases next : o.next with
    | none =>
      simp only [advance, next] at moves
      split at moves
      · rename_i shuffle
        split at moves
        · cases moves; exact .delegateNone p visited alive
        · cases moves
          refine .delegateEnd fun node chosen => ?_
          exact (List.mem_filter.mp (shuffle.mem_iff.mp (List.mem_of_mem_take chosen))).1
      · cases moves
    | some node =>
      simp only [advance, next] at moves
      obtain ⟨state, found, rfl, rfl⟩ := visited_of_map moves
      exact .delegate node state found
  | enlisting p delegates => cases moves; exact .enlist p delegates
  | inserting p nonce => cases moves; exact .insert p nonce
  | awaitingIndirect p =>
    simp only [advance] at moves
    split at moves
    · split at moves
      · rename_i ack
        cases moves
        exact .ackedIndirect p ack
      · cases moves
    · cases moves; exact .timeoutIndirect p
  | lastKnown p => cases moves; exact .known p _
  | suspecting p incarnation => cases moves; exact .suspect p incarnation

theorem step_advance {s t : State} {i : ℕ} {o : Outside} (taken : step s (.advance i o) = some t) :
    ∃ shared task, advance s.shared i o (s.calls i) = some (shared, task) ∧
      t = ⟨shared, Function.update s.calls i task⟩ := by
  simp only [step] at taken
  split at taken
  · rename_i shared task moves
    cases taken
    exact ⟨shared, task, moves, rfl⟩
  · cases taken

inductive StepCase (s : State) : Label → State → Prop where
  | receive (i : ℕ) (endpoint : Bool) (msg : WireMessage) (idle : s.calls i = .idle) :
      StepCase s (.receive i endpoint msg)
        ⟨s.shared, Function.update s.calls i (.handling (receivedOps endpoint msg))⟩
  | tick (i : ℕ) (idle : s.calls i = .idle) :
      StepCase s (.tick i) ⟨s.shared, Function.update s.calls i (.expiring s.shared.instant [] [])⟩
  | spawn (i j : ℕ) (target : NodeId) (msg : WireMessage) (rest : List (NodeId × WireMessage))
      (ready : s.calls i = .ticked ((target, msg) :: rest)) (idle : s.calls j = .idle) :
      StepCase s (.spawn i j) ⟨s.shared,
        Function.update (Function.update s.calls i (.ticked rest)) j (spawned target msg)⟩
  | elapse (ms : ℕ) :
      StepCase s (.elapse ms) ⟨{ s.shared with instant := s.shared.instant + ms }, s.calls⟩
  | move (i : ℕ) (o : Outside) (shared : Shared) (task : Task)
      (moves : Move s.shared i (s.calls i) shared task) :
      StepCase s (.advance i o) ⟨shared, Function.update s.calls i task⟩

theorem step_cases {s t : State} {label : Label} (taken : step s label = some t) :
    StepCase s label t := by
  cases label with
  | receive i endpoint msg =>
    simp only [step] at taken
    split at taken
    · rename_i idle
      cases taken
      exact .receive i endpoint msg idle
    · cases taken
  | tick i =>
    simp only [step] at taken
    split at taken
    · rename_i idle
      cases taken
      exact .tick i idle
    · cases taken
  | spawn i j =>
    simp only [step] at taken
    split at taken
    · rename_i target msg rest ready idle
      cases taken
      exact .spawn i j target msg rest ready idle
    · cases taken
  | elapse ms =>
    cases taken
    exact .elapse ms
  | advance i o =>
    obtain ⟨shared, task, moves, rfl⟩ := step_advance taken
    exact .move i o shared task (advance_move moves)

/-- What happens to a call without an access to the membership: it begins, or it is a tick that
hands out a probe. -/
inductive Opens : Task → Task → Prop where
  | receive (ops : List Op) : Opens .idle (.handling ops)
  | tick (started : ℕ) : Opens .idle (.expiring started [] [])
  | spawn (target : NodeId) (msg : WireMessage) : Opens .idle (spawned target msg)
  | hand (probe : NodeId × WireMessage) (rest : List (NodeId × WireMessage)) :
      Opens (.ticked (probe :: rest)) (.ticked rest)

theorem Opens.ne_ended {was task : Task} (opens : Opens was task) (p : Probe) (suspected : Bool) :
    task ≠ .ended p suspected := by
  intro ended
  cases opens with
  | spawn target msg => cases msg <;> cases ended
  | receive | tick | hand => cases ended

theorem step_rule {P : State → Prop} {s t : State} {label : Label} (taken : step s label = some t)
    (holds : P s)
    (opens : ∀ u i task, P u → Opens (u.calls i) task → P ⟨u.shared, Function.update u.calls i task⟩)
    (elapse : ∀ ms, P ⟨{ s.shared with instant := s.shared.instant + ms }, s.calls⟩)
    (moves : ∀ i o shared task, label = .advance i o →
      advance s.shared i o (s.calls i) = some (shared, task) →
        P ⟨shared, Function.update s.calls i task⟩) : P t := by
  cases label with
  | receive i endpoint msg =>
    cases step_cases taken with
    | receive i endpoint msg idle => exact opens s i _ holds (idle ▸ .receive _)
  | tick i =>
    cases step_cases taken with
    | tick i idle => exact opens s i _ holds (idle ▸ .tick _)
  | spawn i j =>
    cases step_cases taken with
    | spawn i j target msg rest ready idle =>
      have passed : P ⟨s.shared, Function.update s.calls i (.ticked rest)⟩ :=
        opens s i _ holds (ready ▸ .hand _ rest)
      refine opens _ j _ passed ?_
      have apart : j ≠ i := fun same => by rw [same, ready] at idle; cases idle
      change Opens (Function.update s.calls i _ j) _
      rw [Function.update_of_ne apart, idle]
      exact .spawn target msg
  | elapse ms =>
    cases taken
    exact elapse ms
  | advance i o =>
    obtain ⟨shared, task, moved, rfl⟩ := step_advance taken
    exact moves i o shared task rfl moved

def named : Label → List ℕ
  | .receive i _ _ | .tick i | .advance i _ => [i]
  | .spawn i j => [i, j]
  | .elapse _ => []

theorem step_frame {s t : State} {label : Label} (taken : step s label = some t) {c : ℕ}
    (other : c ∉ named label) : t.calls c = s.calls c := by
  cases step_cases taken with
  | receive i endpoint msg idle => exact Function.update_of_ne (List.ne_of_not_mem_cons other) _ _
  | tick i idle => exact Function.update_of_ne (List.ne_of_not_mem_cons other) _ _
  | spawn i j target msg rest ready idle =>
    have second : c ≠ j := List.ne_of_not_mem_cons (List.not_mem_of_not_mem_cons other)
    have first : c ≠ i := List.ne_of_not_mem_cons other
    exact (Function.update_of_ne second _ _).trans (Function.update_of_ne first _ _)
  | elapse ms => rfl
  | move i o shared task moves => exact Function.update_of_ne (List.ne_of_not_mem_cons other) _ _

theorem path_frame {guard : State → Label → Prop} {s t : State} {labels : List Label}
    (path : Path step guard s labels t) {c : ℕ} (other : ∀ label ∈ labels, c ∉ named label) :
    t.calls c = s.calls c := by
  induction path with
  | nil s => rfl
  | cons allowed taken later ih =>
    have first := step_frame taken (other _ List.mem_cons_self)
    exact (ih fun label listed => other label (List.mem_cons_of_mem _ listed)).trans first

section Alone

variable {s s' : Shared} {calls : ℕ → Task} {i : ℕ}

theorem reach_advance {o : Outside} {t u : Task} (moves : advance s i o t = some (s', u)) :
    Reach step anyStep ⟨s, Function.update calls i t⟩ ⟨s', Function.update calls i u⟩ := by
  refine reach_step (a := .advance i o) trivial ?_
  simp only [step, Function.update_self, moves, Function.update_idem]

def noChoice : Outside := ⟨none, true, []⟩

theorem reach_handling (ops : List Op) : ∃ handled,
    Reach step anyStep ⟨s, Function.update calls i (.handling ops)⟩
      ⟨⟨performAll s.instant s.swim ops, s.instant, handled⟩,
        Function.update calls i (.handling [])⟩ := by
  induction ops generalizing s with
  | nil => exact ⟨s.handled, Relation.ReflTransGen.refl⟩
  | cons op rest ih =>
    have first : Reach step anyStep ⟨s, Function.update calls i (.handling (op :: rest))⟩
        ⟨s.perform op, Function.update calls i (.handling rest)⟩ :=
      reach_advance (o := noChoice) rfl
    obtain ⟨handled, later⟩ := ih (s := s.perform op)
    cases op with
    | mark node u => exact ⟨handled, first.trans later⟩
    | resolve fromNode nonce incarnation => exact ⟨handled, first.trans later⟩

theorem reach_received {calls : ℕ → Task} (idle : calls i = .idle) (endpoint : Bool) (msg : WireMessage) :
    ∃ handled, Reach step anyStep ⟨s, calls⟩
      ⟨⟨if endpoint then (handleSwimMsg s.instant s.swim msg).1
        else (handleMessage s.instant s.swim msg).1, s.instant, handled⟩,
        Function.update calls i (.handling [])⟩ := by
  have received : Reach step anyStep ⟨s, calls⟩
      ⟨s, Function.update calls i (.handling (receivedOps endpoint msg))⟩ :=
    reach_step (a := .receive i endpoint msg) trivial (by simp only [step, idle])
  obtain ⟨handled, done⟩ : ∃ handled,
      Reach step anyStep ⟨s, Function.update calls i (.handling (receivedOps endpoint msg))⟩ _ :=
    reach_handling (receivedOps endpoint msg)
  refine ⟨handled, received.trans ?_⟩
  cases endpoint with
  | true =>
    rw [if_pos rfl, handleSwimMsg_fst]
    exact done
  | false =>
    rw [if_neg Bool.false_ne_true, handleMessage_fst]
    exact done

theorem reach_iteration {α : Type} (task : List NodeId → α → Task)
    (next : α → NodeId × MemberState → α)
    (visits : ∀ visited acc node state, visit s.swim.members visited node = some state →
      advance s i ⟨some node, true, []⟩ (task visited acc) =
        some (s, task (node :: visited) (next acc (node, state))))
    {order visited : List NodeId} (distinct : order.Nodup) (unseen : ∀ node ∈ order, node ∉ visited)
    (acc : α) : ∃ visited',
      Reach step anyStep ⟨s, Function.update calls i (task visited acc)⟩
        ⟨s, Function.update calls i (task visited' ((s.swim.members.listed order).foldl next acc))⟩ := by
  induction order generalizing visited acc with
  | nil => exact ⟨visited, Relation.ReflTransGen.refl⟩
  | cons node rest ih =>
    obtain ⟨absent, distinct⟩ := List.nodup_cons.mp distinct
    cases found : s.swim.members.lookup node with
    | none =>
      have skipped : s.swim.members.listed (node :: rest) = s.swim.members.listed rest := by
        simp only [Members.listed, List.filterMap_cons, found, Option.map_none]
      rw [skipped]
      exact ih distinct (fun other listed => unseen other (List.mem_cons_of_mem _ listed)) acc
    | some state =>
      have taken : s.swim.members.listed (node :: rest) =
          (node, state) :: s.swim.members.listed rest := by
        simp only [Members.listed, List.filterMap_cons, found, Option.map_some]
      have seen : visit s.swim.members visited node = some state := by
        rw [visit, if_neg (unseen node List.mem_cons_self), found]
      have later : ∀ other ∈ rest, other ∉ node :: visited := by
        intro other listed among
        rcases List.mem_cons.mp among with rfl | among
        · exact absent listed
        · exact unseen other (List.mem_cons_of_mem _ listed) among
      obtain ⟨visited', onward⟩ := ih distinct later (next acc (node, state))
      rw [taken]
      exact ⟨visited', (reach_advance (visits visited acc node state seen)).trans onward⟩

theorem reach_burying (newlyDead : List (NodeId × UInt64)) :
    Reach step anyStep ⟨s, Function.update calls i (.burying newlyDead)⟩
      ⟨{ s with swim := newlyDead.foldl (fun swim e => swim.markDead e.1 e.2) s.swim },
        Function.update calls i (.listing [] [])⟩ := by
  induction newlyDead generalizing s with
  | nil => exact reach_advance (o := noChoice) rfl
  | cons e rest ih =>
    have first : Reach step anyStep ⟨s, Function.update calls i (.burying (e :: rest))⟩
        ⟨s.perform (.mark e.1 (.dead e.2)), Function.update calls i (.burying rest)⟩ :=
      reach_advance (o := noChoice) rfl
    exact first.trans ih

theorem foldl_overdue (swim : SwimMembership) (started : ℕ) (order : List NodeId) :
    (swim.members.listed order).foldl
      (fun dead e => dead ++ overdue swim.suspectTimeout started e.1 e.2) [] =
        swim.expired started order := by
  rw [← List.flatMap_eq_foldl, SwimMembership.expired, List.filterMap_eq_flatMap_toList]
  congr 1
  funext e
  obtain ⟨node, state⟩ := e
  cases state with
  | suspect incarnation since =>
    simp only [overdue]
    split <;> rfl
  | _ => rfl

theorem foldl_keepAlive (swim : SwimMembership) (order : List NodeId) :
    (swim.members.listed order).foldl (fun alive e => alive ++ keepAlive e.1 e.2) [] =
      swim.aliveMembers order := by
  rw [← List.flatMap_eq_foldl, SwimMembership.aliveMembers]
  induction swim.members.listed order with
  | nil => rfl
  | cons e rest ih =>
    rw [List.flatMap_cons, ih, List.filter_cons, keepAlive]
    split <;> rfl

theorem reach_expired {order : List NodeId} (distinct : order.Nodup) :
    Reach step anyStep ⟨s, Function.update calls i (.expiring s.instant [] [])⟩
      ⟨{ s with swim := s.swim.expireSuspects s.instant order },
        Function.update calls i (.listing [] [])⟩ := by
  obtain ⟨visited, expires⟩ : ∃ visited,
      Reach step anyStep ⟨s, Function.update calls i (.expiring s.instant [] [])⟩
        ⟨s, Function.update calls i (.expiring s.instant visited _)⟩ :=
    reach_iteration (Task.expiring s.instant)
      (fun dead e => dead ++ overdue s.swim.suspectTimeout s.instant e.1 e.2)
      (fun visited dead node state seen => by simp only [advance, seen, Option.map_some]) distinct
      (fun _ _ => List.not_mem_nil) []
  rw [foldl_overdue] at expires
  exact (expires.trans (reach_advance (o := noChoice) rfl)).trans
    (reach_burying (s.swim.expired s.instant order))

theorem reach_listed {order : List NodeId} (distinct : order.Nodup) :
    Reach step anyStep ⟨s, Function.update calls i (.listing [] [])⟩
      ⟨s.countTick, Function.update calls i (.choosing (s.swim.aliveMembers order))⟩ := by
  obtain ⟨visited, lists⟩ : ∃ visited,
      Reach step anyStep ⟨s, Function.update calls i (.listing [] [])⟩
        ⟨s, Function.update calls i (.listing visited _)⟩ :=
    reach_iteration Task.listing (fun alive e => alive ++ keepAlive e.1 e.2)
      (fun visited alive node state seen => by simp only [advance, seen, Option.map_some]) distinct
      (fun _ _ => List.not_mem_nil) []
  rw [foldl_keepAlive] at lists
  exact lists.trans (reach_advance (o := noChoice) rfl)

theorem reach_gossiped {order : List NodeId} (distinct : order.Nodup) (target : NodeId) (limit : ℕ) :
    Reach step anyStep ⟨s, Function.update calls i (.gossiping target limit [] [])⟩
      ⟨s.takeNonce, Function.update calls i (.ticked [(target,
        .swimPing s.swim.localId s.swim.probeNonce (s.swim.collectGossipMsgs order limit))])⟩ := by
  obtain ⟨visited, gossips⟩ : ∃ visited,
      Reach step anyStep ⟨s, Function.update calls i (.gossiping target limit [] [])⟩
        ⟨s, Function.update calls i (.gossiping target limit visited _)⟩ :=
    reach_iteration (Task.gossiping target limit) (fun pairs e => pairs ++ [e])
      (fun visited pairs node state seen => by simp only [advance, seen, Option.map_some]) distinct
      (fun _ _ => List.not_mem_nil) []
  rw [← List.flatMap_eq_foldl, List.flatMap_singleton'] at gossips
  exact (gossips.trans (reach_advance (o := noChoice) rfl)).trans (reach_advance (o := noChoice) rfl)

/-- A tick that nothing disturbs is `protocol_tick`. -/
theorem reach_tick {calls : ℕ → Task} {order : List NodeId} (idle : calls i = .idle)
    (distinct : order.Nodup) :
    Reach step anyStep ⟨s, calls⟩
      ⟨{ s with swim := (s.swim.protocolTick s.instant order).1 },
        Function.update calls i (.ticked (s.swim.protocolTick s.instant order).2)⟩ := by
  have starts : Reach step anyStep ⟨s, calls⟩
      ⟨s, Function.update calls i (.expiring s.instant [] [])⟩ :=
    reach_step (a := .tick i) trivial (by simp only [step, idle])
  have listed := (starts.trans (reach_expired distinct)).trans (reach_listed distinct)
  refine listed.trans ?_
  simp only [SwimMembership.protocolTick]
  cases chosen : ((s.swim.expireSuspects s.instant order).aliveMembers order)[
      (s.swim.expireSuspects s.instant order).probeIndex.toNat %
        ((s.swim.expireSuspects s.instant order).aliveMembers order).length]? with
  | none =>
    refine reach_advance (o := noChoice) ?_
    simp only [advance, Shared.countTick, chosen]
  | some target =>
    have chooses : Reach step anyStep
        ⟨Shared.countTick { s with swim := s.swim.expireSuspects s.instant order },
          Function.update calls i (.choosing
            ((s.swim.expireSuspects s.instant order).aliveMembers order))⟩
        ⟨Shared.countProbe (Shared.countTick { s with swim := s.swim.expireSuspects s.instant order }),
          Function.update calls i (.gossiping target (adaptivePiggybackCount
            ((s.swim.expireSuspects s.instant order).aliveMembers order).length) [] [])⟩ :=
      reach_advance (o := noChoice) (by simp only [advance, Shared.countTick, chosen])
    exact chooses.trans (reach_gossiped distinct target _)

end Alone

end Craftec.Net.SwimRuns
