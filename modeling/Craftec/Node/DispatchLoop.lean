/- GID: Craftec/Node/DispatchLoop
   generality: I
   digest: The event loop that serves all events, as the model that knows only of written contents sees it. -/

import Mathlib
import Craftec.Library.Broadcast
import Craftec.Library.Run
import Craftec.Library.ShardedTable
import Craftec.Node.Departures
import Craftec.Node.EncodeEvents
import Craftec.Obj.Store
import Craftec.Types.Digest
import Craftec.Types.Piece

set_option autoImplicit false
set_option relaxedAutoImplicit false

namespace Craftec.Node.DispatchLoop

open Craftec.Library.Broadcast (Channel)
open Craftec.Library.Run (Reach reach_step)
open Craftec.Library.ShardedTable (Sharding)
open Craftec.Node.Departures (Event Move State advance_marks eventBusCapacity publish_bus
  step_move)
open Craftec.Node.EncodeEvents (World)
open Craftec.Obj
open Craftec.Obj.Store (Bloom)
open Craftec.Types.Digest (Blake3 Bytes Cid NodeId)
open Craftec.Types.Piece (CodedPiece)

def written : Event × ℕ → Option Cid
  | (.cidWritten cid, _) => some cid
  | _ => none

def writtenIn (sent : List (Event × ℕ)) : List Cid := sent.filterMap written

/-- A loop that knows only of written contents waits while the other removes a peer. -/
def Seen : Departures.Loop → EncodeEvents.Loop → Prop
  | .announcing cid, loop => ∃ event, loop = .announcing event cid
  | .stopped, loop => loop = .stopped
  | _, loop => loop = .waiting

def ofLoop {F : Type} (_ : World F) : EncodeEvents.Label → Prop
  | .receive _ | .dispatch | .shutdown => True
  | _ => False

/-- The store has published the written contents of the bus, and of those the narrower loop has
passed no more than the wider one. -/
structure Views {F : Type} (s : State) (w : World F) : Prop where
  published : writtenIn s.bus.sent <+: w.store.shared.published
  received : w.received ≤ (writtenIn (s.bus.sent.take s.bus.next)).length
  loop : Seen s.loop w.loop

theorem writtenIn_mono {front sent : List (Event × ℕ)} (first : front <+: sent) :
    writtenIn front <+: writtenIn sent := first.filterMap written

theorem writtenIn_getElem? {sent : List (Event × ℕ)} {n : ℕ} {e : Event × ℕ} {cid : Cid}
    (there : sent[n]? = some e) (is : written e = some cid) :
    (writtenIn sent)[(writtenIn (sent.take n)).length]? = some cid := by
  obtain ⟨inside, here⟩ := List.getElem?_eq_some_iff.mp there
  have parts : sent = sent.take n ++ e :: sent.drop (n + 1) := by
    rw [← here, ← List.drop_eq_getElem_cons inside, List.take_append_drop]
  have told : writtenIn sent = writtenIn (sent.take n) ++ cid :: writtenIn (sent.drop (n + 1)) := by
    conv_lhs => rw [parts]
    simp only [writtenIn, List.filterMap_append, List.filterMap_cons, is]
  rw [told]
  simp

theorem length_writtenIn_succ {sent : List (Event × ℕ)} {n : ℕ} {e : Event × ℕ} {cid : Cid}
    (there : sent[n]? = some e) (is : written e = some cid) :
    (writtenIn (sent.take (n + 1))).length = (writtenIn (sent.take n)).length + 1 := by
  rw [List.take_add_one, there]
  simp [writtenIn, is]

theorem length_writtenIn_mono (bus bus' : Channel (Event × ℕ)) (sent : bus.sent <+: bus'.sent)
    (next : bus.next ≤ bus'.next) :
    (writtenIn (bus.sent.take bus.next)).length ≤ (writtenIn (bus'.sent.take bus'.next)).length := by
  refine (writtenIn_mono (List.prefix_take_iff.mpr ⟨?_, ?_⟩)).length_le
  · exact (List.take_prefix _ _).trans sent
  · exact (List.length_take_le _ _).trans next

section Steps

variable {F : Type} {s s' : State} {w : World F}

theorem Views.stay (views : Views s w) (told : writtenIn s'.bus.sent <+: w.store.shared.published)
    (sent : s.bus.sent <+: s'.bus.sent) (next : s.bus.next ≤ s'.bus.next)
    (loop : Seen s'.loop w.loop) : Views s' w :=
  ⟨told, views.received.trans (length_writtenIn_mono s.bus s'.bus sent next), loop⟩

variable (B : Blake3) (bloom : Bloom F) (base : Shard.Path)
  (serialise : CodedPiece → Except String Bytes)

theorem receive_viewed (views : Views s w) (waits : s.loop = .waiting)
    {bus : Channel (Event × ℕ)} {r : Library.Broadcast.Received (Event × ℕ)}
    (turn : Channel.Turn eventBusCapacity s.bus bus r) :
    ∃ w', Reach (EncodeEvents.step B bloom base serialise) ofLoop w w' ∧ w'.store = w.store ∧
      Views { s with bus := bus, loop := Departures.dispatch r } w' := by
  have waiting : w.loop = .waiting := by
    have seen := views.loop
    rwa [waits] at seen
  have sent := turn.sent_eq
  have told : writtenIn bus.sent <+: w.store.shared.published := by
    rw [sent]
    exact views.published
  have grown : s.bus.sent <+: bus.sent := by rw [sent]
  cases turn with
  | lagged far =>
    exact ⟨w, .refl, rfl, views.stay told grown (Nat.le_sub_of_add_le far.le) waiting⟩
  | @event e near there =>
    obtain ⟨e, stamp⟩ := e
    have later : s.bus.next ≤ s.bus.next + 1 := Nat.le_succ _
    cases e with
    | cidWritten cid =>
      obtain ⟨rest, published⟩ := views.published
      have place := writtenIn_getElem? there (rfl : written (.cidWritten cid, stamp) = some cid)
      have count := length_writtenIn_succ there (rfl : written (.cidWritten cid, stamp) = some cid)
      set k := (writtenIn (s.bus.sent.take s.bus.next)).length with passed
      have upto : w.received + (k - w.received) = k := Nat.add_sub_cancel' views.received
      have there' : w.store.shared.published[w.received + (k - w.received)]? = some cid := by
        rw [upto, ← published, List.getElem?_append_left (List.getElem?_eq_some_iff.mp place).1]
        exact place
      refine ⟨{ w with
        received := w.received + (k - w.received) + 1
        loop := .announcing (w.received + (k - w.received)) cid },
        reach_step (a := .receive (k - w.received)) trivial ?_, rfl, told, ?_, _, rfl⟩
      · simp only [EncodeEvents.step, waiting, there']
      · change w.received + (k - w.received) + 1 ≤ _
        rw [upto]
        exact count.ge
    | shutdownSignal =>
      refine ⟨{ w with loop := .stopped }, reach_step (a := .shutdown) trivial ?_, rfl, told, ?_, rfl⟩
      · simp only [EncodeEvents.step, waiting]
      · exact views.received.trans (length_writtenIn_mono s.bus _ grown later)
    | peerDisconnected | pageCommitted | peerConnected | repairNeeded | diskWatermarkHit =>
      exact ⟨w, .refl, rfl, views.stay told grown later waiting⟩

theorem move_viewed {S T : Sharding Cid} (move : Move S T s s') (views : Views s w)
    (told : writtenIn s'.bus.sent <+: w.store.shared.published) :
    ∃ w', Reach (EncodeEvents.step B bloom base serialise) ofLoop w w' ∧ w'.store = w.store ∧
      Views s' w' := by
  have sent := move.later.sent
  have seen := views.loop
  -- what does not concern the loop, and what it does for events of other kinds
  have stays (next : s'.bus.next = s.bus.next) (loop : Seen s'.loop w.loop) :
      ∃ w', Reach (EncodeEvents.step B bloom base serialise) ofLoop w w' ∧ w'.store = w.store ∧
        Views s' w' := ⟨w, .refl, rfl, views.stay told sent next.ge loop⟩
  cases move with
  | mark | markSuspect | report | record | recordK | dht => exact stays rfl seen
  | advance there taken =>
    have marks := advance_marks taken
    refine stays ?_ (by rwa [marks.loop])
    rcases marks.bus with same | ⟨e, grown, -⟩
    · exact congrArg Channel.next same
    · exact (congrArg Channel.next grown).trans rfl
  | publish other =>
    refine stays ?_ seen
    rcases publish_bus s _ with same | grown
    · exact congrArg Channel.next same
    · exact (congrArg Channel.next grown).trans rfl
  | subscribe here | sweep here | swept here | clear here | cleared here | removed here =>
    rw [here] at seen
    exact stays rfl seen
  | receive here turn => exact receive_viewed B bloom base serialise views here turn
  | @announced cid here =>
    rw [here] at seen
    obtain ⟨event, announces⟩ := seen
    by_cases piece : w.node.pieceIndex.isPieceCid cid
    · refine ⟨{ w with loop := .waiting }, reach_step (a := .dispatch) trivial ?_, rfl,
        told, views.received, rfl⟩
      simp only [EncodeEvents.step, announces, if_pos piece]
    · refine ⟨{ w with
        loop := .waiting
        jobs := w.jobs ++ [.spawned cid]
        triggers := w.triggers ++ [event] }, reach_step (a := .dispatch) trivial ?_, rfl,
        told, views.received, rfl⟩
      simp only [EncodeEvents.step, announces, if_neg piece]
  | shutdown here =>
    rw [here] at seen
    refine ⟨{ w with loop := .stopped }, reach_step (a := .shutdown) trivial ?_, rfl,
      told, views.received, rfl⟩
    simp only [EncodeEvents.step, show w.loop = .waiting from seen]

theorem reach_viewed {S T : Sharding Cid} {guard : State → Departures.Label → Prop}
    (reach : Reach (Departures.step S T) guard s s') (views : Views s w)
    (told : writtenIn s'.bus.sent <+: w.store.shared.published) :
    ∃ w', Reach (EncodeEvents.step B bloom base serialise) ofLoop w w' ∧ w'.store = w.store ∧
      Views s' w' := by
  induction reach with
  | refl => exact ⟨w, .refl, rfl, views⟩
  | tail _ last ih =>
    obtain ⟨l, -, taken⟩ := last
    have move := step_move taken
    obtain ⟨u, before, store, views⟩ := ih ((writtenIn_mono move.later.sent).trans told)
    rw [← store] at told
    obtain ⟨w', after, store', views⟩ := move_viewed B bloom base serialise move views told
    exact ⟨w', before.trans after, store'.trans store, views⟩

theorem views_new {localId : NodeId} (waits : w.loop = .waiting) (fresh : w.received = 0) :
    Views (.new localId) w := ⟨List.nil_prefix, fresh.trans_le (Nat.zero_le _), waits⟩

/-- Every run of the loop over all events is, to who knows only of written contents, a run of the
other loop over a store that has published them. -/
theorem dispatch_viewed {S T : Sharding Cid} {guard : State → Departures.Label → Prop}
    {localId : NodeId} (reach : Reach (Departures.step S T) guard (.new localId) s)
    (waits : w.loop = .waiting) (fresh : w.received = 0)
    (told : w.store.shared.published = writtenIn s.bus.sent) :
    ∃ w', Reach (EncodeEvents.step B bloom base serialise) ofLoop w w' ∧ w'.store = w.store ∧
      w'.received ≤ (writtenIn (s.bus.sent.take s.bus.next)).length ∧ Seen s.loop w'.loop := by
  have inside : writtenIn s.bus.sent <+: w.store.shared.published := by rw [told]
  obtain ⟨w', run, store, views⟩ :=
    reach_viewed B bloom base serialise reach (views_new waits fresh) inside
  exact ⟨w', run, store, views.received, views.loop⟩

end Steps

end Craftec.Node.DispatchLoop
