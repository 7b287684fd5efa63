/- GID: Craftec/Node/Purges
   generality: I
   digest: The removal of a peer from the tracker: what it comes to undisturbed, and what it never takes. -/

import Mathlib
import Craftec.Health.ScanCycle
import Craftec.Health.Scanner
import Craftec.Health.Tracker
import Craftec.Library.Broadcast
import Craftec.Library.Retain
import Craftec.Library.Run
import Craftec.Library.ShardedTable
import Craftec.Net.Providers
import Craftec.Net.Swim
import Craftec.Node.Departures
import Craftec.Node.Handler
import Craftec.Types.Digest

set_option autoImplicit false
set_option relaxedAutoImplicit false

namespace Craftec.Node.Purges

open Craftec.Health.ScanCycle (content)
open Craftec.Health.Scanner (defaultK)
open Craftec.Health.Tracker
open Craftec.Library.Broadcast (Channel Received)
open Craftec.Library.Retain (retain lookup_retain)
open Craftec.Library.Run (Reach Reach.invariant anyStep exists_reach_reach mem_set_cases reach_step)
open Craftec.Library.ShardedTable (Sharding sweepRows)
open Craftec.Net.Providers (twoShards)
open Craftec.Net.Swim (localId_mark peerId)
open Craftec.Node.Departures
open Craftec.Node.Handler (PieceHolder updateFirst)
open Craftec.Types.Digest (Cid NodeId)

/-- The tracker after the first `j` shards, if nobody else moves. -/
def sweptTo (T : Sharding Cid) (node : NodeId) (j : ℕ) (tracker : PieceTracker) : PieceTracker :=
  { tracker with
    availability := retain
      (fun cid holders => if T.shard cid < j then sweepRows (isOther node) holders else some holders)
      tracker.availability }

def emptiedTo (T : Sharding Cid) (node : NodeId) (j : ℕ) (tracker : PieceTracker) : Finset Cid :=
  tracker.availability.keys.filter fun cid =>
    T.shard cid < j ∧ ((tracker.getHolders cid).filter (isOther node)).isEmpty = true

section Undisturbed

variable {S T : Sharding Cid} {s : State} {node : NodeId} {tracker : PieceTracker} {n : ℕ}

theorem lookup_sweptTo (T : Sharding Cid) (node : NodeId) (j : ℕ) (tracker : PieceTracker) (cid : Cid) :
    (sweptTo T node j tracker).availability.lookup cid = (tracker.availability.lookup cid).bind
      fun holders => if T.shard cid < j then sweepRows (isOther node) holders else some holders :=
  lookup_retain _ _ _

theorem sweepTracker_sweptTo (j : ℕ) :
    sweepTracker T node j (sweptTo T node j tracker) = sweptTo T node (j + 1) tracker := by
  have same : (sweepTracker T node j (sweptTo T node j tracker)).availability =
      (sweptTo T node (j + 1) tracker).availability := by
    refine Finmap.ext_lookup fun cid => ?_
    rw [lookup_sweptTo]
    refine (lookup_retain _ _ _).trans ?_
    rw [lookup_sweptTo]
    cases tracker.availability.lookup cid with
    | none => rfl
    | some holders =>
      simp only [Option.bind_some]
      rcases Nat.lt_trichotomy (T.shard cid) j with before | here | after
      · rw [if_pos before, if_pos (Nat.lt_succ_of_lt before)]
        cases sweepRows (isOther node) holders with
        | none => rfl
        | some kept => exact if_neg (Nat.ne_of_lt before)
      · rw [if_neg (Nat.not_lt.mpr here.ge), if_pos (by omega), Option.bind_some, if_pos here]
      · rw [if_neg (Nat.not_lt.mpr after.le), if_neg (by omega), Option.bind_some, if_neg after.ne']
  unfold sweptTo at same ⊢
  unfold sweepTracker at same ⊢
  simp only at same ⊢
  rw [same]

theorem emptiedTo_succ (j : ℕ) :
    emptiedTo T node j tracker ∪ emptiedIn T node j (sweptTo T node j tracker) =
      emptiedTo T node (j + 1) tracker := by
  ext cid
  have untouched (here : T.shard cid = j) :
      (sweptTo T node j tracker).availability.lookup cid = tracker.availability.lookup cid := by
    rw [lookup_sweptTo]
    cases tracker.availability.lookup cid with
    | none => rfl
    | some holders => exact if_neg (Nat.not_lt.mpr here.ge)
  have listed (here : T.shard cid = j) :
      cid ∈ (sweptTo T node j tracker).availability.keys ↔ cid ∈ tracker.availability.keys := by
    rw [Finmap.mem_keys, Finmap.mem_keys, ← Finmap.lookup_isSome, ← Finmap.lookup_isSome, untouched here]
  have holders (here : T.shard cid = j) :
      (sweptTo T node j tracker).getHolders cid = tracker.getHolders cid :=
    congrArg (Option.getD · []) (untouched here)
  simp only [emptiedTo, emptiedIn, Finset.mem_union, Finset.mem_filter]
  constructor
  · rintro (⟨key, before, empty⟩ | ⟨key, here, empty⟩)
    · exact ⟨key, Nat.lt_succ_of_lt before, empty⟩
    · exact ⟨(listed here).mp key, by omega, holders here ▸ empty⟩
  · rintro ⟨key, before, empty⟩
    rcases Nat.lt_succ_iff_lt_or_eq.mp before with first | here
    · exact .inl ⟨key, first, empty⟩
    · exact .inr ⟨(listed here).mpr key, here, (holders here).symm ▸ empty⟩

theorem sweptTo_zero : sweptTo T node 0 tracker = tracker := by
  have same : (sweptTo T node 0 tracker).availability = tracker.availability := by
    refine Finmap.ext_lookup fun cid => ?_
    rw [lookup_sweptTo]
    cases tracker.availability.lookup cid <;> rfl
  unfold sweptTo at same ⊢
  simp only at same ⊢
  rw [same]

theorem reach_sweptTo (here : s.loop = .sweeping n node 0 ∅) {j : ℕ} (within : j ≤ T.count) :
    Reach (step S T) anyStep s { s with
      tracker := sweptTo T node j s.tracker
      loop := .sweeping n node j (emptiedTo T node j s.tracker) } := by
  induction j with
  | zero =>
    have none_ : emptiedTo T node 0 s.tracker = ∅ := by
      refine Finset.filter_eq_empty_iff.mpr ?_
      rintro cid _ ⟨before, _⟩
      exact absurd before (Nat.not_lt_zero _)
    rw [sweptTo_zero, none_, ← here]
    exact .refl
  | succ j ih =>
    refine (ih (Nat.le_of_succ_le within)).trans (reach_step (a := .sweep) trivial ?_)
    simp only [step, if_pos (Nat.lt_of_succ_le within), sweepTracker_sweptTo, emptiedTo_succ]

theorem reach_cleared {emptied : Finset Cid} (here : s.loop = .clearing n node emptied) :
    Reach (step S T) anyStep s { s with
      tracker := { s.tracker with
        kValues := retain (fun cid k => if cid ∈ emptied then none else some k) s.tracker.kValues }
      loop := .clearing n node ∅ } := by
  induction emptied using Finset.induction_on generalizing s with
  | empty =>
    have same : retain (fun cid k => if cid ∈ (∅ : Finset Cid) then none else some k) s.tracker.kValues =
        s.tracker.kValues := by
      refine Finmap.ext_lookup fun cid => ?_
      rw [lookup_retain]
      cases s.tracker.kValues.lookup cid with
      | none => rfl
      | some k => rw [Option.bind_some, if_neg (Finset.notMem_empty cid)]
    rw [same, ← here]
    exact .refl
  | insert cid rest fresh ih =>
    have first : step S T s (.clear cid) = some { s with
        tracker := { s.tracker with kValues := s.tracker.kValues.erase cid }
        loop := .clearing n node rest } := by
      simp only [step, here, if_pos (Finset.mem_insert_self cid rest), Finset.erase_insert fresh]
    refine (reach_step trivial first).trans ?_
    have same : retain (fun other k => if other ∈ rest then none else some k) (s.tracker.kValues.erase cid) =
        retain (fun other k => if other ∈ insert cid rest then none else some k) s.tracker.kValues := by
      refine Finmap.ext_lookup fun other => ?_
      rw [lookup_retain, lookup_retain]
      by_cases own : other = cid
      · subst own
        rw [Finmap.lookup_erase]
        simp only [Finset.mem_insert_self, if_true, Option.bind_none, Option.bind_fun_none]
      · rw [Finmap.lookup_erase_ne own]
        simp only [Finset.mem_insert, own, false_or]
    rw [← same]
    exact ih rfl

theorem sweepRows_eq (keep : PieceHolder → Bool) (holders : List PieceHolder) :
    sweepRows keep holders = keepHolders keep holders := by
  unfold sweepRows keepHolders
  split
  · rename_i empty
    rw [if_pos empty]
  · rename_i filled
    rw [if_neg filled]

theorem sweptTo_count (T : Sharding Cid) (node : NodeId) (tracker : PieceTracker) :
    (sweptTo T node T.count tracker).availability = (tracker.removeNode node).availability := by
  refine Finmap.ext_lookup fun cid => ?_
  rw [lookup_sweptTo]
  refine Eq.trans ?_ (lookup_retain _ _ _).symm
  refine congrArg _ (funext fun holders => ?_)
  rw [if_pos (T.below cid), sweepRows_eq]
  rfl

theorem emptiedTo_count (T : Sharding Cid) (node : NodeId) (tracker : PieceTracker) :
    emptiedTo T node T.count tracker = tracker.availability.keys.filter fun cid =>
      (tracker.getHolders cid).filter (fun holder => decide (holder.nodeId ≠ node)) = [] := by
  refine Finset.filter_congr fun cid _ => ?_
  rw [and_iff_right (T.below cid), List.isEmpty_iff]
  rfl

theorem removeNode_eq (T : Sharding Cid) (node : NodeId) (tracker : PieceTracker) :
    tracker.removeNode node = ⟨(sweptTo T node T.count tracker).toPieceTracker,
      retain (fun cid k => if cid ∈ emptiedTo T node T.count tracker then none else some k)
        tracker.kValues⟩ := by
  have holders := sweptTo_count T node tracker
  rw [emptiedTo_count]
  unfold sweptTo at holders ⊢
  simp only at holders ⊢
  rw [holders]
  rfl

theorem reach_removeNode (here : s.loop = .sweeping n node 0 ∅) :
    Reach (step S T) anyStep s { s with
      tracker := s.tracker.removeNode node, loop := .clearing n node ∅ } := by
  have swept := reach_sweptTo (S := S) here (le_refl T.count)
  have turns : step S T { s with
      tracker := sweptTo T node T.count s.tracker
      loop := .sweeping n node T.count (emptiedTo T node T.count s.tracker) } .sweep = some { s with
      tracker := sweptTo T node T.count s.tracker
      loop := .clearing n node (emptiedTo T node T.count s.tracker) } := by
    simp only [step, lt_irrefl, if_false]
  rw [removeNode_eq T]
  exact (swept.trans (reach_step trivial turns)).trans (reach_cleared rfl)

end Undisturbed

structure Spared (own : NodeId) (s : State) : Prop where
  localId : s.swim.localId = own
  calls : ∀ m ∈ s.markings, m.mortal ≠ some own
  sent : ∀ e ∈ s.bus.sent, e.1 ≠ .peerDisconnected own
  loop : s.loop.node ≠ some own
  kValues : ∀ cid k, s.tracker.getK cid = some k → k = 32

section Own

variable {S T : Sharding Cid} {s s' : State} {own : NodeId}

def countOf (own : NodeId) (holders : List PieceHolder) : ℕ :=
  (((holders.find? fun h => h.nodeId = own).map PieceHolder.pieceCount).getD 0).toNat

theorem countOf_cons_own {first : PieceHolder} (mine : first.nodeId = own) (rest : List PieceHolder) :
    countOf own (first :: rest) = first.pieceCount.toNat := by
  simp only [countOf, List.find?_cons, mine, decide_true, Option.map_some, Option.getD_some]

theorem countOf_cons_other {first : PieceHolder} (other : first.nodeId ≠ own) (rest : List PieceHolder) :
    countOf own (first :: rest) = countOf own rest := by
  simp only [countOf, List.find?_cons, other, decide_false]

theorem le_max_toNat (a b : UInt32) : a.toNat ≤ (max a b).toNat := by
  rw [show max a b = if a ≤ b then b else a from rfl]
  split
  · rename_i le
    exact UInt32.le_iff_toNat_le.mp le
  · exact Nat.le_refl _

theorem countOf_updateFirst (holder : PieceHolder) (holders : List PieceHolder) :
    countOf own holders ≤ countOf own (updateFirst
      (fun existing => decide (existing.nodeId = holder.nodeId)) (refresh holder) holder holders) := by
  induction holders with
  | nil => exact Nat.zero_le _
  | cons first rest ih =>
    rw [updateFirst]
    by_cases mine : first.nodeId = own
    · rw [countOf_cons_own mine]
      split
      · rw [@countOf_cons_own own (refresh holder first) mine]
        exact le_max_toNat first.pieceCount holder.pieceCount
      · rw [countOf_cons_own mine]
    · rw [countOf_cons_other mine]
      split
      · rw [@countOf_cons_other own (refresh holder first) mine]
      · rw [countOf_cons_other mine]
        exact ih

theorem countOf_filter {node : NodeId} (apart : own ≠ node) (holders : List PieceHolder) :
    countOf own (holders.filter (isOther node)) = countOf own holders := by
  induction holders with
  | nil => rfl
  | cons first rest ih =>
    by_cases mine : first.nodeId = own
    · have kept : isOther node first = true := decide_eq_true fun same => apart (mine.symm.trans same)
      rw [List.filter_cons_of_pos kept, countOf_cons_own mine, countOf_cons_own mine]
    · rw [countOf_cons_other mine]
      by_cases kept : isOther node first = true
      · rw [List.filter_cons_of_pos kept, countOf_cons_other mine, ih]
      · rw [List.filter_cons_of_neg kept, ih]

theorem countOf_le_of_move (move : Move S T s s') (spared : s.loop.node ≠ some own) (cid : Cid) :
    countOf own (s.tracker.getHolders cid) ≤ countOf own (s'.tracker.getHolders cid) := by
  cases move with
  | mark | markSuspect | publish | report | dht | subscribe | receive | announced | swept | clear | cleared
    | removed | shutdown => exact le_rfl
  | @advance i m m' t there taken =>
    have same : t.tracker = s.tracker := (advance_marks taken).tracker
    change _ ≤ countOf own (t.tracker.getHolders cid)
    rw [same]
  | @record i other holder there =>
    change _ ≤ countOf own ((s.tracker.recordPiece other holder).getHolders cid)
    by_cases here : cid = other
    · subst here
      rw [getHolders_recordPiece_self]
      exact countOf_updateFirst holder _
    · rw [getHolders_recordPiece_of_ne here]
  | recordK other =>
    change _ ≤ countOf own ((s.tracker.recordK other 32).getHolders cid)
    rw [getHolders_recordK]
  | @sweep n node j emptied here =>
    rw [here] at spared
    change _ ≤ countOf own ((sweepTracker T node j s.tracker).getHolders cid)
    rw [holders_sweepTracker]
    split
    · rw [countOf_filter fun same => spared (congrArg some same.symm)]
    · exact le_rfl

theorem getK_recordK {tracker : PieceTracker} {cid other : Cid} {k : UInt32}
    (known : ∀ k, tracker.getK other = some k → k = 32)
    (found : (tracker.recordK cid 32).getK other = some k) : k = 32 := by
  unfold PieceTracker.recordK at found
  split at found
  · exact known k found
  · change (tracker.kValues.insert cid 32).lookup other = some k at found
    by_cases here : other = cid
    · rw [here, Finmap.lookup_insert] at found
      exact (Option.some.inj found).symm
    · rw [Finmap.lookup_insert_of_ne _ here] at found
      exact known k found

theorem getK_clear {tracker : PieceTracker} {cid other : Cid} {k : UInt32}
    (found : (tracker.kValues.erase cid).lookup other = some k) : tracker.getK other = some k := by
  by_cases here : other = cid
  · rw [here, Finmap.lookup_erase] at found
    cases found
  · rwa [Finmap.lookup_erase_ne here] at found

theorem dispatch_node {bus : Channel (Event × ℕ)} {r : Received (Event × ℕ)}
    (sent : ∀ e ∈ s.bus.sent, e.1 ≠ .peerDisconnected own)
    (turn : Channel.Turn eventBusCapacity s.bus bus r) : (dispatch r).node ≠ some own := by
  cases turn with
  | lagged far => exact (Option.some_ne_none own).symm
  | @event e near there =>
    obtain ⟨event, stamp⟩ := e
    cases event with
    | peerDisconnected node =>
      intro same
      cases same
      exact sent _ (List.mem_of_getElem? there) rfl
    | cidWritten | pageCommitted | peerConnected | repairNeeded | diskWatermarkHit | shutdownSignal =>
      exact (Option.some_ne_none own).symm

theorem sent_send {e : Event} (sent : ∀ e ∈ s.bus.sent, e.1 ≠ .peerDisconnected own)
    (other : e ≠ .peerDisconnected own) (stamp : ℕ) :
    ∀ e' ∈ (s.bus.send (e, stamp)).sent, e'.1 ≠ .peerDisconnected own := by
  intro e' listed
  rcases List.mem_append.mp listed with old | new
  · exact sent e' old
  · rw [List.mem_singleton.mp new]
    exact other

theorem spared_of_move (move : Move S T s s') (spared : Spared own s) : Spared own s' := by
  obtain ⟨localId, calls, sent, loop, kValues⟩ := spared
  have none_ : (none : Option NodeId) ≠ some own := (Option.some_ne_none own).symm
  cases move with
  | mark m foreign =>
    refine ⟨localId, fun m' listed => ?_, sent, loop, kValues⟩
    rcases List.mem_append.mp listed with old | new
    · exact calls m' old
    · rw [List.mem_singleton.mp new, ← localId]
      exact foreign
  | markSuspect node incarnation =>
    exact ⟨(@localId_mark s.swim _ node (.suspect incarnation)).trans localId, calls, sent, loop, kValues⟩
  | @advance i m m' t there taken =>
    have marks := advance_marks taken
    have foreign : m.mortal ≠ some own := calls m (List.mem_of_getElem? there)
    refine ⟨marks.localId.trans localId, fun u listed => ?_, ?_, ?_, ?_⟩
    · rcases mem_set_cases listed with rfl | ⟨j, _, place⟩
      · exact fun dies => foreign (marks.mortal own dies)
      · exact calls u (List.mem_of_getElem? place)
    · change ∀ e ∈ t.bus.sent, _
      rcases marks.bus with same | ⟨e, grown, dies⟩
      · rw [same]
        exact sent
      · rw [grown]
        exact sent_send sent (fun is => foreign (dies own is)) _
    · change t.loop.node ≠ some own
      rw [marks.loop]
      exact loop
    · change ∀ cid k, t.tracker.getK cid = some k → k = 32
      rw [marks.tracker]
      exact kValues
  | @publish e other =>
    refine ⟨localId, calls, ?_, loop, kValues⟩
    rcases publish_bus s e with same | grown
    · rw [same]
      exact sent
    · rw [grown]
      refine sent_send sent ?_ _
      rintro rfl
      cases other
  | report | record | dht => exact ⟨localId, calls, sent, loop, kValues⟩
  | recordK cid => exact ⟨localId, calls, sent, loop, fun other k => getK_recordK (kValues other)⟩
  | subscribe | announced | removed | shutdown => exact ⟨localId, calls, sent, none_, kValues⟩
  | @receive bus r here turn =>
    refine ⟨localId, calls, ?_, dispatch_node sent turn, kValues⟩
    change ∀ e ∈ bus.sent, _
    rw [turn.sent_eq]
    exact sent
  | sweep here | swept here | cleared here =>
    rw [here] at loop
    exact ⟨localId, calls, sent, loop, kValues⟩
  | clear here cid =>
    rw [here] at loop
    exact ⟨localId, calls, sent, loop, fun other k found => kValues other k (getK_clear found)⟩

theorem spared_new (own : NodeId) : Spared own (.new own) where
  localId := rfl
  calls m listed := by cases listed
  sent e listed := by cases listed
  loop := (Option.some_ne_none own).symm
  kValues cid k found := by
    change (∅ : Finmap fun _ : Cid => UInt32).lookup cid = some k at found
    rw [Finmap.lookup_empty] at found
    cases found

theorem reach_spared (reach : Reach (step S T) anyStep (.new own) s) : Spared own s :=
  reach.invariant (spared_new own) fun _ _ _ spared _ taken => spared_of_move (step_move taken) spared

/-- However peers come and go: the count of this node's own pieces never falls, and the K the scanner
goes by is the same at all times, though a removal that empties a content races with its encoding. -/
theorem own_pieces_kept (reach : Reach (step S T) anyStep (.new own) s)
    (later : Reach (step S T) anyStep s s') (cid : Cid) :
    (s.tracker.localPieceCount cid own).toNat ≤ (s'.tracker.localPieceCount cid own).toNat ∧
      (s'.tracker.getK cid).getD defaultK = 32 := by
  have spared := reach_spared reach
  have kept : Spared own s' ∧
      countOf own (s.tracker.getHolders cid) ≤ countOf own (s'.tracker.getHolders cid) := by
    refine @Reach.invariant _ _ (step S T) anyStep
      (fun u => Spared own u ∧ countOf own (s.tracker.getHolders cid) ≤ countOf own (u.tracker.getHolders cid))
      _ _ later ⟨spared, le_rfl⟩ ?_
    intro u l v holds _ taken
    have move := step_move taken
    exact ⟨spared_of_move move holds.1, holds.2.trans (countOf_le_of_move move holds.1.loop cid)⟩
  refine ⟨kept.2, ?_⟩
  cases found : s'.tracker.getK cid with
  | none => rfl
  | some k => exact kept.1.kValues cid k found

theorem own_pieces_kept_encoding :
    ∃ s t, Reach (step twoShards twoShards) anyStep s t ∧ t.tracker.getK (content 1) = none ∧
      40 ≤ (t.tracker.localPieceCount (content 1) (peerId 0)).toNat := by
  obtain ⟨s, t, reach, later, count, lost⟩ :
      ∃ s t, Reach (step twoShards twoShards) anyStep (.new (peerId 0)) s ∧
        Reach (step twoShards twoShards) anyStep s t ∧
        (s.tracker.localPieceCount (content 1) (peerId 0)).toNat = 40 ∧
        t.tracker.getK (content 1) = none :=
    exists_reach_reach _ _ _ [.subscribe, .markAlive (peerId 1) 0, .advance 0, .advance 0, .advance 0,
      .report (content 1) (peerId 1) 5, .record 0, .markDead (peerId 1) 0, .advance 1, .advance 1, .advance 1,
      .receive, .receive, .sweep, .sweep, .sweep, .recordK (content 1), .report (content 1) (peerId 0) 40,
      .record 0] [.clear (content 1), .cleared] (by decide +kernel)
  have kept := own_pieces_kept reach later (content 1)
  exact ⟨s, t, later, lost, count ▸ kept.1⟩

end Own

end Craftec.Node.Purges
