/- GID: Craftec/Health/Holders
   generality: I
   digest: The tracker of a node under messages and local calls: one record a node, sums that wrap, and K. -/

import Mathlib
import Craftec.Health.Scanner
import Craftec.Health.Tracker
import Craftec.Node.Dispatch
import Craftec.Node.Handler
import Craftec.Types.Digest
import Craftec.Types.Wire

set_option autoImplicit false
set_option relaxedAutoImplicit false

namespace Craftec.Health.Holders

open Craftec.Health.Scanner (evaluateCid)
open Craftec.Health.Tracker
open Craftec.Net.Swim (peerId)
open Craftec.Node.Dispatch (somePackages stocked twoNodes)
open Craftec.Node.Handler (NodeMessageHandler Packages PieceHolder Surroundings handleMessage)
open Craftec.Sql.Database (Libsql pageEngine)
open Craftec.Types.Digest (Blake3 Bytes32 Cid NodeId)
open Craftec.Types.Wire (WireMessage)

inductive TrackerOp where
  | recordPiece (cid : Cid) (holder : PieceHolder)
  | recordK (cid : Cid) (k : UInt32)
  | removeNode (node : NodeId)
  | pruneStale (now maxAge : ℕ)

def TrackerOp.apply (tracker : PieceTracker) : TrackerOp → PieceTracker
  | .recordPiece cid holder => tracker.recordPiece cid holder
  | .recordK cid k => tracker.recordK cid k
  | .removeNode node => tracker.removeNode node
  | .pruneStale now maxAge => (tracker.pruneStale now maxAge).1

section Records

variable {tracker : PieceTracker} {cid : Cid}

theorem nodup_apply (once : ((tracker.getHolders cid).map PieceHolder.nodeId).Nodup) (op : TrackerOp) :
    (((op.apply tracker).getHolders cid).map PieceHolder.nodeId).Nodup := by
  cases op with
  | recordPiece other holder => exact nodup_recordPiece once other holder
  | recordK other k =>
    rw [TrackerOp.apply, getHolders_recordK]
    exact once
  | removeNode node =>
    rw [TrackerOp.apply, getHolders_removeNode]
    exact List.Nodup.sublist (List.filter_sublist.map _) once
  | pruneStale now maxAge =>
    rw [TrackerOp.apply, getHolders_pruneStale]
    exact List.Nodup.sublist (List.filter_sublist.map _) once

theorem nodup_foldl_apply (ops : List TrackerOp)
    (once : ((tracker.getHolders cid).map PieceHolder.nodeId).Nodup) :
    (((ops.foldl TrackerOp.apply tracker).getHolders cid).map PieceHolder.nodeId).Nodup := by
  induction ops generalizing tracker with
  | nil => exact once
  | cons op rest ih => exact ih (nodup_apply once op)

theorem toNat_sum (counts : List UInt32) :
    counts.sum.toNat = (counts.map UInt32.toNat).sum % 2 ^ 32 := by
  induction counts with
  | nil => rfl
  | cons count rest ih =>
    rw [List.sum_cons, List.map_cons, List.sum_cons, UInt32.toNat_add, ih, Nat.add_mod_mod]

/-- The number of pieces of a content that are on record. -/
def recordedPieces (tracker : PieceTracker) (cid : Cid) : ℕ :=
  ((tracker.getHolders cid).map fun holder => holder.pieceCount.toNat).sum

theorem toNat_availableCount (tracker : PieceTracker) (cid : Cid) :
    (tracker.availableCount cid).toNat = recordedPieces tracker cid % 2 ^ 32 := by
  rw [PieceTracker.availableCount, toNat_sum, List.map_map]
  rfl

end Records

structure Tracking (Db : Type) where
  handler : NodeMessageHandler Db
  kValues : Finmap fun _ : Cid => UInt32

variable {Db : Type}

def Tracking.tracker (s : Tracking Db) : PieceTracker := ⟨s.handler.tracker, s.kValues⟩

def fresh (handler : NodeMessageHandler Db) : Tracking Db := ⟨{ handler with tracker := ⟨∅⟩ }, ∅⟩

/-- A message of a peer, or a call of a local task. -/
inductive Event where
  | message (fromNode : NodeId) (msg : WireMessage) (env : Surroundings)
  | call (op : TrackerOp)

variable (B : Blake3) (L : Libsql Db) (X : Packages)

def react (s : Tracking Db) : Event → Tracking Db
  | .message fromNode msg env => { s with handler := (handleMessage B L X s.handler fromNode msg env).1 }
  | .call op =>
    let tracker := op.apply s.tracker
    ⟨{ s.handler with tracker := tracker.toPieceTracker }, tracker.kValues⟩

section Events

variable {B L X}

theorem tracker_react (s : Tracking Db) (event : Event) :
    (react B L X s event).tracker = s.tracker ∨
      ∃ op : TrackerOp, (react B L X s event).tracker = op.apply s.tracker := by
  cases event with
  | call op => exact .inr ⟨op, rfl⟩
  | message fromNode msg env =>
    cases msg with
    | healthReport cid available target =>
      exact .inr ⟨.recordPiece cid ⟨fromNode, available, env.now⟩, rfl⟩
    | signedWrite payload signature writer cas =>
      refine .inl ?_
      simp only [react, handleMessage]
      split <;> rfl
    | _ => exact .inl rfl

theorem exists_ops (s : Tracking Db) (events : List Event) :
    ∃ ops : List TrackerOp,
      (events.foldl (react B L X) s).tracker = ops.foldl TrackerOp.apply s.tracker := by
  induction events generalizing s with
  | nil => exact ⟨[], rfl⟩
  | cons event rest ih =>
    obtain ⟨ops, later⟩ := ih (react B L X s event)
    rcases tracker_react s event with same | ⟨op, changed⟩
    · exact ⟨ops, by rw [List.foldl_cons, later, same]⟩
    · exact ⟨op :: ops, by rw [List.foldl_cons, later, changed, List.foldl_cons]⟩

end Events

/-- The tracker of a node after these messages and calls. -/
def trackerAfter (handler : NodeMessageHandler Db) (events : List Event) : PieceTracker :=
  (events.foldl (react B L X) (fresh handler)).tracker

/-- After any messages and calls a node has at most one record for a content, and the
available count is the sum of the records exactly when that sum is a 32-bit number. -/
theorem available_count_exact_iff (handler : NodeMessageHandler Db) (events : List Event) (cid : Cid) :
    (((trackerAfter B L X handler events).getHolders cid).map PieceHolder.nodeId).Nodup ∧
      (((trackerAfter B L X handler events).availableCount cid).toNat =
          recordedPieces (trackerAfter B L X handler events) cid ↔
        recordedPieces (trackerAfter B L X handler events) cid < 2 ^ 32) := by
  constructor
  · obtain ⟨ops, reached⟩ := exists_ops (B := B) (L := L) (X := X) (fresh handler) events
    rw [trackerAfter, reached]
    exact nodup_foldl_apply ops List.nodup_nil
  · rw [toNat_availableCount]
    exact Nat.mod_eq_iff_lt (by decide)

def someContent : Cid := ⟨Bytes32.fill 7⟩

def afterHalves : PieceTracker :=
  trackerAfter Blake3.byLeading pageEngine somePackages (twoNodes (peerId 3)).handler
    [.message (peerId 1) (.healthReport someContent 0x80000000 96) stocked,
      .message (peerId 2) (.healthReport someContent 0x80000000 96) stocked]

/-- The reports of two peers wrap to zero, and the scanner takes the content for nearly lost. -/
theorem available_count_wraps :
    recordedPieces afterHalves someContent = 2 ^ 32 ∧
      afterHalves.availableCount someContent = 0 ∧
      evaluateCid afterHalves someContent = some (.critical someContent 0 32) := by
  have none_ : afterHalves.availableCount someContent = 0 := by decide
  have unknown : afterHalves.getK someContent = none := by decide
  refine ⟨by decide, none_, ?_⟩
  rw [evaluateCid, none_, unknown]
  rfl

section KValues

variable {tracker : PieceTracker} {cid : Cid}

theorem updateFirst_ne_nil {α : Type} (isMeant : α → Bool) (change : α → α) (new : α) (l : List α) :
    Craftec.Node.Handler.updateFirst isMeant change new l ≠ [] := by
  cases l with
  | nil => exact List.cons_ne_nil _ _
  | cons entry rest =>
    unfold Craftec.Node.Handler.updateFirst
    split <;> exact List.cons_ne_nil _ _

theorem removal_of_lost {op : TrackerOp} (held : tracker.getHolders cid ≠ [])
    (lost : (op.apply tracker).getHolders cid = []) :
    (∃ node, op = .removeNode node) ∨ ∃ now maxAge, op = .pruneStale now maxAge := by
  cases op with
  | removeNode node => exact .inl ⟨node, rfl⟩
  | pruneStale now maxAge => exact .inr ⟨now, maxAge, rfl⟩
  | recordK other k =>
    rw [TrackerOp.apply, getHolders_recordK] at lost
    exact absurd lost held
  | recordPiece other holder =>
    rw [TrackerOp.apply] at lost
    by_cases own : cid = other
    · subst own
      rw [getHolders_recordPiece_self] at lost
      exact absurd lost (updateFirst_ne_nil _ _ _ _)
    · rw [getHolders_recordPiece_of_ne own] at lost
      exact absurd lost held

theorem getK_recordK_self (tracker : PieceTracker) (cid : Cid) (k : UInt32) :
    (tracker.recordK cid k).getK cid = some ((tracker.getK cid).getD k) := by
  unfold PieceTracker.recordK PieceTracker.getK
  cases found : tracker.kValues.lookup cid with
  | none =>
    simp only
    rw [Finmap.lookup_insert]
    rfl
  | some old =>
    simp only
    rw [found]
    rfl

theorem getK_of_lost {op : TrackerOp} (held : tracker.getHolders cid ≠ [])
    (lost : (op.apply tracker).getHolders cid = []) :
    (∃ node, op = .removeNode node) ∧ (op.apply tracker).getK cid = none ∨
      (¬ ∃ node, op = .removeNode node) ∧ (op.apply tracker).getK cid = tracker.getK cid := by
  rcases removal_of_lost held lost with ⟨node, rfl⟩ | ⟨now, maxAge, rfl⟩
  · exact .inl ⟨⟨node, rfl⟩, (getK_removeNode_of_held held node).trans (if_pos lost)⟩
  · refine .inr ⟨?_, rfl⟩
    rintro ⟨node, same⟩
    cases same

theorem getK_eq_none_iff_of_lost {op : TrackerOp} (held : tracker.getHolders cid ≠ [])
    (lost : (op.apply tracker).getHolders cid = []) :
    (op.apply tracker).getK cid = none ↔
      (∃ node, op = .removeNode node) ∨ tracker.getK cid = none := by
  rcases getK_of_lost held lost with ⟨removed, cleared⟩ | ⟨other, kept⟩
  · exact iff_of_true cleared (.inl removed)
  · rw [kept]
    exact (or_iff_right other).symm

end KValues

/-- A call that takes the last record of a content takes its K too exactly when it is
`remove_node` or there was none; otherwise a K recorded later is ignored unless it is the old one. -/
theorem k_follows_holders_iff {tracker : PieceTracker} {op : TrackerOp} {cid : Cid}
    (held : tracker.getHolders cid ≠ []) (lost : (op.apply tracker).getHolders cid = []) :
    ((op.apply tracker).getK cid = none ↔
        (∃ node, op = .removeNode node) ∨ tracker.getK cid = none) ∧
      ∀ k, ((op.apply tracker).recordK cid k).getK cid = some k ↔
        (∃ node, op = .removeNode node) ∨ tracker.getK cid = none ∨ tracker.getK cid = some k := by
  refine ⟨getK_eq_none_iff_of_lost held lost, fun k => ?_⟩
  rw [getK_recordK_self]
  rcases getK_of_lost held lost with ⟨removed, cleared⟩ | ⟨other, kept⟩
  · rw [cleared]
    exact iff_of_true rfl (.inl removed)
  · rw [kept, or_iff_right other]
    cases tracker.getK cid <;> simp

/-- After the calls in `front`, the call `op` takes the last record of the content. -/
def Loses (tracker : PieceTracker) (front : List TrackerOp) (op : TrackerOp) (cid : Cid) : Prop :=
  (front.foldl TrackerOp.apply tracker).getHolders cid ≠ [] ∧
    (op.apply (front.foldl TrackerOp.apply tracker)).getHolders cid = []

/-- Over a whole sequence of calls, the K of a content goes with its last record every time exactly
when it is `remove_node` that takes the record, or no K is known, every time. -/
theorem k_follows_holders_throughout (tracker : PieceTracker) (ops : List TrackerOp) (cid : Cid) :
    (∀ front op, front ++ [op] <+: ops → Loses tracker front op cid →
        ((front ++ [op]).foldl TrackerOp.apply tracker).getK cid = none) ↔
      ∀ front op, front ++ [op] <+: ops → Loses tracker front op cid →
        (∃ node, op = .removeNode node) ∨
          (front.foldl TrackerOp.apply tracker).getK cid = none := by
  refine forall₄_congr fun front op first loses => ?_
  rw [List.foldl_append]
  exact getK_eq_none_iff_of_lost loses.1 loses.2

def oneRecord : PieceTracker :=
  (PieceTracker.new.recordK someContent 4).recordPiece someContent ⟨peerId 1, 2, 0⟩

theorem k_follows_removed_node :
    oneRecord.getHolders someContent ≠ [] ∧
      ((TrackerOp.removeNode (peerId 1)).apply oneRecord).getHolders someContent = [] ∧
      (((TrackerOp.removeNode (peerId 1)).apply oneRecord).getK someContent = none ↔
        (∃ node, TrackerOp.removeNode (peerId 1) = .removeNode node) ∨
          oneRecord.getK someContent = none) := by
  have held : oneRecord.getHolders someContent ≠ [] := List.cons_ne_nil _ _
  have lost : ((TrackerOp.removeNode (peerId 1)).apply oneRecord).getHolders someContent = [] := by
    decide
  exact ⟨held, lost, (k_follows_holders_iff held lost).1⟩

/-- A record that has gone stale leaves the K of its content behind, and the content encoded
again with K 8 is taken for one of K 4. -/
theorem k_outlives_stale_record :
    oneRecord.getHolders someContent ≠ [] ∧
      ((TrackerOp.pruneStale 10 5).apply oneRecord).getHolders someContent = [] ∧
      ((TrackerOp.pruneStale 10 5).apply oneRecord).getK someContent = some 4 ∧
      ((((TrackerOp.pruneStale 10 5).apply oneRecord).recordPiece someContent ⟨peerId 2, 2, 10⟩).recordK
        someContent 8).getK someContent = some 4 := by
  decide

end Craftec.Health.Holders
