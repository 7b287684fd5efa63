/- GID: Craftec/Health/Tracker
   generality: I
   digest: The piece tracker with its two maps, and the one record a node has for each content. -/

import Mathlib
import Craftec.Library.Retain
import Craftec.Node.Handler
import Craftec.Types.Digest

set_option autoImplicit false
set_option relaxedAutoImplicit false

namespace Craftec.Health.Tracker

open Craftec.Library.Retain (retain lookup_retain)
open Craftec.Node.Handler (PieceHolder updateFirst)
open Craftec.Types.Digest (Cid NodeId)

def bytesLe (a b : Cid) : Prop := (compare a.asBytes b.asBytes).isLE = true

instance : DecidableRel bytesLe := fun _ _ => inferInstanceAs (Decidable (_ = true))

instance : IsTrans Cid bytesLe := ⟨fun _ _ _ => Std.TransCmp.isLE_trans⟩

instance : Std.Antisymm bytesLe :=
  ⟨fun _ _ le ge => Cid.asBytes_injective (Std.LawfulEqCmp.eq_of_compare (Std.OrientedCmp.isLE_antisymm le ge))⟩

instance : Std.Total bytesLe where
  total a b := by
    have swapped : compare b.asBytes a.asBytes = (compare a.asBytes b.asBytes).swap :=
      Std.OrientedCmp.eq_swap
    unfold bytesLe
    rw [swapped]
    cases compare a.asBytes b.asBytes <;> decide

def keepHolders (keep : PieceHolder → Bool) (holders : List PieceHolder) : Option (List PieceHolder) :=
  if holders.filter keep = [] then none else some (holders.filter keep)

/-- The holders of each content, which the message handler writes too, and the K each
content was encoded with. -/
structure PieceTracker extends Craftec.Node.Handler.PieceTracker where
  kValues : Finmap fun _ : Cid => UInt32

namespace PieceTracker

def new : PieceTracker := ⟨⟨∅⟩, ∅⟩

def recordPiece (tracker : PieceTracker) (cid : Cid) (holder : PieceHolder) : PieceTracker :=
  { tracker with toPieceTracker := tracker.toPieceTracker.recordPiece cid holder }

def getHolders (tracker : PieceTracker) (cid : Cid) : List PieceHolder :=
  (tracker.availability.lookup cid).getD []

/-- The sum of the counts, which wraps as a release build does. -/
def availableCount (tracker : PieceTracker) (cid : Cid) : UInt32 :=
  ((tracker.getHolders cid).map PieceHolder.pieceCount).sum

def localPieceCount (tracker : PieceTracker) (cid : Cid) (node : NodeId) : UInt32 :=
  (((tracker.getHolders cid).find? fun holder => holder.nodeId = node).map
    PieceHolder.pieceCount).getD 0

def holdersWithCount (tracker : PieceTracker) (cid : Cid) : List (NodeId × UInt32) :=
  (tracker.getHolders cid).map fun holder => (holder.nodeId, holder.pieceCount)

/-- The first value recorded for a content stays. -/
def recordK (tracker : PieceTracker) (cid : Cid) (k : UInt32) : PieceTracker :=
  match tracker.kValues.lookup cid with
  | some _ => tracker
  | none => { tracker with kValues := tracker.kValues.insert cid k }

def getK (tracker : PieceTracker) (cid : Cid) : Option UInt32 := tracker.kValues.lookup cid

/-- The contents that lose their last record lose their K with it. -/
def removeNode (tracker : PieceTracker) (node : NodeId) : PieceTracker :=
  let keep (holder : PieceHolder) : Bool := decide (holder.nodeId ≠ node)
  let emptied := tracker.availability.keys.filter fun cid => (tracker.getHolders cid).filter keep = []
  { availability := retain (fun _ => keepHolders keep) tracker.availability
    kValues := retain (fun cid k => if cid ∈ emptied then none else some k) tracker.kValues }

/-- Keep the records seen after `now - maxAge`, and count the others. -/
def pruneStale (tracker : PieceTracker) (now maxAge : ℕ) : PieceTracker × ℕ :=
  let keep (holder : PieceHolder) : Bool := decide (now < holder.lastSeen + maxAge)
  ({ tracker with availability := retain (fun _ => keepHolders keep) tracker.availability },
    (tracker.availability.entries.map fun e => e.2.length - (e.2.filter keep).length).sum)

def sortedCids (tracker : PieceTracker) : List Cid := tracker.availability.keys.sort bytesLe

end PieceTracker

section Records

variable {tracker : PieceTracker} {cid : Cid}

def refresh (holder existing : PieceHolder) : PieceHolder :=
  { existing with
    pieceCount := max existing.pieceCount holder.pieceCount, lastSeen := holder.lastSeen }

theorem getHolders_recordPiece_self (holder : PieceHolder) :
    (tracker.recordPiece cid holder).getHolders cid =
      updateFirst (fun existing => decide (existing.nodeId = holder.nodeId)) (refresh holder) holder
        (tracker.getHolders cid) := by
  unfold PieceTracker.getHolders PieceTracker.recordPiece Craftec.Node.Handler.PieceTracker.recordPiece
  rw [Finmap.lookup_insert, Option.getD_some]
  rfl

theorem getHolders_recordPiece_of_ne {other : Cid} (apart : cid ≠ other) (holder : PieceHolder) :
    (tracker.recordPiece other holder).getHolders cid = tracker.getHolders cid := by
  unfold PieceTracker.getHolders PieceTracker.recordPiece Craftec.Node.Handler.PieceTracker.recordPiece
  rw [Finmap.lookup_insert_of_ne _ apart]

theorem getHolders_recordK (other : Cid) (k : UInt32) :
    (tracker.recordK other k).getHolders cid = tracker.getHolders cid := by
  unfold PieceTracker.recordK
  split <;> rfl

theorem nodes_updateFirst (holder : PieceHolder) (holders : List PieceHolder) :
    (updateFirst (fun existing => decide (existing.nodeId = holder.nodeId)) (refresh holder) holder
        holders).map PieceHolder.nodeId =
      if holder.nodeId ∈ holders.map PieceHolder.nodeId then holders.map PieceHolder.nodeId
      else holders.map PieceHolder.nodeId ++ [holder.nodeId] := by
  induction holders with
  | nil => rfl
  | cons existing rest ih =>
    unfold updateFirst
    by_cases own : existing.nodeId = holder.nodeId
    · rw [if_pos (decide_eq_true own), List.map_cons, List.map_cons, own,
        if_pos List.mem_cons_self, ← own]
      rfl
    · have listed : holder.nodeId ∈ existing.nodeId :: rest.map PieceHolder.nodeId ↔
          holder.nodeId ∈ rest.map PieceHolder.nodeId := by
        rw [List.mem_cons]
        exact ⟨fun either => either.resolve_left (Ne.symm own), .inr⟩
      rw [if_neg (by simpa using own), List.map_cons, ih, List.map_cons]
      by_cases there : holder.nodeId ∈ rest.map PieceHolder.nodeId
      · rw [if_pos there, if_pos (listed.mpr there)]
      · rw [if_neg there, if_neg (fun mine => there (listed.mp mine)), List.cons_append]

theorem nodup_recordPiece (once : ((tracker.getHolders cid).map PieceHolder.nodeId).Nodup) (other : Cid)
    (holder : PieceHolder) :
    (((tracker.recordPiece other holder).getHolders cid).map PieceHolder.nodeId).Nodup := by
  by_cases own : cid = other
  · subst own
    rw [getHolders_recordPiece_self, nodes_updateFirst]
    split
    · exact once
    · rename_i fresh
      refine List.nodup_append.mpr ⟨once, List.nodup_singleton _, ?_⟩
      intro a ha b hb same
      rw [same, List.mem_singleton.mp hb] at ha
      exact fresh ha
  · rw [getHolders_recordPiece_of_ne own]
    exact once

inductive Recorded : PieceTracker → Prop
  | new : Recorded .new
  | recordPiece {tracker : PieceTracker} (before : Recorded tracker) (cid : Cid)
    (holder : PieceHolder) : Recorded (tracker.recordPiece cid holder)
  | recordK {tracker : PieceTracker} (before : Recorded tracker) (cid : Cid) (k : UInt32) :
    Recorded (tracker.recordK cid k)

theorem Recorded.nodup (recorded : Recorded tracker) (cid : Cid) :
    ((tracker.getHolders cid).map PieceHolder.nodeId).Nodup := by
  induction recorded with
  | new => exact List.nodup_nil
  | recordPiece before other holder ih => exact nodup_recordPiece ih other holder
  | recordK before other k ih =>
    rw [getHolders_recordK]
    exact ih

section Removal

theorem getD_retain (keep : PieceHolder → Bool) (m : Finmap fun _ : Cid => List PieceHolder) (cid : Cid) :
    ((retain (fun _ => keepHolders keep) m).lookup cid).getD [] = ((m.lookup cid).getD []).filter keep := by
  rw [lookup_retain]
  cases m.lookup cid with
  | none => rfl
  | some holders =>
    rw [Option.bind_some, Option.getD_some, keepHolders]
    split
    · rename_i gone
      exact gone.symm
    · rfl

theorem getHolders_removeNode (node : NodeId) :
    (tracker.removeNode node).getHolders cid =
      (tracker.getHolders cid).filter fun holder => decide (holder.nodeId ≠ node) :=
  getD_retain _ _ _

theorem getHolders_pruneStale (now maxAge : ℕ) :
    (tracker.pruneStale now maxAge).1.getHolders cid =
      (tracker.getHolders cid).filter fun holder => decide (now < holder.lastSeen + maxAge) :=
  getD_retain _ _ _

theorem getK_removeNode_of_held (held : tracker.getHolders cid ≠ []) (node : NodeId) :
    (tracker.removeNode node).getK cid =
      if (tracker.removeNode node).getHolders cid = [] then none else tracker.getK cid := by
  have tracked : cid ∈ tracker.availability.keys := by
    rw [Finmap.mem_keys, ← Finmap.lookup_isSome]
    unfold PieceTracker.getHolders at held
    cases found : tracker.availability.lookup cid with
    | none =>
      rw [found] at held
      exact absurd rfl held
    | some holders => rfl
  have looked : (tracker.removeNode node).getK cid = (tracker.getK cid).bind fun k =>
      if cid ∈ tracker.availability.keys.filter fun cid =>
        (tracker.getHolders cid).filter (fun holder => decide (holder.nodeId ≠ node)) = []
      then none else some k := lookup_retain _ _ _
  rw [looked, getHolders_removeNode]
  simp only [Finset.mem_filter, tracked, true_and]
  split
  · exact Option.bind_fun_none _
  · cases tracker.getK cid <;> rfl

end Removal

theorem localPieceCount_of_mem (once : ((tracker.getHolders cid).map PieceHolder.nodeId).Nodup)
    {holder : PieceHolder} (listed : holder ∈ tracker.getHolders cid) :
    tracker.localPieceCount cid holder.nodeId = holder.pieceCount := by
  have found : (tracker.getHolders cid).find? (fun other => other.nodeId = holder.nodeId) =
      some holder := by
    cases search : (tracker.getHolders cid).find? (fun other => other.nodeId = holder.nodeId) with
    | none =>
      have missing := List.find?_eq_none.mp search holder listed
      exact absurd (decide_eq_true rfl) missing
    | some other =>
      have same : other.nodeId = holder.nodeId := by simpa using List.find?_some search
      rw [List.inj_on_of_nodup_map once (List.mem_of_find?_eq_some search) listed same]
  unfold PieceTracker.localPieceCount
  rw [found, Option.map_some, Option.getD_some]

end Records

end Craftec.Health.Tracker
