/- GID: Craftec/Health/ScanCycle
   generality: I
   digest: The scan cycles of a node: how they tile a fixed list of contents, and whom they miss in a changing one. -/

import Mathlib
import Craftec.Health.Repair
import Craftec.Health.Scanner
import Craftec.Health.Tracker
import Craftec.Library.Chunks
import Craftec.Library.Records
import Craftec.Library.Rotation
import Craftec.Net.Swim
import Craftec.Types.Digest

set_option autoImplicit false
set_option relaxedAutoImplicit false

namespace Craftec.Health.ScanCycle

open Craftec.Health.Repair (RepairRequest)
open Craftec.Health.Scanner (evaluateCid)
open Craftec.Health.Tracker (PieceTracker bytesLe)
open Craftec.Library.Chunks (count length_le_count_mul)
open Craftec.Library.Records (slice?)
open Craftec.Library.Rotation
open Craftec.Net.Swim (peerId)
open Craftec.Types.Digest (Bytes32 Cid NodeId)

/-- The scan fraction is an exact number here, a double in the source. -/
structure HealthScanner where
  nodeId : NodeId
  scanPercent : ℚ
  positive : 0 < scanPercent
  atMostOne : scanPercent ≤ 1
  lastScanIndex : ℕ

namespace HealthScanner

def new (nodeId : NodeId) : HealthScanner := ⟨nodeId, 1 / 100, by norm_num, by norm_num, 0⟩

end HealthScanner

/-- The contents of which the node itself has at least two pieces on record. -/
def eligibleCids (tracker : PieceTracker) (node : NodeId) : List Cid :=
  tracker.sortedCids.filter fun cid => 2 ≤ tracker.localPieceCount cid node

def batchSize (total : ℕ) (percent : ℚ) : ℕ := max ⌈total * percent⌉.toNat 1

/-- What a cycle works with and leaves: the cursor it loads, the size of the list and of the
batch, the contents it evaluates, the cursor it stores and the requests it returns. -/
structure Cycle where
  loaded : ℕ
  total : ℕ
  size : ℕ
  batch : List Cid
  stored : ℕ
  repairs : List RepairRequest

def Cycle.skipped (cursor : ℕ) : Cycle := ⟨cursor, 0, 0, [], cursor, []⟩

/-- What a batch that passes the end of the list takes from its beginning. -/
def wrappedSlice (eligible : List Cid) (start size : ℕ) : Option (List Cid) :=
  if eligible.length < start + size then
    slice? eligible 0 (min (start + size - eligible.length) eligible.length)
  else some []

/-- `none` is a slice out of range. -/
def scanCycle (s : HealthScanner) (tracker : PieceTracker) : Option Cycle :=
  if tracker.sortedCids = [] then some (.skipped s.lastScanIndex)
  else
    let eligible := eligibleCids tracker s.nodeId
    if eligible = [] then some (.skipped s.lastScanIndex)
    else do
      let total := eligible.length
      let size := batchSize total s.scanPercent
      let start := s.lastScanIndex % total
      let batch ← slice? eligible start (min (start + size) total)
      let wrapped ← wrappedSlice eligible start size
      return {
        loaded := s.lastScanIndex
        total := total
        size := size
        batch := batch ++ wrapped
        stored := (start + size) % total
        repairs := (batch ++ wrapped).filterMap (evaluateCid tracker) }

def HealthScanner.advance (s : HealthScanner) (cycle : Cycle) : HealthScanner :=
  { s with lastScanIndex := cycle.stored }

/-- One cycle after the other, each on the tracker as it is by then. -/
def scanCycles (s : HealthScanner) : List PieceTracker → Option (List Cycle)
  | [] => some []
  | tracker :: rest => do
    let cycle ← scanCycle s tracker
    let later ← scanCycles (s.advance cycle) rest
    return cycle :: later

section Batches

theorem sortedCids_eq {tracker : PieceTracker} {cids : List Cid}
    (tracked : tracker.availability.keys = cids.toFinset) (once : cids.Nodup)
    (ascending : cids.Pairwise bytesLe) : tracker.sortedCids = cids := by
  rw [PieceTracker.sortedCids, tracked]
  exact (List.toFinset_sort bytesLe once).mpr ascending

theorem nodup_eligibleCids (tracker : PieceTracker) (node : NodeId) : (eligibleCids tracker node).Nodup :=
  (Finset.sort_nodup _ bytesLe).filter _

theorem one_le_batchSize (total : ℕ) (percent : ℚ) : 1 ≤ batchSize total percent := Nat.le_max_right _ _

theorem batchSize_le {total : ℕ} {percent : ℚ} (some_ : 1 ≤ total) (atMostOne : percent ≤ 1) :
    batchSize total percent ≤ total := by
  have below : (total : ℚ) * percent ≤ total := mul_le_of_le_one_right (Nat.cast_nonneg _) atMostOne
  have ceiling : ⌈(total : ℚ) * percent⌉ ≤ (total : ℤ) := Int.ceil_le.mpr (by exact_mod_cast below)
  rw [batchSize]
  omega

theorem le_hundred_batches (total : ℕ) : total ≤ 100 * batchSize total (1 / 100) := by
  have above : (total : ℚ) * (1 / 100) ≤ ⌈(total : ℚ) * (1 / 100)⌉ := Int.le_ceil _
  have whole : (total : ℤ) ≤ 100 * ⌈(total : ℚ) * (1 / 100)⌉ := by
    have scaled : (total : ℚ) ≤ 100 * (⌈(total : ℚ) * (1 / 100)⌉ : ℤ) := by linarith
    exact_mod_cast scaled
  rw [batchSize]
  omega

theorem wrappedSlice_eq {cids : List Cid} {start size : ℕ} (inside : start ≤ cids.length)
    (fits : size ≤ cids.length) :
    wrappedSlice cids start size = some (cids.take (start + size - cids.length)) := by
  unfold wrappedSlice
  split
  · rw [slice?, if_pos (by omega), List.drop_zero, Nat.sub_zero, Nat.min_eq_left (by omega)]
  · rw [Nat.sub_eq_zero_of_le (by omega), List.take_zero]

theorem scanCycle_eq {s : HealthScanner} {tracker : PieceTracker} {cids : List Cid}
    (listed : eligibleCids tracker s.nodeId = cids) (nonempty : cids ≠ []) :
    ∃ repairs, scanCycle s tracker = some
      { loaded := s.lastScanIndex
        total := cids.length
        size := batchSize cids.length s.scanPercent
        batch := (cids.rotate s.lastScanIndex).take (batchSize cids.length s.scanPercent)
        stored := (s.lastScanIndex % cids.length + batchSize cids.length s.scanPercent) % cids.length
        repairs := repairs } := by
  have known : tracker.sortedCids ≠ [] := by
    intro nothing
    rw [eligibleCids, nothing] at listed
    exact nonempty listed.symm
  have positive : 1 ≤ cids.length := List.length_pos_of_ne_nil nonempty
  have fits := batchSize_le positive s.atMostOne
  have inside : s.lastScanIndex % cids.length < cids.length := Nat.mod_lt _ positive
  have first : slice? cids (s.lastScanIndex % cids.length)
      (min (s.lastScanIndex % cids.length + batchSize cids.length s.scanPercent) cids.length) =
        some ((cids.drop (s.lastScanIndex % cids.length)).take
          (min (s.lastScanIndex % cids.length + batchSize cids.length s.scanPercent) cids.length -
            s.lastScanIndex % cids.length)) := by
    rw [slice?, if_pos (by omega)]
  unfold scanCycle
  rw [if_neg known, listed, if_neg nonempty, take_rotate nonempty fits]
  simp only [first, wrappedSlice_eq (Nat.le_of_lt inside) fits]
  exact ⟨_, rfl⟩

end Batches

/-! A fixed list -/

/-- The contents that cycle `t` of a run over a fixed list evaluates. -/
def window (s : HealthScanner) (cids : List Cid) (t : ℕ) : List Cid :=
  (cids.rotate (s.lastScanIndex + t * batchSize cids.length s.scanPercent)).take
    (batchSize cids.length s.scanPercent)

section Tiling

variable {s : HealthScanner} {cids : List Cid}

theorem window_succ {cycle : Cycle}
    (stored : cycle.stored =
      (s.lastScanIndex % cids.length + batchSize cids.length s.scanPercent) % cids.length) (t : ℕ) :
    window (s.advance cycle) cids t = window s cids (t + 1) := by
  change (cids.rotate (cycle.stored + t * batchSize cids.length s.scanPercent)).take
    (batchSize cids.length s.scanPercent) = _
  unfold window
  rw [stored]
  generalize batchSize cids.length s.scanPercent = size
  rw [← List.rotate_mod cids, ← List.rotate_mod cids (s.lastScanIndex + (t + 1) * size)]
  congr 2
  rw [Nat.mod_add_mod, Nat.add_assoc, Nat.mod_add_mod]
  congr 1
  ring

theorem scanCycles_of_first {tracker : PieceTracker} {rest : List PieceTracker} {cycle : Cycle}
    {later : List Cycle} (first : scanCycle s tracker = some cycle)
    (onward : scanCycles (s.advance cycle) rest = some later) :
    scanCycles s (tracker :: rest) = some (cycle :: later) := by
  rw [scanCycles, first, Option.bind_eq_bind, Option.bind_some, onward]
  rfl

theorem scanCycles_fixed (nonempty : cids ≠ []) (trackers : List PieceTracker)
    (fixed : ∀ tracker ∈ trackers, eligibleCids tracker s.nodeId = cids) :
    ∃ cycles, scanCycles s trackers = some cycles ∧
      cycles.map Cycle.batch = (List.range trackers.length).map (window s cids) := by
  induction trackers generalizing s with
  | nil => exact ⟨[], rfl, rfl⟩
  | cons tracker rest ih =>
    obtain ⟨repairs, first⟩ := scanCycle_eq (fixed tracker List.mem_cons_self) nonempty
    generalize made : Cycle.mk _ _ _ _ _ repairs = cycle at first
    have stored : cycle.stored =
        (s.lastScanIndex % cids.length + batchSize cids.length s.scanPercent) % cids.length := by
      rw [← made]
    have batch : cycle.batch = window s cids 0 := by
      rw [← made, window, Nat.zero_mul, Nat.add_zero]
    obtain ⟨later, runs, batches⟩ := @ih (s.advance cycle) fun other member =>
      fixed other (List.mem_cons_of_mem _ member)
    have shifted : (List.range rest.length).map (window (s.advance cycle) cids) =
        (List.range rest.length).map (fun t => window s cids (t + 1)) :=
      List.map_congr_left fun t _ => window_succ stored t
    refine ⟨cycle :: later, scanCycles_of_first first runs, ?_⟩
    rw [List.map_cons, batch, batches, shifted, List.length_cons, List.range_succ_eq_map, List.map_cons,
      List.map_map]
    rfl

theorem length_window (nonempty : cids ≠ []) (t : ℕ) :
    (window s cids t).length = batchSize cids.length s.scanPercent := by
  have fits := batchSize_le (List.length_pos_of_ne_nil nonempty) s.atMostOne
  rw [window, List.length_take, List.length_rotate, Nat.min_eq_left fits]

theorem exists_mem_window {windows : ℕ} {cid : Cid} (member : cid ∈ cids) (i : ℕ)
    (enough : cids.length ≤ windows * batchSize cids.length s.scanPercent) :
    ∃ t < windows, cid ∈ window s cids (i + t) := by
  obtain ⟨place, there⟩ := List.mem_iff_getElem?.mp member
  have inside : place < cids.length := (List.getElem?_eq_some_iff.mp there).1
  have fits := batchSize_le (Nat.lt_of_le_of_lt (Nat.zero_le _) inside) s.atMostOne
  obtain ⟨t, below, j, within, meets⟩ :=
    exists_window (s.lastScanIndex + i * batchSize cids.length s.scanPercent) inside enough
  refine ⟨t, below, mem_take_rotate within fits ?_⟩
  rw [Nat.add_mul, ← Nat.add_assoc, meets]
  exact there

end Tiling

/-- On a fixed list of eligible contents every cycle evaluates one batch of distinct contents and
slices within range, the cycles follow one another round the list, and as many batches as cover
its length cover the list; at one percent a hundred do. -/
theorem scan_cycles_tile {s : HealthScanner} {cids : List Cid} {trackers : List PieceTracker}
    (nonempty : cids ≠ []) (fixed : ∀ tracker ∈ trackers, eligibleCids tracker s.nodeId = cids) :
    ∃ cycles, scanCycles s trackers = some cycles ∧
      cycles.map Cycle.batch = (List.range trackers.length).map (window s cids) ∧
      (∀ cycle ∈ cycles,
        cycle.batch.length = batchSize cids.length s.scanPercent ∧ cycle.batch.Nodup) ∧
      (∀ i, i + count (batchSize cids.length s.scanPercent) cids.length ≤ trackers.length →
        ∀ cid ∈ cids, ∃ cycle ∈ (cycles.drop i).take
          (count (batchSize cids.length s.scanPercent) cids.length), cid ∈ cycle.batch) ∧
      (s.scanPercent = 1 / 100 → count (batchSize cids.length s.scanPercent) cids.length ≤ 100) := by
  obtain ⟨cycles, runs, batches⟩ := scanCycles_fixed nonempty trackers fixed
  have wide := one_le_batchSize cids.length s.scanPercent
  refine ⟨cycles, runs, batches, ?_, ?_, ?_⟩
  · intro cycle member
    have listed : cycle.batch ∈ cycles.map Cycle.batch := List.mem_map.mpr ⟨cycle, member, rfl⟩
    rw [batches] at listed
    obtain ⟨t, below, same⟩ := List.mem_map.mp listed
    obtain ⟨tracker, rest⟩ : ∃ tracker, tracker ∈ trackers :=
      List.exists_mem_of_length_pos (Nat.lt_of_le_of_lt (Nat.zero_le _) (List.mem_range.mp below))
    have once : cids.Nodup := fixed tracker rest ▸ nodup_eligibleCids tracker s.nodeId
    rw [← same]
    exact ⟨length_window nonempty t, (List.nodup_rotate.mpr once).sublist (List.take_sublist _ _)⟩
  · intro i within cid member
    obtain ⟨t, below, evaluated⟩ := exists_mem_window member i (length_le_count_mul wide)
    have there : (cycles.map Cycle.batch)[i + t]? = some (window s cids (i + t)) := by
      rw [batches, List.getElem?_map, List.getElem?_range (by omega)]
      rfl
    rw [List.getElem?_map, Option.map_eq_some_iff] at there
    obtain ⟨cycle, place, batch⟩ := there
    refine ⟨cycle, List.mem_of_getElem? (i := t) ?_, batch ▸ evaluated⟩
    rw [List.getElem?_take_of_lt below, List.getElem?_drop]
    exact place
  · intro percent
    have hundred := le_hundred_batches cids.length
    rw [percent] at wide ⊢
    rw [count, Nat.div_le_iff_le_mul_add_pred wide]
    omega

def content (b : UInt8) : Cid := ⟨Bytes32.fill b⟩

def fourContents : PieceTracker :=
  (((PieceTracker.new.recordPiece (content 1) ⟨peerId 0, 2, 0⟩).recordPiece (content 2)
    ⟨peerId 0, 2, 10⟩).recordPiece (content 3) ⟨peerId 0, 2, 10⟩).recordPiece (content 4)
    ⟨peerId 0, 2, 10⟩

def threeContents : PieceTracker := (fourContents.pruneStale 10 5).1

theorem eligible_fourContents :
    eligibleCids fourContents (peerId 0) = [content 1, content 2, content 3, content 4] := by
  have sorted : fourContents.sortedCids = [content 1, content 2, content 3, content 4] :=
    sortedCids_eq (by decide) (by decide) (by decide)
  rw [eligibleCids, sorted]
  decide

theorem eligible_threeContents :
    eligibleCids threeContents (peerId 0) = [content 2, content 3, content 4] := by
  have sorted : threeContents.sortedCids = [content 2, content 3, content 4] :=
    sortedCids_eq (by decide) (by decide) (by decide)
  rw [eligibleCids, sorted]
  decide

theorem batchSize_small : batchSize 4 (1 / 100) = 1 ∧ batchSize 3 (1 / 100) = 1 := by
  decide +kernel

theorem scan_cycles_tile_four : ∃ cycles,
    scanCycles (.new (peerId 0)) (List.replicate 4 fourContents) = some cycles ∧
      ∀ cid ∈ [content 1, content 2, content 3, content 4], ∃ cycle ∈ (cycles.drop 0).take (count
        (batchSize 4 (HealthScanner.new (peerId 0)).scanPercent) 4), cid ∈ cycle.batch := by
  have fixed : ∀ tracker ∈ List.replicate 4 fourContents,
      eligibleCids tracker (peerId 0) = [content 1, content 2, content 3, content 4] := by
    intro tracker member
    rw [List.eq_of_mem_replicate member]
    exact eligible_fourContents
  obtain ⟨cycles, run, -, -, covered, -⟩ :=
    @scan_cycles_tile (.new (peerId 0)) _ _ (List.cons_ne_nil _ _) fixed
  refine ⟨cycles, run, covered 0 ?_⟩
  have size : batchSize [content 1, content 2, content 3, content 4].length
      (HealthScanner.new (peerId 0)).scanPercent = 1 := batchSize_small.1
  rw [size]
  decide

/-! A changing list -/

/-- The place of a content in the list of eligible ones. -/
def position (tracker : PieceTracker) (node : NodeId) (cid : Cid) : ℕ :=
  (eligibleCids tracker node).idxOf cid

/-- The cursor has gone past the end of the list: with a batch that reaches the end, or because
the list has become shorter than the cursor that a later cycle loads. -/
def Wraps (cycles : List Cycle) : Prop :=
  (∃ cycle ∈ cycles, cycle.total ≤ cycle.loaded % cycle.total + cycle.size) ∨
    ∃ cycle ∈ cycles.tail, cycle.total ≤ cycle.loaded

instance (cycles : List Cycle) : Decidable (Wraps cycles) := inferInstanceAs (Decidable (_ ∨ _))

/-- Between two cycles the list changes so that a content which the cursor had not come to
lies behind it. -/
def Overtaken (node : NodeId) (cid : Cid) (cycle : Cycle) (before after : PieceTracker) : Prop :=
  cycle.stored ≤ position before node cid ∧ position after node cid < cycle.stored

/-- No change between two cycles of the run overtakes the content. -/
def NeverOvertaken (node : NodeId) (cid : Cid) (cycles : List Cycle) (trackers : List PieceTracker) :
    Prop :=
  ∀ i cycle before after, cycles[i]? = some cycle → trackers[i]? = some before →
    trackers[i + 1]? = some after → ¬ Overtaken node cid cycle before after

section Churn

variable {s : HealthScanner} {cid : Cid} {tracker : PieceTracker}

theorem getElem?_position (eligible : cid ∈ eligibleCids tracker s.nodeId) :
    (eligibleCids tracker s.nodeId)[position tracker s.nodeId cid]? = some cid := by
  rw [position, List.getElem?_idxOf]
  exact eligible

theorem evaluated_or_ahead (eligible : cid ∈ eligibleCids tracker s.nodeId)
    (begins : s.lastScanIndex % (eligibleCids tracker s.nodeId).length ≤ position tracker s.nodeId cid) :
    ∃ cycle, scanCycle s tracker = some cycle ∧ cycle.loaded = s.lastScanIndex ∧
      cycle.total = (eligibleCids tracker s.nodeId).length ∧
      (cid ∈ cycle.batch ∨
        (cycle.loaded % cycle.total + cycle.size < cycle.total ∧
          cycle.stored ≤ position tracker s.nodeId cid)) := by
  have nonempty : eligibleCids tracker s.nodeId ≠ [] := List.ne_nil_of_mem eligible
  have there := getElem?_position eligible
  have inside : position tracker s.nodeId cid < (eligibleCids tracker s.nodeId).length :=
    (List.getElem?_eq_some_iff.mp there).1
  have fits := batchSize_le (List.length_pos_of_ne_nil nonempty) s.atMostOne
  obtain ⟨repairs, made⟩ := scanCycle_eq rfl nonempty (s := s)
  refine ⟨_, made, rfl, rfl, ?_⟩
  by_cases reached : position tracker s.nodeId cid <
      s.lastScanIndex % (eligibleCids tracker s.nodeId).length +
        batchSize (eligibleCids tracker s.nodeId).length s.scanPercent
  · exact .inl (mem_take_rotate_of_le there fits begins reached)
  · refine .inr ⟨by simp only; omega, ?_⟩
    simp only
    rw [Nat.mod_eq_of_lt (by omega)]
    omega

theorem scanCycles_cons {rest : List PieceTracker} {cycles : List Cycle}
    (run : scanCycles s (tracker :: rest) = some cycles) :
    ∃ cycle later, scanCycle s tracker = some cycle ∧ scanCycles (s.advance cycle) rest = some later ∧
      cycles = cycle :: later := by
  rw [scanCycles, Option.bind_eq_bind, Option.bind_eq_some_iff] at run
  obtain ⟨cycle, first, run⟩ := run
  rw [Option.bind_eq_bind, Option.bind_eq_some_iff] at run
  obtain ⟨later, onward, run⟩ := run
  exact ⟨cycle, later, first, onward, (Option.some.inj run).symm⟩

theorem NeverOvertaken.tail {node : NodeId} {cycle : Cycle} {later : List Cycle}
    {rest : List PieceTracker} (never : NeverOvertaken node cid (cycle :: later) (tracker :: rest)) :
    NeverOvertaken node cid later rest :=
  fun i other before after here there next => never (i + 1) other before after here there next

end Churn

/-- A content that stays eligible is evaluated between a cycle that starts at or before its place
and the one in which the cursor goes past the end, unless a change of the list between two cycles
moves it from before the cursor to behind it. -/
theorem evaluated_unless_overtaken {s : HealthScanner} {cid : Cid} {first : PieceTracker}
    {rest : List PieceTracker} {cycles : List Cycle} (run : scanCycles s (first :: rest) = some cycles)
    (eligible : ∀ tracker ∈ first :: rest, cid ∈ eligibleCids tracker s.nodeId)
    (begins : s.lastScanIndex % (eligibleCids first s.nodeId).length ≤ position first s.nodeId cid)
    (wraps : Wraps cycles) (never : NeverOvertaken s.nodeId cid cycles (first :: rest)) :
    ∃ cycle ∈ cycles, cid ∈ cycle.batch := by
  induction rest generalizing s first cycles with
  | nil =>
    obtain ⟨cycle, later, made, onward, rfl⟩ := scanCycles_cons run
    obtain rfl : later = [] := (Option.some.inj onward).symm
    obtain ⟨cycle', made', -, -, evaluated | ⟨short, -⟩⟩ :=
      evaluated_or_ahead (eligible first List.mem_cons_self) begins
    · rw [made] at made'
      cases made'
      exact ⟨cycle, List.mem_cons_self, evaluated⟩
    · rw [made] at made'
      cases made'
      rcases wraps with ⟨other, member, reaches⟩ | ⟨other, member, -⟩
      · rw [List.mem_singleton.mp member] at reaches
        omega
      · cases member
  | cons second rest ih =>
    obtain ⟨cycle, later, made, onward, rfl⟩ := scanCycles_cons run
    obtain ⟨cycle', made', -, -, ahead⟩ := evaluated_or_ahead (eligible first List.mem_cons_self) begins
    rw [made] at made'
    cases made'
    by_cases evaluated : cid ∈ cycle.batch
    · exact ⟨cycle, List.mem_cons_self, evaluated⟩
    · obtain ⟨short, before⟩ := ahead.resolve_left evaluated
      have still : cid ∈ eligibleCids second s.nodeId :=
        eligible second (List.mem_cons_of_mem _ List.mem_cons_self)
      -- the content is still at or after the cursor when the next cycle begins
      have notBehind : cycle.stored ≤ position second s.nodeId cid := by
        by_contra behind
        exact never 0 cycle first second rfl rfl rfl ⟨before, Nat.lt_of_not_le behind⟩
      have inside : position second s.nodeId cid < (eligibleCids second s.nodeId).length :=
        (List.getElem?_eq_some_iff.mp (getElem?_position still)).1
      have begins' : cycle.stored % (eligibleCids second s.nodeId).length ≤
          position second s.nodeId cid := (Nat.mod_le _ _).trans notBehind
      obtain ⟨next, last, made', onward', rfl⟩ := scanCycles_cons onward
      have wraps' : Wraps (next :: last) := by
        obtain ⟨next', same, loaded, total, -⟩ := @evaluated_or_ahead (s.advance cycle) cid second still begins'
        rw [made'] at same
        cases same
        rcases wraps with ⟨other, member, reaches⟩ | ⟨other, member, passed⟩
        · rcases List.mem_cons.mp member with rfl | member
          · omega
          · exact .inl ⟨other, member, reaches⟩
        · rcases List.mem_cons.mp member with rfl | member
          · rw [loaded, total] at passed
            change _ ≤ cycle.stored at passed
            change (eligibleCids second s.nodeId).length ≤ _ at passed
            omega
          · exact .inr ⟨other, member, passed⟩
      obtain ⟨found, member, holds⟩ := @ih (s.advance cycle) second _ onward
        (fun tracker listed => eligible tracker (List.mem_cons_of_mem _ listed)) begins' wraps' never.tail
      exact ⟨found, List.mem_cons_of_mem _ member, holds⟩

def scannerAt (cursor : ℕ) : HealthScanner := { HealthScanner.new (peerId 0) with lastScanIndex := cursor }

theorem scanCycle_of_one {cursor stored : ℕ} {tracker : PieceTracker} {cids batch : List Cid}
    (listed : eligibleCids tracker (peerId 0) = cids) (nonempty : cids ≠ [])
    (size : batchSize cids.length (1 / 100) = 1) (seen : (cids.rotate cursor).take 1 = batch)
    (next : (cursor % cids.length + 1) % cids.length = stored) :
    ∃ repairs, scanCycle (scannerAt cursor) tracker =
      some ⟨cursor, cids.length, 1, batch, stored, repairs⟩ := by
  obtain ⟨repairs, made⟩ := @scanCycle_eq (scannerAt cursor) _ _ listed nonempty
  have size : batchSize cids.length (scannerAt cursor).scanPercent = 1 := size
  rw [size] at made
  subst seen next
  exact ⟨repairs, made⟩

theorem scanCycles_stale : ∃ r₁ r₂ r₃ r₄,
    scanCycles (scannerAt 0) [fourContents, fourContents, threeContents, threeContents] =
      some [⟨0, 4, 1, [content 1], 1, r₁⟩, ⟨1, 4, 1, [content 2], 2, r₂⟩,
        ⟨2, 3, 1, [content 4], 0, r₃⟩, ⟨0, 3, 1, [content 2], 1, r₄⟩] := by
  have size := batchSize_small
  obtain ⟨r₁, first⟩ := @scanCycle_of_one 0 1 _ _ [content 1] eligible_fourContents
    (List.cons_ne_nil _ _) size.1 (by decide) rfl
  obtain ⟨r₂, second⟩ := @scanCycle_of_one 1 2 _ _ [content 2] eligible_fourContents
    (List.cons_ne_nil _ _) size.1 (by decide) rfl
  obtain ⟨r₃, third⟩ := @scanCycle_of_one 2 0 _ _ [content 4] eligible_threeContents
    (List.cons_ne_nil _ _) size.2 (by decide) rfl
  obtain ⟨r₄, fourth⟩ := @scanCycle_of_one 0 1 _ _ [content 2] eligible_threeContents
    (List.cons_ne_nil _ _) size.2 (by decide) rfl
  refine ⟨r₁, r₂, r₃, r₄, scanCycles_of_first first ?_⟩
  refine scanCycles_of_first (s := scannerAt 1) second ?_
  refine scanCycles_of_first (s := scannerAt 2) third ?_
  exact scanCycles_of_first (s := scannerAt 0) fourth rfl

theorem evaluated_unless_overtaken_last : ∃ cycles,
    scanCycles (scannerAt 0) [fourContents, fourContents, threeContents, threeContents] = some cycles ∧
      NeverOvertaken (peerId 0) (content 4) cycles
        [fourContents, fourContents, threeContents, threeContents] ∧
      ∃ cycle ∈ cycles, content 4 ∈ cycle.batch := by
  obtain ⟨r₁, r₂, r₃, r₄, run⟩ := scanCycles_stale
  have eligible : ∀ tracker ∈ [fourContents, fourContents, threeContents, threeContents],
      content 4 ∈ eligibleCids tracker (peerId 0) := by
    simp [eligible_fourContents, eligible_threeContents]
  have never : NeverOvertaken (peerId 0) (content 4)
      [⟨0, 4, 1, [content 1], 1, r₁⟩, ⟨1, 4, 1, [content 2], 2, r₂⟩,
        ⟨2, 3, 1, [content 4], 0, r₃⟩, ⟨0, 3, 1, [content 2], 1, r₄⟩]
      [fourContents, fourContents, threeContents, threeContents] := by
    rintro (_ | _ | _ | i) cycle before after here there next ⟨-, behind⟩
    · cases here
      cases next
      rw [position, eligible_fourContents] at behind
      exact absurd behind (by decide : ¬ [content 1, content 2, content 3, content 4].idxOf (content 4) < 1)
    · cases here
      cases next
      rw [position, eligible_threeContents] at behind
      exact absurd behind (by decide : ¬ [content 2, content 3, content 4].idxOf (content 4) < 2)
    · cases here
      exact absurd behind (Nat.not_lt_zero _)
    · cases next
  refine ⟨_, run, never, evaluated_unless_overtaken run eligible (Nat.zero_le _) ?_ never⟩
  exact .inl ⟨⟨2, 3, 1, [content 4], 0, r₃⟩, by simp, Nat.le_refl 3⟩

/-- When the first content goes, the third moves to the place the cursor has just left: the pass
ends without it, and the cycle after the wrap does not come to it either. -/
theorem scan_skips_content : ∃ cycles,
    scanCycles (scannerAt 0) [fourContents, fourContents, threeContents, threeContents] = some cycles ∧
      (∀ tracker ∈ [fourContents, fourContents, threeContents, threeContents],
        content 3 ∈ eligibleCids tracker (peerId 0)) ∧
      (scannerAt 0).lastScanIndex % (eligibleCids fourContents (peerId 0)).length ≤
        position fourContents (peerId 0) (content 3) ∧
      Wraps (cycles.take 3) ∧ ∀ cycle ∈ cycles, content 3 ∉ cycle.batch := by
  obtain ⟨r₁, r₂, r₃, r₄, run⟩ := scanCycles_stale
  refine ⟨_, run, ?_, Nat.zero_le _, ?_, ?_⟩
  · simp [eligible_fourContents, eligible_threeContents]
  · exact .inl ⟨⟨2, 3, 1, [content 4], 0, r₃⟩, by simp, Nat.le_refl 3⟩
  · simp only [List.forall_mem_cons]
    exact ⟨by decide, by decide, by decide, by decide, by simp⟩

end Craftec.Health.ScanCycle
