/- GID: Craftec/Vfs/IndexFormat
   generality: I
   digest: The byte format of the page index: one text for each map, and the texts that are accepted beside it. -/

import Mathlib
import Craftec.Library.Chunks
import Craftec.Library.OrderedMap
import Craftec.Library.Records
import Craftec.Types.Digest
import Craftec.Vfs.Index

set_option autoImplicit false
set_option relaxedAutoImplicit false

namespace Craftec.Vfs.IndexFormat

open Craftec.Library.Chunks (chunk flatten_chunks)
open Craftec.Library.OrderedMap (toList_insertMany_of_ascending)
open Craftec.Library.Records (toLeBytes fromLeBytes fromLeBytes_append toLeBytes_fromLeBytes
  toLeBytes_injective length_toLeBytes length_records records_injective)
open Craftec.Types.Digest (Bytes Bytes32 Cid leading)
open Craftec.Vfs.Index

/-! Writing -/

inductive Edit where
  | set (page : UInt32) (cid : Cid)
  | remove (page : UInt32)

def applyEdit (index : PageIndex) : Edit → PageIndex
  | .set page cid => index.set page cid
  | .remove page => index.remove page

/-- The index that a sequence of changes makes of an empty one. -/
def built (edits : List Edit) : PageIndex := edits.foldl applyEdit .new

/-- `serialize` of a hash map whose iterator yields `iterated`. -/
def serializeIterated (iterated : List (UInt32 × Cid)) : Bytes :=
  toLeBytes (UInt32.ofNat iterated.length) ++
    (iterated.mergeSort fun a b => decide (a.1 ≤ b.1)).flatMap encodeEntry

section Writing

variable {entries : PageMap Cid} {iterated : List (UInt32 × Cid)}

theorem mergeSort_iterated (perm : iterated.Perm entries.toList) :
    (iterated.mergeSort fun a b => decide (a.1 ≤ b.1)) = entries.toList := by
  have sorted : (iterated.mergeSort fun a b => decide (a.1 ≤ b.1)).Pairwise fun a b => a.1 ≤ b.1 := by
    refine (List.pairwise_mergeSort ?_ ?_ iterated).imp ?_
    · intro a b c le le'
      exact decide_eq_true (UInt32.le_trans (of_decide_eq_true le) (of_decide_eq_true le'))
    · intro a b
      rw [Bool.or_eq_true, decide_eq_true_iff, decide_eq_true_iff]
      exact UInt32.le_total _ _
    · intro a b le
      exact of_decide_eq_true le
  have listed : entries.toList.Pairwise fun a b => a.1 ≤ b.1 := by
    refine (Std.ExtTreeMap.ordered_keys_toList (t := entries)).imp ?_
    intro a b less
    exact UInt32.le_of_lt (Std.compare_eq_lt.mp less)
  have same := (List.mergeSort_perm iterated fun a b => decide (a.1 ≤ b.1)).trans perm
  refine List.Perm.eq_of_pairwise ?_ sorted listed same
  rintro ⟨page, cid⟩ ⟨page', cid'⟩ here there le ge
  -- Two entries of one page number are one entry.
  obtain rfl : page = page' := UInt32.le_antisymm le ge
  have first := Std.ExtTreeMap.mem_toList_iff_getElem?_eq_some.mp (same.mem_iff.mp here)
  have second := Std.ExtTreeMap.mem_toList_iff_getElem?_eq_some.mp there
  rw [Option.some.inj (first.symm.trans second)]

theorem serializeIterated_eq (perm : iterated.Perm entries.toList) :
    serializeIterated iterated = serializeEntries entries := by
  rw [serializeIterated, serializeEntries, mergeSort_iterated perm, mergeSort_toList, perm.length_eq,
    Std.ExtTreeMap.length_toList]

end Writing

def pageCid (b : UInt8) : Cid := ⟨Bytes32.fill b⟩

/-- Whatever the order of iteration, an index is read back as it was, and two indexes are
written alike only when they have the same entries. -/
theorem serialize_round_trip (edits edits' : List Edit) (iterated iterated' : List (UInt32 × Cid))
    (perm : iterated.Perm (built edits).entries.toList)
    (perm' : iterated'.Perm (built edits').entries.toList)
    (small : (built edits).pageCount < 2 ^ 32) (small' : (built edits').pageCount < 2 ^ 32) :
    PageIndex.deserialize (serializeIterated iterated) = .ok ⟨(built edits).entries, none⟩ ∧
      (serializeIterated iterated = serializeIterated iterated' ↔
        (built edits).entries = (built edits').entries) := by
  rw [serializeIterated_eq perm, serializeIterated_eq perm']
  refine ⟨?_, serializeEntries_injective small small', ?_⟩
  · rw [PageIndex.deserialize, deserialize_serialize _ small]
    rfl
  · intro same
    rw [same]

theorem serialize_round_trip_two :
    PageIndex.deserialize (serializeIterated [(2, pageCid 7), (1, pageCid 8)]) =
        .ok ⟨(built [.set 2 (pageCid 7), .set 1 (pageCid 8)]).entries, none⟩ ∧
      (serializeIterated [(2, pageCid 7), (1, pageCid 8)] =
          serializeIterated [(1, pageCid 8), (2, pageCid 7)] ↔
        (built [.set 2 (pageCid 7), .set 1 (pageCid 8)]).entries =
          (built [.set 2 (pageCid 7), .set 3 (pageCid 7), .remove 3, .set 1 (pageCid 8)]).entries) :=
  serialize_round_trip [.set 2 (pageCid 7), .set 1 (pageCid 8)]
    [.set 2 (pageCid 7), .set 3 (pageCid 7), .remove 3, .set 1 (pageCid 8)]
    [(2, pageCid 7), (1, pageCid 8)] [(1, pageCid 8), (2, pageCid 7)]
    (by decide) (by decide) (by decide) (by decide)

/-! Reading -/

def announced (data : Bytes) : ℕ := (fromLeBytes data).toNat

/-- Entry `i` of a text that is long enough to have it. -/
def entryAt (data : Bytes) (i : ℕ) : UInt32 × Cid :=
  (fromLeBytes (chunk 36 (data.drop 4) i), Cid.fromBytes (leading ((chunk 36 (data.drop 4) i).drop 4)))

/-- The announced entries, in the order they stand in the text. -/
def listed (data : Bytes) : List (UInt32 × Cid) := (List.range (announced data)).map (entryAt data)

def pages (data : Bytes) : List UInt32 := (listed data).map Prod.fst

section Reading

variable {data : Bytes} {i : ℕ} {entries : PageMap Cid}

theorem length_listed (data : Bytes) : (listed data).length = announced data := by
  rw [listed, List.length_map, List.length_range]

theorem bytes_leading {l : Bytes} (whole : l.length = 32) : (leading l).bytes = l := by
  change (l ++ List.replicate 32 0).take 32 = l
  rw [List.take_append_of_le_length (by omega), List.take_of_length_le (by omega)]

theorem length_chunk_of_le (long : 4 + (i + 1) * 36 ≤ data.length) :
    (chunk 36 (data.drop 4) i).length = 36 := by
  rw [chunk, List.length_take, List.length_drop, List.length_drop]
  omega

theorem readEntry_eq (long : 4 + (i + 1) * 36 ≤ data.length) :
    readEntry data i = .ok (entryAt data i) := by
  have record : (data.drop (4 + i * 36)).take 36 = chunk 36 (data.drop 4) i := by
    rw [chunk, List.drop_drop]
  have whole : ((chunk 36 (data.drop 4) i).drop 4).length = 32 := by
    rw [List.length_drop, length_chunk_of_le long]
  have digest : Bytes32.ofSlice? ((chunk 36 (data.drop 4) i).drop 4) =
      some (leading ((chunk 36 (data.drop 4) i).drop 4)) := by
    rw [Bytes32.ofSlice?, dif_pos whole, Option.some.injEq, Bytes32.mk.injEq]
    exact (bytes_leading whole).symm
  simp only [readEntry, record, digest]
  rfl

theorem encodeEntry_entryAt (long : 4 + (i + 1) * 36 ≤ data.length) :
    encodeEntry (entryAt data i) = chunk 36 (data.drop 4) i := by
  have size := length_chunk_of_le long
  have digest : (entryAt data i).2.asBytes = (chunk 36 (data.drop 4) i).drop 4 :=
    bytes_leading (by rw [List.length_drop, size])
  rw [encodeEntry, digest, entryAt, toLeBytes_fromLeBytes (by omega), List.take_append_drop]

theorem flatMap_listed (long : 4 + announced data * 36 ≤ data.length) :
    (listed data).flatMap encodeEntry = (data.drop 4).take (announced data * 36) := by
  have written : (List.range (announced data)).map (fun i => encodeEntry (entryAt data i)) =
      (List.range (announced data)).map (chunk 36 (data.drop 4)) := by
    apply List.map_congr_left
    intro i below
    have below := List.mem_range.mp below
    exact encodeEntry_entryAt (by omega)
  rw [listed, List.flatMap_map, List.flatMap_def, written, flatten_chunks]

theorem deserializeEntries_of_long (long : 4 + announced data * 36 ≤ data.length) :
    deserializeEntries data = .ok ((∅ : PageMap Cid).insertMany (listed data)) := by
  have reads : List.Forall₂ (fun i entry => readEntry data i = .ok entry)
      (List.range (announced data)) (listed data) := by
    rw [listed, List.forall₂_map_right_iff, List.forall₂_same]
    intro i below
    have below := List.mem_range.mp below
    exact readEntry_eq (by omega)
  unfold deserializeEntries
  rw [if_neg (by omega)]
  simp only [← announced.eq_def data]
  rw [if_neg (by omega), readEntries_of_reads _ _ _ reads]

theorem long_of_deserializeEntries (accepted : deserializeEntries data = .ok entries) :
    4 + announced data * 36 ≤ data.length := by
  unfold deserializeEntries at accepted
  split at accepted
  · cases accepted
  · simp only [← announced.eq_def data] at accepted
    split at accepted
    · cases accepted
    · rename_i long
      exact Nat.le_of_not_lt long

theorem encodeEntry_injective : Function.Injective encodeEntry := by
  rintro ⟨page, cid⟩ ⟨page', cid'⟩ same
  obtain ⟨first, second⟩ := List.append_inj same rfl
  have number : page = page' := toLeBytes_injective first
  have content : cid = cid' := Cid.asBytes_injective second
  rw [number, content]

theorem eq_of_exact (exact_ : data.length = 4 + announced data * 36) :
    data = toLeBytes (UInt32.ofNat (announced data)) ++ (listed data).flatMap encodeEntry := by
  have count : UInt32.ofNat (announced data) = fromLeBytes data := UInt32.ofNat_toNat
  have whole : (data.drop 4).take (announced data * 36) = data.drop 4 := by
    apply List.take_of_length_le
    rw [List.length_drop]
    omega
  rw [flatMap_listed (by omega), whole, count, toLeBytes_fromLeBytes (by omega),
    List.take_append_drop]

theorem serializeEntries_eq_iff (accepted : deserializeEntries data = .ok entries) :
    serializeEntries entries = data ↔
      data.length = 4 + announced data * 36 ∧ (pages data).Pairwise (· < ·) := by
  have long := long_of_deserializeEntries accepted
  rw [deserializeEntries_of_long long] at accepted
  obtain rfl := Except.ok.inj accepted
  have small : ((∅ : PageMap Cid).insertMany (listed data)).size < 2 ^ 32 := by
    have bound : ((∅ : PageMap Cid).insertMany (listed data)).size ≤ 0 + (listed data).length :=
      Std.ExtTreeMap.size_insertMany_list_le
    have word : announced data < 2 ^ 32 := (fromLeBytes data).toNat_lt
    rw [length_listed] at bound
    omega
  generalize made : (∅ : PageMap Cid).insertMany (listed data) = entries at small
  constructor
  · intro same
    have count : announced data = entries.toList.length := by
      rw [announced, ← same, serializeEntries, fromLeBytes_append, UInt32.toNat_ofNat',
        Nat.mod_eq_of_lt small, Std.ExtTreeMap.length_toList]
    have total : data.length = 4 + announced data * 36 := by
      rw [count, ← same, serializeEntries, mergeSort_toList, List.length_append, length_toLeBytes,
        length_records length_encodeEntry]
    have written : serializeEntries entries =
        toLeBytes (UInt32.ofNat (announced data)) ++ (listed data).flatMap encodeEntry :=
      same.trans (eq_of_exact total)
    rw [serializeEntries, mergeSort_toList] at written
    have order : listed data = entries.toList :=
      records_injective length_encodeEntry (by decide) encodeEntry_injective
        (List.append_inj written rfl).2.symm
    refine ⟨total, ?_⟩
    rw [pages, order, List.pairwise_map]
    exact (Std.ExtTreeMap.ordered_keys_toList (t := entries)).imp fun less => Std.compare_eq_lt.mp less
  · rintro ⟨total, ascending⟩
    have order : entries.toList = listed data := by
      rw [← made]
      apply toList_insertMany_of_ascending
      rw [pages, List.pairwise_map] at ascending
      exact ascending.imp fun less => Std.compare_eq_lt.mpr less
    rw [serializeEntries, mergeSort_toList, order, ← Std.ExtTreeMap.length_toList, order, length_listed]
    exact (eq_of_exact total).symm

end Reading

/-- An accepted text is the one its index is written as exactly when it ends with its last
entry and its page numbers ascend. -/
theorem deserialize_canonical_iff {data : Bytes} {index : PageIndex}
    (accepted : PageIndex.deserialize data = .ok index) :
    index.serialize = data ↔
      data.length = 4 + announced data * 36 ∧ (pages data).Pairwise (· < ·) := by
  cases parsed : deserializeEntries data with
  | error e =>
    rw [PageIndex.deserialize, parsed] at accepted
    cases accepted
  | ok entries =>
    rw [PageIndex.deserialize, parsed] at accepted
    cases accepted
    exact serializeEntries_eq_iff parsed

def single : Bytes := toLeBytes 1 ++ encodeEntry (5, pageCid 7)

theorem deserialize_canonical_single :
    ∃ index, PageIndex.deserialize single = .ok index ∧
      (index.serialize = single ↔
        single.length = 4 + announced single * 36 ∧ (pages single).Pairwise (· < ·)) := by
  have parsed : PageIndex.deserialize single =
      .ok ⟨(∅ : PageMap Cid).insertMany (listed single), none⟩ :=
    congrArg (Except.map _) (deserializeEntries_of_long (by decide))
  exact ⟨_, parsed, deserialize_canonical_iff parsed⟩

theorem accepted_malformed {data : Bytes} (long : 4 + announced data * 36 ≤ data.length)
    (malformed : ¬ (data.length = 4 + announced data * 36 ∧ (pages data).Pairwise (· < ·))) :
    ∃ index, PageIndex.deserialize data = .ok index ∧ index.serialize ≠ data := by
  have parsed := deserializeEntries_of_long long
  refine ⟨⟨_, none⟩, congrArg (Except.map _) parsed, ?_⟩
  intro same
  exact malformed ((serializeEntries_eq_iff parsed).mp same)

def trailing : Bytes := [0, 0, 0, 0, 7]

def repeated : Bytes := toLeBytes 2 ++ encodeEntry (5, pageCid 7) ++ encodeEntry (5, pageCid 8)

def unsorted : Bytes := toLeBytes 2 ++ encodeEntry (6, pageCid 7) ++ encodeEntry (5, pageCid 8)

/-- A byte after the entries, a page given twice and pages out of order are all accepted. -/
theorem deserialize_accepts_malformed :
    (∃ index, PageIndex.deserialize trailing = .ok index ∧ index.serialize ≠ trailing) ∧
      (∃ index, PageIndex.deserialize repeated = .ok index ∧ index.serialize ≠ repeated) ∧
      ∃ index, PageIndex.deserialize unsorted = .ok index ∧ index.serialize ≠ unsorted := by
  refine ⟨?_, ?_, ?_⟩
  · exact accepted_malformed (by decide) (by decide)
  · exact accepted_malformed (by decide) (by decide)
  · exact accepted_malformed (by decide) (by decide)

end Craftec.Vfs.IndexFormat
