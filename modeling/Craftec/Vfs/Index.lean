/- GID: Craftec/Vfs/Index
   generality: I
   digest: The page index, its byte format, and that reading the format back returns the index. -/

import Mathlib
import Craftec.Library.OrderedMap
import Craftec.Library.Records
import Craftec.Types.Digest

set_option autoImplicit false
set_option relaxedAutoImplicit false

namespace Craftec.Vfs.Index

open Craftec.Library.OrderedMap (insertMany_toList)
open Craftec.Library.Records (toLeBytes fromLeBytes fromLeBytes_append length_toLeBytes
  length_records drop_records)
open Craftec.Types.Digest (Bytes Bytes32 Cid)

inductive VfsError where
  | pageNotFound (page : UInt32)
  | integrityCheckFailed (page : UInt32) (expected actual : String)
  | storeError (message : String)
  | serializationError (message : String)
  | invalidPageSize (size : ℕ)
  | noRootCid
  deriving DecidableEq

/-- A map keyed by page number; two maps with the same entries are equal. -/
abbrev PageMap (β : Type) := Std.ExtTreeMap UInt32 β

structure PageIndex where
  entries : PageMap Cid
  rootCid : Option Cid

def PageIndex.new : PageIndex := ⟨∅, none⟩

def PageIndex.get (index : PageIndex) (page : UInt32) : Option Cid := index.entries[page]?

def PageIndex.set (index : PageIndex) (page : UInt32) (cid : Cid) : PageIndex :=
  { index with entries := index.entries.insert page cid }

def PageIndex.remove (index : PageIndex) (page : UInt32) : PageIndex :=
  { index with entries := index.entries.erase page }

def PageIndex.setRoot (index : PageIndex) (cid : Cid) : PageIndex :=
  { index with rootCid := some cid }

def PageIndex.pageCount (index : PageIndex) : ℕ := index.entries.size

def encodeEntry (entry : UInt32 × Cid) : Bytes := toLeBytes entry.1 ++ entry.2.asBytes

/-- The count is truncated to 32 bits, as `entries.len() as u32` does. -/
def serializeEntries (entries : PageMap Cid) : Bytes :=
  toLeBytes (UInt32.ofNat entries.size) ++
    (entries.toList.mergeSort fun a b => decide (a.1 ≤ b.1)).flatMap encodeEntry

def PageIndex.serialize (index : PageIndex) : Bytes := serializeEntries index.entries

/-- Entry `i` of a serialised index. -/
def readEntry (data : Bytes) (i : ℕ) : Except VfsError (UInt32 × Cid) :=
  let record := (data.drop (4 + i * 36)).take 36
  match Bytes32.ofSlice? (record.drop 4) with
  | some digest => .ok (fromLeBytes record, Cid.fromBytes digest)
  | none => .error (.serializationError "CID slice has wrong length")

def readEntries (data : Bytes) : List ℕ → PageMap Cid → Except VfsError (PageMap Cid)
  | [], entries => .ok entries
  | i :: rest, entries =>
    match readEntry data i with
    | .ok (page, cid) => readEntries data rest (entries.insert page cid)
    | .error e => .error e

def deserializeEntries (data : Bytes) : Except VfsError (PageMap Cid) :=
  if data.length < 4 then
    .error (.serializationError "page index too short to read entry count")
  else
    let count := (fromLeBytes data).toNat
    let expectedLen := 4 + count * 36
    if data.length < expectedLen then
      .error (.serializationError
        s!"page index truncated: expected {expectedLen} bytes, got {data.length}")
    else readEntries data (List.range count) ∅

/-- A deserialised index has no root of its own. -/
def PageIndex.deserialize (data : Bytes) : Except VfsError PageIndex :=
  (deserializeEntries data).map fun entries => ⟨entries, none⟩

theorem length_encodeEntry (entry : UInt32 × Cid) : (encodeEntry entry).length = 36 := by
  simp [encodeEntry]

theorem mergeSort_toList (entries : PageMap Cid) :
    (entries.toList.mergeSort fun a b => decide (a.1 ≤ b.1)) = entries.toList := by
  apply List.mergeSort_of_pairwise
  have sorted := Std.ExtTreeMap.ordered_keys_toList (t := entries)
  refine sorted.imp ?_
  intro a b less
  have strict : a.1 < b.1 := Std.compare_eq_lt.mp less
  exact decide_eq_true (UInt32.le_of_lt strict)

theorem readEntry_records (head : Bytes) (l : List (UInt32 × Cid)) (i : ℕ)
    (four : head.length = 4) (hi : i < l.length) :
    readEntry (head ++ l.flatMap encodeEntry) i = .ok l[i] := by
  obtain ⟨rest, found⟩ := drop_records length_encodeEntry l i hi
  have skip : (head ++ l.flatMap encodeEntry).drop (4 + i * 36) = encodeEntry l[i] ++ rest := by
    rw [← four, List.drop_append, List.drop_eq_nil_of_le (by omega), Nat.add_sub_cancel_left,
      found, List.nil_append]
  have record : ((head ++ l.flatMap encodeEntry).drop (4 + i * 36)).take 36 = encodeEntry l[i] := by
    rw [skip, List.take_append_of_le_length (by rw [length_encodeEntry]),
      List.take_of_length_le (by rw [length_encodeEntry])]
  have digest : (encodeEntry l[i]).drop 4 = (l[i]).2.asBytes := by
    rw [encodeEntry, List.drop_append, List.drop_eq_nil_of_le (by simp)]
    simp
  have page : fromLeBytes (encodeEntry l[i]) = (l[i]).1 := fromLeBytes_append _ _
  simp only [readEntry, record, digest, page, Bytes32.ofSlice?_asBytes]
  rfl

theorem readEntries_of_reads (data : Bytes) (l : List (UInt32 × Cid)) (indices : List ℕ)
    (reads : List.Forall₂ (fun i entry => readEntry data i = .ok entry) indices l)
    (start : PageMap Cid) :
    readEntries data indices start = .ok (start.insertMany l) := by
  induction reads generalizing start with
  | nil => simp [readEntries]
  | cons first _ ih =>
    rename_i i entry _ _
    rw [readEntries, first]
    simp only [ih]
    rw [Std.ExtTreeMap.insertMany_cons]

theorem deserialize_serialize (entries : PageMap Cid) (small : entries.size < 2 ^ 32) :
    deserializeEntries (serializeEntries entries) = .ok entries := by
  have count : (fromLeBytes (serializeEntries entries)).toNat = entries.toList.length := by
    rw [serializeEntries, fromLeBytes_append, UInt32.toNat_ofNat', Nat.mod_eq_of_lt small,
      Std.ExtTreeMap.length_toList]
  have total : (serializeEntries entries).length = 4 + entries.toList.length * 36 := by
    rw [serializeEntries, mergeSort_toList, List.length_append, length_toLeBytes,
      length_records length_encodeEntry]
  have reads : List.Forall₂ (fun i entry => readEntry (serializeEntries entries) i = .ok entry)
      (List.range entries.toList.length) entries.toList := by
    rw [List.forall₂_iff_get]
    refine ⟨List.length_range, ?_⟩
    intro i inRange inList
    simp only [List.get_eq_getElem, List.getElem_range]
    rw [serializeEntries, mergeSort_toList]
    exact readEntry_records _ _ i (length_toLeBytes _) inList
  unfold deserializeEntries
  rw [if_neg (by omega)]
  simp only [count]
  rw [if_neg (by omega), readEntries_of_reads _ _ _ reads, insertMany_toList]

theorem serializeEntries_injective {a b : PageMap Cid} (ha : a.size < 2 ^ 32)
    (hb : b.size < 2 ^ 32) (same : serializeEntries a = serializeEntries b) : a = b := by
  have left := deserialize_serialize a ha
  rw [same, deserialize_serialize b hb] at left
  exact (Except.ok.inj left).symm

end Craftec.Vfs.Index
