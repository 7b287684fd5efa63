/- GID: Craftec/Obj/Store
   generality: I
   digest: Concurrent put, get and delete calls of the object store as interleaved file steps. -/

import Mathlib
import Craftec.Library.InodeFs
import Craftec.Library.RecentCache
import Craftec.Obj.Shard
import Craftec.Types.Digest

set_option autoImplicit false
set_option relaxedAutoImplicit false

namespace Craftec.Obj.Store

open Craftec.Library.InodeFs (Fs)
open Craftec.Library.InodeFs.Fs (dir_move_dst dir_move_of_ne dir_openTruncate_of_ne of_rename of_unlink)
open Craftec.Library.RecentCache (Lru)
open Craftec.Obj.Shard (Path shardPath shardPath_injective tmpPath tmpPath_ne_shardPath)
open Craftec.Types.Digest (Bytes Blake3 Cid)

/-- An error of the operating system: its number and its text. -/
structure OsError where
  code : ℕ
  message : String
  deriving DecidableEq

/-- `ENOENT`, reported as `ErrorKind::NotFound`. -/
def notFound : OsError := ⟨2, "No such file or directory (os error 2)"⟩

/-- The number of `ENOSPC`. -/
def libcEnospc : ℕ := 28

inductive ObjError where
  | integrityViolation (cid msg : String)
  | ioError (e : OsError)
  | storeFull
  deriving DecidableEq

def ObjError.display : ObjError → String
  | .integrityViolation cid msg => s!"integrity violation for CID {cid}: {msg}"
  | .ioError e => s!"I/O error: {e.message}"
  | .storeFull => "store is full — no space left on device"

/-- How `put` reports a failed write of the temporary file. -/
def writeError (e : OsError) : ObjError := if e.code = libcEnospc then .storeFull else .ioError e

structure Bloom (F : Type) where
  insert : F → Cid → F
  probablyContains : F → Cid → Bool

inductive Call where
  | put (data : Bytes)
  | get (cid : Cid)
  | delete (cid : Cid)

/-- Where a call stands: each constructor names the step it takes next. -/
inductive Task where
  | idle
  | putBloom (data : Bytes)
  | putMetadata (data : Bytes)
  | putOpen (data : Bytes)
  | putWrite (data : Bytes) (ino off : ℕ)
  | putRename (data : Bytes)
  | putCleanUp (data : Bytes) (e : OsError)
  | putInsert (data : Bytes)
  | putCache (data : Bytes)
  | putPublish (data : Bytes)
  | putDone (data : Bytes) (result : Except ObjError Cid)
  | getCache (cid : Cid)
  | getBloom (cid : Cid)
  | getOpen (cid : Cid)
  | getRead (cid : Cid) (ino : ℕ) (bytes : Bytes)
  | getKeep (cid : Cid) (bytes : Bytes)
  | getDone (cid : Cid) (result : Except ObjError (Option Bytes))
  | deleteRemove (cid : Cid)
  | deleteEvict (cid : Cid)
  | deleteDone (cid : Cid) (result : Except ObjError Bool)

def Call.start : Call → Task
  | .put data => .putBloom data
  | .get cid => .getCache cid
  | .delete cid => .deleteRemove cid

/-- What a file step does not decide itself: how many bytes a read or a write
moves, and the error of an operation that fails. -/
structure Choice where
  amount : ℕ
  fault : Option OsError

/-- `published` are the `CidWritten` events sent so far, if there is a sender. -/
structure Shared (F : Type) where
  fs : Fs Path UInt8
  bloom : F
  cache : Lru Cid Bytes
  sender : Bool
  published : List Cid

variable (B : Blake3) {F : Type} (bloom : Bloom F) (base : Path)

def verifyRead (cid : Cid) (bytes : Bytes) : Task :=
  if Cid.fromData B bytes ≠ cid then
    .getDone cid (.error (.integrityViolation cid.display
      (s!"stored bytes hash to {(Cid.fromData B bytes).display} but CID is {cid.display}")))
  else .getKeep cid bytes

/-- How `get` reports an error of reading the file. -/
def readError (e : OsError) : Except ObjError (Option Bytes) :=
  if e.code = notFound.code then .ok none else .error (.ioError e)

def advance (s : Shared F) (choice : Choice) : Task → Option (Shared F × Task)
  | .idle | .putDone _ _ | .getDone _ _ | .deleteDone _ _ => none
  | .putBloom data =>
    if bloom.probablyContains s.bloom (Cid.fromData B data) then some (s, .putMetadata data)
    else some (s, .putOpen data)
  | .putMetadata data =>
    if choice.fault.isNone ∧ (s.fs.dir (shardPath base (Cid.fromData B data))).isSome then
      some (s, .putDone data (.ok (Cid.fromData B data)))
    else some (s, .putOpen data)
  | .putOpen data =>
    match choice.fault with
    | some e => some (s, .putDone data (.error (writeError e)))
    | none =>
      some ({ s with fs := (s.fs.openTruncate (tmpPath base (Cid.fromData B data))).1 },
        .putWrite data (s.fs.openTruncate (tmpPath base (Cid.fromData B data))).2 0)
  | .putWrite data ino off =>
    -- with nothing left to write the file is closed
    if data.length ≤ off then some (s, .putRename data)
    else
      match choice.fault with
      | some e => some (s, .putDone data (.error (writeError e)))
      | none =>
        if choice.amount = 0 then none
        else
          some ({ s with fs := s.fs.writeAt ino off ((data.drop off).take choice.amount) },
            .putWrite data ino (off + ((data.drop off).take choice.amount).length))
  | .putRename data =>
    match choice.fault with
    | some e => some (s, .putCleanUp data e)
    | none =>
      match s.fs.rename (tmpPath base (Cid.fromData B data)) (shardPath base (Cid.fromData B data)) with
      | none => some (s, .putCleanUp data notFound)
      | some fs => some ({ s with fs := fs }, .putInsert data)
  | .putCleanUp data e =>
    -- the result of `remove_file` is ignored
    match choice.fault, s.fs.unlink (tmpPath base (Cid.fromData B data)) with
    | none, some fs => some ({ s with fs := fs }, .putDone data (.error (.ioError e)))
    | _, _ => some (s, .putDone data (.error (.ioError e)))
  | .putInsert data =>
    some ({ s with bloom := bloom.insert s.bloom (Cid.fromData B data) }, .putCache data)
  | .putCache data =>
    some ({ s with cache := s.cache.put (Cid.fromData B data) data }, .putPublish data)
  | .putPublish data =>
    some ({ s with published :=
      if s.sender then s.published ++ [Cid.fromData B data] else s.published },
      .putDone data (.ok (Cid.fromData B data)))
  | .getCache cid =>
    match s.cache.get cid with
    | (cache, some bytes) => some ({ s with cache := cache }, .getDone cid (.ok (some bytes)))
    | (cache, none) => some ({ s with cache := cache }, .getBloom cid)
  | .getBloom cid =>
    if bloom.probablyContains s.bloom cid then some (s, .getOpen cid)
    else some (s, .getDone cid (.ok none))
  | .getOpen cid =>
    match choice.fault, s.fs.dir (shardPath base cid) with
    | some e, _ => some (s, .getDone cid (readError e))
    | none, none => some (s, .getDone cid (readError notFound))
    | none, some ino => some (s, .getRead cid ino [])
  | .getRead cid ino bytes =>
    match choice.fault with
    | some e => some (s, .getDone cid (readError e))
    | none =>
      if (s.fs.data ino).length ≤ bytes.length then some (s, verifyRead B cid bytes)
      else if choice.amount = 0 then none
      else
        some (s, .getRead cid ino
          (bytes ++ ((s.fs.data ino).drop bytes.length).take choice.amount))
  | .getKeep cid bytes =>
    some ({ s with cache := s.cache.put cid bytes }, .getDone cid (.ok (some bytes)))
  | .deleteRemove cid =>
    match choice.fault, s.fs.unlink (shardPath base cid) with
    | some e, _ =>
      if e.code = notFound.code then some (s, .deleteDone cid (.ok false))
      else some (s, .deleteDone cid (.error (.ioError e)))
    | none, none => some (s, .deleteDone cid (.ok false))
    | none, some fs => some ({ s with fs := fs }, .deleteEvict cid)
  | .deleteEvict cid =>
    some ({ s with cache := s.cache.remove cid }, .deleteDone cid (.ok true))

structure State (F : Type) where
  shared : Shared F
  calls : ℕ → Task

inductive Label where
  | invoke (i : ℕ) (call : Call)
  | advance (i : ℕ) (choice : Choice)

def step (s : State F) : Label → Option (State F)
  | .invoke i call =>
    match s.calls i with
    | .idle => some { s with calls := Function.update s.calls i call.start }
    | _ => none
  | .advance i choice =>
    match advance B bloom base s.shared choice (s.calls i) with
    | some (shared, t) => some ⟨shared, Function.update s.calls i t⟩
    | none => none

variable {B bloom base}

theorem step_advance {s : State F} {i : ℕ} {choice : Choice} {shared : Shared F} {t : Task}
    (moved : advance B bloom base s.shared choice (s.calls i) = some (shared, t)) :
    step B bloom base s (.advance i choice) = some ⟨shared, Function.update s.calls i t⟩ := by
  simp only [step, moved]

theorem of_step_advance {s after : State F} {i : ℕ} {choice : Choice}
    (taken : step B bloom base s (.advance i choice) = some after) :
    ∃ shared t, advance B bloom base s.shared choice (s.calls i) = some (shared, t) ∧
      after = ⟨shared, Function.update s.calls i t⟩ := by
  simp only [step] at taken
  split at taken
  · rename_i shared t moved
    cases taken
    exact ⟨shared, t, moved, rfl⟩
  · cases taken

theorem of_step_invoke {s after : State F} {i : ℕ} {call : Call}
    (taken : step B bloom base s (.invoke i call) = some after) :
    s.calls i = .idle ∧ after = { s with calls := Function.update s.calls i call.start } := by
  simp only [step] at taken
  split at taken
  · rename_i free
    cases taken
    exact ⟨free, rfl⟩
  · cases taken

theorem call_step {s after : State F} {label : Label} {P : Task → Prop} {j : ℕ}
    (taken : step B bloom base s label = some after) (before : P (s.calls j))
    (begins : ∀ call, label = .invoke j call → P call.start)
    (moves : ∀ choice t, label = .advance j choice →
      advance B bloom base s.shared choice (s.calls j) = some (after.shared, t) → P t) :
    P (after.calls j) := by
  cases label with
  | invoke i call =>
    obtain ⟨-, rfl⟩ := of_step_invoke taken
    change P (Function.update s.calls i call.start j)
    rcases eq_or_ne j i with rfl | other
    · rw [Function.update_self]
      exact begins call rfl
    · rwa [Function.update_of_ne other]
  | advance i choice =>
    obtain ⟨shared, t, moved, rfl⟩ := of_step_advance taken
    change P (Function.update s.calls i t j)
    rcases eq_or_ne j i with rfl | other
    · rw [Function.update_self]
      exact moves choice t rfl moved
    · rwa [Function.update_of_ne other]

theorem advance_writeAll {s : Shared F} {d : Bytes} {ino : ℕ} (some_ : d ≠ []) :
    advance B bloom base s ⟨d.length, none⟩ (.putWrite d ino 0) =
      some ({ s with fs := s.fs.writeAt ino 0 d }, .putWrite d ino d.length) := by
  simp [advance, some_]

theorem advance_close {s : Shared F} {d : Bytes} {ino : ℕ} {choice : Choice} :
    advance B bloom base s choice (.putWrite d ino d.length) = some (s, .putRename d) := by
  simp [advance]

section Turns

variable (B bloom base) (s : Shared F) (choice : Choice)

inductive Turn : Task → Shared F → Task → Prop
  | seen (data : Bytes) : Turn (.putBloom data) s (.putMetadata data)
  | unseen (data : Bytes) : Turn (.putBloom data) s (.putOpen data)
  | there (data : Bytes) (quiet : choice.fault = none)
    (named : (s.fs.dir (shardPath base (Cid.fromData B data))).isSome) :
    Turn (.putMetadata data) s (.putDone data (.ok (Cid.fromData B data)))
  | notThere (data : Bytes) : Turn (.putMetadata data) s (.putOpen data)
  | openFails (data : Bytes) (e : OsError) (fails : choice.fault = some e) :
    Turn (.putOpen data) s (.putDone data (.error (writeError e)))
  | opens (data : Bytes) :
    Turn (.putOpen data)
      { s with fs := (s.fs.openTruncate (tmpPath base (Cid.fromData B data))).1 }
      (.putWrite data (s.fs.openTruncate (tmpPath base (Cid.fromData B data))).2 0)
  | closes (data : Bytes) (ino off : ℕ) (written : data.length ≤ off) :
    Turn (.putWrite data ino off) s (.putRename data)
  | writeFails (data : Bytes) (ino off : ℕ) (e : OsError) (fails : choice.fault = some e) :
    Turn (.putWrite data ino off) s (.putDone data (.error (writeError e)))
  | writes (data : Bytes) (ino off : ℕ) (left : off < data.length) (moves : 0 < choice.amount) :
    Turn (.putWrite data ino off)
      { s with fs := s.fs.writeAt ino off ((data.drop off).take choice.amount) }
      (.putWrite data ino (off + ((data.drop off).take choice.amount).length))
  | renameFails (data : Bytes) (e : OsError) (fails : choice.fault = some e) :
    Turn (.putRename data) s (.putCleanUp data e)
  | renameMissing (data : Bytes) (missing : s.fs.rename (tmpPath base (Cid.fromData B data))
      (shardPath base (Cid.fromData B data)) = none) :
    Turn (.putRename data) s (.putCleanUp data notFound)
  | renames (data : Bytes) (fs : Fs Path UInt8)
    (renamed : s.fs.rename (tmpPath base (Cid.fromData B data))
      (shardPath base (Cid.fromData B data)) = some fs) :
    Turn (.putRename data) { s with fs := fs } (.putInsert data)
  | cleansUp (data : Bytes) (e : OsError) (fs : Fs Path UInt8)
    (removed : s.fs.unlink (tmpPath base (Cid.fromData B data)) = some fs) :
    Turn (.putCleanUp data e) { s with fs := fs } (.putDone data (.error (.ioError e)))
  | leaves (data : Bytes) (e : OsError) :
    Turn (.putCleanUp data e) s (.putDone data (.error (.ioError e)))
  | inserts (data : Bytes) :
    Turn (.putInsert data) { s with bloom := bloom.insert s.bloom (Cid.fromData B data) }
      (.putCache data)
  | caches (data : Bytes) :
    Turn (.putCache data) { s with cache := s.cache.put (Cid.fromData B data) data }
      (.putPublish data)
  | publishes (data : Bytes) :
    Turn (.putPublish data)
      { s with published :=
        if s.sender then s.published ++ [Cid.fromData B data] else s.published }
      (.putDone data (.ok (Cid.fromData B data)))
  | hit (cid : Cid) (cache : Lru Cid Bytes) (bytes : Bytes)
    (looked : s.cache.get cid = (cache, some bytes)) :
    Turn (.getCache cid) { s with cache := cache } (.getDone cid (.ok (some bytes)))
  | miss (cid : Cid) (cache : Lru Cid Bytes) (looked : s.cache.get cid = (cache, none)) :
    Turn (.getCache cid) { s with cache := cache } (.getBloom cid)
  | likely (cid : Cid) : Turn (.getBloom cid) s (.getOpen cid)
  | unknown (cid : Cid) : Turn (.getBloom cid) s (.getDone cid (.ok none))
  | getFails (cid : Cid) (e : OsError) (fails : choice.fault = some e) :
    Turn (.getOpen cid) s (.getDone cid (readError e))
  | getMissing (cid : Cid) (missing : s.fs.dir (shardPath base cid) = none) :
    Turn (.getOpen cid) s (.getDone cid (readError notFound))
  | getOpens (cid : Cid) (ino : ℕ) (named : s.fs.dir (shardPath base cid) = some ino) :
    Turn (.getOpen cid) s (.getRead cid ino [])
  | readFails (cid : Cid) (ino : ℕ) (bytes : Bytes) (e : OsError) (fails : choice.fault = some e) :
    Turn (.getRead cid ino bytes) s (.getDone cid (readError e))
  | rejects (cid : Cid) (ino : ℕ) (bytes : Bytes) (e : ObjError)
    (ended : (s.fs.data ino).length ≤ bytes.length) (wrong : Cid.fromData B bytes ≠ cid) :
    Turn (.getRead cid ino bytes) s (.getDone cid (.error e))
  | verifies (cid : Cid) (ino : ℕ) (bytes : Bytes)
    (ended : (s.fs.data ino).length ≤ bytes.length) (right : Cid.fromData B bytes = cid) :
    Turn (.getRead cid ino bytes) s (.getKeep cid bytes)
  | reads (cid : Cid) (ino : ℕ) (bytes : Bytes) :
    Turn (.getRead cid ino bytes) s
      (.getRead cid ino (bytes ++ ((s.fs.data ino).drop bytes.length).take choice.amount))
  | keeps (cid : Cid) (bytes : Bytes) :
    Turn (.getKeep cid bytes) { s with cache := s.cache.put cid bytes }
      (.getDone cid (.ok (some bytes)))
  | deletes (cid : Cid) (result : Except ObjError Bool) (kept : result ≠ .ok true) :
    Turn (.deleteRemove cid) s (.deleteDone cid result)
  | removes (cid : Cid) (fs : Fs Path UInt8) (removed : s.fs.unlink (shardPath base cid) = some fs) :
    Turn (.deleteRemove cid) { s with fs := fs } (.deleteEvict cid)
  | evicts (cid : Cid) :
    Turn (.deleteEvict cid) { s with cache := s.cache.remove cid } (.deleteDone cid (.ok true))

variable {s choice}

theorem advance_turn {task t : Task} {after : Shared F}
    (moved : advance B bloom base s choice task = some (after, t)) :
    Turn B bloom base s choice task after t := by
  cases task with
  | idle | putDone | getDone | deleteDone => cases moved
  | putBloom data =>
    simp only [advance] at moved
    split at moved <;> cases moved
    · exact .seen data
    · exact .unseen data
  | putMetadata data =>
    simp only [advance] at moved
    split at moved <;> rename_i found <;> cases moved
    · exact .there data (Option.isNone_iff_eq_none.mp found.1) found.2
    · exact .notThere data
  | putOpen data =>
    simp only [advance] at moved
    split at moved <;> cases moved
    · exact .openFails data _ ‹_›
    · exact .opens data
  | putWrite data ino off =>
    simp only [advance] at moved
    split at moved
    · cases moved
      exact .closes data ino off ‹_›
    · rename_i left
      split at moved
      · cases moved
        exact .writeFails data ino off _ ‹_›
      · split at moved <;> rename_i moves <;> cases moved
        exact .writes data ino off (Nat.not_le.mp left) (Nat.pos_of_ne_zero moves)
  | putRename data =>
    simp only [advance] at moved
    split at moved
    · cases moved
      exact .renameFails data _ ‹_›
    · split at moved <;> cases moved
      · exact .renameMissing data ‹_›
      · exact .renames data _ ‹_›
  | putCleanUp data e =>
    simp only [advance] at moved
    split at moved <;> cases moved
    · exact .cleansUp data e _ ‹_›
    · exact .leaves data e
  | putInsert data =>
    cases moved
    exact .inserts data
  | putCache data =>
    cases moved
    exact .caches data
  | putPublish data =>
    cases moved
    exact .publishes data
  | getCache cid =>
    simp only [advance] at moved
    split at moved <;> cases moved
    · exact .hit cid _ _ ‹_›
    · exact .miss cid _ ‹_›
  | getBloom cid =>
    simp only [advance] at moved
    split at moved <;> cases moved
    · exact .likely cid
    · exact .unknown cid
  | getOpen cid =>
    simp only [advance] at moved
    split at moved <;> cases moved
    · exact .getFails cid _ ‹_›
    · exact .getMissing cid ‹_›
    · exact .getOpens cid _ ‹_›
  | getRead cid ino bytes =>
    simp only [advance] at moved
    split at moved
    · cases moved
      exact .readFails cid ino bytes _ ‹_›
    · split at moved
      · rename_i ended
        unfold verifyRead at moved
        split at moved <;> rename_i compared <;> cases moved
        · exact .rejects cid ino bytes _ ended compared
        · exact .verifies cid ino bytes ended (not_not.mp compared)
      · split at moved <;> cases moved
        exact .reads cid ino bytes
  | getKeep cid bytes =>
    cases moved
    exact .keeps cid bytes
  | deleteRemove cid =>
    simp only [advance] at moved
    split at moved
    · split at moved <;> cases moved <;> exact .deletes cid _ (by simp)
    · cases moved
      exact .deletes cid _ (by simp)
    · cases moved
      exact .removes cid _ ‹_›
  | deleteEvict cid =>
    cases moved
    exact .evicts cid

end Turns

section Effects

variable (B) in
def fills : Task → Option (Cid × Bytes)
  | .putCache data => some (Cid.fromData B data, data)
  | .getKeep cid bytes => some (cid, bytes)
  | _ => none

variable {s after : Shared F} {choice : Choice} {task t : Task}

theorem cache_advance (moved : advance B bloom base s choice task = some (after, t))
    {e : Cid × Bytes} (member : e ∈ after.cache.entries) :
    e ∈ s.cache.entries ∨ fills B task = some e := by
  cases advance_turn B bloom base moved with
  | caches data =>
    rcases Lru.mem_put member with rfl | kept
    · exact .inr rfl
    · exact .inl kept
  | keeps cid bytes =>
    rcases Lru.mem_put member with rfl | kept
    · exact .inr rfl
    · exact .inl kept
  | hit cid cache bytes looked => exact .inl (Lru.mem_get (k := cid) (by rwa [looked]))
  | miss cid cache looked => exact .inl (Lru.mem_get (k := cid) (by rwa [looked]))
  | evicts cid => exact .inl (List.mem_of_mem_filter member)
  | _ => exact .inl member

theorem name_advance (moved : advance B bloom base s choice task = some (after, t)) (cid : Cid) :
    after.fs.dir (shardPath base cid) = s.fs.dir (shardPath base cid) ∨
      (task = .deleteRemove cid ∧ t = .deleteEvict cid ∧
        after.fs.dir (shardPath base cid) = none) ∨
      ∃ data, task = .putRename data ∧ Cid.fromData B data = cid ∧ t = .putInsert data ∧
        (after.fs.dir (shardPath base cid)).isSome := by
  have away (data : Bytes) : shardPath base cid ≠ tmpPath base (Cid.fromData B data) :=
    (tmpPath_ne_shardPath base _ cid).symm
  cases advance_turn B bloom base moved with
  | opens data => exact .inl (dir_openTruncate_of_ne (away data))
  | cleansUp data e fs removed =>
    left
    change fs.dir _ = _
    rw [(of_unlink removed).2.1, Function.update_of_ne (away data)]
  | renames data fs renamed =>
    obtain ⟨i, -, ⟨-, rfl⟩ | ⟨used, rfl⟩⟩ := of_rename renamed
    · exact .inl rfl
    · rcases eq_or_ne (Cid.fromData B data) cid with rfl | other
      · refine .inr (.inr ⟨data, rfl, rfl, rfl, ?_⟩)
        rw [dir_move_dst used (away data)]
        rfl
      · have elsewhere : shardPath base cid ≠ shardPath base (Cid.fromData B data) :=
          fun same => other (shardPath_injective base same).symm
        exact .inl (dir_move_of_ne used (away data) elsewhere)
  | removes other fs removed =>
    have names := (of_unlink removed).2.1
    rcases eq_or_ne other cid with rfl | ne
    · refine .inr (.inl ⟨rfl, rfl, ?_⟩)
      rw [names, Function.update_self]
    · left
      have elsewhere : shardPath base cid ≠ shardPath base other :=
        fun same => ne (shardPath_injective base same).symm
      change fs.dir _ = _
      rw [names, Function.update_of_ne elsewhere]
  | _ => exact .inl rfl

end Effects

end Craftec.Obj.Store
