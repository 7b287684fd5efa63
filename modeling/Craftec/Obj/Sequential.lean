/- GID: Craftec/Obj/Sequential
   generality: I
   digest: The calls of the object store one at a time, and that each is a run of its steps. -/

import Mathlib
import Craftec.Library.InodeFs
import Craftec.Library.RecentCache
import Craftec.Library.Run
import Craftec.Obj.Shard
import Craftec.Obj.Store
import Craftec.Types.Digest

set_option autoImplicit false
set_option relaxedAutoImplicit false

namespace Craftec.Obj.Sequential

open Craftec.Library.InodeFs (Fs)
open Craftec.Library.InodeFs.Fs (content_eq content_none dir_of_rename_none dir_writeFile
  writeAt_nil writeFile)
open Craftec.Library.RecentCache (Lru)
open Craftec.Library.Run (Reach reach_step)
open Craftec.Obj.Shard (ReadDir shardPath tmpPath walkShards)
open Craftec.Obj.Store (Bloom Call Choice Label ObjError Shared State Task advance advance_close
  advance_writeAll notFound step step_advance verifyRead)
open Craftec.Types.Digest (Bytes Blake3 Cid)

variable (B : Blake3) {F : Type} (bloom : Bloom F) (base : Shard.Path)

/-- A put that meets no other call and no error of the file system. -/
def put (s : Shared F) (data : Bytes) : Shared F × Except ObjError Cid :=
  if bloom.probablyContains s.bloom (Cid.fromData B data) ∧
      (s.fs.dir (shardPath base (Cid.fromData B data))).isSome then
    (s, .ok (Cid.fromData B data))
  else
    match (s.fs.writeFile (tmpPath base (Cid.fromData B data)) data).rename
        (tmpPath base (Cid.fromData B data)) (shardPath base (Cid.fromData B data)) with
    | none =>
      ({ s with fs := s.fs.writeFile (tmpPath base (Cid.fromData B data)) data },
        .error (.ioError notFound))
    | some fs =>
      ({ s with
          fs := fs
          bloom := bloom.insert s.bloom (Cid.fromData B data)
          cache := s.cache.put (Cid.fromData B data) data
          published := if s.sender then s.published ++ [Cid.fromData B data] else s.published },
        .ok (Cid.fromData B data))

def get (s : Shared F) (cid : Cid) : Shared F × Except ObjError (Option Bytes) :=
  match s.cache.get cid with
  | (cache, some bytes) => ({ s with cache := cache }, .ok (some bytes))
  | (cache, none) =>
    if bloom.probablyContains s.bloom cid then
      match s.fs.content (shardPath base cid) with
      | none => ({ s with cache := cache }, .ok none)
      | some bytes =>
        match verifyRead B cid bytes with
        | .getDone _ refused => ({ s with cache := cache }, refused)
        | _ => ({ s with cache := cache.put cid bytes }, .ok (some bytes))
    else ({ s with cache := cache }, .ok none)

/-- `contains` looks at the filter and the file's metadata and changes nothing. -/
def contains (s : Shared F) (cid : Cid) : Bool :=
  bloom.probablyContains s.bloom cid && (s.fs.dir (shardPath base cid)).isSome

def delete (s : Shared F) (cid : Cid) : Shared F × Except ObjError Bool :=
  match s.fs.unlink (shardPath base cid) with
  | none => (s, .ok false)
  | some fs => ({ s with fs := fs, cache := s.cache.remove cid }, .ok true)

def listCids (readDir : ReadDir) : Except ObjError (List Cid) := .ok (walkShards readDir base)

/-- `CidBloomFilter::rebuild`, from the filter with nothing in it. -/
def rebuild (blank : F) (readDir : ReadDir) : F :=
  (walkShards readDir base).foldl bloom.insert blank

/-- `ContentAddressedStore::new` on these files; a capacity of 0 panics. -/
def new (blank : F) (readDir : ReadDir) (capacity : ℕ+) (fs : Fs Shard.Path UInt8) : Shared F :=
  ⟨fs, rebuild bloom base blank readDir, Lru.empty capacity, false, []⟩

section Runs

variable {B bloom base} {guard : State F → Label → Prop} {calls : ℕ → Task} {i : ℕ}

theorem reach_invoke {s : Shared F} (call : Call) (free : calls i = .idle)
    (permitted : guard ⟨s, calls⟩ (.invoke i call)) :
    Reach (step B bloom base) guard ⟨s, calls⟩ ⟨s, Function.update calls i call.start⟩ :=
  reach_step permitted (by simp only [step, free])

theorem reach_move {s after : Shared F} {c : Choice} {t u : Task}
    (permitted : guard ⟨s, Function.update calls i t⟩ (.advance i c))
    (moves : advance B bloom base s c t = some (after, u)) :
    Reach (step B bloom base) guard ⟨s, Function.update calls i t⟩
      ⟨after, Function.update calls i u⟩ := by
  have here : (⟨s, Function.update calls i t⟩ : State F).calls i = t := Function.update_self i t calls
  have moved : step B bloom base ⟨s, Function.update calls i t⟩ (.advance i c) = _ :=
    step_advance (by rw [here]; exact moves)
  rw [Function.update_idem] at moved
  exact reach_step permitted moved

-- every step of call `i` that meets no error may be taken
variable (allowed : ∀ u c, c.fault = none → guard u (.advance i c))

include allowed

theorem reach_advance {s after : Shared F} {c : Choice} {t u : Task} (quiet : c.fault = none)
    (moves : advance B bloom base s c t = some (after, u)) :
    Reach (step B bloom base) guard ⟨s, Function.update calls i t⟩
      ⟨after, Function.update calls i u⟩ := reach_move (allowed _ c quiet) moves

theorem reach_writeFile (s : Shared F) (data : Bytes) :
    Reach (step B bloom base) guard ⟨s, Function.update calls i (.putOpen data)⟩
      ⟨{ s with fs := s.fs.writeFile (tmpPath base (Cid.fromData B data)) data },
        Function.update calls i (.putRename data)⟩ := by
  have opened : Reach (step B bloom base) guard ⟨s, Function.update calls i (.putOpen data)⟩
      ⟨{ s with fs := (s.fs.openTruncate (tmpPath base (Cid.fromData B data))).1 },
        Function.update calls i
          (.putWrite data (s.fs.openTruncate (tmpPath base (Cid.fromData B data))).2 0)⟩ :=
    reach_advance allowed (c := ⟨0, none⟩) rfl rfl
  refine opened.trans ?_
  rcases eq_or_ne data [] with rfl | some_
  · -- nothing to write: the file is closed at once
    rw [writeFile, writeAt_nil]
    exact reach_advance allowed (c := ⟨0, none⟩) rfl advance_close
  · have wrote : Reach (step B bloom base) guard
        ⟨{ s with fs := (s.fs.openTruncate (tmpPath base (Cid.fromData B data))).1 },
          Function.update calls i
            (.putWrite data (s.fs.openTruncate (tmpPath base (Cid.fromData B data))).2 0)⟩
        ⟨{ s with fs := s.fs.writeFile (tmpPath base (Cid.fromData B data)) data },
          Function.update calls i
            (.putWrite data (s.fs.openTruncate (tmpPath base (Cid.fromData B data))).2 data.length)⟩ :=
      reach_advance allowed rfl (advance_writeAll some_)
    exact wrote.trans (reach_advance allowed (c := ⟨0, none⟩) rfl advance_close)

theorem reach_putOpen (s : Shared F) (data : Bytes)
    (unknown : ¬ (bloom.probablyContains s.bloom (Cid.fromData B data) ∧
      (s.fs.dir (shardPath base (Cid.fromData B data))).isSome)) :
    Reach (step B bloom base) guard ⟨s, Function.update calls i (.putBloom data)⟩
      ⟨s, Function.update calls i (.putOpen data)⟩ := by
  by_cases likely : bloom.probablyContains s.bloom (Cid.fromData B data)
  · have asked : Reach (step B bloom base) guard
        ⟨s, Function.update calls i (.putBloom data)⟩
        ⟨s, Function.update calls i (.putMetadata data)⟩ :=
      reach_advance allowed (c := ⟨0, none⟩) rfl (by rw [advance, if_pos likely])
    have absent : ¬ (((⟨0, none⟩ : Choice).fault.isNone = true) ∧
        (s.fs.dir (shardPath base (Cid.fromData B data))).isSome) :=
      fun both => unknown ⟨likely, both.2⟩
    exact asked.trans (reach_advance allowed (c := ⟨0, none⟩) rfl (by rw [advance, if_neg absent]))
  · exact reach_advance allowed (c := ⟨0, none⟩) rfl (by rw [advance, if_neg likely])

theorem reach_putDone (s : Shared F) (data : Bytes) {fs : Fs Shard.Path UInt8}
    (renamed : s.fs.rename (tmpPath base (Cid.fromData B data)) (shardPath base (Cid.fromData B data)) =
      some fs) :
    Reach (step B bloom base) guard ⟨s, Function.update calls i (.putRename data)⟩
      ⟨{ s with
          fs := fs
          bloom := bloom.insert s.bloom (Cid.fromData B data)
          cache := s.cache.put (Cid.fromData B data) data
          published := if s.sender then s.published ++ [Cid.fromData B data] else s.published },
        Function.update calls i (.putDone data (.ok (Cid.fromData B data)))⟩ := by
  have moved : Reach (step B bloom base) guard
      ⟨s, Function.update calls i (.putRename data)⟩
      ⟨{ s with fs := fs }, Function.update calls i (.putInsert data)⟩ :=
    reach_advance allowed (c := ⟨0, none⟩) rfl (by simp only [advance, renamed])
  have inserted : Reach (step B bloom base) guard
      ⟨{ s with fs := fs }, Function.update calls i (.putInsert data)⟩
      ⟨{ s with fs := fs, bloom := bloom.insert s.bloom (Cid.fromData B data) },
        Function.update calls i (.putCache data)⟩ := reach_advance allowed (c := ⟨0, none⟩) rfl rfl
  have kept : Reach (step B bloom base) guard
      ⟨{ s with fs := fs, bloom := bloom.insert s.bloom (Cid.fromData B data) },
        Function.update calls i (.putCache data)⟩
      ⟨{ s with
          fs := fs
          bloom := bloom.insert s.bloom (Cid.fromData B data)
          cache := s.cache.put (Cid.fromData B data) data },
        Function.update calls i (.putPublish data)⟩ := reach_advance allowed (c := ⟨0, none⟩) rfl rfl
  exact ((moved.trans inserted).trans kept).trans (reach_advance allowed (c := ⟨0, none⟩) rfl rfl)

/-- A put that nothing disturbs is `put`. -/
theorem reach_put (s : Shared F) (data : Bytes) :
    Reach (step B bloom base) guard ⟨s, Function.update calls i (.putBloom data)⟩
      ⟨(put B bloom base s data).1,
        Function.update calls i (.putDone data (put B bloom base s data).2)⟩ := by
  by_cases known : bloom.probablyContains s.bloom (Cid.fromData B data) ∧
      (s.fs.dir (shardPath base (Cid.fromData B data))).isSome
  · rw [put, if_pos known]
    have asked : Reach (step B bloom base) guard ⟨s, Function.update calls i (.putBloom data)⟩
        ⟨s, Function.update calls i (.putMetadata data)⟩ :=
      reach_advance allowed (c := ⟨0, none⟩) rfl (by rw [advance, if_pos known.1])
    exact asked.trans
      (reach_advance allowed (c := ⟨0, none⟩) rfl (by rw [advance, if_pos ⟨rfl, known.2⟩]))
  · refine ((reach_putOpen allowed s data known).trans (reach_writeFile allowed s data)).trans ?_
    rw [put, if_neg known]
    split
    · rename_i failed
      -- the file has just been written
      have written := dir_writeFile s.fs (tmpPath base (Cid.fromData B data)) data
      rw [dir_of_rename_none failed] at written
      cases written
    · rename_i fs renamed
      exact reach_putDone allowed { s with fs := _ } data renamed

theorem reach_read (s : Shared F) {cid : Cid} {ino : ℕ}
    (named : s.fs.dir (shardPath base cid) = some ino) :
    Reach (step B bloom base) guard ⟨s, Function.update calls i (.getOpen cid)⟩
      ⟨s, Function.update calls i (verifyRead B cid (s.fs.data ino))⟩ := by
  have opened : Reach (step B bloom base) guard ⟨s, Function.update calls i (.getOpen cid)⟩
      ⟨s, Function.update calls i (.getRead cid ino [])⟩ :=
    reach_advance allowed (c := ⟨0, none⟩) rfl (by simp only [advance, named])
  have read : Reach (step B bloom base) guard
      ⟨s, Function.update calls i (.getRead cid ino [])⟩
      ⟨s, Function.update calls i (.getRead cid ino (s.fs.data ino))⟩ := by
    rcases eq_or_ne (s.fs.data ino) [] with empty | some_
    · rw [empty]
      exact Relation.ReflTransGen.refl
    · refine reach_advance allowed (c := ⟨(s.fs.data ino).length, none⟩) rfl ?_
      have longer : ¬ (s.fs.data ino).length ≤ 0 := by simpa using some_
      have moves : (s.fs.data ino).length ≠ 0 := by simpa using some_
      simp only [advance, List.length_nil, longer, moves, if_false, List.drop_zero, List.take_length,
        List.nil_append]
  refine (opened.trans read).trans ?_
  exact reach_advance allowed (c := ⟨0, none⟩) rfl (by simp only [advance, le_refl, if_true])

theorem reach_get (s : Shared F) (cid : Cid) :
    Reach (step B bloom base) guard ⟨s, Function.update calls i (.getCache cid)⟩
      ⟨(get B bloom base s cid).1,
        Function.update calls i (.getDone cid (get B bloom base s cid).2)⟩ := by
  rw [get]
  split
  · rename_i cache bytes hit
    exact reach_advance allowed (c := ⟨0, none⟩) rfl (by simp only [advance, hit])
  · rename_i cache missed
    have looked : Reach (step B bloom base) guard ⟨s, Function.update calls i (.getCache cid)⟩
        ⟨{ s with cache := cache }, Function.update calls i (.getBloom cid)⟩ :=
      reach_advance allowed (c := ⟨0, none⟩) rfl (by simp only [advance, missed])
    refine looked.trans ?_
    split
    · rename_i likely
      have asked : Reach (step B bloom base) guard
          ⟨{ s with cache := cache }, Function.update calls i (.getBloom cid)⟩
          ⟨{ s with cache := cache }, Function.update calls i (.getOpen cid)⟩ :=
        reach_advance allowed (c := ⟨0, none⟩) rfl (by simp only [advance, likely, if_true])
      refine asked.trans ?_
      cases named : s.fs.dir (shardPath base cid) with
      | none =>
        rw [content_none named]
        exact reach_advance allowed (c := ⟨0, none⟩) rfl (by simp only [advance, named]; rfl)
      | some ino =>
        rw [content_eq named]
        refine (reach_read allowed { s with cache := cache } named).trans ?_
        by_cases whole : Cid.fromData B (s.fs.data ino) = cid
        · have kept : verifyRead B cid (s.fs.data ino) = .getKeep cid (s.fs.data ino) := by
            rw [verifyRead, if_neg (not_not.mpr whole)]
          simp only [kept]
          exact reach_advance allowed (c := ⟨0, none⟩) rfl rfl
        · simp only [verifyRead, ne_eq, whole, not_false_iff, if_true]
          exact Relation.ReflTransGen.refl
    · rename_i unknown
      exact reach_advance allowed (c := ⟨0, none⟩) rfl (by rw [advance, if_neg unknown])

theorem reach_getCall {s after : Shared F} {cid : Cid} {result : Except ObjError (Option Bytes)}
    (free : calls i = .idle) (permitted : guard ⟨s, calls⟩ (.invoke i (.get cid)))
    (returns : get B bloom base s cid = (after, result)) :
    Reach (step B bloom base) guard ⟨s, calls⟩
      ⟨after, Function.update calls i (.getDone cid result)⟩ := by
  have runs : Reach (step B bloom base) guard ⟨s, Function.update calls i (.getCache cid)⟩ _ :=
    reach_get allowed s cid
  rw [returns] at runs
  exact (reach_invoke (.get cid) free permitted).trans runs

theorem reach_delete (s : Shared F) (cid : Cid) :
    Reach (step B bloom base) guard ⟨s, Function.update calls i (.deleteRemove cid)⟩
      ⟨(delete base s cid).1,
        Function.update calls i (.deleteDone cid (delete base s cid).2)⟩ := by
  cases removed : s.fs.unlink (shardPath base cid) with
  | none =>
    simp only [delete, removed]
    exact reach_advance allowed (c := ⟨0, none⟩) rfl (by simp only [advance, removed])
  | some fs =>
    simp only [delete, removed]
    have gone : Reach (step B bloom base) guard
        ⟨s, Function.update calls i (.deleteRemove cid)⟩
        ⟨{ s with fs := fs }, Function.update calls i (.deleteEvict cid)⟩ :=
      reach_advance allowed (c := ⟨0, none⟩) rfl (by simp only [advance, removed])
    exact gone.trans (reach_advance allowed (c := ⟨0, none⟩) rfl rfl)

end Runs

end Craftec.Obj.Sequential
