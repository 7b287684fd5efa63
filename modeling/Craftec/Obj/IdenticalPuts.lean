/- GID: Craftec/Obj/IdenticalPuts
   generality: I
   digest: Concurrent puts of one object are safe while their temporary files do not overlap in time. -/

import Mathlib
import Craftec.Library.InodeFs
import Craftec.Library.RecentCache
import Craftec.Library.Run
import Craftec.Obj.Shard
import Craftec.Obj.Store
import Craftec.Types.Digest

set_option autoImplicit false
set_option relaxedAutoImplicit false

namespace Craftec.Obj.IdenticalPuts

open Craftec.Library.InodeFs (Fs overwrite overwrite_take)
open Craftec.Library.InodeFs.Fs
open Craftec.Library.RecentCache (Lru)
open Craftec.Library.Run (Path Reach of_update single_update)
open Craftec.Obj.Shard (shardPath shardPath_injective tmpPath tmpPath_ne_shardPath)
open Craftec.Obj.Store (Bloom Call Choice Label ObjError Shared State Task advance advance_close
  advance_turn advance_writeAll notFound of_step_advance of_step_invoke step step_advance)
open Craftec.Types.Digest (Bytes Blake3 Cid)

section

variable (B : Blake3) (d : Bytes)

/-- What a reader of `cid` may be given while `d` is the only object put. -/
def Holds (cid : Cid) (bytes : Bytes) : Prop :=
  Cid.fromData B bytes = cid ∧ (cid = Cid.fromData B d → bytes = d)

theorem holds_self : Holds B d (Cid.fromData B d) d := ⟨rfl, fun _ => rfl⟩

def Writing : Task → Prop
  | .putWrite _ _ _ | .putRename _ => True
  | _ => False

variable {F : Type}

/-- Puts of `d` and gets of anything, on a file system that raises no error of its own. -/
def OnlyPuts (_ : State F) : Label → Prop
  | .invoke _ (.put data) => data = d
  | .invoke _ (.get _) => True
  | .invoke _ (.delete _) => False
  | .advance _ choice => choice.fault = none

/-- A put opens the temporary file only while no other put has it. -/
def OpensApart (s : State F) : Label → Prop
  | .advance i _ =>
    match s.calls i with
    | .putOpen _ => ∀ j, ¬ Writing (s.calls j)
    | _ => True
  | _ => True

def putWork : Task → ℕ
  | .putBloom data => data.length + 8
  | .putMetadata data => data.length + 7
  | .putOpen data => data.length + 6
  | .putWrite data _ off => data.length - off + 5
  | .putRename _ => 4
  | .putInsert _ => 3
  | .putCache _ => 2
  | .putPublish _ | .putCleanUp _ _ => 1
  | _ => 0

variable (base : Shard.Path)

/-- A store no call is using, whose files and cached objects are whole. The
temporary file may be left from an earlier run. -/
structure Ready (s : State F) : Prop where
  quiet : ∀ i, s.calls i = .idle
  objects : ∀ cid bytes, s.shared.fs.content (shardPath base cid) = some bytes → Holds B d cid bytes
  unshared : ∀ cid ino, s.shared.fs.dir (tmpPath base (Cid.fromData B d)) = some ino →
    s.shared.fs.dir (shardPath base cid) ≠ some ino
  cached : ∀ cid bytes, (cid, bytes) ∈ s.shared.cache.entries → Holds B d cid bytes

/-- The file holds exactly `d` whenever it is there, no get failed or was given
anything but a whole object, and every put that returned did so with the identifier. -/
structure Intact (s : State F) : Prop where
  file : ∀ bytes, s.shared.fs.content (shardPath base (Cid.fromData B d)) = some bytes → bytes = d
  put : ∀ i data result, s.calls i = .putDone data result → result = .ok (Cid.fromData B d)
  get : ∀ i cid result, s.calls i = .getDone cid result →
    ∃ found, result = .ok found ∧ ∀ bytes, found = some bytes → Holds B d cid bytes

/-- No put waits for anything, and each of its steps leaves less to do. -/
def PutsMove (bloom : Bloom F) (s : State F) : Prop :=
  ∀ i choice, 0 < putWork (s.calls i) → choice.fault = none → 0 < choice.amount →
    ∃ t, step B bloom base s (.advance i choice) = some t ∧
      putWork (t.calls i) < putWork (s.calls i)

def TaskOk (fs : Fs Shard.Path UInt8) : Task → Prop
  | .idle | .getCache _ | .getBloom _ | .getOpen _ => True
  | .putBloom data | .putMetadata data | .putOpen data | .putInsert data | .putCache data
  | .putPublish data => data = d
  | .putWrite data ino off =>
    data = d ∧ off ≤ d.length ∧ fs.dir (tmpPath base (Cid.fromData B d)) = some ino ∧
      fs.data ino = d.take off
  | .putRename data =>
    data = d ∧ ∃ ino, fs.dir (tmpPath base (Cid.fromData B d)) = some ino ∧ fs.data ino = d
  | .putDone data result => data = d ∧ result = .ok (Cid.fromData B d)
  | .getRead cid ino bytes =>
    ino < fs.fresh ∧ fs.dir (tmpPath base (Cid.fromData B d)) ≠ some ino ∧
      Holds B d cid (fs.data ino) ∧ bytes <+: fs.data ino
  | .getKeep cid bytes => Holds B d cid bytes
  | .getDone cid result =>
    ∃ found, result = .ok found ∧ ∀ bytes, found = some bytes → Holds B d cid bytes
  | .putCleanUp _ _ | .deleteRemove _ | .deleteEvict _ | .deleteDone _ _ => False

/-- Every name of an object leads to a whole one, and not to the temporary file. -/
structure FilesOk (fs : Fs Shard.Path UInt8) : Prop where
  objects : ∀ cid ino, fs.dir (shardPath base cid) = some ino → Holds B d cid (fs.data ino)
  unshared : ∀ cid ino, fs.dir (tmpPath base (Cid.fromData B d)) = some ino →
    fs.dir (shardPath base cid) ≠ some ino

def CacheOk (cache : Lru Cid Bytes) : Prop :=
  ∀ cid bytes, (cid, bytes) ∈ cache.entries → Holds B d cid bytes

structure Inv (s : State F) : Prop where
  files : FilesOk B d base s.shared.fs
  cached : CacheOk B d s.shared.cache
  single : ∀ i j, Writing (s.calls i) → Writing (s.calls j) → i = j
  tasks : ∀ i, TaskOk B d base s.shared.fs (s.calls i)

end

variable {B : Blake3} {d : Bytes} {F : Type} {base : Shard.Path} {bloom : Bloom F}

theorem cacheOk_put {cache : Lru Cid Bytes} {cid : Cid} {bytes : Bytes}
    (cached : CacheOk B d cache) (whole : Holds B d cid bytes) :
    CacheOk B d (cache.put cid bytes) := by
  intro c b member
  rcases Lru.mem_put member with same | kept
  · cases same
    exact whole
  · exact cached c b kept

theorem taskOk_of_kept {fs after : Fs Shard.Path UInt8} {t : Task}
    (kept : KeptBeside (tmpPath base (Cid.fromData B d)) fs after) (idle : ¬ Writing t)
    (ok : TaskOk B d base fs t) : TaskOk B d base after t := by
  cases t with
  | putWrite | putRename => exact (idle trivial).elim
  | getRead cid ino bytes =>
    obtain ⟨used, other, whole, read⟩ := ok
    obtain ⟨used', other', same⟩ := kept ino used other
    exact ⟨used', other', by rwa [same], by rwa [same]⟩
  | _ => exact ok

theorem filesOk_of_kept {fs after : Fs Shard.Path UInt8} (files : FilesOk B d base fs)
    (kept : KeptBeside (tmpPath base (Cid.fromData B d)) fs after)
    (names : ∀ cid, after.dir (shardPath base cid) = fs.dir (shardPath base cid)) :
    FilesOk B d base after := by
  have beside (cid : Cid) (ino : ℕ) (named : after.dir (shardPath base cid) = some ino) :
      after.dir (tmpPath base (Cid.fromData B d)) ≠ some ino ∧ after.data ino = fs.data ino := by
    rw [names] at named
    have other : fs.dir (tmpPath base (Cid.fromData B d)) ≠ some ino :=
      fun shared => files.unshared cid ino shared named
    exact (kept ino (fs.linked _ _ named) other).2
  refine ⟨?_, ?_⟩
  · intro cid ino named
    rw [(beside cid ino named).2]
    rw [names] at named
    exact files.objects cid ino named
  · intro cid ino temporary named
    exact (beside cid ino named).1 temporary

theorem filesOk_move {fs : Fs Shard.Path UInt8} (files : FilesOk B d base fs) {ino : ℕ}
    (named : fs.dir (tmpPath base (Cid.fromData B d)) = some ino) (whole : fs.data ino = d) :
    FilesOk B d base (fs.move (tmpPath base (Cid.fromData B d)) (shardPath base (Cid.fromData B d))
      ino (fs.linked _ _ named)) := by
  have away (cid : Cid) : shardPath base cid ≠ tmpPath base (Cid.fromData B d) :=
    (tmpPath_ne_shardPath base _ cid).symm
  refine ⟨?_, ?_⟩
  · intro cid j found
    by_cases same : cid = Cid.fromData B d
    · subst same
      rw [dir_move_dst _ (away _)] at found
      cases found
      have content : (fs.move (tmpPath base (Cid.fromData B d))
        (shardPath base (Cid.fromData B d)) ino (fs.linked _ _ named)).data ino = d := whole
      rw [content]
      exact holds_self B d
    · have other : shardPath base cid ≠ shardPath base (Cid.fromData B d) :=
        fun equal => same (shardPath_injective base equal)
      rw [dir_move_of_ne _ (away cid) other] at found
      exact files.objects cid j found
  · intro cid j found
    rw [dir_move_src] at found
    cases found

theorem inv_local {s : State F} (inv : Inv B d base s) {shared : Shared F} {i : ℕ} {t : Task}
    (files : shared.fs = s.shared.fs) (cached : CacheOk B d shared.cache)
    (ok : TaskOk B d base s.shared.fs t) (writing : Writing t → Writing (s.calls i)) :
    Inv B d base ⟨shared, Function.update s.calls i t⟩ := by
  have back : ∀ j, Writing (Function.update s.calls i t j) → Writing (s.calls j) := of_update writing
  refine ⟨?_, cached, ?_, ?_⟩
  · rw [files]
    exact inv.files
  · intro j k first second
    exact inv.single j k (back j first) (back k second)
  · rw [files]
    exact (Function.forall_update_iff _ fun _ task => TaskOk B d base s.shared.fs task).mpr
      ⟨ok, fun j _ => inv.tasks j⟩

theorem inv_files {s : State F} (inv : Inv B d base s) {after : Fs Shard.Path UInt8} {i : ℕ}
    {t : Task} (kept : KeptBeside (tmpPath base (Cid.fromData B d)) s.shared.fs after)
    (files : FilesOk B d base after) (alone : ∀ j, j ≠ i → ¬ Writing (s.calls j))
    (ok : TaskOk B d base after t) :
    Inv B d base ⟨{ s.shared with fs := after }, Function.update s.calls i t⟩ := by
  refine ⟨files, inv.cached, ?_, ?_⟩
  · exact single_update inv.single fun _ => alone
  · exact (Function.forall_update_iff _ fun _ task => TaskOk B d base after task).mpr
      ⟨ok, fun j other => taskOk_of_kept kept (alone j other) (inv.tasks j)⟩

theorem alone_of_writing {s : State F} (inv : Inv B d base s) {i : ℕ} (busy : Writing (s.calls i)) :
    ∀ j, j ≠ i → ¬ Writing (s.calls j) := by
  intro j other busyToo
  exact other (inv.single j i busyToo busy)

theorem found_none {cid : Cid} :
    ∃ found, (Except.ok none : Except ObjError (Option Bytes)) = .ok found ∧
      ∀ bytes, found = some bytes → Holds B d cid bytes := by
  refine ⟨none, rfl, ?_⟩
  intro bytes found
  cases found

theorem advance_local {s after : Shared F} {choice : Choice} {task t : Task}
    (quiet : choice.fault = none) (cached : CacheOk B d s.cache) (files : FilesOk B d base s.fs)
    (ok : TaskOk B d base s.fs task) (idle : ¬ Writing task) (notOpen : ∀ data, task ≠ .putOpen data)
    (moved : advance B bloom base s choice task = some (after, t)) :
    after.fs = s.fs ∧ CacheOk B d after.cache ∧ TaskOk B d base s.fs t ∧ ¬ Writing t := by
  cases advance_turn B bloom base moved with
  | openFails data | opens data => exact (notOpen data rfl).elim
  | closes | writeFails | writes | renameFails | renameMissing | renames => exact (idle trivial).elim
  | cleansUp | leaves | deletes | removes | evicts => exact ok.elim
  | seen | unseen | notThere | inserts => exact ⟨rfl, cached, ok, id⟩
  | there data =>
    cases (ok : data = d)
    exact ⟨rfl, cached, ⟨rfl, rfl⟩, id⟩
  | caches data =>
    cases (ok : data = d)
    exact ⟨rfl, cacheOk_put cached (holds_self B d), rfl, id⟩
  | publishes data =>
    cases (ok : data = d)
    exact ⟨rfl, cached, ⟨rfl, rfl⟩, id⟩
  | hit cid cache bytes looked =>
    have entries : CacheOk B d cache :=
      fun c b member => cached c b (Lru.mem_get (k := cid) (by rwa [looked]))
    have held := Lru.mem_of_get (congrArg Prod.snd looked)
    refine ⟨rfl, entries, ⟨_, rfl, ?_⟩, id⟩
    intro found same
    cases same
    exact cached _ _ held
  | miss cid cache looked =>
    have entries : CacheOk B d cache :=
      fun c b member => cached c b (Lru.mem_get (k := cid) (by rwa [looked]))
    exact ⟨rfl, entries, trivial, id⟩
  | likely => exact ⟨rfl, cached, trivial, id⟩
  | unknown | getMissing => exact ⟨rfl, cached, found_none, id⟩
  | getFails cid e fails | readFails cid ino bytes e fails =>
    rw [quiet] at fails
    cases fails
  | getOpens cid ino named =>
    have other : s.fs.dir (tmpPath base (Cid.fromData B d)) ≠ some ino :=
      fun temporary => files.unshared cid ino temporary named
    exact ⟨rfl, cached, ⟨s.fs.linked _ _ named, other, files.objects cid ino named,
      List.nil_prefix⟩, id⟩
  | rejects cid ino bytes e ended wrong =>
    -- a prefix as long as the file is the file
    obtain ⟨-, -, whole, read⟩ := ok
    rw [← read.eq_of_length_le ended] at whole
    exact (wrong whole.1).elim
  | verifies cid ino bytes ended right =>
    obtain ⟨-, -, whole, read⟩ := ok
    rw [← read.eq_of_length_le ended] at whole
    exact ⟨rfl, cached, whole, id⟩
  | reads cid ino bytes =>
    obtain ⟨used, other, whole, read⟩ := ok
    refine ⟨rfl, cached, ⟨used, other, whole, ?_⟩, id⟩
    obtain ⟨rest, file⟩ := read
    rw [← file, List.drop_left]
    exact (List.prefix_append_right_inj bytes).mpr (List.take_prefix _ rest)
  | keeps cid bytes =>
    refine ⟨rfl, cacheOk_put cached ok, ⟨_, rfl, ?_⟩, id⟩
    intro found same
    cases same
    exact ok

theorem inv_open {s : State F} (inv : Inv B d base s) {i : ℕ} {choice : Choice} {shared : Shared F}
    {t : Task} (quiet : choice.fault = none) (free : ∀ j, ¬ Writing (s.calls j))
    (moved : advance B bloom base s.shared choice (.putOpen d) = some (shared, t)) :
    Inv B d base ⟨shared, Function.update s.calls i t⟩ := by
  simp only [advance, quiet] at moved
  cases moved
  have kept := keptBeside_openTruncate s.shared.fs (tmpPath base (Cid.fromData B d))
  refine inv_files inv kept ?_ (fun j _ => free j) ?_
  · refine filesOk_of_kept inv.files kept ?_
    intro cid
    exact dir_openTruncate_of_ne (tmpPath_ne_shardPath base _ cid).symm
  · exact ⟨rfl, Nat.zero_le _, dir_openTruncate _ _, data_openTruncate _ _⟩

theorem inv_write {s : State F} (inv : Inv B d base s) {i ino off : ℕ} {choice : Choice}
    {shared : Shared F} {t : Task} (quiet : choice.fault = none)
    (here : s.calls i = .putWrite d ino off)
    (moved : advance B bloom base s.shared choice (.putWrite d ino off) = some (shared, t)) :
    Inv B d base ⟨shared, Function.update s.calls i t⟩ := by
  have busy : Writing (s.calls i) := by
    rw [here]
    trivial
  obtain ⟨_, within, named, written⟩ : TaskOk B d base s.shared.fs (.putWrite d ino off) :=
    here ▸ inv.tasks i
  simp only [advance, quiet] at moved
  split at moved
  · -- everything is written: the file is closed
    rename_i ended
    cases moved
    have all : s.shared.fs.data ino = d := by rw [written, List.take_of_length_le ended]
    exact inv_local inv rfl inv.cached ⟨rfl, ino, named, all⟩ fun _ => busy
  · split at moved
    · cases moved
    · cases moved
      have kept := keptBeside_setData
        (overwrite (s.shared.fs.data ino) off ((d.drop off).take choice.amount)) named
      refine inv_files inv kept ?_ (alone_of_writing inv busy) ⟨rfl, ?_, named, ?_⟩
      · exact filesOk_of_kept inv.files kept fun _ => rfl
      · rw [List.length_take, List.length_drop]
        omega
      · rw [data_writeAt, written, overwrite_take d choice.amount within]

theorem inv_rename {s : State F} (inv : Inv B d base s) {i : ℕ} {choice : Choice}
    {shared : Shared F} {t : Task} (quiet : choice.fault = none) (here : s.calls i = .putRename d)
    (moved : advance B bloom base s.shared choice (.putRename d) = some (shared, t)) :
    Inv B d base ⟨shared, Function.update s.calls i t⟩ := by
  have busy : Writing (s.calls i) := by
    rw [here]
    trivial
  obtain ⟨_, ino, named, whole⟩ : TaskOk B d base s.shared.fs (.putRename d) := here ▸ inv.tasks i
  have renamed := rename_of_some named (inv.files.unshared (Cid.fromData B d) ino named)
  simp only [advance, quiet, renamed] at moved
  cases moved
  exact inv_files inv (keptBeside_move _) (filesOk_move inv.files named whole)
    (alone_of_writing inv busy) rfl

theorem inv_step {s t : State F} {label : Label} (inv : Inv B d base s)
    (guarded : OnlyPuts d s label ∧ OpensApart s label)
    (taken : step B bloom base s label = some t) : Inv B d base t := by
  cases label with
  | invoke i call =>
    obtain ⟨-, rfl⟩ := of_step_invoke taken
    cases call with
    | put data => exact inv_local inv rfl inv.cached guarded.1 False.elim
    | get cid => exact inv_local inv rfl inv.cached trivial False.elim
    | delete cid => exact guarded.1.elim
  | advance i choice =>
    obtain ⟨quiet, free⟩ := guarded
    obtain ⟨shared, next, moved, rfl⟩ := of_step_advance taken
    have ok := inv.tasks i
    simp only [OpensApart] at free
    cases here : s.calls i with
    | putOpen data =>
      rw [here] at ok free moved
      cases (ok : data = d)
      exact inv_open inv quiet free moved
    | putWrite data ino off =>
      rw [here] at ok moved
      cases (ok.1 : data = d)
      exact inv_write inv quiet here moved
    | putRename data =>
      rw [here] at ok moved
      cases (ok.1 : data = d)
      exact inv_rename inv quiet here moved
    | _ =>
      have idle : ¬ Writing (s.calls i) := by
        rw [here]
        exact id
      have notOpen : ∀ data, s.calls i ≠ .putOpen data := by
        rw [here]
        intro data same
        cases same
      obtain ⟨files, cached, kept, notBusy⟩ :=
        advance_local quiet inv.cached inv.files ok idle notOpen moved
      exact inv_local inv files cached kept fun now => (notBusy now).elim

theorem inv_of_ready {s : State F} (ready : Ready B d base s) : Inv B d base s := by
  refine ⟨⟨?_, ready.unshared⟩, ready.cached, ?_, ?_⟩
  · intro cid ino named
    apply ready.objects
    rw [content, named]
    rfl
  · intro i _ busy
    rw [ready.quiet] at busy
    exact busy.elim
  · intro i
    rw [ready.quiet]
    trivial

theorem intact_of_inv {s : State F} (inv : Inv B d base s) : Intact B d base s := by
  refine ⟨?_, ?_, ?_⟩
  · intro bytes found
    obtain ⟨ino, named, same⟩ := Option.map_eq_some_iff.mp found
    rw [← same]
    exact (inv.files.objects _ ino named).2 rfl
  · intro i data result here
    have ok := inv.tasks i
    rw [here] at ok
    exact ok.2
  · intro i cid result here
    have ok := inv.tasks i
    rw [here] at ok
    exact ok

theorem advance_putWork {s : Shared F} {choice : Choice} {task : Task}
    (files : FilesOk B d base s.fs) (ok : TaskOk B d base s.fs task) (pending : 0 < putWork task)
    (quiet : choice.fault = none) (positive : 0 < choice.amount) :
    ∃ after t, advance B bloom base s choice task = some (after, t) ∧
      putWork t < putWork task := by
  cases task with
  | idle | putDone | getCache | getBloom | getOpen | getRead | getKeep | getDone | deleteRemove
  | deleteEvict | deleteDone => exact (Nat.lt_irrefl 0 pending).elim
  | putCleanUp => exact ok.elim
  | putBloom data | putMetadata data =>
    simp only [advance]
    split <;> exact ⟨_, _, rfl, by simp [putWork]⟩
  | putOpen data =>
    simp only [advance, quiet]
    exact ⟨_, _, rfl, by simp [putWork]⟩
  | putWrite data ino off =>
    simp only [advance, quiet]
    split
    · exact ⟨_, _, rfl, by simp [putWork]⟩
    · rw [if_neg (by omega)]
      refine ⟨_, _, rfl, ?_⟩
      simp only [putWork, List.length_take, List.length_drop]
      omega
  | putRename data =>
    obtain ⟨rfl, ino, named, _⟩ := ok
    have renamed := rename_of_some named (files.unshared (Cid.fromData B data) ino named)
    simp only [advance, quiet, renamed]
    exact ⟨_, _, rfl, by simp [putWork]⟩
  | putInsert data | putCache data | putPublish data => exact ⟨_, _, rfl, by simp [putWork]⟩

theorem putsMove_of_inv {s : State F} (inv : Inv B d base s) : PutsMove B base bloom s := by
  intro i choice pending quiet positive
  obtain ⟨after, t, moved, less⟩ :=
    advance_putWork inv.files (inv.tasks i) pending quiet positive
  refine ⟨_, step_advance moved, ?_⟩
  simpa using less

/-- In every run of puts of `d` and any gets in which a put opens the temporary
file only while no other put has it: the file is whole whenever it is there, no
get sees anything else, and every put goes through and returns the identifier. -/
theorem identical_puts_intact {s t : State F} (ready : Ready B d base s)
    (run : Reach (step B bloom base) (fun u a => OnlyPuts d u a ∧ OpensApart u a) s t) :
    Intact B d base t ∧ PutsMove B base bloom t := by
  have inv : Inv B d base t := run.invariant (inv_of_ready ready)
    fun _ _ _ held guarded taken => inv_step held guarded taken
  exact ⟨intact_of_inv inv, putsMove_of_inv inv⟩

/-! Two puts of one object in an empty store. -/

def exactBloom : Bloom (List Cid) := ⟨fun known cid => cid :: known, fun known cid => decide (cid ∈ known)⟩

def emptyFs : Fs Shard.Path UInt8 := ⟨fun _ => none, fun _ => [], 0, by intro _ _ found; cases found⟩

/-- The store over those files, with what has been put into its filter and its cache. -/
def storeOf (fs : Fs Shard.Path UInt8) (known : List Cid) (cache : Lru Cid Bytes) :
    Shared (List Cid) := ⟨fs, known, cache, false, []⟩

def two (first second : Task) : ℕ → Task
  | 0 => first
  | 1 => second
  | _ => .idle

/-- The next step of call `i`, moving as many bytes as it can. -/
def next (d : Bytes) (i : ℕ) : Label := .advance i ⟨d.length, none⟩

def opened : State (List Cid) := ⟨storeOf emptyFs [] (Lru.empty 16), two .idle .idle⟩

theorem update_two_zero (a b c : Task) : Function.update (two a b) 0 c = two c b := by
  funext i
  match i with
  | 0 => rfl
  | 1 => rfl
  | _ + 2 => rfl

theorem update_two_one (a b c : Task) : Function.update (two a b) 1 c = two a c := by
  funext i
  match i with
  | 0 => rfl
  | 1 => rfl
  | _ + 2 => rfl

theorem invoke_zero {s : Shared F} {b : Task} (call : Call) :
    step B bloom base ⟨s, two .idle b⟩ (.invoke 0 call) = some ⟨s, two call.start b⟩ := by
  rw [← update_two_zero .idle b call.start]
  rfl

theorem invoke_one {s : Shared F} {a : Task} (call : Call) :
    step B bloom base ⟨s, two a .idle⟩ (.invoke 1 call) = some ⟨s, two a call.start⟩ := by
  rw [← update_two_one a .idle call.start]
  rfl

theorem step_zero {s after : Shared F} {a b c : Task}
    (moved : advance B bloom base s ⟨d.length, none⟩ a = some (after, c)) :
    step B bloom base ⟨s, two a b⟩ (next d 0) = some ⟨after, two c b⟩ := by
  rw [← update_two_zero a b c]
  exact step_advance moved

theorem step_one {s after : Shared F} {a b c : Task}
    (moved : advance B bloom base s ⟨d.length, none⟩ b = some (after, c)) :
    step B bloom base ⟨s, two a b⟩ (next d 1) = some ⟨after, two a c⟩ := by
  rw [← update_two_one a b c]
  exact step_advance moved

/-- The temporary file with all of `d` in it. -/
def writtenFs (B : Blake3) (base : Shard.Path) (d : Bytes) : Fs Shard.Path UInt8 :=
  (emptyFs.create (tmpPath base (Cid.fromData B d))).writeAt 0 0 d

/-- Both puts miss the filter; the first writes and closes its temporary file. -/
def writeFirst (d : Bytes) : List Label :=
  [.invoke 0 (.put d), .invoke 1 (.put d), next d 0, next d 1, next d 0, next d 0, next d 0]

theorem path_writeFirst (some_ : d ≠ []) :
    Path (step B exactBloom base) (fun u a => OnlyPuts d u a ∧ OpensApart u a) opened (writeFirst d)
      ⟨storeOf (writtenFs B base d) [] (Lru.empty 16), two (.putRename d) (.putOpen d)⟩ := by
  refine .cons ⟨rfl, trivial⟩ (invoke_zero (.put d)) ?_
  refine .cons ⟨rfl, trivial⟩ (invoke_one (.put d)) ?_
  refine .cons ⟨rfl, trivial⟩ (step_zero rfl) ?_
  refine .cons ⟨rfl, trivial⟩ (step_one rfl) ?_
  refine .cons ⟨rfl, ?_⟩ (step_zero rfl) ?_
  · intro j
    match j with
    | 0 => exact id
    | 1 => exact id
    | _ + 2 => exact id
  refine .cons ⟨rfl, trivial⟩ (step_zero (advance_writeAll some_)) ?_
  exact .cons ⟨rfl, trivial⟩ (step_zero advance_close) (.nil _)

theorem dir_writtenFs : (writtenFs B base d).dir (tmpPath base (Cid.fromData B d)) = some 0 :=
  Function.update_self _ _ _

theorem dir_writtenFs_shardPath (cid : Cid) : (writtenFs B base d).dir (shardPath base cid) = none :=
  Function.update_of_ne (tmpPath_ne_shardPath base _ cid).symm _ _

def moved (B : Blake3) (base : Shard.Path) (d : Bytes) (fs : Fs Shard.Path UInt8)
    (named : fs.dir (tmpPath base (Cid.fromData B d)) = some 0) : Fs Shard.Path UInt8 :=
  fs.move (tmpPath base (Cid.fromData B d)) (shardPath base (Cid.fromData B d)) 0
    (fs.linked _ _ named)

theorem advance_rename {fs : Fs Shard.Path UInt8} {known : List Cid} {cache : Lru Cid Bytes}
    (named : fs.dir (tmpPath base (Cid.fromData B d)) = some 0)
    (absent : fs.dir (shardPath base (Cid.fromData B d)) = none) :
    advance B exactBloom base (storeOf fs known cache) ⟨d.length, none⟩ (.putRename d) =
      some (storeOf (moved B base d fs named) known cache, .putInsert d) := by
  have apart : fs.dir (shardPath base (Cid.fromData B d)) ≠ some 0 := by
    rw [absent]
    exact (Option.some_ne_none 0).symm
  simp only [advance, storeOf, rename_of_some named apart]
  rfl

theorem path_finishFirst (some_ : d ≠ []) :
    Path (step B exactBloom base) (fun u a => OnlyPuts d u a ∧ OpensApart u a) opened
      (writeFirst d ++ [next d 0, next d 0, next d 0, next d 0])
      ⟨storeOf (moved B base d (writtenFs B base d) dir_writtenFs) [Cid.fromData B d]
          ((Lru.empty 16).put (Cid.fromData B d) d),
        two (.putDone d (.ok (Cid.fromData B d))) (.putOpen d)⟩ := by
  refine (path_writeFirst some_).append ?_
  refine .cons ⟨rfl, trivial⟩
    (step_zero (advance_rename dir_writtenFs (dir_writtenFs_shardPath _))) ?_
  refine .cons ⟨rfl, trivial⟩ (step_zero rfl) ?_
  refine .cons ⟨rfl, trivial⟩ (step_zero rfl) ?_
  exact .cons ⟨rfl, trivial⟩ (step_zero rfl) (.nil _)

theorem ready_opened : Ready B d base opened := by
  refine ⟨?_, ?_, ?_, ?_⟩
  · intro i
    match i with
    | 0 => rfl
    | 1 => rfl
    | _ + 2 => rfl
  · intro _ _ found
    cases found
  · intro _ _ found
    cases found
  · intro _ _ cached
    cases cached

theorem first_put_intact :
    ∃ t, Reach (step Blake3.byLeading exactBloom ["objects"])
        (fun u a => OnlyPuts [1] u a ∧ OpensApart u a) opened t ∧
      t.calls = two (.putDone [1] (.ok (Cid.fromData Blake3.byLeading [1]))) (.putOpen [1]) ∧
      Intact Blake3.byLeading [1] ["objects"] t ∧
      PutsMove Blake3.byLeading ["objects"] exactBloom t := by
  have path : Path (step Blake3.byLeading exactBloom ["objects"])
      (fun u a => OnlyPuts [1] u a ∧ OpensApart u a) opened _ _ := path_finishFirst (by decide)
  exact ⟨_, path.reach, rfl, identical_puts_intact ready_opened path.reach⟩

/-- The second put opens, and so empties, the file the first is about to rename. -/
def overlap (d : Bytes) : List Label := writeFirst d ++ [next d 1, next d 0]

def tooLate (d : Bytes) : List Label := [next d 1, next d 1, next d 1, next d 1]

def emptiedFs (B : Blake3) (base : Shard.Path) (d : Bytes) : Fs Shard.Path UInt8 :=
  (writtenFs B base d).setData 0 []

theorem dir_emptiedFs : (emptiedFs B base d).dir (tmpPath base (Cid.fromData B d)) = some 0 :=
  dir_writtenFs

def overlapped (B : Blake3) (base : Shard.Path) (d : Bytes) : State (List Cid) :=
  ⟨storeOf (moved B base d (emptiedFs B base d) dir_emptiedFs) [] (Lru.empty 16),
    two (.putInsert d) (.putWrite d 0 0)⟩

theorem path_overlap (some_ : d ≠ []) :
    Path (step B exactBloom base) (OnlyPuts d) opened (overlap d) (overlapped B base d) := by
  have reopened : advance B exactBloom base (storeOf (writtenFs B base d) [] (Lru.empty 16))
      ⟨d.length, none⟩ (.putOpen d) =
      some (storeOf (emptiedFs B base d) [] (Lru.empty 16), .putWrite d 0 0) := by
    simp only [advance, storeOf, openTruncate, dir_writtenFs]
    rfl
  refine ((path_writeFirst some_).mono fun _ _ both => both.1).append ?_
  refine .cons rfl (step_one reopened) ?_
  exact .cons rfl (step_zero (advance_rename dir_emptiedFs (dir_writtenFs_shardPath _))) (.nil _)

theorem content_overlapped :
    (overlapped B base d).shared.fs.content (shardPath base (Cid.fromData B d)) = some [] := by
  have named : (moved B base d (emptiedFs B base d) dir_emptiedFs).dir
      (shardPath base (Cid.fromData B d)) = some 0 :=
    dir_move_dst ((emptiedFs B base d).linked _ _ dir_emptiedFs)
      (tmpPath_ne_shardPath base _ _).symm
  have empty : (emptiedFs B base d).data 0 = [] := data_setData _ 0 []
  simp only [content, overlapped, storeOf, named]
  exact congrArg some empty

theorem path_lateRename {fs : Fs Shard.Path UInt8} {known : List Cid} {cache : Lru Cid Bytes}
    {a : Task} (gone : fs.dir (tmpPath base (Cid.fromData B d)) = none) :
    Path (step B exactBloom base) (OnlyPuts d) ⟨storeOf fs known cache, two a (.putRename d)⟩
      [next d 1, next d 1]
      ⟨storeOf fs known cache, two a (.putDone d (.error (.ioError notFound)))⟩ := by
  have missed : advance B exactBloom base (storeOf fs known cache) ⟨d.length, none⟩ (.putRename d) =
      some (storeOf fs known cache, .putCleanUp d notFound) := by
    simp only [advance, storeOf, rename_of_none gone]
  have cleaned : advance B exactBloom base (storeOf fs known cache) ⟨d.length, none⟩
      (.putCleanUp d notFound) =
      some (storeOf fs known cache, .putDone d (.error (.ioError notFound))) := by
    simp only [advance, storeOf, unlink, gone]
  exact .cons rfl (step_one missed) (.cons rfl (step_one cleaned) (.nil _))

theorem path_tooLate (some_ : d ≠ []) :
    Path (step B exactBloom base) (OnlyPuts d) (overlapped B base d) (tooLate d)
      ⟨storeOf ((moved B base d (emptiedFs B base d) dir_emptiedFs).writeAt 0 0 d) [] (Lru.empty 16),
        two (.putInsert d) (.putDone d (.error (.ioError notFound)))⟩ := by
  refine .cons rfl (step_one (advance_writeAll some_)) ?_
  refine .cons rfl (step_one advance_close) ?_
  exact path_lateRename (dir_move_src ((emptiedFs B base d).linked _ _ dir_emptiedFs))

/-- Two overlapping puts of one byte: the object's file appears empty, and the
second put fails. -/
theorem overlapping_puts_torn :
    ∃ s t, Path (step Blake3.byLeading exactBloom ["objects"]) (OnlyPuts [1]) opened (overlap [1]) s ∧
      s.shared.fs.content (shardPath ["objects"] (Cid.fromData Blake3.byLeading [1])) = some [] ∧
      Path (step Blake3.byLeading exactBloom ["objects"]) (OnlyPuts [1]) s (tooLate [1]) t ∧
      t.calls 1 = .putDone [1] (.error (.ioError notFound)) :=
  ⟨_, _, path_overlap (by decide), content_overlapped, path_tooLate (by decide), rfl⟩

end Craftec.Obj.IdenticalPuts
