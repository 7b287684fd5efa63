/- GID: Craftec/Obj/Session
   generality: I
   digest: One caller's calls with failing file steps, stops and reopenings, and the files they leave. -/

import Mathlib
import Craftec.Library.InodeFs
import Craftec.Obj.Refinement
import Craftec.Obj.Sequential
import Craftec.Obj.Shard
import Craftec.Obj.Store
import Craftec.Types.Digest

set_option autoImplicit false
set_option relaxedAutoImplicit false

namespace Craftec.Obj.Session

open Craftec.Library.InodeFs (Fs)
open Craftec.Library.InodeFs.Fs (dir_move_of_ne dir_move_src dir_openTruncate dir_openTruncate_of_ne
  of_rename of_unlink unlink_of_some)
open Craftec.Obj.Refinement (Shards)
open Craftec.Obj.Sequential (new)
open Craftec.Obj.Shard (ReadDir shardPath tmpPath tmpPath_eq tmpPath_ne_shardPath)
open Craftec.Obj.Store (Bloom Call Choice OsError Shared Task advance advance_turn)
open Craftec.Types.Digest (Bytes Blake3 Cid)

/-- The process that has the store open: the store and the one call that may be under way. -/
structure Process (F : Type) where
  shared : Shared F
  task : Task

/-- A reopening may come at any time: the process has stopped where it was. -/
inductive Move where
  | start (call : Call)
  | advance (choice : Choice)
  | reopen (readDir : ReadDir) (capacity : ℕ+)

def resting : Task → Bool
  | .idle | .putDone _ _ | .getDone _ _ | .deleteDone _ _ => true
  | _ => false

section Model

variable (B : Blake3) {F : Type} (bloom : Bloom F) (base : Shard.Path) (blank : F)

def processStep (s : Process F) : Move → Option (Process F)
  | .start call => if resting s.task then some { s with task := call.start } else none
  | .advance choice => (advance B bloom base s.shared choice s.task).map fun next => ⟨next.1, next.2⟩
  | .reopen readDir capacity => some ⟨new bloom base blank readDir capacity s.shared.fs, .idle⟩

/-- The temporary file that the running put has made and still has to move or remove. -/
def heldTmp : Task → Option Shard.Path
  | .putWrite data _ _ | .putRename data | .putCleanUp data _ => some (tmpPath base (Cid.fromData B data))
  | _ => none

/-- No write into the temporary file fails, nor its removal after a failed rename, and the process
does not stop while a put has one. -/
def Tidy (s : Process F) : Move → Prop
  | .start _ => True
  | .advance choice =>
    match s.task with
    | .putWrite data _ off => data.length ≤ off ∨ choice.fault = none
    | .putCleanUp _ _ => choice.fault = none
    | _ => True
  | .reopen _ _ => heldTmp B base s.task = none

/-- The names in use in the shard directories. -/
def filesIn (fs : Fs Shard.Path UInt8) : Set Shard.Path := {p | Shards base p ∧ (fs.dir p).isSome}

/-- Every file is an object or the temporary file of the running put, which has no other name and
is the file the put writes to. -/
structure Inv (s : Process F) : Prop where
  names : ∀ p ∈ filesIn base s.shared.fs, (∃ cid, p = shardPath base cid) ∨ heldTmp B base s.task = some p
  own : ∀ p, heldTmp B base s.task = some p →
    ∃ ino, s.shared.fs.dir p = some ino ∧ ∀ q, s.shared.fs.dir q = some ino → q = p
  opened : ∀ data ino off, s.task = .putWrite data ino off →
    s.shared.fs.dir (tmpPath base (Cid.fromData B data)) = some ino
  finite : (filesIn base s.shared.fs).Finite

end Model

variable {B : Blake3} {F : Type} {bloom : Bloom F} {base : Shard.Path} {blank : F}

section Files

theorem shards_tmpPath (cid : Cid) : Shards base (tmpPath base cid) := tmpPath_eq base cid

theorem finite_filesIn {fs after : Fs Shard.Path UInt8} (finite : (filesIn base fs).Finite)
    (new : Shard.Path)
    (known : ∀ q, q ≠ new → (after.dir q).isSome → (fs.dir q).isSome) : (filesIn base after).Finite := by
  refine (finite.insert new).subset ?_
  rintro q ⟨inside, there⟩
  rcases eq_or_ne q new with rfl | other
  · exact Set.mem_insert _ _
  · exact Set.mem_insert_of_mem _ ⟨inside, known q other there⟩

theorem Inv.held_of_there {s : Process F} (inv : Inv B base s) {cid : Cid}
    (there : (s.shared.fs.dir (tmpPath base cid)).isSome) :
    heldTmp B base s.task = some (tmpPath base cid) := by
  rcases inv.names _ ⟨shards_tmpPath cid, there⟩ with ⟨other, same⟩ | held
  · exact absurd same (tmpPath_ne_shardPath base cid other)
  · exact held

theorem Inv.no_tmp {s : Process F} (inv : Inv B base s) (free : heldTmp B base s.task = none) (cid : Cid) :
    s.shared.fs.dir (tmpPath base cid) = none := by
  cases named : s.shared.fs.dir (tmpPath base cid) with
  | none => rfl
  | some ino =>
    have there : (s.shared.fs.dir (tmpPath base cid)).isSome := by
      rw [named]
      rfl
    have held := inv.held_of_there there
    rw [free] at held
    cases held

theorem Inv.tmp_apart {s : Process F} (inv : Inv B base s) {cid : Cid} {q : Shard.Path}
    (other : q ≠ tmpPath base cid) {ino : ℕ} (named : s.shared.fs.dir q = some ino) :
    s.shared.fs.dir (tmpPath base cid) ≠ some ino := by
  intro linked
  have there : (s.shared.fs.dir (tmpPath base cid)).isSome := by
    rw [linked]
    rfl
  have held := inv.held_of_there there
  obtain ⟨ino', first, only⟩ := inv.own _ held
  rw [linked] at first
  cases first
  exact other (only q named)

theorem heldTmp_of_resting {task : Task} (rest : resting task = true) : heldTmp B base task = none := by
  cases task with
  | putWrite | putRename | putCleanUp => cases rest
  | _ => rfl

end Files

section Steps

theorem Inv.of_same {s t : Process F} (inv : Inv B base s) (names : t.shared.fs.dir = s.shared.fs.dir)
    (held : heldTmp B base t.task = heldTmp B base s.task)
    (opened : ∀ data ino off, t.task = .putWrite data ino off →
      s.shared.fs.dir (tmpPath base (Cid.fromData B data)) = some ino) : Inv B base t := by
  have files : filesIn base t.shared.fs = filesIn base s.shared.fs := by
    unfold filesIn
    rw [names]
  refine ⟨?_, ?_, ?_, ?_⟩
  · rw [files, held]
    exact inv.names
  · rw [names, held]
    exact inv.own
  · rw [names]
    exact opened
  · rw [files]
    exact inv.finite

theorem Inv.opens {s : Process F} (inv : Inv B base s) {data : Bytes} (called : s.task = .putOpen data) :
    Inv B base ⟨{ s.shared with fs := (s.shared.fs.openTruncate (tmpPath base (Cid.fromData B data))).1 },
      .putWrite data (s.shared.fs.openTruncate (tmpPath base (Cid.fromData B data))).2 0⟩ := by
  have free : heldTmp B base s.task = none := by
    rw [called]
    rfl
  have missing := inv.no_tmp free (Cid.fromData B data)
  refine ⟨?_, ?_, ?_, ?_⟩
  · rintro p ⟨inside, there⟩
    rcases eq_or_ne p (tmpPath base (Cid.fromData B data)) with rfl | other
    · exact .inr rfl
    · rw [dir_openTruncate_of_ne other] at there
      left
      rcases inv.names p ⟨inside, there⟩ with object | held
      · exact object
      · rw [free] at held
        cases held
  · rintro p held
    obtain rfl : tmpPath base (Cid.fromData B data) = p := Option.some.inj held
    refine ⟨_, dir_openTruncate _ _, ?_⟩
    intro q named
    by_contra other
    rw [dir_openTruncate_of_ne other] at named
    -- the inode is new, so nothing else can name it
    unfold Fs.openTruncate at named
    rw [missing] at named
    exact absurd (s.shared.fs.linked q _ named) (Nat.lt_irrefl _)
  · rintro d ino off writing
    cases writing
    exact dir_openTruncate _ _
  · refine finite_filesIn inv.finite (tmpPath base (Cid.fromData B data)) fun q other there => ?_
    rwa [dir_openTruncate_of_ne other] at there

theorem Inv.renames {s : Process F} (inv : Inv B base s) {data : Bytes} {fs : Fs Shard.Path UInt8}
    (called : s.task = .putRename data)
    (renamed : s.shared.fs.rename (tmpPath base (Cid.fromData B data))
      (shardPath base (Cid.fromData B data)) = some fs) :
    Inv B base ⟨{ s.shared with fs := fs }, .putInsert data⟩ := by
  have apart : shardPath base (Cid.fromData B data) ≠ tmpPath base (Cid.fromData B data) :=
    (tmpPath_ne_shardPath base _ _).symm
  have held : heldTmp B base s.task = some (tmpPath base (Cid.fromData B data)) := by
    rw [called]
    rfl
  obtain ⟨ino, named, only⟩ := inv.own _ held
  obtain ⟨ino', named', ⟨linked, -⟩ | ⟨used, rfl⟩⟩ := of_rename renamed
  · rw [named] at named'
    cases named'
    exact absurd (only _ linked) apart
  · refine ⟨?_, ?_, ?_, ?_⟩
    · rintro p ⟨inside, there⟩
      left
      rcases eq_or_ne p (shardPath base (Cid.fromData B data)) with rfl | notDst
      · exact ⟨_, rfl⟩
      · rcases eq_or_ne p (tmpPath base (Cid.fromData B data)) with rfl | notSrc
        · rw [dir_move_src] at there
          cases there
        · rw [dir_move_of_ne used notSrc notDst] at there
          rcases inv.names p ⟨inside, there⟩ with object | mine
          · exact object
          · rw [held] at mine
            exact absurd (Option.some.inj mine).symm notSrc
    · intro p mine
      cases mine
    · intro d ino off writing
      cases writing
    · refine finite_filesIn inv.finite (shardPath base (Cid.fromData B data)) fun q other there => ?_
      rcases eq_or_ne q (tmpPath base (Cid.fromData B data)) with rfl | notSrc
      · rw [dir_move_src] at there
        cases there
      · rwa [dir_move_of_ne used notSrc other] at there

theorem Inv.removes {s : Process F} (inv : Inv B base s) {p : Shard.Path} {fs : Fs Shard.Path UInt8}
    {task : Task} (removed : s.shared.fs.unlink p = some fs)
    (done : heldTmp B base task = none) (held : ∀ q, heldTmp B base s.task = some q → q = p) :
    Inv B base ⟨{ s.shared with fs := fs }, task⟩ := by
  have names := (of_unlink removed).2.1
  have gone : fs.dir p = none := by rw [names, Function.update_self]
  have kept {q : Shard.Path} (other : q ≠ p) : fs.dir q = s.shared.fs.dir q := by
    rw [names, Function.update_of_ne other]
  refine ⟨?_, ?_, ?_, ?_⟩
  · rintro q ⟨inside, there⟩
    left
    rcases eq_or_ne q p with rfl | other
    · rw [gone] at there
      cases there
    · rw [kept other] at there
      rcases inv.names q ⟨inside, there⟩ with object | mine
      · exact object
      · exact absurd (held q mine) other
  · intro q mine
    rw [done] at mine
    cases mine
  · rintro data ino off rfl
    cases done
  · refine finite_filesIn inv.finite p fun q other there => ?_
    rwa [kept other] at there

theorem Inv.there {s : Process F} (inv : Inv B base s) {p : Shard.Path}
    (held : heldTmp B base s.task = some p) : (s.shared.fs.dir p).isSome := by
  obtain ⟨ino, named, -⟩ := inv.own p held
  rw [named]
  rfl

theorem Inv.cleansUp {s : Process F} (inv : Inv B base s) {data : Bytes} {e : OsError} {choice : Choice}
    (called : s.task = .putCleanUp data e) (quiet : choice.fault = none) {after : Shared F} {t : Task}
    (moved : advance B bloom base s.shared choice s.task = some (after, t)) : Inv B base ⟨after, t⟩ := by
  have held : heldTmp B base s.task = some (tmpPath base (Cid.fromData B data)) := by
    rw [called]
    rfl
  obtain ⟨fs, removed, -⟩ := unlink_of_some (inv.there held)
  rw [called] at moved
  simp only [advance, quiet, removed] at moved
  cases moved
  refine inv.removes removed rfl fun q mine => ?_
  rw [held] at mine
  exact (Option.some.inj mine).symm

theorem Inv.advance {s : Process F} (inv : Inv B base s) {choice : Choice}
    (tidy : Tidy B base s (.advance choice)) {after : Shared F} {t : Task}
    (moved : advance B bloom base s.shared choice s.task = some (after, t)) : Inv B base ⟨after, t⟩ := by
  obtain ⟨shared, task⟩ := s
  cases advance_turn B bloom base moved with
  | opens data => exact inv.opens rfl
  | renames data fs renamed => exact inv.renames rfl renamed
  | removes cid fs removed => exact inv.removes removed rfl (by intro q mine; cases mine)
  | cleansUp | leaves => exact inv.cleansUp rfl tidy moved
  | writeFails data ino off e fails =>
    rcases tidy with written | quiet
    · simp only [Store.advance, written, if_true] at moved
      cases moved
    · rw [fails] at quiet
      cases quiet
  | writes data ino off left moves =>
    refine inv.of_same rfl rfl ?_
    rintro d i o writing
    cases writing
    exact inv.opened data ino off rfl
  | _ => exact inv.of_same rfl rfl (by intro data ino off writing; cases writing)

theorem inv_step {s t : Process F} {move : Move} (inv : Inv B base s) (tidy : Tidy B base s move)
    (taken : processStep B bloom base blank s move = some t) : Inv B base t := by
  cases move with
  | start call =>
    simp only [processStep] at taken
    split at taken
    · rename_i rest
      cases taken
      refine inv.of_same rfl ?_ ?_
      · rw [heldTmp_of_resting rest]
        cases call <;> rfl
      · intro data ino off writing
        cases call <;> cases writing
    · cases taken
  | advance choice =>
    obtain ⟨next, moved, rfl⟩ := Option.map_eq_some_iff.mp taken
    exact inv.advance tidy moved
  | reopen readDir capacity =>
    cases taken
    refine inv.of_same rfl tidy.symm ?_
    intro data ino off writing
    cases writing

end Steps

end Craftec.Obj.Session
