/- GID: Craftec/Obj/Integrity
   generality: I
   digest: Every object a get returns hashes to its identifier, whatever happens to the files. -/

import Mathlib
import Craftec.Library.InodeFs
import Craftec.Library.RecentCache
import Craftec.Library.Run
import Craftec.Obj.Refinement
import Craftec.Obj.Sequential
import Craftec.Obj.Shard
import Craftec.Obj.Store
import Craftec.Types.Digest

set_option autoImplicit false
set_option relaxedAutoImplicit false

namespace Craftec.Obj.Integrity

open Craftec.Library.InodeFs (Fs)
open Craftec.Library.InodeFs.Fs (content_eq data_writeFile dir_writeFile)
open Craftec.Library.RecentCache (Lru)
open Craftec.Library.Run (Reach anyStep reach_step)
open Craftec.Obj.IdenticalPuts (emptyFs)
open Craftec.Obj.Refinement (sample sureBloom)
open Craftec.Obj.Sequential (reach_getCall)
open Craftec.Obj.Shard (shardPath)
open Craftec.Obj.Store (Bloom Call Choice Label Shared State Task advance advance_turn cache_advance
  call_step fills of_step_advance of_step_invoke readError step verifyRead)
open Craftec.Types.Digest (Bytes Blake3 Cid)

/-- A step of the store's calls, or somebody else changing any of the files. -/
inductive Event where
  | call (label : Label)
  | modify (fs : Fs Shard.Path UInt8)

section

variable (B : Blake3) {F : Type} (bloom : Bloom F) (base : Shard.Path)

def exposedStep (s : State F) : Event → Option (State F)
  | .call label => step B bloom base s label
  | .modify fs => some { s with shared := { s.shared with fs := fs } }

/-- A store as `new` returns it: nothing cached and no call made. -/
structure Opened (s : State F) : Prop where
  quiet : ∀ i, s.calls i = .idle
  cold : s.shared.cache.entries = []

def Genuine (e : Cid × Bytes) : Prop := Cid.fromData B e.2 = e.1

def TaskGenuine : Task → Prop
  | .getKeep cid bytes | .getDone cid (.ok (some bytes)) => Genuine B (cid, bytes)
  | _ => True

structure Inv (s : State F) : Prop where
  cached : ∀ e ∈ s.shared.cache.entries, Genuine B e
  tasks : ∀ i, TaskGenuine B (s.calls i)

end

variable {B : Blake3} {F : Type} {bloom : Bloom F} {base : Shard.Path}

theorem taskGenuine_readError (cid : Cid) (e : Store.OsError) :
    TaskGenuine B (.getDone cid (readError e)) := by
  unfold readError
  split <;> trivial

theorem taskGenuine_advance {s after : Shared F} {choice : Choice} {task t : Task}
    (cached : ∀ e ∈ s.cache.entries, Genuine B e) (ok : TaskGenuine B task)
    (moved : advance B bloom base s choice task = some (after, t)) : TaskGenuine B t := by
  cases advance_turn B bloom base moved with
  | keeps cid bytes => exact ok
  | hit cid cache bytes looked => exact cached _ (Lru.mem_of_get (congrArg Prod.snd looked))
  | getFails cid | getMissing cid | readFails cid => exact taskGenuine_readError cid _
  | verifies cid ino bytes ended right => exact right
  | _ => trivial

theorem genuine_of_fills {task : Task} {e : Cid × Bytes} (ok : TaskGenuine B task)
    (filled : fills B task = some e) : Genuine B e := by
  cases task with
  | putCache data =>
    cases filled
    rfl
  | getKeep cid bytes =>
    cases filled
    exact ok
  | _ => cases filled

theorem inv_step {s t : State F} {event : Event} (inv : Inv B s)
    (taken : exposedStep B bloom base s event = some t) : Inv B t := by
  cases event with
  | modify fs =>
    cases taken
    exact ⟨inv.cached, inv.tasks⟩
  | call label =>
    replace taken : step B bloom base s label = some t := taken
    refine ⟨?_, fun j => call_step taken (inv.tasks j) ?_ ?_⟩
    · intro e member
      cases label with
      | invoke i call =>
        obtain ⟨-, rfl⟩ := of_step_invoke taken
        exact inv.cached e member
      | advance i choice =>
        obtain ⟨shared, task, moved, rfl⟩ := of_step_advance taken
        rcases cache_advance moved member with before | filled
        · exact inv.cached e before
        · exact genuine_of_fills (inv.tasks i) filled
    · intro call _
      cases call <;> trivial
    · intro choice task _ moved
      exact taskGenuine_advance inv.cached (inv.tasks j) moved

theorem inv_opened {s : State F} (opened : Opened s) : Inv B s := by
  refine ⟨?_, ?_⟩
  · rw [opened.cold]
    intro e member
    cases member
  · intro i
    rw [opened.quiet]
    trivial

/-- Puts, gets and deletes in any interleaving, with any file changed by anybody at
any time: what a get returns hashes to the identifier asked for, and so does every
cached object to its key. -/
theorem get_returns_genuine {s t : State F} (opened : Opened s)
    (reach : Reach (exposedStep B bloom base) anyStep s t) :
    (∀ i cid bytes, t.calls i = .getDone cid (.ok (some bytes)) → Cid.fromData B bytes = cid) ∧
      ∀ cid bytes, (cid, bytes) ∈ t.shared.cache.entries → Cid.fromData B bytes = cid := by
  have inv : Inv B t := reach.invariant (inv_opened opened) fun _ _ _ inv _ taken => inv_step inv taken
  refine ⟨?_, fun cid bytes member => inv.cached _ member⟩
  intro i cid bytes returned
  have ok := inv.tasks i
  rwa [returned] at ok

theorem reach_calls {s t : State F} (reach : Reach (step B bloom base) anyStep s t) :
    Reach (exposedStep B bloom base) anyStep s t := by
  induction reach with
  | refl => exact Relation.ReflTransGen.refl
  | tail _ last ih =>
    obtain ⟨label, -, taken⟩ := last
    exact ih.tail ⟨.call label, trivial, taken⟩

/-! A file placed by hand is read, spoilt afterwards, and read again. -/

def placed (bytes : Bytes) : Fs Shard.Path UInt8 := emptyFs.writeFile (shardPath ["objects"] sample) bytes

theorem content_placed (bytes : Bytes) :
    (placed bytes).content (shardPath ["objects"] sample) = some bytes := by
  rw [placed, content_eq (dir_writeFile _ _ _), data_writeFile]

def cold (fs : Fs Shard.Path UInt8) : Shared Unit := ⟨fs, (), Lru.empty 1, false, []⟩

def warm (fs : Fs Shard.Path UInt8) : Shared Unit := ⟨fs, (), (Lru.empty 1).put sample [1], false, []⟩

theorem get_cold : Sequential.get Blake3.byLeading sureBloom ["objects"] (cold (placed [1])) sample =
    (warm (placed [1]), .ok (some [1])) := by
  have hashes : Cid.fromData Blake3.byLeading [1] = sample := rfl
  have missed : (cold (placed [1])).cache.get sample = (Lru.empty 1, none) := rfl
  have held : (cold (placed [1])).fs.content (shardPath ["objects"] sample) = some [1] :=
    content_placed [1]
  simp only [Sequential.get, missed, sureBloom, if_true, held, verifyRead, hashes, ne_eq,
    not_true_eq_false, if_false]
  rfl

theorem get_warm (fs : Fs Shard.Path UInt8) :
    ∃ after, Sequential.get Blake3.byLeading sureBloom ["objects"] (warm fs) sample =
      (⟨fs, (), after, false, []⟩, .ok (some [1])) := by
  have hit : ((warm fs).cache.get sample).2 = some [1] := by
    simp [warm, Lru.get, Lru.put, Lru.others, Lru.empty]
  unfold Sequential.get
  split
  · rename_i cache bytes found
    rw [found] at hit
    cases (hit : some bytes = some [1])
    exact ⟨cache, rfl⟩
  · rename_i missed
    rw [missed] at hit
    cases hit

theorem get_returns_genuine_of_spoilt_file :
    ∃ t : State Unit, Reach (exposedStep Blake3.byLeading sureBloom ["objects"]) anyStep
        ⟨cold emptyFs, fun _ => .idle⟩ t ∧
      t.shared.fs.content (shardPath ["objects"] sample) = some [2] ∧
      t.calls 1 = .getDone sample (.ok (some [1])) ∧ Cid.fromData Blake3.byLeading [1] = sample := by
  have appears : Reach (exposedStep Blake3.byLeading sureBloom ["objects"]) anyStep
      ⟨cold emptyFs, fun _ => .idle⟩ ⟨cold (placed [1]), fun _ => .idle⟩ :=
    reach_step (a := .modify (placed [1])) trivial rfl
  have spoils (calls : ℕ → Task) : Reach (exposedStep Blake3.byLeading sureBloom ["objects"]) anyStep
      ⟨warm (placed [1]), calls⟩ ⟨warm (placed [2]), calls⟩ :=
    reach_step (a := .modify (placed [2])) trivial rfl
  obtain ⟨cache, again⟩ := get_warm (placed [2])
  have run := ((appears.trans (reach_calls (reach_getCall (i := 0) (fun _ _ _ => trivial) rfl trivial get_cold))).trans (spoils _)).trans
    (reach_calls (reach_getCall (i := 1) (fun _ _ _ => trivial) rfl trivial again))
  exact ⟨_, run, content_placed [2], rfl,
    (get_returns_genuine ⟨fun _ => rfl, rfl⟩ run).1 1 sample [1] rfl⟩

end Craftec.Obj.Integrity
