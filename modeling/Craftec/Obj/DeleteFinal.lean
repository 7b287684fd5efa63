/- GID: Craftec/Obj/DeleteFinal
   generality: I
   digest: A deleted object stays deleted while no call caches it after its file is gone. -/

import Mathlib
import Craftec.Library.InodeFs
import Craftec.Library.RecentCache
import Craftec.Library.Run
import Craftec.Obj.Integrity
import Craftec.Obj.Refinement
import Craftec.Obj.Sequential
import Craftec.Obj.Shard
import Craftec.Obj.Store
import Craftec.Types.Digest

set_option autoImplicit false
set_option relaxedAutoImplicit false

namespace Craftec.Obj.DeleteFinal

open Craftec.Library.InodeFs (Fs)
open Craftec.Library.InodeFs.Fs (data_writeFile dir_writeFile isSome_content of_unlink unlink_of_some)
open Craftec.Library.RecentCache (Lru)
open Craftec.Library.Run (Path Reach)
open Craftec.Obj.IdenticalPuts (emptyFs)
open Craftec.Obj.Integrity (Opened cold get_warm placed warm)
open Craftec.Obj.Refinement (sample sureBloom)
open Craftec.Obj.Sequential (delete reach_advance reach_delete reach_getCall reach_invoke reach_move
  reach_read)
open Craftec.Obj.Shard (shardPath)
open Craftec.Obj.Store (Bloom Call Choice Label ObjError Shared State Task advance advance_turn
  cache_advance call_step fills name_advance notFound of_step_advance of_step_invoke readError step step_advance
  verifyRead)
open Craftec.Types.Digest (Bytes Blake3 Cid)

def InFlight : Task → Prop
  | .idle | .putDone _ _ | .getDone _ _ | .deleteDone _ _ => False
  | _ => True

section

variable (B : Blake3) (cid : Cid)

def Puts : Task → Prop
  | .putBloom data | .putMetadata data | .putOpen data | .putWrite data _ _ | .putRename data
  | .putCleanUp data _ | .putInsert data | .putCache data | .putPublish data =>
    Cid.fromData B data = cid
  | _ => False

def Unaware : Task → Prop
  | .getRead c _ _ | .getKeep c _ | .deleteEvict c => c ≠ cid
  | _ => True

def RemovedBy : Task → Prop
  | .deleteEvict c | .deleteDone c (.ok true) => c = cid
  | _ => False

def FoundNothing : Task → Prop
  | .getDone c result => c = cid → result = .ok none
  | _ => True

variable {F : Type}

def NoPut (_ : State F) : Label → Prop
  | .invoke _ (.put data) => Cid.fromData B data ≠ cid
  | _ => True

/-- Call `g` meets no error of the file system. -/
def Faultless (g : ℕ) (_ : State F) : Label → Prop
  | .advance i choice => i = g → choice.fault = none
  | .invoke _ _ => True

variable (base : Shard.Path)

def OnDisk (s : Shared F) : Prop := (s.fs.dir (shardPath base cid)).isSome

/-- An object is put into the cache only while its file is there, or while a delete
that has removed the file has still to evict the object. -/
def FillsPresent (s : State F) : Label → Prop
  | .advance i _ => ∀ e, fills B (s.calls i) = some e →
      OnDisk e.1 base s.shared ∨ ∃ j, s.calls j = .deleteEvict e.1
  | .invoke _ _ => True

def CacheBacked (s : State F) : Prop :=
  ∀ e ∈ s.shared.cache.entries, OnDisk e.1 base s.shared ∨ ∃ j, s.calls j = .deleteEvict e.1

structure Gone (s : State F) : Prop where
  absent : ¬ OnDisk cid base s.shared
  noPuts : ∀ j, ¬ Puts B cid (s.calls j)

/-- While nobody brings the file back, it is gone once delete `i` has removed it. -/
structure Removed (i : ℕ) (s : State F) : Prop where
  noPuts : ∀ j, ¬ Puts B cid (s.calls j)
  absent : RemovedBy cid (s.calls i) → ¬ OnDisk cid base s.shared

/-- The file is gone for good, and nothing of the object is left in memory. -/
structure Forgotten (s : State F) : Prop where
  gone : Gone B cid base s
  unaware : ∀ j, Unaware cid (s.calls j)
  uncached : ∀ bytes, (cid, bytes) ∉ s.shared.cache.entries

end

variable {B : Blake3} {F : Type} {bloom : Bloom F} {base : Shard.Path} {cid : Cid}
  {s after : Shared F} {choice : Choice} {task t : Task}

theorem puts_of_advance (moved : advance B bloom base s choice task = some (after, t))
    (now : Puts B cid t) : Puts B cid task := by
  cases advance_turn B bloom base moved with
  | seen | unseen | notThere | opens | closes | writes | renameFails | renameMissing | renames
  | inserts | caches => exact now
  | _ => exact now.elim

theorem unaware_advance (absent : ¬ OnDisk cid base s) (before : Unaware cid task)
    (moved : advance B bloom base s choice task = some (after, t)) : Unaware cid t := by
  cases advance_turn B bloom base moved with
  | getOpens c ino named =>
    rintro rfl
    exact absent (by rw [OnDisk, named]; rfl)
  | verifies | reads => exact before
  | removes c fs removed =>
    rintro rfl
    exact absent (of_unlink removed).1
  | _ => trivial

theorem onDisk_advance (noPut : ¬ Puts B cid task) (absent : ¬ OnDisk cid base s)
    (moved : advance B bloom base s choice task = some (after, t)) : ¬ OnDisk cid base after := by
  unfold OnDisk at absent ⊢
  rcases name_advance moved cid with same | ⟨-, -, none⟩ | ⟨data, rfl, key, -⟩
  · rwa [same]
  · rw [none]
    exact Bool.false_ne_true
  · exact (noPut key).elim

theorem noPuts_step {u v : State F} {label : Label} (noPuts : ∀ j, ¬ Puts B cid (u.calls j))
    (noPut : NoPut B cid u label) (taken : step B bloom base u label = some v) :
    ∀ j, ¬ Puts B cid (v.calls j) := by
  intro j
  refine call_step (P := fun task => ¬ Puts B cid task) taken (noPuts j) ?_ ?_
  · rintro call rfl
    cases call with
    | put data => exact noPut
    | get c | delete c => exact id
  · intro choice t _ moved now
    exact noPuts j (puts_of_advance moved now)

theorem absent_step {u v : State F} {label : Label} (gone : Gone B cid base u)
    (taken : step B bloom base u label = some v) : ¬ OnDisk cid base v.shared := by
  cases label with
  | invoke i call =>
    obtain ⟨-, rfl⟩ := of_step_invoke taken
    exact gone.absent
  | advance i choice =>
    obtain ⟨shared, next, moved, rfl⟩ := of_step_advance taken
    exact onDisk_advance (gone.noPuts i) gone.absent moved

theorem gone_step {u v : State F} {label : Label} (gone : Gone B cid base u)
    (noPut : NoPut B cid u label) (taken : step B bloom base u label = some v) :
    Gone B cid base v :=
  ⟨absent_step gone taken, noPuts_step gone.noPuts noPut taken⟩

theorem cacheBacked_step {u v : State F} {label : Label} (backed : CacheBacked base u)
    (present : FillsPresent B base u label) (taken : step B bloom base u label = some v) :
    CacheBacked base v := by
  cases label with
  | invoke i call =>
    obtain ⟨free, rfl⟩ := of_step_invoke taken
    intro e member
    refine (backed e member).imp id ?_
    rintro ⟨j, evicting⟩
    have other : j ≠ i := by
      rintro rfl
      rw [free] at evicting
      cases evicting
    exact ⟨j, (Function.update_of_ne other _ _).trans evicting⟩
  | advance i choice =>
    obtain ⟨shared, next, moved, rfl⟩ := of_step_advance taken
    intro e member
    -- before the step the object was on disk or about to be evicted, cached or not
    have before : OnDisk e.1 base u.shared ∨ ∃ j, u.calls j = .deleteEvict e.1 := by
      rcases cache_advance moved member with kept | filled
      · exact backed e kept
      · exact present e filled
    rcases before with there | ⟨j, evicting⟩
    · rcases name_advance moved e.1 with same | ⟨-, rfl, -⟩ | ⟨-, -, -, -, placed⟩
      · left
        unfold OnDisk at there ⊢
        rwa [same]
      · exact .inr ⟨i, Function.update_self _ _ _⟩
      · exact .inl placed
    · rcases eq_or_ne j i with rfl | other
      · -- the eviction itself
        rw [evicting] at moved
        cases moved
        have ne := (List.mem_filter.mp member).2
        simp at ne
      · exact .inr ⟨j, (Function.update_of_ne other _ _).trans evicting⟩

theorem removedBy_of_advance (moved : advance B bloom base s choice task = some (after, t))
    (now : RemovedBy cid t) : RemovedBy cid task ∨ ¬ OnDisk cid base after := by
  cases advance_turn B bloom base moved with
  | evicts c => exact .inl now
  | removes c fs removed =>
    right
    cases (now : c = cid)
    change ¬ (Fs.dir _ _).isSome = true
    rw [(of_unlink removed).2.1, Function.update_self]
    exact Bool.false_ne_true
  | deletes c result kept =>
    rcases result with e | _ | _
    · exact now.elim
    · exact now.elim
    · exact (kept rfl).elim
  | _ => exact now.elim

theorem removed_step {u v : State F} {label : Label} {i : ℕ} (removed : Removed B cid base i u)
    (noPut : NoPut B cid u label) (taken : step B bloom base u label = some v) :
    Removed B cid base i v := by
  refine ⟨noPuts_step removed.noPuts noPut taken, ?_⟩
  intro now
  have stays (before : RemovedBy cid (u.calls i)) : ¬ OnDisk cid base v.shared :=
    absent_step ⟨removed.absent before, removed.noPuts⟩ taken
  refine call_step (P := fun task => RemovedBy cid task → ¬ OnDisk cid base v.shared) taken stays ?_ ?_
    now
  · intro call _ begun
    cases call <;> exact begun.elim
  · intro choice t _ moved done
    exact (removedBy_of_advance moved done).elim stays id

theorem unaware_start (call : Call) : Unaware cid call.start := by
  cases call <;> trivial

theorem unaware_of_not_inFlight (returned : ¬ InFlight task) : Unaware cid task := by
  cases task with
  | idle | putDone | getDone | deleteDone => trivial
  | _ => exact (returned trivial).elim

theorem unaware_step {u v : State F} {label : Label} {j : ℕ} (gone : Gone B cid base u)
    (before : Unaware cid (u.calls j)) (taken : step B bloom base u label = some v) :
    Unaware cid (v.calls j) :=
  call_step taken before (fun call _ => unaware_start call)
    fun _ _ _ moved => unaware_advance gone.absent before moved

theorem forgotten_step {u v : State F} {label : Label} (forgotten : Forgotten B cid base u)
    (noPut : NoPut B cid u label) (taken : step B bloom base u label = some v) :
    Forgotten B cid base v := by
  refine ⟨gone_step forgotten.gone noPut taken,
    fun j => unaware_step forgotten.gone (forgotten.unaware j) taken, ?_⟩
  cases label with
  | invoke i call =>
    obtain ⟨-, rfl⟩ := of_step_invoke taken
    exact forgotten.uncached
  | advance i choice =>
    obtain ⟨shared, next, moved, rfl⟩ := of_step_advance taken
    intro bytes member
    rcases cache_advance moved member with kept | filled
    · exact forgotten.uncached bytes kept
    · have noPuts := forgotten.gone.noPuts i
      have unaware := forgotten.unaware i
      cases here : u.calls i with
      | putCache data =>
        rw [here] at filled noPuts
        exact noPuts (congrArg Prod.fst (Option.some.inj filled))
      | getKeep c b =>
        rw [here] at filled unaware
        exact unaware (congrArg Prod.fst (Option.some.inj filled))
      | _ =>
        rw [here] at filled
        cases filled

theorem foundNothing_advance (absent : ¬ OnDisk cid base s) (unaware : Unaware cid task)
    (uncached : ∀ bytes, (cid, bytes) ∉ s.cache.entries) (quiet : choice.fault = none)
    (moved : advance B bloom base s choice task = some (after, t)) : FoundNothing cid t := by
  cases advance_turn B bloom base moved with
  | keeps c bytes => exact fun same => (unaware same).elim
  | hit c cache bytes looked =>
    rintro rfl
    exact (uncached _ (Lru.mem_of_get (congrArg Prod.snd looked))).elim
  | unknown c | getMissing c => exact fun _ => rfl
  | getFails c e fails | readFails c ino bytes e fails =>
    rw [quiet] at fails
    cases fails
  | rejects c ino bytes => exact fun same => (unaware same).elim
  | _ => trivial

theorem foundNothing_step {u v : State F} {label : Label} {g : ℕ}
    (forgotten : Forgotten B cid base u) (quiet : Faultless g u label)
    (before : FoundNothing cid (u.calls g)) (taken : step B bloom base u label = some v) :
    FoundNothing cid (v.calls g) := by
  refine call_step taken before ?_ ?_
  · intro call _
    cases call <;> trivial
  · rintro choice t rfl moved
    exact foundNothing_advance forgotten.gone.absent (forgotten.unaware g) forgotten.uncached
      (quiet rfl) moved

theorem cacheBacked_reach {u v : State F} (opened : Opened u)
    (reach : Reach (step B bloom base) (FillsPresent B base) u v) : CacheBacked base v := by
  have start : CacheBacked base u := by
    intro e member
    rw [opened.cold] at member
    cases member
  exact reach.invariant start fun _ _ _ backed present taken => cacheBacked_step backed present taken

theorem forgotten_after {a b q : State F} {i : ℕ}
    (backed : CacheBacked base q) (begun : a.calls i = .deleteRemove cid)
    (alone : ∀ j, ¬ Puts B cid (a.calls j))
    (deleting : Reach (step B bloom base) (NoPut B cid) a b)
    (deleted : b.calls i = .deleteDone cid (.ok true))
    (settling : Reach (step B bloom base) (NoPut B cid) b q)
    (returned : ∀ j, InFlight (b.calls j) → ¬ InFlight (q.calls j)) :
    Forgotten B cid base q := by
  have removed : Removed B cid base i b := by
    refine deleting.invariant ⟨alone, ?_⟩ fun _ _ _ held noPut taken => removed_step held noPut taken
    rw [begun]
    exact False.elim
  have gone : Gone B cid base b := by
    refine ⟨removed.absent ?_, removed.noPuts⟩
    rw [deleted]
    rfl
  -- calls that begin from `b` on never see the file
  have late : Gone B cid base q ∧ ∀ j, ¬ InFlight (b.calls j) → Unaware cid (q.calls j) := by
    refine @Reach.invariant _ _ _ _
      (fun u => Gone B cid base u ∧ ∀ j, ¬ InFlight (b.calls j) → Unaware cid (u.calls j)) _ _
      settling ⟨gone, fun j idle => unaware_of_not_inFlight idle⟩ ?_
    intro u label v held noPut taken
    exact ⟨gone_step held.1 noPut taken, fun j idle => unaware_step held.1 (held.2 j idle) taken⟩
  have unaware (j : ℕ) : Unaware cid (q.calls j) := by
    by_cases overlapped : InFlight (b.calls j)
    · exact unaware_of_not_inFlight (returned j overlapped)
    · exact late.2 j overlapped
  refine ⟨late.1, unaware, ?_⟩
  intro bytes member
  rcases backed _ member with there | ⟨j, evicting⟩
  · exact late.1.absent there
  · have aware := unaware j
    rw [evicting] at aware
    exact aware rfl

/-- In runs in which objects are cached only while their files are there, or while a
delete has still to evict them: with no call in flight every cached object has its
file; and once a delete has returned `true` and every call it overlapped has
returned, with no put of the object since it began, a get finds nothing. -/
theorem delete_final_of_fillsPresent {s₀ : State F} (opened : Opened s₀) :
    (∀ q, Reach (step B bloom base) (FillsPresent B base) s₀ q → (∀ i, ¬ InFlight (q.calls i)) →
      ∀ e ∈ q.shared.cache.entries, OnDisk e.1 base q.shared) ∧
    ∀ cid i g a b q u result, Reach (step B bloom base) (FillsPresent B base) s₀ a →
      a.calls i = .deleteRemove cid → (∀ j, ¬ Puts B cid (a.calls j)) →
      Reach (step B bloom base) (fun v l => FillsPresent B base v l ∧ NoPut B cid v l) a b →
      b.calls i = .deleteDone cid (.ok true) →
      Reach (step B bloom base) (fun v l => FillsPresent B base v l ∧ NoPut B cid v l) b q →
      (∀ j, InFlight (b.calls j) → ¬ InFlight (q.calls j)) → q.calls g = .idle →
      Reach (step B bloom base) (fun v l => NoPut B cid v l ∧ Faultless g v l) q u →
      u.calls g = .getDone cid result → result = .ok none := by
  refine ⟨?_, ?_⟩
  · intro q reach quiet e member
    rcases cacheBacked_reach opened reach e member with there | ⟨j, evicting⟩
    · exact there
    · have busy := quiet j
      rw [evicting] at busy
      exact (busy trivial).elim
  · intro cid i g a b q u result start begun alone deleting deleted settling returned free run answered
    have fills (v w : State F) (reach : Reach (step B bloom base)
        (fun v l => FillsPresent B base v l ∧ NoPut B cid v l) v w) :=
      reach.mono fun _ _ both => both.1
    have noPuts (v w : State F) (reach : Reach (step B bloom base)
        (fun v l => FillsPresent B base v l ∧ NoPut B cid v l) v w) :=
      reach.mono fun _ _ both => both.2
    have backed : CacheBacked base q :=
      cacheBacked_reach opened ((start.trans (fills a b deleting)).trans (fills b q settling))
    have forgotten := forgotten_after backed begun alone (noPuts a b deleting) deleted
      (noPuts b q settling) returned
    have found : Forgotten B cid base u ∧ FoundNothing cid (u.calls g) := by
      refine @Reach.invariant _ _ _ _
        (fun v => Forgotten B cid base v ∧ FoundNothing cid (v.calls g)) _ _ run
        ⟨forgotten, by rw [free]; trivial⟩ ?_
      intro v label w held both taken
      exact ⟨forgotten_step held.1 both.1 taken, foundNothing_step held.1 both.2 held.2 taken⟩
    have nothing := found.2
    rw [answered] at nothing
    exact nothing rfl

/-! One object on disk, deleted by call 1. -/

def quietCalls : ℕ → Task := fun _ => .idle

theorem dir_placed : (placed [1]).dir (shardPath ["objects"] sample) = some 0 :=
  dir_writeFile emptyFs _ [1]

theorem delete_placed : ∃ fs, (placed [1]).unlink (shardPath ["objects"] sample) = some fs ∧
    fs.content (shardPath ["objects"] sample) = none := by
  have there : ((placed [1]).dir (shardPath ["objects"] sample)).isSome := by
    rw [dir_placed]
    rfl
  obtain ⟨fs, removed, gone, -⟩ := unlink_of_some there
  exact ⟨fs, removed, gone⟩

def Careful (u : State Unit) (label : Label) : Prop :=
  FillsPresent Blake3.byLeading ["objects"] u label ∧ NoPut Blake3.byLeading sample u label ∧
    Faultless 2 u label

theorem reach_careful {s after : Shared Unit} {calls : ℕ → Task} {i n : ℕ} {t u : Task}
    (plain : fills Blake3.byLeading t = none)
    (moves : advance Blake3.byLeading sureBloom ["objects"] s ⟨n, none⟩ t = some (after, u)) :
    Reach (step Blake3.byLeading sureBloom ["objects"]) Careful
      ⟨s, Function.update calls i t⟩ ⟨after, Function.update calls i u⟩ := by
  refine reach_move (c := ⟨n, none⟩) ⟨?_, trivial, fun _ => rfl⟩ moves
  intro e filled
  change fills Blake3.byLeading (Function.update calls i t i) = some e at filled
  rw [Function.update_self, plain] at filled
  cases filled

def deletedCalls : ℕ → Task := Function.update quietCalls 1 (.deleteDone sample (.ok true))

theorem delete_final_of_fillsPresent_alone :
    ∃ b u : State Unit, b.calls 1 = .deleteDone sample (.ok true) ∧
      Reach (step Blake3.byLeading sureBloom ["objects"]) Careful
        ⟨cold (placed [1]), quietCalls⟩ b ∧
      Reach (step Blake3.byLeading sureBloom ["objects"]) Careful b u ∧
      ∃ result, u.calls 2 = .getDone sample result ∧ result = .ok none := by
  obtain ⟨fs, removed, gone⟩ := delete_placed
  have begun : Reach (step Blake3.byLeading sureBloom ["objects"]) Careful
      ⟨cold (placed [1]), quietCalls⟩
      ⟨cold (placed [1]), Function.update quietCalls 1 (.deleteRemove sample)⟩ :=
    reach_invoke (.delete sample) rfl ⟨trivial, trivial, trivial⟩
  have unlinked : Reach (step Blake3.byLeading sureBloom ["objects"]) Careful
      ⟨cold (placed [1]), Function.update quietCalls 1 (.deleteRemove sample)⟩
      ⟨cold fs, Function.update quietCalls 1 (.deleteEvict sample)⟩ :=
    reach_careful (n := 0) rfl (by simp only [advance, cold, removed])
  have deleted : Reach (step Blake3.byLeading sureBloom ["objects"]) Careful
      ⟨cold fs, Function.update quietCalls 1 (.deleteEvict sample)⟩
      ⟨cold fs, Function.update quietCalls 1 (.deleteDone sample (.ok true))⟩ :=
    reach_careful (n := 0) rfl rfl
  have asked : Reach (step Blake3.byLeading sureBloom ["objects"]) Careful
      ⟨cold fs, deletedCalls⟩ ⟨cold fs, Function.update deletedCalls 2 (.getCache sample)⟩ :=
    reach_invoke (.get sample) rfl ⟨trivial, trivial, trivial⟩
  have missed : Reach (step Blake3.byLeading sureBloom ["objects"]) Careful
      ⟨cold fs, Function.update deletedCalls 2 (.getCache sample)⟩
      ⟨cold fs, Function.update deletedCalls 2 (.getBloom sample)⟩ :=
    reach_careful (n := 0) rfl rfl
  have likely : Reach (step Blake3.byLeading sureBloom ["objects"]) Careful
      ⟨cold fs, Function.update deletedCalls 2 (.getBloom sample)⟩
      ⟨cold fs, Function.update deletedCalls 2 (.getOpen sample)⟩ :=
    reach_careful (n := 0) rfl rfl
  have absent : (cold fs).fs.dir (shardPath ["objects"] sample) = none := Option.map_eq_none_iff.mp gone
  have answered : Reach (step Blake3.byLeading sureBloom ["objects"]) Careful
      ⟨cold fs, Function.update deletedCalls 2 (.getOpen sample)⟩
      ⟨cold fs, Function.update deletedCalls 2 (.getDone sample (readError notFound))⟩ :=
    reach_careful (n := 0) rfl (by simp only [advance, absent])
  have run := ((asked.trans missed).trans likely).trans answered
  refine ⟨_, _, rfl, (begun.trans unlinked).trans deleted, run, readError notFound, rfl, ?_⟩
  refine (delete_final_of_fillsPresent (B := Blake3.byLeading) (F := Unit) ⟨fun _ => rfl, rfl⟩).2
    sample 1 2 _ _ _ _ _ (begun.mono fun _ _ both => both.1) rfl ?_
    (Reach.mono (unlinked.trans deleted) fun _ _ all => ⟨all.1, all.2.1⟩) rfl
    Relation.ReflTransGen.refl ?_ rfl (Reach.mono run fun _ _ all => all.2) rfl
  · intro j
    rcases j with _ | _ | j <;> exact id
  · intro j
    rcases j with _ | _ | j <;> exact False.elim

/-! The same object read by call 0 while call 1 deletes it. -/

def OnlyReads (u : State Unit) (label : Label) : Prop :=
  NoPut Blake3.byLeading sample u label ∧ Faultless 2 u label

theorem onlyReads_advance (i : ℕ) (u : State Unit) (c : Choice) (quiet : c.fault = none) :
    OnlyReads u (.advance i c) := ⟨trivial, fun _ => quiet⟩

theorem data_placed : (placed [1]).data 0 = [1] :=
  data_writeFile emptyFs (shardPath ["objects"] sample) [1]

theorem reach_keep : Reach (step Blake3.byLeading sureBloom ["objects"]) OnlyReads
    ⟨cold (placed [1]), quietCalls⟩
    ⟨cold (placed [1]), Function.update quietCalls 0 (.getKeep sample [1])⟩ := by
  have begun : Reach (step Blake3.byLeading sureBloom ["objects"]) OnlyReads
      ⟨cold (placed [1]), quietCalls⟩
      ⟨cold (placed [1]), Function.update quietCalls 0 (.getCache sample)⟩ :=
    reach_invoke (.get sample) rfl ⟨trivial, trivial⟩
  have missed : Reach (step Blake3.byLeading sureBloom ["objects"]) OnlyReads
      ⟨cold (placed [1]), Function.update quietCalls 0 (.getCache sample)⟩
      ⟨cold (placed [1]), Function.update quietCalls 0 (.getBloom sample)⟩ :=
    reach_advance (onlyReads_advance 0) (c := ⟨0, none⟩) rfl rfl
  have likely : Reach (step Blake3.byLeading sureBloom ["objects"]) OnlyReads
      ⟨cold (placed [1]), Function.update quietCalls 0 (.getBloom sample)⟩
      ⟨cold (placed [1]), Function.update quietCalls 0 (.getOpen sample)⟩ :=
    reach_advance (onlyReads_advance 0) (c := ⟨0, none⟩) rfl rfl
  have read : Reach (step Blake3.byLeading sureBloom ["objects"]) OnlyReads
      ⟨cold (placed [1]), Function.update quietCalls 0 (.getOpen sample)⟩ _ :=
    reach_read (onlyReads_advance 0) (cold (placed [1])) dir_placed
  have whole : verifyRead Blake3.byLeading sample ((cold (placed [1])).fs.data 0) =
      .getKeep sample [1] := by
    rw [show (cold (placed [1])).fs.data 0 = [1] from data_placed]
    exact if_neg (not_not.mpr rfl)
  rw [whole] at read
  exact ((begun.trans missed).trans likely).trans read

def held : ℕ → Task := Function.update quietCalls 0 (.getKeep sample [1])

/-- A get that overlaps a delete caches the object after its eviction: when both have
returned the object is cached without a file, and later gets return it. -/
theorem deleted_object_returned :
    ∃ a b q u : State Unit,
      Reach (step Blake3.byLeading sureBloom ["objects"]) OnlyReads ⟨cold (placed [1]), quietCalls⟩ a ∧
      a.calls 1 = .deleteRemove sample ∧ (∀ j, ¬ Puts Blake3.byLeading sample (a.calls j)) ∧
      Reach (step Blake3.byLeading sureBloom ["objects"]) OnlyReads a b ∧
      b.calls 1 = .deleteDone sample (.ok true) ∧
      Reach (step Blake3.byLeading sureBloom ["objects"]) OnlyReads b q ∧
      (∀ j, ¬ InFlight (q.calls j)) ∧ (sample, [1]) ∈ q.shared.cache.entries ∧
      ¬ OnDisk sample ["objects"] q.shared ∧ q.calls 2 = .idle ∧
      Reach (step Blake3.byLeading sureBloom ["objects"]) OnlyReads q u ∧
      u.calls 2 = .getDone sample (.ok (some [1])) := by
  obtain ⟨fs, removed, gone⟩ := delete_placed
  have deletes : delete ["objects"] (cold (placed [1])) sample = (cold fs, .ok true) := by
    simp only [delete, cold, removed]
    rfl
  obtain ⟨cache, again⟩ := get_warm fs
  have begun : Reach (step Blake3.byLeading sureBloom ["objects"]) OnlyReads
      ⟨cold (placed [1]), held⟩ ⟨cold (placed [1]), Function.update held 1 (.deleteRemove sample)⟩ :=
    reach_invoke (.delete sample) rfl ⟨trivial, trivial⟩
  have deleted : Reach (step Blake3.byLeading sureBloom ["objects"]) OnlyReads
      ⟨cold (placed [1]), Function.update held 1 (.deleteRemove sample)⟩ _ :=
    reach_delete (onlyReads_advance 1) (cold (placed [1])) sample
  rw [deletes] at deleted
  have kept : Reach (step Blake3.byLeading sureBloom ["objects"]) OnlyReads
      ⟨cold fs, Function.update (Function.update quietCalls 1 (.deleteDone sample (.ok true))) 0
        (.getKeep sample [1])⟩
      ⟨warm fs, Function.update (Function.update quietCalls 1 (.deleteDone sample (.ok true))) 0
        (.getDone sample (.ok (some [1])))⟩ :=
    reach_advance (onlyReads_advance 0) (c := ⟨0, none⟩) rfl rfl
  rw [Function.update_comm (by decide : (1 : ℕ) ≠ 0)] at kept
  refine ⟨_, _, _, _, reach_keep.trans begun, rfl, ?_, deleted, rfl, kept, ?_, ?_, ?_, rfl,
    reach_getCall (onlyReads_advance 2) rfl ⟨trivial, trivial⟩ again, rfl⟩
  · intro j
    rcases j with _ | _ | j <;> exact id
  · intro j
    rcases j with _ | _ | j <;> exact id
  · exact List.mem_cons_self
  · intro there
    rw [OnDisk, ← isSome_content] at there
    change (fs.content _).isSome = true at there
    rw [gone] at there
    cases there

end Craftec.Obj.DeleteFinal
