/- GID: Craftec/Obj/Established
   generality: I
   digest: What a put that returns Ok has established, whatever was in the directories before. -/

import Mathlib
import Craftec.Library.InodeFs
import Craftec.Library.RecentCache
import Craftec.Library.Run
import Craftec.Obj.IdenticalPuts
import Craftec.Obj.Integrity
import Craftec.Obj.Refinement
import Craftec.Obj.Sequential
import Craftec.Obj.Shard
import Craftec.Obj.Store
import Craftec.Types.Digest

set_option autoImplicit false
set_option relaxedAutoImplicit false

namespace Craftec.Obj.Established

open Craftec.Library.InodeFs (Fs overwrite_take)
open Craftec.Library.InodeFs.Fs (content_eq data_openTruncate data_writeAt dir_move_dst dir_openTruncate
  isSome_content of_rename)
open Craftec.Library.RecentCache (Lru)
open Craftec.Library.Run (Reach anyStep reach_step)
open Craftec.Obj.IdenticalPuts (emptyFs)
open Craftec.Obj.Integrity (Inv content_placed exposedStep inv_opened inv_step placed)
open Craftec.Obj.Refinement (NoFalseNegatives Refines listing refines_put refines_vacant sample sureBloom)
open Craftec.Obj.Sequential (get new reach_put)
open Craftec.Obj.Shard (ReadDir shardPath tmpPath tmpPath_ne_shardPath)
open Craftec.Obj.Store (Bloom Choice Label OsError Shared State Task advance advance_turn of_step_advance step
  verifyRead)
open Craftec.Types.Digest (Bytes Blake3 Cid)

/-- Only call `i` moves, and `metadata` answers with this error, or with none, if it asks. -/
def Alone {F : Type} (i : ℕ) (metadata : Option OsError) (s : State F) : Label → Prop
  | .invoke _ _ => False
  | .advance j choice => j = i ∧ ∀ data, s.calls i = .putMetadata data → choice.fault = metadata

/-- The file under the object's name is taken for the object: the filter has the identifier, the file
is there, and `metadata` says so. -/
def Takes (B : Blake3) {F : Type} (bloom : Bloom F) (base : Shard.Path) (data : Bytes)
    (metadata : Option OsError) (s : Shared F) : Prop :=
  bloom.probablyContains s.bloom (Cid.fromData B data) = true ∧ metadata = none ∧
    (s.fs.dir (shardPath base (Cid.fromData B data))).isSome

section Put

variable {B : Blake3} {F : Type} {bloom : Bloom F} {base : Shard.Path} {data : Bytes}
  {metadata : Option OsError} {first : Shared F}

/-- How far a put has come on a store that was at `first` when it began: the dedup check changes
nothing, and what is written afterwards is the data. -/
def Progress (B : Blake3) {F : Type} (bloom : Bloom F) (base : Shard.Path) (data : Bytes)
    (metadata : Option OsError) (first s : Shared F) : Task → Prop
  | .putBloom d => d = data ∧ s = first
  | .putMetadata d => d = data ∧ s = first ∧
    bloom.probablyContains first.bloom (Cid.fromData B data) = true
  | .putOpen d => d = data ∧ ¬ Takes B bloom base data metadata first ∧ s = first
  | .putWrite d ino off => d = data ∧ ¬ Takes B bloom base data metadata first ∧
    s.cache = first.cache ∧ off ≤ data.length ∧
    s.fs.dir (tmpPath base (Cid.fromData B data)) = some ino ∧ s.fs.data ino = data.take off
  | .putRename d => d = data ∧ ¬ Takes B bloom base data metadata first ∧ s.cache = first.cache ∧
    s.fs.content (tmpPath base (Cid.fromData B data)) = some data
  | .putInsert d => d = data ∧ ¬ Takes B bloom base data metadata first ∧ s.cache = first.cache ∧
    s.fs.content (shardPath base (Cid.fromData B data)) = some data
  | .putCache d => d = data ∧ ¬ Takes B bloom base data metadata first ∧ s.cache = first.cache ∧
    s.fs.content (shardPath base (Cid.fromData B data)) = some data ∧
    bloom.probablyContains s.bloom (Cid.fromData B data) = true
  | .putPublish d => d = data ∧ ¬ Takes B bloom base data metadata first ∧
    s.cache = first.cache.put (Cid.fromData B data) data ∧
    s.fs.content (shardPath base (Cid.fromData B data)) = some data ∧
    bloom.probablyContains s.bloom (Cid.fromData B data) = true
  | .putDone d (.ok _) => d = data ∧
    ((Takes B bloom base data metadata first ∧ s = first) ∨
      (¬ Takes B bloom base data metadata first ∧
        s.cache = first.cache.put (Cid.fromData B data) data ∧
        s.fs.content (shardPath base (Cid.fromData B data)) = some data ∧
        bloom.probablyContains s.bloom (Cid.fromData B data) = true))
  | .putDone _ (.error _) | .putCleanUp _ _ => True
  | _ => False

theorem advance_progress (sound : NoFalseNegatives bloom) {s after : Shared F} {choice : Choice}
    {task t : Task} (before : Progress B bloom base data metadata first s task)
    (answer : ∀ d, task = .putMetadata d → choice.fault = metadata)
    (moved : advance B bloom base s choice task = some (after, t)) :
    Progress B bloom base data metadata first after t := by
  cases advance_turn B bloom base moved with
  | seen d =>
    obtain ⟨rfl, rfl⟩ := before
    simp only [advance] at moved
    split at moved
    · rename_i likely
      exact ⟨rfl, rfl, likely⟩
    · cases moved
  | unseen d =>
    obtain ⟨rfl, rfl⟩ := before
    simp only [advance] at moved
    split at moved
    · cases moved
    · rename_i unlikely
      exact ⟨rfl, fun takes => unlikely takes.1, rfl⟩
  | there d quiet named =>
    obtain ⟨rfl, rfl, likely⟩ := before
    exact ⟨rfl, .inl ⟨⟨likely, (answer d rfl).symm.trans quiet, named⟩, rfl⟩⟩
  | notThere d =>
    obtain ⟨rfl, rfl, likely⟩ := before
    simp only [advance] at moved
    split at moved
    · cases moved
    · rename_i refused
      refine ⟨rfl, fun takes => refused ⟨?_, takes.2.2⟩, rfl⟩
      rw [answer d rfl, takes.2.1]
      rfl
  | openFails d e fails => trivial
  | opens d =>
    obtain ⟨rfl, writes, rfl⟩ := before
    exact ⟨rfl, writes, rfl, Nat.zero_le _, dir_openTruncate _ _, by
      rw [List.take_zero]; exact data_openTruncate _ _⟩
  | closes d ino off written =>
    obtain ⟨rfl, writes, cache, within, named, holds⟩ := before
    refine ⟨rfl, writes, cache, ?_⟩
    rw [content_eq named, holds, List.take_of_length_le written]
  | writeFails d ino off e fails => trivial
  | writes d ino off left moves =>
    obtain ⟨rfl, writes, cache, within, named, holds⟩ := before
    refine ⟨rfl, writes, cache, ?_, named, ?_⟩
    · rw [List.length_take, List.length_drop]
      omega
    · change (s.fs.writeAt ino off ((d.drop off).take choice.amount)).data ino = _
      rw [data_writeAt, holds, overwrite_take d choice.amount within]
  | renameFails d e fails => trivial
  | renameMissing d missing => trivial
  | renames d fs renamed =>
    obtain ⟨rfl, writes, cache, holds⟩ := before
    refine ⟨rfl, writes, cache, ?_⟩
    obtain ⟨ino, named, ⟨linked, rfl⟩ | ⟨used, rfl⟩⟩ := of_rename renamed
    · rw [content_eq named] at holds
      rw [content_eq linked, holds]
    · rw [content_eq named] at holds
      rw [content_eq (dir_move_dst used (tmpPath_ne_shardPath base _ _).symm)]
      exact holds
  | cleansUp d e fs removed => trivial
  | leaves d e => trivial
  | inserts d =>
    obtain ⟨rfl, writes, cache, holds⟩ := before
    exact ⟨rfl, writes, cache, holds, sound.inserted _ _⟩
  | caches d =>
    obtain ⟨rfl, writes, cache, holds, likely⟩ := before
    exact ⟨rfl, writes, congrArg (fun c : Lru Cid Bytes => c.put (Cid.fromData B d) d) cache, holds, likely⟩
  | publishes d =>
    obtain ⟨rfl, writes, cache, holds, likely⟩ := before
    exact ⟨rfl, .inr ⟨writes, cache, holds, likely⟩⟩
  | _ => exact before.elim

theorem step_progress (sound : NoFalseNegatives bloom) {i : ℕ} {s t : State F} {label : Label}
    (before : Progress B bloom base data metadata first s.shared (s.calls i))
    (alone : Alone i metadata s label) (taken : step B bloom base s label = some t) :
    Progress B bloom base data metadata first t.shared (t.calls i) := by
  cases label with
  | invoke j call => exact alone.elim
  | advance j choice =>
    obtain ⟨rfl, answer⟩ := alone
    obtain ⟨shared, task, moved, rfl⟩ := of_step_advance taken
    change Progress B bloom base data metadata first shared (Function.update s.calls j task j)
    rw [Function.update_self]
    exact advance_progress sound before answer moved

theorem progress_of_stored (sound : NoFalseNegatives bloom) {i : ℕ} {s t : State F} {cid : Cid}
    (called : s.calls i = .putBloom data) (alone : Reach (step B bloom base) (Alone i metadata) s t)
    (stored : t.calls i = .putDone data (.ok cid)) :
    (Takes B bloom base data metadata s.shared ∧ t.shared = s.shared) ∨
      (¬ Takes B bloom base data metadata s.shared ∧
        t.shared.cache = s.shared.cache.put (Cid.fromData B data) data ∧
        t.shared.fs.content (shardPath base (Cid.fromData B data)) = some data ∧
        bloom.probablyContains t.shared.bloom (Cid.fromData B data) = true) := by
  have progress : Progress B bloom base data metadata s.shared t.shared (t.calls i) := by
    refine @Reach.invariant _ _ _ _
      (fun u => Progress B bloom base data metadata s.shared u.shared (u.calls i)) _ _ alone ?_ ?_
    · rw [called]
      exact ⟨rfl, rfl⟩
    · intro u label v before allowed taken
      exact step_progress sound before allowed taken
  rw [stored] at progress
  exact progress.2

end Put

section Get

variable {B : Blake3} {F : Type} {bloom : Bloom F} {base : Shard.Path} {s : Shared F} {cid : Cid}
  {bytes : Bytes}

theorem get_of_file (cold : (s.cache.get cid).2 = none)
    (likely : bloom.probablyContains s.bloom cid = true)
    (holds : s.fs.content (shardPath base cid) = some bytes) :
    (Cid.fromData B bytes = cid → (get B bloom base s cid).2 = .ok (some bytes)) ∧
      (Cid.fromData B bytes ≠ cid →
        ∃ msg, (get B bloom base s cid).2 = .error (.integrityViolation cid.display msg)) := by
  unfold Sequential.get
  split
  · rename_i cache found hit
    rw [hit] at cold
    cases cold
  · rw [if_pos likely, holds]
    constructor
    · intro right
      simp only [verifyRead, if_neg (not_not.mpr right)]
    · intro wrong
      simp only [verifyRead, if_pos wrong]
      exact ⟨_, rfl⟩

theorem get_of_cached (hit : (s.cache.get cid).2 = some bytes) :
    (get B bloom base s cid).2 = .ok (some bytes) := by
  unfold Sequential.get
  split
  · rename_i cache found looked
    rw [looked] at hit
    cases hit
    rfl
  · rename_i cache looked
    rw [looked] at hit
    cases hit

end Get

section Established

variable {B : Blake3} {F : Type} {bloom : Bloom F} {base : Shard.Path}

theorem get_of_content {s : Shared F} {data : Bytes}
    (likely : bloom.probablyContains s.bloom (Cid.fromData B data) = true)
    (holds : s.fs.content (shardPath base (Cid.fromData B data)) = some data)
    (cached : ∀ bytes, (Cid.fromData B data, bytes) ∈ s.cache.entries → bytes = data) :
    (get B bloom base s (Cid.fromData B data)).2 = .ok (some data) := by
  cases found : (s.cache.get (Cid.fromData B data)).2 with
  | none => exact (get_of_file found likely holds).1 rfl
  | some bytes =>
    obtain rfl := cached bytes (Lru.mem_of_get found)
    exact get_of_cached found

end Established

/-- The data can be read under its identifier, from the cache and when it is not cached. -/
def Readable (B : Blake3) {F : Type} (bloom : Bloom F) (base : Shard.Path) (s : Shared F)
    (data : Bytes) : Prop :=
  (get B bloom base s (Cid.fromData B data)).2 = .ok (some data) ∧
    ∀ cache : Lru Cid Bytes, (∀ bytes, (Cid.fromData B data, bytes) ∉ cache.entries) →
      (get B bloom base { s with cache := cache } (Cid.fromData B data)).2 = .ok (some data)

section Readable

variable {B : Blake3} {F : Type} {bloom : Bloom F} {base : Shard.Path} {s : Shared F} {data bytes : Bytes}

theorem readable_of_content (likely : bloom.probablyContains s.bloom (Cid.fromData B data) = true)
    (holds : s.fs.content (shardPath base (Cid.fromData B data)) = some data)
    (cached : ∀ bytes, (Cid.fromData B data, bytes) ∈ s.cache.entries → bytes = data) :
    Readable B bloom base s data := by
  refine ⟨get_of_content likely holds cached, fun cache absent => ?_⟩
  exact get_of_content (s := { s with cache := cache }) likely holds fun bytes listed =>
    absurd listed (absent bytes)

theorem not_readable_of_other (likely : bloom.probablyContains s.bloom (Cid.fromData B data) = true)
    (holds : s.fs.content (shardPath base (Cid.fromData B data)) = some bytes)
    (wrong : Cid.fromData B bytes ≠ Cid.fromData B data) : ¬ Readable B bloom base s data := by
  rintro ⟨-, uncached⟩
  have answer := uncached (Lru.empty 1) fun bytes listed => absurd listed List.not_mem_nil
  obtain ⟨msg, refused⟩ := (get_of_file (s := { s with cache := Lru.empty 1 }) rfl likely holds).2 wrong
  rw [refused] at answer
  cases answer

end Readable

/-- After a put that returned Ok the object can be read, from the cache and without it, unless the
filter had its identifier, `metadata` found a file under its name and that file held something else.
The bytes that the store held for the object do not collide with the data. -/
theorem put_establishes_iff {B : Blake3} {F : Type} {bloom : Bloom F} {base : Shard.Path}
    (sound : NoFalseNegatives bloom) {blank : F} {readDir : ReadDir} {capacity : ℕ+}
    {fs : Fs Shard.Path UInt8} {s t : State F} {i : ℕ} {data : Bytes} {metadata : Option OsError}
    (opened : Reach (exposedStep B bloom base) anyStep
      ⟨new bloom base blank readDir capacity fs, fun _ => .idle⟩ s)
    (called : s.calls i = .putBloom data) (alone : Reach (step B bloom base) (Alone i metadata) s t)
    (stored : t.calls i = .putDone data (.ok (Cid.fromData B data)))
    (apart : ∀ bytes, (Cid.fromData B data, bytes) ∈ s.shared.cache.entries ∨
      s.shared.fs.content (shardPath base (Cid.fromData B data)) = some bytes →
        Cid.fromData B bytes = Cid.fromData B data → bytes = data) :
    Readable B bloom base t.shared data ↔
      ¬ (Takes B bloom base data metadata s.shared ∧
        s.shared.fs.content (shardPath base (Cid.fromData B data)) ≠ some data) := by
  have inv : Inv B s := opened.invariant (inv_opened ⟨fun _ => rfl, rfl⟩) fun _ _ _ inv _ taken =>
    inv_step inv taken
  have before (bytes : Bytes) (listed : (Cid.fromData B data, bytes) ∈ s.shared.cache.entries) :
      bytes = data := apart bytes (.inl listed) (inv.cached _ listed)
  rcases progress_of_stored sound called alone stored with ⟨takes, same⟩ | ⟨writes, cache, holds, likely⟩
  · rw [same]
    constructor
    · rintro readable ⟨-, other⟩
      have named := takes.2.2
      rw [← isSome_content] at named
      obtain ⟨bytes, holds⟩ := Option.isSome_iff_exists.mp named
      refine not_readable_of_other takes.1 holds ?_ readable
      intro hash
      rw [apart bytes (.inr holds) hash] at holds
      exact other holds
    · intro genuine
      refine readable_of_content takes.1 ?_ before
      by_contra other
      exact genuine ⟨takes, other⟩
  · refine iff_of_true (readable_of_content likely holds fun bytes listed => ?_) fun both => writes both.1
    rw [cache] at listed
    rcases Lru.mem_put listed with new | old
    · cases new
      rfl
    · exact before bytes old

def putting (fs : Fs Shard.Path UInt8) : State Unit :=
  ⟨new sureBloom ["objects"] () (listing ["objects"] sample) (Nat.succPNat 0) fs,
    Function.update (fun _ => .idle) 0 (.putBloom [1])⟩

theorem opened_putting (fs : Fs Shard.Path UInt8) :
    Reach (exposedStep Blake3.byLeading sureBloom ["objects"]) anyStep
      ⟨new sureBloom ["objects"] () (listing ["objects"] sample) (Nat.succPNat 0) fs, fun _ => .idle⟩
      (putting fs) :=
  reach_step (a := .call (.invoke 0 (.put [1]))) trivial rfl

theorem reach_putting (fs : Fs Shard.Path UInt8) :
    Reach (step Blake3.byLeading sureBloom ["objects"]) (Alone 0 none) (putting fs)
      ⟨(Sequential.put Blake3.byLeading sureBloom ["objects"] (putting fs).shared [1]).1,
        Function.update (fun _ => .idle) 0 (.putDone [1]
          (Sequential.put Blake3.byLeading sureBloom ["objects"] (putting fs).shared [1]).2)⟩ :=
  reach_put (fun _ _ quiet => ⟨rfl, fun _ _ => quiet⟩) _ _

theorem put_establishes_new : ∃ t : State Unit,
    Reach (step Blake3.byLeading sureBloom ["objects"]) (Alone 0 none) (putting emptyFs) t ∧
      t.calls 0 = .putDone [1] (.ok sample) ∧
      (Readable Blake3.byLeading sureBloom ["objects"] t.shared [1] ↔
        ¬ (Takes Blake3.byLeading sureBloom ["objects"] [1] none (putting emptyFs).shared ∧
          (putting emptyFs).shared.fs.content (shardPath ["objects"] sample) ≠ some [1])) := by
  have sound : NoFalseNegatives sureBloom := ⟨fun _ _ => rfl, fun _ _ _ _ => rfl⟩
  have vacant : Refines Blake3.byLeading sureBloom ["objects"] ∅ (putting emptyFs).shared fun _ => none :=
    refines_vacant (fun _ _ => rfl) _ _
  have result := (refines_put vacant sound [1] (by intro bytes bound; cases bound)).1
  have run := reach_putting emptyFs
  rw [result] at run
  refine ⟨_, run, rfl, put_establishes_iff sound (opened_putting emptyFs) rfl run rfl ?_⟩
  rintro bytes (listed | held)
  · cases listed
  · cases held

/-- A file with other bytes under the object's name survives the put, and the next get
refuses it. -/
theorem put_keeps_corrupted_file : ∃ t : State Unit,
    Reach (step Blake3.byLeading sureBloom ["objects"]) (Alone 0 none) (putting (placed [2])) t ∧
      t.calls 0 = .putDone [1] (.ok sample) ∧
      ∃ msg, (get Blake3.byLeading sureBloom ["objects"] t.shared sample).2 =
        .error (.integrityViolation sample.display msg) := by
  have held : (putting (placed [2])).shared.fs.content (shardPath ["objects"] sample) = some [2] :=
    content_placed [2]
  have known : ((putting (placed [2])).shared.fs.dir (shardPath ["objects"] sample)).isSome := by
    rw [← isSome_content, held]
    rfl
  have returns : Sequential.put Blake3.byLeading sureBloom ["objects"] (putting (placed [2])).shared [1] =
      ((putting (placed [2])).shared, .ok sample) := if_pos ⟨rfl, known⟩
  have run := reach_putting (placed [2])
  rw [returns] at run
  refine ⟨_, run, rfl, (get_of_file rfl rfl held).2 ?_⟩
  decide

end Craftec.Obj.Established
