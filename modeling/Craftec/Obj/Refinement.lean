/- GID: Craftec/Obj/Refinement
   generality: I
   digest: Used one call at a time, the object store is a map from identifiers to bytes. -/

import Mathlib
import Craftec.Library.InodeFs
import Craftec.Library.RecentCache
import Craftec.Obj.IdenticalPuts
import Craftec.Obj.Sequential
import Craftec.Obj.Shard
import Craftec.Obj.Store
import Craftec.Types.Digest

set_option autoImplicit false
set_option relaxedAutoImplicit false

namespace Craftec.Obj.Refinement

open Craftec.Library.InodeFs (Fs)
open Craftec.Library.InodeFs.Fs (Unshared content_none isSome_content rename_writeFile
  unlink_of_none unlink_of_some)
open Craftec.Library.RecentCache (Lru)
open Craftec.Obj.IdenticalPuts (emptyFs)
open Craftec.Obj.Sequential (contains delete get listCids new put rebuild)
open Craftec.Obj.Shard (Filed ReadDir mem_walkShards nodup_walkShards shardPath shardPath_eq
  shardPath_injective tmpPath tmpPath_eq tmpPath_ne_shardPath tmpPath_spelled walkShards)
open Craftec.Obj.Store (Bloom ObjError Shared verifyRead)
open Craftec.Types.Digest (Bytes Blake3 Cid hexEncode_no_dot)

/-- What the one caller of a store asks for. `readDir` is what the directories list
when the call walks them. -/
inductive Op where
  | put (data : Bytes)
  | get (cid : Cid)
  | contains (cid : Cid)
  | delete (cid : Cid)
  | listCids (readDir : ReadDir)
  | reopen (readDir : ReadDir) (capacity : ℕ+)

inductive Outcome where
  | put (result : Except ObjError Cid)
  | get (result : Except ObjError (Option Bytes))
  | contains (result : Bool)
  | delete (result : Except ObjError Bool)
  | listCids (result : Except ObjError (List Cid))
  | reopened

section Code

variable (B : Blake3) {F : Type} (bloom : Bloom F) (base : Shard.Path) (blank : F)

def perform (s : Shared F) : Op → Shared F × Outcome
  | .put data => ((put B bloom base s data).1, .put (put B bloom base s data).2)
  | .get cid => ((get B bloom base s cid).1, .get (get B bloom base s cid).2)
  | .contains cid => (s, .contains (contains bloom base s cid))
  | .delete cid => ((delete base s cid).1, .delete (delete base s cid).2)
  | .listCids readDir => (s, .listCids (listCids base readDir))
  | .reopen readDir capacity => (new bloom base blank readDir capacity s.fs, .reopened)

def Lists (fs : Fs Shard.Path UInt8) (readDir : ReadDir) : Prop :=
  ∀ shard, ((readDir (base ++ [shard])).getD []).Nodup ∧
    ∀ name, name ∈ (readDir (base ++ [shard])).getD [] ↔ (fs.dir (base ++ [shard, name])).isSome

/-- A call that walks the directories finds the files the store has left there. -/
def Walks (s : Shared F) : Op → Prop
  | .listCids readDir | .reopen readDir _ => Lists base s.fs readDir
  | _ => True

/-- Nobody but the store changes the files during the run. -/
def Listed : Shared F → List Op → Prop
  | _, [] => True
  | s, op :: rest => Walks base s op ∧ Listed (perform B bloom base blank s op).1 rest

/-- Documented of bloom filters: what was inserted is found; anything else may be found too. -/
structure NoFalseNegatives : Prop where
  inserted : ∀ f cid, bloom.probablyContains (bloom.insert f cid) cid = true
  kept : ∀ f cid other, bloom.probablyContains f other = true →
    bloom.probablyContains (bloom.insert f cid) other = true

end Code

section Spec

variable (B : Blake3)

abbrev Objects := Cid → Option Bytes

def after (m : Objects) : Op → Objects
  | .put data => Function.update m (Cid.fromData B data) (some data)
  | .delete cid => Function.update m cid none
  | _ => m

/-- The answer the map gives. A listing names every key once. -/
def Answers (m : Objects) : Op → Outcome → Prop
  | .put data, .put result => result = .ok (Cid.fromData B data)
  | .get cid, .get result => result = .ok (m cid)
  | .contains cid, .contains result => result = (m cid).isSome
  | .delete cid, .delete result => result = .ok (m cid).isSome
  | .listCids _, .listCids result =>
    ∃ cids : List Cid, result = .ok cids ∧ cids.Nodup ∧ ∀ cid, cid ∈ cids ↔ (m cid).isSome
  | .reopen _ _, .reopened => True
  | _, _ => False

variable {F : Type} (bloom : Bloom F) (base : Shard.Path) (blank : F)

/-- Every call of the run is answered as the map would answer it. -/
def Agrees : Shared F → Objects → List Op → Prop
  | _, _, [] => True
  | s, m, op :: rest =>
    Answers B m op (perform B bloom base blank s op).2 ∧
      Agrees (perform B bloom base blank s op).1 (after B m op) rest

def Shards (p : Shard.Path) : Prop := ∃ shard name, p = base ++ [shard, name]

/-- The files are exactly the objects of the map, and the temporary files that puts of `left` may
have left behind; the filter finds all objects, and what is cached is what is there. -/
structure Refines (left : Set Cid) (s : Shared F) (m : Objects) : Prop where
  files : ∀ cid, s.fs.content (shardPath base cid) = m cid
  names : ∀ p, Shards base p → (s.fs.dir p).isSome →
    (∃ cid, p = shardPath base cid) ∨ ∃ cid ∈ left, p = tmpPath base cid
  unshared : Unshared (Shards base) s.fs
  hashed : ∀ cid bytes, m cid = some bytes → Cid.fromData B bytes = cid
  found : ∀ cid, (m cid).isSome → bloom.probablyContains s.bloom cid = true
  cached : ∀ cid bytes, (cid, bytes) ∈ s.cache.entries → m cid = some bytes

end Spec

variable {B : Blake3} {F : Type} {bloom : Bloom F} {base : Shard.Path} {blank : F}
  {left : Set Cid} {s : Shared F} {m : Objects}

theorem shards_shardPath (cid : Cid) : Shards base (shardPath base cid) := by
  obtain ⟨i, -, path⟩ := shardPath_eq base cid
  exact ⟨_, _, path⟩

theorem Refines.isSome_dir (refines : Refines B bloom base left s m) (cid : Cid) :
    (s.fs.dir (shardPath base cid)).isSome = (m cid).isSome := by
  rw [← isSome_content, refines.files]

section Changed

variable {fs : Fs Shard.Path UInt8} {key : Cid} {value : Option Bytes}

/-! What is left of the relation to show when one object's file changes. -/

theorem Refines.files_update (refines : Refines B bloom base left s m)
    (here : fs.content (shardPath base key) = value)
    (beside : ∀ cid, cid ≠ key →
      fs.content (shardPath base cid) = s.fs.content (shardPath base cid)) (cid : Cid) :
    fs.content (shardPath base cid) = Function.update m key value cid := by
  rcases eq_or_ne cid key with rfl | ne
  · rw [Function.update_self]
    exact here
  · rw [Function.update_of_ne ne, ← refines.files cid]
    exact beside cid ne

variable (key) in
theorem Refines.names_update (refines : Refines B bloom base left s m)
    (beside : ∀ p, p ≠ shardPath base key → (fs.content p).isSome → (s.fs.content p).isSome)
    (p : Shard.Path) (inside : Shards base p) (there : (fs.dir p).isSome) :
    (∃ cid, p = shardPath base cid) ∨ ∃ cid ∈ left, p = tmpPath base cid := by
  rcases eq_or_ne p (shardPath base key) with rfl | elsewhere
  · exact .inl ⟨key, rfl⟩
  · rw [← isSome_content] at there
    have before := beside p elsewhere there
    rw [isSome_content] at before
    exact refines.names p inside before

theorem Refines.hashed_update (refines : Refines B bloom base left s m)
    (genuine : ∀ bytes, value = some bytes → Cid.fromData B bytes = key) (cid : Cid) (bytes : Bytes)
    (bound : Function.update m key value cid = some bytes) : Cid.fromData B bytes = cid := by
  rcases eq_or_ne cid key with rfl | ne
  · rw [Function.update_self] at bound
    exact genuine bytes bound
  · rw [Function.update_of_ne ne] at bound
    exact refines.hashed cid bytes bound

end Changed

theorem refines_stored (refines : Refines B bloom base left s m) (sound : NoFalseNegatives bloom)
    (data : Bytes) (only : ∀ bytes, m (Cid.fromData B data) = some bytes → bytes = data)
    (published : List Cid) :
    ∃ fs, (s.fs.writeFile (tmpPath base (Cid.fromData B data)) data).rename
        (tmpPath base (Cid.fromData B data)) (shardPath base (Cid.fromData B data)) = some fs ∧
      Refines B bloom base left
        { s with
          fs := fs
          bloom := bloom.insert s.bloom (Cid.fromData B data)
          cache := s.cache.put (Cid.fromData B data) data
          published := published }
        (Function.update m (Cid.fromData B data) (some data)) := by
  generalize named : Cid.fromData B data = key at only
  have away (cid : Cid) : shardPath base cid ≠ tmpPath base key :=
    (tmpPath_ne_shardPath base key cid).symm
  obtain ⟨fs, renamed, ⟨placed, gone, others⟩, unshared⟩ :=
    rename_writeFile refines.unshared (away key) (tmpPath_eq base key) data
  refine ⟨fs, renamed, ?_, ?_, unshared, ?_, ?_, ?_⟩
  · refine refines.files_update placed ?_
    intro cid ne
    exact others _ (away cid) fun same => ne (shardPath_injective base same)
  · refine refines.names_update key ?_
    intro p elsewhere there
    rcases eq_or_ne p (tmpPath base key) with rfl | notTmp
    · rw [gone] at there
      cases there
    · rwa [others p notTmp elsewhere] at there
  · refine refines.hashed_update ?_
    intro bytes bound
    cases bound
    exact named
  · intro cid there
    rcases eq_or_ne cid key with rfl | ne
    · exact sound.inserted _ _
    · rw [Function.update_of_ne ne] at there
      exact sound.kept _ _ _ (refines.found cid there)
  · intro cid bytes member
    rcases Lru.mem_put member with new | old
    · cases new
      exact Function.update_self _ _ _
    · have bound := refines.cached cid bytes old
      rcases eq_or_ne cid key with rfl | ne
      · rw [Function.update_self, only bytes bound]
      · rw [Function.update_of_ne ne, bound]

theorem Refines.update_eq (refines : Refines B bloom base left s m) {data : Bytes}
    (only : ∀ bytes, m (Cid.fromData B data) = some bytes → bytes = data)
    (there : (s.fs.dir (shardPath base (Cid.fromData B data))).isSome) :
    Function.update m (Cid.fromData B data) (some data) = m := by
  rw [refines.isSome_dir] at there
  obtain ⟨bytes, bound⟩ := Option.isSome_iff_exists.mp there
  rw [only bytes bound] at bound
  rw [← bound, Function.update_eq_self]

theorem refines_put (refines : Refines B bloom base left s m) (sound : NoFalseNegatives bloom)
    (data : Bytes) (only : ∀ bytes, m (Cid.fromData B data) = some bytes → bytes = data) :
    (put B bloom base s data).2 = .ok (Cid.fromData B data) ∧
      Refines B bloom base left (put B bloom base s data).1
        (Function.update m (Cid.fromData B data) (some data)) := by
  by_cases known : bloom.probablyContains s.bloom (Cid.fromData B data) ∧
      (s.fs.dir (shardPath base (Cid.fromData B data))).isSome
  · rw [put, if_pos known, refines.update_eq only known.2]
    exact ⟨rfl, refines⟩
  · obtain ⟨fs, renamed, kept⟩ := refines_stored refines sound data only
      (if s.sender then s.published ++ [Cid.fromData B data] else s.published)
    simp only [put, if_neg known, renamed]
    exact ⟨trivial, kept⟩

theorem Refines.looked (refines : Refines B bloom base left s m) (cid : Cid) :
    Refines B bloom base left { s with cache := (s.cache.get cid).1 } m :=
  ⟨refines.files, refines.names, refines.unshared, refines.hashed, refines.found,
    fun c bytes member => refines.cached c bytes (Lru.mem_get member)⟩

theorem refines_get (refines : Refines B bloom base left s m) (cid : Cid) :
    (get B bloom base s cid).2 = .ok (m cid) ∧ Refines B bloom base left (get B bloom base s cid).1 m := by
  have looked := refines.looked cid
  unfold Sequential.get
  split
  · rename_i cache bytes hit
    rw [hit] at looked
    exact ⟨by rw [refines.cached cid bytes (Lru.mem_of_get (congrArg Prod.snd hit))], looked⟩
  · rename_i cache missed
    rw [missed] at looked
    split
    · rw [refines.files]
      cases bound : m cid with
      | none => exact ⟨rfl, looked⟩
      | some bytes =>
        have kept : verifyRead B cid bytes = .getKeep cid bytes := by
          rw [verifyRead, if_neg (not_not.mpr (refines.hashed cid bytes bound))]
        simp only [kept]
        refine ⟨trivial, looked.files, looked.names, looked.unshared, looked.hashed, looked.found, ?_⟩
        intro c b member
        rcases Lru.mem_put member with new | old
        · cases new
          exact bound
        · exact looked.cached c b old
    · rename_i unknown
      have absent : m cid = none := by
        by_contra there
        exact unknown (refines.found cid (Option.isSome_iff_ne_none.mpr there))
      exact ⟨by rw [absent], looked⟩

theorem refines_delete (refines : Refines B bloom base left s m) (cid : Cid) :
    (delete base s cid).2 = .ok (m cid).isSome ∧
      Refines B bloom base left (delete base s cid).1 (Function.update m cid none) := by
  cases named : s.fs.dir (shardPath base cid) with
  | none =>
    have absent : m cid = none := by rw [← refines.files, content_none named]
    have same : Function.update m cid none = m := by rw [← absent, Function.update_eq_self]
    simp only [delete, unlink_of_none named, absent, same]
    exact ⟨rfl, refines⟩
  | some ino =>
    have there : (s.fs.dir (shardPath base cid)).isSome := by rw [named]; rfl
    obtain ⟨fs, removed, gone, others, unshared⟩ :=
      unlink_of_some there
    rw [refines.isSome_dir] at there
    simp only [delete, removed, there]
    refine ⟨trivial, ?_, ?_, unshared _ refines.unshared, ?_, ?_, ?_⟩
    · refine refines.files_update gone ?_
      intro c ne
      exact others _ fun same => ne (shardPath_injective base same)
    · refine refines.names_update cid ?_
      intro p elsewhere found
      rwa [others p elsewhere] at found
    · refine refines.hashed_update ?_
      intro bytes bound
      cases bound
    · intro c found
      rcases eq_or_ne c cid with rfl | ne
      · rw [Function.update_self] at found
        cases found
      · rw [Function.update_of_ne ne] at found
        exact refines.found c found
    · intro c bytes member
      obtain ⟨old, ne⟩ := List.mem_filter.mp member
      have other : c ≠ cid := by simpa using ne
      rw [Function.update_of_ne other]
      exact refines.cached c bytes old

theorem Lists.filed {fs : Fs Shard.Path UInt8} {readDir : ReadDir} (lists : Lists base fs readDir)
    (names : ∀ p, Shards base p → (fs.dir p).isSome →
      (∃ cid, p = shardPath base cid) ∨ ∃ cid, p = tmpPath base cid) :
    Filed readDir base fun cid => (fs.dir (shardPath base cid)).isSome := by
  refine ⟨fun shard => (lists shard).1, ?_, ?_⟩
  · intro cid shard name there path
    rw [(lists shard).2 name, ← path]
    exact there
  · intro shard name listed
    have there := ((lists shard).2 name).mp listed
    rcases names _ ⟨shard, name, rfl⟩ there with ⟨cid, path⟩ | ⟨cid, path⟩
    · rw [path] at there
      exact .inl ⟨cid, there, path.symm⟩
    · obtain ⟨i, -, spelled, tmp, dotted⟩ := tmpPath_spelled base cid
      have both := List.append_cancel_left (path.trans tmp)
      rw [(List.cons.inj (List.cons.inj both).2).1]
      exact .inr dotted

theorem Refines.filed (refines : Refines B bloom base left s m) {readDir : ReadDir}
    (lists : Lists base s.fs readDir) : Filed readDir base fun cid => (m cid).isSome := by
  have filed := lists.filed fun p inside there =>
    (refines.names p inside there).imp_right fun ⟨cid, _, path⟩ => ⟨cid, path⟩
  simpa only [refines.isSome_dir] using filed

theorem Refines.lists (refines : Refines B bloom base ∅ s m) {readDir : ReadDir} {present : Cid → Prop}
    (filed : Filed readDir base present) (same : ∀ cid, present cid ↔ (m cid).isSome)
    (plain : ∀ shard, ∀ name ∈ (readDir (base ++ [shard])).getD [], '.' ∉ name.toList) :
    Lists base s.fs readDir := by
  intro shard
  refine ⟨filed.once shard, fun name => ⟨?_, ?_⟩⟩
  · intro listed
    rcases filed.names shard name listed with ⟨cid, there, path⟩ | dotted
    · rw [← path, refines.isSome_dir]
      exact (same cid).mp there
    · exact absurd dotted (plain shard name listed)
  · intro there
    rcases refines.names _ ⟨shard, name, rfl⟩ there with ⟨cid, path⟩ | ⟨cid, none_, _⟩
    · rw [path, refines.isSome_dir] at there
      exact filed.listed cid shard name ((same cid).mpr there) path.symm
    · exact none_.elim

theorem found_foldl (sound : NoFalseNegatives bloom) (cids : List Cid) (f : F) {cid : Cid}
    (known : bloom.probablyContains f cid = true ∨ cid ∈ cids) :
    bloom.probablyContains (cids.foldl bloom.insert f) cid = true := by
  induction cids generalizing f with
  | nil =>
    rcases known with before | listed
    · exact before
    · cases listed
  | cons first rest ih =>
    apply ih
    rcases known with before | listed
    · exact .inl (sound.kept _ _ _ before)
    · rcases List.mem_cons.mp listed with rfl | later
      · exact .inl (sound.inserted _ _)
      · exact .inr later

theorem refines_new (refines : Refines B bloom base left s m) (sound : NoFalseNegatives bloom)
    {readDir : ReadDir} (lists : Lists base s.fs readDir) (capacity : ℕ+) :
    Refines B bloom base left (new bloom base blank readDir capacity s.fs) m := by
  refine ⟨refines.files, refines.names, refines.unshared, refines.hashed, ?_, ?_⟩
  · intro cid there
    exact found_foldl sound _ _ (.inr ((mem_walkShards (refines.filed lists) cid).mpr there))
  · intro cid bytes member
    cases member

variable (blank) in
/-- One call: the answer is the map's, and the store goes on as the map does. -/
theorem refines_perform (refines : Refines B bloom base left s m) (sound : NoFalseNegatives bloom)
    {op : Op} (walks : Walks base s op)
    (only : ∀ data bytes, op = .put data → m (Cid.fromData B data) = some bytes → bytes = data) :
    Answers B m op (perform B bloom base blank s op).2 ∧
      Refines B bloom base left (perform B bloom base blank s op).1 (after B m op) := by
  cases op with
  | put data => exact refines_put refines sound data fun bytes => only data bytes rfl
  | get cid => exact refines_get refines cid
  | contains cid =>
    refine ⟨?_, refines⟩
    change (_ && _) = _
    rw [refines.isSome_dir]
    cases bound : (m cid).isSome with
    | false => exact Bool.and_false _
    | true => rw [refines.found cid bound, Bool.and_true]
  | delete cid => exact refines_delete refines cid
  | listCids readDir =>
    have filed := refines.filed walks
    exact ⟨⟨_, rfl, nodup_walkShards filed, mem_walkShards filed⟩, refines⟩
  | reopen readDir capacity => exact ⟨trivial, refines_new refines sound walks capacity⟩

theorem agrees_of_refines (sound : NoFalseNegatives bloom) {data : Set Bytes}
    (apart : Set.InjOn (Cid.fromData B) data) (ops : List Op)
    (refines : Refines B bloom base left s m) (stored : ∀ cid bytes, m cid = some bytes → bytes ∈ data)
    (puts : ∀ bytes, Op.put bytes ∈ ops → bytes ∈ data)
    (listed : Listed B bloom base blank s ops) : Agrees B bloom base blank s m ops := by
  induction ops generalizing s m with
  | nil => trivial
  | cons op rest ih =>
    obtain ⟨walks, later⟩ := listed
    have only (bytes found : Bytes) (isPut : op = .put bytes)
        (bound : m (Cid.fromData B bytes) = some found) : found = bytes := by
      refine apart (stored _ found bound) (puts bytes ?_) (refines.hashed _ found bound)
      rw [← isPut]
      exact List.mem_cons_self
    obtain ⟨answered, refines'⟩ := refines_perform blank refines sound walks only
    refine ⟨answered, ih refines' ?_ ?_ later⟩
    · intro cid bytes bound
      cases op with
      | put new =>
        simp only [after, Function.update_apply] at bound
        split at bound
        · cases bound
          exact puts bytes List.mem_cons_self
        · exact stored cid bytes bound
      | delete gone =>
        simp only [after, Function.update_apply] at bound
        split at bound
        · cases bound
        · exact stored cid bytes bound
      | _ => exact stored cid bytes bound
    · intro bytes listedLater
      exact puts bytes (List.mem_cons_of_mem _ listedLater)

theorem refines_vacant {fs : Fs Shard.Path UInt8} (vacant : ∀ p, Shards base p → fs.dir p = none)
    (readDir : ReadDir) (capacity : ℕ+) :
    Refines B bloom base left (new bloom base blank readDir capacity fs) fun _ => none := by
  refine ⟨?_, ?_, ?_, ?_, ?_, ?_⟩
  · intro cid
    exact content_none (vacant _ (shards_shardPath cid))
  · intro p inside there
    change (fs.dir p).isSome = true at there
    rw [vacant p inside] at there
    cases there
  · intro p q i inside named
    change fs.dir p = some i at named
    rw [vacant p inside] at named
    cases named
  · intro cid bytes bound
    cases bound
  · intro cid there
    cases there
  · intro cid bytes member
    cases member

/-- A store opened on empty directories answers every sequence of calls, with any
number of restarts among them, as a map from identifiers to bytes does. -/
theorem store_refines_map (sound : NoFalseNegatives bloom) {fs : Fs Shard.Path UInt8}
    (vacant : ∀ p, Shards base p → fs.dir p = none) (readDir : ReadDir) (capacity : ℕ+)
    (ops : List Op) (apart : Set.InjOn (Cid.fromData B) { data | Op.put data ∈ ops })
    (listed : Listed B bloom base blank (new bloom base blank readDir capacity fs) ops) :
    Agrees B bloom base blank (new bloom base blank readDir capacity fs) (fun _ => none) ops := by
  have opened : Refines B bloom base ∅ (new bloom base blank readDir capacity fs) fun _ => none :=
    refines_vacant vacant readDir capacity
  refine agrees_of_refines sound apart ops opened ?_ (fun bytes isPut => isPut) listed
  intro cid bytes bound
  cases bound

/-! An object put, found again after a restart, and deleted. -/

def sureBloom : Bloom Unit := ⟨fun _ _ => (), fun _ _ => true⟩

def listing (base : Shard.Path) (cid : Cid) : ReadDir :=
  fun dir => if dir ++ [cid.display] = shardPath base cid then some [cid.display] else some []

theorem filed_listing (cid : Cid) : Filed (listing base cid) base fun c => c = cid := by
  refine ⟨?_, ?_, ?_⟩
  · intro shard
    unfold listing
    split <;> simp
  · rintro c shard name rfl path
    obtain ⟨i, -, spelled⟩ := shardPath_eq base c
    have same := List.append_cancel_left (spelled.symm.trans path)
    have named : c.display = name := (List.cons.inj (List.cons.inj same).2).1
    subst named
    have here : base ++ [shard] ++ [c.display] = shardPath base c := by
      rw [path, List.append_assoc, List.singleton_append]
    rw [listing, if_pos here, Option.getD_some]
    exact List.mem_singleton_self _
  · intro shard name member
    unfold listing at member
    split at member
    · rename_i here
      obtain rfl := List.mem_singleton.mp member
      rw [List.append_assoc, List.singleton_append] at here
      exact .inl ⟨cid, rfl, here.symm⟩
    · cases member

theorem plain_listing (cid : Cid) (dir : Shard.Path) (name : String)
    (member : name ∈ (listing base cid dir).getD []) : '.' ∉ name.toList := by
  unfold listing at member
  split at member
  · obtain rfl := List.mem_singleton.mp member
    exact hexEncode_no_dot cid.asBytes
  · cases member

theorem filed_nothing : Filed (fun _ => some []) base fun _ => False := by
  refine ⟨fun _ => List.nodup_nil, ?_, ?_⟩
  · intro cid shard name absurd
    exact absurd.elim
  · intro shard name member
    cases member

def sample : Cid := Cid.fromData Blake3.byLeading [1]

def sampleStore : Shared Unit := new sureBloom ["objects"] () (fun _ => some []) 1 emptyFs

def sampleOps : List Op :=
  [.put [1], .reopen (listing ["objects"] sample) 1, .get sample, .delete sample,
    .listCids fun _ => some []]

theorem sample_listed : Listed Blake3.byLeading sureBloom ["objects"] () sampleStore sampleOps := by
  have sound : NoFalseNegatives sureBloom := ⟨fun _ _ => rfl, fun _ _ _ _ => rfl⟩
  have opened : Refines Blake3.byLeading sureBloom ["objects"] ∅ sampleStore fun _ => none :=
    refines_vacant (fun _ _ => rfl) _ 1
  have held := (refines_put opened sound [1] (by intro bytes bound; cases bound)).2
  have present (cid : Cid) : cid = sample ↔
      (Function.update (fun _ => none : Objects) sample (some [1]) cid).isSome := by
    rw [Function.update_apply]
    split <;> simp_all
  have walk : Lists ["objects"] _ (listing ["objects"] sample) :=
    held.lists (filed_listing sample) present fun shard => plain_listing sample _
  have again : Refines Blake3.byLeading sureBloom ["objects"] ∅ (new sureBloom ["objects"] () _ 1 _) _ :=
    refines_new held sound walk 1
  have read := (refines_get again sample).2
  have gone := (refines_delete read sample).2
  have absent (cid : Cid) : False ↔ (Function.update
      (Function.update (fun _ => none : Objects) sample (some [1])) sample none cid).isSome := by
    simp only [Function.update_apply]
    split <;> simp_all
  have last : Lists ["objects"] _ fun _ => some [] :=
    gone.lists filed_nothing absent fun _ _ member => by cases member
  exact ⟨trivial, walk, trivial, trivial, last, trivial⟩

theorem store_refines_map_across_restart :
    Agrees Blake3.byLeading sureBloom ["objects"] () sampleStore (fun _ => none) sampleOps := by
  refine store_refines_map ⟨fun _ _ => rfl, fun _ _ _ _ => rfl⟩ (fun _ _ => rfl) _ 1 sampleOps ?_
    sample_listed
  have only (d : Bytes) (isPut : Op.put d ∈ sampleOps) : d = [1] := by simpa [sampleOps] using isPut
  intro d first e second _
  rw [only d first, only e second]

end Craftec.Obj.Refinement
