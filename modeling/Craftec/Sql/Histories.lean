/- GID: Craftec/Sql/Histories
   generality: I
   digest: Databases after any sequence of successful executes, and when the root identifies the file. -/

import Mathlib
import Craftec.Library.Chunks
import Craftec.Library.OrderedMap
import Craftec.Sql.Database
import Craftec.Types.Digest
import Craftec.Vfs.Commit
import Craftec.Vfs.Index

set_option autoImplicit false
set_option relaxedAutoImplicit false

namespace Craftec.Sql.Histories

open Craftec.Library.Chunks (count)
open Craftec.Library.OrderedMap (getElem?_insertMany_map)
open Craftec.Sql.Database
open Craftec.Types.Digest (Bytes Bytes32 Blake3 Cid NodeId)
open Craftec.Vfs.Commit (CidVfs Contents Filed MapAt MapAt.unique smallPage fillPage leading_fillPage
  commit_ok commit_of_no_fault put_filed stored_entries stored_filed)
open Craftec.Vfs.Index (PageMap PageIndex serializeEntries)

variable (B : Blake3) {Db : Type} (L : Libsql Db)

/-- Every object is stored under its own hash. -/
def Honest (store : Contents) : Prop := Filed B Set.univ store

/-- No stored object other than the index hashes to the root of the index. -/
def NoCollision (v : CidVfs) : Prop :=
  ∀ cid data, v.store cid = some data →
    Cid.fromData B data = Cid.fromData B v.pageIndex.serialize → data = v.pageIndex.serialize

/-- Databases reached by `create` on a fresh page layer and successful executes,
with the files that were synced, the latest first. -/
inductive History : CraftDatabase Db → List Bytes → Prop where
  | create {owner : NodeId} {store : Contents} {size : ℕ} {v : CidVfs} {dirFault : Option String}
      {opened : Except String Db} {env : Env} {db : CraftDatabase Db} (honest : Honest B store)
      (new : CidVfs.new store size = .ok v)
      (made : CraftDatabase.create B L owner v dirFault opened env = .ok db)
      (listed : env.order.Perm (buffered (L.file db.contents) v).dirtyPages.toList)
      (apart : NoCollision B db.vfs) : History db [L.file db.contents]
  | execute {db after : CraftDatabase Db} {files : List Bytes} {sql : String} {writer : NodeId}
      {env : Env} (earlier : History db files)
      (ran : db.execute B L sql writer env = (after, .ok ()))
      (listed : env.order.Perm (buffered (L.file after.contents) db.vfs).dirtyPages.toList)
      (apart : NoCollision B after.vfs) : History after (L.file after.contents :: files)

/-- Page `k` of the latest file that has one. -/
def overlay (size : ℕ) : List Bytes → ℕ → Option Cid
  | [], _ => none
  | file :: files, k =>
    if k < count size file.length then some (Cid.fromData B (filePage size file k))
    else overlay size files k

theorem overlay_eq_none_iff (size : ℕ) (files : List Bytes) (k : ℕ) :
    overlay B size files k = none ↔ ∀ file ∈ files, count size file.length ≤ k := by
  induction files with
  | nil => simp [overlay]
  | cons file files ih =>
    rw [overlay, List.forall_mem_cons]
    split
    · rename_i inside
      simp only [reduceCtorEq, false_iff, not_and]
      intro outside
      omega
    · rename_i outside
      rw [ih]
      constructor
      · intro rest
        exact ⟨by omega, rest⟩
      · exact fun both => both.2

theorem getElem?_filePages (size : ℕ) (file : Bytes) (small : count size file.length < 2 ^ 32)
    (k : UInt32) :
    ((∅ : PageMap Bytes).insertMany (filePages size file))[k]? =
      if k.toNat < count size file.length then some (filePage size file k.toNat) else none := by
  have number : ∀ i < count size file.length, (UInt32.ofNat i).toNat = i := by
    intro i hi
    rw [UInt32.toNat_ofNat', Nat.mod_eq_of_lt (by omega)]
  split
  · rename_i inside
    have distinct : (filePages size file).Pairwise fun a b => ¬ compare a.1 b.1 = .eq := by
      apply List.pairwise_map.mpr
      refine List.nodup_range.imp_of_mem ?_
      intro i j hi hj differ same
      rw [Std.LawfulEqCmp.compare_eq_iff_eq] at same
      have numbers : UInt32.ofNat i = UInt32.ofNat j := same
      apply differ
      rw [← number i (List.mem_range.mp hi), ← number j (List.mem_range.mp hj), numbers]
    have listed : (k, filePage size file k.toNat) ∈ filePages size file := by
      refine List.mem_map.mpr ⟨k.toNat, List.mem_range.mpr inside, ?_⟩
      rw [UInt32.ofNat_toNat]
    exact Std.ExtTreeMap.getElem?_insertMany_list_of_mem Std.ReflCmp.compare_self distinct listed
  · rename_i outside
    have absent : ((filePages size file).map Prod.fst).contains k = false := by
      rw [← Bool.not_eq_true, List.contains_iff_mem, filePages, List.map_map, List.mem_map]
      rintro ⟨i, member, same⟩
      have here : UInt32.ofNat i = k := same
      apply outside
      rw [← here, number i (List.mem_range.mp member)]
      exact List.mem_range.mp member
    rw [Std.ExtTreeMap.getElem?_insertMany_list_of_contains_eq_false absent]
    rfl

theorem size_le_of_keys {entries : PageMap Cid} {c : ℕ}
    (below : ∀ k : UInt32, entries[k]? ≠ none → k.toNat < c) : entries.size ≤ c := by
  have nodup : (entries.toList.map fun e => e.1.toNat).Nodup := by
    apply List.pairwise_map.mpr
    refine (Std.ExtTreeMap.distinct_keys_toList (t := entries)).imp ?_
    intro a b differ same
    apply differ
    rw [Std.LawfulEqCmp.compare_eq_iff_eq]
    exact UInt32.toNat_inj.mp same
  have subset : (entries.toList.map fun e => e.1.toNat) ⊆ List.range c := by
    intro i member
    obtain ⟨e, listed, rfl⟩ := List.mem_map.mp member
    have bound := Std.ExtTreeMap.mem_toList_iff_getElem?_eq_some.mp listed
    refine List.mem_range.mpr (below e.1 ?_)
    rw [bound]
    exact Option.some_ne_none _
  have short := (nodup.subperm subset).length_le
  rwa [List.length_map, List.length_range, Std.ExtTreeMap.length_toList] at short

@[simp] theorem stored_pageSize (v : CidVfs) (pages : List (UInt32 × Bytes)) :
    (v.stored B pages).pageSize = v.pageSize := by
  induction pages generalizing v with
  | nil => rfl
  | cons entry pages ih => exact ih _

/-- The page layer after every page of `file` has been stored and indexed. -/
def indexed (file : Bytes) (env : Env) (v : CidVfs) : CidVfs :=
  { buffered file v with dirtyPages := ∅ }.stored B env.order

theorem indexed_honest {v : CidVfs} (honest : Honest B v.store) (file : Bytes) (env : Env) :
    Honest B (indexed B file env v).store :=
  stored_filed (v := { buffered file v with dirtyPages := ∅ }) honest fun _ _ => trivial

theorem sync_ok {file : Bytes} {env : Env} {v u : CidVfs} {root : Cid}
    (done : syncPagesToVfs B file env v = (u, .ok root)) :
    ((buffered file v).dirtyPages = ∅ ∧ u = buffered file v ∧ v.currentRoot = some root) ∨
      ((buffered file v).dirtyPages ≠ ∅ ∧
        u = (indexed B file env v).publish B ∧
        root = Cid.fromData B (indexed B file env v).pageIndex.serialize) := by
  unfold syncPagesToVfs at done
  split at done
  · cases done
  · rw [writePages_file] at done
    simp only at done
    split at done
    · cases done
    · rename_i w r committed
      cases done
      exact commit_ok B committed

/-- A page layer that is about to sync: nothing is buffered, and the index is
what earlier syncs left. -/
structure Ready (v : CidVfs) (files : List Bytes) : Prop where
  honest : Honest B v.store
  clean : v.dirtyPages = ∅
  rooted : ∀ root, v.currentRoot = some root →
    root = Cid.fromData B v.pageIndex.serialize ∧ v.store root = some v.pageIndex.serialize
  entries : (∀ file ∈ files, count v.pageSize.bytes file.length < 2 ^ 32) → ∀ k : UInt32,
    v.pageIndex.entries[k]? = overlay B v.pageSize.bytes files k.toNat

theorem sync_ready {file : Bytes} {files : List Bytes} {env : Env} {v u : CidVfs} {root : Cid}
    (ready : Ready B v files) (done : syncPagesToVfs B file env v = (u, .ok root))
    (listed : env.order.Perm (buffered file v).dirtyPages.toList) (apart : NoCollision B u) :
    Ready B u (file :: files) ∧ u.currentRoot = some root ∧ u.pageSize = v.pageSize := by
  have pages : (buffered file v).dirtyPages =
      (∅ : PageMap Bytes).insertMany (filePages v.pageSize.bytes file) := by
    rw [buffered, ready.clean]
  rcases sync_ok B done with ⟨empty, rfl, current⟩ | ⟨dirty, rfl, rfl⟩
  · -- an empty file: index and root stay
    refine ⟨⟨ready.honest, empty, ready.rooted, ?_⟩, current, rfl⟩
    intro small k
    have bounds := List.forall_mem_cons.mp small
    have lookup := getElem?_filePages v.pageSize.bytes file bounds.1 k
    rw [← pages, empty] at lookup
    have outside : ¬ k.toNat < count v.pageSize.bytes file.length := by
      intro inside
      rw [if_pos inside] at lookup
      simp at lookup
    have kept := ready.entries bounds.2 k
    have here : overlay B v.pageSize.bytes (file :: files) k.toNat =
        overlay B v.pageSize.bytes files k.toNat := if_neg outside
    exact kept.trans here.symm
  · have honest : Honest B ((indexed B file env v).publish B).store :=
      put_filed (indexed_honest B ready.honest file env) trivial
    have size : ((indexed B file env v).publish B).pageSize = v.pageSize := stored_pageSize B _ _
    refine ⟨⟨honest, Craftec.Vfs.Commit.stored_dirtyPages B _ _, ?_, ?_⟩, rfl, size⟩
    · intro root current
      have named : Cid.fromData B (indexed B file env v).pageIndex.serialize = root :=
        Option.some.inj current
      subst named
      refine ⟨rfl, ?_⟩
      -- whatever is under the new root hashes to it, so it is the index
      cases bound : ((indexed B file env v).publish B).store
          (Cid.fromData B (indexed B file env v).pageIndex.serialize) with
      | none => simp [CidVfs.publish, Contents.put] at bound
      | some data => rw [apart _ _ bound (honest _ _ bound).1]
    · intro small k
      rw [size] at small ⊢
      have bounds := List.forall_mem_cons.mp small
      have written := getElem?_insertMany_map v.pageIndex.entries (buffered file v).dirtyPages
        listed (Cid.fromData B) k
      have index : ((indexed B file env v).publish B).pageIndex.entries =
          v.pageIndex.entries.insertMany (env.order.map fun e => (e.1, Cid.fromData B e.2)) :=
        stored_entries B _ _
      rw [index, written, pages, getElem?_filePages v.pageSize.bytes file bounds.1 k, overlay]
      split
      · rfl
      · exact ready.entries bounds.2 k

structure Tracks (db : CraftDatabase Db) (files : List Bytes) : Prop where
  ready : Ready B db.vfs files
  current : db.vfs.currentRoot = some db.rootCid

theorem history_tracks {db : CraftDatabase Db} {files : List Bytes}
    (history : History B L db files) : Tracks B db files := by
  induction history with
  | @create owner store size v dirFault opened env db honest new made listed apart =>
    have fresh : Ready B v [] := by
      unfold CidVfs.new at new
      split at new
      · cases new
        refine ⟨honest, rfl, (by intro _ rooted; cases rooted), ?_⟩
        intro _ k
        exact Std.ExtTreeMap.getElem?_empty
      · cases new
    unfold CraftDatabase.create at made
    split at made
    · cases made
    · cases made
    · split at made
      · cases made
      · split at made
        · cases made
        · rename_i synced
          cases made
          have after := sync_ready B fresh synced listed apart
          exact ⟨after.1, after.2.1⟩
  | @execute db after files sql writer env earlier ran listed apart ih =>
    unfold CraftDatabase.execute at ran
    split at ran
    · cases ran
    · split at ran
      · cases ran
      · split at ran
        · cases ran
        · rename_i synced
          cases ran
          have next := sync_ready B ih.ready synced listed apart
          exact ⟨next.1, next.2.1⟩

/-- The map stored under the root has exactly the pages of `file`. -/
def Identifies (db : CraftDatabase Db) (file : Bytes) : Prop :=
  ∃ m, MapAt db.vfs.store db.rootCid m ∧ ∀ k : UInt32, m[k]? =
    if k.toNat < count db.vfs.pageSize.bytes file.length then
      some (Cid.fromData B (filePage db.vfs.pageSize.bytes file k.toNat)) else none

/-- Every synced file has fewer than `2 ^ 32` pages. -/
def Small (db : CraftDatabase Db) (files : List Bytes) : Prop :=
  ∀ file ∈ files, count db.vfs.pageSize.bytes file.length < 2 ^ 32

theorem Tracks.mapAt {db : CraftDatabase Db} {files : List Bytes} (tracks : Tracks B db files)
    (small : Small db files) : MapAt db.vfs.store db.rootCid db.vfs.pageIndex.entries := by
  obtain ⟨_, stored⟩ := tracks.ready.rooted _ tracks.current
  have short : db.vfs.pageIndex.entries.size < 2 ^ 32 := by
    have bound : db.vfs.pageIndex.entries.size ≤ 2 ^ 32 - 1 := by
      apply size_le_of_keys
      intro k present
      by_contra far
      apply present
      rw [tracks.ready.entries small, overlay_eq_none_iff]
      intro file member
      have := small file member
      omega
    omega
  rw [MapAt, stored, Option.map_some, PageIndex.serialize,
    Craftec.Vfs.Index.deserialize_serialize _ short]

/-- No file synced before has more pages than the latest one. -/
def NeverShrunk (db : CraftDatabase Db) (file : Bytes) (files : List Bytes) : Prop :=
  ∀ earlier ∈ files, count db.vfs.pageSize.bytes earlier.length ≤
    count db.vfs.pageSize.bytes file.length

theorem overlay_of_neverShrunk {db : CraftDatabase Db} {file : Bytes} {files : List Bytes}
    (grown : NeverShrunk db file files) (k : ℕ) :
    overlay B db.vfs.pageSize.bytes (file :: files) k =
      if k < count db.vfs.pageSize.bytes file.length then
        some (Cid.fromData B (filePage db.vfs.pageSize.bytes file k)) else none := by
  rw [overlay]
  split
  · rfl
  · rename_i outside
    rw [overlay_eq_none_iff]
    intro earlier member
    have := grown earlier member
    omega

/-- After successful executes the root identifies the file exactly when no file
synced before had more pages; then equal files have equal roots. -/
theorem root_identifies_iff {db : CraftDatabase Db} {file : Bytes} {files : List Bytes}
    (history : History B L db (file :: files)) (small : Small db (file :: files)) :
    (Identifies B db file ↔ NeverShrunk db file files) ∧
      ∀ other others, History B L other (file :: others) → Small other (file :: others) →
        other.vfs.pageSize = db.vfs.pageSize → NeverShrunk db file files →
        NeverShrunk other file others → other.rootCid = db.rootCid := by
  have tracks := history_tracks B L history
  have mapAt := tracks.mapAt B small
  refine ⟨⟨?_, ?_⟩, ?_⟩
  · rintro ⟨m, stored, exactly⟩ earlier member
    by_contra larger
    rw [not_le] at larger
    have same := MapAt.unique stored mapAt
    have bound := small earlier (List.mem_cons_of_mem _ member)
    have number : (UInt32.ofNat (count db.vfs.pageSize.bytes file.length)).toNat =
        count db.vfs.pageSize.bytes file.length := by
      rw [UInt32.toNat_ofNat', Nat.mod_eq_of_lt (by omega)]
    have missing := exactly (UInt32.ofNat (count db.vfs.pageSize.bytes file.length))
    rw [same, tracks.ready.entries small, number, if_neg (lt_irrefl _), overlay_eq_none_iff] at missing
    have short := missing earlier (List.mem_cons_of_mem _ member)
    omega
  · intro grown
    refine ⟨_, mapAt, ?_⟩
    intro k
    rw [tracks.ready.entries small, overlay_of_neverShrunk B grown]
  · intro other others history' small' size grown grown'
    have tracks' := history_tracks B L history'
    have entries : other.vfs.pageIndex.entries = db.vfs.pageIndex.entries := by
      apply Std.ExtTreeMap.ext_getElem?
      intro k
      rw [tracks.ready.entries small, tracks'.ready.entries small', overlay_of_neverShrunk B grown,
        overlay_of_neverShrunk B grown', size]
    rw [(tracks.ready.rooted _ tracks.current).1, (tracks'.ready.rooted _ tracks'.current).1,
      PageIndex.serialize, PageIndex.serialize, entries]

theorem filePages_pageEngine (n : ℕ) : filePages 512 (pageEngine.file n) =
    (List.range n).map fun i => (UInt32.ofNat i, fillPage 1) := by
  have pages : count 512 (512 * n) = n := by
    unfold count
    omega
  have length : (pageEngine.file n).length = 512 * n := List.length_replicate
  rw [filePages, length, pages]
  apply List.map_congr_left
  intro i member
  have inside := List.mem_range.mp member
  have whole : Craftec.Library.Chunks.chunk 512 (pageEngine.file n) i = List.replicate 512 1 := by
    have room : min 512 (512 * n - i * 512) = 512 := by omega
    simp only [Craftec.Library.Chunks.chunk, pageEngine, List.drop_replicate, List.take_replicate,
      room]
  rw [filePage, whole, padPage, List.length_replicate, Nat.sub_self, List.replicate_zero,
    List.append_nil]
  rfl

theorem sync_pageEngine (n : ℕ) (v : CidVfs) (pages : List (UInt32 × Bytes))
    (clean : v.dirtyPages = ∅) (size : v.pageSize = smallPage)
    (listed : ((∅ : PageMap Bytes).insertMany
      ((List.range n).map fun i => (UInt32.ofNat i, fillPage 1))).toList = pages)
    (some_ : pages ≠ []) :
    syncPagesToVfs B (pageEngine.file n) (quietEnv (pageEngine.file n) v) v =
      ((v.stored B pages).publish B,
        .ok (Cid.fromData B (v.stored B pages).pageIndex.serialize)) := by
  have dirty : (buffered (pageEngine.file n) v).dirtyPages = (∅ : PageMap Bytes).insertMany
      ((List.range n).map fun i => (UInt32.ofNat i, fillPage 1)) := by
    simp only [buffered, clean, size]
    exact congrArg _ (filePages_pageEngine n)
  have order : (quietEnv (pageEngine.file n) v).order = pages := by
    rw [← listed, ← dirty]
    rfl
  have nonempty : (buffered (pageEngine.file n) v).dirtyPages.isEmpty = false := by
    rw [← Bool.not_eq_true, Std.ExtTreeMap.isEmpty_iff]
    intro empty
    apply some_
    rw [← listed, ← dirty, empty]
    rfl
  have drained : { buffered (pageEngine.file n) v with dirtyPages := ∅ } = v := by
    rw [← clean]
    rfl
  have result := commit_of_no_fault B pages (fun _ => none) (buffered (pageEngine.file n) v)
    nonempty (fun _ _ => rfl)
  rw [drained] at result
  have quiet : (quietEnv (pageEngine.file n) v).readFault = none := rfl
  have puts : (quietEnv (pageEngine.file n) v).putFault = fun _ => none := rfl
  simp only [syncPagesToVfs, quiet, writePages_file, order, puts, result]

/-- The index of a database of `n` equal pages. -/
def pageEntries (n : ℕ) : PageMap Cid :=
  (∅ : PageMap Cid).insertMany
    ((List.range n).map fun i => (UInt32.ofNat i, Cid.fromBytes (Bytes32.fill 1)))

/-- The objects that databases of one and two pages store. -/
def objects : List Bytes :=
  [fillPage 1, serializeEntries (pageEntries 1), serializeEntries (pageEntries 2)]

theorem objects_apart : ∀ a ∈ objects, ∀ b ∈ objects,
    Cid.fromData Blake3.byLeading a = Cid.fromData Blake3.byLeading b → a = b := by
  have page : Cid.fromData Blake3.byLeading (fillPage 1) = Cid.fromBytes (Bytes32.fill 1) :=
    leading_fillPage 1
  have one : Cid.fromData Blake3.byLeading (fillPage 1) ≠
      Cid.fromData Blake3.byLeading (serializeEntries (pageEntries 1)) := by
    rw [page, serializeEntries, Craftec.Vfs.Index.mergeSort_toList]
    decide
  have two : Cid.fromData Blake3.byLeading (fillPage 1) ≠
      Cid.fromData Blake3.byLeading (serializeEntries (pageEntries 2)) := by
    rw [page, serializeEntries, Craftec.Vfs.Index.mergeSort_toList]
    decide
  have indexes : Cid.fromData Blake3.byLeading (serializeEntries (pageEntries 1)) ≠
      Cid.fromData Blake3.byLeading (serializeEntries (pageEntries 2)) := by
    rw [serializeEntries, Craftec.Vfs.Index.mergeSort_toList, serializeEntries,
      Craftec.Vfs.Index.mergeSort_toList]
    decide
  intro a ha b hb same
  simp only [objects, List.mem_cons, List.not_mem_nil, or_false] at ha hb
  rcases ha with rfl | rfl | rfl <;> rcases hb with rfl | rfl | rfl
  · rfl
  · exact (one same).elim
  · exact (two same).elim
  · exact (one same.symm).elim
  · rfl
  · exact (indexes same).elim
  · exact (two same.symm).elim
  · exact (indexes same.symm).elim
  · rfl

theorem noCollision_of_filed {v : CidVfs} (filed : Filed Blake3.byLeading {x | x ∈ objects} v.store)
    (index : v.pageIndex.serialize ∈ objects) : NoCollision Blake3.byLeading v := by
  intro cid data bound same
  exact objects_apart data (filed cid data bound).2 _ index same

/-- The page layer after syncing a file of one page, then of two, then of one. -/
def vfs0 : CidVfs := ⟨fun _ => none, PageIndex.new, fun _ => none, ∅, none, smallPage⟩

def vfs1 : CidVfs := (vfs0.stored Blake3.byLeading [(0, fillPage 1)]).publish Blake3.byLeading

def vfs2 : CidVfs :=
  (vfs1.stored Blake3.byLeading [(0, fillPage 1), (1, fillPage 1)]).publish Blake3.byLeading

def vfs3 : CidVfs := (vfs2.stored Blake3.byLeading [(0, fillPage 1)]).publish Blake3.byLeading

theorem vfs1_entries : vfs1.pageIndex.entries = pageEntries 1 := by
  show (∅ : PageMap Cid).insert 0 (Cid.fromData Blake3.byLeading (fillPage 1)) = pageEntries 1
  rw [leading_fillPage]
  rfl

theorem vfs2_entries : vfs2.pageIndex.entries = pageEntries 2 := by
  show (vfs1.pageIndex.entries.insert 0 (Cid.fromData Blake3.byLeading (fillPage 1))).insert 1
    (Cid.fromData Blake3.byLeading (fillPage 1)) = pageEntries 2
  rw [leading_fillPage, vfs1_entries]
  decide

theorem vfs3_entries : vfs3.pageIndex.entries = pageEntries 2 := by
  show vfs2.pageIndex.entries.insert 0 (Cid.fromData Blake3.byLeading (fillPage 1)) = pageEntries 2
  rw [leading_fillPage, vfs2_entries]
  decide

theorem vfs1_filed : Filed Blake3.byLeading {x | x ∈ objects} vfs1.store := by
  have index : vfs1.pageIndex.serialize ∈ objects := by
    rw [PageIndex.serialize, vfs1_entries]
    simp [objects]
  have page : fillPage 1 ∈ objects := List.mem_cons_self
  have empty : Filed Blake3.byLeading {x | x ∈ objects} fun _ => none := by
    intro _ _ bound
    cases bound
  exact put_filed (put_filed empty page) index

theorem vfs2_filed : Filed Blake3.byLeading {x | x ∈ objects} vfs2.store := by
  have index : vfs2.pageIndex.serialize ∈ objects := by
    rw [PageIndex.serialize, vfs2_entries]
    simp [objects]
  have page : fillPage 1 ∈ objects := List.mem_cons_self
  exact put_filed (put_filed (put_filed vfs1_filed page) page) index

theorem vfs3_filed : Filed Blake3.byLeading {x | x ∈ objects} vfs3.store := by
  have index : vfs3.pageIndex.serialize ∈ objects := by
    rw [PageIndex.serialize, vfs3_entries]
    simp [objects]
  have page : fillPage 1 ∈ objects := List.mem_cons_self
  exact put_filed (put_filed vfs2_filed page) index

def someOwner : NodeId := ⟨Bytes32.fill 9⟩

/-- The database with `n` pages over a page layer that has just published its index. -/
def databaseAt (n : ℕ) (v : CidVfs) : CraftDatabase ℕ :=
  ⟨Cid.fromData Blake3.byLeading someOwner.asBytes, someOwner, v,
    Cid.fromData Blake3.byLeading v.pageIndex.serialize, n⟩

theorem history_created :
    History Blake3.byLeading pageEngine (databaseAt 1 vfs1) [pageEngine.file 1] := by
  have setup : runSetup pageEngine 1 setupStatements = .ok 1 := by
    simp [runSetup, setupStatements, pageEngine]
  have synced := sync_pageEngine Blake3.byLeading 1 vfs0 [(0, fillPage 1)] rfl rfl rfl (by simp)
  have made : CraftDatabase.create Blake3.byLeading pageEngine someOwner vfs0 none (.ok 1)
      (quietEnv (pageEngine.file 1) vfs0) = .ok (databaseAt 1 vfs1) := by
    simp only [CraftDatabase.create, setup, synced]
    rfl
  have apart : NoCollision Blake3.byLeading vfs1 := by
    apply noCollision_of_filed vfs1_filed
    rw [PageIndex.serialize, vfs1_entries]
    simp [objects]
  have honest : Honest Blake3.byLeading fun _ => none := by
    intro _ _ bound
    cases bound
  exact .create honest (show CidVfs.new (fun _ => none) 512 = .ok vfs0 from rfl) made
    (quietEnv_listed _ _) apart

theorem history_grown :
    History Blake3.byLeading pageEngine (databaseAt 2 vfs2)
      [pageEngine.file 2, pageEngine.file 1] := by
  have inserts : pageEngine.execute 1 "INSERT INTO t VALUES (1)" = (2, .ok ()) := by
    simp [pageEngine]
  have synced := sync_pageEngine Blake3.byLeading 2 vfs1 [(0, fillPage 1), (1, fillPage 1)] rfl rfl
    rfl (by simp)
  have ran : (databaseAt 1 vfs1).execute Blake3.byLeading pageEngine "INSERT INTO t VALUES (1)"
      someOwner (quietEnv (pageEngine.file 2) vfs1) = (databaseAt 2 vfs2, .ok ()) := by
    have owner : checkOwnership someOwner (databaseAt 1 vfs1).owner = .ok () := rfl
    have contents : (databaseAt 1 vfs1).contents = 1 := rfl
    have layer : (databaseAt 1 vfs1).vfs = vfs1 := rfl
    simp only [CraftDatabase.execute, owner, contents, inserts, layer, synced]
    rfl
  have apart : NoCollision Blake3.byLeading vfs2 := by
    apply noCollision_of_filed vfs2_filed
    rw [PageIndex.serialize, vfs2_entries]
    simp [objects]
  exact .execute history_created ran (quietEnv_listed _ _) apart

theorem history_vacuumed :
    History Blake3.byLeading pageEngine (databaseAt 1 vfs3)
      [pageEngine.file 1, pageEngine.file 2, pageEngine.file 1] := by
  have vacuums : pageEngine.execute 2 "VACUUM" = (1, .ok ()) := by
    simp [pageEngine]
  have synced := sync_pageEngine Blake3.byLeading 1 vfs2 [(0, fillPage 1)] rfl rfl rfl (by simp)
  have ran : (databaseAt 2 vfs2).execute Blake3.byLeading pageEngine "VACUUM" someOwner
      (quietEnv (pageEngine.file 1) vfs2) = (databaseAt 1 vfs3, .ok ()) := by
    have owner : checkOwnership someOwner (databaseAt 2 vfs2).owner = .ok () := rfl
    have contents : (databaseAt 2 vfs2).contents = 2 := rfl
    have layer : (databaseAt 2 vfs2).vfs = vfs2 := rfl
    simp only [CraftDatabase.execute, owner, contents, vacuums, layer, synced]
    rfl
  have apart : NoCollision Blake3.byLeading vfs3 := by
    apply noCollision_of_filed vfs3_filed
    rw [PageIndex.serialize, vfs3_entries]
    simp [objects]
  exact .execute history_grown ran (quietEnv_listed _ _) apart

theorem count_pageEngine (n : ℕ) : count 512 (pageEngine.file n).length = n := by
  have length : (pageEngine.file n).length = 512 * n := List.length_replicate
  rw [length]
  unfold count
  omega

theorem root_identifies_grown :
    History Blake3.byLeading pageEngine (databaseAt 2 vfs2)
        [pageEngine.file 2, pageEngine.file 1] ∧
      Identifies Blake3.byLeading (databaseAt 2 vfs2) (pageEngine.file 2) := by
  have size : (databaseAt 2 vfs2).vfs.pageSize.bytes = 512 := rfl
  have small : Small (databaseAt 2 vfs2) [pageEngine.file 2, pageEngine.file 1] := by
    intro file member
    simp only [List.mem_cons, List.not_mem_nil, or_false] at member
    rcases member with rfl | rfl <;> rw [size, count_pageEngine] <;> decide
  have grown : NeverShrunk (databaseAt 2 vfs2) (pageEngine.file 2) [pageEngine.file 1] := by
    intro file member
    rw [List.mem_singleton.mp member, size, count_pageEngine, count_pageEngine]
    decide
  exact ⟨history_grown, (root_identifies_iff Blake3.byLeading pageEngine history_grown
    small).1.mpr grown⟩

/-- After `VACUUM` the file has one page and the map under the root still has two. -/
theorem root_keeps_freed_page :
    History Blake3.byLeading pageEngine (databaseAt 1 vfs3)
        [pageEngine.file 1, pageEngine.file 2, pageEngine.file 1] ∧
      ¬ Identifies Blake3.byLeading (databaseAt 1 vfs3) (pageEngine.file 1) := by
  refine ⟨history_vacuumed, ?_⟩
  rintro ⟨m, stored, exactly⟩
  have size : (databaseAt 1 vfs3).vfs.pageSize.bytes = 512 := rfl
  have small : Small (databaseAt 1 vfs3)
      [pageEngine.file 1, pageEngine.file 2, pageEngine.file 1] := by
    intro file member
    simp only [List.mem_cons, List.not_mem_nil, or_false] at member
    rcases member with rfl | rfl | rfl <;> rw [size, count_pageEngine] <;> decide
  have tracks := history_tracks Blake3.byLeading pageEngine history_vacuumed
  have same := MapAt.unique stored (tracks.mapAt Blake3.byLeading small)
  have entries : (databaseAt 1 vfs3).vfs.pageIndex.entries = pageEntries 2 := vfs3_entries
  have freed := exactly 1
  rw [same, entries, size, count_pageEngine, if_neg (by decide)] at freed
  revert freed
  decide

end Craftec.Sql.Histories
