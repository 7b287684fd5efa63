/- GID: Craftec/Vfs/Commit
   generality: I
   digest: The page layer as sequential calls, and when a failed commit leaves it as it was. -/

import Mathlib
import Craftec.Library.OrderedMap
import Craftec.Types.Digest
import Craftec.Vfs.Index

set_option autoImplicit false
set_option relaxedAutoImplicit false

namespace Craftec.Vfs.Commit

open Craftec.Types.Digest (Bytes Bytes32 Blake3 Cid leading)
open Craftec.Vfs.Index (PageMap PageIndex VfsError deserializeEntries deserialize_serialize
  serializeEntries)

/-- What the content-addressed store holds under each identifier. -/
abbrev Contents := Cid → Option Bytes

/-- The page sizes that `CidVfs::new` accepts. -/
structure PageSize where
  bytes : ℕ
  inRange : 512 ≤ bytes ∧ bytes ≤ 65536
  powerOfTwo : 2 ^ Nat.log2 bytes = bytes

structure CidVfs where
  store : Contents
  pageIndex : PageIndex
  pageCache : Cid × UInt32 → Option Bytes
  dirtyPages : PageMap Bytes
  currentRoot : Option Cid
  pageSize : PageSize

def CidVfs.new (store : Contents) (pageSize : ℕ) : Except VfsError CidVfs :=
  if valid : (512 ≤ pageSize ∧ pageSize ≤ 65536) ∧ 2 ^ Nat.log2 pageSize = pageSize then
    .ok ⟨store, PageIndex.new, fun _ => none, ∅, none, ⟨pageSize, valid.1, valid.2⟩⟩
  else .error (.invalidPageSize pageSize)

def CidVfs.writePage (v : CidVfs) (page : UInt32) (data : Bytes) : CidVfs × Except VfsError Unit :=
  if data.length ≠ v.pageSize.bytes then (v, .error (.invalidPageSize data.length))
  else ({ v with dirtyPages := v.dirtyPages.insert page data }, .ok ())

variable (B : Blake3)

/-- A successful `store.put`: an object that is already there is not written again. -/
def Contents.put (store : Contents) (data : Bytes) : Contents :=
  Function.update store (Cid.fromData B data) (some ((store (Cid.fromData B data)).getD data))

def CidVfs.storePage (v : CidVfs) (page : UInt32) (data : Bytes) : CidVfs :=
  { v with store := v.store.put B data, pageIndex := v.pageIndex.set page (Cid.fromData B data) }

/-- The loop of `commit` over the drained pages. `fault n` is the error text of
the `n`-th `store.put` of this commit, if that one fails. -/
def storePages (fault : ℕ → Option String) :
    ℕ → CidVfs → List (UInt32 × Bytes) → CidVfs × Except VfsError Unit
  | _, v, [] => (v, .ok ())
  | n, v, (page, data) :: rest =>
    match fault n with
    | some e => (v, .error (.storeError e))
    | none => storePages fault (n + 1) (v.storePage B page data) rest

/-- The end of `commit`: the serialised index is stored and becomes the root. -/
def CidVfs.publish (v : CidVfs) : CidVfs :=
  let serialised := v.pageIndex.serialize
  let newRoot := Cid.fromData B serialised
  { v with store := v.store.put B serialised, pageIndex := v.pageIndex.setRoot newRoot,
           currentRoot := some newRoot }

/-- `commit`, with the hash map of drained pages iterated in the order `order`. -/
def CidVfs.commit (order : List (UInt32 × Bytes)) (fault : ℕ → Option String) (v : CidVfs) :
    CidVfs × Except VfsError Cid :=
  let drained := { v with dirtyPages := ∅ }
  if v.dirtyPages.isEmpty then
    match v.currentRoot with
    | some root => (drained, .ok root)
    | none => (drained, .error .noRootCid)
  else
    match storePages B fault 0 drained order with
    | (w, .error e) => (w, .error e)
    | (w, .ok ()) =>
      match fault order.length with
      | some e => (w, .error (.storeError e))
      | none => (w.publish B, .ok (Cid.fromData B w.pageIndex.serialize))

/-- The state after the pages of a list have been stored and indexed. -/
def CidVfs.stored (v : CidVfs) (pages : List (UInt32 × Bytes)) : CidVfs :=
  pages.foldl (fun v e => v.storePage B e.1 e.2) v

/-- The page map `m` is what the bytes stored under `root` read back to. -/
def MapAt (store : Contents) (root : Cid) (m : PageMap Cid) : Prop :=
  (store root).map deserializeEntries = some (.ok m)

def Grows (old new : Contents) : Prop := ∀ cid data, old cid = some data → new cid = some data

theorem put_grows (store : Contents) (data : Bytes) : Grows store (store.put B data) := by
  intro cid old bound
  by_cases same : cid = Cid.fromData B data
  · subst same
    simp [Contents.put, bound]
  · simp [Contents.put, same, bound]

/-- Every object is stored under its own hash, and is one of `objects`. -/
def Filed (objects : Set Bytes) (store : Contents) : Prop :=
  ∀ cid data, store cid = some data → Cid.fromData B data = cid ∧ data ∈ objects

section Filing

variable {B} {objects : Set Bytes}

theorem put_filed {store : Contents} (filed : Filed B objects store) {data : Bytes}
    (listed : data ∈ objects) : Filed B objects (store.put B data) := by
  intro cid found bound
  by_cases here : cid = Cid.fromData B data
  · subst here
    cases old : store (Cid.fromData B data) with
    | none =>
      have same : data = found := by simpa [Contents.put, old] using bound
      exact ⟨congrArg _ same.symm, same ▸ listed⟩
    | some earlier =>
      have same : earlier = found := by simpa [Contents.put, old] using bound
      rw [← same]
      exact filed _ _ old
  · exact filed cid found (by simpa [Contents.put, here] using bound)

theorem stored_filed {v : CidVfs} (filed : Filed B objects v.store) {pages : List (UInt32 × Bytes)}
    (listed : ∀ e ∈ pages, e.2 ∈ objects) : Filed B objects (v.stored B pages).store := by
  induction pages generalizing v with
  | nil => exact filed
  | cons entry pages ih =>
    refine ih (v := v.storePage B entry.1 entry.2) (put_filed filed (listed entry List.mem_cons_self)) ?_
    exact fun e member => listed e (List.mem_cons_of_mem _ member)

end Filing

theorem MapAt.grow {old new : Contents} {root : Cid} {m : PageMap Cid} (grows : Grows old new)
    (at_ : MapAt old root m) : MapAt new root m := by
  unfold MapAt at at_ ⊢
  cases bound : old root with
  | none =>
    rw [bound] at at_
    cases at_
  | some data =>
    rw [bound] at at_
    rw [grows root data bound]
    exact at_

theorem Grows.refl (store : Contents) : Grows store store := fun _ _ bound => bound

theorem put_mapAt {store : Contents} {m : PageMap Cid} (small : m.size < 2 ^ 32)
    (fresh : ∀ old, store (Cid.fromData B (serializeEntries m)) = some old →
      old = serializeEntries m) :
    MapAt (store.put B (serializeEntries m)) (Cid.fromData B (serializeEntries m)) m := by
  have stored : store.put B (serializeEntries m) (Cid.fromData B (serializeEntries m)) =
      some (serializeEntries m) := by
    cases bound : store (Cid.fromData B (serializeEntries m)) with
    | none => simp [Contents.put, bound]
    | some old => simp [Contents.put, bound, fresh old bound]
  rw [MapAt, stored, Option.map_some, deserialize_serialize m small]

theorem MapAt.unique {store : Contents} {root : Cid} {m n : PageMap Cid} (one : MapAt store root m)
    (two : MapAt store root n) : m = n := by
  unfold MapAt at one two
  rw [one] at two
  exact Except.ok.inj (Option.some.inj two)

theorem storePages_of_no_fault (fault : ℕ → Option String) (pages : List (UInt32 × Bytes)) (n : ℕ)
    (v : CidVfs) (quiet : ∀ i < pages.length, fault (n + i) = none) :
    storePages B fault n v pages = (v.stored B pages, .ok ()) := by
  induction pages generalizing n v with
  | nil => rfl
  | cons entry pages ih =>
    have first : fault n = none := quiet 0 (by simp)
    have later : ∀ i < pages.length, fault (n + 1 + i) = none := by
      intro i hi
      have next := quiet (i + 1) (by simpa using hi)
      rwa [show n + 1 + i = n + (i + 1) by omega]
    simp only [storePages, first]
    exact ih (n + 1) _ later

theorem storePages_of_fault (fault : ℕ → Option String) (pages : List (UInt32 × Bytes)) (n j : ℕ)
    (v : CidVfs) (e : String) (hj : j < pages.length) (quiet : ∀ i < j, fault (n + i) = none)
    (fails : fault (n + j) = some e) :
    storePages B fault n v pages = (v.stored B (pages.take j), .error (.storeError e)) := by
  induction pages generalizing n j v with
  | nil => simp at hj
  | cons entry pages ih =>
    cases j with
    | zero =>
      have here : fault n = some e := fails
      simp only [storePages, here]
      rfl
    | succ j =>
      have first : fault n = none := quiet 0 (by omega)
      have before : ∀ i < j, fault (n + 1 + i) = none := by
        intro i hi
        have next := quiet (i + 1) (by omega)
        rwa [show n + 1 + i = n + (i + 1) by omega]
      have here : fault (n + 1 + j) = some e := by
        rwa [show n + 1 + j = n + (j + 1) by omega]
      simp only [storePages, first]
      exact ih (n + 1) j _ (by simpa using hj) before here

@[simp] theorem stored_dirtyPages (v : CidVfs) (pages : List (UInt32 × Bytes)) :
    (v.stored B pages).dirtyPages = v.dirtyPages := by
  induction pages generalizing v with
  | nil => rfl
  | cons entry pages ih => exact ih _

@[simp] theorem stored_entries (v : CidVfs) (pages : List (UInt32 × Bytes)) :
    (v.stored B pages).pageIndex.entries =
      v.pageIndex.entries.insertMany (pages.map fun e => (e.1, Cid.fromData B e.2)) := by
  induction pages generalizing v with
  | nil => simp [CidVfs.stored]
  | cons entry pages ih =>
    rw [List.map_cons, Std.ExtTreeMap.insertMany_cons]
    exact ih (v.storePage B entry.1 entry.2)

theorem stored_indexRoot (v : CidVfs) (pages : List (UInt32 × Bytes)) :
    (v.stored B pages).pageIndex.rootCid = v.pageIndex.rootCid := by
  induction pages generalizing v with
  | nil => rfl
  | cons entry pages ih => exact ih _

theorem stored_pageIndex {v w : CidVfs} (pages : List (UInt32 × Bytes))
    (same : w.pageIndex = v.pageIndex) :
    (w.stored B pages).pageIndex = (v.stored B pages).pageIndex := by
  induction pages generalizing v w with
  | nil => exact same
  | cons entry pages ih =>
    apply ih
    simp only [CidVfs.storePage, same]

theorem commit_of_fault (order : List (UInt32 × Bytes)) (fault : ℕ → Option String) (v : CidVfs)
    (dirty : v.dirtyPages.isEmpty = false) (j : ℕ) (e : String) (hj : j ≤ order.length)
    (quiet : ∀ i < j, fault i = none) (fails : fault j = some e) :
    v.commit B order fault =
      ({ v with dirtyPages := ∅ }.stored B (order.take j), .error (.storeError e)) := by
  rcases Nat.lt_or_eq_of_le hj with inside | last
  · have loop := storePages_of_fault B fault order 0 j { v with dirtyPages := ∅ } e inside
      (by simpa using quiet) (by simpa using fails)
    simp only [CidVfs.commit, dirty, loop]
    rfl
  · subst last
    have loop := storePages_of_no_fault B fault order 0 { v with dirtyPages := ∅ }
      (by simpa using quiet)
    simp only [CidVfs.commit, dirty, loop, fails, List.take_length]
    rfl

theorem commit_of_no_fault (order : List (UInt32 × Bytes)) (fault : ℕ → Option String) (v : CidVfs)
    (dirty : v.dirtyPages.isEmpty = false) (quiet : ∀ i ≤ order.length, fault i = none) :
    v.commit B order fault =
      (({ v with dirtyPages := ∅ }.stored B order).publish B,
        .ok (Cid.fromData B ({ v with dirtyPages := ∅ }.stored B order).pageIndex.serialize)) := by
  have loop := storePages_of_no_fault B fault order 0 { v with dirtyPages := ∅ }
    (fun i hi => by simpa using quiet i (le_of_lt hi))
  simp only [CidVfs.commit, dirty, loop, quiet order.length le_rfl]
  rfl

theorem commit_of_clean (order : List (UInt32 × Bytes)) (fault : ℕ → Option String) (v : CidVfs)
    (clean : v.dirtyPages = ∅) : (v.commit B order fault).1 = v := by
  have empty : v.dirtyPages.isEmpty = true := Std.ExtTreeMap.isEmpty_iff.mpr clean
  have drained : { v with dirtyPages := ∅ } = v := by rw [← clean]
  simp only [CidVfs.commit, empty, drained]
  cases v.currentRoot <;> rfl

theorem storePages_ok {fault : ℕ → Option String} {pages : List (UInt32 × Bytes)} {n : ℕ}
    {v w : CidVfs} (done : storePages B fault n v pages = (w, .ok ())) : w = v.stored B pages := by
  induction pages generalizing n v with
  | nil =>
    cases done
    rfl
  | cons entry pages ih =>
    simp only [storePages] at done
    split at done
    · cases done
    · exact ih done

theorem commit_ok {order : List (UInt32 × Bytes)} {fault : ℕ → Option String} {v w : CidVfs}
    {root : Cid} (done : v.commit B order fault = (w, .ok root)) :
    (v.dirtyPages = ∅ ∧ w = v ∧ v.currentRoot = some root) ∨
      (v.dirtyPages ≠ ∅ ∧ w = ({ v with dirtyPages := ∅ }.stored B order).publish B ∧
        root = Cid.fromData B ({ v with dirtyPages := ∅ }.stored B order).pageIndex.serialize) := by
  by_cases clean : v.dirtyPages = ∅
  · left
    have state := commit_of_clean B order fault v clean
    have empty : v.dirtyPages.isEmpty = true := Std.ExtTreeMap.isEmpty_iff.mpr clean
    rw [done] at state
    refine ⟨clean, state, ?_⟩
    simp only [CidVfs.commit, empty] at done
    cases current : v.currentRoot with
    | none => simp [current] at done
    | some r =>
      simp only [current] at done
      have same : r = root := by
        have answers := congrArg Prod.snd done
        exact Except.ok.inj answers
      rw [same]
  · right
    have dirty : v.dirtyPages.isEmpty = false := by
      rw [← Bool.not_eq_true, Std.ExtTreeMap.isEmpty_iff]
      exact clean
    simp only [CidVfs.commit, dirty] at done
    split at done
    · rename_i impossible
      cases impossible
    · split at done
      · cases done
      · rename_i u stored
        have pages := storePages_ok B stored
        split at done
        · cases done
        · cases done
          rw [← pages]
          exact ⟨clean, rfl, rfl⟩

/-- The three pieces of memory a retry of a failed commit starts from. -/
def SameMemory (v w : CidVfs) : Prop :=
  w.pageIndex = v.pageIndex ∧ w.currentRoot = v.currentRoot ∧ w.dirtyPages = v.dirtyPages

/-- A failed commit leaves index, root and dirty pages alone exactly when it had
no pages to store or none of its puts fails. -/
theorem commit_error_restores_iff (order : List (UInt32 × Bytes)) (fault : ℕ → Option String)
    (v : CidVfs) :
    (∀ e, (v.commit B order fault).2 = .error e → SameMemory v (v.commit B order fault).1) ↔
      (v.dirtyPages = ∅ ∨ ∀ i ≤ order.length, fault i = none) := by
  constructor
  · intro restores
    by_contra neither
    rw [not_or] at neither
    obtain ⟨dirty, faulty⟩ := neither
    push Not at faulty
    -- the first failing put is the one that ends the loop
    obtain ⟨within, present⟩ := Nat.find_spec faulty
    obtain ⟨e, fails⟩ := Option.ne_none_iff_exists'.mp present
    have quiet : ∀ i < Nat.find faulty, fault i = none := by
      intro i hi
      by_contra bad
      exact Nat.find_min faulty hi ⟨by omega, bad⟩
    have nonempty : v.dirtyPages.isEmpty = false := by
      rw [← Bool.not_eq_true, Std.ExtTreeMap.isEmpty_iff]
      exact dirty
    have result := commit_of_fault B order fault v nonempty _ e within quiet fails
    have same := restores (.storeError e) (by rw [result])
    rw [result] at same
    have drained : (∅ : PageMap Bytes) = v.dirtyPages := by simpa using same.2.2
    exact dirty drained.symm
  · rintro (clean | quiet) e failed
    · rw [commit_of_clean B order fault v clean]
      exact ⟨rfl, rfl, rfl⟩
    · by_cases clean : v.dirtyPages = ∅
      · rw [commit_of_clean B order fault v clean]
        exact ⟨rfl, rfl, rfl⟩
      · have nonempty : v.dirtyPages.isEmpty = false := by
          rw [← Bool.not_eq_true, Std.ExtTreeMap.isEmpty_iff]
          exact clean
        rw [commit_of_no_fault B order fault v nonempty quiet] at failed
        cases failed

def smallPage : PageSize := ⟨512, by decide, by decide⟩

/-- The page whose 512 bytes are all `b`. -/
def fillPage (b : UInt8) : Bytes := List.replicate 512 b

theorem leading_fillPage (b : UInt8) : Cid.fromData Blake3.byLeading (fillPage b) =
    Cid.fromBytes (Bytes32.fill b) := by
  have bytes : (fillPage b ++ List.replicate 32 0).take 32 = List.replicate 32 b := by
    have long : 32 ≤ (List.replicate 512 b).length := by
      rw [List.length_replicate]
      decide
    rw [fillPage, List.take_append_of_le_length long, List.take_replicate]
    rfl
  simp only [Cid.fromData, Cid.fromBytes, Blake3.byLeading, leading, Bytes32.fill, bytes]

def twoDirty : CidVfs :=
  ⟨fun _ => none, PageIndex.new, fun _ => none,
    ((∅ : PageMap Bytes).insert 0 (List.replicate 512 1)).insert 1 (List.replicate 512 2), none,
    smallPage⟩

def fullText : String := "store is full — no space left on device"

/-- The store is full at the second put: the first page is already indexed, and
neither page is buffered any more. -/
theorem commit_full_store_loses_pages :
    let order := [((0 : UInt32), List.replicate 512 (1 : UInt8)), (1, List.replicate 512 2)]
    let fault := fun i : ℕ => if i = 1 then some fullText else none
    let after := twoDirty.commit Blake3.byLeading order fault
    order.Perm twoDirty.dirtyPages.toList ∧ after.2 = .error (.storeError fullText) ∧
      ¬ SameMemory twoDirty after.1 := by
  intro order fault after
  have listed : twoDirty.dirtyPages.toList = order := rfl
  have result : after = ({ twoDirty with dirtyPages := ∅ }.stored Blake3.byLeading (order.take 1),
      .error (.storeError fullText)) :=
    commit_of_fault Blake3.byLeading order fault twoDirty rfl 1 fullText (by decide)
      (by decide) rfl
  refine ⟨listed ▸ List.Perm.refl _, by rw [result], ?_⟩
  intro same
  have drained : after.1.dirtyPages = ∅ := by
    rw [result]
    exact stored_dirtyPages _ _ _
  have kept := same.2.2
  rw [drained] at kept
  have page : twoDirty.dirtyPages[(0 : UInt32)]? = none := by rw [← kept]; rfl
  have bound : twoDirty.dirtyPages[(0 : UInt32)]? = some (List.replicate 512 1) := rfl
  rw [page] at bound
  cases bound

end Craftec.Vfs.Commit
