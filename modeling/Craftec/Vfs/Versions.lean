/- GID: Craftec/Vfs/Versions
   generality: I
   digest: The page layer, with its cache, index, roots and snapshots, answers as a store of versions. -/

import Mathlib
import Craftec.Library.OrderedMap
import Craftec.Types.Digest
import Craftec.Vfs.Commit
import Craftec.Vfs.Index
import Craftec.Vfs.Interleaving
import Craftec.Vfs.RootContents

set_option autoImplicit false
set_option relaxedAutoImplicit false

namespace Craftec.Vfs.Versions

open Craftec.Library.OrderedMap (getElem?_insertMany_map)
open Craftec.Types.Digest (Bytes Bytes32 Blake3 Cid)
open Craftec.Vfs.Commit (CidVfs Contents Filed Grows MapAt MapAt.grow MapAt.unique commit_of_clean
  commit_of_fault commit_of_no_fault fillPage leading_fillPage put_filed put_grows put_mapAt smallPage
  stored_dirtyPages stored_entries stored_filed)
open Craftec.Vfs.Index (PageMap PageIndex VfsError mergeSort_toList serializeEntries)
open Craftec.Vfs.Interleaving (Snapshot fetchPage getObject readPage zeroCid)
open Craftec.Vfs.Isolation (emptyVfs new_emptyVfs oneEntry)
open Craftec.Vfs.RootContents (noFault nonempty_of_ne onePage)

def snapshot (v : CidVfs) : Except VfsError Snapshot :=
  match v.currentRoot with
  | none => .error .noRootCid
  | some root => .ok ⟨root, v.pageIndex.entries⟩

def resolvePage (snap : Snapshot) (page : UInt32) : Option Cid := snap.entries[page]?

/-- What the one user of a page layer asks for. The cache may drop a page and
somebody else may put an object between any two calls; a commit and a read name the errors
of their store accesses, where they fail. -/
inductive Op where
  | writePage (page : UInt32) (data : Bytes)
  | commit (order : List (UInt32 × Bytes)) (fault : ℕ → Option String)
  | readPage (fault : Option String) (page : UInt32)
  | snapshot
  | resolve (i : ℕ) (page : UInt32)
  | evict (key : Cid × UInt32)
  | put (data : Bytes)

inductive Outcome where
  | written (result : Except VfsError Unit)
  | committed (result : Except VfsError Cid)
  | read (result : Except VfsError Bytes)
  | pinned (result : Except VfsError Cid)
  | resolved (result : Option (Cid × Except String (Option Bytes)))
  | silent

/-- The page layer and the snapshots its user holds, the oldest first. -/
structure Session where
  vfs : CidVfs
  snapshots : List Snapshot

section Code

variable (B : Blake3)

/-- A page of a snapshot is resolved in its pinned entries and read from the store. -/
def readPinned (s : Session) (i : ℕ) (page : UInt32) : Option (Cid × Except String (Option Bytes)) :=
  (s.snapshots[i]?.bind fun snap => resolvePage snap page).map fun cid =>
    (cid, getObject B s.vfs.store none cid)

def perform (s : Session) : Op → Session × Outcome
  | .writePage page data =>
    ({ s with vfs := (s.vfs.writePage page data).1 }, .written (s.vfs.writePage page data).2)
  | .commit order fault =>
    ({ s with vfs := (s.vfs.commit B order fault).1 }, .committed (s.vfs.commit B order fault).2)
  | .readPage fault page =>
    ({ s with vfs := (readPage B s.vfs fault page).1 }, .read (readPage B s.vfs fault page).2)
  | .snapshot =>
    match snapshot s.vfs with
    | .ok snap => ({ s with snapshots := s.snapshots ++ [snap] }, .pinned (.ok snap.rootCid))
    | .error e => (s, .pinned (.error e))
  | .resolve i page => (s, .resolved (readPinned B s i page))
  | .evict key =>
    ({ s with vfs := { s.vfs with pageCache := Function.update s.vfs.pageCache key none } }, .silent)
  | .put data => ({ s with vfs := { s.vfs with store := s.vfs.store.put B data } }, .silent)

end Code

section Spec

/-- What a page layer is for: pages written since the last commit, the pages as of
the last commit, and the versions that were pinned. -/
structure Book where
  pending : PageMap Bytes
  current : Option (PageMap Bytes)
  pinned : List (PageMap Bytes)

def Book.empty : Book := ⟨∅, none, []⟩

def Book.merged (b : Book) : PageMap Bytes :=
  (b.current.getD ∅).insertMany b.pending.toList

/-- A commit whose first put fails loses the pending pages and changes nothing else. -/
def Book.commit (b : Book) (fault : Option String) : Book :=
  if b.pending.isEmpty then b
  else
    match fault with
    | some _ => { b with pending := ∅ }
    | none => { b with pending := ∅, current := some b.merged }

def after (size : ℕ) (b : Book) : Op → Book
  | .writePage page data =>
    if data.length = size then { b with pending := b.pending.insert page data } else b
  | .commit _ fault => b.commit (fault 0)
  | .snapshot => { b with pinned := b.pinned ++ b.current.toList }
  | _ => b

variable (B : Blake3)

def cids (m : PageMap Bytes) : PageMap Cid := m.map fun _ data => Cid.fromData B data

def rootOf (m : PageMap Bytes) : Cid := Cid.fromData B (serializeEntries (cids B m))

/-- The answer a store of versions gives. A read sees the last commit and nothing
later; only a failing store keeps it from its answer. A snapshot sees its own version. -/
def Answers (size : ℕ) (b : Book) : Op → Outcome → Prop
  | .writePage _ data, .written result =>
    result = if data.length = size then .ok () else .error (.invalidPageSize data.length)
  | .commit _ fault, .committed result =>
    result = match if b.pending.isEmpty then none else fault 0 with
      | some e => .error (.storeError e)
      | none =>
        match (b.commit (fault 0)).current with
        | some m => .ok (rootOf B m)
        | none => .error .noRootCid
  | .readPage fault page, .read result =>
    match b.current.bind (·[page]?) with
    | some data => result = .ok data ∨ ∃ e, fault = some e ∧ result = .error (.storeError e)
    | none => result = .error (.pageNotFound page)
  | .snapshot, .pinned result =>
    result = match b.current with
      | some m => .ok (rootOf B m)
      | none => .error .noRootCid
  | .resolve i page, .resolved result =>
    result = (b.pinned[i]?.bind (·[page]?)).map fun data => (Cid.fromData B data, .ok (some data))
  | .evict _, .silent | .put _, .silent => True
  | _, _ => False

/-- Every call of the run is answered as the store of versions would answer it. -/
def Agrees (size : ℕ) : Session → Book → List Op → Prop
  | _, _, [] => True
  | s, b, op :: rest =>
    Answers B size b op (perform B s op).2 ∧ Agrees size (perform B s op).1 (after size b op) rest

variable (objects : Set Bytes)

/-- What a call asks of its surroundings: it stores nothing outside `objects`, a commit drains its pages
in some order and meets no error after its first put, and an index has fewer than `2 ^ 32` entries. -/
def Proper (b : Book) : Op → Prop
  | .writePage _ data | .put data => data ∈ objects
  | .commit order fault => order.Perm b.pending.toList ∧ (b.pending ≠ ∅ → fault 0 = none →
      (∀ k ≤ order.length, fault k = none) ∧ b.merged.size < 2 ^ 32 ∧
        serializeEntries (cids B b.merged) ∈ objects)
  | _ => True

def Undisturbed (size : ℕ) : Book → List Op → Prop
  | _, [] => True
  | b, op :: rest => Proper B objects b op ∧ Undisturbed size (after size b op) rest

end Spec

section Stored

variable {B : Blake3} {store : Contents} {m n : PageMap Bytes}

theorem getElem?_cids (m : PageMap Bytes) (page : UInt32) :
    (cids B m)[page]? = m[page]?.map (Cid.fromData B) := by
  rw [cids, Std.ExtTreeMap.getElem?_map]

theorem getElem?_merged (b : Book) (page : UInt32) :
    b.merged[page]? = b.pending[page]?.or (b.current.getD ∅)[page]? := by
  have whole := getElem?_insertMany_map (b.current.getD ∅) b.pending (List.Perm.refl _) id page
  simpa [Book.merged] using whole

/-- The store holds every page of a version, and its index under its root. -/
structure Stored (B : Blake3) (store : Contents) (m : PageMap Bytes) : Prop where
  pages : ∀ (page : UInt32) (data : Bytes), m[page]? = some data →
    store (Cid.fromData B data) = some data
  index : MapAt store (rootOf B m) (cids B m)

theorem Stored.grow {new : Contents} (stored : Stored B store m) (grows : Grows store new) :
    Stored B new m :=
  ⟨fun page data bound => grows _ _ (stored.pages page data bound), stored.index.grow grows⟩

theorem Stored.unique (one : Stored B store m) (two : Stored B store n)
    (same : rootOf B m = rootOf B n) : m = n := by
  have entries : cids B m = cids B n := by
    have first := one.index
    rw [same] at first
    exact first.unique two.index
  apply Std.ExtTreeMap.ext_getElem?
  intro page
  have pages : m[page]?.map (Cid.fromData B) = n[page]?.map (Cid.fromData B) := by
    rw [← getElem?_cids, ← getElem?_cids, entries]
  cases left : m[page]? with
  | none =>
    rw [left] at pages
    exact (Option.map_eq_none_iff.mp pages.symm).symm
  | some x =>
    rw [left] at pages
    obtain ⟨y, right, hashes⟩ := Option.map_eq_some_iff.mp pages.symm
    have held := one.pages page x left
    rw [← hashes, two.pages page y right] at held
    rw [right, Option.some.inj held]

variable {objects : Set Bytes}

theorem put_bound (filed : Filed B objects store) (apart : Set.InjOn (Cid.fromData B) objects)
    {data : Bytes} (listed : data ∈ objects) :
    store.put B data (Cid.fromData B data) = some data := by
  cases bound : store (Cid.fromData B data) with
  | none => simp [Contents.put, bound]
  | some old =>
    obtain ⟨hashes, member⟩ := filed _ old bound
    simp [Contents.put, bound, apart member listed hashes]

theorem getObject_bound {data : Bytes} (bound : store (Cid.fromData B data) = some data) :
    getObject B store none (Cid.fromData B data) = .ok (some data) := by
  simp [getObject, bound]

theorem fetchPage_bound (fault : Option String) (page : UInt32) {data : Bytes}
    (bound : store (Cid.fromData B data) = some data) :
    fetchPage B store fault page (Cid.fromData B data) =
      match fault with
      | some e => .error (.storeError e)
      | none => .ok data := by
  cases fault with
  | some e => simp [fetchPage, getObject]
  | none => simp [fetchPage, getObject_bound bound]

theorem stored_grows (apart : Set.InjOn (Cid.fromData B) objects) (pages : List (UInt32 × Bytes))
    (v : CidVfs) (filed : Filed B objects v.store) (listed : ∀ e ∈ pages, e.2 ∈ objects) :
    Grows v.store (v.stored B pages).store ∧
      ∀ e ∈ pages, (v.stored B pages).store (Cid.fromData B e.2) = some e.2 := by
  induction pages generalizing v with
  | nil => exact ⟨fun _ _ bound => bound, fun e member => absurd member List.not_mem_nil⟩
  | cons entry pages ih =>
    have here : entry.2 ∈ objects := listed entry List.mem_cons_self
    obtain ⟨grows, held⟩ := ih (v.storePage B entry.1 entry.2) (put_filed filed here) fun e member =>
      listed e (List.mem_cons_of_mem _ member)
    refine ⟨fun cid data bound => grows cid data (put_grows B _ _ cid data bound), ?_⟩
    intro e member
    rcases List.mem_cons.mp member with rfl | later
    · exact grows _ _ (put_bound filed apart here)
    · exact held e later

theorem stored_rest (pages : List (UInt32 × Bytes)) (v : CidVfs) :
    (v.stored B pages).pageCache = v.pageCache ∧ (v.stored B pages).pageSize = v.pageSize := by
  induction pages generalizing v with
  | nil => exact ⟨rfl, rfl⟩
  | cons entry pages ih => exact ih (v.storePage B entry.1 entry.2)

end Stored

/-- The page layer stands for these versions: dirty pages are the pending ones, index
and root are those of the current version, every version that can still be asked for
is stored, and a cached page is the page of a stored version with that root. -/
structure Versioned (B : Blake3) (objects : Set Bytes) (size : ℕ) (b : Book) (s : Session) :
    Prop where
  sized : s.vfs.pageSize.bytes = size
  dirty : s.vfs.dirtyPages = b.pending
  buffered : ∀ (page : UInt32) (data : Bytes), b.pending[page]? = some data → data ∈ objects
  filed : Filed B objects s.vfs.store
  indexed : s.vfs.pageIndex.entries = cids B (b.current.getD ∅)
  rooted : s.vfs.currentRoot = b.current.map (rootOf B)
  current : ∀ m, b.current = some m → Stored B s.vfs.store m
  pinned : ∀ m ∈ b.pinned, Stored B s.vfs.store m
  snapshots : s.snapshots = b.pinned.map fun m => ⟨rootOf B m, cids B m⟩
  cached : ∀ root page bytes, s.vfs.pageCache (root, page) = some bytes →
    ∃ m, Stored B s.vfs.store m ∧ rootOf B m = root ∧ m[page]? = some bytes
  unread : b.current = none → ∀ key, s.vfs.pageCache key = none

section Steps

variable {B : Blake3} {objects : Set Bytes} {size : ℕ} {b : Book} {s : Session}

theorem Versioned.grow (before : Versioned B objects size b s) {store : Contents}
    (grows : Grows s.vfs.store store) (filed : Filed B objects store) :
    Versioned B objects size b { s with vfs := { s.vfs with store := store } } where
  sized := before.sized
  dirty := before.dirty
  buffered := before.buffered
  filed := filed
  indexed := before.indexed
  rooted := before.rooted
  current := fun m now => (before.current m now).grow grows
  pinned := fun m held => (before.pinned m held).grow grows
  snapshots := before.snapshots
  cached := by
    intro root page bytes hit
    obtain ⟨m, stored, rest⟩ := before.cached root page bytes hit
    exact ⟨m, stored.grow grows, rest⟩
  unread := before.unread

theorem Versioned.write (before : Versioned B objects size b s) (page : UInt32) {data : Bytes}
    (listed : data ∈ objects) :
    Answers B size b (.writePage page data) (perform B s (.writePage page data)).2 ∧
      Versioned B objects size (after size b (.writePage page data))
        (perform B s (.writePage page data)).1 := by
  by_cases whole : data.length = size
  · have written : s.vfs.writePage page data =
        ({ s.vfs with dirtyPages := s.vfs.dirtyPages.insert page data }, .ok ()) := by
      simp [CidVfs.writePage, before.sized, whole]
    simp only [Answers, after, perform, written, if_pos whole]
    refine ⟨trivial, { before with dirty := ?_, buffered := ?_ }⟩
    · exact congrArg (·.insert page data) before.dirty
    · intro other found bound
      have bound : (b.pending.insert page data)[other]? = some found := bound
      rw [Std.ExtTreeMap.getElem?_insert] at bound
      split at bound
      · cases bound
        exact listed
      · exact before.buffered other found bound
  · have refused : s.vfs.writePage page data = (s.vfs, .error (.invalidPageSize data.length)) := by
      simp [CidVfs.writePage, before.sized, whole]
    simp only [Answers, after, perform, refused, if_neg whole]
    exact ⟨trivial, before⟩

theorem Versioned.stored_merged (before : Versioned B objects size b s)
    (apart : Set.InjOn (Cid.fromData B) objects) {order : List (UInt32 × Bytes)}
    (listed : order.Perm b.pending.toList) (small : b.merged.size < 2 ^ 32)
    (index : serializeEntries (cids B b.merged) ∈ objects) :
    let v := { s.vfs with dirtyPages := ∅ }.stored B order
    v.pageIndex.entries = cids B b.merged ∧ Grows s.vfs.store (v.publish B).store ∧
      Filed B objects (v.publish B).store ∧ Stored B (v.publish B).store b.merged := by
  intro v
  have entries : v.pageIndex.entries = cids B b.merged := by
    apply Std.ExtTreeMap.ext_getElem?
    intro page
    rw [stored_entries, getElem?_cids, getElem?_merged,
      getElem?_insertMany_map s.vfs.pageIndex.entries b.pending listed (Cid.fromData B) page,
      before.indexed, getElem?_cids, Option.map_or]
  have drained (e : UInt32 × Bytes) (member : e ∈ order) : b.pending[e.1]? = some e.2 :=
    Std.ExtTreeMap.mem_toList_iff_getElem?_eq_some.mp (listed.mem_iff.mp member)
  have pages : ∀ e ∈ order, e.2 ∈ objects := fun e member =>
    before.buffered e.1 e.2 (drained e member)
  have filed := stored_filed (v := { s.vfs with dirtyPages := ∅ }) before.filed pages
  obtain ⟨grows, held⟩ := stored_grows apart order { s.vfs with dirtyPages := ∅ } before.filed pages
  have published : (v.publish B).store = v.store.put B (serializeEntries (cids B b.merged)) := by
    rw [← entries]
    rfl
  have onward : Grows v.store (v.publish B).store := by
    rw [published]
    exact put_grows B _ _
  refine ⟨entries, fun cid data bound => onward cid data (grows cid data bound), ?_, ?_, ?_⟩
  · rw [published]
    exact put_filed filed index
  · -- a page of the merged version was pending, or belongs to the version before
    intro page data bound
    rw [getElem?_merged] at bound
    cases pending : b.pending[page]? with
    | some new =>
      rw [pending, Option.some_or] at bound
      cases bound
      refine onward _ _ (held (page, data) (listed.mem_iff.mpr ?_))
      exact Std.ExtTreeMap.mem_toList_iff_getElem?_eq_some.mpr pending
    | none =>
      rw [pending, Option.none_or] at bound
      cases now : b.current with
      | none =>
        rw [now, Option.getD_none, Std.ExtTreeMap.getElem?_empty] at bound
        cases bound
      | some m =>
        rw [now, Option.getD_some] at bound
        exact onward _ _ (grows _ _ ((before.current m now).pages page data bound))
  · rw [published]
    refine put_mapAt B (by rwa [cids, Std.ExtTreeMap.size_map]) ?_
    intro old bound
    obtain ⟨hashes, member⟩ := filed _ old bound
    exact apart member index hashes

theorem Versioned.commit_fails (before : Versioned B objects size b s) {order : List (UInt32 × Bytes)}
    {fault : ℕ → Option String} (dirty : b.pending ≠ ∅) {e : String} (fails : fault 0 = some e) :
    Answers B size b (.commit order fault) (perform B s (.commit order fault)).2 ∧
      Versioned B objects size (after size b (.commit order fault))
        (perform B s (.commit order fault)).1 := by
  have dirty' : s.vfs.dirtyPages.isEmpty = false := by
    rw [before.dirty]
    exact nonempty_of_ne dirty
  have failed := commit_of_fault B order fault s.vfs dirty' 0 e (Nat.zero_le _)
    (fun i early => absurd early (Nat.not_lt_zero i)) fails
  have loses : b.commit (some e) = { b with pending := ∅ } := by
    rw [Book.commit, nonempty_of_ne dirty]
    rfl
  simp only [Answers, after, perform, failed, fails, loses, nonempty_of_ne dirty, Bool.false_eq_true,
    if_false]
  refine ⟨trivial, { before with dirty := rfl, buffered := ?_ }⟩
  intro page data bound
  have none_ : (∅ : PageMap Bytes)[page]? = some data := bound
  rw [Std.ExtTreeMap.getElem?_empty] at none_
  cases none_

theorem Versioned.commit (before : Versioned B objects size b s)
    (apart : Set.InjOn (Cid.fromData B) objects) {order : List (UInt32 × Bytes)}
    {fault : ℕ → Option String} (proper : Proper B objects b (.commit order fault)) :
    Answers B size b (.commit order fault) (perform B s (.commit order fault)).2 ∧
      Versioned B objects size (after size b (.commit order fault))
        (perform B s (.commit order fault)).1 := by
  obtain ⟨listed, fits⟩ := proper
  by_cases clean : b.pending = ∅
  · -- nothing to store: the current root, if there is one, is the answer
    have clean' : s.vfs.dirtyPages = ∅ := before.dirty.trans clean
    have empty : b.pending.isEmpty = true := Std.ExtTreeMap.isEmpty_iff.mpr clean
    have state := commit_of_clean B order fault s.vfs clean'
    have same : b.commit (fault 0) = b := if_pos empty
    simp only [Answers, after, perform, state, same, empty, if_true]
    refine ⟨?_, before⟩
    have rooted := before.rooted
    rw [← before.dirty] at empty
    cases now : b.current with
    | none =>
      rw [now] at rooted
      simp [CidVfs.commit, empty, rooted]
    | some m =>
      rw [now] at rooted
      simp [CidVfs.commit, empty, rooted]
  · cases first : fault 0 with
    | some e => exact before.commit_fails clean first
    | none =>
      have dirty : s.vfs.dirtyPages.isEmpty = false := by
        rw [before.dirty]
        exact nonempty_of_ne clean
      have merges : b.commit none = { b with pending := ∅, current := some b.merged } := by
        rw [Book.commit, nonempty_of_ne clean]
        rfl
      obtain ⟨quiet, small, index⟩ := fits clean first
      have done := commit_of_no_fault B order fault s.vfs dirty quiet
      obtain ⟨entries, grows, filed, stored⟩ := before.stored_merged apart listed small index
      simp only [Answers, after, perform, first, merges, done, ite_self]
      refine ⟨?_, ?_⟩
      · rw [PageIndex.serialize, entries]
        rfl
      · have rest := stored_rest (B := B) order { s.vfs with dirtyPages := ∅ }
        exact
          { sized := (congrArg (·.bytes) rest.2).trans before.sized
            dirty := stored_dirtyPages B _ order
            buffered := by
              intro page data bound
              rw [Std.ExtTreeMap.getElem?_empty] at bound
              cases bound
            filed := filed
            indexed := entries
            rooted := by
              change some (Cid.fromData B _) = some (rootOf B b.merged)
              rw [PageIndex.serialize, entries]
              rfl
            current := by
              intro m now
              cases now
              exact stored
            pinned := fun m held => (before.pinned m held).grow grows
            snapshots := before.snapshots
            cached := by
              intro root page bytes hit
              have hit : ({ s.vfs with dirtyPages := ∅ }.stored B order).pageCache (root, page) =
                some bytes := hit
              rw [rest.1] at hit
              obtain ⟨m, held, facts⟩ := before.cached root page bytes hit
              exact ⟨m, held.grow grows, facts⟩
            unread := fun none_ => by cases none_ }

theorem Versioned.cached_current (before : Versioned B objects size b s) {page : UInt32}
    {bytes : Bytes} (hit : s.vfs.pageCache (s.vfs.currentRoot.getD zeroCid, page) = some bytes) :
    b.current.bind (·[page]?) = some bytes := by
  cases now : b.current with
  | none =>
    rw [before.unread now] at hit
    cases hit
  | some m =>
    have rooted := before.rooted
    rw [now] at rooted
    rw [rooted] at hit
    obtain ⟨n, stored, root, found⟩ := before.cached _ page bytes hit
    have same : n = m := stored.unique (before.current m now) root
    rw [same] at found
    exact found

theorem Versioned.index_get (before : Versioned B objects size b s) (page : UInt32) :
    s.vfs.pageIndex.get page = (b.current.bind (·[page]?)).map (Cid.fromData B) := by
  rw [PageIndex.get, before.indexed, getElem?_cids]
  cases b.current with
  | none => simp
  | some m => rfl

theorem Versioned.read (before : Versioned B objects size b s) (fault : Option String)
    (page : UInt32) :
    Answers B size b (.readPage fault page) (perform B s (.readPage fault page)).2 ∧
      Versioned B objects size (after size b (.readPage fault page))
        (perform B s (.readPage fault page)).1 := by
  cases hit : s.vfs.pageCache (s.vfs.currentRoot.getD zeroCid, page) with
  | some bytes =>
    have read : readPage B s.vfs fault page = (s.vfs, .ok bytes) := by simp only [readPage, hit]
    simp only [Answers, after, perform, read, before.cached_current hit]
    exact ⟨.inl trivial, before⟩
  | none =>
    have get := before.index_get page
    cases found : b.current.bind (·[page]?) with
    | none =>
      have read : readPage B s.vfs fault page = (s.vfs, .error (.pageNotFound page)) := by
        simp only [readPage, hit, get, found, Option.map_none]
      simp only [Answers, after, perform, read, found]
      exact ⟨trivial, before⟩
    | some data =>
      obtain ⟨m, now, bound⟩ := Option.bind_eq_some_iff.mp found
      have stored := before.current m now
      have fetched := fetchPage_bound fault page (stored.pages page data bound)
      cases fault with
      | some e =>
        have read : readPage B s.vfs (some e) page = (s.vfs, .error (.storeError e)) := by
          simp only [readPage, hit, get, found, Option.map_some, fetched]
        simp only [Answers, after, perform, read, found]
        exact ⟨.inr ⟨e, rfl, rfl⟩, before⟩
      | none =>
        have read : readPage B s.vfs none page =
            ({ s.vfs with
                pageCache :=
                  Function.update s.vfs.pageCache (s.vfs.currentRoot.getD zeroCid, page) (some data) },
              .ok data) := by
          simp only [readPage, hit, get, found, Option.map_some, fetched]
        simp only [Answers, after, perform, read, found]
        refine ⟨.inl trivial, { before with cached := ?_, unread := ?_ }⟩
        · intro root other bytes hit'
          simp only [Function.update_apply] at hit'
          split at hit'
          · rename_i key
            obtain ⟨rfl, rfl⟩ := Prod.mk.inj key
            cases hit'
            refine ⟨m, stored, ?_, bound⟩
            rw [before.rooted, now]
            rfl
          · exact before.cached root other bytes hit'
        · intro none_
          rw [now] at none_
          cases none_

theorem Versioned.pin (before : Versioned B objects size b s) :
    Answers B size b .snapshot (perform B s .snapshot).2 ∧
      Versioned B objects size (after size b .snapshot) (perform B s .snapshot).1 := by
  have rooted := before.rooted
  cases now : b.current with
  | none =>
    rw [now] at rooted
    have refused : snapshot s.vfs = .error .noRootCid := by simp [snapshot, rooted]
    simp only [Answers, after, perform, refused, now, Option.toList_none, List.append_nil]
    refine ⟨trivial, ?_⟩
    rw [← now]
    exact before
  | some m =>
    rw [now] at rooted
    have pinned : snapshot s.vfs = .ok ⟨rootOf B m, cids B m⟩ := by
      simp [snapshot, rooted, before.indexed, now]
    simp only [Answers, after, perform, pinned, now, Option.toList_some]
    rw [← now]
    refine ⟨trivial, { before with pinned := ?_, snapshots := ?_ }⟩
    · intro n held
      rcases List.mem_append.mp held with old | new
      · exact before.pinned n old
      · rw [List.mem_singleton.mp new]
        exact before.current m now
    · rw [before.snapshots, List.map_append]
      rfl

theorem Versioned.resolve (before : Versioned B objects size b s) (i : ℕ) (page : UInt32) :
    readPinned B s i page =
      (b.pinned[i]?.bind (·[page]?)).map fun data => (Cid.fromData B data, .ok (some data)) := by
  rw [readPinned, before.snapshots, List.getElem?_map]
  cases pinned : b.pinned[i]? with
  | none => rfl
  | some m =>
    have stored := before.pinned m (List.mem_of_getElem? pinned)
    change ((cids B m)[page]?).map _ = (m[page]?).map _
    rw [getElem?_cids]
    cases found : m[page]? with
    | none => rfl
    | some data =>
      change some (_, getObject B _ none (Cid.fromData B data)) = _
      rw [getObject_bound (stored.pages page data found)]
      rfl

theorem Versioned.step (before : Versioned B objects size b s)
    (apart : Set.InjOn (Cid.fromData B) objects) (op : Op) (proper : Proper B objects b op) :
    Answers B size b op (perform B s op).2 ∧
      Versioned B objects size (after size b op) (perform B s op).1 := by
  cases op with
  | writePage page data => exact before.write page proper
  | commit order fault => exact before.commit apart proper
  | readPage fault page => exact before.read fault page
  | snapshot => exact before.pin
  | resolve i page => exact ⟨before.resolve i page, before⟩
  | evict key =>
    refine ⟨trivial, { before with cached := ?_, unread := ?_ }⟩
    · intro root page bytes hit
      simp only [perform, Function.update_apply] at hit
      split at hit
      · cases hit
      · exact before.cached root page bytes hit
    · intro none_ other
      simp only [perform, Function.update_apply]
      split
      · rfl
      · exact before.unread none_ other
  | put data =>
    exact ⟨trivial, before.grow (put_grows B _ data) (put_filed before.filed proper)⟩

theorem Versioned.agrees (apart : Set.InjOn (Cid.fromData B) objects) (ops : List Op)
    (before : Versioned B objects size b s) (undisturbed : Undisturbed B objects size b ops) :
    Agrees B size s b ops := by
  induction ops generalizing b s with
  | nil => trivial
  | cons op rest ih =>
    obtain ⟨answered, next⟩ := before.step apart op undisturbed.1
    exact ⟨answered, ih next undisturbed.2⟩

theorem versioned_new {store : Contents} {v : CidVfs} (made : CidVfs.new store size = .ok v)
    (filed : Filed B objects store) : Versioned B objects size .empty ⟨v, []⟩ := by
  unfold CidVfs.new at made
  split at made
  · cases made
    refine ⟨rfl, rfl, ?_, filed, ?_, rfl, ?_, ?_, rfl, ?_, fun _ _ => rfl⟩
    · intro page data bound
      rw [Book.empty, Std.ExtTreeMap.getElem?_empty] at bound
      cases bound
    · apply Std.ExtTreeMap.ext_getElem?
      intro page
      rw [getElem?_cids]
      simp [PageIndex.new, Book.empty]
    · intro m now
      cases now
    · intro m held
      cases held
    · intro root page bytes hit
      cases hit
  · cases made

end Steps

/-- A page layer opened on a store of genuine objects answers every sequence of calls as a
store of versions does: reads see exactly the last commit, through cache hits, evictions and
roots that come back; a commit answers with the root of its pages, or loses them if its first put
fails; and every snapshot keeps resolving to the objects it was pinned with, whatever is written,
committed or put later. -/
theorem vfs_refines_versions {B : Blake3} {objects : Set Bytes}
    (apart : Set.InjOn (Cid.fromData B) objects) {store : Contents} {size : ℕ} {v : CidVfs}
    (made : CidVfs.new store size = .ok v) (filed : Filed B objects store) (ops : List Op)
    (undisturbed : Undisturbed B objects size .empty ops) :
    Agrees B size ⟨v, []⟩ .empty ops :=
  (versioned_new made filed).agrees apart ops undisturbed

/-! A page written, committed, pinned, overwritten, lost by a failing commit, and committed again. -/

def sampleObjects : List Bytes :=
  [fillPage 1, fillPage 2, serializeEntries (oneEntry Blake3.byLeading (fillPage 1)),
    serializeEntries (oneEntry Blake3.byLeading (fillPage 2))]

def sampleOps : List Op :=
  [.writePage 0 (fillPage 1), .readPage none 0, .commit [(0, fillPage 1)] noFault, .readPage none 0,
    .snapshot, .writePage 0 (fillPage 2), .commit [(0, fillPage 2)] (fun _ => some "full"),
    .writePage 0 (fillPage 2), .readPage none 0, .commit [(0, fillPage 2)] noFault,
    .evict (rootOf Blake3.byLeading (onePage (fillPage 1)), 0), .readPage none 0, .resolve 0 0]

theorem sampleObjects_apart :
    Set.InjOn (Cid.fromData Blake3.byLeading) { data | data ∈ sampleObjects } := by
  have distinct : (sampleObjects.map (Cid.fromData Blake3.byLeading)).Nodup := by
    simp only [sampleObjects, List.map_cons, List.map_nil, oneEntry, leading_fillPage, serializeEntries,
      mergeSort_toList]
    decide
  intro a first b second same
  exact List.inj_on_of_nodup_map distinct first second same

theorem getElem?_onePage (x : Bytes) (page : UInt32) :
    (onePage x)[page]? = if page = 0 then some x else none := by
  rw [onePage, Std.ExtTreeMap.getElem?_insert, Std.ExtTreeMap.getElem?_empty]
  simp only [Std.compare_eq_iff_eq, eq_comm (a := (0 : UInt32))]

theorem cids_onePage (x : Bytes) :
    cids Blake3.byLeading (onePage x) = oneEntry Blake3.byLeading x := by
  apply Std.ExtTreeMap.ext_getElem?
  intro page
  rw [getElem?_cids]
  simp only [onePage, oneEntry, Std.ExtTreeMap.getElem?_insert]
  split <;> simp

theorem merged_onePage (x : Bytes) (current : Option (PageMap Bytes)) (pinned : List (PageMap Bytes))
    (only : ∀ m, current = some m → ∃ y, m = onePage y) :
    Book.merged ⟨onePage x, current, pinned⟩ = onePage x := by
  apply Std.ExtTreeMap.ext_getElem?
  intro page
  rw [getElem?_merged]
  cases current with
  | none => simp
  | some m =>
    obtain ⟨y, rfl⟩ := only m rfl
    simp only [Option.getD_some, getElem?_onePage]
    split <;> rfl

theorem proper_onePage (x : Bytes) (current : Option (PageMap Bytes))
    (pinned : List (PageMap Bytes)) (only : ∀ m, current = some m → ∃ y, m = onePage y)
    (index : serializeEntries (oneEntry Blake3.byLeading x) ∈ sampleObjects) :
    Proper Blake3.byLeading { data | data ∈ sampleObjects } ⟨onePage x, current, pinned⟩
      (.commit [(0, x)] noFault) := by
  refine ⟨List.Perm.refl _, fun _ _ => ⟨fun _ _ => rfl, ?_⟩⟩
  rw [merged_onePage x current pinned only, cids_onePage]
  exact ⟨by show 1 < 2 ^ 32; decide, index⟩

theorem commit_onePage (x : Bytes) (current : Option (PageMap Bytes))
    (pinned : List (PageMap Bytes)) (only : ∀ m, current = some m → ∃ y, m = onePage y) :
    Book.commit ⟨onePage x, current, pinned⟩ none = ⟨∅, some (onePage x), pinned⟩ := by
  have dirty : (onePage x).isEmpty = false := rfl
  simp only [Book.commit, dirty, merged_onePage x current pinned only]
  rfl

theorem sample_undisturbed :
    Undisturbed Blake3.byLeading { data | data ∈ sampleObjects } 512 .empty sampleOps := by
  have whole (b : UInt8) : (fillPage b).length = 512 := List.length_replicate
  have fresh (m : PageMap Bytes) (none_ : none = some m) : ∃ y, m = onePage y := by cases none_
  have again (m : PageMap Bytes) (now : some (onePage (fillPage 1)) = some m) :
      ∃ y, m = onePage y := ⟨fillPage 1, (Option.some.inj now).symm⟩
  have first : Book.mk ((∅ : PageMap Bytes).insert 0 (fillPage 1)) none [] =
      ⟨onePage (fillPage 1), none, []⟩ := rfl
  have lost (current : Option (PageMap Bytes)) (pinned : List (PageMap Bytes)) :
      Book.commit ⟨(∅ : PageMap Bytes).insert 0 (fillPage 2), current, pinned⟩ (some "full") =
        ⟨∅, current, pinned⟩ := rfl
  have quiet : noFault 0 = none := rfl
  simp only [sampleOps, Undisturbed, Book.empty, after, whole, ↓reduceIte, first, quiet,
    commit_onePage _ _ _ fresh, lost]
  refine ⟨?_, trivial, proper_onePage _ _ _ fresh ?_, trivial, trivial, ?_,
    ⟨List.Perm.refl _, fun _ none_ => by cases none_⟩, ?_, trivial,
    proper_onePage _ _ _ again ?_, trivial, trivial, trivial, trivial⟩
  all_goals simp [Proper, sampleObjects]

theorem vfs_refines_versions_overwritten :
    Agrees Blake3.byLeading 512 ⟨emptyVfs, []⟩ .empty sampleOps :=
  vfs_refines_versions sampleObjects_apart new_emptyVfs (fun _ _ bound => by cases bound) sampleOps
    sample_undisturbed

end Craftec.Vfs.Versions
