/- GID: Craftec/Vfs/Interleaving
   generality: I
   digest: Commits, snapshots and page reads of the page layer as interleaved steps. -/

import Mathlib
import Craftec.Library.Run
import Craftec.Types.Digest
import Craftec.Vfs.Commit
import Craftec.Vfs.Index

set_option autoImplicit false
set_option relaxedAutoImplicit false

namespace Craftec.Vfs.Interleaving

open Craftec.Library.Run (Reach anyStep reach_step)
open Craftec.Types.Digest (Bytes Bytes32 Blake3 Cid)
open Craftec.Vfs.Commit (CidVfs Contents)
open Craftec.Vfs.Index (PageMap PageIndex VfsError)

/-- The pinned view of a query; its creation time and live index serve metrics only. -/
structure Snapshot where
  rootCid : Cid
  entries : PageMap Cid

inductive Call where
  | commit
  | snapshot
  | readPage (page : UInt32)

/-- Where a call stands: each constructor names the step it takes next. -/
inductive Task where
  | idle
  | commitDrain
  | commitClean
  | commitPut (rest : List (UInt32 × Bytes))
  | commitSet (page : UInt32) (cid : Cid) (rest : List (UInt32 × Bytes))
  | commitRootPut (serialised : Bytes)
  | commitSetRoot (root : Cid)
  | commitSetCurrent (root : Cid)
  | commitDone (result : Except VfsError Cid)
  | snapshotRoot
  | snapshotEntries (root : Cid)
  | snapshotDone (result : Except VfsError Snapshot)
  | readRoot (page : UInt32)
  | readCache (page : UInt32) (root : Cid)
  | readIndex (page : UInt32) (root : Cid)
  | readFetch (page : UInt32) (root cid : Cid)
  | readKeep (page : UInt32) (root : Cid) (bytes : Bytes)
  | readDone (page : UInt32) (root : Cid) (result : Except VfsError Bytes)

def Call.start : Call → Task
  | .commit => .commitDrain
  | .snapshot => .snapshotRoot
  | .readPage page => .readRoot page

/-- What a step does not decide itself: the iteration order of the drained map,
and the error text of a store operation that fails. -/
structure Choice where
  order : List (UInt32 × Bytes)
  fault : Option String

def zeroCid : Cid := Cid.fromBytes (Bytes32.fill 0)

variable (B : Blake3)

/-- `store.get`, which checks the hash of what it read. -/
def getObject (store : Contents) (fault : Option String) (cid : Cid) :
    Except String (Option Bytes) :=
  match fault with
  | some e => .error e
  | none =>
    match store cid with
    | none => .ok none
    | some data =>
      if Cid.fromData B data ≠ cid then
        .error (s!"integrity violation for CID {cid.display}: stored bytes hash to " ++
          s!"{(Cid.fromData B data).display} but CID is {cid.display}")
      else .ok (some data)

/-- The part of `read_page` that fetches and checks a page. -/
def fetchPage (store : Contents) (fault : Option String) (page : UInt32) (cid : Cid) :
    Except VfsError Bytes :=
  match getObject B store fault cid with
  | .error e => .error (.storeError e)
  | .ok none => .error (.storeError s!"CID {cid.display} missing from store")
  | .ok (some bytes) =>
    if Cid.fromData B bytes ≠ cid then
      .error (.integrityCheckFailed page cid.display (Cid.fromData B bytes).display)
    else .ok bytes

def advance (v : CidVfs) (c : Choice) : Task → Option (CidVfs × Task)
  | .idle | .commitDone _ | .snapshotDone _ | .readDone _ _ _ => none
  | .commitDrain =>
    if c.order.isPerm v.dirtyPages.toList then
      some ({ v with dirtyPages := ∅ },
        if v.dirtyPages.isEmpty then .commitClean else .commitPut c.order)
    else none
  | .commitClean =>
    some (v, .commitDone (match v.currentRoot with | some r => .ok r | none => .error .noRootCid))
  | .commitPut [] => some (v, .commitRootPut v.pageIndex.serialize)
  | .commitPut ((page, data) :: rest) =>
    match c.fault with
    | some e => some (v, .commitDone (.error (.storeError e)))
    | none => some ({ v with store := v.store.put B data },
        .commitSet page (Cid.fromData B data) rest)
  | .commitSet page cid rest =>
    some ({ v with pageIndex := v.pageIndex.set page cid }, .commitPut rest)
  | .commitRootPut serialised =>
    match c.fault with
    | some e => some (v, .commitDone (.error (.storeError e)))
    | none => some ({ v with store := v.store.put B serialised },
        .commitSetRoot (Cid.fromData B serialised))
  | .commitSetRoot root =>
    some ({ v with pageIndex := v.pageIndex.setRoot root }, .commitSetCurrent root)
  | .commitSetCurrent root => some ({ v with currentRoot := some root }, .commitDone (.ok root))
  | .snapshotRoot =>
    match v.currentRoot with
    | some root => some (v, .snapshotEntries root)
    | none => some (v, .snapshotDone (.error .noRootCid))
  | .snapshotEntries root => some (v, .snapshotDone (.ok ⟨root, v.pageIndex.entries⟩))
  | .readRoot page => some (v, .readCache page (v.currentRoot.getD zeroCid))
  | .readCache page root =>
    match v.pageCache (root, page) with
    | some bytes => some (v, .readDone page root (.ok bytes))
    | none => some (v, .readIndex page root)
  | .readIndex page root =>
    match v.pageIndex.get page with
    | some cid => some (v, .readFetch page root cid)
    | none => some (v, .readDone page root (.error (.pageNotFound page)))
  | .readFetch page root cid =>
    match fetchPage B v.store c.fault page cid with
    | .ok bytes => some (v, .readKeep page root bytes)
    | .error e => some (v, .readDone page root (.error e))
  | .readKeep page root bytes =>
    some ({ v with pageCache := Function.update v.pageCache (root, page) (some bytes) },
      .readDone page root (.ok bytes))

inductive Turn (v : CidVfs) (c : Choice) : Task → CidVfs → Task → Prop
  | drainNothing (empty : v.dirtyPages.isEmpty) :
    Turn v c .commitDrain { v with dirtyPages := ∅ } .commitClean
  | drain (listed : c.order.Perm v.dirtyPages.toList) :
    Turn v c .commitDrain { v with dirtyPages := ∅ } (.commitPut c.order)
  | clean (answer : Except VfsError Cid) : Turn v c .commitClean v (.commitDone answer)
  | serialise : Turn v c (.commitPut []) v (.commitRootPut v.pageIndex.serialize)
  | putFails (entry : UInt32 × Bytes) (rest : List (UInt32 × Bytes)) (e : String)
    (fails : c.fault = some e) :
    Turn v c (.commitPut (entry :: rest)) v (.commitDone (.error (.storeError e)))
  | put (page : UInt32) (data : Bytes) (rest : List (UInt32 × Bytes)) (succeeds : c.fault = none) :
    Turn v c (.commitPut ((page, data) :: rest)) { v with store := v.store.put B data }
      (.commitSet page (Cid.fromData B data) rest)
  | set (page : UInt32) (cid : Cid) (rest : List (UInt32 × Bytes)) :
    Turn v c (.commitSet page cid rest) { v with pageIndex := v.pageIndex.set page cid }
      (.commitPut rest)
  | rootPutFails (data : Bytes) (e : String) (fails : c.fault = some e) :
    Turn v c (.commitRootPut data) v (.commitDone (.error (.storeError e)))
  | rootPut (data : Bytes) (succeeds : c.fault = none) :
    Turn v c (.commitRootPut data) { v with store := v.store.put B data }
      (.commitSetRoot (Cid.fromData B data))
  | setRoot (root : Cid) :
    Turn v c (.commitSetRoot root) { v with pageIndex := v.pageIndex.setRoot root }
      (.commitSetCurrent root)
  | setCurrent (root : Cid) :
    Turn v c (.commitSetCurrent root) { v with currentRoot := some root } (.commitDone (.ok root))
  | snapshotRoot (root : Cid) (current : v.currentRoot = some root) :
    Turn v c .snapshotRoot v (.snapshotEntries root)
  | snapshotRootless (rootless : v.currentRoot = none) :
    Turn v c .snapshotRoot v (.snapshotDone (.error .noRootCid))
  | snapshotEntries (root : Cid) :
    Turn v c (.snapshotEntries root) v (.snapshotDone (.ok ⟨root, v.pageIndex.entries⟩))
  | readRoot (page : UInt32) :
    Turn v c (.readRoot page) v (.readCache page (v.currentRoot.getD zeroCid))
  | hit (page : UInt32) (root : Cid) (bytes : Bytes)
    (cached : v.pageCache (root, page) = some bytes) :
    Turn v c (.readCache page root) v (.readDone page root (.ok bytes))
  | miss (page : UInt32) (root : Cid) (uncached : v.pageCache (root, page) = none) :
    Turn v c (.readCache page root) v (.readIndex page root)
  | resolve (page : UInt32) (root cid : Cid) (indexed : v.pageIndex.get page = some cid) :
    Turn v c (.readIndex page root) v (.readFetch page root cid)
  | missing (page : UInt32) (root : Cid) (unindexed : v.pageIndex.get page = none) :
    Turn v c (.readIndex page root) v (.readDone page root (.error (.pageNotFound page)))
  | fetch (page : UInt32) (root cid : Cid) (bytes : Bytes)
    (fetched : fetchPage B v.store c.fault page cid = .ok bytes) :
    Turn v c (.readFetch page root cid) v (.readKeep page root bytes)
  | fetchFails (page : UInt32) (root cid : Cid) (e : VfsError)
    (failed : fetchPage B v.store c.fault page cid = .error e) :
    Turn v c (.readFetch page root cid) v (.readDone page root (.error e))
  | keep (page : UInt32) (root : Cid) (bytes : Bytes) :
    Turn v c (.readKeep page root bytes)
      { v with pageCache := Function.update v.pageCache (root, page) (some bytes) }
      (.readDone page root (.ok bytes))

theorem advance_turn {v w : CidVfs} {c : Choice} {t u : Task}
    (taken : advance B v c t = some (w, u)) : Turn B v c t w u := by
  cases t with
  | idle | commitDone | snapshotDone | readDone => simp [advance] at taken
  | commitDrain =>
    simp only [advance] at taken
    split at taken
    · rename_i listed
      obtain ⟨rfl, rfl⟩ := Prod.mk.inj (Option.some.inj taken)
      split
      · rename_i empty
        exact .drainNothing empty
      · exact .drain (List.isPerm_iff.mp listed)
    · cases taken
  | commitClean =>
    cases taken
    exact .clean _
  | commitPut rest =>
    cases rest with
    | nil =>
      cases taken
      exact .serialise
    | cons entry rest =>
      simp only [advance] at taken
      split at taken
      · cases taken
        exact .putFails _ _ _ ‹_›
      · cases taken
        exact .put _ _ _ ‹_›
  | commitSet page cid rest =>
    cases taken
    exact .set _ _ _
  | commitRootPut data =>
    simp only [advance] at taken
    split at taken
    · cases taken
      exact .rootPutFails _ _ ‹_›
    · cases taken
      exact .rootPut _ ‹_›
  | commitSetRoot root =>
    cases taken
    exact .setRoot _
  | commitSetCurrent root =>
    cases taken
    exact .setCurrent _
  | snapshotRoot =>
    simp only [advance] at taken
    split at taken
    · cases taken
      exact .snapshotRoot _ ‹_›
    · cases taken
      exact .snapshotRootless ‹_›
  | snapshotEntries root =>
    cases taken
    exact .snapshotEntries _
  | readRoot page =>
    cases taken
    exact .readRoot _
  | readCache page root =>
    simp only [advance] at taken
    split at taken
    · cases taken
      exact .hit _ _ _ ‹_›
    · cases taken
      exact .miss _ _ ‹_›
  | readIndex page root =>
    simp only [advance] at taken
    split at taken
    · cases taken
      exact .resolve _ _ _ ‹_›
    · cases taken
      exact .missing _ _ ‹_›
  | readFetch page root cid =>
    simp only [advance] at taken
    split at taken
    · cases taken
      exact .fetch _ _ _ _ ‹_›
    · cases taken
      exact .fetchFails _ _ _ _ ‹_›
  | readKeep page root bytes =>
    cases taken
    exact .keep _ _ _

/-- `read_page` run without interruption. -/
def readPage (v : CidVfs) (fault : Option String) (page : UInt32) :
    CidVfs × Except VfsError Bytes :=
  let root := v.currentRoot.getD zeroCid
  match v.pageCache (root, page) with
  | some bytes => (v, .ok bytes)
  | none =>
    match v.pageIndex.get page with
    | none => (v, .error (.pageNotFound page))
    | some cid =>
      match fetchPage B v.store fault page cid with
      | .error e => (v, .error e)
      | .ok bytes =>
        ({ v with pageCache := Function.update v.pageCache (root, page) (some bytes) }, .ok bytes)

structure State where
  vfs : CidVfs
  calls : ℕ → Task

inductive Label where
  | invoke (i : ℕ) (call : Call)
  | writePage (page : UInt32) (data : Bytes)
  | evict (key : Cid × UInt32)
  | advance (i : ℕ) (choice : Choice)

def step (s : State) : Label → Option State
  | .invoke i call =>
    match s.calls i with
    | .idle => some { s with calls := Function.update s.calls i call.start }
    | _ => none
  | .writePage page data => some { s with vfs := (s.vfs.writePage page data).1 }
  | .evict key =>
    some { s with vfs := { s.vfs with pageCache := Function.update s.vfs.pageCache key none } }
  | .advance i choice =>
    match advance B s.vfs choice (s.calls i) with
    | some (v, t) => some ⟨v, Function.update s.calls i t⟩
    | none => none

def start (v : CidVfs) : State := ⟨v, fun _ => .idle⟩

theorem step_advance {v w : CidVfs} {calls : ℕ → Task} {i : ℕ} {c : Choice} {t u : Task}
    (moves : advance B v c t = some (w, u)) :
    step B ⟨v, Function.update calls i t⟩ (.advance i c) = some ⟨w, Function.update calls i u⟩ := by
  simp only [step, Function.update_self, moves, Function.update_idem]

theorem step_invoke {v : CidVfs} {calls : ℕ → Task} {i : ℕ} (call : Call) (idle : calls i = .idle) :
    step B ⟨v, calls⟩ (.invoke i call) = some ⟨v, Function.update calls i call.start⟩ := by
  simp only [step, idle]

theorem step_writePage {v : CidVfs} {calls : ℕ → Task} {page : UInt32} {data : Bytes}
    (whole : data.length = v.pageSize.bytes) :
    step B ⟨v, calls⟩ (.writePage page data) =
      some ⟨{ v with dirtyPages := v.dirtyPages.insert page data }, calls⟩ := by
  simp [step, CidVfs.writePage, whole]

section Inversion

variable {B} {s s' : State} {i : ℕ}

theorem of_step_invoke {call : Call} (taken : step B s (.invoke i call) = some s') :
    s.calls i = .idle ∧ s' = ⟨s.vfs, Function.update s.calls i call.start⟩ := by
  simp only [step] at taken
  split at taken
  · rename_i idle
    cases taken
    exact ⟨idle, rfl⟩
  · cases taken

theorem of_step_advance {c : Choice} (taken : step B s (.advance i c) = some s') :
    ∃ w u, advance B s.vfs c (s.calls i) = some (w, u) ∧ s' = ⟨w, Function.update s.calls i u⟩ := by
  simp only [step] at taken
  split at taken
  · rename_i w u moved
    cases taken
    exact ⟨w, u, moved, rfl⟩
  · cases taken

end Inversion

theorem advance_drain {v : CidVfs} {c : Choice} (listed : c.order.Perm v.dirtyPages.toList)
    (dirty : v.dirtyPages.isEmpty = false) :
    advance B v c .commitDrain = some ({ v with dirtyPages := ∅ }, .commitPut c.order) := by
  simp [advance, List.isPerm_iff.mpr listed, dirty]

theorem reach_advance {v w : CidVfs} {calls : ℕ → Task} {i : ℕ} {c : Choice} {t u : Task}
    (moves : advance B v c t = some (w, u)) :
    Reach (step B) anyStep ⟨v, Function.update calls i t⟩ ⟨w, Function.update calls i u⟩ :=
  reach_step trivial (step_advance B moves)

theorem reach_readPage (v : CidVfs) (calls : ℕ → Task) (i : ℕ) (fault : Option String)
    (page : UInt32) :
    Reach (step B) anyStep ⟨v, Function.update calls i (.readRoot page)⟩
      ⟨(readPage B v fault page).1, Function.update calls i
        (.readDone page (v.currentRoot.getD zeroCid) (readPage B v fault page).2)⟩ := by
  generalize keyed : v.currentRoot.getD zeroCid = root
  have rooted : Reach (step B) anyStep ⟨v, Function.update calls i (.readRoot page)⟩
      ⟨v, Function.update calls i (.readCache page root)⟩ :=
    reach_advance B (c := ⟨[], fault⟩) (by simp only [advance, keyed])
  refine rooted.trans ?_
  cases hit : v.pageCache (root, page) with
  | some bytes =>
    simp only [readPage, keyed, hit]
    exact reach_advance B (c := ⟨[], fault⟩) (by simp only [advance, hit])
  | none =>
    have missed : Reach (step B) anyStep ⟨v, Function.update calls i (.readCache page root)⟩
        ⟨v, Function.update calls i (.readIndex page root)⟩ :=
      reach_advance B (c := ⟨[], fault⟩) (by simp only [advance, hit])
    refine missed.trans ?_
    cases indexed : v.pageIndex.get page with
    | none =>
      simp only [readPage, keyed, hit, indexed]
      exact reach_advance B (c := ⟨[], fault⟩) (by simp only [advance, indexed])
    | some cid =>
      have resolved : Reach (step B) anyStep ⟨v, Function.update calls i (.readIndex page root)⟩
          ⟨v, Function.update calls i (.readFetch page root cid)⟩ :=
        reach_advance B (c := ⟨[], fault⟩) (by simp only [advance, indexed])
      refine resolved.trans ?_
      cases fetched : fetchPage B v.store fault page cid with
      | error e =>
        simp only [readPage, keyed, hit, indexed, fetched]
        exact reach_advance B (c := ⟨[], fault⟩) (by simp only [advance, fetched])
      | ok bytes =>
        have read : Reach (step B) anyStep ⟨v, Function.update calls i (.readFetch page root cid)⟩
            ⟨v, Function.update calls i (.readKeep page root bytes)⟩ :=
          reach_advance B (c := ⟨[], fault⟩) (by simp only [advance, fetched])
        simp only [readPage, keyed, hit, indexed, fetched]
        exact read.trans (reach_advance B (c := ⟨[], fault⟩) rfl)

end Craftec.Vfs.Interleaving
