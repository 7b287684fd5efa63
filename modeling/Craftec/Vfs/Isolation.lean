/- GID: Craftec/Vfs/Isolation
   generality: I
   digest: Commits that overlap nothing keep snapshots and cached pages true to their roots. -/

import Mathlib
import Craftec.Library.Run
import Craftec.Types.Digest
import Craftec.Vfs.Commit
import Craftec.Vfs.Index
import Craftec.Vfs.Interleaving

set_option autoImplicit false
set_option relaxedAutoImplicit false

namespace Craftec.Vfs.Isolation

open Craftec.Library.Run (Reach Path anyStep of_update pair_update single_update)
open Craftec.Types.Digest (Bytes Bytes32 Blake3 Cid)
open Craftec.Vfs.Commit (CidVfs Contents Grows MapAt MapAt.grow MapAt.unique Grows.refl smallPage
  commit_of_no_fault fillPage leading_fillPage put_grows put_mapAt)
open Craftec.Vfs.Index (PageMap PageIndex VfsError)
open Craftec.Vfs.Interleaving

variable (B : Blake3)

/-- A commit that has drained pages and has not returned. -/
def InCommit : Task → Prop
  | .commitPut _ | .commitSet _ _ _ | .commitRootPut _ | .commitSetRoot _
  | .commitSetCurrent _ => True
  | _ => False

def Observing : Task → Prop
  | .snapshotEntries _ | .readCache _ _ | .readIndex _ _ => True
  | _ => False

def Holding : Task → Prop
  | .readFetch _ _ _ | .readKeep _ _ _ => True
  | _ => False

def PageAt (store : Contents) (root : Cid) (page : UInt32) (cid : Cid) : Prop :=
  ∃ m, MapAt store root m ∧ m[page]? = some cid

/-- What is asked of the other calls when a call takes its next step: a commit
drains pages only while no other commit and no observer is under way, and an
observer reads the root only while no commit is under way. -/
def Apart (calls : ℕ → Task) : Task → Prop
  | .commitDrain => ∀ j, ¬ InCommit (calls j) ∧ ¬ Observing (calls j)
  | .snapshotRoot | .readRoot _ => ∀ j, ¬ InCommit (calls j)
  | _ => True

/-- No put of a commit fails or meets different bytes under its root, and the
index that is serialised has fewer than `2 ^ 32` entries. -/
def Quiet (v : CidVfs) (c : Choice) : Task → Prop
  | .commitPut [] => v.pageIndex.entries.size < 2 ^ 32
  | .commitPut (_ :: _) => c.fault = none
  | .commitRootPut data =>
    c.fault = none ∧ ∀ old, v.store (Cid.fromData B data) = some old → old = data
  | _ => True

def Calm (s : State) : Label → Prop
  | .advance i c => Apart s.calls (s.calls i) ∧ Quiet B s.vfs c (s.calls i)
  | _ => True

def Synced (v : CidVfs) : Prop :=
  match v.currentRoot with
  | some root => MapAt v.store root v.pageIndex.entries
  | none => v.pageIndex.entries = ∅

def TaskOk (v : CidVfs) : Task → Prop
  | .commitRootPut data => data = v.pageIndex.serialize ∧ v.pageIndex.entries.size < 2 ^ 32
  | .commitSetRoot root | .commitSetCurrent root => MapAt v.store root v.pageIndex.entries
  | .snapshotEntries root => v.currentRoot = some root
  | .snapshotDone (.ok snap) => MapAt v.store snap.rootCid snap.entries
  | .readCache _ root | .readIndex _ root => root = v.currentRoot.getD zeroCid
  | .readFetch page root cid => PageAt v.store root page cid
  | .readKeep page root bytes | .readDone page root (.ok bytes) =>
    PageAt v.store root page (Cid.fromData B bytes)
  | _ => True

def CacheSound (v : CidVfs) : Prop :=
  ∀ root page bytes, v.pageCache (root, page) = some bytes →
    PageAt v.store root page (Cid.fromData B bytes)

structure Inv (s : State) : Prop where
  single : ∀ i j, InCommit (s.calls i) → InCommit (s.calls j) → i = j
  apart : ∀ i j, InCommit (s.calls i) → ¬ Observing (s.calls j)
  synced : (∀ i, ¬ InCommit (s.calls i)) → Synced s.vfs
  tasks : ∀ i, TaskOk B s.vfs (s.calls i)
  cache : CacheSound B s.vfs

theorem PageAt.grow {old new : Contents} {root cid : Cid} {page : UInt32} (grows : Grows old new)
    (at_ : PageAt old root page cid) : PageAt new root page cid := by
  obtain ⟨m, stored, found⟩ := at_
  exact ⟨m, stored.grow grows, found⟩

/-- Everything a step of one call can do to the page layer and to its own standing. -/
structure Move (v : CidVfs) (t : Task) (w : CidVfs) (u : Task) : Prop where
  grows : Grows v.store w.store
  still : ¬ InCommit t → w.store = v.store ∧ w.pageIndex = v.pageIndex ∧
    w.currentRoot = v.currentRoot
  enters : InCommit u → InCommit t ∨ t = .commitDrain
  observes : Observing u → Observing t ∨ t = .snapshotRoot ∨ ∃ page, t = .readRoot page
  caches : ∀ root page bytes, w.pageCache (root, page) = some bytes →
    v.pageCache (root, page) = some bytes ∨ t = .readKeep page root bytes

theorem Move.quiet {v : CidVfs} {t u : Task} (enters : InCommit u → InCommit t ∨ t = .commitDrain)
    (observes : Observing u → Observing t ∨ t = .snapshotRoot ∨ ∃ page, t = .readRoot page) :
    Move v t v u :=
  ⟨Grows.refl _, fun _ => ⟨rfl, rfl, rfl⟩, enters, observes, fun _ _ _ bound => .inl bound⟩

theorem Move.commits {v w : CidVfs} {t u : Task} (grows : Grows v.store w.store)
    (cache : w.pageCache = v.pageCache) (inside : InCommit t) (unobserving : ¬ Observing u) :
    Move v t w u :=
  ⟨grows, fun out => (out inside).elim, fun _ => .inl inside, fun observing =>
    (unobserving observing).elim, fun _ _ _ bound => .inl (cache ▸ bound)⟩

theorem advance_move {v w : CidVfs} {c : Choice} {t u : Task}
    (taken : advance B v c t = some (w, u)) : Move v t w u := by
  cases advance_turn B taken with
  | drainNothing | drain =>
    exact ⟨Grows.refl _, fun _ => ⟨rfl, rfl, rfl⟩, fun _ => .inr rfl, fun h => h.elim,
      fun _ _ _ bound => .inl bound⟩
  | serialise => exact Move.quiet (fun _ => .inl trivial) (fun h => h.elim)
  | put | rootPut => exact Move.commits (put_grows B _ _) rfl trivial id
  | set | setRoot | setCurrent => exact Move.commits (Grows.refl _) rfl trivial id
  | snapshotRoot | snapshotRootless =>
    exact Move.quiet (fun h => h.elim) (fun _ => .inr (.inl rfl))
  | readRoot page => exact Move.quiet (fun h => h.elim) (fun _ => .inr (.inr ⟨page, rfl⟩))
  | hit | miss | resolve | missing => exact Move.quiet (fun h => h.elim) (fun _ => .inl trivial)
  | keep page root bytes =>
    refine ⟨Grows.refl _, fun _ => ⟨rfl, rfl, rfl⟩, fun h => h.elim, fun h => h.elim, ?_⟩
    intro root' page' bytes' bound
    by_cases same : (root', page') = (root, page)
    · obtain ⟨rfl, rfl⟩ := Prod.mk.inj same
      have here : some bytes = some bytes' := by simpa using bound
      cases here
      exact .inr rfl
    · exact .inl (by simpa [same] using bound)
  | _ => exact Move.quiet (fun h => h.elim) (fun h => h.elim)

theorem fetchPage_ok {store : Contents} {fault : Option String} {page : UInt32} {cid : Cid}
    {bytes : Bytes} (fetched : fetchPage B store fault page cid = .ok bytes) :
    Cid.fromData B bytes = cid := by
  unfold fetchPage at fetched
  split at fetched
  · cases fetched
  · cases fetched
  · split at fetched
    · cases fetched
    · rename_i _ matching
      cases fetched
      exact not_not.mp matching

theorem Synced.pageAt {v : CidVfs} (synced : Synced v) {page : UInt32} {cid : Cid}
    (found : v.pageIndex.get page = some cid) :
    PageAt v.store (v.currentRoot.getD zeroCid) page cid := by
  unfold Synced at synced
  cases root : v.currentRoot with
  | none =>
    rw [root] at synced
    have empty : v.pageIndex.entries = ∅ := synced
    rw [PageIndex.get, empty] at found
    simp at found
  | some r =>
    rw [root] at synced
    exact ⟨_, synced, found⟩

theorem advance_ok {v w : CidVfs} {c : Choice} {t u : Task}
    (taken : advance B v c t = some (w, u)) (ok : TaskOk B v t) (seen : Observing t → Synced v)
    (cache : CacheSound B v) (quiet : Quiet B v c t) : TaskOk B w u := by
  cases advance_turn B taken with
  | serialise => exact ⟨rfl, quiet⟩
  | rootPut data succeeds =>
    obtain ⟨rfl, small⟩ := ok
    exact put_mapAt B small quiet.2
  | setRoot root => exact ok
  | snapshotRoot root current => exact current
  | snapshotEntries root =>
    have current : v.currentRoot = some root := ok
    have synced := seen trivial
    rw [Synced, current] at synced
    exact synced
  | readRoot page => rfl
  | hit page root bytes cached => exact cache root page bytes cached
  | miss page root uncached => exact ok
  | resolve page root cid indexed =>
    have current : root = v.currentRoot.getD zeroCid := ok
    rw [current]
    exact (seen trivial).pageAt indexed
  | fetch page root cid bytes fetched =>
    have hashed := fetchPage_ok B fetched
    subst hashed
    exact ok
  | keep page root bytes => exact ok
  | _ => trivial

theorem advance_publishes {v w : CidVfs} {c : Choice} {t u : Task}
    (taken : advance B v c t = some (w, u)) (ok : TaskOk B v t) (quiet : Quiet B v c t)
    (inside : InCommit t) (out : ¬ InCommit u) : Synced w := by
  cases advance_turn B taken with
  | putFails entry rest e fails =>
    have succeeds : c.fault = none := quiet
    rw [succeeds] at fails
    cases fails
  | rootPutFails data e fails =>
    rw [quiet.1] at fails
    cases fails
  | setCurrent root => exact ok
  | serialise | put | set | rootPut | setRoot => exact (out trivial).elim
  | _ => exact inside.elim

theorem TaskOk.of_same {v w : CidVfs} {t : Task} (store : w.store = v.store)
    (index : w.pageIndex = v.pageIndex) (root : w.currentRoot = v.currentRoot)
    (ok : TaskOk B v t) : TaskOk B w t := by
  unfold TaskOk at ok ⊢
  rw [store, index, root]
  exact ok

theorem TaskOk.grow {v w : CidVfs} {t : Task} (grows : Grows v.store w.store)
    (outside : ¬ InCommit t) (settled : ¬ Observing t) (ok : TaskOk B v t) : TaskOk B w t := by
  cases t with
  | snapshotDone result =>
    cases result with
    | error e => trivial
    | ok snap => exact MapAt.grow grows ok
  | readFetch | readKeep => exact PageAt.grow grows ok
  | readDone page root result =>
    cases result with
    | error e => trivial
    | ok bytes => exact PageAt.grow grows ok
  | commitPut | commitSet | commitRootPut | commitSetRoot | commitSetCurrent =>
    exact (outside trivial).elim
  | snapshotEntries | readCache | readIndex => exact (settled trivial).elim
  | _ => trivial

theorem not_observing_of_inCommit {t : Task} (inside : InCommit t) : ¬ Observing t := by
  intro observing
  cases t <;> first | exact inside.elim | exact observing.elim

theorem Inv.synced_of_observing {s : State} (inv : Inv B s) {i : ℕ}
    (observing : Observing (s.calls i)) : Synced s.vfs := by
  apply inv.synced
  intro j inside
  exact inv.apart j i inside observing

theorem Inv.advance {s : State} {i : ℕ} {c : Choice} {w : CidVfs} {u : Task} (inv : Inv B s)
    (apart : Apart s.calls (s.calls i)) (quiet : Quiet B s.vfs c (s.calls i))
    (taken : Interleaving.advance B s.vfs c (s.calls i) = some (w, u)) :
    Inv B ⟨w, Function.update s.calls i u⟩ := by
  have move := advance_move B taken
  -- a call enters a commit, or starts to observe, only when `Apart` lets it
  have alone : InCommit u → ∀ j, j ≠ i → ¬ InCommit (s.calls j) := by
    intro entered j other also
    rcases move.enters entered with inside | drains
    · exact other (inv.single j i also inside)
    · rw [drains] at apart
      exact (apart j).1 also
  have unobserved : ∀ j, InCommit u → ¬ Observing (s.calls j) := by
    intro j entered
    rcases move.enters entered with inside | drains
    · exact inv.apart i j inside
    · rw [drains] at apart
      exact (apart j).2
  have uncommitted : ∀ j, Observing u → ¬ InCommit (s.calls j) := by
    intro j observing inside
    rcases move.observes observing with before | starts | ⟨page, starts⟩
    · exact inv.apart j i inside before
    · rw [starts] at apart
      exact apart j inside
    · rw [starts] at apart
      exact apart j inside
  constructor
  · exact single_update inv.single alone
  · exact pair_update (R := fun _ _ x y => InCommit x → ¬ Observing y) inv.apart
      not_observing_of_inCommit (fun j _ => unobserved j)
      fun j _ inside observing => uncommitted j observing inside
  · intro free
    have out : ¬ InCommit u := by simpa using free i
    by_cases inside : InCommit (s.calls i)
    · exact advance_publishes B taken (inv.tasks i) quiet inside out
    · have before : Synced s.vfs := by
        apply inv.synced
        intro j
        exact of_update (P := fun task => ¬ InCommit task) (fun _ => inside) j (free j)
      obtain ⟨store, index, root⟩ := move.still inside
      unfold Synced at before ⊢
      simp only [store, index, root]
      exact before
  · refine (Function.forall_update_iff _ fun _ task => TaskOk B w task).mpr ⟨?_, ?_⟩
    · exact advance_ok B taken (inv.tasks i) (inv.synced_of_observing B) inv.cache quiet
    · intro j other
      by_cases inside : InCommit (s.calls i)
      · refine (inv.tasks j).grow B move.grows ?_ (inv.apart i j inside)
        intro also
        exact other (inv.single i j inside also).symm
      · obtain ⟨store, index, root⟩ := move.still inside
        exact (inv.tasks j).of_same B store index root
  · intro root page bytes bound
    rcases move.caches root page bytes bound with old | kept
    · exact (inv.cache root page bytes old).grow move.grows
    · have learnt := inv.tasks i
      rw [kept] at learnt
      exact PageAt.grow move.grows learnt

theorem writePage_eq (v : CidVfs) (page : UInt32) (data : Bytes) :
    ∃ dirty, (v.writePage page data).1 = { v with dirtyPages := dirty } := by
  unfold CidVfs.writePage
  split <;> exact ⟨_, rfl⟩

theorem Inv.invoke {s : State} {i : ℕ} (inv : Inv B s) (idle : s.calls i = .idle) (call : Call) :
    Inv B ⟨s.vfs, Function.update s.calls i call.start⟩ := by
  have fresh : ¬ InCommit call.start ∧ ¬ Observing call.start ∧ TaskOk B s.vfs call.start := by
    cases call <;> exact ⟨id, id, trivial⟩
  have commits : ∀ j, InCommit (Function.update s.calls i call.start j) →
      InCommit (s.calls j) := of_update fun inside => (fresh.1 inside).elim
  have observers : ∀ j, Observing (Function.update s.calls i call.start j) →
      Observing (s.calls j) := of_update fun observing => (fresh.2.1 observing).elim
  refine ⟨fun a b ha hb => inv.single a b (commits a ha) (commits b hb),
    fun a b ha hb => inv.apart a b (commits a ha) (observers b hb), ?_, ?_, inv.cache⟩
  · intro free
    apply inv.synced
    have outside : ¬ InCommit (s.calls i) := by
      rw [idle]
      exact id
    intro j
    exact of_update (P := fun task => ¬ InCommit task) (fun _ => outside) j (free j)
  · exact (Function.forall_update_iff _ fun _ task => TaskOk B s.vfs task).mpr
      ⟨fresh.2.2, fun j _ => inv.tasks j⟩

theorem inv_step {s s' : State} {a : Label} (inv : Inv B s) (calm : Calm B s a)
    (taken : step B s a = some s') : Inv B s' := by
  cases a with
  | invoke i call =>
    obtain ⟨idle, rfl⟩ := of_step_invoke taken
    exact inv.invoke B idle call
  | writePage page data =>
    cases taken
    obtain ⟨dirty, written⟩ := writePage_eq s.vfs page data
    rw [written]
    exact ⟨inv.single, inv.apart, inv.synced, fun j => (inv.tasks j).of_same B rfl rfl rfl, inv.cache⟩
  | evict key =>
    cases taken
    refine ⟨inv.single, inv.apart, inv.synced, fun j => (inv.tasks j).of_same B rfl rfl rfl, ?_⟩
    intro root page bytes bound
    by_cases same : (root, page) = key
    · simp [same] at bound
    · exact inv.cache root page bytes (by simpa [same] using bound)
  | advance i c =>
    obtain ⟨w, u, moved, rfl⟩ := of_step_advance taken
    exact inv.advance B calm.1 calm.2 moved

theorem inv_start {store : Contents} {size : ℕ} {v : CidVfs} (new : CidVfs.new store size = .ok v) :
    Inv B (start v) := by
  unfold CidVfs.new at new
  split at new
  · cases new
    refine ⟨fun _ _ h => h.elim, fun _ _ h => h.elim, fun _ => rfl, fun _ => trivial, ?_⟩
    intro root page bytes bound
    cases bound
  · cases new

theorem inv_reach {store : Contents} {size : ℕ} {v : CidVfs} {s : State}
    (new : CidVfs.new store size = .ok v) (run : Reach (step B) (Calm B) (start v) s) : Inv B s :=
  run.invariant (inv_start B new) fun _ _ _ inv calm taken => inv_step B inv calm taken

/-- The next step of call `i` when nothing is left to chance. -/
def tick (i : ℕ) : Label := .advance i ⟨[], none⟩

/-- The steps of an undisturbed commit of the pages `order`. -/
def commitSchedule (i : ℕ) (order : List (UInt32 × Bytes)) : List Label :=
  .advance i ⟨order, none⟩ ::
    (order.flatMap (fun _ => [tick i, tick i]) ++ [tick i, tick i, tick i, tick i])

theorem calm_advance {v : CidVfs} {calls : ℕ → Task} {i : ℕ} {c : Choice} {t : Task}
    (apart : Apart (Function.update calls i t) t) (quiet : Quiet B v c t) :
    Calm B ⟨v, Function.update calls i t⟩ (.advance i c) := by
  simp only [Calm, Function.update_self]
  exact ⟨apart, quiet⟩

theorem path_storePages (calls : ℕ → Task) (i : ℕ) (pages : List (UInt32 × Bytes)) (v : CidVfs) :
    Path (step B) (Calm B) ⟨v, Function.update calls i (.commitPut pages)⟩
      (pages.flatMap fun _ => [tick i, tick i])
      ⟨v.stored B pages, Function.update calls i (.commitPut [])⟩ := by
  induction pages generalizing v with
  | nil => exact .nil _
  | cons entry pages ih =>
    refine .cons (calm_advance B trivial rfl) (step_advance B rfl) ?_
    exact .cons (calm_advance B trivial trivial) (step_advance B rfl) (ih _)

theorem path_commit (calls : ℕ → Task) (i : ℕ) (order : List (UInt32 × Bytes)) (v : CidVfs)
    (free : ∀ j, ¬ InCommit (calls j) ∧ ¬ Observing (calls j))
    (listed : order.Perm v.dirtyPages.toList) (dirty : v.dirtyPages.isEmpty = false)
    (small : ({ v with dirtyPages := ∅ }.stored B order).pageIndex.entries.size < 2 ^ 32)
    (fresh : ∀ old, ({ v with dirtyPages := ∅ }.stored B order).store
        (Cid.fromData B ({ v with dirtyPages := ∅ }.stored B order).pageIndex.serialize) = some old →
      old = ({ v with dirtyPages := ∅ }.stored B order).pageIndex.serialize) :
    Path (step B) (Calm B) ⟨v, Function.update calls i .commitDrain⟩ (commitSchedule i order)
      ⟨(v.commit B order fun _ => none).1,
        Function.update calls i (.commitDone (v.commit B order fun _ => none).2)⟩ := by
  have alone : ∀ j, ¬ InCommit (Function.update calls i .commitDrain j) ∧
      ¬ Observing (Function.update calls i .commitDrain j) :=
    (Function.forall_update_iff _ fun _ task => ¬ InCommit task ∧ ¬ Observing task).mpr
      ⟨⟨id, id⟩, fun j _ => free j⟩
  rw [commit_of_no_fault B order _ v dirty (fun _ _ => rfl)]
  refine .cons (calm_advance B alone trivial) (step_advance B (advance_drain B listed dirty)) ?_
  refine (path_storePages B calls i order _).append ?_
  -- serialise, put the index, set both roots
  refine .cons (calm_advance B trivial small) (step_advance B rfl) ?_
  refine .cons (calm_advance B trivial ⟨rfl, fresh⟩) (step_advance B rfl) ?_
  refine .cons (calm_advance B trivial trivial) (step_advance B rfl) ?_
  exact .cons (calm_advance B trivial trivial) (step_advance B rfl) (.nil _)

/-- Before the first commit nothing is cached and no read has resolved a page. -/
def Unread (s : State) : Prop :=
  s.vfs.currentRoot = none →
    (∀ key, s.vfs.pageCache key = none) ∧ ∀ i, ¬ Holding (s.calls i)

theorem advance_rooted {v w : CidVfs} {c : Choice} {t u : Task}
    (taken : advance B v c t = some (w, u)) :
    (w.currentRoot = none → v.currentRoot = none) ∧
      (Holding u → Holding t ∨ (Observing t ∧ ∃ page cid, v.pageIndex.get page = some cid)) := by
  cases advance_turn B taken with
  | setCurrent root =>
    refine ⟨?_, fun h => h.elim⟩
    intro rootless
    cases rootless
  | resolve page root cid indexed => exact ⟨id, fun _ => .inr ⟨trivial, page, cid, indexed⟩⟩
  | fetch | fetchFails => exact ⟨id, fun _ => .inl trivial⟩
  | _ => exact ⟨id, fun h => h.elim⟩

theorem Synced.get_none {v : CidVfs} (synced : Synced v) (none_ : v.currentRoot = none)
    (page : UInt32) : v.pageIndex.get page = none := by
  rw [Synced, none_] at synced
  have empty : v.pageIndex.entries = ∅ := synced
  rw [PageIndex.get, empty]
  simp

theorem unread_step {s s' : State} {a : Label} (inv : Inv B s) (unread : Unread s)
    (taken : step B s a = some s') : Unread s' := by
  cases a with
  | invoke i call =>
    obtain ⟨-, rfl⟩ := of_step_invoke taken
    intro rootless
    obtain ⟨cache, free⟩ := unread rootless
    refine ⟨cache, (Function.forall_update_iff _ fun _ task => ¬ Holding task).mpr ⟨?_, ?_⟩⟩
    · cases call <;> exact id
    · exact fun j _ => free j
  | writePage page data =>
    cases taken
    intro rootless
    obtain ⟨dirty, written⟩ := writePage_eq s.vfs page data
    rw [written] at rootless ⊢
    exact unread rootless
  | evict key =>
    cases taken
    intro rootless
    obtain ⟨cache, free⟩ := unread rootless
    refine ⟨?_, free⟩
    intro other
    by_cases same : other = key
    · simp [same]
    · simpa [same] using cache other
  | advance i c =>
    obtain ⟨w, u, moved, rfl⟩ := of_step_advance taken
    intro rootless
    have before := (advance_rooted B moved).1 rootless
    obtain ⟨cache, free⟩ := unread before
    constructor
    · rintro ⟨root, page⟩
      cases bound : w.pageCache (root, page) with
      | none => rfl
      | some bytes =>
        rcases (advance_move B moved).caches root page bytes bound with old | kept
        · rw [cache] at old
          cases old
        · have holding := free i
          rw [kept] at holding
          exact (holding trivial).elim
    · refine (Function.forall_update_iff _ fun _ task => ¬ Holding task).mpr ⟨?_, ?_⟩
      · intro holding
        rcases (advance_rooted B moved).2 holding with already | ⟨observing, page, cid, found⟩
        · exact free i already
        · rw [(inv.synced_of_observing B observing).get_none before page] at found
          cases found
      · exact fun j _ => free j

theorem unread_reach {store : Contents} {size : ℕ} {v : CidVfs} {s : State}
    (new : CidVfs.new store size = .ok v) (run : Reach (step B) (Calm B) (start v) s) :
    Unread s := by
  have empty : Unread (start v) := by
    intro _
    unfold CidVfs.new at new
    split at new
    · cases new
      exact ⟨fun _ => rfl, fun _ => id⟩
    · cases new
  have both : Inv B s ∧ Unread s := by
    refine @Reach.invariant _ _ _ _ (fun s => Inv B s ∧ Unread s) _ _ run ⟨inv_start B new, empty⟩ ?_
    intro u a w held calm taken
    exact ⟨inv_step B held.1 calm taken, unread_step B held.1 held.2 taken⟩
  exact both.2

theorem calm_alone {v : CidVfs} {calls : ℕ → Task}
    (free : ∀ j, ¬ InCommit (calls j) ∧ ¬ Observing (calls j)) {i : ℕ} {c : Choice} {t : Task}
    (outside : ¬ InCommit t) : Calm B ⟨v, Function.update calls i t⟩ (.advance i c) := by
  have commits : ∀ j, ¬ InCommit (Function.update calls i t j) :=
    (Function.forall_update_iff _ fun _ task => ¬ InCommit task).mpr
      ⟨outside, fun j _ => (free j).1⟩
  apply calm_advance
  · cases t with
    | commitDrain =>
      exact fun j => ⟨commits j, (Function.forall_update_iff _ fun _ task => ¬ Observing task).mpr
        ⟨id, fun j _ => (free j).2⟩ j⟩
    | snapshotRoot | readRoot => exact commits
    | _ => trivial
  · cases t with
    | commitPut | commitRootPut => exact (outside trivial).elim
    | _ => trivial

section Observers

variable {guard : State → Label → Prop} {v : CidVfs} {calls : ℕ → Task} {i : ℕ}

theorem path_snapshot {root : Cid} (idle : calls i = .idle) (current : v.currentRoot = some root)
    (invoked : guard ⟨v, calls⟩ (.invoke i .snapshot))
    (allowed : ∀ t, ¬ InCommit t → guard ⟨v, Function.update calls i t⟩ (tick i)) :
    Path (step B) guard ⟨v, calls⟩ [.invoke i .snapshot, tick i, tick i]
      ⟨v, Function.update calls i (.snapshotDone (.ok ⟨root, v.pageIndex.entries⟩))⟩ := by
  have first : advance B v ⟨[], none⟩ .snapshotRoot = some (v, .snapshotEntries root) := by
    simp only [advance, current]
  refine .cons invoked (step_invoke B .snapshot idle) ?_
  refine .cons (allowed _ id) (step_advance B first) ?_
  exact .cons (allowed _ id) (step_advance B rfl) (.nil _)

theorem path_read {page : UInt32} {root : Cid} {bytes : Bytes} (idle : calls i = .idle)
    (current : v.currentRoot = some root) (miss : v.pageCache (root, page) = none)
    (indexed : v.pageIndex.get page = some (Cid.fromData B bytes))
    (stored : v.store (Cid.fromData B bytes) = some bytes)
    (invoked : guard ⟨v, calls⟩ (.invoke i (.readPage page)))
    (allowed : ∀ t, ¬ InCommit t → guard ⟨v, Function.update calls i t⟩ (tick i)) :
    Path (step B) guard ⟨v, calls⟩
      [.invoke i (.readPage page), tick i, tick i, tick i, tick i, tick i]
      ⟨{ v with pageCache := Function.update v.pageCache (root, page) (some bytes) },
        Function.update calls i (.readDone page root (.ok bytes))⟩ := by
  have rooted : advance B v ⟨[], none⟩ (.readRoot page) = some (v, .readCache page root) := by
    simp only [advance, current, Option.getD_some]
  have missed : advance B v ⟨[], none⟩ (.readCache page root) = some (v, .readIndex page root) := by
    simp only [advance, miss]
  have resolved : advance B v ⟨[], none⟩ (.readIndex page root) =
      some (v, .readFetch page root (Cid.fromData B bytes)) := by
    simp only [advance, indexed]
  have fetched : advance B v ⟨[], none⟩ (.readFetch page root (Cid.fromData B bytes)) =
      some (v, .readKeep page root bytes) := by
    simp [advance, fetchPage, getObject, stored]
  refine .cons invoked (step_invoke B (.readPage page) idle) ?_
  refine .cons (allowed _ id) (step_advance B rooted) ?_
  refine .cons (allowed _ id) (step_advance B missed) ?_
  refine .cons (allowed _ id) (step_advance B resolved) ?_
  refine .cons (allowed _ id) (step_advance B fetched) ?_
  exact .cons (allowed _ id) (step_advance B rfl) (.nil _)

end Observers

def emptyVfs : CidVfs := ⟨fun _ => none, PageIndex.new, fun _ => none, ∅, none, smallPage⟩

theorem new_emptyVfs : CidVfs.new (fun _ => none) 512 = .ok emptyVfs := rfl

def oneEntry (x : Bytes) : PageMap Cid := (∅ : PageMap Cid).insert 0 (Cid.fromData B x)

def oneRoot (x : Bytes) : Cid := Cid.fromData B (Index.serializeEntries (oneEntry B x))

def firstSchedule (x : Bytes) : List Label :=
  [.writePage 0 x, .invoke 0 .commit] ++ commitSchedule 0 [(0, x)]

def firstVfs (x : Bytes) : CidVfs :=
  { emptyVfs with
    store := (Contents.put B (fun _ => none) x).put B (Index.serializeEntries (oneEntry B x))
    pageIndex := ⟨oneEntry B x, some (oneRoot B x)⟩
    currentRoot := some (oneRoot B x) }

def firstCalls (x : Bytes) : ℕ → Task :=
  Function.update (fun _ => .idle) 0 (.commitDone (.ok (oneRoot B x)))

theorem first_free (x : Bytes) (j : ℕ) :
    ¬ InCommit (firstCalls B x j) ∧ ¬ Observing (firstCalls B x j) := by
  rcases eq_or_ne j 0 with rfl | other
  · exact ⟨id, id⟩
  · simp [firstCalls, other, InCommit, Observing]

theorem path_first (x : Bytes) (whole : x.length = 512) (apart : oneRoot B x ≠ Cid.fromData B x) :
    Path (step B) (Calm B) (start emptyVfs) (firstSchedule x) ⟨firstVfs B x, firstCalls B x⟩ := by
  have commits := path_commit B (fun _ => .idle) 0 [(0, x)]
    { emptyVfs with dirtyPages := (∅ : PageMap Bytes).insert 0 x } (fun _ => ⟨id, id⟩)
    (List.Perm.refl _) rfl (by show 1 < 2 ^ 32; decide) (by
      intro old bound
      have missing : Contents.put B (fun _ => none) x (oneRoot B x) = none := by
        simp [Contents.put, apart]
      have stored : Contents.put B (fun _ => none) x (oneRoot B x) = some old := bound
      rw [missing] at stored
      cases stored)
  refine .cons trivial (step_writePage B whole) (.cons trivial (step_invoke B .commit rfl) ?_)
  exact commits

theorem first_mapAt (x : Bytes) (apart : oneRoot B x ≠ Cid.fromData B x) :
    MapAt (firstVfs B x).store (oneRoot B x) (oneEntry B x) := by
  apply put_mapAt B
  · show 1 < 2 ^ 32
    decide
  · intro old bound
    have missing : Contents.put B (fun _ => none) x (oneRoot B x) = none := by
      simp [Contents.put, apart]
    have stored : Contents.put B (fun _ => none) x (oneRoot B x) = some old := bound
    rw [missing] at stored
    cases stored

def halfSchedule (x y : Bytes) : List Label :=
  firstSchedule x ++
    [.writePage 0 y, .invoke 1 .commit, .advance 1 ⟨[(0, y)], none⟩, tick 1, tick 1]

def halfVfs (x y : Bytes) : CidVfs :=
  { firstVfs B x with
    store := (firstVfs B x).store.put B y
    pageIndex := ⟨(oneEntry B x).insert 0 (Cid.fromData B y), some (oneRoot B x)⟩ }

def halfCalls (x : Bytes) : ℕ → Task := Function.update (firstCalls B x) 1 (.commitPut [])

theorem path_half (x y : Bytes) (wholeX : x.length = 512) (wholeY : y.length = 512)
    (apart : oneRoot B x ≠ Cid.fromData B x) :
    Path (step B) anyStep (start emptyVfs) (halfSchedule x y)
      ⟨halfVfs B x y, halfCalls B x⟩ := by
  refine ((path_first B x wholeX apart).mono fun _ _ _ => trivial).append ?_
  refine .cons trivial (step_writePage B wholeY) (.cons trivial (step_invoke B .commit rfl) ?_)
  refine .cons trivial (step_advance B (advance_drain B (List.Perm.refl _) rfl)) ?_
  refine .cons trivial (step_advance B rfl) (.cons trivial (step_advance B rfl) ?_)
  exact .nil _

theorem half_mapAt (x y : Bytes) (apart : oneRoot B x ≠ Cid.fromData B x) :
    MapAt (halfVfs B x y).store (oneRoot B x) (oneEntry B x) :=
  (first_mapAt B x apart).grow (put_grows B _ y)

theorem leading_root_apart : oneRoot Blake3.byLeading (fillPage 1) ≠
    Cid.fromData Blake3.byLeading (fillPage 1) := by
  intro same
  rw [oneRoot, oneEntry, leading_fillPage] at same
  -- the second byte of the serialised index is zero
  have second := congrArg (fun c : Cid => c.digest.bytes.getD 1 0) same
  simp only [Index.serializeEntries, Index.mergeSort_toList] at second
  revert second
  decide

theorem leading_pages_apart : Cid.fromData Blake3.byLeading (fillPage 1) ≠
    Cid.fromData Blake3.byLeading (fillPage 2) := by
  rw [leading_fillPage, leading_fillPage]
  decide

theorem first_indexed (x : Bytes) :
    (firstVfs B x).pageIndex.get 0 = some (Cid.fromData B x) :=
  Std.ExtTreeMap.getElem?_insert_self

theorem half_indexed (x y : Bytes) :
    (halfVfs B x y).pageIndex.get 0 = some (Cid.fromData B y) :=
  Std.ExtTreeMap.getElem?_insert_self

theorem first_stored (x : Bytes) : (firstVfs B x).store (Cid.fromData B x) = some x := by
  have put : Contents.put B (fun _ => none) x (Cid.fromData B x) = some x := by
    simp [Contents.put]
  exact put_grows B _ _ _ _ put

theorem half_stored : (halfVfs Blake3.byLeading (fillPage 1) (fillPage 2)).store
    (Cid.fromData Blake3.byLeading (fillPage 2)) = some (fillPage 2) := by
  have root : Cid.fromData Blake3.byLeading (fillPage 2) ≠
      oneRoot Blake3.byLeading (fillPage 1) := by
    intro same
    rw [oneRoot, oneEntry, leading_fillPage, leading_fillPage] at same
    have first := congrArg (fun c : Cid => c.digest.bytes.getD 0 0) same
    simp only [Index.serializeEntries, Index.mergeSort_toList] at first
    revert first
    decide
  have missing : (firstVfs Blake3.byLeading (fillPage 1)).store
      (Cid.fromData Blake3.byLeading (fillPage 2)) = none := by
    have other : Cid.fromData Blake3.byLeading (fillPage 2) ≠ Cid.fromData Blake3.byLeading
        (Index.serializeEntries (oneEntry Blake3.byLeading (fillPage 1))) := root
    simp only [firstVfs, Contents.put, Function.update_of_ne other,
      Function.update_of_ne leading_pages_apart.symm]
  simp only [halfVfs, Contents.put, Function.update_self, missing, Option.getD_none]

/-- In every calm run, each snapshot holds the page map stored under its root. -/
theorem snapshot_entries_stored {store : Contents} {size : ℕ} {v : CidVfs} {s : State} {i : ℕ}
    {snap : Snapshot} (new : CidVfs.new store size = .ok v)
    (run : Reach (step B) (Calm B) (start v) s) (done : s.calls i = .snapshotDone (.ok snap)) :
    MapAt s.vfs.store snap.rootCid snap.entries := by
  have learnt := (inv_reach B new run).tasks i
  rw [done] at learnt
  exact learnt

theorem snapshot_after_commit :
    ∃ s, Reach (step Blake3.byLeading) (Calm Blake3.byLeading) (start emptyVfs) s ∧
      s.calls 1 = .snapshotDone (.ok ⟨oneRoot Blake3.byLeading (fillPage 1),
        oneEntry Blake3.byLeading (fillPage 1)⟩) ∧
      MapAt s.vfs.store (oneRoot Blake3.byLeading (fillPage 1))
        (oneEntry Blake3.byLeading (fillPage 1)) := by
  have first := path_first Blake3.byLeading (fillPage 1) List.length_replicate leading_root_apart
  have snapshot : Path (step Blake3.byLeading) (Calm Blake3.byLeading)
      ⟨firstVfs Blake3.byLeading (fillPage 1), firstCalls Blake3.byLeading (fillPage 1)⟩ _ _ :=
    path_snapshot Blake3.byLeading (i := 1) rfl rfl trivial fun _ outside =>
      calm_alone Blake3.byLeading (first_free Blake3.byLeading (fillPage 1)) outside
  have run := (first.append snapshot).reach
  exact ⟨_, run, rfl, snapshot_entries_stored Blake3.byLeading (i := 1) new_emptyVfs run rfl⟩

def tornSchedule : List Label :=
  halfSchedule (fillPage 1) (fillPage 2) ++ [.invoke 2 .snapshot, tick 2, tick 2]

theorem torn_snapshot :
    ∃ s snap, Path (step Blake3.byLeading) anyStep (start emptyVfs) tornSchedule s ∧
      s.calls 2 = .snapshotDone (.ok snap) ∧
      ¬ MapAt s.vfs.store snap.rootCid snap.entries := by
  have half := path_half Blake3.byLeading (fillPage 1) (fillPage 2) List.length_replicate
    List.length_replicate leading_root_apart
  have snapshot : Path (step Blake3.byLeading) anyStep
      ⟨halfVfs Blake3.byLeading (fillPage 1) (fillPage 2),
        halfCalls Blake3.byLeading (fillPage 1)⟩ _ _ :=
    path_snapshot Blake3.byLeading (i := 2) rfl rfl trivial fun _ _ => trivial
  refine ⟨_, _, half.append snapshot, rfl, ?_⟩
  intro pinned
  have same := MapAt.unique pinned (half_mapAt Blake3.byLeading (fillPage 1) (fillPage 2)
    leading_root_apart)
  have page := congrArg (fun m : PageMap Cid => m[(0 : UInt32)]?) same
  simp only [halfVfs, oneEntry, Std.ExtTreeMap.getElem?_insert_self, Option.some.injEq] at page
  exact leading_pages_apart page.symm

/-- In every calm run, each cached page is a page of the root it is cached under,
and with no commit under way a read returns a page of the current root. -/
theorem page_cache_sound {store : Contents} {size : ℕ} {v : CidVfs} {s : State}
    (new : CidVfs.new store size = .ok v) (run : Reach (step B) (Calm B) (start v) s) :
    CacheSound B s.vfs ∧
      ((∀ i, ¬ InCommit (s.calls i)) → ∀ fault page bytes,
        (readPage B s.vfs fault page).2 = .ok bytes →
          ∃ root, s.vfs.currentRoot = some root ∧
            PageAt s.vfs.store root page (Cid.fromData B bytes)) := by
  have inv := inv_reach B new run
  refine ⟨inv.cache, ?_⟩
  intro free fault page bytes returned
  have synced := inv.synced free
  have pageAt : PageAt s.vfs.store (s.vfs.currentRoot.getD zeroCid) page (Cid.fromData B bytes) := by
    simp only [readPage] at returned
    split at returned
    · rename_i cached hit
      cases returned
      exact inv.cache _ _ _ hit
    · split at returned
      · cases returned
      · rename_i cid found
        split at returned
        · cases returned
        · rename_i fetched ok
          cases returned
          rw [fetchPage_ok B ok]
          exact synced.pageAt found
  cases root : s.vfs.currentRoot with
  | some r =>
    rw [root] at pageAt
    exact ⟨r, rfl, pageAt⟩
  | none =>
    -- without a root both the cache and the index are empty
    have cold := (unread_reach B new run root).1
    simp only [readPage, cold, synced.get_none root page] at returned
    cases returned

theorem read_after_commit :
    ∃ s, Reach (step Blake3.byLeading) (Calm Blake3.byLeading) (start emptyVfs) s ∧
      s.vfs.pageCache (oneRoot Blake3.byLeading (fillPage 1), 0) = some (fillPage 1) ∧
      PageAt s.vfs.store (oneRoot Blake3.byLeading (fillPage 1)) 0
        (Cid.fromData Blake3.byLeading (fillPage 1)) := by
  have first := path_first Blake3.byLeading (fillPage 1) List.length_replicate leading_root_apart
  have read : Path (step Blake3.byLeading) (Calm Blake3.byLeading)
      ⟨firstVfs Blake3.byLeading (fillPage 1), firstCalls Blake3.byLeading (fillPage 1)⟩ _ _ :=
    path_read Blake3.byLeading (i := 1) rfl rfl rfl
      (first_indexed Blake3.byLeading (fillPage 1))
      (first_stored Blake3.byLeading (fillPage 1)) trivial fun _ outside =>
        calm_alone Blake3.byLeading (first_free Blake3.byLeading (fillPage 1)) outside
  have run := (first.append read).reach
  have cached := Function.update_self (oneRoot Blake3.byLeading (fillPage 1), (0 : UInt32))
    (some (fillPage 1)) (firstVfs Blake3.byLeading (fillPage 1)).pageCache
  exact ⟨_, run, cached, (page_cache_sound Blake3.byLeading new_emptyVfs run).1 _ _ _ cached⟩

def poisonSchedule : List Label :=
  halfSchedule (fillPage 1) (fillPage 2) ++
    [.invoke 2 (.readPage 0), tick 2, tick 2, tick 2, tick 2, tick 2]

theorem poisoned_cache :
    ∃ s, Path (step Blake3.byLeading) anyStep (start emptyVfs) poisonSchedule s ∧
      ¬ CacheSound Blake3.byLeading s.vfs := by
  have half := path_half Blake3.byLeading (fillPage 1) (fillPage 2) List.length_replicate
    List.length_replicate leading_root_apart
  have read : Path (step Blake3.byLeading) anyStep
      ⟨halfVfs Blake3.byLeading (fillPage 1) (fillPage 2),
        halfCalls Blake3.byLeading (fillPage 1)⟩ _ _ :=
    path_read Blake3.byLeading (i := 2) rfl rfl rfl
      (half_indexed Blake3.byLeading (fillPage 1) (fillPage 2)) half_stored trivial
      fun _ _ => trivial
  refine ⟨_, half.append read, ?_⟩
  intro sound
  have cached := Function.update_self (oneRoot Blake3.byLeading (fillPage 1), (0 : UInt32))
    (some (fillPage 2)) (halfVfs Blake3.byLeading (fillPage 1) (fillPage 2)).pageCache
  obtain ⟨m, stored, found⟩ := sound _ _ _ cached
  have same := MapAt.unique stored (half_mapAt Blake3.byLeading (fillPage 1) (fillPage 2)
    leading_root_apart)
  rw [same, oneEntry, Std.ExtTreeMap.getElem?_insert_self] at found
  exact leading_pages_apart (Option.some.inj found)

end Craftec.Vfs.Isolation
