/- GID: Craftec/Vfs/Convergence
   generality: I
   digest: Writes and commits that do not overlap end with the contents written last and their root. -/

import Mathlib
import Craftec.Library.OrderedMap
import Craftec.Library.Run
import Craftec.Types.Digest
import Craftec.Vfs.Commit
import Craftec.Vfs.Index
import Craftec.Vfs.Interleaving
import Craftec.Vfs.Isolation

set_option autoImplicit false
set_option relaxedAutoImplicit false

namespace Craftec.Vfs.Convergence

open Craftec.Library.OrderedMap (getElem?_insertMany_map)
open Craftec.Library.Run (Path anyStep of_update single_update)
open Craftec.Types.Digest (Bytes Blake3 Cid)
open Craftec.Vfs.Commit (CidVfs Contents fillPage leading_fillPage)
open Craftec.Vfs.Index (PageMap PageIndex serializeEntries)
open Craftec.Vfs.Interleaving
open Craftec.Vfs.Isolation (InCommit Move advance_move commitSchedule emptyVfs new_emptyVfs tick
  oneEntry oneRoot leading_pages_apart)

/-- The contents of a page after a step of the run: those of the last write that had
the page size. -/
def record (size : ℕ) (m : PageMap Bytes) : Label → PageMap Bytes
  | .writePage page data => if data.length = size then m.insert page data else m
  | _ => m

def lastWritten (size : ℕ) (labels : List Label) : PageMap Bytes := labels.foldl (record size) ∅

def PutsSucceed (s : State) : Label → Prop
  | .advance i c => InCommit (s.calls i) → c.fault = none
  | _ => True

/-- A commit takes dirty pages only while no other commit is between taking its
pages and returning. -/
def CommitsApart (s : State) : Label → Prop
  | .advance i _ => s.calls i = .commitDrain → s.vfs.dirtyPages.isEmpty = false →
      ∀ j, ¬ InCommit (s.calls j)
  | _ => True

section

variable (B : Blake3)

/-- The index as it will be when the commit has set the pages it still holds. -/
def ahead (v : CidVfs) : Task → PageMap Cid
  | .commitPut rest => v.pageIndex.entries.insertMany (rest.map fun e => (e.1, Cid.fromData B e.2))
  | .commitSet page cid rest =>
    (v.pageIndex.entries.insert page cid).insertMany (rest.map fun e => (e.1, Cid.fromData B e.2))
  | _ => v.pageIndex.entries

/-- The root that is current, or that the commit is about to make current, is that
of the index. -/
def RootOk (v : CidVfs) : Task → Prop
  | .commitPut _ | .commitSet _ _ _ => True
  | .commitRootPut serialised => serialised = v.pageIndex.serialize
  | .commitSetRoot root | .commitSetCurrent root => root = Cid.fromData B v.pageIndex.serialize
  | _ => v.currentRoot = some (Cid.fromData B v.pageIndex.serialize) ∨
      v.currentRoot = none ∧ v.pageIndex.entries = ∅

structure Ok (v : CidVfs) (m : PageMap Bytes) (t : Task) : Prop where
  indexed : ∀ page : UInt32, v.dirtyPages[page]? = none →
    (ahead B v t)[page]? = m[page]?.map (Cid.fromData B)
  rooted : RootOk B v t

structure Inv (s : State) (m : PageMap Bytes) : Prop where
  single : ∀ i j, InCommit (s.calls i) → InCommit (s.calls j) → i = j
  dirty : ∀ (page : UInt32) data, s.vfs.dirtyPages[page]? = some data → m[page]? = some data
  alone : ∀ i, (∀ j, j ≠ i → ¬ InCommit (s.calls j)) → Ok B s.vfs m (s.calls i)

end

variable {B : Blake3}

theorem Ok.outside {v : CidVfs} {m : PageMap Bytes} {t u : Task} (ok : Ok B v m t)
    (before : ¬ InCommit t) (after : ¬ InCommit u) : Ok B v m u := by
  have index (x : Task) (out : ¬ InCommit x) : ahead B v x = v.pageIndex.entries := by
    cases x with
    | commitPut | commitSet => exact (out trivial).elim
    | _ => rfl
  have root (x : Task) (out : ¬ InCommit x) : RootOk B v x = RootOk B v .idle := by
    cases x with
    | commitPut | commitSet | commitRootPut | commitSetRoot | commitSetCurrent =>
      exact (out trivial).elim
    | _ => rfl
  refine ⟨?_, ?_⟩
  · rw [index u after, ← index t before]
    exact ok.indexed
  · rw [root u after, ← root t before]
    exact ok.rooted

theorem Ok.of_same {v w : CidVfs} {m : PageMap Bytes} {t : Task} (ok : Ok B v m t)
    (index : w.pageIndex = v.pageIndex) (root : w.currentRoot = v.currentRoot)
    (dirty : w.dirtyPages = v.dirtyPages) : Ok B w m t := by
  refine ⟨?_, ?_⟩
  · intro page clean
    rw [dirty] at clean
    rw [← ok.indexed page clean]
    cases t <;> simp only [ahead, index]
  · have rooted := ok.rooted
    cases t with
    | commitPut | commitSet => trivial
    | _ => simpa only [RootOk, index, root] using rooted

theorem Ok.advance {v w : CidVfs} {m : PageMap Bytes} {c : Choice} {t u : Task} (ok : Ok B v m t)
    (dirty : ∀ (page : UInt32) data, v.dirtyPages[page]? = some data → m[page]? = some data)
    (succeeds : InCommit t → c.fault = none) (taken : advance B v c t = some (w, u)) :
    Ok B w m u := by
  have fault (e : String) (inside : InCommit t) (fails : c.fault = some e) : False := by
    rw [succeeds inside] at fails
    cases fails
  cases advance_turn B taken with
  | drainNothing empty =>
    exact (ok.outside id id).of_same rfl rfl (Std.ExtTreeMap.isEmpty_iff.mp empty).symm
  | drain listed =>
    refine ⟨?_, trivial⟩
    intro page _
    rw [ahead, getElem?_insertMany_map v.pageIndex.entries v.dirtyPages listed]
    cases held : v.dirtyPages[page]? with
    | some data =>
      rw [dirty page data held]
      rfl
    | none => exact ok.indexed page held
  | clean answer => exact ok.outside id id
  | serialise =>
    refine ⟨?_, rfl⟩
    intro page clean
    have indexed := ok.indexed page clean
    rwa [ahead, List.map_nil, Std.ExtTreeMap.insertMany_nil] at indexed
  | putFails entry rest e fails => exact (fault e trivial fails).elim
  | rootPutFails data e fails => exact (fault e trivial fails).elim
  | put page data rest =>
    refine ⟨?_, trivial⟩
    intro other clean
    have indexed := ok.indexed other clean
    rwa [ahead, List.map_cons, Std.ExtTreeMap.insertMany_cons] at indexed
  | set page cid rest => exact ⟨ok.indexed, trivial⟩
  | rootPut data => exact ⟨ok.indexed, congrArg (Cid.fromData B) ok.rooted⟩
  | setRoot root => exact ⟨ok.indexed, ok.rooted⟩
  | setCurrent root => exact ⟨ok.indexed, .inl (congrArg some ok.rooted)⟩
  | keep => exact (ok.outside id id).of_same rfl rfl rfl
  | _ => exact ok.outside id id

theorem dirty_advance {v w : CidVfs} {c : Choice} {t u : Task}
    (taken : advance B v c t = some (w, u)) :
    w.dirtyPages = v.dirtyPages ∨ w.dirtyPages = ∅ ∧ InCommit u := by
  cases advance_turn B taken with
  | drainNothing empty => exact .inl (Std.ExtTreeMap.isEmpty_iff.mp empty).symm
  | drain listed => exact .inr ⟨rfl, trivial⟩
  | _ => exact .inl rfl

theorem dirty_of_drain {v w : CidVfs} {c : Choice} {u : Task} (inside : InCommit u)
    (taken : advance B v c .commitDrain = some (w, u)) : v.dirtyPages.isEmpty = false := by
  simp only [advance] at taken
  split at taken
  · obtain ⟨-, rfl⟩ := Prod.mk.inj (Option.some.inj taken)
    cases empty : v.dirtyPages.isEmpty with
    | false => rfl
    | true =>
      rw [empty] at inside
      exact inside.elim
  · cases taken

theorem Inv.advance {s : State} {m : PageMap Bytes} (inv : Inv B s m) {i : ℕ} {c : Choice} {w : CidVfs}
    {u : Task} (succeeds : PutsSucceed s (.advance i c)) (apart : CommitsApart s (.advance i c))
    (taken : advance B s.vfs c (s.calls i) = some (w, u)) :
    Inv B ⟨w, Function.update s.calls i u⟩ m := by
  have move := advance_move B taken
  have enters (inside : InCommit u) : InCommit (s.calls i) ∨ ∀ j, ¬ InCommit (s.calls j) := by
    refine (move.enters inside).imp id ?_
    intro drains
    rw [drains] at taken
    exact apart drains (dirty_of_drain inside taken)
  -- a commit entered or gone on with leaves every other call outside
  have others (inside : InCommit u) (j : ℕ) (other : j ≠ i) : ¬ InCommit (s.calls j) := by
    intro also
    rcases enters inside with already | free
    · exact other (inv.single i j already also).symm
    · exact free j also
  refine ⟨?_, ?_, ?_⟩
  · exact single_update inv.single others
  · intro page data held
    rcases dirty_advance taken with same | ⟨drained, -⟩
    · rw [same] at held
      exact inv.dirty page data held
    · rw [drained, Std.ExtTreeMap.getElem?_empty] at held
      cases held
  · intro k outside
    change ∀ j, j ≠ k → ¬ InCommit (Function.update s.calls i u j) at outside
    change Ok B w m (Function.update s.calls i u k)
    rcases eq_or_ne k i with rfl | other
    · rw [Function.update_self]
      refine (inv.alone k ?_).advance inv.dirty succeeds taken
      intro j ne
      have stands := outside j ne
      rwa [Function.update_of_ne ne] at stands
    · rw [Function.update_of_ne other]
      have left : ¬ InCommit u := by
        have stands := outside i other.symm
        rwa [Function.update_self] at stands
      by_cases inside : InCommit (s.calls i)
      · -- the commit has just returned, with everything in place
        have free (j : ℕ) (ne : j ≠ i) : ¬ InCommit (s.calls j) :=
          fun also => ne (inv.single i j inside also).symm
        exact ((inv.alone i free).advance inv.dirty succeeds taken).outside left (free k other)
      · have before : Ok B s.vfs m (s.calls k) := by
          refine inv.alone k ?_
          intro j ne
          exact of_update (P := fun task => ¬ InCommit task) (fun _ => inside) j (outside j ne)
        obtain ⟨-, index, root⟩ := move.still inside
        rcases dirty_advance taken with same | ⟨-, entered⟩
        · exact before.of_same index root same
        · exact (left entered).elim

theorem Inv.invoke {s : State} {m : PageMap Bytes} (inv : Inv B s m) {i : ℕ}
    (idle : s.calls i = .idle) (call : Call) :
    Inv B ⟨s.vfs, Function.update s.calls i call.start⟩ m := by
  have fresh : ¬ InCommit call.start := by
    cases call <;> exact id
  have commits : ∀ j, InCommit (Function.update s.calls i call.start j) → InCommit (s.calls j) :=
    of_update fun inside => (fresh inside).elim
  refine ⟨fun a b ha hb => inv.single a b (commits a ha) (commits b hb), inv.dirty, ?_⟩
  intro k outside
  change Ok B s.vfs m (Function.update s.calls i call.start k)
  have before : Ok B s.vfs m (s.calls k) := by
    refine inv.alone k ?_
    have free : ¬ InCommit (s.calls i) := by
      rw [idle]
      exact id
    intro j ne
    exact of_update (P := fun task => ¬ InCommit task) (fun _ => free) j (outside j ne)
  rcases eq_or_ne k i with rfl | other
  · rw [Function.update_self]
    rw [idle] at before
    exact before.outside id fresh
  · rwa [Function.update_of_ne other]

theorem Inv.write {s : State} {m : PageMap Bytes} (inv : Inv B s m) (page : UInt32) (data : Bytes) :
    Inv B ⟨{ s.vfs with dirtyPages := s.vfs.dirtyPages.insert page data }, s.calls⟩
      (m.insert page data) := by
  refine ⟨inv.single, ?_, ?_⟩
  · intro other found held
    change (s.vfs.dirtyPages.insert page data)[other]? = some found at held
    rw [Std.ExtTreeMap.getElem?_insert] at held ⊢
    split at held
    · rename_i same
      rw [if_pos same]
      exact held
    · rename_i different
      rw [if_neg different]
      exact inv.dirty other found held
  · intro k outside
    have before := inv.alone k outside
    refine ⟨?_, ?_⟩
    · intro other clean
      change (s.vfs.dirtyPages.insert page data)[other]? = none at clean
      rw [Std.ExtTreeMap.getElem?_insert] at clean ⊢
      split at clean
      · cases clean
      · rename_i different
        rw [if_neg different, ← before.indexed other clean]
        cases s.calls k <;> rfl
    · have rooted := before.rooted
      change RootOk B { s.vfs with dirtyPages := s.vfs.dirtyPages.insert page data } (s.calls k)
      cases here : s.calls k <;> rw [here] at rooted <;> exact rooted

theorem pageSize_advance {v w : CidVfs} {c : Choice} {t u : Task}
    (taken : advance B v c t = some (w, u)) : w.pageSize = v.pageSize := by
  cases advance_turn B taken <;> rfl

theorem inv_step {s t : State} {m : PageMap Bytes} {label : Label} {size : ℕ} (inv : Inv B s m)
    (sized : s.vfs.pageSize.bytes = size) (succeeds : PutsSucceed s label)
    (apart : CommitsApart s label) (taken : step B s label = some t) :
    Inv B t (record size m label) ∧ t.vfs.pageSize.bytes = size := by
  cases label with
  | invoke i call =>
    obtain ⟨idle, rfl⟩ := of_step_invoke taken
    exact ⟨inv.invoke idle call, sized⟩
  | writePage page data =>
    cases taken
    simp only [CidVfs.writePage, record, sized]
    by_cases whole : data.length = size
    · rw [if_neg (not_not.mpr whole), if_pos whole]
      exact ⟨inv.write page data, sized⟩
    · rw [if_pos whole, if_neg whole]
      exact ⟨inv, sized⟩
  | evict key =>
    cases taken
    exact ⟨⟨inv.single, inv.dirty, fun i outside => (inv.alone i outside).of_same rfl rfl rfl⟩, sized⟩
  | advance i c =>
    obtain ⟨w, u, moved, rfl⟩ := of_step_advance taken
    exact ⟨inv.advance succeeds apart moved, by rw [pageSize_advance moved]; exact sized⟩

theorem inv_path {s t : State} {labels : List Label} {size : ℕ}
    (path : Path (step B) (fun u l => PutsSucceed u l ∧ CommitsApart u l) s labels t)
    {m : PageMap Bytes} (inv : Inv B s m) (sized : s.vfs.pageSize.bytes = size) :
    Inv B t (labels.foldl (record size) m) := by
  induction path generalizing m with
  | nil s => exact inv
  | cons allowed taken _ ih =>
    obtain ⟨next, still⟩ := inv_step inv sized allowed.1 allowed.2 taken
    exact ih next still

theorem inv_start {store : Contents} {size : ℕ} {v : CidVfs} (new : CidVfs.new store size = .ok v) :
    Inv B (start v) ∅ ∧ v.pageSize.bytes = size := by
  unfold CidVfs.new at new
  split at new
  · cases new
    refine ⟨⟨fun _ _ inside => inside.elim, ?_, fun _ _ => ⟨?_, .inr ⟨rfl, rfl⟩⟩⟩, rfl⟩
    · intro page data held
      have empty : (∅ : PageMap Bytes)[page]? = some data := held
      rw [Std.ExtTreeMap.getElem?_empty] at empty
      cases empty
    · intro page _
      rw [Std.ExtTreeMap.getElem?_empty]
      exact Std.ExtTreeMap.getElem?_empty
  · cases new

/-- Writes and commits in any interleaving in which every put succeeds and no commit
takes dirty pages while another is under way: once no commit is under way and no
page is dirty, every page is indexed with the contents written to it last, and the
current root is that of the index. -/
theorem commits_converge {store : Contents} {size : ℕ} {v : CidVfs} {s : State} {labels : List Label}
    (new : CidVfs.new store size = .ok v)
    (run : Path (step B) (fun u l => PutsSucceed u l ∧ CommitsApart u l) (start v) labels s)
    (returned : ∀ i, ¬ InCommit (s.calls i)) (clean : s.vfs.dirtyPages = ∅) :
    (∀ page : UInt32, s.vfs.pageIndex.get page =
      (lastWritten size labels)[page]?.map (Cid.fromData B)) ∧
    (lastWritten size labels ≠ ∅ →
      s.vfs.currentRoot = some (Cid.fromData B s.vfs.pageIndex.serialize)) := by
  obtain ⟨first, sized⟩ := inv_start (B := B) new
  have inv := inv_path run first sized
  have ok : Ok B s.vfs (lastWritten size labels) .idle :=
    (inv.alone 0 fun j _ => returned j).outside (returned 0) id
  have indexed (page : UInt32) : s.vfs.pageIndex.get page =
      (lastWritten size labels)[page]?.map (Cid.fromData B) := by
    apply ok.indexed
    rw [clean]
    exact Std.ExtTreeMap.getElem?_empty
  refine ⟨indexed, ?_⟩
  intro written
  rcases ok.rooted with current | ⟨-, empty⟩
  · exact current
  · -- an empty index means that nothing was written
    refine (written ?_).elim
    apply Std.ExtTreeMap.ext_getElem?
    intro page
    have missing := indexed page
    rw [PageIndex.get, empty, Std.ExtTreeMap.getElem?_empty] at missing
    rw [Option.map_eq_none_iff.mp missing.symm, Std.ExtTreeMap.getElem?_empty]

/-! One page written and committed twice, first one commit after the other. -/

theorem tick_allowed {v : CidVfs} {calls : ℕ → Task} {i : ℕ} {t : Task} (past : t ≠ .commitDrain) :
    PutsSucceed ⟨v, Function.update calls i t⟩ (tick i) ∧
      CommitsApart ⟨v, Function.update calls i t⟩ (tick i) := by
  refine ⟨fun _ => rfl, ?_⟩
  intro drains
  simp only [Function.update_self] at drains
  exact (past drains).elim

def committed (B : Blake3) (v : CidVfs) (x : Bytes) : CidVfs :=
  ({ v with dirtyPages := ∅ }.storePage B 0 x).publish B

def rootOf (B : Blake3) (v : CidVfs) (x : Bytes) : Cid :=
  Cid.fromData B ({ v with dirtyPages := ∅ }.storePage B 0 x).pageIndex.serialize

def writeAndCommit (i : ℕ) (x : Bytes) : List Label :=
  [.writePage 0 x, .invoke i .commit] ++ commitSchedule i [(0, x)]

theorem path_writeAndCommit {v : CidVfs} {calls : ℕ → Task} {i : ℕ} {x : Bytes}
    (clean : v.dirtyPages = ∅) (idle : calls i = .idle) (free : ∀ j, ¬ InCommit (calls j))
    (whole : x.length = v.pageSize.bytes) :
    Path (step B) (fun u l => PutsSucceed u l ∧ CommitsApart u l) ⟨v, calls⟩ (writeAndCommit i x)
      ⟨committed B v x, Function.update calls i (.commitDone (.ok (rootOf B v x)))⟩ := by
  obtain ⟨store, index, cache, dirty, root, size⟩ := v
  subst clean
  have alone : ∀ j, ¬ InCommit (Function.update calls i .commitDrain j) :=
    (Function.forall_update_iff _ fun _ task => ¬ InCommit task).mpr ⟨id, fun j _ => free j⟩
  refine .cons ⟨trivial, trivial⟩ (step_writePage B whole) ?_
  refine .cons ⟨trivial, trivial⟩ (step_invoke B .commit idle) ?_
  refine .cons ⟨fun _ => rfl, fun _ _ => alone⟩
    (step_advance B (advance_drain B (List.Perm.refl _) rfl)) ?_
  refine .cons (tick_allowed (by simp)) (step_advance B rfl) ?_
  refine .cons (tick_allowed (by simp)) (step_advance B rfl) ?_
  refine .cons (tick_allowed (by simp)) (step_advance B rfl) ?_
  refine .cons (tick_allowed (by simp)) (step_advance B rfl) ?_
  refine .cons (tick_allowed (by simp)) (step_advance B rfl) ?_
  exact .cons (tick_allowed (by simp)) (step_advance B rfl) (.nil _)

theorem lastWritten_twice (x y : Bytes) (wholeX : x.length = 512) (wholeY : y.length = 512) :
    (lastWritten 512 (writeAndCommit 0 x ++ writeAndCommit 1 y))[(0 : UInt32)]? = some y := by
  simp [lastWritten, writeAndCommit, commitSchedule, tick, record, wholeX, wholeY]

theorem commits_converge_one_after_other :
    (committed .byLeading (committed .byLeading emptyVfs (fillPage 1)) (fillPage 2)).pageIndex.get 0 =
        some (Cid.fromData .byLeading (fillPage 2)) ∧
      (committed .byLeading (committed .byLeading emptyVfs (fillPage 1)) (fillPage 2)).currentRoot =
        some (Cid.fromData .byLeading
          (committed .byLeading (committed .byLeading emptyVfs (fillPage 1))
            (fillPage 2)).pageIndex.serialize) := by
  have first : Path _ _ (start emptyVfs) _ _ := path_writeAndCommit (B := .byLeading) (i := 0)
    (x := fillPage 1) rfl rfl (fun _ => id) List.length_replicate
  have returned : ∀ j, ¬ InCommit (Function.update (fun _ => Task.idle) 0
      (.commitDone (.ok (rootOf .byLeading emptyVfs (fillPage 1)))) j) :=
    (Function.forall_update_iff _ fun _ task => ¬ InCommit task).mpr ⟨id, fun _ _ => id⟩
  have second := path_writeAndCommit (B := .byLeading)
    (v := committed .byLeading emptyVfs (fillPage 1)) (i := 1) (x := fillPage 2) rfl rfl returned
    List.length_replicate
  have converged := commits_converge new_emptyVfs (first.append second)
    ((Function.forall_update_iff _ fun _ task => ¬ InCommit task).mpr ⟨id, fun j _ => returned j⟩) rfl
  have written := lastWritten_twice (fillPage 1) (fillPage 2) List.length_replicate
    List.length_replicate
  refine ⟨?_, ?_⟩
  · rw [converged.1 0, written]
    rfl
  · apply converged.2
    intro nothing
    rw [nothing, Std.ExtTreeMap.getElem?_empty] at written
    cases written

theorem path_at {s u : State} {i : ℕ} {order : List (UInt32 × Bytes)} {w : CidVfs} {t : Task}
    {labels : List Label} (moves : advance B s.vfs ⟨order, none⟩ (s.calls i) = some (w, t))
    (later : Path (step B) PutsSucceed ⟨w, Function.update s.calls i t⟩ labels u) :
    Path (step B) PutsSucceed s (.advance i ⟨order, none⟩ :: labels) u :=
  .cons (fun _ => rfl) (by simp only [step, moves]) later

def crossed (x y : Bytes) : List Label :=
  [.writePage 0 x, .invoke 0 .commit, .advance 0 ⟨[(0, x)], none⟩, tick 0, .writePage 0 y,
    .invoke 1 .commit, .advance 1 ⟨[(0, y)], none⟩, tick 1, tick 1, tick 1, tick 0, tick 0, tick 0,
    tick 0, tick 0, tick 1, tick 1, tick 1]

theorem path_crossed (x y : Bytes) (wholeX : x.length = 512) (wholeY : y.length = 512) :
    ∃ s, Path (step B) PutsSucceed (start emptyVfs) (crossed x y) s ∧
      (∀ j, ¬ InCommit (s.calls j)) ∧ s.vfs.dirtyPages = ∅ ∧
      s.vfs.pageIndex.entries = (oneEntry B y).insert 0 (Cid.fromData B x) ∧
      s.vfs.currentRoot = some (oneRoot B y) := by
  -- the state is found by running the labels, so the path is one term
  refine ⟨_, .cons trivial (step_writePage B wholeX) (.cons trivial (step_invoke B .commit rfl)
    (path_at (advance_drain B (List.Perm.refl _) rfl) (path_at rfl
    (.cons trivial (step_writePage B wholeY) (.cons trivial (step_invoke B .commit rfl)
    (path_at (advance_drain B (List.Perm.refl _) rfl) (path_at rfl (path_at rfl (path_at rfl
    (path_at rfl (path_at rfl (path_at rfl (path_at rfl (path_at rfl
    (path_at rfl (path_at rfl (path_at rfl (.nil _)))))))))))))))))), ?_⟩
  refine ⟨?_, rfl, rfl, rfl⟩
  intro j
  rcases j with _ | _ | j <;> exact id

theorem lastWritten_crossed (x y : Bytes) (wholeX : x.length = 512) (wholeY : y.length = 512) :
    (lastWritten 512 (crossed x y))[(0 : UInt32)]? = some y := by
  simp [lastWritten, crossed, tick, record, wholeX, wholeY]

theorem leading_roots_apart :
    oneRoot .byLeading (fillPage 2) ≠ oneRoot .byLeading (fillPage 1) := by
  intro same
  simp only [oneRoot, oneEntry, leading_fillPage] at same
  -- the first byte of the page's CID stands after the count and the page number
  have byte := congrArg (fun c : Cid => c.digest.bytes.getD 8 0) same
  simp only [serializeEntries, Index.mergeSort_toList] at byte
  revert byte
  decide

/-- Two commits that overlap, with every put a success: the page written last is not
the one in the index, and the current root is not that of the index. -/
theorem crossed_commits_diverge : ∃ labels s,
    Path (step .byLeading) PutsSucceed (start emptyVfs) labels s ∧
      (∀ j, ¬ InCommit (s.calls j)) ∧ s.vfs.dirtyPages = ∅ ∧
      (lastWritten 512 labels)[(0 : UInt32)]? = some (fillPage 2) ∧
      s.vfs.pageIndex.get 0 = some (Cid.fromData .byLeading (fillPage 1)) ∧
      Cid.fromData .byLeading (fillPage 1) ≠ Cid.fromData .byLeading (fillPage 2) ∧
      s.vfs.currentRoot ≠ some (Cid.fromData .byLeading s.vfs.pageIndex.serialize) := by
  obtain ⟨s, run, returned, clean, entries, root⟩ :=
    path_crossed (B := .byLeading) (fillPage 1) (fillPage 2) List.length_replicate List.length_replicate
  have only : s.vfs.pageIndex.entries = oneEntry .byLeading (fillPage 1) := by
    rw [entries]
    apply Std.ExtTreeMap.ext_getElem?
    intro page
    simp only [oneEntry, Std.ExtTreeMap.getElem?_insert]
    split <;> rfl
  have written := lastWritten_crossed (fillPage 1) (fillPage 2) List.length_replicate
    List.length_replicate
  refine ⟨_, s, run, returned, clean, written, ?_, leading_pages_apart, ?_⟩
  · rw [PageIndex.get, only]
    exact Std.ExtTreeMap.getElem?_insert_self
  · rw [root, PageIndex.serialize, only]
    intro same
    exact leading_roots_apart (Option.some.inj same)

end Craftec.Vfs.Convergence
