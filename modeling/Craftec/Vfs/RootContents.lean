/- GID: Craftec/Vfs/RootContents
   generality: I
   digest: The root of a committed page layer stands for its page contents, however they were written. -/

import Mathlib
import Craftec.Library.OrderedMap
import Craftec.Types.Digest
import Craftec.Vfs.Commit
import Craftec.Vfs.Index
import Craftec.Vfs.Isolation

set_option autoImplicit false
set_option relaxedAutoImplicit false

namespace Craftec.Vfs.RootContents

open Craftec.Library.OrderedMap (getElem?_insertMany_map)
open Craftec.Types.Digest (Bytes Blake3 Cid)
open Craftec.Vfs.Commit (CidVfs Contents commit_of_clean commit_of_no_fault commit_ok
  fillPage stored_dirtyPages stored_entries)
open Craftec.Vfs.Index (PageMap PageIndex VfsError serializeEntries serializeEntries_injective)
open Craftec.Vfs.Isolation (emptyVfs leading_root_apart new_emptyVfs oneEntry)

def noFault : ℕ → Option String := fun _ => none

section

variable (B : Blake3)

/-- Page layers reached from a fresh one by writes and commits, one call at a time,
with the contents last written to each page. The drained pages of a commit come in
any order. -/
inductive Session : CidVfs → PageMap Bytes → Prop where
  | new {store : Contents} {size : ℕ} {v : CidVfs} (made : CidVfs.new store size = .ok v) :
      Session v ∅
  | write {v w : CidVfs} {m : PageMap Bytes} {page : UInt32} {data : Bytes} (earlier : Session v m)
      (written : v.writePage page data = (w, .ok ())) : Session w (m.insert page data)
  | refused {v w : CidVfs} {m : PageMap Bytes} {page : UInt32} {data : Bytes} {e : VfsError}
      (earlier : Session v m) (failed : v.writePage page data = (w, .error e)) : Session w m
  | commit {v w : CidVfs} {m : PageMap Bytes} {order : List (UInt32 × Bytes)}
      {result : Except VfsError Cid} (earlier : Session v m)
      (listed : order.Perm v.dirtyPages.toList)
      (committed : v.commit B order noFault = (w, result)) : Session w m

/-- A dirty page holds the contents written last, a clean one is indexed with them. -/
def Holds (v : CidVfs) (m : PageMap Bytes) : Prop :=
  ∀ page, match v.dirtyPages[page]? with
    | some data => m[page]? = some data
    | none => v.pageIndex.get page = m[page]?.map (Cid.fromData B)

def Rooted (v : CidVfs) : Prop :=
  ∀ root, v.currentRoot = some root → root = Cid.fromData B v.pageIndex.serialize

def pagesOf (m : PageMap Bytes) : Set Bytes := { data | ∃ page : UInt32, m[page]? = some data }

end

variable {B : Blake3}

theorem get_stored {v : CidVfs} {m : PageMap Bytes} (holds : Holds B v m)
    {order : List (UInt32 × Bytes)} (listed : order.Perm v.dirtyPages.toList) (page : UInt32) :
    ({ v with dirtyPages := ∅ }.stored B order).pageIndex.get page =
      m[page]?.map (Cid.fromData B) := by
  rw [PageIndex.get, stored_entries,
    getElem?_insertMany_map v.pageIndex.entries v.dirtyPages listed (Cid.fromData B) page]
  have here := holds page
  cases dirty : v.dirtyPages[page]? with
  | some data =>
    rw [dirty] at here
    have last : m[page]? = some data := here
    rw [last]
    rfl
  | none =>
    rw [dirty] at here
    exact here

theorem holds_of_clean {v : CidVfs} {m : PageMap Bytes} (clean : v.dirtyPages = ∅)
    (indexed : ∀ page, v.pageIndex.get page = m[page]?.map (Cid.fromData B)) : Holds B v m := by
  intro page
  rw [clean, Std.ExtTreeMap.getElem?_empty]
  exact indexed page

theorem holds_write {v : CidVfs} {m : PageMap Bytes} (holds : Holds B v m) (page : UInt32)
    (data : Bytes) :
    Holds B { v with dirtyPages := v.dirtyPages.insert page data } (m.insert page data) := by
  intro other
  change match (v.dirtyPages.insert page data)[other]? with
    | some data => _
    | none => _
  rw [Std.ExtTreeMap.getElem?_insert, Std.ExtTreeMap.getElem?_insert]
  by_cases same : compare page other = .eq
  · rw [if_pos same, if_pos same]
  · rw [if_neg same, if_neg same]
    exact holds other

theorem nonempty_of_ne {m : PageMap Bytes} (dirty : m ≠ ∅) : m.isEmpty = false := by
  rw [← Bool.not_eq_true, Std.ExtTreeMap.isEmpty_iff]
  exact dirty

theorem session_holds {v : CidVfs} {m : PageMap Bytes} (session : Session B v m) :
    Holds B v m ∧ Rooted B v := by
  induction session with
  | new made =>
    unfold CidVfs.new at made
    split at made
    · cases made
      refine ⟨holds_of_clean rfl ?_, ?_⟩
      · intro page
        rw [Std.ExtTreeMap.getElem?_empty]
        exact Std.ExtTreeMap.getElem?_empty
      · intro root current
        cases current
    · cases made
  | @write v w m page data earlier written ih =>
    unfold CidVfs.writePage at written
    split at written
    · cases written
    · cases written
      exact ⟨holds_write ih.1 page data, ih.2⟩
  | refused earlier failed ih =>
    unfold CidVfs.writePage at failed
    split at failed
    · cases failed
      exact ih
    · cases failed
  | @commit v w m order result earlier listed committed ih =>
    by_cases clean : v.dirtyPages = ∅
    · have same := commit_of_clean B order noFault v clean
      rw [committed] at same
      change w = v at same
      rw [same]
      exact ih
    · have published := commit_of_no_fault B order noFault v (nonempty_of_ne clean) fun _ _ => rfl
      rw [committed] at published
      cases published
      refine ⟨holds_of_clean ?_ (get_stored ih.1 listed), ?_⟩
      · exact stored_dirtyPages B _ order
      · intro root current
        cases current
        rfl

theorem session_commit {v w : CidVfs} {m : PageMap Bytes} (session : Session B v m)
    {order : List (UInt32 × Bytes)} (listed : order.Perm v.dirtyPages.toList) {root : Cid}
    (committed : v.commit B order noFault = (w, .ok root)) :
    root = Cid.fromData B w.pageIndex.serialize ∧
      ∀ page, w.pageIndex.get page = m[page]?.map (Cid.fromData B) := by
  obtain ⟨holds, rooted⟩ := session_holds session
  rcases commit_ok B committed with ⟨clean, rfl, current⟩ | ⟨-, rfl, rfl⟩
  · refine ⟨rooted root current, ?_⟩
    intro page
    have here := holds page
    rw [clean, Std.ExtTreeMap.getElem?_empty] at here
    exact here
  · exact ⟨rfl, get_stored holds listed⟩

/-- Two sessions that end with a successful commit have the same root exactly when
every page holds the same contents in both, whatever was written before, in
whatever order, and however it was grouped into commits. -/
theorem roots_eq_iff_contents_eq {v₁ v₂ w₁ w₂ : CidVfs} {m₁ m₂ : PageMap Bytes}
    (session₁ : Session B v₁ m₁) (session₂ : Session B v₂ m₂)
    {order₁ order₂ : List (UInt32 × Bytes)} (listed₁ : order₁.Perm v₁.dirtyPages.toList)
    (listed₂ : order₂.Perm v₂.dirtyPages.toList) {root₁ root₂ : Cid}
    (committed₁ : v₁.commit B order₁ noFault = (w₁, .ok root₁))
    (committed₂ : v₂.commit B order₂ noFault = (w₂, .ok root₂))
    (apart : Set.InjOn (Cid.fromData B)
      (pagesOf m₁ ∪ pagesOf m₂ ∪ {w₁.pageIndex.serialize, w₂.pageIndex.serialize}))
    (small₁ : w₁.pageIndex.pageCount < 2 ^ 32) (small₂ : w₂.pageIndex.pageCount < 2 ^ 32) :
    root₁ = root₂ ↔ m₁ = m₂ := by
  obtain ⟨rfl, indexed₁⟩ := session_commit session₁ listed₁ committed₁
  obtain ⟨rfl, indexed₂⟩ := session_commit session₂ listed₂ committed₂
  constructor
  · intro same
    have serialised : serializeEntries w₁.pageIndex.entries = serializeEntries w₂.pageIndex.entries :=
      apart (by simp [PageIndex.serialize]) (by simp [PageIndex.serialize]) same
    have entries : w₁.pageIndex.entries = w₂.pageIndex.entries :=
      serializeEntries_injective small₁ small₂ serialised
    apply Std.ExtTreeMap.ext_getElem?
    intro page
    have cids : m₁[page]?.map (Cid.fromData B) = m₂[page]?.map (Cid.fromData B) := by
      rw [← indexed₁ page, ← indexed₂ page, PageIndex.get, PageIndex.get, entries]
    cases first : m₁[page]? with
    | none =>
      rw [first] at cids
      exact (Option.map_eq_none_iff.mp cids.symm).symm
    | some x =>
      rw [first] at cids
      obtain ⟨y, second, equal⟩ := Option.map_eq_some_iff.mp cids.symm
      rw [second]
      congr 1
      exact apart (.inl (.inl ⟨page, first⟩)) (.inl (.inr ⟨page, second⟩)) equal.symm
  · rintro rfl
    have entries : w₁.pageIndex.entries = w₂.pageIndex.entries := by
      apply Std.ExtTreeMap.ext_getElem?
      intro page
      exact (indexed₁ page).trans (indexed₂ page).symm
    rw [PageIndex.serialize, PageIndex.serialize, entries]

/-! One page written twice before its commit, and the same page written once. -/

def onePage (x : Bytes) : PageMap Bytes := (∅ : PageMap Bytes).insert 0 x

def dirtyWith (m : PageMap Bytes) : CidVfs := { emptyVfs with dirtyPages := m }

theorem writePage_fillPage (m : PageMap Bytes) (b : UInt8) :
    (dirtyWith m).writePage 0 (fillPage b) = (dirtyWith (m.insert 0 (fillPage b)), .ok ()) := by
  have whole : (fillPage b).length = (dirtyWith m).pageSize.bytes := List.length_replicate
  rw [CidVfs.writePage, if_neg (not_not.mpr whole)]
  rfl

theorem rewritten_session :
    Session Blake3.byLeading (dirtyWith ((onePage (fillPage 2)).insert 0 (fillPage 1)))
      ((onePage (fillPage 2)).insert 0 (fillPage 1)) :=
  .write (.write (.new new_emptyVfs) (writePage_fillPage ∅ 2)) (writePage_fillPage _ 1)

theorem written_session :
    Session Blake3.byLeading (dirtyWith (onePage (fillPage 1))) (onePage (fillPage 1)) :=
  .write (.new new_emptyVfs) (writePage_fillPage ∅ 1)

theorem rewritten_eq (x y : Bytes) : (onePage x).insert 0 y = onePage y := by
  apply Std.ExtTreeMap.ext_getElem?
  intro page
  simp only [onePage, Std.ExtTreeMap.getElem?_insert]
  split <;> rfl

theorem eq_of_mem_pagesOf {x data : Bytes} (member : data ∈ pagesOf (onePage x)) : data = x := by
  obtain ⟨page, bound⟩ := member
  rw [onePage, Std.ExtTreeMap.getElem?_insert] at bound
  split at bound
  · exact (Option.some.inj bound).symm
  · rw [Std.ExtTreeMap.getElem?_empty] at bound
    cases bound

theorem commit_dirty (v : CidVfs) (dirty : v.dirtyPages.isEmpty = false) :
    ∃ w root, v.commit B v.dirtyPages.toList noFault = (w, .ok root) :=
  ⟨_, _, commit_of_no_fault B _ noFault v dirty fun _ _ => rfl⟩

theorem entries_onePage {v w : CidVfs} {x : Bytes} {root : Cid} (session : Session B v (onePage x))
    (committed : v.commit B v.dirtyPages.toList noFault = (w, .ok root)) :
    w.pageIndex.entries = oneEntry B x := by
  apply Std.ExtTreeMap.ext_getElem?
  intro page
  have indexed := (session_commit session (List.Perm.refl _) committed).2 page
  rw [PageIndex.get] at indexed
  rw [indexed]
  simp only [onePage, oneEntry, Std.ExtTreeMap.getElem?_insert]
  split <;> simp

theorem roots_eq_of_rewritten_page :
    ∃ w₁ w₂ root₁ root₂,
      (dirtyWith ((onePage (fillPage 2)).insert 0 (fillPage 1))).commit Blake3.byLeading
        (dirtyWith ((onePage (fillPage 2)).insert 0 (fillPage 1))).dirtyPages.toList noFault =
          (w₁, .ok root₁) ∧
      (dirtyWith (onePage (fillPage 1))).commit Blake3.byLeading
        (dirtyWith (onePage (fillPage 1))).dirtyPages.toList noFault = (w₂, .ok root₂) ∧
      root₁ = root₂ := by
  obtain ⟨w₁, root₁, committed₁⟩ := commit_dirty (B := Blake3.byLeading)
    (dirtyWith ((onePage (fillPage 2)).insert 0 (fillPage 1))) rfl
  obtain ⟨w₂, root₂, committed₂⟩ := commit_dirty (B := Blake3.byLeading)
    (dirtyWith (onePage (fillPage 1))) rfl
  have session₁ := rewritten_session
  rw [rewritten_eq] at session₁ committed₁ ⊢
  have entries₁ := entries_onePage session₁ committed₁
  have entries₂ := entries_onePage written_session committed₂
  have count : (oneEntry Blake3.byLeading (fillPage 1)).size < 2 ^ 32 := by
    show 1 < 2 ^ 32
    decide
  refine ⟨w₁, w₂, root₁, root₂, committed₁, committed₂, ?_⟩
  refine (roots_eq_iff_contents_eq session₁ written_session (List.Perm.refl _) (List.Perm.refl _)
    committed₁ committed₂ ?_ ?_ ?_).mpr rfl
  · rw [PageIndex.serialize, PageIndex.serialize, entries₁, entries₂]
    have listed (data : Bytes) (member : data ∈ pagesOf (onePage (fillPage 1)) ∪
        pagesOf (onePage (fillPage 1)) ∪
        {serializeEntries (oneEntry Blake3.byLeading (fillPage 1)),
          serializeEntries (oneEntry Blake3.byLeading (fillPage 1))}) :
        data = fillPage 1 ∨ data = serializeEntries (oneEntry Blake3.byLeading (fillPage 1)) := by
      rcases member with (first | second) | index
      · exact .inl (eq_of_mem_pagesOf first)
      · exact .inl (eq_of_mem_pagesOf second)
      · exact .inr (index.elim id id)
    intro a memberA b memberB same
    rcases listed a memberA with rfl | rfl
    · rcases listed b memberB with rfl | rfl
      · rfl
      · exact (leading_root_apart same.symm).elim
    · rcases listed b memberB with rfl | rfl
      · exact (leading_root_apart same).elim
      · rfl
  · rw [PageIndex.pageCount, entries₁]
    exact count
  · rw [PageIndex.pageCount, entries₂]
    exact count

end Craftec.Vfs.RootContents
