/- GID: Craftec/Library/InodeFs
   generality: G
   digest: A file system with inodes: names, open files, truncation, positioned writes and rename. -/

import Mathlib.Data.List.Basic
import Mathlib.Logic.Function.Basic
import Mathlib.Order.Lattice

set_option autoImplicit false
set_option relaxedAutoImplicit false

namespace Craftec.Library.InodeFs

/-- Names to inodes and inodes to contents. An inode keeps its contents when its
last name goes, since files may still be open on it; inodes from `fresh` on are unused. -/
structure Fs (P α : Type*) where
  dir : P → Option ℕ
  data : ℕ → List α
  fresh : ℕ
  linked : ∀ p i, dir p = some i → i < fresh

/-- `chunk` written at offset `off`; a gap past the end is filled with zeros. -/
def overwrite {α : Type*} [Zero α] (old : List α) (off : ℕ) (chunk : List α) : List α :=
  old.take off ++ List.replicate (off - old.length) 0 ++ chunk ++ old.drop (off + chunk.length)

theorem overwrite_take {α : Type*} [Zero α] (whole : List α) {off : ℕ} (n : ℕ)
    (within : off ≤ whole.length) :
    overwrite (whole.take off) off ((whole.drop off).take n) =
      whole.take (off + ((whole.drop off).take n).length) := by
  have sofar : (whole.take off).length = off := by
    rw [List.length_take]
    omega
  have gap : off - (whole.take off).length = 0 := by omega
  have rest : (whole.take off).drop (off + ((whole.drop off).take n).length) = [] :=
    List.drop_eq_nil_of_le (by omega)
  have piece : (whole.drop off).take ((whole.drop off).take n).length = (whole.drop off).take n :=
    List.prefix_iff_eq_take.mp (List.take_prefix n _) |>.symm
  rw [overwrite, gap, rest, List.take_take, min_self, List.replicate_zero, List.append_nil,
    List.append_nil, List.take_add, piece]

theorem overwrite_nil {α : Type*} [Zero α] (chunk : List α) : overwrite [] 0 chunk = chunk := by
  simp [overwrite]

namespace Fs

variable {P α : Type*}

def content (fs : Fs P α) (p : P) : Option (List α) := (fs.dir p).map fs.data

def setData (fs : Fs P α) (i : ℕ) (bytes : List α) : Fs P α :=
  { fs with data := Function.update fs.data i bytes }

def writeAt [Zero α] (fs : Fs P α) (i off : ℕ) (chunk : List α) : Fs P α :=
  fs.setData i (overwrite (fs.data i) off chunk)

theorem data_setData (fs : Fs P α) (i : ℕ) (bytes : List α) : (fs.setData i bytes).data i = bytes :=
  Function.update_self _ _ _

theorem data_writeAt [Zero α] (fs : Fs P α) (i off : ℕ) (chunk : List α) :
    (fs.writeAt i off chunk).data i = overwrite (fs.data i) off chunk := data_setData fs i _

theorem writeAt_nil [Zero α] (fs : Fs P α) (i : ℕ) : fs.writeAt i 0 [] = fs := by
  have same : overwrite (fs.data i) 0 [] = fs.data i := by simp [overwrite]
  rw [writeAt, same, setData, Function.update_eq_self]

/-- Every inode in use but the one named `p` is as it was, and `p` does not name it now. -/
def KeptBeside (p : P) (fs after : Fs P α) : Prop :=
  ∀ i, i < fs.fresh → fs.dir p ≠ some i →
    i < after.fresh ∧ after.dir p ≠ some i ∧ after.data i = fs.data i

theorem keptBeside_setData {fs : Fs P α} {p : P} {i : ℕ} (bytes : List α)
    (named : fs.dir p = some i) : KeptBeside p fs (fs.setData i bytes) := by
  intro j used other
  have ne : j ≠ i := by
    rintro rfl
    exact other named
  exact ⟨used, other, Function.update_of_ne ne _ _⟩

def Unshared (region : P → Prop) (fs : Fs P α) : Prop :=
  ∀ p q i, region p → fs.dir p = some i → fs.dir q = some i → q = p

theorem content_eq {fs : Fs P α} {p : P} {i : ℕ} (named : fs.dir p = some i) :
    fs.content p = some (fs.data i) := by
  rw [content, named]
  rfl

theorem content_none {fs : Fs P α} {p : P} (missing : fs.dir p = none) : fs.content p = none := by
  rw [content, missing]
  rfl

theorem isSome_content (fs : Fs P α) (p : P) : (fs.content p).isSome = (fs.dir p).isSome :=
  Option.isSome_map

theorem KeptBeside.content {fs after : Fs P α} {p q : P} (kept : KeptBeside p fs after)
    (name : after.dir q = fs.dir q) (apart : ∀ i, fs.dir q = some i → fs.dir p ≠ some i) :
    after.content q = fs.content q := by
  cases named : fs.dir q with
  | none => rw [content_none (name.trans named), content_none named]
  | some i =>
    have same := (kept i (fs.linked q i named) (apart i named)).2.2
    rw [content_eq (name.trans named), content_eq named, same]

variable [DecidableEq P]

def create (fs : Fs P α) (p : P) : Fs P α where
  dir := Function.update fs.dir p (some fs.fresh)
  data := Function.update fs.data fs.fresh []
  fresh := fs.fresh + 1
  linked := by
    intro q i found
    rw [Function.update_apply] at found
    split at found
    · cases found
      omega
    · have := fs.linked q i found
      omega

def openTruncate (fs : Fs P α) (p : P) : Fs P α × ℕ :=
  match fs.dir p with
  | some i => (fs.setData i [], i)
  | none => (fs.create p, fs.fresh)

def writeFile [Zero α] (fs : Fs P α) (p : P) (bytes : List α) : Fs P α :=
  (fs.openTruncate p).1.writeAt (fs.openTruncate p).2 0 bytes

/-- Remove a name; `none` when there is no such file. -/
def unlink (fs : Fs P α) (p : P) : Option (Fs P α) :=
  match fs.dir p with
  | none => none
  | some _ => some
    { fs with
      dir := Function.update fs.dir p none
      linked := by
        intro q i found
        rw [Function.update_apply] at found
        split at found
        · cases found
        · exact fs.linked q i found }

/-- The name `dst` for inode `i`, and the name `src` gone. -/
def move (fs : Fs P α) (src dst : P) (i : ℕ) (used : i < fs.fresh) : Fs P α :=
  { fs with
    dir := Function.update (Function.update fs.dir dst (some i)) src none
    linked := by
      intro q j found
      rw [Function.update_apply] at found
      split at found
      · cases found
      · rw [Function.update_apply] at found
        split at found
        · cases found
          exact used
        · exact fs.linked q j found }

/-- Atomic rename. It fails when `src` is missing, and does nothing when both
names are links to one inode. -/
def rename (fs : Fs P α) (src dst : P) : Option (Fs P α) :=
  match found : fs.dir src with
  | none => none
  | some i => if fs.dir dst = some i then some fs else some (fs.move src dst i (fs.linked src i found))

theorem rename_of_none {fs : Fs P α} {src dst : P} (missing : fs.dir src = none) :
    fs.rename src dst = none := by
  unfold rename
  split
  · rfl
  · rename_i i found
    rw [missing] at found
    cases found

theorem rename_of_some {fs : Fs P α} {src dst : P} {i : ℕ} (found : fs.dir src = some i)
    (apart : fs.dir dst ≠ some i) :
    fs.rename src dst = some (fs.move src dst i (fs.linked src i found)) := by
  unfold rename
  split
  · rename_i missing
    rw [found] at missing
    cases missing
  · rename_i j other
    have same : i = j := Option.some.inj (found.symm.trans other)
    subst same
    rw [if_neg apart]

theorem dir_of_rename_none {fs : Fs P α} {src dst : P} (failed : fs.rename src dst = none) :
    fs.dir src = none := by
  unfold rename at failed
  split at failed
  · assumption
  · split at failed <;> cases failed

theorem dir_openTruncate (fs : Fs P α) (p : P) :
    (fs.openTruncate p).1.dir p = some (fs.openTruncate p).2 := by
  unfold openTruncate
  split
  · rename_i i found
    exact found
  · exact Function.update_self p _ _

theorem data_openTruncate (fs : Fs P α) (p : P) :
    (fs.openTruncate p).1.data (fs.openTruncate p).2 = [] := by
  unfold openTruncate
  split
  · exact Function.update_self _ _ _
  · exact Function.update_self _ _ _

theorem dir_openTruncate_of_ne {fs : Fs P α} {p q : P} (ne : q ≠ p) :
    (fs.openTruncate p).1.dir q = fs.dir q := by
  unfold openTruncate
  split
  · rfl
  · exact Function.update_of_ne ne _ _

theorem keptBeside_openTruncate (fs : Fs P α) (p : P) :
    KeptBeside p fs (fs.openTruncate p).1 := by
  intro i used other
  unfold openTruncate
  split
  · rename_i j found
    have ne : i ≠ j := by
      rintro rfl
      exact other found
    exact ⟨used, other, Function.update_of_ne ne _ _⟩
  · have ne : i ≠ fs.fresh := by omega
    refine ⟨Nat.lt_succ_of_lt used, ?_, Function.update_of_ne ne _ _⟩
    intro named
    have new : (fs.create p).dir p = some fs.fresh := Function.update_self _ _ _
    exact ne (Option.some.inj (named.symm.trans new))

theorem dir_move_src {fs : Fs P α} {src dst : P} {i : ℕ} (used : i < fs.fresh) :
    (fs.move src dst i used).dir src = none := Function.update_self _ _ _

theorem keptBeside_move {fs : Fs P α} {src dst : P} {i : ℕ} (used : i < fs.fresh) :
    KeptBeside src fs (fs.move src dst i used) := by
  intro j usedToo _
  refine ⟨usedToo, ?_, rfl⟩
  rw [dir_move_src]
  exact (Option.some_ne_none j).symm

theorem dir_move_dst {fs : Fs P α} {src dst : P} {i : ℕ} (used : i < fs.fresh) (ne : dst ≠ src) :
    (fs.move src dst i used).dir dst = some i := by
  rw [move]
  simp only
  rw [Function.update_of_ne ne, Function.update_self]

theorem dir_move_of_ne {fs : Fs P α} {src dst q : P} {i : ℕ} (used : i < fs.fresh) (ne : q ≠ src)
    (other : q ≠ dst) : (fs.move src dst i used).dir q = fs.dir q := by
  rw [move]
  simp only
  rw [Function.update_of_ne ne, Function.update_of_ne other]

theorem of_unlink {fs after : Fs P α} {p : P} (removed : fs.unlink p = some after) :
    (fs.dir p).isSome ∧ after.dir = Function.update fs.dir p none ∧ after.data = fs.data := by
  unfold unlink at removed
  split at removed
  · cases removed
  · rename_i i found
    cases removed
    exact ⟨by rw [found]; rfl, rfl, rfl⟩

theorem of_rename {fs after : Fs P α} {src dst : P} (renamed : fs.rename src dst = some after) :
    ∃ i, fs.dir src = some i ∧ (fs.dir dst = some i ∧ after = fs ∨
      ∃ used, after = fs.move src dst i used) := by
  unfold rename at renamed
  split at renamed
  · cases renamed
  · rename_i i found
    split at renamed
    · rename_i linked
      cases renamed
      exact ⟨i, found, .inl ⟨linked, rfl⟩⟩
    · cases renamed
      exact ⟨i, found, .inr ⟨_, rfl⟩⟩

theorem dir_writeFile [Zero α] (fs : Fs P α) (p : P) (bytes : List α) :
    (fs.writeFile p bytes).dir p = some (fs.openTruncate p).2 := dir_openTruncate fs p

theorem dir_writeFile_of_ne [Zero α] {fs : Fs P α} {p q : P} (bytes : List α) (ne : q ≠ p) :
    (fs.writeFile p bytes).dir q = fs.dir q := dir_openTruncate_of_ne ne

theorem data_writeFile [Zero α] (fs : Fs P α) (p : P) (bytes : List α) :
    (fs.writeFile p bytes).data (fs.openTruncate p).2 = bytes := by
  rw [writeFile, data_writeAt, data_openTruncate, overwrite_nil]

theorem keptBeside_writeFile [Zero α] (fs : Fs P α) (p : P) (bytes : List α) :
    KeptBeside p fs (fs.writeFile p bytes) := by
  intro i used other
  obtain ⟨used', other', same⟩ := keptBeside_openTruncate fs p i used other
  obtain ⟨used'', other'', same'⟩ :=
    keptBeside_setData (overwrite ((fs.openTruncate p).1.data (fs.openTruncate p).2) 0 bytes)
      (dir_openTruncate fs p) i used' other'
  exact ⟨used'', other'', same'.trans same⟩

section Regions

variable {region : P → Prop} {fs : Fs P α}

theorem Unshared.writeFile [Zero α] (unshared : Unshared region fs) {p : P} (inside : region p)
    (bytes : List α) : Unshared region (fs.writeFile p bytes) := by
  have apart (q : P) (ne : q ≠ p) : (fs.writeFile p bytes).dir q ≠ some (fs.openTruncate p).2 := by
    rw [dir_writeFile_of_ne bytes ne]
    intro named
    unfold openTruncate at named
    split at named
    · rename_i i found
      exact ne (unshared p q i inside found named)
    · exact absurd (fs.linked q _ named) (Nat.lt_irrefl _)
  intro q r i within first second
  rcases eq_or_ne q p with rfl | otherQ
  · rcases eq_or_ne r q with same | otherR
    · exact same
    · rw [dir_writeFile] at first
      cases first
      exact (apart r otherR second).elim
  · rcases eq_or_ne r p with rfl | otherR
    · rw [dir_writeFile] at second
      cases second
      exact (apart q otherQ first).elim
    · rw [dir_writeFile_of_ne bytes otherQ] at first
      rw [dir_writeFile_of_ne bytes otherR] at second
      exact unshared q r i within first second

theorem rename_writeFile [Zero α] (unshared : Unshared region fs) {src dst : P} (ne : dst ≠ src)
    (inside : region src) (bytes : List α) :
    ∃ after, (fs.writeFile src bytes).rename src dst = some after ∧
      (after.content dst = some bytes ∧ after.content src = none ∧
        ∀ q, q ≠ src → q ≠ dst → after.content q = fs.content q) ∧
      Unshared region after := by
  have written := dir_writeFile fs src bytes
  have unshared' := unshared.writeFile inside bytes
  have apart : (fs.writeFile src bytes).dir dst ≠ some (fs.openTruncate src).2 :=
    fun linked => ne (unshared' src dst _ inside written linked)
  refine ⟨_, rename_of_some written apart, ⟨?_, ?_, ?_⟩, ?_⟩
  · rw [content_eq (dir_move_dst _ ne)]
    exact congrArg some (data_writeFile fs src bytes)
  · exact content_none (dir_move_src _)
  · intro q otherSrc otherDst
    have beside (i : ℕ) (named : fs.dir q = some i) : fs.dir src ≠ some i :=
      fun linked => otherSrc (unshared src q i inside linked named)
    have unmoved := (keptBeside_writeFile fs src bytes).content (dir_writeFile_of_ne bytes otherSrc) beside
    have moved := dir_move_of_ne ((fs.writeFile src bytes).linked _ _ written) otherSrc otherDst
    rw [← unmoved, content, content, moved]
    rfl
  · intro q r i within first second
    have used := (fs.writeFile src bytes).linked _ _ written
    -- the moved inode has the name `dst` only, the others have the names they had
    have was (p : P) (j : ℕ)
        (named : ((fs.writeFile src bytes).move src dst _ used).dir p = some j) :
        p = dst ∧ j = (fs.openTruncate src).2 ∨ p ≠ src ∧ (fs.writeFile src bytes).dir p = some j := by
      rcases eq_or_ne p src with rfl | otherSrc
      · rw [dir_move_src] at named
        cases named
      · rcases eq_or_ne p dst with rfl | otherDst
        · rw [dir_move_dst _ ne] at named
          cases named
          exact .inl ⟨rfl, rfl⟩
        · rw [dir_move_of_ne _ otherSrc otherDst] at named
          exact .inr ⟨otherSrc, named⟩
    rcases was q i first with ⟨rfl, rfl⟩ | ⟨beforeQ, namedQ⟩
    · rcases was r _ second with ⟨rfl, -⟩ | ⟨beforeR, namedR⟩
      · rfl
      · exact (beforeR (unshared' src r _ inside written namedR)).elim
    · rcases was r i second with ⟨rfl, rfl⟩ | ⟨beforeR, namedR⟩
      · exact (beforeQ (unshared' src q _ inside written namedQ)).elim
      · exact unshared' q r i within namedQ namedR

theorem unlink_of_none {p : P} (missing : fs.dir p = none) : fs.unlink p = none := by
  rw [unlink, missing]

theorem unlink_of_some {p : P} (there : (fs.dir p).isSome) :
    ∃ after, fs.unlink p = some after ∧ after.content p = none ∧
      (∀ q, q ≠ p → after.content q = fs.content q) ∧
      ∀ region, Unshared region fs → Unshared region after := by
  obtain ⟨i, named⟩ := Option.isSome_iff_exists.mp there
  cases removed : fs.unlink p with
  | none =>
    rw [unlink, named] at removed
    cases removed
  | some after =>
    obtain ⟨-, names, contents⟩ := of_unlink removed
    refine ⟨after, rfl, ?_, ?_, ?_⟩
    · apply content_none
      rw [names, Function.update_self]
    · intro q other
      rw [content, content, names, contents, Function.update_of_ne other]
    · intro region unshared q r j within first second
      have kept (x : P) (found : after.dir x = some j) : fs.dir x = some j := by
        rw [names, Function.update_apply] at found
        split at found
        · cases found
        · exact found
      exact unshared q r j within (kept q first) (kept r second)

end Regions

end Fs

end Craftec.Library.InodeFs
