/- GID: Craftec/Obj/Faulty
   generality: I
   digest: Calls of the store that meet errors of the operating system, and what they leave behind. -/

import Mathlib
import Craftec.Library.InodeFs
import Craftec.Library.Run
import Craftec.Obj.Refinement
import Craftec.Obj.Sequential
import Craftec.Obj.Shard
import Craftec.Obj.Store
import Craftec.Types.Digest

set_option autoImplicit false
set_option relaxedAutoImplicit false

namespace Craftec.Obj.Faulty

open Craftec.Library.InodeFs
open Craftec.Library.InodeFs.Fs (content_none dir_writeFile dir_writeFile_of_ne isSome_content
  keptBeside_writeFile unlink_of_some)
open Craftec.Library.Run (Reach anyStep)
open Craftec.Obj.Refinement (NoFalseNegatives Objects Refines Shards refines_stored shards_shardPath)
open Craftec.Obj.Sequential (reach_move reach_putDone reach_writeFile)
open Craftec.Obj.Shard (ReadDir shardPath tmpPath tmpPath_eq tmpPath_ne_shardPath)
open Craftec.Obj.Store (Bloom ObjError OsError Shared State Task advance notFound readError step verifyRead
  writeError)
open Craftec.Types.Digest (Bytes Blake3 Cid)

/-- An error of opening or reading a file other than that it is not there. -/
structure ReadFault where
  error : OsError
  other : error.code ≠ notFound.code

/-- The errors that the file operations of one call meet, each if the call comes to it; a write fails
after the bytes given. -/
structure Faults where
  metadata : Option OsError
  openTmp : Option OsError
  write : Option (ℕ × OsError)
  rename : Option OsError
  cleanUp : Option OsError
  openFile : Option ReadFault
  read : Option ReadFault
  list : Option OsError

def Faults.none : Faults := ⟨.none, .none, .none, .none, .none, .none, .none, .none⟩

variable (B : Blake3) {F : Type} (bloom : Bloom F) (base : Shard.Path)

/-- After a failed rename the temporary file is removed, if that does not fail too. -/
def discard (s : Shared F) (f : Faults) (data : Bytes) (e : OsError) : Shared F × Except ObjError Cid :=
  match f.cleanUp, s.fs.unlink (tmpPath base (Cid.fromData B data)) with
  | none, some fs => ({ s with fs := fs }, .error (.ioError e))
  | _, _ => (s, .error (.ioError e))

def put (s : Shared F) (f : Faults) (data : Bytes) : Shared F × Except ObjError Cid :=
  if bloom.probablyContains s.bloom (Cid.fromData B data) ∧ f.metadata = none ∧
      (s.fs.dir (shardPath base (Cid.fromData B data))).isSome then
    (s, .ok (Cid.fromData B data))
  else
    match f.openTmp with
    | some e => (s, .error (writeError e))
    | none =>
      match f.write.filter fun w => w.1 < data.length with
      | some (n, e) =>
        ({ s with fs := s.fs.writeFile (tmpPath base (Cid.fromData B data)) (data.take n) },
          .error (writeError e))
      | none =>
        match f.rename, (s.fs.writeFile (tmpPath base (Cid.fromData B data)) data).rename
            (tmpPath base (Cid.fromData B data)) (shardPath base (Cid.fromData B data)) with
        | some e, _ =>
          discard B base { s with fs := s.fs.writeFile (tmpPath base (Cid.fromData B data)) data } f data e
        | none, none =>
          discard B base { s with fs := s.fs.writeFile (tmpPath base (Cid.fromData B data)) data } f data
            notFound
        | none, some fs =>
          ({ s with
              fs := fs
              bloom := bloom.insert s.bloom (Cid.fromData B data)
              cache := s.cache.put (Cid.fromData B data) data
              published := if s.sender then s.published ++ [Cid.fromData B data] else s.published },
            .ok (Cid.fromData B data))

def get (s : Shared F) (f : Faults) (cid : Cid) : Shared F × Except ObjError (Option Bytes) :=
  match s.cache.get cid with
  | (cache, some bytes) => ({ s with cache := cache }, .ok (some bytes))
  | (cache, none) =>
    if bloom.probablyContains s.bloom cid then
      match f.openFile, s.fs.content (shardPath base cid), f.read with
      | some e, _, _ => ({ s with cache := cache }, .error (.ioError e.error))
      | none, none, _ => ({ s with cache := cache }, .ok none)
      | none, some _, some e => ({ s with cache := cache }, .error (.ioError e.error))
      | none, some bytes, none =>
        match verifyRead B cid bytes with
        | .getDone _ refused => ({ s with cache := cache }, refused)
        | _ => ({ s with cache := cache.put cid bytes }, .ok (some bytes))
    else ({ s with cache := cache }, .ok none)

def listCids (f : Faults) (readDir : ReadDir) : Except ObjError (List Cid) :=
  match f.list with
  | some e => .error (.ioError e)
  | none => Sequential.listCids base readDir

section Runs

variable {B bloom base} {calls : ℕ → Task} {i : ℕ}

theorem reach_any {s after : Shared F} {c : Store.Choice} {t u : Task}
    (moves : advance B bloom base s c t = some (after, u)) :
    Reach (step B bloom base) anyStep ⟨s, Function.update calls i t⟩
      ⟨after, Function.update calls i u⟩ := reach_move trivial moves

theorem reach_discard (s : Shared F) (f : Faults) (data : Bytes) (e : OsError) :
    Reach (step B bloom base) anyStep ⟨s, Function.update calls i (.putCleanUp data e)⟩
      ⟨(discard B base s f data e).1,
        Function.update calls i (.putDone data (discard B base s f data e).2)⟩ := by
  refine reach_any (c := ⟨0, f.cleanUp⟩) ?_
  simp only [discard, advance]
  cases f.cleanUp <;> cases s.fs.unlink (tmpPath base (Cid.fromData B data)) <;> rfl

theorem reach_writeFails (s : Shared F) (data : Bytes) {n : ℕ} (short : n < data.length) (e : OsError) :
    Reach (step B bloom base) anyStep ⟨s, Function.update calls i (.putOpen data)⟩
      ⟨{ s with fs := s.fs.writeFile (tmpPath base (Cid.fromData B data)) (data.take n) },
        Function.update calls i (.putDone data (.error (writeError e)))⟩ := by
  have opened : Reach (step B bloom base) anyStep ⟨s, Function.update calls i (.putOpen data)⟩
      ⟨{ s with fs := (s.fs.openTruncate (tmpPath base (Cid.fromData B data))).1 },
        Function.update calls i
          (.putWrite data (s.fs.openTruncate (tmpPath base (Cid.fromData B data))).2 0)⟩ :=
    reach_any (c := ⟨0, none⟩) rfl
  have length : (data.take n).length = n := by
    rw [List.length_take]
    omega
  have wrote : Reach (step B bloom base) anyStep
      ⟨{ s with fs := (s.fs.openTruncate (tmpPath base (Cid.fromData B data))).1 },
        Function.update calls i
          (.putWrite data (s.fs.openTruncate (tmpPath base (Cid.fromData B data))).2 0)⟩
      ⟨{ s with fs := s.fs.writeFile (tmpPath base (Cid.fromData B data)) (data.take n) },
        Function.update calls i
          (.putWrite data (s.fs.openTruncate (tmpPath base (Cid.fromData B data))).2 n)⟩ := by
    rcases Nat.eq_zero_or_pos n with rfl | some_
    · rw [List.take_zero, Fs.writeFile, Fs.writeAt_nil]
      exact Relation.ReflTransGen.refl
    · refine reach_any (c := ⟨n, none⟩) ?_
      have left : ¬ data.length ≤ 0 := by omega
      simp only [advance, if_neg left, if_neg some_.ne', List.drop_zero, length, Nat.zero_add]
      rfl
  refine (opened.trans wrote).trans (reach_any (c := ⟨0, some e⟩) ?_)
  simp only [advance, if_neg (Nat.not_le.mpr short)]

theorem reach_put (s : Shared F) (f : Faults) (data : Bytes) :
    Reach (step B bloom base) anyStep ⟨s, Function.update calls i (.putBloom data)⟩
      ⟨(put B bloom base s f data).1,
        Function.update calls i (.putDone data (put B bloom base s f data).2)⟩ := by
  have asks (likely : bloom.probablyContains s.bloom (Cid.fromData B data)) :
      Reach (step B bloom base) anyStep ⟨s, Function.update calls i (.putBloom data)⟩
        ⟨s, Function.update calls i (.putMetadata data)⟩ :=
    reach_any (c := ⟨0, none⟩) (by rw [advance, if_pos likely])
  by_cases known : bloom.probablyContains s.bloom (Cid.fromData B data) ∧ f.metadata = none ∧
      (s.fs.dir (shardPath base (Cid.fromData B data))).isSome
  · rw [put, if_pos known]
    refine (asks known.1).trans (reach_any (c := ⟨0, none⟩) ?_)
    rw [advance, if_pos ⟨rfl, known.2.2⟩]
  · rw [put, if_neg known]
    have opens : Reach (step B bloom base) anyStep ⟨s, Function.update calls i (.putBloom data)⟩
        ⟨s, Function.update calls i (.putOpen data)⟩ := by
      by_cases likely : bloom.probablyContains s.bloom (Cid.fromData B data)
      · refine (asks likely).trans (reach_any (c := ⟨0, f.metadata⟩) ?_)
        rw [advance, if_neg]
        exact fun both => known ⟨likely, Option.isNone_iff_eq_none.mp both.1, both.2⟩
      · exact reach_any (c := ⟨0, none⟩) (by rw [advance, if_neg likely])
    refine opens.trans ?_
    split
    · rename_i e _
      exact reach_any (c := ⟨0, some e⟩) rfl
    · split
      · rename_i n e fails
        exact reach_writeFails s data (of_decide_eq_true (Option.filter_eq_some_iff.mp fails).2) e
      · refine (reach_writeFile (fun _ _ _ => trivial) s data).trans ?_
        split
        · rename_i e _
          exact (reach_any (c := ⟨0, some e⟩) rfl).trans (reach_discard _ f data e)
        · rename_i unmoved
          refine Relation.ReflTransGen.trans ?_ (reach_discard _ f data notFound)
          exact reach_any (c := ⟨0, none⟩) (by simp only [advance, unmoved])
        · rename_i fs renamed
          exact reach_putDone (fun _ _ _ => trivial) { s with fs := _ } data renamed

variable (B bloom base) in
theorem get_eq (s : Shared F) (f : Faults) (cid : Cid) :
    get B bloom base s f cid = Sequential.get B bloom base s cid ∨
      f ≠ .none ∧ (s.cache.get cid).2 = none ∧ bloom.probablyContains s.bloom cid = true ∧
        ∃ e : ReadFault, (f.openFile = some e ∨ f.openFile = none ∧ f.read = some e ∧
            (s.fs.content (shardPath base cid)).isSome) ∧
          get B bloom base s f cid =
            ({ s with cache := (s.cache.get cid).1 }, .error (.ioError e.error)) := by
  have met {e : ReadFault} (fails : f.openFile = some e ∨ f.read = some e) : f ≠ .none := by
    rintro rfl
    rcases fails with fails | fails <;> cases fails
  obtain ⟨cache, hit, found⟩ : ∃ cache hit, s.cache.get cid = (cache, hit) := ⟨_, _, rfl⟩
  simp only [get, Sequential.get, found]
  cases hit with
  | some bytes => exact .inl rfl
  | none =>
    simp only
    by_cases likely : bloom.probablyContains s.bloom cid = true
    · simp only [likely, if_true]
      split
      · rename_i e fails
        exact .inr ⟨met (.inl fails), trivial, trivial, e, .inl fails, rfl⟩
      · rename_i missing
        rw [missing]
        exact .inl rfl
      · rename_i _ e opens held fails
        rw [held]
        exact .inr ⟨met (.inr fails), trivial, trivial, e, .inr ⟨opens, fails, rfl⟩, rfl⟩
      · rename_i bytes held _
        rw [held]
        exact .inl rfl
    · simp only [likely]
      exact .inl rfl

theorem reach_get (s : Shared F) (f : Faults) (cid : Cid) :
    Reach (step B bloom base) anyStep ⟨s, Function.update calls i (.getCache cid)⟩
      ⟨(get B bloom base s f cid).1,
        Function.update calls i (.getDone cid (get B bloom base s f cid).2)⟩ := by
  rcases get_eq B bloom base s f cid with quiet | ⟨-, missed, likely, e, fails, met⟩
  · rw [quiet]
    exact Sequential.reach_get (fun _ _ _ => trivial) s cid
  · rw [met]
    have looked : Reach (step B bloom base) anyStep ⟨s, Function.update calls i (.getCache cid)⟩
        ⟨{ s with cache := (s.cache.get cid).1 }, Function.update calls i (.getBloom cid)⟩ := by
      refine reach_any (c := ⟨0, none⟩) ?_
      cases found : s.cache.get cid with
      | mk cache hit =>
        obtain rfl : hit = none := by rwa [found] at missed
        simp only [advance, found]
    have asked : Reach (step B bloom base) anyStep
        ⟨{ s with cache := (s.cache.get cid).1 }, Function.update calls i (.getBloom cid)⟩
        ⟨{ s with cache := (s.cache.get cid).1 }, Function.update calls i (.getOpen cid)⟩ :=
      reach_any (c := ⟨0, none⟩) (by simp only [advance, likely, if_true])
    have reported : readError e.error = .error (.ioError e.error) := if_neg e.other
    refine (looked.trans asked).trans ?_
    rcases fails with fails | ⟨-, fails, there⟩
    · exact reach_any (c := ⟨0, some e.error⟩) (by simp only [advance, reported])
    · rw [isSome_content] at there
      obtain ⟨ino, named⟩ := Option.isSome_iff_exists.mp there
      have opened : Reach (step B bloom base) anyStep
          ⟨{ s with cache := (s.cache.get cid).1 }, Function.update calls i (.getOpen cid)⟩
          ⟨{ s with cache := (s.cache.get cid).1 }, Function.update calls i (.getRead cid ino [])⟩ :=
        reach_any (c := ⟨0, none⟩) (by simp only [advance, named])
      exact opened.trans (reach_any (c := ⟨0, some e.error⟩) (by simp only [advance, reported]))

end Runs

section Refinement

variable {B bloom base} {left : Set Cid} {s : Shared F} {m : Objects}

theorem Refines.more (refines : Refines B bloom base left s m) (cid : Cid) :
    Refines B bloom base (insert cid left) s m :=
  { refines with
    names := fun p inside there => (refines.names p inside there).imp_right fun ⟨c, among, path⟩ =>
      ⟨c, Set.mem_insert_of_mem _ among, path⟩ }

theorem refines_written (refines : Refines B bloom base left s m) (cid : Cid) (bytes : Bytes) :
    Refines B bloom base (insert cid left)
      { s with fs := s.fs.writeFile (tmpPath base cid) bytes } m := by
  have beside {p : Shard.Path} (inside : Shards base p) (ne : p ≠ tmpPath base cid) :
      (s.fs.writeFile (tmpPath base cid) bytes).content p = s.fs.content p := by
    refine (keptBeside_writeFile s.fs (tmpPath base cid) bytes).content (dir_writeFile_of_ne bytes ne) ?_
    intro ino named linked
    exact ne (refines.unshared p _ ino inside named linked).symm
  refine ⟨?_, ?_, refines.unshared.writeFile (tmpPath_eq base cid) bytes, refines.hashed, refines.found,
    refines.cached⟩
  · intro c
    rw [← refines.files c]
    exact beside (shards_shardPath c) (tmpPath_ne_shardPath base cid c).symm
  · intro p inside there
    rcases eq_or_ne p (tmpPath base cid) with rfl | ne
    · exact .inr ⟨cid, Set.mem_insert _ _, rfl⟩
    · have same : (s.fs.writeFile (tmpPath base cid) bytes).dir p = s.fs.dir p :=
        dir_writeFile_of_ne bytes ne
      rw [show ({ s with fs := s.fs.writeFile (tmpPath base cid) bytes } : Shared F).fs.dir p = _ from
        same] at there
      exact (Refines.more refines cid).names p inside there

theorem refines_discard (refines : Refines B bloom base left s m) (f : Faults) (data : Bytes)
    (e : OsError) : Refines B bloom base left (discard B base s f data e).1 m := by
  unfold discard
  split
  · rename_i fs _ removed
    cases there : s.fs.dir (tmpPath base (Cid.fromData B data)) with
    | none =>
      rw [Fs.unlink_of_none there] at removed
      cases removed
    | some ino =>
      have here : (s.fs.dir (tmpPath base (Cid.fromData B data))).isSome := by
        rw [there]
        rfl
      obtain ⟨after, taken, gone, others, unshared⟩ := unlink_of_some here
      obtain rfl : after = fs := Option.some.inj (taken.symm.trans removed)
      refine ⟨?_, ?_, unshared _ refines.unshared, refines.hashed, refines.found, refines.cached⟩
      · intro cid
        rw [← refines.files cid]
        exact others _ (tmpPath_ne_shardPath base _ cid).symm
      · intro p inside found
        change (after.dir p).isSome = true at found
        rcases eq_or_ne p (tmpPath base (Cid.fromData B data)) with rfl | ne
        · rw [← isSome_content, gone] at found
          cases found
        · rw [← isSome_content, others p ne, isSome_content] at found
          exact refines.names p inside found
  · exact refines

/-- A put stores its object, or reports an error it met and leaves the objects as they are. -/
theorem refines_put (refines : Refines B bloom base left s m) (sound : NoFalseNegatives bloom)
    (f : Faults) (data : Bytes) (only : ∀ bytes, m (Cid.fromData B data) = some bytes → bytes = data) :
    ((put B bloom base s f data).2 = .ok (Cid.fromData B data) ∧
      Refines B bloom base left (put B bloom base s f data).1
        (Function.update m (Cid.fromData B data) (some data))) ∨
    (f ≠ .none ∧ ∃ e, (put B bloom base s f data).2 = .error e ∧
      Refines B bloom base (insert (Cid.fromData B data) left) (put B bloom base s f data).1 m) := by
  have discarded (e : OsError) : ∃ e', (discard B base
        { s with fs := s.fs.writeFile (tmpPath base (Cid.fromData B data)) data } f data e).2 = .error e' ∧
      Refines B bloom base (insert (Cid.fromData B data) left) (discard B base
        { s with fs := s.fs.writeFile (tmpPath base (Cid.fromData B data)) data } f data e).1 m := by
    refine ⟨.ioError e, ?_, refines_discard (refines_written refines _ data) f data e⟩
    unfold discard
    split <;> rfl
  unfold put
  split
  · rename_i known
    rw [refines.update_eq only known.2.2]
    exact .inl ⟨rfl, refines⟩
  · split
    · rename_i e fails
      refine .inr ⟨?_, _, rfl, Refines.more refines _⟩
      rintro rfl
      cases fails
    · split
      · rename_i n e fails
        refine .inr ⟨?_, _, rfl, refines_written refines _ _⟩
        rintro rfl
        cases fails
      · obtain ⟨fs, renamed, kept⟩ := refines_stored refines sound data only
          (if s.sender then s.published ++ [Cid.fromData B data] else s.published)
        rw [renamed]
        split
        · rename_i e fails
          refine .inr ⟨?_, discarded e⟩
          rintro rfl
          cases fails
        · rename_i unmoved
          cases unmoved
        · rename_i other _ same
          cases same
          exact .inl ⟨rfl, kept⟩

theorem refines_get (refines : Refines B bloom base left s m) (f : Faults) (cid : Cid) :
    ((get B bloom base s f cid).2 = .ok (m cid) ∨
      f ≠ .none ∧ ∃ e, (get B bloom base s f cid).2 = .error e) ∧
    Refines B bloom base left (get B bloom base s f cid).1 m := by
  rcases get_eq B bloom base s f cid with quiet | ⟨met, -, -, e, -, failed⟩
  · rw [quiet]
    obtain ⟨found, kept⟩ := Refinement.refines_get refines cid
    exact ⟨.inl found, kept⟩
  · rw [failed]
    exact ⟨.inr ⟨met, _, rfl⟩, refines.looked cid⟩

end Refinement

end Craftec.Obj.Faulty
