/- GID: Craftec/Obj/Accounting
   generality: I
   digest: When the object count and the disk usage agree with the objects that are listed. -/

import Mathlib
import Craftec.Library.InodeFs
import Craftec.Library.Run
import Craftec.Obj.IdenticalPuts
import Craftec.Obj.Refinement
import Craftec.Obj.Sequential
import Craftec.Obj.Session
import Craftec.Obj.Shard
import Craftec.Obj.Store
import Craftec.Types.Digest

set_option autoImplicit false
set_option relaxedAutoImplicit false

namespace Craftec.Obj.Accounting

open Craftec.Library.InodeFs (Fs)
open Craftec.Library.InodeFs.Fs (content_eq content_none dir_openTruncate_of_ne isSome_content
  keptBeside_openTruncate keptBeside_setData of_unlink)
open Craftec.Library.Run (Path anyStep)
open Craftec.Obj.IdenticalPuts (emptyFs)
open Craftec.Obj.Refinement (Lists Shards sampleStore sureBloom)
open Craftec.Obj.Sequential (listCids new)
open Craftec.Obj.Session (Inv Move Process Tidy filesIn heldTmp heldTmp_of_resting inv_step processStep
  resting)
open Craftec.Obj.Shard (Filed ReadDir mem_shard mem_walkShards shardName
  shardName_injOn shardPath tmpPath tmpPath_spelled walkShards)
open Craftec.Obj.Store (Bloom Choice ObjError OsError Shared Task advance advance_turn libcEnospc notFound)
open Craftec.Types.Digest (Bytes Blake3 Cid hexEncode_no_dot)

section Code

variable (base : Shard.Path) (fs : Fs Shard.Path UInt8) (readDir : ReadDir)

/-- The entries of the shard directories in the order `disk_usage` and `object_count` come to them. -/
def shardEntries : List Shard.Path :=
  (List.range 256).flatMap fun i =>
    ((readDir (base ++ [shardName (UInt8.ofNat i)])).getD []).map fun name =>
      base ++ [shardName (UInt8.ofNat i), name]

def objectCount : Except ObjError ℕ :=
  .ok ((shardEntries base readDir).countP fun p => (fs.dir p).isSome)

def addSize (total : UInt64) (p : Shard.Path) : Except ObjError UInt64 :=
  match fs.content p with
  | none => .error (.ioError notFound)
  | some bytes => .ok (total + UInt64.ofNat bytes.length)

def diskUsage : Except ObjError UInt64 := (shardEntries base readDir).foldlM (addSize fs) 0

end Code

section Accounts

variable (base : Shard.Path)

def objectSize (fs : Fs Shard.Path UInt8) (cid : Cid) : ℕ :=
  ((fs.content (shardPath base cid)).getD []).length

/-- The two accounts are those of the objects `list_cids` names. -/
def Accounted (fs : Fs Shard.Path UInt8) : Prop :=
  ∀ readDir, Lists base fs readDir → ∃ cids, listCids base readDir = .ok cids ∧
    objectCount base fs readDir = .ok cids.length ∧
    diskUsage base fs readDir = .ok (UInt64.ofNat (cids.map (objectSize base fs)).sum)

def SameAccounts (fs after : Fs Shard.Path UInt8) : Prop :=
  ∀ readDir, (Lists base after readDir ↔ Lists base fs readDir) ∧
    objectCount base after readDir = objectCount base fs readDir ∧
    diskUsage base after readDir = diskUsage base fs readDir

variable {base} {fs after : Fs Shard.Path UInt8} {readDir : ReadDir}

theorem foldlM_addSize {entries : List Shard.Path} (there : ∀ p ∈ entries, (fs.dir p).isSome)
    (total : UInt64) :
    entries.foldlM (addSize fs) total =
      .ok (total + UInt64.ofNat (entries.map fun p => ((fs.content p).getD []).length).sum) := by
  induction entries generalizing total with
  | nil => simp [pure, Except.pure]
  | cons p rest ih =>
    have first := there p List.mem_cons_self
    rw [← isSome_content] at first
    obtain ⟨bytes, held⟩ := Option.isSome_iff_exists.mp first
    have added : addSize fs total p = .ok (total + UInt64.ofNat bytes.length) := by
      simp only [addSize, held]
    rw [List.foldlM_cons, added]
    change rest.foldlM (addSize fs) _ = _
    rw [ih fun q listed => there q (List.mem_cons_of_mem _ listed), List.map_cons, List.sum_cons, held,
      Option.getD_some, UInt64.ofNat_add, UInt64.add_assoc]

theorem shardEntries_eq {present : Cid → Prop} (filed : Filed readDir base present)
    (plain : ∀ shard, ∀ name ∈ (readDir (base ++ [shard])).getD [], '.' ∉ name.toList) :
    shardEntries base readDir = (walkShards readDir base).map (shardPath base) := by
  rw [shardEntries, walkShards, List.map_flatMap]
  refine List.flatMap_congr fun i _ => ?_
  have all : ((readDir (base ++ [shardName (UInt8.ofNat i)])).getD []).filter
      (fun name => (Cid.fromStr name).isSome) = (readDir (base ++ [shardName (UInt8.ofNat i)])).getD [] := by
    refine List.filter_eq_self.mpr fun name listed => ?_
    rcases filed.names _ name listed with ⟨cid, -, path⟩ | dotted
    · rw [shardPath] at path
      have both := List.append_cancel_left path
      rw [← (List.cons.inj (List.cons.inj both).2).1, Cid.fromStr_display]
      rfl
    · exact absurd dotted (plain _ name listed)
  have displayed := filed.map_display (shardName (UInt8.ofNat i))
  rw [all] at displayed
  conv_lhs => rw [← displayed]
  rw [List.map_map]
  refine List.map_congr_left fun cid listed => ?_
  exact ((mem_shard filed _ cid).mp listed).2.symm

theorem accounted_of_names
    (names : ∀ p, Shards base p → (fs.dir p).isSome → ∃ cid, p = shardPath base cid) :
    Accounted base fs := by
  intro readDir lists
  have filed := lists.filed fun p inside there => .inl (names p inside there)
  have plain (shard name : String) (listed : name ∈ (readDir (base ++ [shard])).getD []) :
      '.' ∉ name.toList := by
    obtain ⟨cid, path⟩ := names _ ⟨shard, name, rfl⟩ (((lists shard).2 name).mp listed)
    rw [(List.cons.inj (List.cons.inj (List.append_cancel_left path)).2).1]
    exact hexEncode_no_dot cid.asBytes
  have entries := shardEntries_eq filed plain
  have there : ∀ p ∈ shardEntries base readDir, (fs.dir p).isSome := by
    intro p listed
    rw [entries] at listed
    obtain ⟨cid, member, rfl⟩ := List.mem_map.mp listed
    exact (mem_walkShards filed cid).mp member
  refine ⟨walkShards readDir base, rfl, ?_, ?_⟩
  · rw [objectCount, List.countP_eq_length.mpr there, entries, List.length_map]
  · rw [diskUsage, foldlM_addSize there, UInt64.zero_add, entries, List.map_map]
    rfl

theorem exists_lists (finite : (filesIn base fs).Finite) : ∃ readDir, Lists base fs readDir := by
  have each (shard : String) : ∃ names : List String, names.Nodup ∧
      ∀ name, name ∈ names ↔ (fs.dir (base ++ [shard, name])).isSome := by
    have here : {name | (fs.dir (base ++ [shard, name])).isSome}.Finite := by
      refine (finite.preimage (f := fun name => base ++ [shard, name]) ?_).subset ?_
      · intro a _ b _ same
        simpa using List.append_cancel_left same
      · intro name there
        exact ⟨⟨shard, name, rfl⟩, there⟩
    refine ⟨here.toFinset.toList, Finset.nodup_toList _, fun name => ?_⟩
    rw [Finset.mem_toList, Set.Finite.mem_toFinset]
    rfl
  choose names once listed using each
  refine ⟨fun dir => some (names (dir.getLast?.getD "")), fun shard => ?_⟩
  have last : (base ++ [shard]).getLast?.getD "" = shard := by simp
  rw [Option.getD_some, last]
  exact ⟨once shard, listed shard⟩

theorem not_accounted_of_tmp (finite : (filesIn base fs).Finite) {cid : Cid}
    (there : (fs.dir (tmpPath base cid)).isSome) : ¬ Accounted base fs := by
  intro accounted
  obtain ⟨readDir, lists⟩ := exists_lists finite
  obtain ⟨cids, listing, count, -⟩ := accounted readDir lists
  cases listing
  have all : ∀ p ∈ shardEntries base readDir, (fs.dir p).isSome := by
    intro p member
    obtain ⟨i, -, inDir⟩ := List.mem_flatMap.mp member
    obtain ⟨name, named, rfl⟩ := List.mem_map.mp inDir
    exact ((lists _).2 name).mp named
  rw [objectCount, List.countP_eq_length.mpr all] at count
  have lengths : (shardEntries base readDir).length = (walkShards readDir base).length :=
    Except.ok.inj count
  -- the names of all directories, of which the listing keeps those that can be parsed
  have entries : (shardEntries base readDir).length = ((List.range 256).flatMap fun i =>
      (readDir (base ++ [shardName (UInt8.ofNat i)])).getD []).length := by
    simp [shardEntries, List.length_flatMap]
  have parsed : walkShards readDir base = ((List.range 256).flatMap fun i =>
      (readDir (base ++ [shardName (UInt8.ofNat i)])).getD []).filterMap Cid.fromStr := by
    rw [walkShards, List.filterMap_flatMap]
  obtain ⟨i, byte, name, path, dotted⟩ := tmpPath_spelled base cid
  rw [path] at there
  have spelled : name ∈ (List.range 256).flatMap fun i =>
      (readDir (base ++ [shardName (UInt8.ofNat i)])).getD [] :=
    List.mem_flatMap.mpr ⟨i, List.mem_range.mpr byte, ((lists _).2 name).mpr there⟩
  have fewer := List.length_filterMap_lt_length_iff_exists.mpr ⟨name, spelled, Cid.fromStr_of_dot dotted⟩
  rw [← parsed, ← entries] at fewer
  omega

theorem sameAccounts_of_content (same : ∀ p, after.content p = fs.content p) :
    SameAccounts base fs after := by
  have names (p : Shard.Path) : (after.dir p).isSome = (fs.dir p).isSome := by
    rw [← isSome_content, ← isSome_content, same]
  have sizes : addSize after = addSize fs := by
    funext total p
    rw [addSize, addSize, same]
  intro readDir
  refine ⟨?_, ?_, ?_⟩
  · simp only [Refinement.Lists, names]
  · simp only [objectCount, names]
  · rw [diskUsage, diskUsage, sizes]

end Accounts

variable {B : Blake3} {F : Type} {bloom : Bloom F} {base : Shard.Path} {blank : F}

section Failures

def early : Task → Bool
  | .putBloom _ | .putMetadata _ | .putOpen _ | .putWrite _ _ _ | .putRename _ | .putCleanUp _ _ => true
  | .putDone _ (.error _) => true
  | _ => false

def landed : Task → Bool
  | .putInsert _ | .putCache _ | .putPublish _ => true
  | .putDone _ (.ok _) => true
  | _ => false

variable (base) in
def Beside (fs after : Fs Shard.Path UInt8) : Prop :=
  ∀ p, (∀ cid, p ≠ tmpPath base cid) → after.content p = fs.content p

theorem early_advance {s : Process F} (inv : Inv B base s) (before : early s.task = true) {choice : Choice}
    {after : Shared F} {t : Task} (moved : advance B bloom base s.shared choice s.task = some (after, t)) :
    landed t = true ∨ early t = true ∧ Beside base s.shared.fs after.fs := by
  obtain ⟨shared, task⟩ := s
  cases advance_turn B bloom base moved with
  | there | renames => exact .inl rfl
  | opens data =>
    refine .inr ⟨rfl, fun p away => ?_⟩
    exact (keptBeside_openTruncate shared.fs _).content (dir_openTruncate_of_ne (away _))
      fun i named => inv.tmp_apart (away _) named
  | writes data ino off left moves =>
    refine .inr ⟨rfl, fun p away => ?_⟩
    exact (keptBeside_setData _ (inv.opened data ino off rfl)).content rfl
      fun i named => inv.tmp_apart (away _) named
  | cleansUp data e fs removed =>
    refine .inr ⟨rfl, fun p away => ?_⟩
    obtain ⟨-, names, contents⟩ := of_unlink removed
    rw [Fs.content, Fs.content, names, contents, Function.update_of_ne (away _)]
  | seen | unseen | notThere | openFails | closes | writeFails | renameFails | renameMissing | leaves =>
    exact .inr ⟨rfl, fun _ _ => rfl⟩
  | _ => cases before

theorem landed_advance {s : Shared F} {task : Task} (before : landed task = true) {choice : Choice}
    {after : Shared F} {t : Task} (moved : advance B bloom base s choice task = some (after, t)) :
    landed t = true := by
  cases advance_turn B bloom base moved with
  | inserts | caches | publishes => rfl
  | _ => cases before

theorem put_path {fs : Fs Shard.Path UInt8} {choices : List Choice} {s t : Process F}
    (path : Path (processStep B bloom base blank) (Tidy B base) s (choices.map .advance) t)
    (before : landed s.task = true ∨ Inv B base s ∧ early s.task = true ∧ Beside base fs s.shared.fs) :
    landed t.task = true ∨ Inv B base t ∧ early t.task = true ∧ Beside base fs t.shared.fs := by
  induction choices generalizing s with
  | nil =>
    cases path
    exact before
  | cons choice rest ih =>
    cases path with
    | cons tidy taken later =>
      have kept := fun inv => inv_step inv tidy taken
      obtain ⟨⟨after, t⟩, moved, rfl⟩ := Option.map_eq_some_iff.mp taken
      refine ih later ?_
      rcases before with done | ⟨inv, pending, beside⟩
      · exact .inl (landed_advance done moved)
      · rcases early_advance inv pending moved with done | ⟨still, unchanged⟩
        · exact .inl done
        · refine .inr ⟨kept inv, still, fun p away => ?_⟩
          exact (unchanged p away).trans (beside p away)

theorem sameAccounts_of_failed {choices : List Choice} {s t : Process F} {data : Bytes} {e : ObjError}
    (inv : Inv B base s)
    (path : Path (processStep B bloom base blank) (Tidy B base) s
      (.start (.put data) :: choices.map .advance) t)
    (failed : t.task = .putDone data (.error e)) : SameAccounts base s.shared.fs t.shared.fs := by
  cases path with
  | cons tidy taken later =>
    have begun := inv_step inv tidy taken
    simp only [processStep] at taken
    split at taken
    · rename_i rest
      cases taken
      rcases put_path later (.inr ⟨begun, rfl, fun _ _ => rfl⟩) with done | ⟨inv', -, beside⟩
      · rw [failed] at done
        cases done
      · have free : heldTmp B base t.task = none := by
          rw [failed]
          rfl
        refine sameAccounts_of_content fun p => ?_
        by_cases tmp : ∃ cid, p = tmpPath base cid
        · obtain ⟨cid, rfl⟩ := tmp
          rw [content_none (inv'.no_tmp free cid),
            content_none (inv.no_tmp (heldTmp_of_resting rest) cid)]
        · exact beside p (not_exists.mp tmp)
    · cases taken

end Failures

section Runs

theorem accounted_of_inv {s : Process F} (inv : Inv B base s) (rest : resting s.task = true) :
    Accounted base s.shared.fs := by
  refine accounted_of_names fun p inside there => ?_
  rcases inv.names p ⟨inside, there⟩ with object | held
  · exact object
  · rw [heldTmp_of_resting rest] at held
    cases held

theorem tidy_of_accounted {s t : Process F} {move : Move} (inv : Inv B base s)
    (taken : processStep B bloom base blank s move = some t)
    (accounted : resting t.task = true → Accounted base t.shared.fs) : Tidy B base s move := by
  by_contra untidy
  have left : ∃ cid, heldTmp B base s.task = some (tmpPath base cid) ∧ t.shared.fs = s.shared.fs ∧
      resting t.task = true := by
    obtain ⟨shared, task⟩ := s
    cases move with
    | start call => exact absurd trivial untidy
    | reopen readDir capacity =>
      cases taken
      cases task with
      | putWrite | putRename | putCleanUp => exact ⟨_, rfl, rfl, rfl⟩
      | _ => exact absurd rfl untidy
    | advance choice =>
      obtain ⟨⟨after, t⟩, moved, rfl⟩ := Option.map_eq_some_iff.mp taken
      cases task with
      | putWrite data ino off =>
        obtain ⟨unwritten, faulty⟩ := not_or.mp untidy
        obtain ⟨e, fails⟩ := Option.ne_none_iff_exists'.mp faulty
        simp only [advance, unwritten, if_false, fails] at moved
        cases moved
        exact ⟨_, rfl, rfl, rfl⟩
      | putCleanUp data e =>
        obtain ⟨e, fails⟩ := Option.ne_none_iff_exists'.mp untidy
        simp only [advance, fails] at moved
        cases moved
        exact ⟨_, rfl, rfl, rfl⟩
      | _ => exact absurd trivial untidy
  obtain ⟨cid, held, same, rest⟩ := left
  have there := inv.there held
  have finite := inv.finite
  rw [← same] at there finite
  exact not_accounted_of_tmp finite there (accounted rest)

variable (B bloom base blank) in
/-- Whenever no call is under way the accounts are those of the objects. -/
def AccountsMatch (start : Process F) (moves : List Move) : Prop :=
  ∀ front u, front <+: moves → Path (processStep B bloom base blank) anyStep start front u →
    resting u.task = true → Accounted base u.shared.fs

variable (B bloom base blank) in
/-- A put that returns an error changes neither the listing nor the accounts. -/
def FailuresChangeNothing (start : Process F) (moves : List Move) : Prop :=
  ∀ front data (choices : List Choice) u v e,
    front ++ .start (.put data) :: choices.map .advance <+: moves →
    Path (processStep B bloom base blank) anyStep start front u →
    Path (processStep B bloom base blank) anyStep u (.start (.put data) :: choices.map .advance) v →
    v.task = .putDone data (.error e) → SameAccounts base u.shared.fs v.shared.fs

/-- A store opened on finitely many files, all of them objects, keeps its accounts through a run of
calls, failures, stops and reopenings exactly when no step of the run leaves a temporary file behind. -/
theorem accounts_match_iff {fs : Fs Shard.Path UInt8}
    (objects : ∀ p ∈ filesIn base fs, ∃ cid, p = shardPath base cid) (finite : (filesIn base fs).Finite)
    (readDir : ReadDir) (capacity : ℕ+) {moves : List Move} {t : Process F}
    (path : Path (processStep B bloom base blank) anyStep
      ⟨new bloom base blank readDir capacity fs, .idle⟩ moves t) :
    AccountsMatch B bloom base blank ⟨new bloom base blank readDir capacity fs, .idle⟩ moves ∧
        FailuresChangeNothing B bloom base blank ⟨new bloom base blank readDir capacity fs, .idle⟩ moves ↔
      Path (processStep B bloom base blank) (Tidy B base)
        ⟨new bloom base blank readDir capacity fs, .idle⟩ moves t := by
  have start : Inv B base (⟨new bloom base blank readDir capacity fs, .idle⟩ : Process F) := by
    refine ⟨fun p inside => .inl (objects p inside), ?_, ?_, finite⟩
    · intro p held
      cases held
    · intro data ino off writing
      cases writing
  have kept := path.forall_iff_of_invariant
    (P := fun u => resting u.task = true → Accounted base u.shared.fs)
    (fun _ inv => accounted_of_inv inv) (fun _ _ _ => inv_step)
    (fun _ _ _ inv => tidy_of_accounted inv) start
  constructor
  · rintro ⟨accounts, -⟩
    exact kept.mp accounts
  · intro tidy
    refine ⟨kept.mpr tidy, ?_⟩
    rintro front data choices u v e ⟨rest, rfl⟩ before during failed
    rw [List.append_assoc] at tidy
    obtain ⟨first, later⟩ := tidy.split before
    have inv : Inv B base u := first.reach.invariant start fun _ _ _ => inv_step
    exact sameAccounts_of_failed inv (later.split during).1 failed

/-! A put of one byte whose rename fails and whose clean-up works, and a put of two bytes that runs
out of space after the first. -/

def opened : Process Unit := ⟨sampleStore, .idle⟩

theorem filesIn_emptyFs : filesIn ["objects"] emptyFs = ∅ := by
  ext p
  simp [filesIn, emptyFs]

def denied : OsError := ⟨13, "Permission denied (os error 13)"⟩

def cleanFailure : List Move :=
  [.start (.put [1]), .advance ⟨0, none⟩, .advance ⟨0, none⟩, .advance ⟨0, none⟩, .advance ⟨1, none⟩,
    .advance ⟨0, none⟩, .advance ⟨0, some denied⟩, .advance ⟨0, none⟩]

theorem accounts_match_clean_failure : ∃ t : Process Unit,
    Path (processStep Blake3.byLeading sureBloom ["objects"] ()) anyStep opened cleanFailure t ∧
      t.task = .putDone [1] (.error (.ioError denied)) ∧
      AccountsMatch Blake3.byLeading sureBloom ["objects"] () opened cleanFailure ∧
      FailuresChangeNothing Blake3.byLeading sureBloom ["objects"] () opened cleanFailure := by
  have tidy : ∃ t : Process Unit,
      Path (processStep Blake3.byLeading sureBloom ["objects"] ()) (Tidy Blake3.byLeading ["objects"])
        opened cleanFailure t ∧ t.task = .putDone [1] (.error (.ioError denied)) := by
    refine ⟨_, .cons trivial rfl (.cons trivial rfl (.cons trivial rfl (.cons trivial rfl
      (.cons (.inr rfl) rfl (.cons (.inr rfl) rfl (.cons trivial rfl (.cons rfl rfl (.nil _)))))))), rfl⟩
  obtain ⟨t, run, ended⟩ := tidy
  have any : Path (processStep Blake3.byLeading sureBloom ["objects"] ()) anyStep opened cleanFailure t :=
    run.mono fun _ _ _ => trivial
  refine ⟨t, any, ended, ?_⟩
  refine (accounts_match_iff ?_ ?_ _ _ any).mpr run
  · intro p inside
    rw [filesIn_emptyFs] at inside
    cases inside
  · rw [filesIn_emptyFs]
    exact Set.finite_empty

def diskFull : OsError := ⟨libcEnospc, "No space left on device (os error 28)"⟩

def fullDisk : List Move :=
  [.start (.put [1, 2]), .advance ⟨0, none⟩, .advance ⟨0, none⟩, .advance ⟨0, none⟩, .advance ⟨1, none⟩,
    .advance ⟨0, some diskFull⟩]

def leftTmp : Shard.Path := tmpPath ["objects"] (Cid.fromData Blake3.byLeading [1, 2])

def leftDir : ReadDir := fun dir =>
  if dir = ["objects", "01"] then some [(Cid.fromData Blake3.byLeading [1, 2]).display ++ ".tmp"]
  else some []

def halfWritten : Fs Shard.Path UInt8 := (emptyFs.openTruncate leftTmp).1.writeAt 0 0 [1]

theorem dir_halfWritten : halfWritten.dir = Function.update emptyFs.dir leftTmp (some 0) := rfl

theorem leftTmp_eq :
    leftTmp = ["objects", "01", (Cid.fromData Blake3.byLeading [1, 2]).display ++ ".tmp"] := by
  decide +kernel

theorem lists_leftDir : Lists ["objects"] halfWritten leftDir := by
  have only (p : Shard.Path) : (halfWritten.dir p).isSome ↔ p = leftTmp := by
    rw [dir_halfWritten, Function.update_apply]
    split <;> rename_i here <;> simp [here, emptyFs]
  intro shard
  by_cases here : shard = "01"
  · subst here
    have found : (leftDir (["objects"] ++ ["01"])).getD [] =
        [(Cid.fromData Blake3.byLeading [1, 2]).display ++ ".tmp"] := rfl
    rw [found]
    refine ⟨List.nodup_singleton _, fun name => ?_⟩
    rw [only, leftTmp_eq]
    simp
  · have found : (leftDir (["objects"] ++ [shard])).getD [] = [] := by simp [leftDir, here]
    rw [found]
    refine ⟨List.nodup_nil, fun name => ?_⟩
    rw [only, leftTmp_eq]
    simp [here]

theorem leftDir_shardName {i : ℕ} (byte : i < 256) :
    (leftDir (["objects"] ++ [shardName (UInt8.ofNat i)])).getD [] =
      if i = 1 then [(Cid.fromData Blake3.byLeading [1, 2]).display ++ ".tmp"] else [] := by
  have one : shardName (UInt8.ofNat 1) = "01" := by decide
  by_cases here : i = 1
  · rw [here, one]
    rfl
  · have other : shardName (UInt8.ofNat i) ≠ "01" := by
      rw [← one]
      exact fun same => here (shardName_injOn byte (by decide) same)
    simp [leftDir, here, other]

theorem walkShards_leftDir : walkShards leftDir ["objects"] = [] := by
  rw [walkShards, List.flatMap_eq_nil_iff]
  intro i byte
  rw [leftDir_shardName (List.mem_range.mp byte)]
  split
  · rw [List.filterMap_cons_none (Cid.fromStr_of_dot (by simp [String.toList_append]))]
    rfl
  · rfl

theorem shardEntries_leftDir : shardEntries ["objects"] leftDir = [leftTmp] := by
  have each : shardEntries ["objects"] leftDir =
      (List.range 256).flatMap fun i => if i = 1 then [leftTmp] else [] := by
    refine List.flatMap_congr fun i byte => ?_
    rw [leftDir_shardName (List.mem_range.mp byte)]
    split
    · rename_i here
      rw [here, leftTmp_eq]
      rfl
    · rfl
  have ends : List.range 256 = 0 :: 1 :: List.range' 2 254 := by decide +kernel
  have rest : ((List.range' 2 254).flatMap fun i => if i = 1 then [leftTmp] else []) = [] := by
    rw [List.flatMap_eq_nil_iff]
    intro i later
    have bound := (List.mem_range'_1.mp later).1
    rw [if_neg (by omega)]
  rw [each, ends, List.flatMap_cons, List.flatMap_cons, rest]
  rfl

/-- The put has returned `StoreFull`. Its temporary file is counted as an object of one byte, and
no object is listed. -/
theorem failed_put_is_counted : ∃ t : Process Unit,
    Path (processStep Blake3.byLeading sureBloom ["objects"] ()) anyStep opened fullDisk t ∧
      t.task = .putDone [1, 2] (.error .storeFull) ∧
      Lists ["objects"] t.shared.fs leftDir ∧ listCids ["objects"] leftDir = .ok [] ∧
      objectCount ["objects"] t.shared.fs leftDir = .ok 1 ∧
      diskUsage ["objects"] t.shared.fs leftDir = .ok 1 ∧
      ¬ Accounted ["objects"] t.shared.fs ∧ ¬ SameAccounts ["objects"] opened.shared.fs t.shared.fs := by
  have listed : listCids ["objects"] leftDir = .ok [] := congrArg Except.ok walkShards_leftDir
  have named : halfWritten.dir leftTmp = some 0 := by rw [dir_halfWritten, Function.update_self]
  have held : halfWritten.content leftTmp = some [1] := by
    rw [content_eq named]
    rfl
  have count : objectCount ["objects"] halfWritten leftDir = .ok 1 := by
    rw [objectCount, shardEntries_leftDir, List.countP_singleton, ← isSome_content, held]
    rfl
  have usage : diskUsage ["objects"] halfWritten leftDir = .ok 1 := by
    rw [diskUsage, shardEntries_leftDir, List.foldlM_cons, addSize, held]
    rfl
  have run : ∃ t : Process Unit,
      Path (processStep Blake3.byLeading sureBloom ["objects"] ()) anyStep opened fullDisk t ∧
        t.task = .putDone [1, 2] (.error .storeFull) ∧ t.shared.fs = halfWritten := by
    refine ⟨_, .cons trivial rfl (.cons trivial rfl (.cons trivial rfl (.cons trivial rfl
      (.cons trivial rfl (.cons trivial rfl (.nil _)))))), rfl, rfl⟩
  obtain ⟨t, path, ended, files⟩ := run
  refine ⟨t, path, ended, ?_⟩
  rw [files]
  refine ⟨lists_leftDir, listed, count, usage, ?_, ?_⟩
  · intro accounted
    obtain ⟨cids, listed', count', -⟩ := accounted leftDir lists_leftDir
    rw [listed] at listed'
    cases listed'
    rw [count] at count'
    cases count'
  · intro same
    -- nothing was in the directories when the put began
    have before := (same leftDir).1.mp lists_leftDir
    have member : (Cid.fromData Blake3.byLeading [1, 2]).display ++ ".tmp" ∈
        (leftDir (["objects"] ++ ["01"])).getD [] := List.mem_singleton.mpr rfl
    cases ((before "01").2 _).mp member

end Runs

end Craftec.Obj.Accounting
