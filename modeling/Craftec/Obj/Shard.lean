/- GID: Craftec/Obj/Shard
   generality: I
   digest: Where an object's file and its temporary file lie. -/

import Mathlib
import Craftec.Types.Digest

set_option autoImplicit false
set_option relaxedAutoImplicit false

namespace Craftec.Obj.Shard

open Craftec.Types.Digest (Cid hexEncode hexEncode_injective hexEncode_no_dot)

abbrev Path := List String

/-- `<base>/<first two hex digits>/<all 64 hex digits>`. -/
def shardPath (base : Path) (cid : Cid) : Path :=
  base ++ [String.ofList (cid.display.toList.take 2), cid.display]

/-- `Path::file_stem` of one name: up to its last dot, unless that dot leads. -/
def fileStem (name : String) : String :=
  if name = ".." then name
  else
    match name.toList.reverse.dropWhile (· ≠ '.') with
    | [] | [_] => name
    | _ :: before => String.ofList before.reverse

/-- `Path::with_extension`, for an extension that is not empty. -/
def withExtension (p : Path) (extension : String) : Path :=
  match p.getLast? with
  | none => p
  | some name => p.dropLast ++ [fileStem name ++ "." ++ extension]

def tmpPath (base : Path) (cid : Cid) : Path := withExtension (shardPath base cid) "tmp"

theorem shardPath_injective (base : Path) : Function.Injective (shardPath base) := by
  intro c e same
  have names := List.append_cancel_left same
  simp only [List.cons.injEq, and_true] at names
  exact Cid.display_injective names.2

def shardName (i : UInt8) : String := hexEncode [i]

/-- What `read_dir` gives for each directory: its names in some order, `none` for
a directory that does not exist. -/
abbrev ReadDir := Path → Option (List String)

/-- `walk_shards` where no directory fails to be read: names that are no
identifiers are skipped. -/
def walkShards (readDir : ReadDir) (base : Path) : List Cid :=
  (List.range 256).flatMap fun i =>
    ((readDir (base ++ [shardName (UInt8.ofNat i)])).getD []).filterMap Cid.fromStr

theorem shardPath_eq (base : Path) (cid : Cid) :
    ∃ i < 256, shardPath base cid = base ++ [shardName (UInt8.ofNat i), cid.display] := by
  obtain ⟨b, rest, split⟩ : ∃ b rest, cid.asBytes = b :: rest := by
    cases bytes : cid.asBytes with
    | nil =>
      have size := cid.length_asBytes
      rw [bytes] at size
      cases size
    | cons b rest => exact ⟨b, rest, rfl⟩
  refine ⟨b.toNat, b.toNat_lt, ?_⟩
  have digits : String.ofList (cid.display.toList.take 2) = shardName b := by
    rw [Cid.display, hexEncode, String.toList_ofList, split]
    rfl
  rw [shardPath, digits, UInt8.ofNat_toNat]

theorem tmpPath_spelled (base : Path) (cid : Cid) :
    ∃ i < 256, ∃ name, tmpPath base cid = base ++ [shardName (UInt8.ofNat i), name] ∧
      '.' ∈ name.toList := by
  obtain ⟨i, byte, path⟩ := shardPath_eq base cid
  refine ⟨i, byte, fileStem cid.display ++ "." ++ "tmp", ?_, by simp [String.toList_append]⟩
  have last : (base ++ [shardName (UInt8.ofNat i), cid.display]).getLast? = some cid.display := by simp
  rw [tmpPath, path, withExtension, last]
  simp

theorem tmpPath_eq (base : Path) (cid : Cid) : ∃ shard name, tmpPath base cid = base ++ [shard, name] := by
  obtain ⟨i, -, name, path, -⟩ := tmpPath_spelled base cid
  exact ⟨_, name, path⟩

theorem tmpPath_ne_shardPath (base : Path) (c e : Cid) : tmpPath base c ≠ shardPath base e := by
  intro same
  obtain ⟨i, -, name, path, dotted⟩ := tmpPath_spelled base c
  obtain ⟨j, -, spelled⟩ := shardPath_eq base e
  -- the temporary name has a dot, a name in hexadecimal has none
  have both := List.append_cancel_left (path.symm.trans (same.trans spelled))
  have named : name = e.display := (List.cons.inj (List.cons.inj both).2).1
  rw [named] at dotted
  exact hexEncode_no_dot e.asBytes dotted

theorem shardName_injOn {i j : ℕ} (hi : i < 256) (hj : j < 256)
    (same : shardName (UInt8.ofNat i) = shardName (UInt8.ofNat j)) : i = j := by
  have bytes : UInt8.ofNat i = UInt8.ofNat j := (List.cons.inj (hexEncode_injective same)).1
  have values := congrArg UInt8.toNat bytes
  rwa [UInt8.toNat_ofNat_of_lt' hi, UInt8.toNat_ofNat_of_lt' hj] at values

section Walk

variable {readDir : ReadDir} {base : Path} {present : Cid → Prop}

/-- The directories hold the files of these objects, each name once; any other name has a dot, as
those of temporary files do. -/
structure Filed (readDir : ReadDir) (base : Path) (present : Cid → Prop) : Prop where
  once : ∀ shard, ((readDir (base ++ [shard])).getD []).Nodup
  listed : ∀ cid shard name, present cid → shardPath base cid = base ++ [shard, name] →
    name ∈ (readDir (base ++ [shard])).getD []
  names : ∀ shard name, name ∈ (readDir (base ++ [shard])).getD [] →
    (∃ cid, present cid ∧ shardPath base cid = base ++ [shard, name]) ∨ '.' ∈ name.toList

theorem Filed.display (filed : Filed readDir base present) {shard name : String} {cid : Cid}
    (listed : name ∈ (readDir (base ++ [shard])).getD []) (parsed : Cid.fromStr name = some cid) :
    present cid ∧ name = cid.display ∧ shardPath base cid = base ++ [shard, cid.display] := by
  rcases filed.names shard name listed with ⟨c, there, path⟩ | dotted
  · obtain ⟨i, -, spelled⟩ := shardPath_eq base c
    have both := List.append_cancel_left (path.symm.trans spelled)
    have named : name = c.display := (List.cons.inj (List.cons.inj both).2).1
    subst named
    obtain rfl : c = cid := Option.some.inj ((Cid.fromStr_display c).symm.trans parsed)
    exact ⟨there, rfl, path⟩
  · rw [Cid.fromStr_of_dot dotted] at parsed
    cases parsed

theorem mem_shard (filed : Filed readDir base present) (shard : String) (cid : Cid) :
    cid ∈ ((readDir (base ++ [shard])).getD []).filterMap Cid.fromStr ↔
      present cid ∧ shardPath base cid = base ++ [shard, cid.display] := by
  rw [List.mem_filterMap]
  refine ⟨?_, ?_⟩
  · rintro ⟨name, listed, parsed⟩
    obtain ⟨there, -, path⟩ := filed.display listed parsed
    exact ⟨there, path⟩
  · rintro ⟨there, path⟩
    exact ⟨cid.display, filed.listed _ _ _ there path, Cid.fromStr_display cid⟩

theorem mem_walkShards (filed : Filed readDir base present) (cid : Cid) :
    cid ∈ walkShards readDir base ↔ present cid := by
  rw [walkShards, List.mem_flatMap]
  refine ⟨?_, ?_⟩
  · rintro ⟨i, -, listed⟩
    exact ((mem_shard filed _ cid).mp listed).1
  · intro there
    obtain ⟨i, byte, path⟩ := shardPath_eq base cid
    exact ⟨i, List.mem_range.mpr byte, (mem_shard filed _ cid).mpr ⟨there, path⟩⟩

theorem map_display_fromStr {names : List String}
    (written : ∀ name ∈ names, ∀ cid, Cid.fromStr name = some cid → name = cid.display) :
    (names.filterMap Cid.fromStr).map Cid.display = names.filter fun name => (Cid.fromStr name).isSome := by
  induction names with
  | nil => rfl
  | cons name rest ih =>
    have later := ih fun other listed => written other (List.mem_cons_of_mem _ listed)
    cases parsed : Cid.fromStr name with
    | none => rw [List.filterMap_cons_none parsed, later, List.filter_cons_of_neg (by simp [parsed])]
    | some cid =>
      rw [List.filterMap_cons_some parsed, List.map_cons, later, List.filter_cons_of_pos (by simp [parsed]),
        ← written name List.mem_cons_self cid parsed]

theorem Filed.map_display (filed : Filed readDir base present) (shard : String) :
    (((readDir (base ++ [shard])).getD []).filterMap Cid.fromStr).map Cid.display =
      ((readDir (base ++ [shard])).getD []).filter fun name => (Cid.fromStr name).isSome :=
  map_display_fromStr fun _ listed _ parsed => (filed.display listed parsed).2.1

theorem nodup_walkShards (filed : Filed readDir base present) : (walkShards readDir base).Nodup := by
  rw [walkShards, List.nodup_flatMap]
  refine ⟨?_, ?_⟩
  · intro i _
    apply List.Nodup.of_map Cid.display
    rw [filed.map_display]
    exact (filed.once _).filter _
  · -- an object lies in one directory only
    refine List.nodup_range.imp_of_mem ?_
    intro i j first second ne cid inFirst inSecond
    have one := ((mem_shard filed _ cid).mp inFirst).2
    have two := ((mem_shard filed _ cid).mp inSecond).2
    have names := List.append_cancel_left (one.symm.trans two)
    exact ne (shardName_injOn (List.mem_range.mp first) (List.mem_range.mp second)
      (List.cons.inj names).1)

end Walk

end Craftec.Obj.Shard
