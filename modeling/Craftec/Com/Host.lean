/- GID: Craftec/Com/Host
   generality: I
   digest: The host functions of an agent, their bound checks, and the calls that panic on a slice. -/

import Craftec.Library.MachineRange
import Craftec.Node.Requests
import Craftec.Types.Digest

set_option autoImplicit false
set_option relaxedAutoImplicit false

namespace Craftec.Com.Host

open Craftec.Library.MachineRange
open Craftec.Library.Records (slice? slice?_eq)
open Craftec.Node.Requests (Outside agentSql toUsize)
open Craftec.Types.Digest (Bytes Bytes32 Cid)

/-! The functions -/

/-- A `Vec<u8>` or a linear memory: no allocation has more than `isize::MAX` bytes. -/
structure Buffer where
  bytes : Bytes
  allocated : bytes.length < 2 ^ 63
  deriving DecidableEq

structure Signature where
  bytes : Bytes
  size : bytes.length = 64

/-- What a host function finds: the exported memory of the module, if it has one, and the fields of
`HostState` that the functions change. -/
structure Caller where
  memory : Option Buffer
  scratch : Buffer
  signCount : ℕ
  deriving DecidableEq

/-- What the store, the database, if one is attached, and the libraries answer to a call. -/
structure Backends (Rows : Type) where
  get : Cid → Except Unit (Option Buffer)
  put : Bytes → Except Unit Cid
  query : Option (String → Except Unit Rows)
  toAllocvec : Rows → Option Buffer
  sign : Bytes → Signature
  fromUtf8 : Bytes → Option String
  fromUtf8Lossy : Bytes → String

def signRateLimit : ℕ := 10

/-- `(ptr as usize).saturating_add(len as usize)` -/
def argumentEnd (ptr len : Int32) : ℕ := saturatingAdd (2 ^ 64) (toUsize ptr) (toUsize len)

/-- `(start as usize) + (len as usize)`, which wraps in a release build. -/
def sumEnd (start len : Int32) : ℕ := wrappingAdd (2 ^ 64) (toUsize start) (toUsize len)

def Buffer.ofCid (cid : Cid) : Buffer :=
  ⟨cid.asBytes, by rw [cid.length_asBytes]; decide⟩

def Buffer.ofSignature (signature : Signature) : Buffer :=
  ⟨signature.bytes, by rw [signature.size]; decide⟩

/-- `data[start..stop].copy_from_slice(chunk)`; `none` is a panic, on the range or on its length. -/
def Buffer.copyFromSlice? (data : Buffer) (start stop : ℕ) (chunk : Bytes) : Option Buffer :=
  if fits : start ≤ stop ∧ stop ≤ data.bytes.length ∧ start + chunk.length = stop then
    some ⟨overwrite data.bytes start chunk, by
      rw [length_overwrite (fits.2.2.trans_le fits.2.1)]
      exact data.allocated⟩
  else none

inductive Level where
  | error | warn | info | debug | trace
  deriving DecidableEq

def Level.ofI32 (level : Int32) : Level :=
  if level = 0 then .error else if level = 1 then .warn else if level = 2 then .info
  else if level = 3 then .debug else .trace

section Functions

/-! `none` is a panic of the host function. -/

variable {Rows : Type} (X : Backends Rows) (caller : Caller)

/-- How the bytes that an agent passes are read: find the memory, check the end of the range, take the
slice. `noMemory` and `outOfBounds` are what a call returns without them. -/
def withArgument {R : Type} (ptr len : Int32) (noMemory outOfBounds : R) (run : Bytes → R) : Option R :=
  match caller.memory with
  | none => some noMemory
  | some data =>
    if data.bytes.length < argumentEnd ptr len then some outOfBounds
    else (slice? data.bytes (toUsize ptr) (argumentEnd ptr len)).map run

/-- The length of an identifier is checked together with the range. -/
def craftStoreGet (cidPtr cidLen : Int32) : Option (Caller × ℤ) :=
  match caller.memory with
  | none => some (caller, -3)
  | some data =>
    if data.bytes.length < argumentEnd cidPtr cidLen ∨ cidLen ≠ 32 then some (caller, -2)
    else do
      let bytes ← slice? data.bytes (toUsize cidPtr) (argumentEnd cidPtr cidLen)
      let cidBytes ← Bytes32.ofSlice? bytes
      match X.get (Cid.fromBytes cidBytes) with
      | .ok (some found) => some ({ caller with scratch := found }, found.bytes.length)
      | .ok none => some (caller, -1)
      | .error _ => some (caller, -3)

def craftStorePut (dataPtr dataLen : Int32) : Option (Caller × ℤ) :=
  withArgument caller dataPtr dataLen (caller, -3) (caller, -2) fun payload =>
    match X.put payload with
    | .ok cid => ({ caller with scratch := .ofCid cid }, 32)
    | .error _ => (caller, -3)

/-- The part of `craft_sql_query` that runs the statement. -/
def runQuery (sql : String) : Caller × ℤ :=
  match X.query with
  | none => (caller, -1)
  | some query =>
    match query sql with
    | .error _ => (caller, -2)
    | .ok rows =>
      match X.toAllocvec rows with
      | some encoded => ({ caller with scratch := encoded }, encoded.bytes.length)
      | none => (caller, -3)

def craftSqlQuery (sqlPtr sqlLen : Int32) : Option (Caller × ℤ) :=
  withArgument caller sqlPtr sqlLen (caller, -3) (caller, -2) fun bytes =>
    match X.fromUtf8 bytes with
    | none => (caller, -2)
    | some sql => runQuery X caller sql

/-- The limit is checked before the memory is looked at; a refused call is not counted. -/
def craftSign (msgPtr msgLen : Int32) : Option (Caller × ℤ) :=
  if signRateLimit ≤ caller.signCount then some (caller, -1)
  else
    withArgument caller msgPtr msgLen (caller, -3) (caller, -2) fun msg =>
      ({ caller with signCount := caller.signCount + 1, scratch := .ofSignature (X.sign msg) }, 64)

/-- The second half of `craft_read_result`: the bytes are written to the memory. -/
def writeResult (dstPtr len : Int32) (chunk : Bytes) : Option (Caller × Int32) :=
  match caller.memory with
  | none => some (caller, -2)
  | some data =>
    if data.bytes.length < sumEnd dstPtr len then some (caller, -3)
    else
      (data.copyFromSlice? (toUsize dstPtr) (sumEnd dstPtr len) chunk).map fun written =>
        ({ caller with memory := some written }, Int32.ofInt (toUsize len))

/-- The only function that writes to the memory, and the only one whose checks use plain sums. -/
def craftReadResult (dstPtr offset len : Int32) : Option (Caller × Int32) :=
  if caller.scratch.bytes.length < sumEnd offset len then some (caller, -1)
  else
    (slice? caller.scratch.bytes (toUsize offset) (sumEnd offset len)).bind fun chunk =>
      writeResult caller dstPtr len chunk

/-- The line that is logged; the range is checked the other way round. -/
def craftLog (level msgPtr msgLen : Int32) : Option (Level × String) :=
  match caller.memory with
  | none => some (.ofI32 level, "<no-memory>")
  | some data =>
    if argumentEnd msgPtr msgLen ≤ data.bytes.length then do
      let bytes ← slice? data.bytes (toUsize msgPtr) (argumentEnd msgPtr msgLen)
      some (.ofI32 level, X.fromUtf8Lossy bytes)
    else some (.ofI32 level, "<out-of-bounds>")

end Functions

/-! The checks with saturating sums -/

theorem argumentEnd_eq (data : Buffer) {ptr len : Int32} (within : argumentEnd ptr len ≤ data.bytes.length) :
    argumentEnd ptr len = toUsize ptr + toUsize len := by
  have allocated := data.allocated
  exact saturatingAdd_eq (by omega) within

theorem slice?_argument (data : Buffer) {ptr len : Int32} (within : argumentEnd ptr len ≤ data.bytes.length) :
    ∃ bytes, slice? data.bytes (toUsize ptr) (argumentEnd ptr len) = some bytes ∧
      bytes.length = toUsize len := by
  have sum := argumentEnd_eq data within
  rw [sum] at within ⊢
  refine ⟨_, slice?_eq within, ?_⟩
  rw [List.length_take, List.length_drop]
  omega

section NoPanic

variable {Rows : Type} (X : Backends Rows) (caller : Caller)

theorem craftStoreGet_isSome (cidPtr cidLen : Int32) : (craftStoreGet X caller cidPtr cidLen).isSome := by
  unfold craftStoreGet
  split
  · rfl
  · rename_i data _
    split
    · rfl
    · rename_i passed
      push Not at passed
      obtain ⟨bytes, sliced, size⟩ := slice?_argument data passed.1
      -- `copy_from_slice` into the array needs 32 bytes, which the second check is for
      have whole : bytes.length = 32 := by
        rw [size, passed.2]
        decide
      have digest : Bytes32.ofSlice? bytes = some ⟨bytes, whole⟩ := dif_pos whole
      simp only [sliced, digest, Option.bind_eq_bind, Option.bind_some]
      split <;> rfl

theorem withArgument_isSome {R : Type} (ptr len : Int32) (noMemory outOfBounds : R) (run : Bytes → R) :
    (withArgument caller ptr len noMemory outOfBounds run).isSome := by
  unfold withArgument
  split
  · rfl
  · rename_i data _
    split
    · rfl
    · rename_i passed
      obtain ⟨bytes, sliced, -⟩ := slice?_argument data (Nat.not_lt.mp passed)
      rw [sliced]
      rfl

theorem craftSign_isSome (msgPtr msgLen : Int32) : (craftSign X caller msgPtr msgLen).isSome := by
  unfold craftSign
  split
  · rfl
  · exact withArgument_isSome ..

theorem craftLog_isSome (level msgPtr msgLen : Int32) : (craftLog X caller level msgPtr msgLen).isSome := by
  unfold craftLog
  split
  · rfl
  · rename_i data _
    split
    · rename_i passed
      obtain ⟨bytes, sliced, -⟩ := slice?_argument data passed
      rw [sliced]
      rfl
    · rfl

/-- What is returned for a statement, or for the code without one. -/
def answer : Except ℤ String → Caller × ℤ
  | .error code => (caller, code)
  | .ok sql => runQuery X caller sql

theorem craftSqlQuery_eq {W : Outside} (decoder : W.utf8 = X.fromUtf8) (sqlPtr sqlLen : Int32) :
    craftSqlQuery X caller sqlPtr sqlLen =
      some (answer X caller (agentSql W (caller.memory.map Buffer.bytes) sqlPtr sqlLen X.query.isSome)) := by
  unfold agentSql craftSqlQuery withArgument
  cases caller.memory with
  | none => rfl
  | some data =>
    have limit : min (toUsize sqlPtr + toUsize sqlLen) (2 ^ 64 - 1) = argumentEnd sqlPtr sqlLen := rfl
    simp only [Option.map_some, limit]
    by_cases passed : data.bytes.length < argumentEnd sqlPtr sqlLen
    · rw [if_pos passed, if_pos passed]
      rfl
    · have bounded : argumentEnd sqlPtr sqlLen ≤ data.bytes.length := Nat.not_lt.mp passed
      have sum := argumentEnd_eq data bounded
      rw [if_neg passed, if_neg passed]
      rw [sum] at bounded ⊢
      rw [slice?_eq bounded, Nat.add_sub_cancel_left, decoder, Option.map_some]
      cases X.fromUtf8 ((data.bytes.drop (toUsize sqlPtr)).take (toUsize sqlLen)) with
      | none => rfl
      | some sql =>
        cases attached : X.query with
        | none => simp [answer, runQuery, attached]
        | some query => rfl

end NoPanic

/-! The checks with plain sums -/

theorem toUsize_cases (n : Int32) :
    (0 ≤ n.toInt ∧ n.toInt < 2 ^ 31 ∧ (toUsize n : ℤ) = n.toInt) ∨
      (-2 ^ 31 ≤ n.toInt ∧ n.toInt < 0 ∧ (toUsize n : ℤ) = n.toInt + 2 ^ 64) := by
  have lower := n.le_toInt
  have upper := n.toInt_lt
  unfold toUsize
  omega

/-- The agent names a range of a buffer of `size` bytes. -/
def Named (start len : Int32) (size : ℕ) : Prop :=
  0 ≤ start.toInt ∧ 0 ≤ len.toInt ∧ start.toInt + len.toInt ≤ size

/-- One argument is negative and the other makes up for it: the sum of the casts wraps to a small
number, which passes the check. -/
def Wraps (start len : Int32) (size : ℕ) : Prop :=
  (start.toInt < 0 ∨ len.toInt < 0) ∧ 0 ≤ start.toInt + len.toInt ∧ start.toInt + len.toInt ≤ size

theorem sumEnd_le_iff {start len : Int32} {size : ℕ} (short : size < 2 ^ 63) :
    sumEnd start len ≤ size ↔ Named start len size ∨ Wraps start len size := by
  unfold sumEnd wrappingAdd Named Wraps
  rcases toUsize_cases start with first | first
  · rcases toUsize_cases len with second | second
    · omega
    · omega
  · rcases toUsize_cases len with second | second
    · omega
    -- two negative arguments wrap once: the sum is close to the largest word
    · omega

theorem sumEnd_of_named {start len : Int32} {size : ℕ} (short : size < 2 ^ 63)
    (named : Named start len size) : sumEnd start len = toUsize start + toUsize len := by
  obtain ⟨sign, sign', within⟩ := named
  apply wrappingAdd_of_lt
  rcases toUsize_cases start with first | first
  · rcases toUsize_cases len with second | second
    · omega
    · omega
  · omega

theorem sumEnd_lt_of_wraps {start len : Int32} {size : ℕ} (wraps : Wraps start len size) :
    sumEnd start len < toUsize start := by
  obtain ⟨negative, positive, -⟩ := wraps
  rcases toUsize_cases start with first | first
  · rcases toUsize_cases len with second | second
    · omega
    · exact wrappingAdd_lt (by omega) (by omega) (by omega)
  · rcases toUsize_cases len with second | second
    · exact wrappingAdd_lt (by omega) (by omega) (by omega)
    · omega

/-! The copy into the memory -/

/-- `n` bytes of the scratch buffer are in the memory, and nothing else has changed. -/
def Copied (caller after : Caller) (dst off n : ℕ) : Prop :=
  ∃ data written : Buffer, caller.memory = some data ∧ after = { caller with memory := some written } ∧
    off + n ≤ caller.scratch.bytes.length ∧ dst + n ≤ data.bytes.length ∧
    written.bytes.length = data.bytes.length ∧
    ∀ i, written.bytes[i]? =
      if dst ≤ i ∧ i < dst + n then caller.scratch.bytes[off + (i - dst)]? else data.bytes[i]?

/-- The call returns: either it has copied the range and returns its length, or it returns a negative
code and has changed nothing. -/
def ReadsSafely (caller : Caller) (dstPtr offset len : Int32) : Prop :=
  ∃ after code, craftReadResult caller dstPtr offset len = some (after, code) ∧
    (Copied caller after (toUsize dstPtr) (toUsize offset) (toUsize len) ∧ code = len ∨
      code < 0 ∧ after = caller)

/-- A check passes on a sum that wrapped: the one of the scratch buffer, or, for a range that the
scratch buffer has, the one of the memory. -/
def Overflows (caller : Caller) (dstPtr offset len : Int32) : Prop :=
  Wraps offset len caller.scratch.bytes.length ∨
    Named offset len caller.scratch.bytes.length ∧
      ∃ data, caller.memory = some data ∧ Wraps dstPtr len data.bytes.length

section ReadResult

variable {caller : Caller} {dstPtr offset len : Int32}

theorem slice?_of_wraps {data : Buffer} {start : Int32} (wraps : Wraps start len data.bytes.length) :
    slice? data.bytes (toUsize start) (sumEnd start len) = none := by
  have before := sumEnd_lt_of_wraps wraps
  rw [slice?, if_neg (by omega)]

theorem copyFromSlice?_of_wraps {data : Buffer} {start : Int32} (chunk : Bytes)
    (wraps : Wraps start len data.bytes.length) :
    data.copyFromSlice? (toUsize start) (sumEnd start len) chunk = none := by
  have before := sumEnd_lt_of_wraps wraps
  rw [Buffer.copyFromSlice?, dif_neg (by omega)]

theorem exists_copyFromSlice? {data : Buffer} {start : ℕ} {chunk : Bytes}
    (within : start + chunk.length ≤ data.bytes.length) :
    ∃ written : Buffer, written.bytes = overwrite data.bytes start chunk ∧
      data.copyFromSlice? start (start + chunk.length) chunk = some written := by
  have allocated : (overwrite data.bytes start chunk).length < 2 ^ 63 := by
    rw [length_overwrite within]
    exact data.allocated
  exact ⟨⟨_, allocated⟩, rfl, dif_pos ⟨Nat.le_add_right _ _, within, rfl⟩⟩

theorem craftReadResult_of_wraps (wraps : Wraps offset len caller.scratch.bytes.length) :
    craftReadResult caller dstPtr offset len = none := by
  have passed := (sumEnd_le_iff caller.scratch.allocated).mpr (.inr wraps)
  rw [craftReadResult, if_neg (by omega), slice?_of_wraps wraps]
  rfl

theorem craftReadResult_of_outside (outside : ¬ Named offset len caller.scratch.bytes.length)
    (exact : ¬ Wraps offset len caller.scratch.bytes.length) :
    craftReadResult caller dstPtr offset len = some (caller, -1) := by
  have refused : ¬ sumEnd offset len ≤ caller.scratch.bytes.length := by
    rw [sumEnd_le_iff caller.scratch.allocated]
    tauto
  rw [craftReadResult, if_pos (by omega)]

theorem craftReadResult_of_named (named : Named offset len caller.scratch.bytes.length) :
    toUsize offset + toUsize len ≤ caller.scratch.bytes.length ∧
      craftReadResult caller dstPtr offset len =
        writeResult caller dstPtr len ((caller.scratch.bytes.drop (toUsize offset)).take (toUsize len)) := by
  have sum := sumEnd_of_named caller.scratch.allocated named
  have passed := (sumEnd_le_iff caller.scratch.allocated).mpr (.inl named)
  rw [sum] at passed
  refine ⟨passed, ?_⟩
  rw [craftReadResult, sum, if_neg (by omega), slice?_eq passed, Option.bind_some]

theorem writeResult_of_wraps {data : Buffer} (memory : caller.memory = some data) (chunk : Bytes)
    (wraps : Wraps dstPtr len data.bytes.length) : writeResult caller dstPtr len chunk = none := by
  have passed := (sumEnd_le_iff data.allocated).mpr (.inr wraps)
  simp only [writeResult, memory]
  rw [if_neg (by omega), copyFromSlice?_of_wraps chunk wraps, Option.map_none]

theorem writeResult_of_outside {data : Buffer} (memory : caller.memory = some data) (chunk : Bytes)
    (outside : ¬ Named dstPtr len data.bytes.length) (exact : ¬ Wraps dstPtr len data.bytes.length) :
    writeResult caller dstPtr len chunk = some (caller, -3) := by
  have refused : ¬ sumEnd dstPtr len ≤ data.bytes.length := by
    rw [sumEnd_le_iff data.allocated]
    tauto
  simp only [writeResult, memory]
  rw [if_pos (by omega)]

theorem writeResult_of_named {data : Buffer} (memory : caller.memory = some data) {chunk : Bytes}
    (size : chunk.length = toUsize len) (named : Named dstPtr len data.bytes.length) :
    ∃ written : Buffer, toUsize dstPtr + chunk.length ≤ data.bytes.length ∧
      written.bytes = overwrite data.bytes (toUsize dstPtr) chunk ∧
      writeResult caller dstPtr len chunk = some ({ caller with memory := some written }, len) := by
  have sum := sumEnd_of_named data.allocated named
  have passed := (sumEnd_le_iff data.allocated).mpr (.inl named)
  rw [← size] at sum
  rw [sum] at passed
  have count : Int32.ofInt (toUsize len) = len := by
    rcases toUsize_cases len with ⟨-, -, value⟩ | ⟨-, negative, -⟩
    · rw [value, Int32.ofInt_toInt]
    · exact absurd named.2.1 (by omega)
  obtain ⟨written, bytes, copied⟩ := exists_copyFromSlice? passed
  refine ⟨written, passed, bytes, ?_⟩
  simp only [writeResult, memory]
  rw [sum, if_neg (by omega), copied, Option.map_some, count]

theorem copied_of_named {data : Buffer} (memory : caller.memory = some data)
    (source : Named offset len caller.scratch.bytes.length) (target : Named dstPtr len data.bytes.length) :
    ∃ after, craftReadResult caller dstPtr offset len = some (after, len) ∧
      Copied caller after (toUsize dstPtr) (toUsize offset) (toUsize len) := by
  obtain ⟨within, rest⟩ := @craftReadResult_of_named caller dstPtr offset len source
  have size : ((caller.scratch.bytes.drop (toUsize offset)).take (toUsize len)).length = toUsize len := by
    rw [List.length_take, List.length_drop]
    omega
  obtain ⟨written, fits, bytes, copied⟩ := writeResult_of_named memory size target
  refine ⟨_, rest.trans copied, data, written, memory, rfl, within, ?_, ?_, fun i => ?_⟩
  · rwa [size] at fits
  · rw [bytes, length_overwrite fits]
  · rw [bytes, getElem?_overwrite fits, size]
    split
    · rename_i inside
      rw [List.getElem?_take_of_lt (by omega), List.getElem?_drop]
    · rfl

end ReadResult

theorem readsSafely_iff (caller : Caller) (dstPtr offset len : Int32) :
    ReadsSafely caller dstPtr offset len ↔ ¬ Overflows caller dstPtr offset len := by
  constructor
  · rintro ⟨after, code, returned, -⟩ (wraps | ⟨named, data, memory, wraps⟩)
    · rw [craftReadResult_of_wraps wraps] at returned
      cases returned
    · rw [(craftReadResult_of_named named).2, writeResult_of_wraps memory _ wraps] at returned
      cases returned
  · intro safe
    by_cases wraps : Wraps offset len caller.scratch.bytes.length
    · exact absurd (.inl wraps) safe
    by_cases source : Named offset len caller.scratch.bytes.length
    · cases memory : caller.memory with
      | none =>
        have refused : craftReadResult caller dstPtr offset len = some (caller, -2) := by
          rw [(craftReadResult_of_named source).2]
          simp only [writeResult, memory]
        exact ⟨caller, -2, refused, .inr ⟨by decide, rfl⟩⟩
      | some data =>
        by_cases wraps' : Wraps dstPtr len data.bytes.length
        · exact absurd (.inr ⟨source, data, memory, wraps'⟩) safe
        by_cases target : Named dstPtr len data.bytes.length
        · obtain ⟨after, returned, copied⟩ := copied_of_named memory source target
          exact ⟨after, len, returned, .inl ⟨copied, rfl⟩⟩
        · have refused := (craftReadResult_of_named source).2.trans
            (writeResult_of_outside memory _ target wraps')
          exact ⟨caller, -3, refused, .inr ⟨by decide, rfl⟩⟩
    · exact ⟨caller, -1, craftReadResult_of_outside source wraps, .inr ⟨by decide, rfl⟩⟩

/-- No host function panics, for any memory, scratch buffer and arguments, except `craft_read_result`:
it copies what it is asked to or returns a negative code and changes nothing, exactly when neither of
its two checks passes on a sum of casts that wrapped. -/
theorem hostCalls_safe_iff {Rows : Type} (X : Backends Rows) (caller : Caller) :
    (∀ ptr len, (craftStoreGet X caller ptr len).isSome) ∧
      (∀ ptr len, (craftStorePut X caller ptr len).isSome) ∧
      (∀ ptr len, (craftSqlQuery X caller ptr len).isSome) ∧
      (∀ ptr len, (craftSign X caller ptr len).isSome) ∧
      (∀ level ptr len, (craftLog X caller level ptr len).isSome) ∧
      ∀ dstPtr offset len,
        ReadsSafely caller dstPtr offset len ↔ ¬ Overflows caller dstPtr offset len :=
  ⟨craftStoreGet_isSome X caller, fun _ _ => withArgument_isSome .., fun _ _ => withArgument_isSome ..,
    craftSign_isSome X caller, craftLog_isSome X caller, readsSafely_iff caller⟩

/-- One byte from offset -1, with an empty scratch buffer, and one byte to address -1. -/
theorem craftReadResult_panics :
    craftReadResult ⟨none, ⟨[], by decide⟩, 0⟩ 0 (-1) 1 = none ∧
      craftReadResult ⟨some ⟨[0, 0], by decide⟩, ⟨[7], by decide⟩, 0⟩ (-1) 0 1 = none := by
  decide +kernel

end Craftec.Com.Host
