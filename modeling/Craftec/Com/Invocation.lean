/- GID: Craftec/Com/Invocation
   generality: I
   digest: Agents that run side by side over one store: what their host calls come to. -/

import Mathlib
import Craftec.Com.Host
import Craftec.Library.MachineRange
import Craftec.Library.Records
import Craftec.Library.Transcript
import Craftec.Node.Requests
import Craftec.Obj.Refinement
import Craftec.Obj.Sequential
import Craftec.Obj.Store
import Craftec.Sql.Database
import Craftec.Types.Digest

set_option autoImplicit false
set_option relaxedAutoImplicit false

namespace Craftec.Com.Invocation

open Craftec.Com.Host
open Craftec.Library.MachineRange (overwrite)
open Craftec.Library.Records (slice? slice?_eq)
open Craftec.Library.Transcript (Alike Along alike_some run run_alike)
open Craftec.Node.Requests (toUsize)
open Craftec.Obj.Refinement (NoFalseNegatives Objects Op Refines Walks after refines_get refines_perform
  refines_put refines_vacant sample sampleStore sureBloom)
open Craftec.Obj.Sequential (get put)
open Craftec.Obj.Store (Bloom Shared)
open Craftec.Sql.Database (CraftDatabase Libsql Row pageEngine)
open Craftec.Types.Digest (Blake3 Bytes Bytes32 Cid)

/-! ## The agents of a node

A host call blocks the thread of its agent; the calls of different agents are taken one at a time. -/

inductive HostCall where
  | storeGet (cidPtr cidLen : Int32)
  | storePut (dataPtr dataLen : Int32)
  | sqlQuery (sqlPtr sqlLen : Int32)
  | sign (msgPtr msgLen : Int32)
  | readResult (dstPtr offset len : Int32)
  | log (level msgPtr msgLen : Int32)

/-- What comes of a host call. Only `craft_log` returns nothing. -/
inductive Reply where
  | value (code : ℤ)
  | logged (line : Level × String)
  | panicked
  deriving DecidableEq

/-- What the key store, `postcard` and the UTF-8 decoders answer. -/
structure Packages where
  toAllocvec : List Row → Option Buffer
  sign : Bytes → Signature
  fromUtf8 : Bytes → Option String
  fromUtf8Lossy : Bytes → String

/-- An object as it is read into memory, where no allocation has more than `isize::MAX` bytes. -/
def load (bytes : Bytes) : Option Buffer :=
  if fits : bytes.length < 2 ^ 63 then some ⟨bytes, fits⟩ else none

/-- The shared components, and what each running invocation has for itself. -/
structure System (F Db : Type) where
  store : Shared F
  database : Option (CraftDatabase Db)
  agents : ℕ → Option Caller

/-- What happens next. `execute_agent` gives an agent its memory; its own instructions write to the
memory and let it grow; it calls the host; it returns, traps, runs out of fuel or is aborted. Others
use the store and the database too. -/
inductive Step (Db : Type) where
  | start (i : ℕ) (memory : Option Buffer)
  | compute (i : ℕ) (memory : Buffer)
  | call (i : ℕ) (c : HostCall)
  | stop (i : ℕ)
  | outside (op : Op)
  | replace (database : CraftDatabase Db)

section Code

variable (B : Blake3) {F Db : Type} (bloom : Bloom F) (base : Obj.Shard.Path) (L : Libsql Db)
  (X : Packages)

/-- `HostState::new`: nothing is left of an earlier invocation. -/
def hostState (memory : Option Buffer) : Caller := ⟨memory, ⟨[], by decide⟩, 0⟩

def backends (w : System F Db) : Backends (List Row) where
  get cid :=
    match (get B bloom base w.store cid).2 with
    | .ok (some bytes) =>
      match load bytes with
      | some found => .ok (some found)
      | none => .error ()
    | .ok none => .ok none
    | .error _ => .error ()
  put data :=
    match (put B bloom base w.store data).2 with
    | .ok cid => .ok cid
    | .error _ => .error ()
  query := w.database.map fun db sql =>
    match (db.query L sql).2 with
    | .ok rows => .ok rows
    | .error _ => .error ()
  toAllocvec := X.toAllocvec
  sign := X.sign
  fromUtf8 := X.fromUtf8
  fromUtf8Lossy := X.fromUtf8Lossy

/-- The closure that a call runs; `none` is a panic. -/
def hostCall (w : System F Db) (caller : Caller) : HostCall → Option (Caller × Reply)
  | .storeGet ptr len =>
    (craftStoreGet (backends B bloom base L X w) caller ptr len).map (Prod.map id .value)
  | .storePut ptr len =>
    (craftStorePut (backends B bloom base L X w) caller ptr len).map (Prod.map id .value)
  | .sqlQuery ptr len =>
    (craftSqlQuery (backends B bloom base L X w) caller ptr len).map (Prod.map id .value)
  | .sign ptr len =>
    (craftSign (backends B bloom base L X w) caller ptr len).map (Prod.map id .value)
  | .readResult dstPtr offset len =>
    (craftReadResult caller dstPtr offset len).map fun r => (r.1, .value r.2.toInt)
  | .log level ptr len =>
    (craftLog (backends B bloom base L X w) caller level ptr len).map fun line => (caller, .logged line)

/-- How `craft_store_get` reads the identifier: its length is checked together with the range. -/
def withIdentifier {R : Type} (caller : Caller) (ptr len : Int32) (noMemory badCid : R)
    (use : Cid → R) : Option R :=
  match caller.memory with
  | none => some noMemory
  | some data =>
    if data.bytes.length < argumentEnd ptr len ∨ len ≠ 32 then some badCid
    else do
      let bytes ← slice? data.bytes (toUsize ptr) (argumentEnd ptr len)
      let cidBytes ← Bytes32.ofSlice? bytes
      some (use (Cid.fromBytes cidBytes))

def storeOp (caller : Caller) : HostCall → Option Op
  | .storeGet ptr len => (withIdentifier caller ptr len none none fun cid => some (.get cid)).join
  | .storePut ptr len => (withArgument caller ptr len none none fun data => some (.put data)).join
  | _ => none

def statement (caller : Caller) : HostCall → Option String
  | .sqlQuery ptr len => (withArgument caller ptr len none none X.fromUtf8).join
  | _ => none

def storeAfter (s : Shared F) : Option Op → Shared F
  | some (.get cid) => (get B bloom base s cid).1
  | some (.put data) => (put B bloom base s data).1
  | _ => s

def databaseAfter (database : Option (CraftDatabase Db)) : Option String → Option (CraftDatabase Db)
  | some sql => database.map fun db => (db.query L sql).1
  | none => database

variable (blank : F)

/-- One step with the reply to a host call. A panic unwinds the task of the agent. -/
def perform (w : System F Db) : Step Db → Option (System F Db × Option Reply)
  | .start i memory =>
    match w.agents i with
    | none => some ({ w with agents := Function.update w.agents i (some (hostState memory)) }, none)
    | some _ => none
  | .compute i memory =>
    (w.agents i).bind fun caller => caller.memory.bind fun data =>
      if data.bytes.length ≤ memory.bytes.length then
        some ({ w with agents := Function.update w.agents i (some { caller with memory := some memory }) },
          none)
      else none
  | .call i c =>
    (w.agents i).map fun caller =>
      let returned := hostCall B bloom base L X w caller c
      (⟨storeAfter B bloom base w.store (storeOp caller c),
        databaseAfter L w.database (statement X caller c),
        Function.update w.agents i (returned.map Prod.fst)⟩,
        some ((returned.map Prod.snd).getD .panicked))
  | .stop i => some ({ w with agents := Function.update w.agents i none }, none)
  | .outside op =>
    some ({ w with store := (Obj.Refinement.perform B bloom base blank w.store op).1 }, none)
  | .replace db => some ({ w with database := w.database.map fun _ => db }, none)

/-- What is stored during the run is in `data`, and nobody but the store changes its files. -/
def Fair (data : Set Bytes) (w : System F Db) : Step Db → Prop
  | .call i c => ∀ caller bytes, w.agents i = some caller → storeOp caller c = some (.put bytes) →
    bytes ∈ data
  | .outside op => Walks base w.store op ∧ ∀ bytes, op = .put bytes → bytes ∈ data
  | _ => True

end Code

/-! ## What the calls are for

An agent means ranges of its memory, and the store is a map. -/

structure Agent where
  memory : Option Bytes
  scratch : Bytes
  signCount : ℕ
  deriving DecidableEq

structure Ideal (Db : Type) where
  objects : Objects
  database : Option (CraftDatabase Db)
  agents : ℕ → Option Agent

instance (start len : Int32) (size : ℕ) : Decidable (Named start len size) :=
  inferInstanceAs (Decidable (_ ∧ _ ∧ _))

instance (start len : Int32) (size : ℕ) : Decidable (Wraps start len size) :=
  inferInstanceAs (Decidable (_ ∧ _ ∧ _))

def rangeOf (data : Bytes) (ptr len : Int32) : Option Bytes :=
  if Named ptr len data.length then some ((data.drop ptr.toInt.toNat).take len.toInt.toNat) else none

inductive Ask where
  | refused (code : ℤ)
  | crash
  | get (cid : Cid)
  | put (data : Bytes)
  | query (sql : String)
  | sign (msg : Bytes)
  | read (dst : ℕ) (chunk : Bytes)
  | log (line : Level × String)

def Agent.argument {R : Type} (a : Agent) (ptr len : Int32) (noMemory outOfBounds : R)
    (use : Bytes → R) : R :=
  match a.memory with
  | none => noMemory
  | some data =>
    match rangeOf data ptr len with
    | none => outOfBounds
    | some bytes => use bytes

section Spec

variable (X : Packages)

/-- What an agent asks for. The two sums that wrap are the only way to a crash. -/
def asks (a : Agent) : HostCall → Ask
  | .storeGet ptr len => a.argument ptr len (.refused (-3)) (.refused (-2)) fun bytes =>
    match Bytes32.ofSlice? bytes with
    | none => .refused (-2)
    | some cidBytes => .get (Cid.fromBytes cidBytes)
  | .storePut ptr len => a.argument ptr len (.refused (-3)) (.refused (-2)) .put
  | .sqlQuery ptr len => a.argument ptr len (.refused (-3)) (.refused (-2)) fun bytes =>
    match X.fromUtf8 bytes with
    | none => .refused (-2)
    | some sql => .query sql
  | .sign ptr len =>
    if signRateLimit ≤ a.signCount then .refused (-1)
    else a.argument ptr len (.refused (-3)) (.refused (-2)) .sign
  | .readResult dstPtr offset len =>
    match rangeOf a.scratch offset len with
    | none => if Wraps offset len a.scratch.length then .crash else .refused (-1)
    | some chunk =>
      match a.memory with
      | none => .refused (-2)
      | some data =>
        if Named dstPtr len data.length then .read dstPtr.toInt.toNat chunk
        else if Wraps dstPtr len data.length then .crash else .refused (-3)
  | .log level ptr len =>
    .log (.ofI32 level, a.argument ptr len "<no-memory>" "<out-of-bounds>" X.fromUtf8Lossy)

def objectsAfter (B : Blake3) (m : Objects) : Ask → Objects
  | .put data => Function.update m (Cid.fromData B data) (some data)
  | _ => m

def Ask.storeOp : Ask → Option Op
  | .get cid => some (.get cid)
  | .put data => some (.put data)
  | _ => none

def Ask.sql : Ask → Option String
  | .query sql => some sql
  | _ => none

variable (B : Blake3) {Db : Type} (L : Libsql Db)

def queryReply (a : Agent) (database : Option (CraftDatabase Db)) (sql : String) : Agent × ℤ :=
  match database with
  | none => (a, -1)
  | some db =>
    match (db.query L sql).2 with
    | .error _ => (a, -2)
    | .ok rows =>
      match X.toAllocvec rows with
      | some encoded => ({ a with scratch := encoded.bytes }, encoded.bytes.length)
      | none => (a, -3)

def respond (m : Objects) (database : Option (CraftDatabase Db)) (a : Agent) : Ask → Option Agent × Reply
  | .refused code => (some a, .value code)
  | .crash => (none, .panicked)
  | .get cid =>
    match m cid with
    | none => (some a, .value (-1))
    | some bytes => (some { a with scratch := bytes }, .value bytes.length)
  | .put data => (some { a with scratch := (Cid.fromData B data).asBytes }, .value 32)
  | .query sql => (some (queryReply X L a database sql).1, .value (queryReply X L a database sql).2)
  | .sign msg =>
    (some { a with signCount := a.signCount + 1, scratch := (X.sign msg).bytes }, .value 64)
  | .read dst chunk =>
    (some { a with memory := a.memory.map fun data => overwrite data dst chunk }, .value chunk.length)
  | .log line => (some a, .logged line)

def Ideal.perform (u : Ideal Db) : Step Db → Option (Ideal Db × Option Reply)
  | .start i memory =>
    match u.agents i with
    | none =>
      some ({ u with agents := Function.update u.agents i (some ⟨memory.map Buffer.bytes, [], 0⟩) }, none)
    | some _ => none
  | .compute i memory =>
    (u.agents i).bind fun a => a.memory.bind fun data =>
      if data.length ≤ memory.bytes.length then
        some ({ u with agents := Function.update u.agents i (some { a with memory := some memory.bytes }) },
          none)
      else none
  | .call i c =>
    (u.agents i).map fun a =>
      let answer := respond X B L u.objects u.database a (asks X a c)
      (⟨objectsAfter B u.objects (asks X a c), databaseAfter L u.database (asks X a c).sql,
        Function.update u.agents i answer.1⟩, some answer.2)
  | .stop i => some ({ u with agents := Function.update u.agents i none }, none)
  | .outside op => some ({ u with objects := after B u.objects op }, none)
  | .replace db => some ({ u with database := u.database.map fun _ => db }, none)

end Spec

def agentOf (caller : Caller) : Agent :=
  ⟨caller.memory.map Buffer.bytes, caller.scratch.bytes, caller.signCount⟩

/-- The node stands for the ideal one: the files are the objects, all of them from `data`. -/
structure Stands (B : Blake3) {F Db : Type} (bloom : Bloom F) (base : Obj.Shard.Path) (data : Set Bytes)
    (w : System F Db) (u : Ideal Db) : Prop where
  store : Refines B bloom base ∅ w.store u.objects
  stored : ∀ cid bytes, u.objects cid = some bytes → bytes ∈ data
  database : u.database = w.database
  agents : ∀ i, u.agents i = (w.agents i).map agentOf

/-! ## Ranges -/

theorem toUsize_eq {n : Int32} (sign : 0 ≤ n.toInt) : toUsize n = n.toInt.toNat := by
  rcases toUsize_cases n with ⟨-, -, value⟩ | ⟨-, negative, -⟩
  · omega
  · omega

theorem argumentEnd_le_iff {ptr len : Int32} {size : ℕ} (short : size < 2 ^ 63) :
    argumentEnd ptr len ≤ size ↔ Named ptr len size := by
  unfold argumentEnd Library.MachineRange.saturatingAdd Named
  rcases toUsize_cases ptr with first | first
  · rcases toUsize_cases len with second | second
    · omega
    · omega
  · omega

theorem slice?_of_named {data : Buffer} {ptr len : Int32} (named : Named ptr len data.bytes.length) :
    slice? data.bytes (toUsize ptr) (argumentEnd ptr len) = rangeOf data.bytes ptr len := by
  have passed := (argumentEnd_le_iff data.allocated).mpr named
  have sum := argumentEnd_eq data passed
  rw [sum] at passed ⊢
  rw [slice?_eq passed, rangeOf, if_pos named, toUsize_eq named.1, toUsize_eq named.2.1]

theorem length_rangeOf {data bytes : Bytes} {ptr len : Int32} (found : rangeOf data ptr len = some bytes) :
    Named ptr len data.length ∧ bytes.length = len.toInt.toNat := by
  unfold rangeOf at found
  split at found
  · rename_i named
    cases found
    refine ⟨named, ?_⟩
    obtain ⟨first, second, within⟩ := named
    rw [List.length_take, List.length_drop]
    omega
  · cases found

theorem withArgument_eq {R : Type} (caller : Caller) (ptr len : Int32) (noMemory outOfBounds : R)
    (use : Bytes → R) :
    withArgument caller ptr len noMemory outOfBounds use =
      some ((agentOf caller).argument ptr len noMemory outOfBounds use) := by
  unfold withArgument Agent.argument agentOf
  cases caller.memory with
  | none => rfl
  | some data =>
    simp only [Option.map_some]
    by_cases named : Named ptr len data.bytes.length
    · have passed := (argumentEnd_le_iff data.allocated).mpr named
      rw [if_neg (by omega), slice?_of_named named, rangeOf, if_pos named]
      rfl
    · have refused := mt (argumentEnd_le_iff data.allocated).mp named
      rw [if_pos (by omega), rangeOf, if_neg named]

theorem Agent.argument_cases (a : Agent) (ptr len : Int32) :
    (∀ {R : Type} (noMemory outOfBounds : R) (use : Bytes → R),
        a.argument ptr len noMemory outOfBounds use = noMemory) ∨
      (∀ {R : Type} (noMemory outOfBounds : R) (use : Bytes → R),
        a.argument ptr len noMemory outOfBounds use = outOfBounds) ∨
      ∃ data bytes, a.memory = some data ∧ rangeOf data ptr len = some bytes ∧
        ∀ {R : Type} (noMemory outOfBounds : R) (use : Bytes → R),
          a.argument ptr len noMemory outOfBounds use = use bytes := by
  cases memory : a.memory with
  | none =>
    left
    intro R noMemory outOfBounds use
    rw [Agent.argument, memory]
  | some data =>
    right
    cases found : rangeOf data ptr len with
    | none =>
      left
      intro R noMemory outOfBounds use
      simp only [Agent.argument, memory, found]
    | some bytes =>
      refine .inr ⟨data, bytes, rfl, found, ?_⟩
      intro R noMemory outOfBounds use
      simp only [Agent.argument, memory, found]

theorem isSome_ofSlice? {data bytes : Bytes} {ptr len : Int32} (found : rangeOf data ptr len = some bytes) :
    (Bytes32.ofSlice? bytes).isSome ↔ len = 32 := by
  obtain ⟨named, size⟩ := length_rangeOf found
  have whole : (Bytes32.ofSlice? bytes).isSome ↔ bytes.length = 32 := by
    unfold Bytes32.ofSlice?
    split
    · rename_i exact
      exact iff_of_true rfl exact
    · rename_i other
      exact iff_of_false Bool.false_ne_true other
  have sign := named.2.1
  have value : (32 : Int32).toInt = 32 := by decide
  rw [whole, size, ← Int32.toInt_inj]
  omega

theorem withIdentifier_eq {R : Type} (caller : Caller) (ptr len : Int32) (noMemory badCid : R)
    (use : Cid → R) :
    withIdentifier caller ptr len noMemory badCid use =
      some ((agentOf caller).argument ptr len noMemory badCid fun bytes =>
        match Bytes32.ofSlice? bytes with
        | none => badCid
        | some cidBytes => use (Cid.fromBytes cidBytes)) := by
  unfold withIdentifier Agent.argument agentOf
  cases caller.memory with
  | none => rfl
  | some data =>
    simp only [Option.map_some]
    by_cases named : Named ptr len data.bytes.length
    · have passed := (argumentEnd_le_iff data.allocated).mpr named
      have inside : ¬ data.bytes.length < argumentEnd ptr len := by omega
      obtain ⟨bytes, found⟩ : ∃ bytes, rangeOf data.bytes ptr len = some bytes := ⟨_, if_pos named⟩
      have identifier := isSome_ofSlice? found
      rw [slice?_of_named named, found]
      cases digest : Bytes32.ofSlice? bytes with
      | none =>
        rw [digest] at identifier
        rw [if_pos (.inr (by simpa using identifier))]
        simp only [digest]
      | some cidBytes =>
        rw [digest] at identifier
        rw [if_neg (by tauto)]
        simp only [Option.bind_eq_bind, Option.bind_some, digest]
    · have refused := mt (argumentEnd_le_iff data.allocated).mp named
      rw [if_pos (.inl (by omega)), rangeOf, if_neg named]

/-! ## What a call does to the node -/

theorem reaches_eq (X : Packages) (caller : Caller) (c : HostCall) :
    storeOp caller c = (asks X (agentOf caller) c).storeOp ∧
      statement X caller c = (asks X (agentOf caller) c).sql := by
  cases c with
  | storeGet ptr len =>
    simp only [storeOp, statement, asks, withIdentifier_eq, Option.join_some]
    rcases (agentOf caller).argument_cases ptr len with read | read | ⟨_, bytes, -, -, read⟩
    · simp only [read]
      exact ⟨rfl, rfl⟩
    · simp only [read]
      exact ⟨rfl, rfl⟩
    · simp only [read]
      cases Bytes32.ofSlice? bytes with
      | none => exact ⟨rfl, rfl⟩
      | some cidBytes => exact ⟨rfl, rfl⟩
  | storePut ptr len =>
    simp only [storeOp, statement, asks, withArgument_eq, Option.join_some]
    rcases (agentOf caller).argument_cases ptr len with read | read | ⟨_, bytes, -, -, read⟩
    all_goals
      simp only [read]
      exact ⟨rfl, rfl⟩
  | sqlQuery ptr len =>
    simp only [storeOp, statement, asks, withArgument_eq, Option.join_some]
    rcases (agentOf caller).argument_cases ptr len with read | read | ⟨_, bytes, -, -, read⟩
    · simp only [read]
      exact ⟨rfl, rfl⟩
    · simp only [read]
      exact ⟨rfl, rfl⟩
    · simp only [read]
      cases X.fromUtf8 bytes with
      | none => exact ⟨rfl, rfl⟩
      | some sql => exact ⟨rfl, rfl⟩
  | sign ptr len =>
    simp only [storeOp, statement, asks]
    split
    · exact ⟨rfl, rfl⟩
    · rcases (agentOf caller).argument_cases ptr len with read | read | ⟨_, bytes, -, -, read⟩
      all_goals
        simp only [read]
        exact ⟨rfl, rfl⟩
  | readResult dstPtr offset len =>
    simp only [storeOp, statement, asks]
    repeat' split
    all_goals exact ⟨rfl, rfl⟩
  | log level ptr len => exact ⟨rfl, rfl⟩

theorem storeOp_eq (X : Packages) (caller : Caller) (c : HostCall) :
    storeOp caller c = (asks X (agentOf caller) c).storeOp := (reaches_eq X caller c).1

theorem storeOp_ne_put (caller : Caller) {c : HostCall} (other : ∀ ptr len, c ≠ .storePut ptr len)
    (bytes : Bytes) : storeOp caller c ≠ some (.put bytes) := by
  intro put
  cases c with
  | storeGet ptr len =>
    simp only [storeOp, withIdentifier_eq, Option.join_some] at put
    rcases (agentOf caller).argument_cases ptr len with read | read | ⟨_, found, -, -, read⟩
    · rw [read] at put
      cases put
    · rw [read] at put
      cases put
    · rw [read] at put
      split at put <;> cases put
  | storePut ptr len => exact other ptr len rfl
  | _ => cases put

theorem craftStoreGet_eq {Rows : Type} (Y : Backends Rows) (caller : Caller) (ptr len : Int32) :
    craftStoreGet Y caller ptr len =
      withIdentifier caller ptr len (caller, -3) (caller, -2) fun cid =>
        match Y.get cid with
        | .ok (some found) => ({ caller with scratch := found }, (found.bytes.length : ℤ))
        | .ok none => (caller, -1)
        | .error _ => (caller, -3) := by
  unfold craftStoreGet withIdentifier
  cases caller.memory with
  | none => rfl
  | some data =>
    simp only
    split
    · rfl
    · cases slice? data.bytes (toUsize ptr) (argumentEnd ptr len) with
      | none => rfl
      | some bytes =>
        cases digest : Bytes32.ofSlice? bytes with
        | none => simp [digest]
        | some cidBytes =>
          simp only [Option.bind_eq_bind, Option.bind_some, digest]
          cases Y.get (Cid.fromBytes cidBytes) with
          | error e => rfl
          | ok found => cases found <;> rfl

section Calls

variable {B : Blake3} {F Db : Type} {bloom : Bloom F} {base : Obj.Shard.Path} {L : Libsql Db} {X : Packages}
  {data : Set Bytes} {w : System F Db} {u : Ideal Db}

theorem Stands.same (stands : Stands B bloom base data w u) (apart : Set.InjOn (Cid.fromData B) data)
    {bytes found : Bytes} (known : bytes ∈ data) (there : u.objects (Cid.fromData B bytes) = some found) :
    found = bytes :=
  apart (stands.stored _ found there) known (stands.store.hashed _ found there)

theorem Stands.get_eq (stands : Stands B bloom base data w u)
    (short : ∀ bytes ∈ data, bytes.length < 2 ^ 63) (cid : Cid) :
    (u.objects cid = none ∧ (backends B bloom base L X w).get cid = .ok none) ∨
      ∃ found : Buffer, u.objects cid = some found.bytes ∧
        (backends B bloom base L X w).get cid = .ok (some found) := by
  have read := (refines_get stands.store cid).1
  cases there : u.objects cid with
  | none => exact .inl ⟨rfl, by simp only [backends, read, there]⟩
  | some bytes =>
    have fits := short bytes (stands.stored cid bytes there)
    refine .inr ⟨⟨bytes, fits⟩, rfl, ?_⟩
    simp only [backends, read, there, load, dif_pos fits]

theorem Stands.put_eq (stands : Stands B bloom base data w u) (sound : NoFalseNegatives bloom)
    (apart : Set.InjOn (Cid.fromData B) data) {bytes : Bytes} (known : bytes ∈ data) :
    (backends B bloom base L X w).put bytes = .ok (Cid.fromData B bytes) := by
  have wrote := (refines_put stands.store sound bytes fun _ there => stands.same apart known there).1
  simp only [backends, wrote]

theorem Stands.runQuery_eq (stands : Stands B bloom base data w u) (caller : Caller) (sql : String) :
    Prod.map agentOf id (runQuery (backends B bloom base L X w) caller sql) =
      queryReply X L (agentOf caller) u.database sql := by
  unfold runQuery queryReply
  rw [stands.database]
  cases attached : w.database with
  | none =>
    simp only [backends, attached, Option.map_none]
    rfl
  | some db =>
    simp only [backends, attached, Option.map_some]
    cases (db.query L sql).2 with
    | error e => rfl
    | ok rows =>
      simp only
      cases X.toAllocvec rows <;> rfl

def resulting (returned : Option (Caller × Reply)) : Option Agent × Reply :=
  ((returned.map Prod.fst).map agentOf, (returned.map Prod.snd).getD .panicked)

section ReadResult

variable (a : Agent) (dstPtr offset len : Int32)

/-! What `craft_read_result` is asked for, by the ranges that are named. -/

theorem asks_outside (outside : ¬ Named offset len a.scratch.length) :
    asks X a (.readResult dstPtr offset len) =
      if Wraps offset len a.scratch.length then .crash else .refused (-1) := by
  simp only [asks, rangeOf, if_neg outside]

theorem asks_noMemory (source : Named offset len a.scratch.length) (memory : a.memory = none) :
    asks X a (.readResult dstPtr offset len) = .refused (-2) := by
  simp only [asks, rangeOf, if_pos source, memory]

theorem asks_inside {chunk memory : Bytes} (found : rangeOf a.scratch offset len = some chunk)
    (there : a.memory = some memory) :
    asks X a (.readResult dstPtr offset len) =
      if Named dstPtr len memory.length then .read dstPtr.toInt.toNat chunk
      else if Wraps dstPtr len memory.length then .crash else .refused (-3) := by
  simp only [asks, found, there]

end ReadResult

theorem readResult_eq (caller : Caller) (dstPtr offset len : Int32) (m : Objects)
    (database : Option (CraftDatabase Db)) :
    resulting ((craftReadResult caller dstPtr offset len).map fun r => (r.1, .value r.2.toInt)) =
      respond X B L m database (agentOf caller)
        (asks X (agentOf caller) (.readResult dstPtr offset len)) := by
  by_cases source : Named offset len caller.scratch.bytes.length
  · have rest := (@craftReadResult_of_named caller dstPtr offset len source).2
    cases memory : caller.memory with
    | none =>
      have nowhere : (agentOf caller).memory = none := by rw [agentOf, memory]; rfl
      rw [rest, asks_noMemory _ _ _ _ source nowhere]
      simp only [writeResult, memory]
      rfl
    | some data =>
      have there : (agentOf caller).memory = some data.bytes := by rw [agentOf, memory]; rfl
      obtain ⟨chunk, found⟩ : ∃ chunk, rangeOf caller.scratch.bytes offset len = some chunk :=
        ⟨_, if_pos source⟩
      have taken : (caller.scratch.bytes.drop (toUsize offset)).take (toUsize len) = chunk := by
        rw [rangeOf, if_pos source, ← toUsize_eq source.1, ← toUsize_eq source.2.1] at found
        exact Option.some.inj found
      have size : chunk.length = toUsize len := by
        rw [(length_rangeOf found).2, toUsize_eq source.2.1]
      rw [rest, taken, asks_inside (agentOf caller) dstPtr offset len found there]
      by_cases target : Named dstPtr len data.bytes.length
      · obtain ⟨written, -, bytes, copied⟩ := writeResult_of_named memory size target
        have count : (chunk.length : ℤ) = len.toInt := by
          rw [size, toUsize_eq source.2.1]
          exact Int.toNat_of_nonneg source.2.1
        rw [if_pos target, copied, respond, there, count, ← toUsize_eq target.1, Option.map_some,
          Option.map_some, ← bytes]
        rfl
      · rw [if_neg target]
        by_cases wraps : Wraps dstPtr len data.bytes.length
        · rw [if_pos wraps, writeResult_of_wraps memory chunk wraps]
          rfl
        · rw [if_neg wraps, writeResult_of_outside memory chunk target wraps]
          rfl
  · rw [asks_outside (agentOf caller) dstPtr offset len source]
    by_cases wraps : Wraps offset len caller.scratch.bytes.length
    · rw [if_pos (show Wraps offset len (agentOf caller).scratch.length from wraps),
        craftReadResult_of_wraps wraps]
      rfl
    · rw [if_neg (show ¬ Wraps offset len (agentOf caller).scratch.length from wraps),
        craftReadResult_of_outside source wraps]
      rfl

theorem craftLog_eq {Rows : Type} (Y : Backends Rows) (caller : Caller) (level ptr len : Int32) :
    craftLog Y caller level ptr len =
      some (.ofI32 level,
        (agentOf caller).argument ptr len "<no-memory>" "<out-of-bounds>" Y.fromUtf8Lossy) := by
  have read := withArgument_eq caller ptr len "<no-memory>" "<out-of-bounds>" Y.fromUtf8Lossy
  have same : craftLog Y caller level ptr len =
      (withArgument caller ptr len "<no-memory>" "<out-of-bounds>" Y.fromUtf8Lossy).map
        fun line => (.ofI32 level, line) := by
    unfold craftLog withArgument
    cases caller.memory with
    | none => rfl
    | some data =>
      simp only
      by_cases passed : argumentEnd ptr len ≤ data.bytes.length
      · rw [if_pos passed, if_neg (by omega)]
        cases slice? data.bytes (toUsize ptr) (argumentEnd ptr len) <;> rfl
      · rw [if_neg passed, if_pos (by omega)]
        rfl
  rw [same, read]
  rfl

theorem Stands.hostCall_eq (stands : Stands B bloom base data w u) (sound : NoFalseNegatives bloom)
    (apart : Set.InjOn (Cid.fromData B) data) (short : ∀ bytes ∈ data, bytes.length < 2 ^ 63)
    (caller : Caller) (c : HostCall)
    (known : ∀ bytes, storeOp caller c = some (.put bytes) → bytes ∈ data) :
    resulting (hostCall B bloom base L X w caller c) =
      respond X B L u.objects u.database (agentOf caller) (asks X (agentOf caller) c) := by
  cases c with
  | storeGet ptr len =>
    rw [hostCall, craftStoreGet_eq, withIdentifier_eq, asks]
    rcases (agentOf caller).argument_cases ptr len with read | read | ⟨_, bytes, -, -, read⟩ <;>
      simp only [read]
    · rfl
    · rfl
    · cases Bytes32.ofSlice? bytes with
      | none => rfl
      | some cidBytes =>
        rcases @Stands.get_eq B F Db bloom base L X data w u stands short (Cid.fromBytes cidBytes) with
          ⟨absent, got⟩ | ⟨found, there, got⟩
        · simp only [respond, absent, got]
          rfl
        · simp only [respond, there, got]
          rfl
  | storePut ptr len =>
    rw [storeOp_eq X] at known
    rw [hostCall, craftStorePut, withArgument_eq]
    simp only [asks] at known ⊢
    rcases (agentOf caller).argument_cases ptr len with read | read | ⟨_, bytes, -, -, read⟩ <;>
      simp only [read] at known ⊢
    · rfl
    · rfl
    · rw [stands.put_eq sound apart (known bytes rfl)]
      rfl
  | sqlQuery ptr len =>
    rw [hostCall, craftSqlQuery, withArgument_eq, asks]
    rcases (agentOf caller).argument_cases ptr len with read | read | ⟨_, bytes, -, -, read⟩ <;>
      simp only [read]
    · rfl
    · rfl
    · have decoded : (backends B bloom base L X w).fromUtf8 bytes = X.fromUtf8 bytes := rfl
      rw [decoded]
      cases X.fromUtf8 bytes with
      | none => rfl
      | some sql =>
        have ran := @Stands.runQuery_eq B F Db bloom base L X data w u stands caller sql
        simp only [respond, ← ran]
        rfl
  | sign ptr len =>
    rw [hostCall, craftSign, asks]
    by_cases limit : signRateLimit ≤ caller.signCount
    · rw [if_pos limit, if_pos (show signRateLimit ≤ (agentOf caller).signCount from limit)]
      rfl
    · rw [if_neg limit, if_neg (show ¬ signRateLimit ≤ (agentOf caller).signCount from limit),
        withArgument_eq]
      rcases (agentOf caller).argument_cases ptr len with read | read | ⟨_, bytes, -, -, read⟩ <;>
        simp only [read]
      · rfl
      · rfl
      · rfl
  | readResult dstPtr offset len => exact readResult_eq caller dstPtr offset len _ _
  | log level ptr len =>
    rw [hostCall, craftLog_eq]
    rfl

theorem Stands.storeAfter_eq (stands : Stands B bloom base data w u) (sound : NoFalseNegatives bloom)
    (apart : Set.InjOn (Cid.fromData B) data) (ask : Ask)
    (known : ∀ bytes, ask.storeOp = some (.put bytes) → bytes ∈ data) :
    Refines B bloom base ∅ (storeAfter B bloom base w.store ask.storeOp) (objectsAfter B u.objects ask) ∧
      ∀ cid bytes, objectsAfter B u.objects ask cid = some bytes → bytes ∈ data := by
  cases ask with
  | get cid => exact ⟨(refines_get stands.store cid).2, stands.stored⟩
  | put new =>
    have member := known new rfl
    refine ⟨(refines_put stands.store sound new fun _ there => stands.same apart member there).2, ?_⟩
    intro cid bytes there
    simp only [objectsAfter, Function.update_apply] at there
    split at there
    · cases there
      exact member
    · exact stands.stored cid bytes there
  | _ => exact ⟨stands.store, stands.stored⟩

variable {blank : F}

theorem Stands.update_agent (stands : Stands B bloom base data w u) (i : ℕ) {next : Option Caller}
    {next' : Option Agent} (same : next' = next.map agentOf) (j : ℕ) :
    Function.update u.agents i next' j = (Function.update w.agents i next j).map agentOf := by
  rcases eq_or_ne j i with rfl | other
  · rw [Function.update_self, Function.update_self, same]
  · rw [Function.update_of_ne other, Function.update_of_ne other, stands.agents]

/-- One step of the node is one step of the ideal node, with the same reply. -/
theorem perform_alike (sound : NoFalseNegatives bloom) (apart : Set.InjOn (Cid.fromData B) data)
    (short : ∀ bytes ∈ data, bytes.length < 2 ^ 63) (w : System F Db) (u : Ideal Db) (a : Step Db)
    (stands : Stands B bloom base data w u) (fair : Fair base data w a) :
    Alike (Stands B bloom base data) (perform B bloom base L X blank w a) (Ideal.perform X B L u a) := by
  cases a with
  | start i memory =>
    have agent := stands.agents i
    rw [perform, Ideal.perform, agent]
    cases w.agents i with
    | none => exact alike_some _ ⟨stands.store, stands.stored, stands.database, stands.update_agent i rfl⟩
    | some caller => exact .none
  | compute i memory =>
    have agent := stands.agents i
    rw [perform, Ideal.perform, agent]
    cases w.agents i with
    | none => exact .none
    | some caller =>
      rw [Option.map_some, Option.bind_some, Option.bind_some, agentOf]
      cases caller.memory with
      | none => exact .none
      | some old =>
        simp only [Option.map_some, Option.bind_some]
        split
        · exact alike_some _ ⟨stands.store, stands.stored, stands.database, stands.update_agent i rfl⟩
        · exact .none
  | call i c =>
    have agent := stands.agents i
    rw [perform, Ideal.perform, agent]
    cases found : w.agents i with
    | none => exact .none
    | some caller =>
      have known := fun bytes => fair caller bytes found
      have replied :=
        @Stands.hostCall_eq B F Db bloom base L X data w u stands sound apart short caller c known
      rw [Option.map_some, Option.map_some, Option.map_some, ← replied, storeOp_eq X,
        (reaches_eq X caller c).2]
      rw [storeOp_eq X] at known
      obtain ⟨refines, stored⟩ := stands.storeAfter_eq sound apart _ known
      refine alike_some _ ⟨refines, stored, ?_, stands.update_agent i rfl⟩
      rw [stands.database]
  | stop i => exact alike_some _ ⟨stands.store, stands.stored, stands.database, stands.update_agent i rfl⟩
  | outside op =>
    obtain ⟨walks, puts⟩ := fair
    have only (bytes found : Bytes) (isPut : op = .put bytes)
        (there : u.objects (Cid.fromData B bytes) = some found) : found = bytes :=
      stands.same apart (puts bytes isPut) there
    have refines := (refines_perform blank stands.store sound walks only).2
    refine alike_some _ ⟨refines, ?_, stands.database, stands.agents⟩
    intro cid bytes there
    cases op with
    | put new =>
      simp only [after, Function.update_apply] at there
      split at there
      · cases there
        exact puts _ rfl
      · exact stands.stored cid bytes there
    | delete gone =>
      simp only [after, Function.update_apply] at there
      split at there
      · cases there
      · exact stands.stored cid bytes there
    | _ => exact stands.stored cid bytes there
  | replace db =>
    refine alike_some _ ⟨stands.store, stands.stored, ?_, stands.agents⟩
    rw [stands.database]

/-- However the calls of the agents of a node are ordered, and whatever others store and delete
meanwhile, each call replies as it would over a map of objects, with the ranges that the agent means;
an agent is lost in a host call only if it is lost there too. -/
theorem agents_session (sound : NoFalseNegatives bloom) (apart : Set.InjOn (Cid.fromData B) data)
    (short : ∀ bytes ∈ data, bytes.length < 2 ^ 63) (start : Stands B bloom base data w u)
    (steps : List (Step Db)) (along : Along (perform B bloom base L X blank) (Fair base data) w steps) :
    Alike (Stands B bloom base data) (run (perform B bloom base L X blank) w steps)
      (run (Ideal.perform X B L) u steps) :=
  run_alike (perform_alike sound apart short) start along

end Calls

/-! Two agents, of which one stores a byte and the other reads it. -/

def noPackages : Packages :=
  ⟨fun _ => none, fun _ => ⟨List.replicate 64 0, List.length_replicate ..⟩, fun _ => none, fun _ => ""⟩

def sampleNode : System Unit ℕ := ⟨sampleStore, none, fun _ => none⟩

def sampleIdeal : Ideal ℕ := ⟨fun _ => none, none, fun _ => none⟩

def writerMemory : Buffer := ⟨[1], by decide⟩

def readerMemory : Buffer :=
  ⟨sample.asBytes ++ [0], by rw [List.length_append, sample.length_asBytes]; decide⟩

def startedNode : System Unit ℕ :=
  ⟨sampleStore, none,
    Function.update (Function.update (fun _ => none) 0 (some (hostState (some writerMemory)))) 1
      (some (hostState (some readerMemory)))⟩

theorem sample_stands :
    Stands Blake3.byLeading sureBloom ["objects"] { bytes | bytes = [1] } sampleNode sampleIdeal := by
  refine ⟨refines_vacant (fun _ _ => rfl) _ 1, ?_, rfl, fun _ => rfl⟩
  intro cid bytes there
  cases there

def sampleSteps : List (Step ℕ) :=
  [.start 0 (some writerMemory), .start 1 (some readerMemory), .call 0 (.storePut 0 1),
    .call 1 (.storeGet 0 32), .stop 0, .call 1 (.readResult 32 0 1), .call 1 (.readResult (-1) 0 1)]

theorem sample_along :
    Along (perform Blake3.byLeading sureBloom ["objects"] pageEngine noPackages ())
      (Fair ["objects"] { bytes | bytes = [1] }) sampleNode sampleSteps := by
  have reads {w : System Unit ℕ} {i : ℕ} {c : HostCall} (other : ∀ ptr len, c ≠ .storePut ptr len) :
      Fair ["objects"] { bytes | bytes = [1] } w (.call i c) := by
    intro caller bytes _ put
    exact (storeOp_ne_put caller other bytes put).elim
  have stores : Fair ["objects"] { bytes | bytes = [1] } startedNode (.call 0 (.storePut 0 1)) := by
    intro caller bytes running put
    cases running
    have stored : storeOp (hostState (some writerMemory)) (.storePut 0 1) = some (.put [1]) := rfl
    rw [stored] at put
    cases put
    rfl
  refine ⟨trivial, ?_⟩
  intro one started
  cases started
  refine ⟨trivial, ?_⟩
  intro one started
  cases started
  refine ⟨stores, fun _ _ => ⟨reads (by simp), fun _ _ => ⟨trivial, fun _ _ => ?_⟩⟩⟩
  exact ⟨reads (by simp), fun _ _ => ⟨reads (by simp), fun _ _ => trivial⟩⟩

theorem agents_session_of_two : ∃ last,
    run (perform Blake3.byLeading sureBloom ["objects"] pageEngine noPackages ()) sampleNode sampleSteps =
      some (last, [none, none, some (.value 32), some (.value 1), none, some (.value 1),
        some .panicked]) := by
  have alike := agents_session ⟨fun _ _ => rfl, fun _ _ _ _ => rfl⟩ (Set.injOn_singleton _ _)
    (by rintro bytes rfl; decide) sample_stands sampleSteps sample_along
  have replies : (run (Ideal.perform noPackages Blake3.byLeading pageEngine) sampleIdeal sampleSteps).map
      Prod.snd = some [none, none, some (.value 32), some (.value 1), none, some (.value 1),
        some .panicked] := by
    decide +kernel
  obtain ⟨⟨ideal, _⟩, ran, rfl⟩ := Option.map_eq_some_iff.mp replies
  rw [ran] at alike
  obtain ⟨last, ended, -⟩ := alike.of_some_right
  exact ⟨last, ended⟩

end Craftec.Com.Invocation
