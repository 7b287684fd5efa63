/- GID: Craftec/Com/Scheduler
   generality: I
   digest: The program scheduler: lifecycle calls and execution tasks over its three maps. -/

import Mathlib
import Craftec.Library.Run
import Craftec.Obj.Store
import Craftec.Types.Digest

set_option autoImplicit false
set_option relaxedAutoImplicit false

namespace Craftec.Com.Scheduler

open Craftec.Obj.Store (ObjError)
open Craftec.Types.Digest (Bytes Cid)

/-- The errors that the scheduler returns and that running an agent returns. -/
inductive ComError where
  | wasmCompilationFailed (message : String)
  | fuelExhausted (consumed limit : UInt64)
  | programNotFound (cid : Cid)
  | schedulerError (message : String)
  | runtimeConfigError (message : String)
  | entryPointNotFound (name : String)
  | trap (message : String)
  deriving DecidableEq

def ComError.display : ComError → String
  | .wasmCompilationFailed message => s!"WASM compilation failed: {message}"
  | .fuelExhausted consumed limit =>
    s!"fuel exhausted after consuming {consumed} units (limit: {limit})"
  | .programNotFound cid => s!"program not found: {cid.display}"
  | .schedulerError message => s!"scheduler error: {message}"
  | .runtimeConfigError message => s!"runtime configuration error: {message}"
  | .entryPointNotFound name => s!"entry point '{name}' not found in WASM module"
  | .trap message => s!"WASM trap: {message}"

inductive ProgramState where
  | loaded (wasmCid : Cid)
  | running (wasmCid : Cid)
  | stopped (wasmCid : Cid) (reason : String)
  | quarantined (wasmCid : Cid) (reason : String)
  deriving DecidableEq

def ProgramState.isRunning : ProgramState → Bool
  | .running _ => true
  | _ => false

def crashQuarantineThreshold : ℕ := 10

/-- Where an execution task stands. It is parked before its first poll and while it
sleeps, and on a thread at every other point: running the agent does not suspend it. -/
inductive Point where
  | spawned
  | executing
  | succeeded
  | crashed (e : ComError)
  | quarantining (e : ComError)
  | sleeping (millis : ℕ)
  | checking
  | leaving
  | finished
  deriving DecidableEq

structure Execution where
  cid : Cid
  wasmBytes : Bytes
  localCrashCount : ℕ
  aborted : Bool
  point : Point
  deriving DecidableEq

inductive Operation where
  | load (cid : Cid) (wasmBytes : Bytes)
  | start (cid : Cid)
  | stop (cid : Cid) (reason : String)

/-- Where a lifecycle call stands: each constructor names the step it takes next. -/
inductive Call where
  | loadCompile (cid : Cid) (wasmBytes : Bytes)
  | loadInsert (cid : Cid)
  | loadDone (cid : Cid) (result : Except ComError Unit)
  | startCheck (cid : Cid)
  | startGet (cid : Cid)
  | startInsert (cid : Cid) (wasmBytes : Bytes)
  | startReset (cid : Cid) (wasmBytes : Bytes)
  | startSpawn (cid : Cid) (wasmBytes : Bytes)
  | startHandle (cid : Cid) (task : ℕ)
  | startDone (cid : Cid) (result : Except ComError Unit)
  | stopCheck (cid : Cid) (reason : String)
  | stopRemove (cid : Cid) (reason : String)
  | stopAbort (cid : Cid) (reason : String) (task : ℕ)
  | stopInsert (cid : Cid) (reason : String)
  | stopDone (cid : Cid) (result : Except ComError Unit)
  deriving DecidableEq

def Operation.first : Operation → Call
  | .load cid wasmBytes => .loadCompile cid wasmBytes
  | .start cid => .startCheck cid
  | .stop cid reason => .stopCheck cid reason

/-- The maps of the scheduler, the tasks spawned and the calls made so far. A handle is
the number of its task. -/
structure State where
  programs : Cid → Option ProgramState
  taskHandles : Cid → Option ℕ
  crashCounts : Cid → Option ℕ
  tasks : List Execution
  calls : List Call

def State.new : State := ⟨fun _ => none, fun _ => none, fun _ => none, [], []⟩

namespace State

def insertProgram (s : State) (cid : Cid) (state : ProgramState) : State :=
  { s with programs := Function.update s.programs cid (some state) }

def insertCrashCount (s : State) (cid : Cid) (count : ℕ) : State :=
  { s with crashCounts := Function.update s.crashCounts cid (some count) }

/-- `JoinHandle::abort` marks the task; it is dropped when it is next found parked. -/
def abort (s : State) (task : ℕ) : State :=
  { s with tasks := s.tasks.modify task fun e => { e with aborted := true } }

end State

variable (compile : Bytes → Except String Unit)

/-- One step of a call. `answer` is what the store returns, if the step asks it. -/
def advance (s : State) (answer : Except ObjError (Option Bytes)) : Call → Option (State × Call)
  | .loadDone _ _ | .startDone _ _ | .stopDone _ _ => none
  | .loadCompile cid wasmBytes =>
    match compile wasmBytes with
    | .error message => some (s, .loadDone cid (.error (.wasmCompilationFailed message)))
    | .ok () => some (s, .loadInsert cid)
  | .loadInsert cid => some (s.insertProgram cid (.loaded cid), .loadDone cid (.ok ()))
  | .startCheck cid =>
    match s.programs cid with
    | none => some (s, .startDone cid (.error (.programNotFound cid)))
    | some (.running _) =>
      some (s, .startDone cid (.error (.schedulerError s!"program {cid.display} is already running")))
    | some (.quarantined _ _) =>
      some (s, .startDone cid (.error (.schedulerError s!"program {cid.display} is quarantined")))
    | some _ => some (s, .startGet cid)
  | .startGet cid =>
    match answer with
    | .error e =>
      some (s, .startDone cid (.error (.schedulerError s!"store error: {e.display}")))
    | .ok none =>
      some (s, .startDone cid
        (.error (.schedulerError s!"WASM binary not found in store: {cid.display}")))
    | .ok (some wasmBytes) => some (s, .startInsert cid wasmBytes)
  | .startInsert cid wasmBytes =>
    some (s.insertProgram cid (.running cid), .startReset cid wasmBytes)
  | .startReset cid wasmBytes => some (s.insertCrashCount cid 0, .startSpawn cid wasmBytes)
  | .startSpawn cid wasmBytes =>
    some ({ s with tasks := s.tasks ++ [⟨cid, wasmBytes, 0, false, .spawned⟩] },
      .startHandle cid s.tasks.length)
  | .startHandle cid task =>
    -- a handle that was there is dropped, which detaches its task
    some ({ s with taskHandles := Function.update s.taskHandles cid (some task) },
      .startDone cid (.ok ()))
  | .stopCheck cid reason =>
    match s.programs cid with
    | none => some (s, .stopDone cid (.error (.programNotFound cid)))
    | some _ => some (s, .stopRemove cid reason)
  | .stopRemove cid reason =>
    match s.taskHandles cid with
    | none => some (s, .stopInsert cid reason)
    | some task =>
      some ({ s with taskHandles := Function.update s.taskHandles cid none },
        .stopAbort cid reason task)
  | .stopAbort cid reason task => some (s.abort task, .stopInsert cid reason)
  | .stopInsert cid reason =>
    some (s.insertProgram cid (.stopped cid reason), .stopDone cid (.ok ()))

/-- How the run of an agent ends. A panic in a host call unwinds through the task. -/
inductive Outcome where
  | ok
  | error (e : ComError)
  | panicked
  deriving DecidableEq

/-- One step of a task. `outcome` is how running the agent ends, if it is run. -/
def poll (s : State) (outcome : Outcome) (e : Execution) : Option (State × Execution) :=
  match e.point with
  | .spawned => some (s, { e with point := if e.aborted then .finished else .executing })
  | .executing =>
    match outcome with
    | .ok => some (s, { e with localCrashCount := 0, point := .succeeded })
    -- the task is gone, and what the maps say of the program stays
    | .panicked => some (s, { e with point := .finished })
    | .error (.fuelExhausted _ _) => some (s, { e with point := .sleeping 100 })
    | .error err =>
      some (s, { e with localCrashCount := e.localCrashCount + 1, point := .crashed err })
  | .succeeded => some (s.insertCrashCount e.cid 0, { e with point := .sleeping 1000 })
  | .crashed err =>
    some (s.insertCrashCount e.cid e.localCrashCount,
      { e with point :=
          if crashQuarantineThreshold ≤ e.localCrashCount then .quarantining err
          else .sleeping (1000 * 2 ^ min e.localCrashCount 6) })
  | .quarantining err =>
    some (s.insertProgram e.cid (.quarantined e.cid
        s!"quarantined after {e.localCrashCount} consecutive crashes: {err.display}"),
      { e with point := .leaving })
  | .sleeping _ => some (s, { e with point := if e.aborted then .finished else .checking })
  | .checking =>
    some (s, { e with point :=
      if (s.programs e.cid).any ProgramState.isRunning then .executing else .leaving })
  | .leaving => some (s, { e with point := .finished })
  | .finished => none

inductive Label where
  | invoke (operation : Operation)
  | advance (i : ℕ) (answer : Except ObjError (Option Bytes))
  | poll (task : ℕ) (outcome : Outcome)

def step (s : State) : Label → Option State
  | .invoke operation => some { s with calls := s.calls ++ [operation.first] }
  | .advance i answer =>
    (s.calls[i]?.bind (advance compile s answer)).map fun moved =>
      { moved.1 with calls := s.calls.set i moved.2 }
  | .poll task outcome =>
    (s.tasks[task]?.bind (poll s outcome)).map fun moved =>
      { moved.1 with tasks := s.tasks.set task moved.2 }

/-! What a step can do. -/

/-- `start_program` refuses a program in this state. -/
def Barred : Option ProgramState → Prop
  | some (.running _) | some (.quarantined _ _) => True
  | _ => False

def Execution.Live (e : Execution) : Prop := e.aborted = false ∧ e.point ≠ .finished

instance (e : Execution) : Decidable e.Live := inferInstanceAs (Decidable (_ ∧ _))

/-- What a poll leaves alone: all but the crash counts, the point and the count of the
task itself, and the state of a program that is quarantined. -/
structure Polled (s : State) (e : Execution) (after : State) (next : Execution) : Prop where
  calls : after.calls = s.calls
  handles : after.taskHandles = s.taskHandles
  cid : next.cid = e.cid
  live : next.Live → e.Live
  programs : after.programs = s.programs ∨ ∃ err reason, e.point = .quarantining err ∧
    after.programs = Function.update s.programs e.cid (some (.quarantined e.cid reason))

inductive Turn (s : State) : Call → State → Call → Prop
  | rejects (cid : Cid) (wasmBytes : Bytes) (e : ComError) :
    Turn s (.loadCompile cid wasmBytes) s (.loadDone cid (.error e))
  | compiles (cid : Cid) (wasmBytes : Bytes) : Turn s (.loadCompile cid wasmBytes) s (.loadInsert cid)
  | loads (cid : Cid) :
    Turn s (.loadInsert cid) (s.insertProgram cid (.loaded cid)) (.loadDone cid (.ok ()))
  | refuses (cid : Cid) (e : ComError) : Turn s (.startCheck cid) s (.startDone cid (.error e))
  | passes (cid : Cid) (free : ¬ Barred (s.programs cid)) : Turn s (.startCheck cid) s (.startGet cid)
  | getFails (cid : Cid) (e : ComError) : Turn s (.startGet cid) s (.startDone cid (.error e))
  | gets (cid : Cid) (wasmBytes : Bytes) : Turn s (.startGet cid) s (.startInsert cid wasmBytes)
  | starts (cid : Cid) (wasmBytes : Bytes) :
    Turn s (.startInsert cid wasmBytes) (s.insertProgram cid (.running cid)) (.startReset cid wasmBytes)
  | resets (cid : Cid) (wasmBytes : Bytes) :
    Turn s (.startReset cid wasmBytes) (s.insertCrashCount cid 0) (.startSpawn cid wasmBytes)
  | spawns (cid : Cid) (wasmBytes : Bytes) :
    Turn s (.startSpawn cid wasmBytes)
      { s with tasks := s.tasks ++ [⟨cid, wasmBytes, 0, false, .spawned⟩] }
      (.startHandle cid s.tasks.length)
  | keeps (cid : Cid) (task : ℕ) :
    Turn s (.startHandle cid task)
      { s with taskHandles := Function.update s.taskHandles cid (some task) }
      (.startDone cid (.ok ()))
  | misses (cid : Cid) (reason : String) (e : ComError) :
    Turn s (.stopCheck cid reason) s (.stopDone cid (.error e))
  | finds (cid : Cid) (reason : String) : Turn s (.stopCheck cid reason) s (.stopRemove cid reason)
  | noHandle (cid : Cid) (reason : String) (gone : s.taskHandles cid = none) :
    Turn s (.stopRemove cid reason) s (.stopInsert cid reason)
  | takes (cid : Cid) (reason : String) (task : ℕ) (kept : s.taskHandles cid = some task) :
    Turn s (.stopRemove cid reason)
      { s with taskHandles := Function.update s.taskHandles cid none } (.stopAbort cid reason task)
  | aborts (cid : Cid) (reason : String) (task : ℕ) :
    Turn s (.stopAbort cid reason task) (s.abort task) (.stopInsert cid reason)
  | stops (cid : Cid) (reason : String) :
    Turn s (.stopInsert cid reason) (s.insertProgram cid (.stopped cid reason))
      (.stopDone cid (.ok ()))

section Steps

variable {compile} {s t : State}

theorem advance_turn {answer : Except ObjError (Option Bytes)} {call next : Call}
    (moved : advance compile s answer call = some (t, next)) : Turn s call t next := by
  cases call with
  | loadDone cid result | startDone cid result | stopDone cid result => cases moved
  | loadCompile cid wasmBytes =>
    dsimp only [advance] at moved
    split at moved
    · cases moved
      exact .rejects cid wasmBytes _
    · cases moved
      exact .compiles cid wasmBytes
  | loadInsert cid =>
    cases moved
    exact .loads cid
  | startCheck cid =>
    dsimp only [advance] at moved
    split at moved
    · cases moved
      exact .refuses cid _
    · cases moved
      exact .refuses cid _
    · cases moved
      exact .refuses cid _
    · rename_i state notRunning notQuarantined known
      cases moved
      refine .passes cid ?_
      rw [known]
      cases state with
      | running wasmCid => exact (notRunning wasmCid rfl).elim
      | quarantined wasmCid reason => exact (notQuarantined wasmCid reason rfl).elim
      | loaded wasmCid | stopped wasmCid reason => exact id
  | startGet cid =>
    dsimp only [advance] at moved
    split at moved
    · cases moved
      exact .getFails cid _
    · cases moved
      exact .getFails cid _
    · cases moved
      exact .gets cid _
  | startInsert cid wasmBytes =>
    cases moved
    exact .starts cid wasmBytes
  | startReset cid wasmBytes =>
    cases moved
    exact .resets cid wasmBytes
  | startSpawn cid wasmBytes =>
    cases moved
    exact .spawns cid wasmBytes
  | startHandle cid task =>
    cases moved
    exact .keeps cid task
  | stopCheck cid reason =>
    dsimp only [advance] at moved
    split at moved
    · cases moved
      exact .misses cid reason _
    · cases moved
      exact .finds cid reason
  | stopRemove cid reason =>
    dsimp only [advance] at moved
    split at moved
    · rename_i gone
      cases moved
      exact .noHandle cid reason gone
    · rename_i task kept
      cases moved
      exact .takes cid reason task kept
  | stopAbort cid reason task =>
    cases moved
    exact .aborts cid reason task
  | stopInsert cid reason =>
    cases moved
    exact .stops cid reason

theorem poll_polled {outcome : Outcome} {e next : Execution}
    (moved : poll s outcome e = some (t, next)) : Polled s e t next := by
  have stillLive {point : Point} (there : e.point = point) (unfinished : point ≠ .finished)
      (kept : next.aborted = e.aborted) (live : next.Live) : e.Live :=
    ⟨kept ▸ live.1, there ▸ unfinished⟩
  unfold poll at moved
  split at moved
  case h_2 there =>
    split at moved <;> cases moved <;>
      exact ⟨rfl, rfl, rfl, stillLive there (by simp) rfl, .inl rfl⟩
  case h_5 err there =>
    cases moved
    exact ⟨rfl, rfl, rfl, stillLive there (by simp) rfl, .inr ⟨err, _, there, rfl⟩⟩
  case h_9 there => cases moved
  all_goals
    rename_i there
    cases moved
    exact ⟨rfl, rfl, rfl, stillLive there (by simp) rfl, .inl rfl⟩

theorem of_step_advance {i : ℕ} {answer : Except ObjError (Option Bytes)}
    (taken : step compile s (.advance i answer) = some t) :
    ∃ call after next, s.calls[i]? = some call ∧ Turn s call after next ∧
      t = { after with calls := s.calls.set i next } := by
  obtain ⟨⟨after, next⟩, moved, rfl⟩ := Option.map_eq_some_iff.mp taken
  obtain ⟨call, made, moved⟩ := Option.bind_eq_some_iff.mp moved
  exact ⟨call, after, next, made, advance_turn moved, rfl⟩

theorem of_step_poll {task : ℕ} {outcome : Outcome}
    (taken : step compile s (.poll task outcome) = some t) :
    ∃ e after next, s.tasks[task]? = some e ∧ poll s outcome e = some (after, next) ∧
      t = { after with tasks := s.tasks.set task next } := by
  obtain ⟨⟨after, next⟩, moved, rfl⟩ := Option.map_eq_some_iff.mp taken
  obtain ⟨e, spawned, moved⟩ := Option.bind_eq_some_iff.mp moved
  exact ⟨e, after, next, spawned, moved, rfl⟩

theorem step_advance {i : ℕ} {answer : Except ObjError (Option Bytes)} {call next : Call}
    (made : s.calls[i]? = some call) (moved : advance compile s answer call = some (t, next)) :
    step compile s (.advance i answer) = some { t with calls := s.calls.set i next } := by
  rw [step, made, Option.bind_some, moved]
  rfl

theorem step_poll {task : ℕ} {outcome : Outcome} {e next : Execution}
    (spawned : s.tasks[task]? = some e) (moved : poll s outcome e = some (t, next)) :
    step compile s (.poll task outcome) = some { t with tasks := s.tasks.set task next } := by
  rw [step, spawned, Option.bind_some, moved]
  rfl

end Steps

end Craftec.Com.Scheduler
