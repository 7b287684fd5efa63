/- GID: Craftec/Rlnc/EngineRuns
   generality: I
   digest: Any number of coding calls on one engine: its permits, its counters and its results. -/

import Mathlib
import Craftec.Library.Run
import Craftec.Library.Tally
import Craftec.Rlnc.Engine
import Craftec.Rlnc.Reassembly

set_option autoImplicit false
set_option relaxedAutoImplicit false

namespace Craftec.Rlnc.EngineRuns

open Craftec.Library
open Craftec.Library.Run (Reach anyStep exists_reach mem_set_cases)
open Craftec.Library.Tally
open Craftec.Rlnc.Engine (EngineError engineRecode)
open Craftec.Types.Digest (Bytes Bytes32 Blake3)
open Craftec.Types.Piece (CodedPiece)

def maxConcurrency : ℕ := 8

inductive Job where
  | encode (data : Bytes) (k : ℕ) (vectors : ℕ → Bytes)
  | decode (k pieceSize : ℕ) (pieces : List CodedPiece)
  | recode (pieces : List CodedPiece) (scalars : Bytes)

inductive Output where
  | pieces (made : List CodedPiece)
  | data (bytes : Bytes)
  | piece (made : CodedPiece)

structure RlncMetrics where
  encodes : UInt64
  decodes : UInt64
  recodes : UInt64
  encodeBytes : UInt64
  deriving DecidableEq

/-- Where a call stands: each constructor names what it does next. -/
inductive Task where
  | acquire (job : Job)
  | work (job : Job)
  | count (job : Job) (output : Output)
  | countBytes (data : Bytes) (k : ℕ) (vectors : ℕ → Bytes) (output : Output)
  | release (job : Job) (result : Except EngineError Output)
  | returned (job : Job) (result : Except EngineError Output)
  | dropped (job : Job)

structure RlncEngine where
  permits : ℕ
  closed : Bool
  metrics : RlncMetrics
  tasks : List Task

def RlncEngine.new : RlncEngine := ⟨maxConcurrency, false, ⟨0, 0, 0, 0⟩, []⟩

variable (B : Blake3)

/-- What a call computes while it holds its permit. -/
def Job.run : Job → Except EngineError Output
  | .encode data k vectors => (Engine.encode B Binary64.rounded false data k vectors).map .pieces
  | .decode k pieceSize pieces => (Reassembly.decode false k pieceSize pieces).map .data
  | .recode pieces scalars => (engineRecode B false pieces scalars).map .piece

/-- The first counter a call raises, and what it does after that. -/
def count (m : RlncMetrics) (output : Output) : Job → RlncMetrics × Task
  | .encode data k vectors =>
    ({ m with encodes := m.encodes + 1 }, .countBytes data k vectors output)
  | .decode k pieceSize pieces =>
    ({ m with decodes := m.decodes + 1 }, .release (.decode k pieceSize pieces) (.ok output))
  | .recode pieces scalars =>
    ({ m with recodes := m.recodes + 1 }, .release (.recode pieces scalars) (.ok output))

/-- The next step of a call. A call waits while no permit is free; dropping its permit is the
last thing it does. -/
def advance (e : RlncEngine) : Task → Option (RlncEngine × Task)
  | .acquire job =>
    if e.closed then some (e, .returned job (.error .semaphoreError))
    else if e.permits = 0 then none
    else some ({ e with permits := e.permits - 1 }, .work job)
  | .work job =>
    match job.run B with
    | .ok output => some (e, .count job output)
    | .error err => some (e, .release job (.error err))
  | .count job output =>
    some ({ e with metrics := (count e.metrics output job).1 }, (count e.metrics output job).2)
  | .countBytes data k vectors output =>
    some ({ e with metrics :=
        { e.metrics with encodeBytes := e.metrics.encodeBytes + UInt64.ofNat data.length } },
      .release (.encode data k vectors) (.ok output))
  | .release job result => some ({ e with permits := e.permits + 1 }, .returned job result)
  | .returned _ _ | .dropped _ => none

inductive Label where
  | call (job : Job)
  | advance (i : ℕ)
  | drop (i : ℕ)

/-- Calls come in, take their steps in any order, and may be dropped while they wait. -/
def step (e : RlncEngine) : Label → Option RlncEngine
  | .call job => some { e with tasks := e.tasks ++ [.acquire job] }
  | .advance i =>
    match e.tasks[i]? with
    | none => none
    | some t => (advance B e t).map fun r => { r.1 with tasks := e.tasks.set i r.2 }
  | .drop i =>
    match e.tasks[i]? with
    | some (.acquire job) => some { e with tasks := e.tasks.set i (.dropped job) }
    | _ => none

section Weights

def Task.holds : Task → ℕ
  | .work _ | .count _ _ | .countBytes _ _ _ _ | .release _ _ => 1
  | _ => 0

def Task.over : Task → Bool
  | .returned _ _ | .dropped _ => true
  | _ => false

def Task.encodes : Task → ℕ
  | .countBytes _ _ _ _ => 1
  | .release (.encode _ _ _) (.ok _) | .returned (.encode _ _ _) (.ok _) => 1
  | _ => 0

def Task.decodes : Task → ℕ
  | .release (.decode _ _ _) (.ok _) | .returned (.decode _ _ _) (.ok _) => 1
  | _ => 0

def Task.recodes : Task → ℕ
  | .release (.recode _ _) (.ok _) | .returned (.recode _ _) (.ok _) => 1
  | _ => 0

def Task.encodeBytes : Task → ℕ
  | .release (.encode data _ _) (.ok _) | .returned (.encode data _ _) (.ok _) => data.length
  | _ => 0

def Task.Faithful : Task → Prop
  | .count job output => job.run B = .ok output
  | .countBytes data k vectors output => (Job.encode data k vectors).run B = .ok output
  | .release job result | .returned job result => job.run B = result
  | _ => True

end Weights

/-- The counters of an engine, from what its calls have done. -/
def counted (tasks : List Task) : RlncMetrics :=
  ⟨UInt64.ofNat (tally Task.encodes tasks), UInt64.ofNat (tally Task.decodes tasks),
    UInt64.ofNat (tally Task.recodes tasks), UInt64.ofNat (tally Task.encodeBytes tasks)⟩

structure Sound (e : RlncEngine) : Prop where
  permits : e.permits + tally Task.holds e.tasks = maxConcurrency
  opened : e.closed = false
  metrics : e.metrics = counted e.tasks
  faithful : ∀ t ∈ e.tasks, t.Faithful B

structure Turn (e : RlncEngine) (t : Task) (f : RlncEngine) (u : Task) : Prop where
  permits : f.permits + u.holds = e.permits + t.holds
  opened : f.closed = e.closed
  encodes : f.metrics.encodes + UInt64.ofNat t.encodes = e.metrics.encodes + UInt64.ofNat u.encodes
  decodes : f.metrics.decodes + UInt64.ofNat t.decodes = e.metrics.decodes + UInt64.ofNat u.decodes
  recodes : f.metrics.recodes + UInt64.ofNat t.recodes = e.metrics.recodes + UInt64.ofNat u.recodes
  bytes : f.metrics.encodeBytes + UInt64.ofNat t.encodeBytes =
    e.metrics.encodeBytes + UInt64.ofNat u.encodeBytes
  faithful : t.Faithful B → u.Faithful B

variable {B} {e f : RlncEngine} {t u : Task}

theorem Turn.still (holds : u.holds = t.holds) (encodes : u.encodes = t.encodes)
    (decodes : u.decodes = t.decodes) (recodes : u.recodes = t.recodes)
    (bytes : u.encodeBytes = t.encodeBytes) (faithful : t.Faithful B → u.Faithful B) :
    Turn B e t e u :=
  ⟨by rw [holds], rfl, by rw [encodes], by rw [decodes], by rw [recodes], by rw [bytes], faithful⟩

theorem advance_turn (opened : e.closed = false) (taken : advance B e t = some (f, u)) :
    Turn B e t f u := by
  cases t with
  | acquire job =>
    simp only [advance, opened, Bool.false_eq_true, if_false] at taken
    split at taken
    · cases taken
    · rename_i free
      cases taken
      refine ⟨?_, opened.symm, rfl, rfl, rfl, rfl, fun _ => trivial⟩
      change e.permits - 1 + 1 = e.permits + 0
      omega
  | work job =>
    simp only [advance] at taken
    split at taken
    · rename_i output done
      cases taken
      exact Turn.still rfl rfl rfl rfl rfl fun _ => done
    · rename_i err failed
      cases taken
      cases job with
      | encode => exact Turn.still rfl rfl rfl rfl rfl fun _ => failed
      | decode => exact Turn.still rfl rfl rfl rfl rfl fun _ => failed
      | recode => exact Turn.still rfl rfl rfl rfl rfl fun _ => failed
  | count job output =>
    cases job with
    | encode data k vectors =>
      cases taken
      exact ⟨rfl, rfl, by simp [count, Task.encodes], rfl, rfl, rfl, id⟩
    | decode k pieceSize pieces =>
      cases taken
      exact ⟨rfl, rfl, rfl, by simp [count, Task.decodes], rfl, rfl, id⟩
    | recode pieces scalars =>
      cases taken
      exact ⟨rfl, rfl, rfl, rfl, by simp [count, Task.recodes], rfl, id⟩
  | countBytes data k vectors output =>
    cases taken
    exact ⟨rfl, rfl, rfl, rfl, rfl, by simp [Task.encodeBytes], id⟩
  | release job result =>
    cases taken
    refine ⟨rfl, rfl, ?_, ?_, ?_, ?_, id⟩
    all_goals cases job <;> cases result <;> rfl
  | returned => cases taken
  | dropped => cases taken

theorem follow {w : Task → ℕ} {tasks : List Task} {i : ℕ} {before after : UInt64}
    (there : tasks[i]? = some t) (counts : before = UInt64.ofNat (tally w tasks))
    (moves : after + UInt64.ofNat (w t) = before + UInt64.ofNat (w u)) :
    after = UInt64.ofNat (tally w (tasks.set i u)) := by
  have total := congrArg UInt64.ofNat (tally_set (w := w) there u)
  rw [UInt64.ofNat_add, UInt64.ofNat_add, ← counts, ← moves] at total
  exact (add_right_cancel total).symm

theorem Sound.turn {i : ℕ} (sound : Sound B e) (there : e.tasks[i]? = some t)
    (turn : Turn B e t f u) : Sound B { f with tasks := e.tasks.set i u } := by
  have metrics := sound.metrics
  refine ⟨?_, turn.opened.trans sound.opened, ?_, ?_⟩
  · have total := tally_set (w := Task.holds) there u
    have permits := sound.permits
    have moves := turn.permits
    change f.permits + tally Task.holds (e.tasks.set i u) = maxConcurrency
    omega
  · have encodes := follow there (congrArg (·.encodes) metrics) turn.encodes
    have decodes := follow there (congrArg (·.decodes) metrics) turn.decodes
    have recodes := follow there (congrArg (·.recodes) metrics) turn.recodes
    have bytes := follow there (congrArg (·.encodeBytes) metrics) turn.bytes
    change f.metrics = counted (e.tasks.set i u)
    rw [counted, ← encodes, ← decodes, ← recodes, ← bytes]
  · intro v listed
    rcases mem_set_cases listed with rfl | ⟨j, -, place⟩
    · exact turn.faithful (sound.faithful t (List.mem_of_getElem? there))
    · exact sound.faithful v (List.mem_of_getElem? place)

theorem sound_step {label : Label} (sound : Sound B e) (taken : step B e label = some f) :
    Sound B f := by
  cases label with
  | call job =>
    cases taken
    refine ⟨?_, sound.opened, ?_, ?_⟩
    · rw [tally_concat]
      exact sound.permits
    · rw [counted, tally_concat, tally_concat, tally_concat, tally_concat]
      exact sound.metrics
    · intro t listed
      rcases List.mem_append.mp listed with old | new
      · exact sound.faithful t old
      · rw [List.mem_singleton.mp new]
        trivial
  | advance i =>
    simp only [step] at taken
    split at taken
    · cases taken
    · rename_i t there
      obtain ⟨⟨f', u⟩, moved, rfl⟩ := Option.map_eq_some_iff.mp taken
      exact sound.turn there (advance_turn sound.opened moved)
  | drop i =>
    simp only [step] at taken
    split at taken
    · rename_i job there
      cases taken
      exact sound.turn there (Turn.still rfl rfl rfl rfl rfl fun _ => trivial)
    · cases taken

theorem sound_new : Sound B RlncEngine.new :=
  ⟨rfl, rfl, rfl, fun _ listed => absurd listed List.not_mem_nil⟩

theorem sound_reach (reach : Reach (step B) anyStep RlncEngine.new e) : Sound B e :=
  reach.invariant sound_new fun _ _ _ sound _ taken => sound_step sound taken

theorem advance_of_holds (e : RlncEngine) (holding : 0 < t.holds) : ∃ r, advance B e t = some r := by
  cases t with
  | acquire | returned | dropped => cases holding
  | work job =>
    simp only [advance]
    split
    · exact ⟨_, rfl⟩
    · exact ⟨_, rfl⟩
  | count | countBytes | release => exact ⟨_, rfl⟩

theorem step_of_advance {i : ℕ} (there : e.tasks[i]? = some t) (moves : ∃ r, advance B e t = some r) :
    ∃ f, step B e (.advance i) = some f := by
  obtain ⟨r, moved⟩ := moves
  refine ⟨{ r.1 with tasks := e.tasks.set i r.2 }, ?_⟩
  simp only [step, there, moved, Option.map_some]

theorem Sound.progress (sound : Sound B e) (busy : t ∈ e.tasks) (unfinished : t.over = false) :
    ∃ i f, step B e (.advance i) = some f := by
  by_cases holding : 0 < tally Task.holds e.tasks
  · obtain ⟨u, listed, holds⟩ := exists_weight holding
    obtain ⟨i, there⟩ := List.mem_iff_getElem?.mp listed
    exact ⟨i, step_of_advance there (advance_of_holds e holds)⟩
  · have free : e.permits = 8 := by
      have permits := sound.permits
      rw [maxConcurrency] at permits
      omega
    obtain ⟨i, there⟩ := List.mem_iff_getElem?.mp busy
    refine ⟨i, step_of_advance there ?_⟩
    cases t with
    | acquire job =>
      simp only [advance, sound.opened, free]
      exact ⟨_, rfl⟩
    | returned | dropped => cases unfinished
    | work | count | countBytes | release =>
      exact advance_of_holds e (by simp [Task.holds])

/-- However the steps of any number of calls interleave, and whichever of them are dropped while
they wait: at most eight calls hold a permit, some call can move until all are over, every call
returns what its coding computes, and once all are over the eight permits are back and the
counters are the numbers of successful calls and the bytes they encoded, modulo `2 ^ 64`. -/
theorem engine_runs {B : Blake3} {e : RlncEngine}
    (reach : Reach (step B) anyStep RlncEngine.new e) :
    tally Task.holds e.tasks ≤ maxConcurrency ∧
      (∀ t ∈ e.tasks, t.over = false → ∃ i f, step B e (.advance i) = some f) ∧
      (∀ job result, .returned job result ∈ e.tasks → result = job.run B) ∧
      ((∀ t ∈ e.tasks, t.over = true) →
        e.permits = maxConcurrency ∧ e.metrics = counted e.tasks) := by
  have sound := sound_reach reach
  refine ⟨?_, fun t busy unfinished => sound.progress busy unfinished, ?_, ?_⟩
  · have permits := sound.permits
    omega
  · intro job result listed
    exact (sound.faithful _ listed).symm
  · intro ended
    refine ⟨?_, sound.metrics⟩
    have none_ : tally Task.holds e.tasks = 0 := by
      refine tally_eq_zero_iff.mpr fun t listed => ?_
      have ends := ended t listed
      cases t with
      | returned | dropped => rfl
      | _ => cases ends
    have permits := sound.permits
    omega

theorem engine_runs_three_calls :
    ∃ e, Reach (step Blake3.byLeading) anyStep RlncEngine.new e ∧ e.tasks.length = 3 ∧
      e.metrics = ⟨0, 0, 1, 0⟩ ∧ e.permits = maxConcurrency := by
  let piece := CodedPiece.new Blake3.byLeading ⟨Bytes32.fill 0⟩ [1, 0] [5] (Bytes32.fill 0)
  obtain ⟨e, reach, three, ended, recodes⟩ :
      ∃ e, Reach (step Blake3.byLeading) anyStep RlncEngine.new e ∧
        e.tasks.length = 3 ∧ (∀ t ∈ e.tasks, t.over = true) ∧ e.metrics = ⟨0, 0, 1, 0⟩ :=
    exists_reach _ _ [.call (.recode [piece] [3]), .call (.recode [piece, piece] [3, 4]),
      .call (.decode 1 1 [piece]), .advance 1, .advance 0, .advance 0, .advance 1, .advance 1, .drop 2,
      .advance 0, .advance 1] rfl
  exact ⟨e, reach, three, recodes, ((engine_runs reach).2.2.2 ended).1⟩

end Craftec.Rlnc.EngineRuns
