/- GID: Craftec/Health/Pipeline
   generality: I
   digest: The scanner's task and the repair executor's, the channel between them, and their shutdown. -/

import Mathlib
import Craftec.Health.Repair
import Craftec.Health.ScanCycle
import Craftec.Health.Scanner
import Craftec.Health.Tracker
import Craftec.Library.Chunks
import Craftec.Library.Run
import Craftec.Net.Swim
import Craftec.Types.Digest

set_option autoImplicit false
set_option relaxedAutoImplicit false

namespace Craftec.Health.Pipeline

open Craftec.Health.Repair (RepairRequest)
open Craftec.Health.ScanCycle
open Craftec.Health.Scanner (cid_evaluateCid evaluateCid)
open Craftec.Health.Tracker (PieceTracker)
open Craftec.Library.Chunks (count length_le_count_mul)
open Craftec.Library.Run (Halts Reach Reach.invariant anyStep exec halts_of_measure reach_of_exec
  reach_step)
open Craftec.Net.Swim (peerId)
open Craftec.Types.Digest (Cid NodeId)

/-- The room of the channel of repair requests. -/
def capacity : ℕ := 128

/-- Where `HealthScanner::run` is: in its `select!`, whose sleep may be over, or sending the requests
of a cycle, during which it does not listen for the shutdown. -/
inductive ScannerTask where
  | sleeping (s : HealthScanner) (elapsed : Bool)
  | sending (s : HealthScanner) (rest : List RepairRequest)
  | stopped

/-- Where the executor's task is: in its `select!`, or in `execute_repair`. -/
inductive ExecutorTask where
  | waiting
  | repairing (request : RepairRequest)
  | stopped

/-- The two tasks, the channel between them and whether the shutdown has been broadcast. `scanned`
and `executed` record the trackers the cycles met and the repairs that have returned. -/
structure Tasks where
  scanner : ScannerTask
  queue : List RepairRequest
  executor : ExecutorTask
  signalled : Bool
  scanned : List PieceTracker
  executed : List RepairRequest

def Tasks.new (s : HealthScanner) : Tasks := ⟨.sleeping s false, [], .waiting, false, [], []⟩

def ScannerTask.unsent : ScannerTask → List RepairRequest
  | .sending _ rest => rest
  | _ => []

def ExecutorTask.inHand : ExecutorTask → List RepairRequest
  | .repairing request => [request]
  | _ => []

def ScannerTask.ended : ScannerTask → Bool
  | .stopped => true
  | _ => false

def ExecutorTask.ended : ExecutorTask → Bool
  | .stopped => true
  | _ => false

def Tasks.ended (p : Tasks) : Bool := p.scanner.ended && p.executor.ended

inductive Label where
  /-- The sleep between two cycles ends. -/
  | elapse
  /-- A cycle, on the tracker as it is by then. -/
  | scan (tracker : PieceTracker)
  | send
  /-- A send fails as the receiver has been dropped. -/
  | closed
  /-- Every request of the cycle has been sent. -/
  | again
  | scannerStops
  | take
  /-- `execute_repair` returns, with or without an error. -/
  | repaired
  | executorStops
  | shutdown
  /-- Five seconds after the shutdown the tasks that are left are aborted. -/
  | abort

def cycled (p : Tasks) (s : HealthScanner) (tracker : PieceTracker) : Tasks :=
  match scanCycle s tracker with
  | none => { p with scanner := .stopped }
  | some cycle =>
    { p with scanner := .sending (s.advance cycle) cycle.repairs, scanned := p.scanned ++ [tracker] }

def step (p : Tasks) : Label → Option Tasks
  | .elapse =>
    match p.scanner with
    | .sleeping s false => some { p with scanner := .sleeping s true }
    | _ => none
  | .scan tracker =>
    match p.scanner with
    | .sleeping s true => some (cycled p s tracker)
    | _ => none
  | .send =>
    match p.scanner with
    | .sending s (request :: rest) =>
      if p.executor.ended = false ∧ p.queue.length < capacity then
        some { p with scanner := .sending s rest, queue := p.queue ++ [request] }
      else none
    | _ => none
  | .closed =>
    match p.scanner with
    | .sending _ (_ :: _) => if p.executor.ended then some { p with scanner := .stopped } else none
    | _ => none
  | .again =>
    match p.scanner with
    | .sending s [] => some { p with scanner := .sleeping s false }
    | _ => none
  | .scannerStops =>
    match p.scanner with
    | .sleeping _ _ => if p.signalled then some { p with scanner := .stopped } else none
    | _ => none
  | .take =>
    match p.executor, p.queue with
    | .waiting, request :: rest => some { p with executor := .repairing request, queue := rest }
    | _, _ => none
  | .repaired =>
    match p.executor with
    | .repairing request =>
      some { p with executor := .waiting, executed := p.executed ++ [request] }
    | _ => none
  | .executorStops =>
    match p.executor with
    | .waiting => if p.signalled then some { p with executor := .stopped, queue := [] } else none
    | _ => none
  | .shutdown => if p.signalled then none else some { p with signalled := true }
  | .abort =>
    if p.signalled ∧ p.ended = false then
      some { p with scanner := .stopped, executor := .stopped, queue := [] }
    else none

/-- A `select!` that can take the signal does not sleep through another interval. -/
def Prompt (p : Tasks) (l : Label) : Prop := p.signalled = true → l ≠ .elapse

inductive Move (p : Tasks) : Label → Tasks → Prop where
  | elapse {s : HealthScanner} (here : p.scanner = .sleeping s false) :
      Move p .elapse { p with scanner := .sleeping s true }
  | scan {s : HealthScanner} {tracker : PieceTracker} (here : p.scanner = .sleeping s true) :
      Move p (.scan tracker) (cycled p s tracker)
  | send {s : HealthScanner} {request : RepairRequest} {rest : List RepairRequest}
      (here : p.scanner = .sending s (request :: rest)) (open_ : p.executor.ended = false)
      (room : p.queue.length < capacity) :
      Move p .send { p with scanner := .sending s rest, queue := p.queue ++ [request] }
  | closed {s : HealthScanner} {request : RepairRequest} {rest : List RepairRequest}
      (here : p.scanner = .sending s (request :: rest)) (gone : p.executor.ended = true) :
      Move p .closed { p with scanner := .stopped }
  | again {s : HealthScanner} (here : p.scanner = .sending s []) :
      Move p .again { p with scanner := .sleeping s false }
  | scannerStops {s : HealthScanner} {elapsed : Bool} (here : p.scanner = .sleeping s elapsed)
      (signalled : p.signalled = true) : Move p .scannerStops { p with scanner := .stopped }
  | take {request : RepairRequest} {rest : List RepairRequest} (here : p.executor = .waiting)
      (queued : p.queue = request :: rest) :
      Move p .take { p with executor := .repairing request, queue := rest }
  | repaired {request : RepairRequest} (here : p.executor = .repairing request) :
      Move p .repaired { p with executor := .waiting, executed := p.executed ++ [request] }
  | executorStops (here : p.executor = .waiting) (signalled : p.signalled = true) :
      Move p .executorStops { p with executor := .stopped, queue := [] }
  | shutdown (before : p.signalled = false) : Move p .shutdown { p with signalled := true }
  | abort (signalled : p.signalled = true) (left : p.ended = false) :
      Move p .abort { p with scanner := .stopped, executor := .stopped, queue := [] }

theorem step_move {p q : Tasks} {l : Label} (taken : step p l = some q) : Move p l q := by
  cases l with
  | elapse =>
    simp only [step] at taken
    split at taken
    · rename_i here
      cases taken
      exact .elapse here
    · cases taken
  | scan tracker =>
    simp only [step] at taken
    split at taken
    · rename_i here
      cases taken
      exact .scan here
    · cases taken
  | send =>
    simp only [step] at taken
    split at taken
    · rename_i here
      split at taken
      · rename_i can
        cases taken
        exact .send here can.1 can.2
      · cases taken
    · cases taken
  | closed =>
    simp only [step] at taken
    split at taken
    · rename_i here
      split at taken
      · rename_i gone
        cases taken
        exact .closed here gone
      · cases taken
    · cases taken
  | again =>
    simp only [step] at taken
    split at taken
    · rename_i here
      cases taken
      exact .again here
    · cases taken
  | scannerStops =>
    simp only [step] at taken
    split at taken
    · rename_i here
      split at taken
      · rename_i signalled
        cases taken
        exact .scannerStops here signalled
      · cases taken
    · cases taken
  | take =>
    simp only [step] at taken
    split at taken
    · rename_i here queued
      cases taken
      exact .take here queued
    · cases taken
  | repaired =>
    simp only [step] at taken
    split at taken
    · rename_i here
      cases taken
      exact .repaired here
    · cases taken
  | executorStops =>
    simp only [step] at taken
    split at taken
    · rename_i here
      split at taken
      · rename_i signalled
        cases taken
        exact .executorStops here signalled
      · cases taken
    · cases taken
  | shutdown =>
    simp only [step] at taken
    split at taken
    · cases taken
    · rename_i before
      cases taken
      exact .shutdown (by simpa using before)
  | abort =>
    simp only [step] at taken
    split at taken
    · rename_i can
      cases taken
      exact .abort can.1 can.2
    · cases taken

section Cycles

theorem scanCycle_repairs {s : HealthScanner} {tracker : PieceTracker} {cycle : Cycle}
    (ran : scanCycle s tracker = some cycle) :
    cycle.repairs = cycle.batch.filterMap (evaluateCid tracker) := by
  unfold scanCycle at ran
  split at ran
  · cases ran
    rfl
  · simp only at ran
    split at ran
    · cases ran
      rfl
    · simp only [Option.bind_eq_bind, Option.bind_eq_some_iff] at ran
      obtain ⟨batch, _, wrapped, _, same⟩ := ran
      cases same
      rfl

theorem exists_scanCycle (s : HealthScanner) (tracker : PieceTracker) :
    ∃ cycle, scanCycle s tracker = some cycle := by
  by_cases nothing : eligibleCids tracker s.nodeId = []
  · unfold scanCycle
    split
    · exact ⟨_, rfl⟩
    · exact ⟨_, if_pos nothing⟩
  · obtain ⟨repairs, ran⟩ := scanCycle_eq rfl nothing
    exact ⟨_, ran⟩

theorem scanCycles_concat {s : HealthScanner} {trackers : List PieceTracker} {cycles : List Cycle}
    {tracker : PieceTracker} {cycle : Cycle} (before : scanCycles s trackers = some cycles)
    (last : scanCycle (cycles.foldl HealthScanner.advance s) tracker = some cycle) :
    scanCycles s (trackers ++ [tracker]) = some (cycles ++ [cycle]) := by
  induction trackers generalizing s cycles with
  | nil =>
    cases before
    exact scanCycles_of_first last rfl
  | cons first rest ih =>
    simp only [scanCycles, Option.bind_eq_bind, Option.bind_eq_some_iff] at before
    obtain ⟨one, ran, later, onward, same⟩ := before
    cases same
    exact scanCycles_of_first ran (ih onward last)

theorem scanCycles_repairs {s : HealthScanner} {trackers : List PieceTracker} {cycles : List Cycle}
    (ran : scanCycles s trackers = some cycles) :
    ∀ cycle ∈ cycles, ∃ tracker ∈ trackers,
      cycle.repairs = cycle.batch.filterMap (evaluateCid tracker) := by
  induction trackers generalizing s cycles with
  | nil =>
    cases ran
    intro cycle listed
    cases listed
  | cons first rest ih =>
    simp only [scanCycles, Option.bind_eq_bind, Option.bind_eq_some_iff] at ran
    obtain ⟨one, ran, later, onward, same⟩ := ran
    cases same
    intro cycle listed
    rcases List.mem_cons.mp listed with rfl | after
    · exact ⟨first, List.mem_cons_self, scanCycle_repairs ran⟩
    · obtain ⟨tracker, met, repairs⟩ := ih onward cycle after
      exact ⟨tracker, List.mem_cons_of_mem _ met, repairs⟩

theorem exists_request {s : HealthScanner} {trackers : List PieceTracker} {cycles : List Cycle}
    {cids : List Cid} {cid : Cid} (ran : scanCycles s trackers = some cycles)
    (fixed : ∀ tracker ∈ trackers, eligibleCids tracker s.nodeId = cids) (listed : cid ∈ cids)
    (need : ∀ tracker ∈ trackers, evaluateCid tracker cid ≠ none)
    (enough : count (batchSize cids.length s.scanPercent) cids.length ≤ trackers.length) :
    ∃ request ∈ cycles.flatMap Cycle.repairs, request.cid = cid := by
  have wide := one_le_batchSize cids.length s.scanPercent
  obtain ⟨cycles', ran', batches⟩ := scanCycles_fixed (List.ne_nil_of_mem listed) trackers fixed
  obtain rfl : cycles = cycles' := Option.some.inj (ran.symm.trans ran')
  obtain ⟨t, below, evaluated⟩ := exists_mem_window listed 0 (length_le_count_mul wide)
  have there : window s cids (0 + t) ∈ cycles.map Cycle.batch := by
    rw [batches]
    exact List.mem_map.mpr ⟨t, List.mem_range.mpr (by omega), by rw [Nat.zero_add]⟩
  obtain ⟨cycle, made, batch⟩ := List.mem_map.mp there
  obtain ⟨tracker, met, repairs⟩ := scanCycles_repairs ran cycle made
  obtain ⟨request, asks⟩ := Option.ne_none_iff_exists'.mp (need tracker met)
  refine ⟨request, List.mem_flatMap.mpr ⟨cycle, made, ?_⟩, cid_evaluateCid asks⟩
  rw [repairs, batch]
  exact List.mem_filterMap.mpr ⟨cid, evaluated, asks⟩

end Cycles

section Order

def ScannerTask.held : ScannerTask → Option HealthScanner
  | .sleeping s _ | .sending s _ => some s
  | .stopped => none

/-- What is known after some cycles: the scanner is where they leave it, the requests they returned
are, in order, the executed one, the one in hand, the queued ones and the unsent ones while there is
an executor, and neither task is over before the shutdown. -/
structure Sound (s₀ : HealthScanner) (cycles : List Cycle) (p : Tasks) : Prop where
  ran : scanCycles s₀ p.scanned = some cycles
  cursor : ∀ s, p.scanner.held = some s → s = cycles.foldl HealthScanner.advance s₀
  room : p.queue.length ≤ capacity
  order : p.executor.ended = false →
    cycles.flatMap Cycle.repairs = p.executed ++ p.executor.inHand ++ p.queue ++ p.scanner.unsent
  first : p.executed <+: cycles.flatMap Cycle.repairs
  scannerEnds : p.scanner.ended = true → p.signalled = true
  executorEnds : p.executor.ended = true → p.signalled = true

variable {s₀ : HealthScanner} {cycles : List Cycle} {p q : Tasks}

theorem sound_new (s₀ : HealthScanner) : Sound s₀ [] (.new s₀) where
  ran := rfl
  cursor s held := (Option.some.inj held).symm
  room := Nat.zero_le _
  order _ := rfl
  first := List.prefix_rfl
  scannerEnds ended := by cases ended
  executorEnds ended := by cases ended

theorem move_sound {l : Label} (sound : Sound s₀ cycles p) (moved : Move p l q) :
    ∃ later, Sound s₀ (cycles ++ later) q := by
  cases moved with
  | elapse here =>
    refine ⟨[], ?_⟩
    rw [List.append_nil]
    have held := sound.cursor _ (by rw [here]; rfl)
    refine ⟨sound.ran, fun s same => ?_, sound.room, fun alive => ?_, sound.first, ?_,
      sound.executorEnds⟩
    · rw [← Option.some.inj same]
      exact held
    · rw [sound.order alive, here]
      rfl
    · intro ended
      cases ended
  | @scan s tracker here =>
    obtain ⟨cycle, ran⟩ := exists_scanCycle s tracker
    obtain rfl := sound.cursor s (by rw [here]; rfl)
    refine ⟨[cycle], ?_⟩
    simp only [cycled, ran]
    refine ⟨scanCycles_concat sound.ran ran, fun s same => ?_, sound.room, fun alive => ?_, ?_, ?_,
      sound.executorEnds⟩
    · rw [List.foldl_append]
      exact (Option.some.inj same).symm
    · have before := sound.order alive
      rw [here] at before
      simp only [List.flatMap_append, List.flatMap_cons, List.flatMap_nil, List.append_nil, before,
        ScannerTask.unsent]
    · rw [List.flatMap_append]
      exact sound.first.trans (List.prefix_append _ _)
    · intro ended
      cases ended
  | @send s request rest here open_ room =>
    refine ⟨[], ?_⟩
    rw [List.append_nil]
    refine ⟨sound.ran, fun s same => sound.cursor s (by rw [here]; exact same), ?_, fun alive => ?_,
      sound.first, ?_, sound.executorEnds⟩
    · rw [List.length_append, List.length_singleton]
      exact room
    · rw [sound.order alive, here]
      simp only [ScannerTask.unsent, List.append_assoc, List.cons_append, List.nil_append]
    · intro ended
      cases ended
  | closed here gone =>
    refine ⟨[], ?_⟩
    rw [List.append_nil]
    refine ⟨sound.ran, ?_, sound.room, fun alive => ?_, sound.first, fun _ => sound.executorEnds gone,
      sound.executorEnds⟩
    · intro s same
      cases same
    · exact absurd (gone.symm.trans alive) (by decide)
  | again here =>
    refine ⟨[], ?_⟩
    rw [List.append_nil]
    refine ⟨sound.ran, fun s same => sound.cursor s (by rw [here]; exact same), sound.room,
      fun alive => ?_, sound.first, ?_, sound.executorEnds⟩
    · rw [sound.order alive, here]
      rfl
    · intro ended
      cases ended
  | scannerStops here signalled =>
    refine ⟨[], ?_⟩
    rw [List.append_nil]
    refine ⟨sound.ran, ?_, sound.room, fun alive => ?_, sound.first, fun _ => signalled,
      sound.executorEnds⟩
    · intro s same
      cases same
    · rw [sound.order alive, here]
      rfl
  | take here queued =>
    refine ⟨[], ?_⟩
    rw [List.append_nil]
    have order := sound.order (by rw [here]; rfl)
    have room := sound.room
    rw [queued] at room
    refine ⟨sound.ran, sound.cursor, Nat.le_of_succ_le room, fun _ => ?_, sound.first,
      sound.scannerEnds, ?_⟩
    · rw [order, here, queued]
      simp only [ExecutorTask.inHand, List.append_nil, List.append_assoc, List.cons_append,
        List.nil_append]
    · intro ended
      cases ended
  | repaired here =>
    refine ⟨[], ?_⟩
    rw [List.append_nil]
    have order := sound.order (by rw [here]; rfl)
    rw [here] at order
    refine ⟨sound.ran, sound.cursor, sound.room, fun _ => ?_, ?_, sound.scannerEnds, ?_⟩
    · rw [order]
      simp only [ExecutorTask.inHand, List.append_nil]
    · rw [order]
      simp only [ExecutorTask.inHand, List.append_assoc]
      exact ⟨_, List.append_assoc _ _ _⟩
    · intro ended
      cases ended
  | executorStops here signalled =>
    refine ⟨[], ?_⟩
    rw [List.append_nil]
    refine ⟨sound.ran, sound.cursor, Nat.zero_le _, fun alive => ?_, sound.first, sound.scannerEnds,
      fun _ => signalled⟩
    cases alive
  | shutdown before =>
    refine ⟨[], ?_⟩
    rw [List.append_nil]
    exact ⟨sound.ran, sound.cursor, sound.room, sound.order, sound.first, fun _ => rfl, fun _ => rfl⟩
  | abort signalled left =>
    refine ⟨[], ?_⟩
    rw [List.append_nil]
    refine ⟨sound.ran, ?_, Nat.zero_le _, fun alive => ?_, sound.first, fun _ => signalled,
      fun _ => signalled⟩
    · intro s same
      cases same
    · cases alive

theorem reach_sound {guard : Tasks → Label → Prop} (reach : Reach step guard (.new s₀) p) :
    ∃ cycles, Sound s₀ cycles p := by
  refine @Reach.invariant _ _ step guard (fun u => ∃ cycles, Sound s₀ cycles u) _ _ reach
    ⟨[], sound_new s₀⟩ ?_
  rintro u l v ⟨cycles, sound⟩ - taken
  obtain ⟨later, sound'⟩ := move_sound sound (step_move taken)
  exact ⟨_, sound'⟩

end Order

/-- Under any interleaving of the two tasks, a shutdown and its abort included: the requests that have
been executed are the first ones the scanner's cycles returned, in order and each once; while there
is an executor none is lost between the cycles and the executor, and the channel never holds more than
it has room for. A content that stays eligible and in need has its request among them once the
cycles have gone round the list. -/
theorem repairs_in_order {s₀ : HealthScanner} {p : Tasks} (reach : Reach step anyStep (.new s₀) p) :
    ∃ cycles, scanCycles s₀ p.scanned = some cycles ∧ p.queue.length ≤ capacity ∧
      p.executed <+: cycles.flatMap Cycle.repairs ∧
      (p.executor.ended = false → cycles.flatMap Cycle.repairs =
        p.executed ++ p.executor.inHand ++ p.queue ++ p.scanner.unsent ∧
        ∀ cids, (∀ tracker ∈ p.scanned, eligibleCids tracker s₀.nodeId = cids) →
          count (batchSize cids.length s₀.scanPercent) cids.length ≤ p.scanned.length →
          ∀ cid ∈ cids, (∀ tracker ∈ p.scanned, evaluateCid tracker cid ≠ none) →
            ∃ request ∈ p.executed ++ p.executor.inHand ++ p.queue ++ p.scanner.unsent,
              request.cid = cid) := by
  obtain ⟨cycles, sound⟩ := reach_sound reach
  refine ⟨cycles, sound.ran, sound.room, sound.first, fun alive => ⟨sound.order alive, ?_⟩⟩
  intro cids fixed enough cid listed need
  rw [← sound.order alive]
  exact exists_request sound.ran fixed listed need enough

section Shutdown

def ScannerTask.mayScan : ScannerTask → ℕ
  | .sleeping _ true => 1
  | _ => 0

/-- An upper bound of the steps left to the scanner, of which each send makes two for the executor. -/
def ScannerTask.work : ScannerTask → ℕ
  | .sleeping _ _ => 1
  | .sending _ rest => 2 + 3 * rest.length
  | .stopped => 0

def ExecutorTask.work : ExecutorTask → ℕ
  | .waiting => 1
  | .repairing _ => 2
  | .stopped => 0

def Tasks.remaining (p : Tasks) : ℕ × ℕ :=
  (p.scanner.mayScan, p.scanner.work + 2 * p.queue.length + p.executor.work)

variable {p q : Tasks}

theorem ScannerTask.work_pos {t : ScannerTask} (running : t.ended = false) : 0 < t.work := by
  cases t with
  | sleeping s elapsed => exact Nat.one_pos
  | sending s rest =>
    simp only [ScannerTask.work]
    omega
  | stopped => cases running

theorem ExecutorTask.work_pos {t : ExecutorTask} (running : t.ended = false) : 0 < t.work := by
  cases t with
  | waiting => exact Nat.one_pos
  | repairing request => exact Nat.two_pos
  | stopped => cases running

theorem remaining_lower (scans : q.scanner.mayScan ≤ p.scanner.mayScan)
    (less : q.scanner.work + 2 * q.queue.length + q.executor.work <
      p.scanner.work + 2 * p.queue.length + p.executor.work) :
    Prod.Lex (· < ·) (· < ·) q.remaining p.remaining := by
  rcases Nat.lt_or_eq_of_le scans with fewer | same
  · exact .left _ _ fewer
  · exact Prod.lex_def.mpr (.inr ⟨same, less⟩)

theorem move_lower {l : Label} (signalled : p.signalled = true) (prompt : Prompt p l)
    (moved : Move p l q) :
    q.signalled = true ∧ Prod.Lex (· < ·) (· < ·) q.remaining p.remaining := by
  cases moved with
  | elapse here => exact absurd rfl (prompt signalled)
  | @scan s tracker here =>
    obtain ⟨cycle, ran⟩ := exists_scanCycle s tracker
    simp only [cycled, ran]
    refine ⟨signalled, .left _ _ ?_⟩
    rw [here]
    exact Nat.one_pos
  | @send s request rest here open_ room =>
    refine ⟨signalled, remaining_lower (Nat.zero_le _) ?_⟩
    simp only [here, ScannerTask.work, List.length_append, List.length_cons, List.length_nil]
    omega
  | closed here gone =>
    refine ⟨signalled, remaining_lower (Nat.zero_le _) ?_⟩
    simp only [here, ScannerTask.work]
    omega
  | again here =>
    refine ⟨signalled, remaining_lower (Nat.zero_le _) ?_⟩
    simp only [here, ScannerTask.work, List.length_nil]
    omega
  | scannerStops here _ =>
    refine ⟨signalled, remaining_lower (Nat.zero_le _) ?_⟩
    simp only [here, ScannerTask.work]
    omega
  | take here queued =>
    refine ⟨signalled, remaining_lower le_rfl ?_⟩
    simp only [here, queued, ExecutorTask.work, List.length_cons]
    omega
  | repaired here =>
    refine ⟨signalled, remaining_lower le_rfl ?_⟩
    simp only [here, ExecutorTask.work]
    omega
  | executorStops here _ =>
    refine ⟨signalled, remaining_lower le_rfl ?_⟩
    simp only [here, ExecutorTask.work, List.length_nil]
    omega
  | shutdown before => exact absurd (before.symm.trans signalled) (by decide)
  | abort _ left =>
    refine ⟨signalled, remaining_lower (Nat.zero_le _) ?_⟩
    change 0 < _
    rcases Bool.and_eq_false_iff.mp left with running | running
    · have some_ := ScannerTask.work_pos running
      omega
    · have some_ := ExecutorTask.work_pos running
      omega

theorem halts_of_signalled (signalled : p.signalled = true) : Halts step Prompt p :=
  halts_of_measure (Prod.lex Nat.lt_wfRel Nat.lt_wfRel).wf Tasks.remaining
    (fun _ _ _ before prompt taken => move_lower before prompt (step_move taken)) signalled

theorem exists_step (signalled : p.signalled = true) (left : p.ended = false) :
    ∃ l q, l ≠ .abort ∧ Prompt p l ∧ step p l = some q := by
  have found (l : Label) (other : l ≠ .abort) (awake : l ≠ .elapse) (can : (step p l).isSome = true) :
      ∃ l q, l ≠ .abort ∧ Prompt p l ∧ step p l = some q := by
    obtain ⟨q, taken⟩ := Option.isSome_iff_exists.mp can
    exact ⟨l, q, other, fun _ => awake, taken⟩
  cases atExecutor : p.executor with
  | waiting => exact found .executorStops (by simp) (by simp) (by simp [step, atExecutor, signalled])
  | repairing request => exact found .repaired (by simp) (by simp) (by simp [step, atExecutor])
  | stopped =>
    cases atScanner : p.scanner with
    | sleeping s elapsed =>
      exact found .scannerStops (by simp) (by simp) (by simp [step, atScanner, signalled])
    | sending s rest =>
      cases rest with
      | nil => exact found .again (by simp) (by simp) (by simp [step, atScanner])
      | cons request rest =>
        refine found .closed (by simp) (by simp) ?_
        simp [step, atScanner, atExecutor, ExecutorTask.ended]
    | stopped =>
      simp only [Tasks.ended, atScanner, atExecutor, ScannerTask.ended, ExecutorTask.ended,
        Bool.and_self, Bool.true_eq_false] at left

end Shutdown

theorem scanCycle_fourContents : ∃ cycle, scanCycle (.new (peerId 0)) fourContents = some cycle ∧
    cycle.repairs = [.critical (content 1) 2 32] := by
  obtain ⟨repairs, ran⟩ := @scanCycle_eq (.new (peerId 0)) fourContents _ eligible_fourContents (by simp)
  have size : batchSize 4 (HealthScanner.new (peerId 0)).scanPercent = 1 := batchSize_small.1
  have short : evaluateCid fourContents (content 1) = some (.critical (content 1) 2 32) := by
    decide +kernel
  refine ⟨_, ran, ?_⟩
  rw [scanCycle_repairs ran]
  change List.filterMap _ (List.take (batchSize 4 _) _) = _
  rw [size]
  change List.filterMap _ [content 1] = _
  rw [List.filterMap_cons, short]
  rfl

theorem reach_fourContents : ∃ s, Reach step anyStep (.new (.new (peerId 0)))
    ⟨.sending s [.critical (content 1) 2 32], [], .waiting, false, [fourContents], []⟩ := by
  obtain ⟨cycle, ran, asks⟩ := scanCycle_fourContents
  have begins : step (.new (.new (peerId 0))) .elapse =
      some ⟨.sleeping (.new (peerId 0)) true, [], .waiting, false, [], []⟩ := rfl
  have scans : step ⟨.sleeping (.new (peerId 0)) true, [], .waiting, false, [], []⟩ (.scan fourContents) =
      some ⟨.sending (HealthScanner.advance (.new (peerId 0)) cycle) [.critical (content 1) 2 32], [],
        .waiting, false, [fourContents], []⟩ := by
    simp only [step, cycled, ran, asks, List.nil_append]
  exact ⟨_, (reach_step trivial begins).trans (reach_step trivial scans)⟩

theorem repairs_in_order_first : ∃ p, Reach step anyStep (.new (.new (peerId 0))) p ∧
    p.executed = [.critical (content 1) 2 32] ∧
    ∃ cycles, scanCycles (.new (peerId 0)) p.scanned = some cycles ∧
      p.executed <+: cycles.flatMap Cycle.repairs := by
  obtain ⟨s, found⟩ := reach_fourContents
  have reach : Reach step anyStep (.new (.new (peerId 0)))
      ⟨.sending s [], [], .waiting, false, [fourContents], [.critical (content 1) 2 32]⟩ :=
    found.trans (reach_of_exec (show exec step anyStep _ [.send, .take, .repaired] = _ from rfl))
  obtain ⟨cycles, scans, _, first, _⟩ := repairs_in_order reach
  exact ⟨_, reach, rfl, cycles, scans, first⟩

end Craftec.Health.Pipeline
