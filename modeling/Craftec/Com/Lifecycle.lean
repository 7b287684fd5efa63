/- GID: Craftec/Com/Lifecycle
   generality: I
   digest: When a program has one task only, and when quarantine and stop are final. -/

import Mathlib
import Craftec.Com.Scheduler
import Craftec.Library.Run
import Craftec.Obj.Store
import Craftec.Types.Digest

set_option autoImplicit false
set_option relaxedAutoImplicit false

namespace Craftec.Com.Lifecycle

open Craftec.Com.Scheduler
open Craftec.Library.Run (Reach anyStep exists_reach exists_reach_reach mem_set_cases mem_set_next
  mem_set_of_ne reach_step)
open Craftec.Obj.Store (ObjError)
open Craftec.Types.Digest (Bytes Bytes32 Cid)

/-! ## One task for each program -/

/-- Task number `id` is a live task of the program. -/
def LiveAt (tasks : List Execution) (c : Cid) (id : ℕ) : Prop :=
  ∃ e, tasks[id]? = some e ∧ e.cid = c ∧ e.Live

instance (tasks : List Execution) (c : Cid) (id : ℕ) : Decidable (LiveAt tasks c id) :=
  inferInstanceAs (Decidable (∃ e ∈ tasks[id]?, _ ∧ _))

def NoneLive (tasks : List Execution) (c : Cid) : Prop := ∀ e ∈ tasks, e.cid = c → ¬ e.Live

def starting : Call → Option Cid
  | .startCheck c | .startGet c | .startInsert c _ | .startReset c _ | .startSpawn c _
  | .startHandle c _ => some c
  | _ => none

def working : Call → Option Cid
  | .loadDone _ _ | .startDone _ _ | .stopDone _ _ => none
  | .loadCompile c _ | .loadInsert c | .stopCheck c _ | .stopRemove c _ | .stopAbort c _ _
  | .stopInsert c _ | .startCheck c | .startGet c | .startInsert c _ | .startReset c _
  | .startSpawn c _ | .startHandle c _ => some c

def reloading : Call → Option Cid
  | .loadInsert c => some c
  | _ => none

/-- One of two calls is a start of the program and the other works on it too. -/
def Clash (c : Cid) (a b : Call) : Prop :=
  (starting a = some c ∧ working b = some c) ∨ (starting b = some c ∧ working a = some c)

instance (c : Cid) (a b : Call) : Decidable (Clash c a b) := inferInstanceAs (Decidable (_ ∨ _))

def Reloads (c : Cid) (s : State) : Label → Prop
  | .advance i _ => s.calls[i]?.bind reloading = some c
  | _ => False

instance (c : Cid) (s : State) : ∀ label, Decidable (Reloads c s label)
  | .invoke _ => inferInstanceAs (Decidable False)
  | .advance _ _ => inferInstanceAs (Decidable (_ = _))
  | .poll _ _ => inferInstanceAs (Decidable False)

/-- Starts of the program do not overlap other calls for it, and it is not loaded again
while a task of it is alive. -/
def Disciplined (c : Cid) (s : State) (label : Label) : Prop :=
  (s.calls.Pairwise fun a b => ¬ Clash c a b) ∧ (Reloads c s label → NoneLive s.tasks c)

instance (c : Cid) (tasks : List Execution) : Decidable (NoneLive tasks c) :=
  inferInstanceAs (Decidable (∀ e ∈ tasks, _ → _))

instance (c : Cid) (s : State) (label : Label) : Decidable (Disciplined c s label) :=
  inferInstanceAs (Decidable (_ ∧ (_ → _)))

def CallOk (c : Cid) (s : State) : Call → Prop
  | .startGet d | .startInsert d _ => d = c → ∀ id, ¬ LiveAt s.tasks c id
  | .startReset d _ | .startSpawn d _ =>
    d = c → Barred (s.programs c) ∧ ∀ id, ¬ LiveAt s.tasks c id
  | .startHandle d task => d = c → Barred (s.programs c) ∧ ∀ id, LiveAt s.tasks c id → id = task
  | .stopAbort d _ _ | .stopInsert d _ => d = c → s.taskHandles c = none
  | _ => True

/-- A live task of a program that is barred from starting can be reached through its
handle, now or when the start that spawned it has returned; any other is about to be
aborted. -/
structure Inv (c : Cid) (s : State) : Prop where
  single : ∀ id other, LiveAt s.tasks c id → LiveAt s.tasks c other → id = other
  owned : ∀ id, LiveAt s.tasks c id →
    (Barred (s.programs c) ∧ (s.taskHandles c = some id ∨ .startHandle c id ∈ s.calls)) ∨
      ∃ reason, .stopAbort c reason id ∈ s.calls
  calls : ∀ call ∈ s.calls, CallOk c s call

section Tasks

variable {tasks : List Execution} {c : Cid} {id task : ℕ}

theorem noneLive_iff : NoneLive tasks c ↔ ∀ id, ¬ LiveAt tasks c id := by
  constructor
  · rintro none id ⟨e, there, own, live⟩
    exact none e (List.mem_of_getElem? there) own live
  · intro none e listed own live
    obtain ⟨id, there⟩ := List.mem_iff_getElem?.mp listed
    exact none id ⟨e, there, own, live⟩

theorem liveAt_of_set {e next : Execution} (there : tasks[task]? = some e) (same : next.cid = e.cid)
    (kept : next.Live → e.Live) (live : LiveAt (tasks.set task next) c id) : LiveAt tasks c id := by
  obtain ⟨f, place, own, alive⟩ := live
  rw [List.getElem?_set] at place
  split at place
  · rename_i here
    subst here
    split at place
    · cases place
      exact ⟨e, there, same ▸ own, kept alive⟩
    · cases place
  · exact ⟨f, place, own, alive⟩

theorem liveAt_of_abort {s : State} (live : LiveAt (s.abort task).tasks c id) :
    LiveAt s.tasks c id ∧ id ≠ task := by
  obtain ⟨f, place, own, alive⟩ := live
  simp only [State.abort, List.getElem?_modify] at place
  obtain ⟨e, there, marked⟩ := Option.map_eq_some_iff.mp place
  by_cases here : task = id
  · rw [if_pos here] at marked
    subst marked
    exact absurd alive.1 (by simp)
  · rw [if_neg here] at marked
    exact ⟨⟨e, there, marked ▸ own, marked ▸ alive⟩, Ne.symm here⟩

theorem liveAt_of_spawn {new : Execution} (live : LiveAt (tasks ++ [new]) c id) :
    LiveAt tasks c id ∨ (id = tasks.length ∧ new.cid = c) := by
  obtain ⟨e, place, own, alive⟩ := live
  rcases Nat.lt_or_ge id tasks.length with old | fresh
  · rw [List.getElem?_append_left old] at place
    exact .inl ⟨e, place, own, alive⟩
  · rw [List.getElem?_append_right fresh] at place
    have last := (List.getElem?_eq_some_iff.mp place).1
    rw [List.length_singleton] at last
    have here : id = tasks.length := by omega
    subst here
    rw [Nat.sub_self, List.getElem?_cons_zero] at place
    cases place
    exact .inr ⟨rfl, own⟩

end Tasks

section Frame

variable {c : Cid} {s t : State} {call : Call}

theorem CallOk.mono (ok : CallOk c s call) (barred : Barred (s.programs c) → Barred (t.programs c))
    (handles : t.taskHandles c = s.taskHandles c)
    (live : ∀ id, LiveAt t.tasks c id → LiveAt s.tasks c id) : CallOk c t call := by
  cases call with
  | startGet d | startInsert d wasmBytes => exact fun own id alive => ok own id (live id alive)
  | startReset d wasmBytes | startSpawn d wasmBytes =>
    exact fun own => ⟨barred (ok own).1, fun id alive => (ok own).2 id (live id alive)⟩
  | startHandle d task =>
    exact fun own => ⟨barred (ok own).1, fun id alive => (ok own).2 id (live id alive)⟩
  | stopAbort d reason task | stopInsert d reason => exact fun own => handles.trans (ok own)
  | _ => trivial

theorem callOk_of_not_working (apart : working call ≠ some c) : CallOk c t call := by
  cases call with
  | startGet d | startInsert d wasmBytes | startReset d wasmBytes | startSpawn d wasmBytes
  | startHandle d task | stopAbort d reason task | stopInsert d reason =>
    exact fun own => absurd (congrArg some own) apart
  | _ => trivial

theorem callOk_of_not_starting (apart : starting call ≠ some c) (ok : CallOk c s call)
    (handles : s.taskHandles c = none → t.taskHandles c = none) : CallOk c t call := by
  cases call with
  | startGet d | startInsert d wasmBytes | startReset d wasmBytes | startSpawn d wasmBytes
  | startHandle d task =>
    exact fun own => absurd (congrArg some own) apart
  | stopAbort d reason task | stopInsert d reason => exact fun own => handles (ok own)
  | _ => trivial

def Linked (c : Cid) (call : Call) : Prop :=
  (∃ id, call = .startHandle c id) ∨ ∃ reason id, call = .stopAbort c reason id

theorem Inv.frame (inv : Inv c s) (barred : Barred (s.programs c) → Barred (t.programs c))
    (handles : t.taskHandles c = s.taskHandles c)
    (live : ∀ id, LiveAt t.tasks c id → LiveAt s.tasks c id)
    (kept : ∀ call ∈ s.calls, Linked c call → call ∈ t.calls)
    (fresh : ∀ call ∈ t.calls, call ∈ s.calls ∨ CallOk c t call) : Inv c t where
  single id other one two := inv.single id other (live id one) (live other two)
  owned := by
    intro id alive
    rcases inv.owned id (live id alive) with ⟨busy, held | handed⟩ | ⟨reason, aborting⟩
    · exact .inl ⟨barred busy, .inl (handles.trans held)⟩
    · exact .inl ⟨barred busy, .inr (kept _ handed (.inl ⟨id, rfl⟩))⟩
    · exact .inr ⟨reason, kept _ aborting (.inr ⟨reason, id, rfl⟩)⟩
  calls := by
    intro call listed
    rcases fresh call listed with old | ok
    · exact (inv.calls call old).mono barred handles live
    · exact ok

theorem Inv.turn {after : State} {i : ℕ} {next : Call} (inv : Inv c s) (made : s.calls[i]? = some call)
    (unlinked : ¬ Linked c call) (barred : Barred (s.programs c) → Barred (after.programs c))
    (handles : after.taskHandles c = s.taskHandles c)
    (live : ∀ id, LiveAt after.tasks c id → LiveAt s.tasks c id)
    (ok : CallOk c { after with calls := s.calls.set i next } next) :
    Inv c { after with calls := s.calls.set i next } := by
  refine inv.frame barred handles live ?_ ?_
  · intro other listed linked
    refine mem_set_of_ne made listed ?_
    rintro rfl
    exact unlinked linked
  · intro other listed
    rcases mem_set_cases listed with rfl | ⟨j, -, there⟩
    · exact .inr ok
    · exact .inl (List.mem_of_getElem? there)

theorem bind_made {i : ℕ} (made : s.calls[i]? = some call) (f : Call → Option Cid) :
    s.calls[i]?.bind f = f call := by
  rw [made, Option.bind_some]

theorem apart_of_ne (disciplined : s.calls.Pairwise fun a b => ¬ Clash c a b) {i j : ℕ} {other : Call}
    (made : s.calls[i]? = some call) (there : s.calls[j]? = some other) (ne : i ≠ j) :
    ¬ Clash c call other := by
  obtain ⟨inside, rfl⟩ := List.getElem?_eq_some_iff.mp made
  obtain ⟨within, rfl⟩ := List.getElem?_eq_some_iff.mp there
  rcases Nat.lt_or_gt_of_ne ne with before | after
  · exact List.pairwise_iff_getElem.mp disciplined i j inside within before
  · exact fun clash => List.pairwise_iff_getElem.mp disciplined j i within inside after clash.symm

theorem apart_of_mem (disciplined : s.calls.Pairwise fun a b => ¬ Clash c a b) {i : ℕ} {other : Call}
    (made : s.calls[i]? = some call) (listed : other ∈ s.calls) (ne : other ≠ call) :
    ¬ Clash c call other := by
  obtain ⟨j, there⟩ := List.mem_iff_getElem?.mp listed
  refine apart_of_ne disciplined made there ?_
  rintro rfl
  rw [made] at there
  exact ne (Option.some.inj there).symm

theorem calls_beside_start {i : ℕ} {next : Call}
    (disciplined : s.calls.Pairwise fun a b => ¬ Clash c a b) (made : s.calls[i]? = some call)
    (start : starting call = some c) (ok : CallOk c t next) :
    ∀ other ∈ s.calls.set i next, CallOk c t other := by
  intro other listed
  rcases mem_set_cases listed with rfl | ⟨j, ne, there⟩
  · exact ok
  · exact callOk_of_not_working fun working =>
      apart_of_ne disciplined made there ne (.inl ⟨start, working⟩)

theorem calls_beside_work {i : ℕ} {next : Call} (inv : Inv c s)
    (disciplined : s.calls.Pairwise fun a b => ¬ Clash c a b) (made : s.calls[i]? = some call)
    (work : working call = some c) (handles : s.taskHandles c = none → t.taskHandles c = none)
    (ok : CallOk c t next) : ∀ other ∈ s.calls.set i next, CallOk c t other := by
  intro other listed
  rcases mem_set_cases listed with rfl | ⟨j, ne, there⟩
  · exact ok
  · refine callOk_of_not_starting ?_ (inv.calls _ (List.mem_of_getElem? there)) handles
    exact fun start => apart_of_ne disciplined made there ne (.inr ⟨start, work⟩)

end Frame

section Kept

variable {compile : Bytes → Except String Unit} {c : Cid} {s t after : State} {i : ℕ} {call next : Call}

theorem programs_insertProgram_self (state : ProgramState) :
    (s.insertProgram c state).programs c = some state := Function.update_self _ _ _

theorem programs_insertProgram_of_ne {d : Cid} (other : c ≠ d) (state : ProgramState) :
    (s.insertProgram d state).programs c = s.programs c := Function.update_of_ne other _ _

theorem programs_insertProgram (s : State) (c d : Cid) (state : ProgramState) :
    (d = c ∧ (s.insertProgram d state).programs c = some state) ∨
      (s.insertProgram d state).programs c = s.programs c := by
  by_cases own : c = d
  · subst own
    exact .inl ⟨rfl, programs_insertProgram_self state⟩
  · exact .inr (programs_insertProgram_of_ne own state)

theorem barred_insertProgram {d : Cid} (state : ProgramState) (busy : Barred (some state)) :
    Barred (s.programs c) → Barred ((s.insertProgram d state).programs c) := by
  intro before
  rcases programs_insertProgram s c d state with ⟨-, written⟩ | same
  · rwa [written]
  · rwa [same]

theorem inv_passes {d : Cid} (inv : Inv c s)
    (disciplined : s.calls.Pairwise fun a b => ¬ Clash c a b)
    (made : s.calls[i]? = some (.startCheck d)) (free : ¬ Barred (s.programs d)) :
    Inv c { s with calls := s.calls.set i (.startGet d) } := by
  refine inv.turn made ?_ id rfl (fun _ => id) ?_
  · rintro (⟨id, same⟩ | ⟨reason, id, same⟩) <;> cases same
  · rintro rfl id alive
    rcases inv.owned id alive with ⟨busy, -⟩ | ⟨reason, aborting⟩
    · exact free busy
    · exact apart_of_mem disciplined made aborting (by simp) (.inl ⟨rfl, rfl⟩)

theorem inv_loads (inv : Inv c s) (disciplined : s.calls.Pairwise fun a b => ¬ Clash c a b)
    (made : s.calls[i]? = some (.loadInsert c)) (none : NoneLive s.tasks c) :
    Inv c { s.insertProgram c (.loaded c) with calls := s.calls.set i (.loadDone c (.ok ())) } where
  single id _ one _ := absurd one (noneLive_iff.mp none id)
  owned id alive := absurd alive (noneLive_iff.mp none id)
  calls := calls_beside_work inv disciplined made rfl id trivial

theorem inv_spawns {wasmBytes : Bytes} (inv : Inv c s)
    (disciplined : s.calls.Pairwise fun a b => ¬ Clash c a b)
    (made : s.calls[i]? = some (.startSpawn c wasmBytes)) :
    Inv c { s with
      tasks := s.tasks ++ [⟨c, wasmBytes, 0, false, .spawned⟩]
      calls := s.calls.set i (.startHandle c s.tasks.length) } := by
  obtain ⟨busy, none⟩ := inv.calls _ (List.mem_of_getElem? made) rfl
  have last {id : ℕ} (alive : LiveAt (s.tasks ++ [⟨c, wasmBytes, 0, false, .spawned⟩]) c id) :
      id = s.tasks.length := by
    rcases liveAt_of_spawn alive with old | ⟨here, -⟩
    · exact absurd old (none id)
    · exact here
  refine ⟨fun id other one two => (last one).trans (last two).symm, ?_,
    calls_beside_start disciplined made rfl fun _ => ⟨busy, fun id => last⟩⟩
  intro id alive
  refine .inl ⟨busy, .inr ?_⟩
  rw [last alive]
  exact mem_set_next made

theorem inv_keeps {task : ℕ} (inv : Inv c s)
    (disciplined : s.calls.Pairwise fun a b => ¬ Clash c a b)
    (made : s.calls[i]? = some (.startHandle c task)) :
    Inv c { s with
      taskHandles := Function.update s.taskHandles c (some task)
      calls := s.calls.set i (.startDone c (.ok ())) } := by
  obtain ⟨busy, only⟩ := inv.calls _ (List.mem_of_getElem? made) rfl
  refine ⟨inv.single, ?_, calls_beside_start disciplined made rfl trivial⟩
  intro id alive
  refine .inl ⟨busy, .inl ?_⟩
  rw [only id alive]
  exact Function.update_self _ _ _

theorem inv_takes {reason : String} {task : ℕ} (inv : Inv c s)
    (disciplined : s.calls.Pairwise fun a b => ¬ Clash c a b)
    (made : s.calls[i]? = some (.stopRemove c reason)) (kept : s.taskHandles c = some task) :
    Inv c { s with
      taskHandles := Function.update s.taskHandles c none
      calls := s.calls.set i (.stopAbort c reason task) } := by
  have gone : Function.update s.taskHandles c none c = none := Function.update_self _ _ _
  refine ⟨inv.single, ?_,
    calls_beside_work inv disciplined made rfl (fun _ => gone) fun _ => gone⟩
  intro id alive
  rcases inv.owned id alive with ⟨-, held | handed⟩ | ⟨other, aborting⟩
  · rw [kept] at held
    cases held
    exact .inr ⟨reason, mem_set_next made⟩
  · -- the start that spawned the task would overlap this stop
    exact (apart_of_mem disciplined made handed (by simp) (.inr ⟨rfl, rfl⟩)).elim
  · exact .inr ⟨other, mem_set_of_ne made aborting (by simp)⟩

theorem inv_aborts {d : Cid} {reason : String} {task : ℕ} (inv : Inv c s)
    (made : s.calls[i]? = some (.stopAbort d reason task)) :
    Inv c { s.abort task with calls := s.calls.set i (.stopInsert d reason) } := by
  have live {id : ℕ} (alive : LiveAt (s.abort task).tasks c id) := liveAt_of_abort alive
  refine ⟨fun id other one two => inv.single id other (live one).1 (live two).1, ?_, ?_⟩
  · intro id alive
    obtain ⟨before, ne⟩ := live alive
    rcases inv.owned id before with ⟨busy, held | handed⟩ | ⟨other, aborting⟩
    · exact .inl ⟨busy, .inl held⟩
    · exact .inl ⟨busy, .inr (mem_set_of_ne made handed (by simp))⟩
    · refine .inr ⟨other, mem_set_of_ne made aborting ?_⟩
      intro same
      cases same
      exact ne rfl
  · intro other listed
    rcases mem_set_cases listed with rfl | ⟨j, -, there⟩
    · exact inv.calls _ (List.mem_of_getElem? made)
    · exact (inv.calls _ (List.mem_of_getElem? there)).mono id rfl fun id alive => (live alive).1

theorem inv_stops {reason : String} (inv : Inv c s)
    (disciplined : s.calls.Pairwise fun a b => ¬ Clash c a b)
    (made : s.calls[i]? = some (.stopInsert c reason)) :
    Inv c { s.insertProgram c (.stopped c reason) with
      calls := s.calls.set i (.stopDone c (.ok ())) } := by
  have gone := inv.calls _ (List.mem_of_getElem? made) rfl
  refine ⟨inv.single, ?_, calls_beside_work inv disciplined made rfl id trivial⟩
  intro id alive
  rcases inv.owned id alive with ⟨-, held | handed⟩ | ⟨other, aborting⟩
  · rw [gone] at held
    cases held
  · exact (apart_of_mem disciplined made handed (by simp) (.inr ⟨rfl, rfl⟩)).elim
  · exact .inr ⟨other, mem_set_of_ne made aborting (by simp)⟩

theorem inv_turn (inv : Inv c s) (disciplined : s.calls.Pairwise fun a b => ¬ Clash c a b)
    (reload : call = .loadInsert c → NoneLive s.tasks c) (made : s.calls[i]? = some call)
    (turn : Turn s call after next) : Inv c { after with calls := s.calls.set i next } := by
  have ok := inv.calls _ (List.mem_of_getElem? made)
  cases turn with
  | passes d free => exact inv_passes inv disciplined made free
  | aborts d reason task => exact inv_aborts inv made
  | loads d =>
    by_cases own : c = d
    · subst own
      exact inv_loads inv disciplined made (reload rfl)
    · refine inv.turn made (by simp [Linked]) ?_ rfl (fun _ => id) trivial
      rw [programs_insertProgram_of_ne own]
      exact id
  | starts d wasmBytes =>
    refine inv.turn made (by simp [Linked]) (barred_insertProgram _ trivial) rfl (fun _ => id) ?_
    rintro rfl
    refine ⟨?_, ok rfl⟩
    change Barred ((s.insertProgram d (.running d)).programs d)
    rw [programs_insertProgram_self]
    trivial
  | spawns d wasmBytes =>
    by_cases own : c = d
    · subst own
      exact inv_spawns inv disciplined made
    · refine inv.turn made (by simp [Linked]) id rfl ?_ fun same => absurd same.symm own
      intro id alive
      rcases liveAt_of_spawn alive with old | ⟨-, same⟩
      · exact old
      · exact absurd same.symm own
  | keeps d task =>
    by_cases own : c = d
    · subst own
      exact inv_keeps inv disciplined made
    · exact inv.turn made (by simp [Linked, Ne.symm own]) id (Function.update_of_ne own _ _)
        (fun _ => id) trivial
  | takes d reason task kept =>
    by_cases own : c = d
    · subst own
      exact inv_takes inv disciplined made kept
    · exact inv.turn made (by simp [Linked]) id (Function.update_of_ne own _ _) (fun _ => id)
        fun same => absurd same.symm own
  | stops d reason =>
    by_cases own : c = d
    · subst own
      exact inv_stops inv disciplined made
    · refine inv.turn made (by simp [Linked]) ?_ rfl (fun _ => id) trivial
      rw [programs_insertProgram_of_ne own]
      exact id
  | gets d wasmBytes | resets d wasmBytes =>
    exact inv.turn made (by simp [Linked]) id rfl (fun _ => id) ok
  | noHandle d reason gone =>
    exact inv.turn made (by simp [Linked]) id rfl (fun _ => id) fun own => own ▸ gone
  | _ => exact inv.turn made (by simp [Linked]) id rfl (fun _ => id) trivial

theorem inv_polled {e next : Execution} {task : ℕ} (inv : Inv c s) (spawned : s.tasks[task]? = some e)
    (polled : Polled s e after next) : Inv c { after with tasks := s.tasks.set task next } := by
  refine inv.frame ?_ (congrFun polled.handles c) ?_ ?_ ?_
  · rcases polled.programs with same | ⟨err, reason, -, quarantined⟩
    · rw [same]
      exact id
    · change _ → Barred (after.programs c)
      rw [quarantined]
      exact barred_insertProgram (.quarantined e.cid reason) trivial
  · exact fun id => liveAt_of_set spawned polled.cid polled.live
  · intro call listed _
    exact polled.calls ▸ listed
  · intro call listed
    exact .inl (polled.calls ▸ listed)

theorem inv_step {label : Label} (inv : Inv c s) (disciplined : Disciplined c s label)
    (taken : step compile s label = some t) : Inv c t := by
  cases label with
  | invoke operation =>
    cases taken
    refine inv.frame id rfl (fun _ => id) (fun call listed _ => List.mem_append_left _ listed) ?_
    intro call listed
    rcases List.mem_append.mp listed with old | new
    · exact .inl old
    · rw [List.mem_singleton.mp new]
      cases operation <;> exact .inr trivial
  | advance i answer =>
    obtain ⟨call, after, next, made, turn, rfl⟩ := of_step_advance taken
    refine inv_turn inv disciplined.1 ?_ made turn
    rintro rfl
    exact disciplined.2 (bind_made made reloading)
  | poll task outcome =>
    obtain ⟨e, after, next, spawned, moved, rfl⟩ := of_step_poll taken
    exact inv_polled inv spawned (poll_polled moved)

end Kept

theorem inv_new (c : Cid) : Inv c .new where
  single := by
    rintro id other ⟨e, there, -⟩
    cases there
  owned := by
    rintro id ⟨e, there, -⟩
    cases there
  calls call listed := by cases listed

/-- Lifecycle calls in any interleaving with each other and with the tasks, where the
starts of a program overlap no other call for it and it is not loaded again while a task
of it is alive: no two of its tasks are alive. -/
theorem one_task_per_program {compile : Bytes → Except String Unit} {c : Cid} {s : State}
    (reach : Reach (step compile) (Disciplined c) .new s) {id other : ℕ}
    (live : LiveAt s.tasks c id) (also : LiveAt s.tasks c other) : id = other := by
  have inv : Inv c s := reach.invariant (inv_new c) fun _ _ _ inv disciplined taken =>
    inv_step inv disciplined taken
  exact inv.single id other live also

/-! A compiler that takes everything, and one program. -/

def accepts (_ : Bytes) : Except String Unit := .ok ()

def program : Cid := ⟨Bytes32.fill 1⟩

/-- The steps of call `i`, with the store answering that it has the program. -/
def steps (i count : ℕ) : List Label := List.replicate count (.advance i (.ok (some [])))

/-- A call to load the program, as call `i`, to its end. -/
def loads (i : ℕ) : List Label := .invoke (.load program []) :: steps i 2

def starts (i : ℕ) : List Label := .invoke (.start program) :: steps i 6

theorem one_task_after_start :
    ∃ s, Reach (step accepts) (Disciplined program) .new s ∧ LiveAt s.tasks program 0 ∧
      ∀ id, LiveAt s.tasks program id → id = 0 := by
  have run : ∃ s, Reach (step accepts) (Disciplined program) .new s ∧ LiveAt s.tasks program 0 :=
    exists_reach _ _ (loads 0 ++ starts 1) (by decide)
  obtain ⟨s, reach, live⟩ := run
  exact ⟨s, reach, live, fun id also => one_task_per_program reach also live⟩

/-- Loaded again and started again, the program has two live tasks. -/
theorem two_tasks_after_reload :
    ∃ s, Reach (step accepts) anyStep .new s ∧ LiveAt s.tasks program 0 ∧ LiveAt s.tasks program 1 :=
  exists_reach _ _ (loads 0 ++ starts 1 ++ loads 2 ++ starts 3) (by decide)

/-! ## What is written to the state of a program -/

section Writes

variable {compile : Bytes → Except String Unit} {c : Cid} {s after : State} {call next : Call}

theorem programs_turn (turn : Turn s call after next) :
    after.programs c = s.programs c ∨ (call = .loadInsert c ∧ after.programs c = some (.loaded c)) ∨
      (∃ wasmBytes, call = .startInsert c wasmBytes ∧ after.programs c = some (.running c)) ∨
      ∃ reason, call = .stopInsert c reason ∧ after.programs c = some (.stopped c reason) := by
  cases turn with
  | loads d =>
    rcases programs_insertProgram s c d (.loaded d) with ⟨rfl, written⟩ | same
    · exact .inr (.inl ⟨rfl, written⟩)
    · exact .inl same
  | starts d wasmBytes =>
    rcases programs_insertProgram s c d (.running d) with ⟨rfl, written⟩ | same
    · exact .inr (.inr (.inl ⟨wasmBytes, rfl, written⟩))
    · exact .inl same
  | stops d reason =>
    rcases programs_insertProgram s c d (.stopped d reason) with ⟨rfl, written⟩ | same
    · exact .inr (.inr (.inr ⟨reason, rfl, written⟩))
    · exact .inl same
  | _ => exact .inl rfl

theorem tasks_turn (turn : Turn s call after next) {id : ℕ} {e : Execution}
    (there : after.tasks[id]? = some e) :
    (∃ old, s.tasks[id]? = some old ∧ (e = old ∨ e = { old with aborted := true })) ∨
      ∃ d wasmBytes, call = .startSpawn d wasmBytes ∧ e = ⟨d, wasmBytes, 0, false, .spawned⟩ := by
  cases turn with
  | spawns d wasmBytes =>
    rcases Nat.lt_or_ge id s.tasks.length with before | fresh
    · rw [List.getElem?_append_left before] at there
      exact .inl ⟨e, there, .inl rfl⟩
    · rw [List.getElem?_append_right fresh] at there
      have listed := List.mem_of_getElem? there
      exact .inr ⟨d, wasmBytes, rfl, List.mem_singleton.mp listed⟩
  | aborts d reason task =>
    simp only [State.abort, List.getElem?_modify] at there
    obtain ⟨old, before, marked⟩ := Option.map_eq_some_iff.mp there
    refine .inl ⟨old, before, ?_⟩
    split at marked
    · exact .inr marked.symm
    · exact .inl marked.symm
  | _ => exact .inl ⟨e, there, .inl rfl⟩

theorem tasks_set {tasks : List Execution} {task id : ℕ} {e old next : Execution}
    (spawned : tasks[task]? = some old) (there : (tasks.set task next)[id]? = some e) :
    tasks[id]? = some e ∨ (tasks[id]? = some old ∧ e = next) := by
  rw [List.getElem?_set] at there
  split at there
  · rename_i here
    subst here
    split at there
    · exact .inr ⟨spawned, (Option.some.inj there).symm⟩
    · cases there
  · exact .inl there

theorem programs_polled {e next : Execution} (polled : Polled s e after next) :
    after.programs c = s.programs c ∨ (e.cid = c ∧ (∃ err, e.point = .quarantining err) ∧
      ∃ reason, after.programs c = some (.quarantined c reason)) := by
  rcases polled.programs with same | ⟨err, reason, there, quarantined⟩
  · exact .inl (congrFun same c)
  · by_cases own : c = e.cid
    · subst own
      exact .inr ⟨rfl, ⟨err, there⟩, reason, quarantined ▸ Function.update_self _ _ _⟩
    · exact .inl (quarantined ▸ Function.update_of_ne own _ _)

end Writes

/-! ## Quarantine -/

def isQuarantined : ProgramState → Bool
  | .quarantined _ _ => true
  | _ => false

def overwriting : Call → Option Cid
  | .loadInsert c | .stopInsert c _ => some c
  | _ => none

def Overwrites (c : Cid) (s : State) : Label → Prop
  | .advance i _ => s.calls[i]?.bind overwriting = some c
  | _ => False

/-- A start of the program that has passed its check and not yet spawned its task. -/
def pastCheck : Call → Option Cid
  | .startGet c | .startInsert c _ | .startReset c _ | .startSpawn c _ => some c
  | _ => none

/-- No task of the program has number `n` or higher. -/
def NoneSince (n : ℕ) (c : Cid) (tasks : List Execution) : Prop :=
  ∀ id e, n ≤ id → tasks[id]? = some e → e.cid ≠ c

structure Shut (n : ℕ) (c : Cid) (s : State) : Prop where
  quarantined : (s.programs c).any isQuarantined
  none : NoneSince n c s.tasks
  calls : ∀ call ∈ s.calls, pastCheck call ≠ some c

section Quarantine

variable {compile : Bytes → Except String Unit} {c : Cid} {s t after : State} {n i : ℕ}
  {call next : Call}

theorem exists_of_quarantined {state : Option ProgramState} (quarantined : state.any isQuarantined) :
    ∃ d reason, state = some (.quarantined d reason) := by
  obtain ⟨found, rfl, marked⟩ := (Option.any_eq_true _ _).mp quarantined
  cases found with
  | quarantined d reason => exact ⟨d, reason, rfl⟩
  | loaded d | running d | stopped d reason => cases marked

theorem barred_of_quarantined {state : Option ProgramState} (quarantined : state.any isQuarantined) :
    Barred state := by
  obtain ⟨d, reason, rfl⟩ := exists_of_quarantined quarantined
  trivial

theorem not_running_of_quarantined {state : Option ProgramState} (quarantined : state.any isQuarantined) :
    ¬ state.any ProgramState.isRunning := by
  obtain ⟨d, reason, rfl⟩ := exists_of_quarantined quarantined
  exact Bool.false_ne_true

theorem pastCheck_turn (shut : Barred (s.programs c)) (turn : Turn s call after next)
    (before : pastCheck call ≠ some c) : pastCheck next ≠ some c := by
  cases turn with
  | passes d free =>
    intro own
    cases own
    exact free shut
  | gets d wasmBytes | starts d wasmBytes | resets d wasmBytes => exact before
  | _ => exact (Option.some_ne_none c).symm

theorem Shut.turn (shut : Shut n c s) (made : s.calls[i]? = some call)
    (allowed : overwriting call ≠ some c) (turn : Turn s call after next) :
    Shut n c { after with calls := s.calls.set i next } := by
  have unchecked := shut.calls _ (List.mem_of_getElem? made)
  refine ⟨?_, ?_, ?_⟩
  · rcases programs_turn (c := c) turn with same | ⟨rfl, -⟩ | ⟨wasmBytes, rfl, -⟩ | ⟨why, rfl, -⟩
    · change (after.programs c).any isQuarantined
      rw [same]
      exact shut.quarantined
    · exact absurd rfl allowed
    · exact absurd rfl unchecked
    · exact absurd rfl allowed
  · intro id e high there
    rcases tasks_turn turn there with ⟨old, before, rfl | rfl⟩ | ⟨d, wasmBytes, rfl, rfl⟩
    · exact shut.none id e high before
    · exact shut.none id old high before
    · exact fun own => unchecked (congrArg some own)
  · intro other listed
    rcases mem_set_cases listed with rfl | ⟨j, -, there⟩
    · exact pastCheck_turn (barred_of_quarantined shut.quarantined) turn unchecked
    · exact shut.calls other (List.mem_of_getElem? there)

theorem Shut.polled {e next : Execution} {task : ℕ} (shut : Shut n c s)
    (spawned : s.tasks[task]? = some e) (polled : Polled s e after next) :
    Shut n c { after with tasks := s.tasks.set task next } := by
  refine ⟨?_, ?_, ?_⟩
  · change (after.programs c).any isQuarantined
    rcases programs_polled (c := c) polled with same | ⟨-, -, reason, quarantined⟩
    · rw [same]
      exact shut.quarantined
    · rw [quarantined]
      rfl
  · intro id f high there
    rcases tasks_set spawned there with old | ⟨old, rfl⟩
    · exact shut.none id f high old
    · rw [polled.cid]
      exact shut.none id e high old
  · intro call listed
    exact shut.calls call (polled.calls ▸ listed)

theorem Shut.step {label : Label} (shut : Shut n c s) (allowed : ¬ Overwrites c s label)
    (taken : step compile s label = some t) : Shut n c t := by
  cases label with
  | invoke operation =>
    cases taken
    refine ⟨shut.quarantined, shut.none, ?_⟩
    intro call listed
    rcases List.mem_append.mp listed with old | new
    · exact shut.calls call old
    · rw [List.mem_singleton.mp new]
      cases operation <;> exact (Option.some_ne_none c).symm
  | advance i answer =>
    obtain ⟨call, after, next, made, turn, rfl⟩ := of_step_advance taken
    refine shut.turn made ?_ turn
    intro writes
    exact allowed ((bind_made made overwriting).trans writes)
  | poll task outcome =>
    obtain ⟨e, after, next, spawned, moved, rfl⟩ := of_step_poll taken
    exact shut.polled spawned (poll_polled moved)

theorem reach_start (compile : Bytes → Except String Unit) (c : Cid)
    (answer : Except ObjError (Option Bytes)) (made : s.calls[i]? = some call)
    (apart : overwriting call = none) (moved : advance compile s answer call = some (after, next)) :
    Reach (step compile) (fun u label => ¬ Overwrites c u label) s
      { after with calls := s.calls.set i next } := by
  refine reach_step (a := .advance i answer) ?_ (step_advance made moved)
  intro writes
  have none_ := (bind_made made overwriting).symm.trans writes
  rw [apart] at none_
  cases none_

theorem starts_of_pastCheck (compile : Bytes → Except String Unit) (made : s.calls[i]? = some call)
    (past : pastCheck call = some c) :
    ∃ t, Reach (step compile) (fun u label => ¬ Overwrites c u label) s t ∧
      ((t.programs c).any ProgramState.isRunning ∨ ¬ NoneSince s.tasks.length c t.tasks) := by
  have replaced (next : Call) : (s.calls.set i next)[i]? = some next :=
    List.getElem?_set_self (List.getElem?_eq_some_iff.mp made).1
  have runs {u : State} {wasmBytes : Bytes} (there : u.calls[i]? = some (.startInsert c wasmBytes)) :
      ∃ t, Reach (step compile) (fun u label => ¬ Overwrites c u label) u t ∧
        (t.programs c).any ProgramState.isRunning := by
    refine ⟨_, reach_start compile c (.ok none) there rfl rfl, ?_⟩
    change ((u.insertProgram c (.running c)).programs c).any _
    rw [programs_insertProgram_self]
    rfl
  have spawns {u : State} {wasmBytes : Bytes} (there : u.calls[i]? = some (.startSpawn c wasmBytes)) :
      ∃ t, Reach (step compile) (fun u label => ¬ Overwrites c u label) u t ∧
        ¬ NoneSince u.tasks.length c t.tasks := by
    refine ⟨_, reach_start compile c (.ok none) there rfl rfl, ?_⟩
    intro none
    exact none u.tasks.length _ le_rfl List.getElem?_concat_length rfl
  cases call with
  | startGet d =>
    cases past
    have first := reach_start compile c (.ok (some [])) made rfl rfl
    obtain ⟨t, later, running⟩ := runs (u := { s with calls := s.calls.set i (.startInsert c []) })
      (replaced _)
    exact ⟨t, first.trans later, .inl running⟩
  | startInsert d wasmBytes =>
    cases past
    obtain ⟨t, reach, running⟩ := runs made
    exact ⟨t, reach, .inl running⟩
  | startReset d wasmBytes =>
    cases past
    have first := reach_start compile c (.ok none) made rfl rfl
    obtain ⟨t, later, spawned⟩ := spawns
      (u := { s.insertCrashCount c 0 with calls := s.calls.set i (.startSpawn c wasmBytes) }) (replaced _)
    exact ⟨t, first.trans later, .inr spawned⟩
  | startSpawn d wasmBytes =>
    cases past
    obtain ⟨t, reach, spawned⟩ := spawns made
    exact ⟨t, reach, .inr spawned⟩
  | _ => cases past

end Quarantine

/-- As long as no load or stop of a quarantined program writes its state, the program is
never run again and no task of it is spawned, exactly if no start of it had passed its
check when it was quarantined. -/
theorem quarantine_permanent_iff {compile : Bytes → Except String Unit} {c : Cid} {s : State}
    (quarantined : (s.programs c).any isQuarantined) :
    (∀ t, Reach (step compile) (fun u label => ¬ Overwrites c u label) s t →
      ¬ (t.programs c).any ProgramState.isRunning ∧ NoneSince s.tasks.length c t.tasks) ↔
      ∀ call ∈ s.calls, pastCheck call ≠ some c := by
  constructor
  · intro permanent call listed past
    obtain ⟨i, made⟩ := List.mem_iff_getElem?.mp listed
    obtain ⟨t, reach, running | spawned⟩ := starts_of_pastCheck compile made past
    · exact (permanent t reach).1 running
    · exact spawned (permanent t reach).2
  · intro checked t reach
    have old : NoneSince s.tasks.length c s.tasks := by
      intro id e high there
      exact absurd (List.getElem?_eq_some_iff.mp there).1 (Nat.not_lt.mpr high)
    have shut : Shut s.tasks.length c t := reach.invariant ⟨quarantined, old, checked⟩
      fun _ _ _ shut allowed taken => shut.step allowed taken
    refine ⟨not_running_of_quarantined shut.quarantined, shut.none⟩

/-- The first task of ten crashes: nine of them, each followed by a sleep and a look at
the state of the program. -/
def crashes (task : ℕ) : List Label :=
  .poll task .ok :: List.replicate 36 (.poll task (.error (.trap "unreachable")))

def lastCrash (task : ℕ) : List Label := List.replicate 3 (.poll task (.error (.trap "unreachable")))

theorem quarantine_permanent_undisturbed :
    ∃ s, Reach (step accepts) anyStep .new s ∧ (s.programs program).any isQuarantined ∧
      ∀ t, Reach (step accepts) (fun u label => ¬ Overwrites program u label) s t →
        ¬ (t.programs program).any ProgramState.isRunning ∧
          NoneSince s.tasks.length program t.tasks := by
  have run : ∃ s, Reach (step accepts) anyStep .new s ∧ ((s.programs program).any isQuarantined ∧
      ∀ call ∈ s.calls, pastCheck call ≠ some program) :=
    exists_reach _ _ (loads 0 ++ starts 1 ++ crashes 0 ++ lastCrash 0) (by decide)
  obtain ⟨s, reach, quarantined, checked⟩ := run
  exact ⟨s, reach, quarantined, (quarantine_permanent_iff quarantined).mpr checked⟩

/-- A quarantined program is loaded again and started again: it runs, in a new task. -/
theorem quarantined_program_runs_again :
    ∃ s t, Reach (step accepts) anyStep .new s ∧ Reach (step accepts) anyStep s t ∧
      ((s.programs program).any isQuarantined ∧ s.tasks.length = 1) ∧
      ((t.programs program).any ProgramState.isRunning ∧ LiveAt t.tasks program 1) :=
  exists_reach_reach _ _ _ (loads 0 ++ starts 1 ++ crashes 0 ++ lastCrash 0) (loads 2 ++ starts 3)
    (by decide)

/-! ## Stop -/

def isStopped : ProgramState → Bool
  | .stopped _ _ => true
  | _ => false

def rewriting : Call → Option Cid
  | .loadInsert c | .startInsert c _ => some c
  | _ => none

def Rewrites (c : Cid) (s : State) : Label → Prop
  | .advance i _ => s.calls[i]?.bind rewriting = some c
  | _ => False

/-- The task can crash up to the threshold without another look at the state of its
program. Its being aborted only matters before it is first polled. -/
def aboutToQuarantine (e : Execution) : Bool :=
  match e.point with
  | .spawned => !e.aborted && decide (crashQuarantineThreshold ≤ e.localCrashCount + 1)
  | .executing => decide (crashQuarantineThreshold ≤ e.localCrashCount + 1)
  | .crashed _ => decide (crashQuarantineThreshold ≤ e.localCrashCount)
  | .quarantining _ => true
  | _ => false

structure Halted (c : Cid) (s : State) : Prop where
  stopped : (s.programs c).any isStopped
  tasks : ∀ e ∈ s.tasks, e.cid = c → aboutToQuarantine e = false

section Stop

variable {compile : Bytes → Except String Unit} {c : Cid} {s t after : State} {i id : ℕ}
  {call next : Call}

theorem not_running_of_stopped {state : Option ProgramState} (stopped : state.any isStopped) :
    ¬ state.any ProgramState.isRunning := by
  obtain ⟨found, rfl, marked⟩ := (Option.any_eq_true _ _).mp stopped
  cases found with
  | stopped d reason => exact Bool.false_ne_true
  | loaded d | running d | quarantined d reason => cases marked

theorem aboutToQuarantine_aborted {e : Execution} (before : aboutToQuarantine e = false) :
    aboutToQuarantine { e with aborted := true } = false := by
  rcases e with ⟨cid, wasmBytes, count, aborted, point⟩
  cases point with
  | spawned => rfl
  | _ => exact before

theorem aboutToQuarantine_poll {outcome : Outcome} {e next : Execution}
    (idle : ¬ (s.programs e.cid).any ProgramState.isRunning) (before : aboutToQuarantine e = false)
    (moved : poll s outcome e = some (after, next)) : aboutToQuarantine next = false := by
  rcases e with ⟨cid, wasmBytes, count, aborted, point⟩
  cases point with
  | spawned =>
    cases moved
    cases aborted with
    | true => rfl
    | false => exact before
  | executing =>
    cases outcome with
    | ok | panicked =>
      cases moved
      rfl
    | error err =>
      cases err with
      | fuelExhausted consumed limit =>
        cases moved
        rfl
      | _ =>
        cases moved
        exact before
  | crashed err =>
    cases moved
    have below : ¬ crashQuarantineThreshold ≤ count := of_decide_eq_false before
    dsimp only
    rw [if_neg below]
    rfl
  | quarantining err => cases before
  | sleeping millis =>
    cases moved
    cases aborted <;> rfl
  | checking =>
    cases moved
    dsimp only
    rw [if_neg idle]
    rfl
  | succeeded | leaving =>
    cases moved
    rfl
  | finished => cases moved

theorem Halted.turn (halted : Halted c s) (allowed : rewriting call ≠ some c)
    (turn : Turn s call after next) : Halted c { after with calls := s.calls.set i next } := by
  refine ⟨?_, ?_⟩
  · change (after.programs c).any isStopped
    rcases programs_turn (c := c) turn with same | ⟨rfl, -⟩ | ⟨wasmBytes, rfl, -⟩ | ⟨why, -, written⟩
    · rw [same]
      exact halted.stopped
    · exact absurd rfl allowed
    · exact absurd rfl allowed
    · rw [written]
      rfl
  · intro e listed own
    obtain ⟨id, there⟩ := List.mem_iff_getElem?.mp listed
    rcases tasks_turn turn there with ⟨old, before, rfl | rfl⟩ | ⟨d, wasmBytes, -, rfl⟩
    · exact halted.tasks e (List.mem_of_getElem? before) own
    · exact aboutToQuarantine_aborted (halted.tasks old (List.mem_of_getElem? before) own)
    · rfl

theorem Halted.poll {outcome : Outcome} {e next : Execution} {task : ℕ}
    (halted : Halted c s) (spawned : s.tasks[task]? = some e)
    (moved : Scheduler.poll s outcome e = some (after, next)) :
    Halted c { after with tasks := s.tasks.set task next } := by
  have polled := poll_polled moved
  have calm := halted.tasks e (List.mem_of_getElem? spawned)
  refine ⟨?_, ?_⟩
  · change (after.programs c).any isStopped
    rcases programs_polled (c := c) polled with same | ⟨own, ⟨err, there⟩, -⟩
    · rw [same]
      exact halted.stopped
    · have about := calm own
      rw [aboutToQuarantine, there] at about
      cases about
  · intro f listed own
    obtain ⟨id, there⟩ := List.mem_iff_getElem?.mp listed
    rcases tasks_set spawned there with old | ⟨-, rfl⟩
    · exact halted.tasks f (List.mem_of_getElem? old) own
    · rw [polled.cid] at own
      refine aboutToQuarantine_poll ?_ (calm own) moved
      rw [own]
      exact not_running_of_stopped halted.stopped

theorem Halted.step {label : Label} (halted : Halted c s) (allowed : ¬ Rewrites c s label)
    (taken : Scheduler.step compile s label = some t) : Halted c t := by
  cases label with
  | invoke operation =>
    cases taken
    exact ⟨halted.stopped, halted.tasks⟩
  | advance i answer =>
    obtain ⟨call, after, next, made, turn, rfl⟩ := of_step_advance taken
    refine halted.turn ?_ turn
    intro writes
    exact allowed ((bind_made made rewriting).trans writes)
  | poll task outcome =>
    obtain ⟨e, after, next, spawned, moved, rfl⟩ := of_step_poll taken
    exact halted.poll spawned moved

theorem reach_poll (compile : Bytes → Except String Unit) (c : Cid) (outcome : Outcome)
    {e next : Execution} (spawned : s.tasks[id]? = some e)
    (moved : Scheduler.poll s outcome e = some (after, next)) :
    Reach (Scheduler.step compile) (fun u label => ¬ Rewrites c u label) s
      { after with tasks := s.tasks.set id next } :=
  reach_step (a := .poll id outcome) (fun writes => writes) (step_poll spawned moved)

/-- The program can be quarantined without a load or a start of program `c` writing. -/
def CanQuarantine (compile : Bytes → Except String Unit) (c : Cid) (s : State) (cid : Cid) : Prop :=
  ∃ t, Reach (Scheduler.step compile) (fun u label => ¬ Rewrites c u label) s t ∧
    (t.programs cid).any isQuarantined

section Points

variable (compile : Bytes → Except String Unit) (c : Cid) {cid : Cid} {wasmBytes : Bytes} {count : ℕ}
  {aborted : Bool} {err : ComError}

theorem replaced {e : Execution} (spawned : s.tasks[id]? = some e) (next : Execution) :
    (s.tasks.set id next)[id]? = some next :=
  List.getElem?_set_self (List.getElem?_eq_some_iff.mp spawned).1

theorem canQuarantine_of_quarantining
    (spawned : s.tasks[id]? = some ⟨cid, wasmBytes, count, aborted, .quarantining err⟩) :
    CanQuarantine compile c s cid := by
  refine ⟨_, reach_poll compile c .ok spawned rfl, ?_⟩
  change ((s.insertProgram cid _).programs cid).any _
  rw [programs_insertProgram_self]
  rfl

theorem canQuarantine_of_crashed (enough : crashQuarantineThreshold ≤ count)
    (spawned : s.tasks[id]? = some ⟨cid, wasmBytes, count, aborted, .crashed err⟩) :
    CanQuarantine compile c s cid := by
  have first := reach_poll compile c .ok spawned rfl
  dsimp only at first
  rw [if_pos enough] at first
  obtain ⟨t, later, quarantined⟩ := canQuarantine_of_quarantining compile c
    (s := { s.insertCrashCount cid count with
      tasks := s.tasks.set id ⟨cid, wasmBytes, count, aborted, .quarantining err⟩ }) (replaced spawned _)
  exact ⟨t, first.trans later, quarantined⟩

theorem canQuarantine_of_executing (enough : crashQuarantineThreshold ≤ count + 1)
    (spawned : s.tasks[id]? = some ⟨cid, wasmBytes, count, aborted, .executing⟩) :
    CanQuarantine compile c s cid := by
  have first := reach_poll compile c (.error (.trap "unreachable")) spawned rfl
  obtain ⟨t, later, quarantined⟩ := canQuarantine_of_crashed compile c enough
    (s := { s with
      tasks := s.tasks.set id ⟨cid, wasmBytes, count + 1, aborted, .crashed (.trap "unreachable")⟩ })
    (replaced spawned _)
  exact ⟨t, first.trans later, quarantined⟩

theorem canQuarantine_of_spawned (enough : crashQuarantineThreshold ≤ count + 1)
    (spawned : s.tasks[id]? = some ⟨cid, wasmBytes, count, false, .spawned⟩) :
    CanQuarantine compile c s cid := by
  have first := reach_poll compile c .ok spawned rfl
  obtain ⟨t, later, quarantined⟩ := canQuarantine_of_executing compile c enough
    (s := { s with tasks := s.tasks.set id ⟨cid, wasmBytes, count, false, .executing⟩ })
    (replaced spawned _)
  exact ⟨t, first.trans later, quarantined⟩

end Points

theorem canQuarantine_of_about (compile : Bytes → Except String Unit) (c : Cid) {e : Execution}
    (spawned : s.tasks[id]? = some e) (about : aboutToQuarantine e = true) :
    CanQuarantine compile c s e.cid := by
  rcases e with ⟨cid, wasmBytes, count, aborted, point⟩
  cases point with
  | spawned =>
    obtain ⟨kept, enough⟩ := Bool.and_eq_true_iff.mp about
    cases aborted with
    | true => cases kept
    | false => exact canQuarantine_of_spawned compile c (of_decide_eq_true enough) spawned
  | executing => exact canQuarantine_of_executing compile c (of_decide_eq_true about) spawned
  | crashed err => exact canQuarantine_of_crashed compile c (of_decide_eq_true about) spawned
  | quarantining err => exact canQuarantine_of_quarantining compile c spawned
  | _ => cases about

end Stop

/-- When `stop_program` has returned, the program stays stopped as long as no load or
start of it writes its state, exactly if no task of it is about to quarantine it. -/
theorem stop_final_iff {compile : Bytes → Except String Unit} {c : Cid} {before s : State} {i : ℕ}
    {reason : String} {answer : Except ObjError (Option Bytes)}
    (last : before.calls[i]? = some (.stopInsert c reason))
    (returned : step compile before (.advance i answer) = some s) :
    s.calls[i]? = some (.stopDone c (.ok ())) ∧ (s.programs c).any isStopped ∧
      ((∀ t, Reach (step compile) (fun u label => ¬ Rewrites c u label) s t →
          (t.programs c).any isStopped) ↔
        ∀ e ∈ s.tasks, e.cid = c → aboutToQuarantine e = false) := by
  have after : step compile before (.advance i answer) =
      some { before.insertProgram c (.stopped c reason) with
        calls := before.calls.set i (.stopDone c (.ok ())) } := step_advance last rfl
  rw [returned] at after
  cases after
  have stopped : ((before.insertProgram c (.stopped c reason)).programs c).any isStopped := by
    rw [programs_insertProgram_self]
    rfl
  refine ⟨List.getElem?_set_self (List.getElem?_eq_some_iff.mp last).1, stopped, ?_, ?_⟩
  · intro final e listed own
    obtain ⟨id, spawned⟩ := List.mem_iff_getElem?.mp listed
    by_contra about
    obtain ⟨t, reach, quarantined⟩ := canQuarantine_of_about compile c spawned (Bool.not_eq_false _ ▸ about)
    obtain ⟨d, why, found⟩ := exists_of_quarantined quarantined
    have still := final t reach
    rw [own] at found
    rw [found] at still
    cases still
  · intro calm t reach
    have halted : Halted c t := reach.invariant ⟨stopped, calm⟩ fun _ _ _ halted allowed taken =>
      halted.step allowed taken
    exact halted.stopped

/-- A call to stop the program, as call `i`, up to its last step. -/
def stops (i : ℕ) : List Label := .invoke (.stop program "by hand") :: steps i 3

theorem stop_final_before_first_poll :
    ∃ s, Reach (step accepts) anyStep .new s ∧ s.calls[2]? = some (.stopDone program (.ok ())) ∧
      ∀ t, Reach (step accepts) (fun u label => ¬ Rewrites program u label) s t →
        (t.programs program).any isStopped := by
  have run : ∃ before, Reach (step accepts) anyStep .new before ∧
      (before.calls[2]? = some (.stopInsert program "by hand") ∧
        ∀ e ∈ before.tasks, e.cid = program → aboutToQuarantine e = false) :=
    exists_reach _ _ (loads 0 ++ starts 1 ++ stops 2) (by decide)
  obtain ⟨before, reach, last, calm⟩ := run
  have returned : step accepts before (.advance 2 (.ok none)) = some _ := step_advance last rfl
  obtain ⟨done, -, final⟩ := stop_final_iff last returned
  exact ⟨_, reach.trans (reach_step trivial returned), done, final.mpr calm⟩

/-- The task runs the program for the tenth time when the program is stopped, and the
program crashes: it is quarantined after `stop_program` has returned. -/
theorem stopped_program_quarantined :
    ∃ s t, Reach (step accepts) anyStep .new s ∧
      Reach (step accepts) (fun u label => ¬ Rewrites program u label) s t ∧
      s.calls[2]? = some (.stopDone program (.ok ())) ∧ (s.programs program).any isStopped ∧
      (t.programs program).any isQuarantined := by
  have run : ∃ s, Reach (step accepts) anyStep .new s ∧
      (s.calls[2]? = some (.stopDone program (.ok ())) ∧ (s.programs program).any isStopped ∧
        ∃ e ∈ s.tasks[0]?, e.cid = program ∧ e.aborted = true ∧ aboutToQuarantine e = true) :=
    exists_reach _ _ (loads 0 ++ starts 1 ++ crashes 0 ++ stops 2 ++ steps 2 1) (by decide)
  obtain ⟨s, reach, done, stopped, e, spawned, own, -, about⟩ := run
  obtain ⟨t, later, quarantined⟩ := canQuarantine_of_about accepts program spawned about
  exact ⟨s, t, reach, later, done, stopped, own ▸ quarantined⟩

end Craftec.Com.Lifecycle
