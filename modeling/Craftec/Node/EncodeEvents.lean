/- GID: Craftec/Node/EncodeEvents
   generality: I
   digest: The event loop that spawns encode tasks, and why their own puts spawn none. -/

import Mathlib
import Craftec.Library.RecentCache
import Craftec.Library.Run
import Craftec.Node.EncodeTask
import Craftec.Obj.IdenticalPuts
import Craftec.Obj.Refinement
import Craftec.Obj.Store
import Craftec.Rlnc.Engine
import Craftec.Types.Digest
import Craftec.Types.Piece

set_option autoImplicit false
set_option relaxedAutoImplicit false

namespace Craftec.Node.EncodeEvents

open Craftec.Library
open Craftec.Library.RecentCache (Lru)
open Craftec.Library.Run (Reach anyStep exists_reach mem_set_cases)
open Craftec.Node.EncodeTask (CodedPieceIndex Encoding fresh)
open Craftec.Obj
open Craftec.Obj.IdenticalPuts (emptyFs)
open Craftec.Obj.Refinement (sureBloom)
open Craftec.Obj.Store (Bloom advance_turn of_step_advance of_step_invoke)
open Craftec.Rlnc.Engine (encode)
open Craftec.Types.Digest (Bytes Blake3 Cid)
open Craftec.Types.Piece (CodedPiece)

/-- Where the event loop stands: it waits for an event, or has received the event with
this number and announces its content to the peers. -/
inductive Loop where
  | waiting
  | announcing (event : ℕ) (cid : Cid)
  | stopped

/-- Where an encode task stands. A call of the store is known by its number. -/
inductive Job where
  | spawned (cid : Cid)
  | getting (cid : Cid) (call : ℕ)
  | encoded (cid : Cid) (pieces : List CodedPiece)
  | storing (cid : Cid) (pieces : List CodedPiece) (pcids : List Cid)
  | marked (cid : Cid) (bytes : Bytes) (pieces : List CodedPiece) (pcids : List Cid)
  | putting (cid : Cid) (call : ℕ) (pieces : List CodedPiece) (pcids : List Cid)
  | indexed (cid : Cid) (pcids : List Cid)
  | done

/-- The store, the index and the tracker, the loop with the number of events it has
passed, and the tasks. The last four fields are history: which call published each
event, the puts made outside the tasks and by them, and the event of each task. -/
structure World (F : Type) where
  store : Store.State F
  node : Encoding
  received : ℕ
  loop : Loop
  jobs : List Job
  publishers : List ℕ
  outsidePuts : List ℕ
  taskPuts : List ℕ
  triggers : List ℕ

structure Draw where
  closed : Bool
  vectors : ℕ → Bytes
  now : ℕ

inductive Label where
  | outside (i : ℕ) (call : Store.Call)
  | store (i : ℕ) (choice : Store.Choice)
  | receive (skipped : ℕ)
  | dispatch
  | shutdown
  | job (j i : ℕ) (draw : Draw)

def isPut : Store.Call → Bool
  | .put _ => true
  | _ => false

def publishes {F : Type} (s : Store.Shared F) : Store.Task → Bool
  | .putPublish _ => s.sender
  | _ => false

section Steps

variable (B : Blake3) {F : Type} (bloom : Bloom F) (base : Shard.Path)
  (serialise : CodedPiece → Except String Bytes)

/-- One step of an encode task. A call it makes of the store gets number `i`. -/
def jobStep (w : World F) (i : ℕ) (draw : Draw) : Job → Option (World F × Job)
  | .spawned cid =>
    (Store.step B bloom base w.store (.invoke i (.get cid))).map fun store =>
      ({ w with store := store }, .getting cid i)
  | .getting cid call =>
    match w.store.calls call with
    | .getDone _ (.ok (some data)) =>
      match encode B Binary64.rounded draw.closed data 32 draw.vectors with
      | .ok pieces => some (w, .encoded cid pieces)
      | .error _ => some (w, .done)
    | .getDone _ _ => some (w, .done)
    | _ => none
  | .encoded cid pieces =>
    some ({ w with node := { w.node with tracker := w.node.tracker.recordK cid 32 } },
      .storing cid pieces [])
  | .storing cid [] pcids =>
    some ({ w with node := { w.node with pieceIndex := w.node.pieceIndex.insert cid pcids } },
      .indexed cid pcids)
  | .storing cid (piece :: rest) pcids =>
    match serialise piece with
    | .error _ => some (w, .storing cid rest pcids)
    | .ok bytes =>
      -- marked before the put can send its event
      some ({ w with node := { w.node with
          pieceIndex := w.node.pieceIndex.markPieceCid (Cid.fromData B bytes) } },
        .marked cid bytes rest pcids)
  | .marked cid bytes rest pcids =>
    (Store.step B bloom base w.store (.invoke i (.put bytes))).map fun store =>
      ({ w with store := store, taskPuts := w.taskPuts ++ [i] }, .putting cid i rest pcids)
  | .putting cid call rest pcids =>
    match w.store.calls call with
    | .putDone _ (.ok pcid) => some (w, .storing cid rest (pcids ++ [pcid]))
    | .putDone _ (.error _) => some (w, .storing cid rest pcids)
    | _ => none
  | .indexed cid pcids =>
    let holder := ⟨w.node.nodeId, UInt32.ofNat pcids.length, draw.now⟩
    some ({ w with node := { w.node with tracker := w.node.tracker.recordPiece cid holder } }, .done)
  | .done => none

def step (w : World F) : Label → Option (World F)
  | .outside i call =>
    (Store.step B bloom base w.store (.invoke i call)).map fun store =>
      { w with
        store := store
        outsidePuts := if isPut call then w.outsidePuts ++ [i] else w.outsidePuts }
  | .store i choice =>
    (Store.step B bloom base w.store (.advance i choice)).map fun store =>
      { w with
        store := store
        publishers :=
          if publishes w.store.shared (w.store.calls i) then w.publishers ++ [i] else w.publishers }
  | .receive skipped =>
    -- a receiver that lags goes on with a later event
    match w.loop, w.store.shared.published[w.received + skipped]? with
    | .waiting, some cid =>
      some { w with
        received := w.received + skipped + 1
        loop := .announcing (w.received + skipped) cid }
    | _, _ => none
  | .dispatch =>
    match w.loop with
    | .announcing event cid =>
      if w.node.pieceIndex.isPieceCid cid then some { w with loop := .waiting }
      else
        some { w with
          loop := .waiting
          jobs := w.jobs ++ [.spawned cid]
          triggers := w.triggers ++ [event] }
    | _ => none
  | .shutdown =>
    match w.loop with
    | .waiting => some { w with loop := .stopped }
    | _ => none
  | .job j i draw =>
    (w.jobs[j]?.bind (jobStep B bloom base serialise w i draw)).map fun moved =>
      { moved.1 with jobs := w.jobs.set j moved.2 }

end Steps

def putData : Store.Task → Option Bytes
  | .putBloom data | .putMetadata data | .putOpen data | .putWrite data _ _ | .putRename data
  | .putCleanUp data _ | .putInsert data | .putCache data | .putPublish data | .putDone data _ =>
    some data
  | _ => none

def World.IsPiece {F : Type} (w : World F) (cid : Cid) : Prop := w.node.pieceIndex.isPieceCid cid = true

section Store

variable {B : Blake3} {F : Type} {bloom : Bloom F} {base : Shard.Path}
  {s after : Store.Shared F} {choice : Store.Choice}
  {task t : Store.Task}

theorem putData_advance (moved : Store.advance B bloom base s choice task = some (after, t)) :
    putData t = putData task := by
  cases advance_turn B bloom base moved <;> rfl

theorem ne_idle_advance (moved : Store.advance B bloom base s choice task = some (after, t)) :
    t ≠ .idle := by
  cases advance_turn B bloom base moved <;> exact Store.Task.noConfusion

theorem published_advance
    (moved : Store.advance B bloom base s choice task = some (after, t)) :
    (publishes s task = true ∧ ∃ data result, task = .putPublish data ∧ t = .putDone data result ∧
        after.published = s.published ++ [Cid.fromData B data]) ∨
      (publishes s task = false ∧ after.published = s.published) := by
  cases advance_turn B bloom base moved with
  | publishes data =>
    cases sends : s.sender with
    | true => exact .inl ⟨sends, data, _, rfl, rfl, rfl⟩
    | false => exact .inr ⟨sends, rfl⟩
  | _ => exact .inr ⟨rfl, rfl⟩

end Store

/-- An event comes from a put made outside the tasks, or its content is marked. -/
def World.Attributed {F : Type} (w : World F) (i : ℕ) (cid : Cid) : Prop :=
  i ∈ w.outsidePuts ∨ w.IsPiece cid

/-- Every put is listed on one side; what the tasks put was marked before; and every event
has the put that sent it, which sends no other. -/
structure History (B : Blake3) {F : Type} (w : World F) : Prop where
  listed : ∀ i, (putData (w.store.calls i)).isSome → i ∈ w.outsidePuts ∨ i ∈ w.taskPuts
  begun : ∀ i, i ∈ w.outsidePuts ∨ i ∈ w.taskPuts → w.store.calls i ≠ .idle
  apart : ∀ i ∈ w.outsidePuts, i ∉ w.taskPuts
  marked : ∀ i ∈ w.taskPuts, ∀ data, putData (w.store.calls i) = some data →
    w.IsPiece (Cid.fromData B data)
  ended : ∀ i ∈ w.publishers, ∃ data result, w.store.calls i = .putDone data result
  once : w.publishers.Nodup
  events : List.Forall₂ w.Attributed w.publishers w.store.shared.published

def JobOk (B : Blake3) {F : Type} (w : World F) : Job → Prop
  | .marked _ bytes _ _ => w.IsPiece (Cid.fromData B bytes)
  | _ => True

def World.passed {F : Type} (w : World F) : ℕ :=
  match w.loop with
  | .announcing event _ => event
  | _ => w.received

/-- Each task was spawned for an event of its own, sent by a put from outside the tasks. -/
structure Spawning (B : Blake3) {F : Type} (w : World F) : Prop where
  current : ∀ event cid, w.loop = .announcing event cid →
    w.store.shared.published[event]? = some cid ∧ event < w.received
  passed : ∀ k ∈ w.triggers, k < w.passed
  once : w.triggers.Nodup
  outside : ∀ k ∈ w.triggers, ∃ i ∈ w.outsidePuts, w.publishers[k]? = some i
  counted : w.jobs.length = w.triggers.length
  jobs : ∀ job ∈ w.jobs, JobOk B w job

section Kept

variable {B : Blake3} {F : Type} {bloom : Bloom F} {base : Shard.Path}
  {serialise : CodedPiece → Except String Bytes} {w v : World F} {i : ℕ}

theorem History.invoke {call : Store.Call} {store : Store.State F}
    {outs tasks : List ℕ} (history : History B w)
    (taken : Store.step B bloom base w.store (.invoke i call) = some store)
    (outer : ∀ j, j ∈ outs ↔ j ∈ w.outsidePuts ∨ (j = i ∧ i ∈ outs))
    (inner : ∀ j, j ∈ tasks ↔ j ∈ w.taskPuts ∨ (j = i ∧ i ∈ tasks))
    (put : (putData call.start).isSome → i ∈ outs ∨ i ∈ tasks) (one : i ∈ outs → i ∉ tasks)
    (marked : i ∈ tasks → ∀ data, putData call.start = some data → w.IsPiece (Cid.fromData B data)) :
    History B { w with store := store, outsidePuts := outs, taskPuts := tasks } := by
  obtain ⟨free, rfl⟩ := of_step_invoke taken
  have fresh : ¬ (i ∈ w.outsidePuts ∨ i ∈ w.taskPuts) := fun known => history.begun i known free
  have started : call.start ≠ .idle := by cases call <;> simp [Store.Call.start]
  have here : Function.update w.store.calls i call.start i = call.start := Function.update_self _ _ _
  have away {j : ℕ} (other : j ≠ i) :
      Function.update w.store.calls i call.start j = w.store.calls j := Function.update_of_ne other _ _
  constructor
  · intro j some_
    change (putData (Function.update w.store.calls i call.start j)).isSome at some_
    rcases eq_or_ne j i with rfl | other
    · rw [here] at some_
      exact put some_
    · rw [away other] at some_
      exact (history.listed j some_).imp (fun known => (outer j).mpr (.inl known))
        fun known => (inner j).mpr (.inl known)
  · intro j known
    change Function.update w.store.calls i call.start j ≠ .idle
    rcases eq_or_ne j i with rfl | other
    · rwa [here]
    · rw [away other]
      refine history.begun j (known.imp ?_ ?_)
      · exact fun listed => ((outer j).mp listed).resolve_right fun same => other same.1
      · exact fun listed => ((inner j).mp listed).resolve_right fun same => other same.1
  · intro j out task
    rcases (outer j).mp out with old | ⟨rfl, -⟩
    · rcases (inner j).mp task with old' | ⟨rfl, -⟩
      · exact history.apart j old old'
      · exact fresh (.inl old)
    · exact one out task
  · intro j task data about
    change putData (Function.update w.store.calls i call.start j) = some data at about
    rcases eq_or_ne j i with rfl | other
    · rw [here] at about
      exact marked task data about
    · rw [away other] at about
      exact history.marked j (((inner j).mp task).resolve_right fun same => other same.1) data about
  · intro j published
    obtain ⟨data, result, done⟩ := history.ended j published
    have other : j ≠ i := by
      rintro rfl
      rw [free] at done
      cases done
    exact ⟨data, result, (away other).trans done⟩
  · exact history.once
  · exact history.events.imp fun j cid => Or.imp_left fun known => (outer j).mpr (.inl known)

theorem History.advance {choice : Store.Choice} {store : Store.State F}
    (history : History B w)
    (taken : Store.step B bloom base w.store (.advance i choice) = some store) :
    History B { w with
      store := store
      publishers :=
        if publishes w.store.shared (w.store.calls i) then w.publishers ++ [i] else w.publishers } := by
  obtain ⟨shared, t, moved, rfl⟩ := of_step_advance taken
  have same := putData_advance moved
  have here : Function.update w.store.calls i t i = t := Function.update_self _ _ _
  have away {j : ℕ} (other : j ≠ i) : Function.update w.store.calls i t j = w.store.calls j :=
    Function.update_of_ne other _ _
  have data (j : ℕ) : putData (Function.update w.store.calls i t j) = putData (w.store.calls j) := by
    rcases eq_or_ne j i with rfl | other
    · rw [here, same]
    · rw [away other]
  have unfinished : i ∉ w.publishers := by
    intro published
    obtain ⟨data, result, done⟩ := history.ended i published
    rw [done] at moved
    cases moved
  have ended (j : ℕ) (published : j ∈ w.publishers) :
      ∃ data result, Function.update w.store.calls i t j = .putDone data result := by
    obtain ⟨data, result, done⟩ := history.ended j published
    exact ⟨data, result, (away fun same => unfinished (same ▸ published)).trans done⟩
  have begun (j : ℕ) (known : j ∈ w.outsidePuts ∨ j ∈ w.taskPuts) :
      Function.update w.store.calls i t j ≠ .idle := by
    rcases eq_or_ne j i with rfl | other
    · rw [here]
      exact ne_idle_advance moved
    · rw [away other]
      exact history.begun j known
  have listed (j : ℕ) (some_ : (putData (Function.update w.store.calls i t j)).isSome) :=
    history.listed j (data j ▸ some_)
  have marked (j : ℕ) (task : j ∈ w.taskPuts) (bytes : Bytes)
      (about : putData (Function.update w.store.calls i t j) = some bytes) :=
    history.marked j task bytes ((data j).symm.trans about)
  rcases published_advance moved with ⟨sends, bytes, result, before, rfl, sent⟩ | ⟨quiet, unsent⟩
  · rw [if_pos sends]
    refine ⟨listed, begun, history.apart, marked, ?_, ?_, ?_⟩
    · intro j published
      rcases List.mem_append.mp published with old | new
      · exact ended j old
      · rw [List.mem_singleton.mp new]
        exact ⟨bytes, result, here⟩
    · refine List.nodup_append.mpr ⟨history.once, List.nodup_singleton i, ?_⟩
      intro a old b new same
      rw [List.mem_singleton.mp new] at same
      exact unfinished (same ▸ old)
    · have attributed : w.Attributed i (Cid.fromData B bytes) := by
        have about : putData (w.store.calls i) = some bytes := by
          rw [before]
          rfl
        rcases history.listed i (by rw [about]; rfl) with out | task
        · exact .inl out
        · exact .inr (history.marked i task bytes about)
      change List.Forall₂ w.Attributed (w.publishers ++ [i]) shared.published
      rw [sent]
      exact List.rel_append history.events (.cons attributed .nil)
  · rw [if_neg (by rw [quiet]; exact Bool.false_ne_true)]
    refine ⟨listed, begun, history.apart, marked, ended, history.once, ?_⟩
    change List.Forall₂ w.Attributed w.publishers shared.published
    rw [unsent]
    exact history.events

theorem History.keep (history : History B w) (store : v.store = w.store)
    (publishers : v.publishers = w.publishers) (outs : v.outsidePuts = w.outsidePuts)
    (tasks : v.taskPuts = w.taskPuts) (marks : ∀ cid, w.IsPiece cid → v.IsPiece cid) : History B v := by
  constructor
  · rw [store, outs, tasks]
    exact history.listed
  · rw [store, outs, tasks]
    exact history.begun
  · rw [outs, tasks]
    exact history.apart
  · rw [store, tasks]
    exact fun j task data about => marks _ (history.marked j task data about)
  · rw [store, publishers]
    exact history.ended
  · rw [publishers]
    exact history.once
  · rw [store, publishers]
    refine history.events.imp ?_
    intro j cid
    unfold World.Attributed
    rw [outs]
    exact Or.imp_right (marks cid)

structure Grows (w v : World F) : Prop where
  published : w.store.shared.published <+: v.store.shared.published
  publishers : w.publishers <+: v.publishers
  outs : ∀ i ∈ w.outsidePuts, i ∈ v.outsidePuts
  marks : ∀ cid, w.IsPiece cid → v.IsPiece cid

theorem JobOk.mono {job : Job} (ok : JobOk B w job) (marks : ∀ cid, w.IsPiece cid → v.IsPiece cid) :
    JobOk B v job := by
  cases job with
  | marked cid bytes pieces pcids => exact marks _ ok
  | _ => trivial

theorem getElem?_of_extends {α : Type} {l m : List α} (inside : l <+: m) {k : ℕ} {a : α}
    (there : l[k]? = some a) : m[k]? = some a := by
  obtain ⟨rest, rfl⟩ := inside
  rw [List.getElem?_append_left (List.getElem?_eq_some_iff.mp there).1, there]

theorem Spawning.grow (spawning : Spawning B w) (grows : Grows w v) (loop : v.loop = w.loop)
    (received : v.received = w.received) (triggers : v.triggers = w.triggers)
    (jobs : v.jobs.length = w.jobs.length) (ok : ∀ job ∈ v.jobs, JobOk B v job) : Spawning B v := by
  constructor
  · intro event cid announcing
    rw [loop] at announcing
    obtain ⟨there, below⟩ := spawning.current event cid announcing
    exact ⟨getElem?_of_extends grows.published there, received ▸ below⟩
  · have same : v.passed = w.passed := by
      unfold World.passed
      rw [loop, received]
    rw [triggers, same]
    exact spawning.passed
  · rw [triggers]
    exact spawning.once
  · rw [triggers]
    intro k listed
    obtain ⟨i, out, publisher⟩ := spawning.outside k listed
    exact ⟨i, grows.outs i out, getElem?_of_extends grows.publishers publisher⟩
  · rw [jobs, triggers]
    exact spawning.counted
  · exact ok

theorem mem_append_self {l : List ℕ} (j : ℕ) : j ∈ l ++ [i] ↔ j ∈ l ∨ (j = i ∧ i ∈ l ++ [i]) := by
  simp

theorem mem_self {l : List ℕ} (j : ℕ) : j ∈ l ↔ j ∈ l ∨ (j = i ∧ i ∈ l) := by
  constructor
  · exact .inl
  · rintro (old | ⟨rfl, old⟩) <;> exact old

theorem grows_invoke {call : Store.Call} {store : Store.State F}
    {outs tasks : List ℕ}
    (taken : Store.step B bloom base w.store (.invoke i call) = some store)
    (outer : ∀ j ∈ w.outsidePuts, j ∈ outs) :
    Grows w { w with store := store, outsidePuts := outs, taskPuts := tasks } := by
  obtain ⟨-, rfl⟩ := of_step_invoke taken
  exact ⟨List.prefix_refl _, List.prefix_refl _, outer, fun _ => id⟩

theorem grows_advance {choice : Store.Choice} {store : Store.State F}
    (taken : Store.step B bloom base w.store (.advance i choice) = some store) :
    Grows w { w with
      store := store
      publishers :=
        if publishes w.store.shared (w.store.calls i) then w.publishers ++ [i] else w.publishers } := by
  obtain ⟨shared, t, moved, rfl⟩ := of_step_advance taken
  refine ⟨?_, ?_, fun _ => id, fun _ => id⟩
  · change w.store.shared.published <+: shared.published
    rcases published_advance moved with ⟨-, bytes, result, -, -, sent⟩ | ⟨-, unsent⟩
    · rw [sent]
      exact List.prefix_append _ _
    · rw [unsent]
  · dsimp only
    split
    · exact List.prefix_append _ _
    · exact List.prefix_refl _

/-- What a step of a task leaves: the histories in order and longer, and the loop as it was. -/
structure Keeps (B : Blake3) (w v : World F) : Prop where
  history : History B v
  grows : Grows w v
  loop : v.loop = w.loop
  received : v.received = w.received
  triggers : v.triggers = w.triggers

theorem Keeps.node (node : Encoding) (history : History B w)
    (marks : ∀ cid, w.IsPiece cid → node.pieceIndex.isPieceCid cid = true) :
    Keeps B w { w with node := node } where
  history := history.keep rfl rfl rfl rfl marks
  grows := ⟨List.prefix_refl _, List.prefix_refl _, fun _ => id, marks⟩
  loop := rfl
  received := rfl
  triggers := rfl

theorem Keeps.refl (history : History B w) : Keeps B w w := .node w.node history fun _ => id

theorem isPieceCid_markPieceCid (index : CodedPieceIndex) (cid other : Cid) :
    (index.markPieceCid cid).isPieceCid other = true ↔ other = cid ∨ index.isPieceCid other = true := by
  simp only [CodedPieceIndex.isPieceCid, CodedPieceIndex.markPieceCid, decide_eq_true_eq,
    Finset.mem_insert]

theorem jobStep_keeps {draw : Draw} {job next : Job} (history : History B w) (ok : JobOk B w job)
    (moved : jobStep B bloom base serialise w i draw job = some (v, next)) :
    Keeps B w v ∧ JobOk B v next := by
  cases job with
  | done => cases moved
  | spawned cid =>
    obtain ⟨store, taken, same⟩ := Option.map_eq_some_iff.mp moved
    cases same
    refine ⟨⟨history.invoke taken mem_self mem_self ?_ (history.apart i) ?_,
      grows_invoke taken fun _ => id, rfl, rfl, rfl⟩, trivial⟩
    · intro some_
      cases some_
    · intro _ data about
      cases about
  | marked cid bytes pieces pcids =>
    obtain ⟨store, taken, same⟩ := Option.map_eq_some_iff.mp moved
    cases same
    have listed : i ∈ w.taskPuts ++ [i] := List.mem_append_right _ (List.mem_singleton_self i)
    have fresh : i ∉ w.outsidePuts := fun out =>
      history.begun i (.inl out) (of_step_invoke taken).1
    refine ⟨⟨history.invoke taken mem_self mem_append_self (fun _ => .inr listed)
      (fun out => absurd out fresh) ?_, grows_invoke taken fun _ => id, rfl, rfl, rfl⟩, trivial⟩
    intro _ data about
    cases about
    exact ok
  | getting cid call =>
    dsimp only [jobStep] at moved
    split at moved
    · split at moved <;> cases moved <;> exact ⟨.refl history, trivial⟩
    · cases moved
      exact ⟨.refl history, trivial⟩
    · cases moved
  | putting cid call pieces pcids =>
    dsimp only [jobStep] at moved
    split at moved
    · cases moved
      exact ⟨.refl history, trivial⟩
    · cases moved
      exact ⟨.refl history, trivial⟩
    · cases moved
  | storing cid pieces pcids =>
    cases pieces with
    | nil =>
      cases moved
      exact ⟨.node _ history fun _ => id, trivial⟩
    | cons piece rest =>
      dsimp only [jobStep] at moved
      split at moved
      · cases moved
        exact ⟨.refl history, trivial⟩
      · cases moved
        refine ⟨.node _ history ?_, (isPieceCid_markPieceCid _ _ _).mpr (.inl rfl)⟩
        exact fun cid before => (isPieceCid_markPieceCid _ _ _).mpr (.inr before)
  | encoded cid pieces | indexed cid pcids =>
    cases moved
    exact ⟨.node _ history fun _ => id, trivial⟩

theorem History.outside {call : Store.Call} {store : Store.State F}
    (history : History B w)
    (taken : Store.step B bloom base w.store (.invoke i call) = some store) :
    History B { w with
      store := store
      outsidePuts := if isPut call then w.outsidePuts ++ [i] else w.outsidePuts } := by
  have fresh : i ∉ w.taskPuts := fun task => history.begun i (.inr task) (of_step_invoke taken).1
  have unmarked (task : i ∈ w.taskPuts) (data : Bytes) (_ : putData call.start = some data) :
      w.IsPiece (Cid.fromData B data) := absurd task fresh
  cases call with
  | put data =>
    have listed : i ∈ w.outsidePuts ++ [i] := List.mem_append_right _ (List.mem_singleton_self i)
    exact history.invoke taken mem_append_self mem_self (fun _ => .inl listed) (fun _ => fresh) unmarked
  | get cid | delete cid =>
    exact history.invoke taken mem_self mem_self (fun some_ => by cases some_) (fun _ => fresh) unmarked

theorem publisher_of_unmarked (history : History B w) {event : ℕ} {cid : Cid}
    (there : w.store.shared.published[event]? = some cid) (unmarked : ¬ w.IsPiece cid) :
    ∃ i ∈ w.outsidePuts, w.publishers[event]? = some i := by
  obtain ⟨inside, rfl⟩ := List.getElem?_eq_some_iff.mp there
  have within : event < w.publishers.length := by rwa [history.events.length_eq]
  refine ⟨w.publishers[event], ?_, List.getElem?_eq_getElem within⟩
  exact (history.events.get within inside).resolve_right unmarked

theorem Spawning.dispatch {event : ℕ} {cid : Cid} (history : History B w) (spawning : Spawning B w)
    (announcing : w.loop = .announcing event cid) (unmarked : ¬ w.IsPiece cid) :
    Spawning B { w with
      loop := .waiting
      jobs := w.jobs ++ [.spawned cid]
      triggers := w.triggers ++ [event] } := by
  obtain ⟨there, below⟩ := spawning.current event cid announcing
  have before : ∀ k ∈ w.triggers, k < event := by
    intro k listed
    have passed := spawning.passed k listed
    rwa [World.passed, announcing] at passed
  constructor
  · intro other cid waiting
    cases waiting
  · intro k listed
    change k < w.received
    rcases List.mem_append.mp listed with old | new
    · exact (before k old).trans below
    · rw [List.mem_singleton.mp new]
      exact below
  · refine List.nodup_append.mpr ⟨spawning.once, List.nodup_singleton event, ?_⟩
    intro a old b new same
    rw [List.mem_singleton.mp new] at same
    exact absurd (before a old) (same ▸ Nat.lt_irrefl a)
  · intro k listed
    rcases List.mem_append.mp listed with old | new
    · exact spawning.outside k old
    · rw [List.mem_singleton.mp new]
      exact publisher_of_unmarked history there unmarked
  · simp only [List.length_append, List.length_singleton, spawning.counted]
  · intro job listed
    rcases List.mem_append.mp listed with old | new
    · exact (spawning.jobs job old).mono fun _ => id
    · rw [List.mem_singleton.mp new]
      trivial

theorem Spawning.turn {loop : Loop} {received : ℕ} (spawning : Spawning B w)
    (current : ∀ event cid, loop = .announcing event cid →
      w.store.shared.published[event]? = some cid ∧ event < received)
    (passed : w.passed ≤ ({ w with loop := loop, received := received } : World F).passed) :
    Spawning B { w with loop := loop, received := received } where
  current := current
  passed k listed := (spawning.passed k listed).trans_le passed
  once := spawning.once
  outside := spawning.outside
  counted := spawning.counted
  jobs job listed := (spawning.jobs job listed).mono fun _ => id

theorem inv_step {label : Label} (history : History B w) (spawning : Spawning B w)
    (taken : step B bloom base serialise w label = some v) : History B v ∧ Spawning B v := by
  cases label with
  | outside i call =>
    obtain ⟨store, invoked, rfl⟩ := Option.map_eq_some_iff.mp taken
    have grows : Grows w { w with
        store := store
        outsidePuts := if isPut call then w.outsidePuts ++ [i] else w.outsidePuts } := by
      refine grows_invoke invoked ?_
      intro j out
      split
      · exact List.mem_append_left _ out
      · exact out
    exact ⟨history.outside invoked, spawning.grow grows rfl rfl rfl rfl fun job listed =>
      (spawning.jobs job listed).mono grows.marks⟩
  | store i choice =>
    obtain ⟨store, advanced, rfl⟩ := Option.map_eq_some_iff.mp taken
    have grows := grows_advance (w := w) advanced
    exact ⟨history.advance advanced, spawning.grow grows rfl rfl rfl rfl fun job listed =>
      (spawning.jobs job listed).mono grows.marks⟩
  | receive skipped =>
    dsimp only [step] at taken
    split at taken
    · rename_i cid waiting there
      cases taken
      refine ⟨history.keep rfl rfl rfl rfl fun _ => id, spawning.turn ?_ ?_⟩
      · intro event other same
        cases same
        exact ⟨there, Nat.lt_succ_self _⟩
      · change w.passed ≤ w.received + skipped
        rw [World.passed, waiting]
        exact Nat.le_add_right _ _
    · cases taken
  | dispatch =>
    dsimp only [step] at taken
    split at taken
    · rename_i event cid announcing
      split at taken
      · cases taken
        refine ⟨history.keep rfl rfl rfl rfl fun _ => id, spawning.turn (fun _ _ same => by cases same) ?_⟩
        change w.passed ≤ w.received
        rw [World.passed, announcing]
        exact (spawning.current event cid announcing).2.le
      · rename_i unmarked
        cases taken
        exact ⟨history.keep rfl rfl rfl rfl fun _ => id, spawning.dispatch history announcing unmarked⟩
    · cases taken
  | shutdown =>
    dsimp only [step] at taken
    split at taken
    · rename_i waiting
      cases taken
      refine ⟨history.keep rfl rfl rfl rfl fun _ => id, spawning.turn (fun _ _ same => by cases same) ?_⟩
      change w.passed ≤ w.received
      rw [World.passed, waiting]
    · cases taken
  | job j i draw =>
    obtain ⟨⟨after, next⟩, moved, rfl⟩ := Option.map_eq_some_iff.mp taken
    obtain ⟨job, spawned, moved⟩ := Option.bind_eq_some_iff.mp moved
    obtain ⟨kept, ok⟩ :=
      jobStep_keeps history (spawning.jobs job (List.mem_of_getElem? spawned)) moved
    have grown : Grows w { after with jobs := w.jobs.set j next } :=
      ⟨kept.grows.published, kept.grows.publishers, kept.grows.outs, kept.grows.marks⟩
    refine ⟨kept.history.keep rfl rfl rfl rfl fun _ => id,
      spawning.grow grown kept.loop kept.received kept.triggers List.length_set ?_⟩
    intro other listed
    rcases mem_set_cases listed with rfl | ⟨k, -, there⟩
    · exact ok.mono fun _ => id
    · exact (spawning.jobs other (List.mem_of_getElem? there)).mono grown.marks

end Kept

/-- A process that has just started: no call, no event, no task. -/
structure Started {F : Type} (w : World F) : Prop where
  calls : ∀ i, w.store.calls i = .idle
  published : w.store.shared.published = []
  loop : w.loop = .waiting
  jobs : w.jobs = []
  publishers : w.publishers = []
  puts : w.outsidePuts = [] ∧ w.taskPuts = []
  triggers : w.triggers = []

section Bound

variable {B : Blake3} {F : Type} {bloom : Bloom F} {base : Shard.Path}
  {serialise : CodedPiece → Except String Bytes} {w start : World F}

theorem history_started (started : Started w) : History B w where
  listed i some_ := by
    rw [started.calls i] at some_
    cases some_
  begun i known := by
    rw [started.puts.1, started.puts.2] at known
    rcases known with known | known <;> cases known
  apart i known := by
    rw [started.puts.1] at known
    cases known
  marked i known := by
    rw [started.puts.2] at known
    cases known
  ended i known := by
    rw [started.publishers] at known
    cases known
  once := by
    rw [started.publishers]
    exact List.nodup_nil
  events := by
    rw [started.publishers, started.published]
    exact .nil

theorem spawning_started (started : Started w) : Spawning B w where
  current event cid announcing := by
    rw [started.loop] at announcing
    cases announcing
  passed k listed := by
    rw [started.triggers] at listed
    cases listed
  once := by
    rw [started.triggers]
    exact List.nodup_nil
  outside k listed := by
    rw [started.triggers] at listed
    cases listed
  counted := by
    rw [started.jobs, started.triggers]
    rfl
  jobs job listed := by
    rw [started.jobs] at listed
    cases listed

theorem length_triggers_le (history : History B w) (spawning : Spawning B w) :
    w.triggers.length ≤ w.outsidePuts.length := by
  let publisher (k : ℕ) : ℕ := (w.publishers[k]?).getD 0
  have different : (w.triggers.map publisher).Nodup := by
    refine spawning.once.map_on ?_
    intro k listed l listed' same
    obtain ⟨i, -, sent⟩ := spawning.outside k listed
    obtain ⟨j, -, sent'⟩ := spawning.outside l listed'
    simp only [publisher, sent, sent', Option.getD_some] at same
    subst same
    exact (List.getElem?_inj (List.getElem?_eq_some_iff.mp sent).1 history.once).mp
      (sent.trans sent'.symm)
  have inside : w.triggers.map publisher ⊆ w.outsidePuts := by
    intro i listed
    obtain ⟨k, trigger, rfl⟩ := List.mem_map.mp listed
    obtain ⟨i, out, sent⟩ := spawning.outside k trigger
    simpa only [publisher, sent, Option.getD_some] using out
  have fewer := (different.subperm inside).length_le
  rwa [List.length_map] at fewer

/-- Puts, gets and deletes, events received, lagged behind or lost, and encode tasks, in any
interleaving: each task was spawned for an event sent by a put made outside the tasks, and
there are at most as many tasks as such puts. -/
theorem no_recursive_encoding (started : Started start)
    (reach : Reach (step B bloom base serialise) anyStep start w) :
    (∀ k ∈ w.triggers, ∃ i, w.publishers[k]? = some i ∧ i ∈ w.outsidePuts ∧ i ∉ w.taskPuts) ∧
      w.jobs.length = w.triggers.length ∧ w.jobs.length ≤ w.outsidePuts.length := by
  have inv : History B w ∧ Spawning B w :=
    reach.invariant ⟨history_started started, spawning_started started⟩
      fun _ _ _ inv _ taken => inv_step inv.1 inv.2 taken
  obtain ⟨history, spawning⟩ := inv
  refine ⟨?_, spawning.counted, ?_⟩
  · intro k listed
    obtain ⟨i, out, publisher⟩ := spawning.outside k listed
    exact ⟨i, publisher, out, history.apart i out⟩
  · rw [spawning.counted]
    exact length_triggers_le history spawning

end Bound

def newborn : World Unit :=
  ⟨⟨⟨emptyFs, (), Lru.empty 1, true, []⟩, fun _ => .idle⟩, fresh, 0, .waiting, [], [], [], [], []⟩

theorem started_newborn : Started newborn := ⟨fun _ => rfl, rfl, rfl, rfl, rfl, ⟨rfl, rfl⟩, rfl⟩

def onePut : List Label :=
  .outside 0 (.put [1]) :: List.replicate 9 (.store 0 ⟨1, none⟩) ++ [.receive 0, .dispatch]

theorem no_recursive_encoding_of_one_put :
    ∃ w, Reach (step .byLeading sureBloom ["objects"] fun _ => .error "not modelled") anyStep newborn w ∧
      w.jobs.length = 1 ∧ w.jobs.length ≤ w.outsidePuts.length := by
  have run : ∃ w, Reach (step .byLeading sureBloom ["objects"] fun _ => .error "not modelled") anyStep
      newborn w ∧ w.jobs.length = 1 := exists_reach _ _ onePut (by decide +kernel)
  obtain ⟨w, reach, one⟩ := run
  exact ⟨w, reach, one, (no_recursive_encoding started_newborn reach).2.2⟩

end Craftec.Node.EncodeEvents
