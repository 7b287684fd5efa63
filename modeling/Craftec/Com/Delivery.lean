/- GID: Craftec/Com/Delivery
   generality: I
   digest: Bytes that one agent stores reach the memory of another. -/

import Mathlib
import Craftec.Com.Host
import Craftec.Com.Invocation
import Craftec.Library.MachineRange
import Craftec.Library.Transcript
import Craftec.Obj.Refinement
import Craftec.Obj.Store
import Craftec.Sql.Database
import Craftec.Types.Digest

set_option autoImplicit false
set_option relaxedAutoImplicit false

namespace Craftec.Com.Delivery

open Craftec.Com.Host (Caller Named)
open Craftec.Com.Invocation
open Craftec.Library.MachineRange (length_overwrite overwrite take_drop_overwrite)
open Craftec.Library.Transcript (Along run run_invariant)
open Craftec.Obj.Refinement (NoFalseNegatives after sample sureBloom)
open Craftec.Obj.Store (Bloom)
open Craftec.Sql.Database (Libsql pageEngine)
open Craftec.Types.Digest (Blake3 Bytes Bytes32 Cid)

section Calls

variable {B : Blake3} {F Db : Type} {bloom : Bloom F} {base : Obj.Shard.Path} {L : Libsql Db} {X : Packages}
  {data : Set Bytes} {w : System F Db} {u : Ideal Db} {blank : F}

variable (w) in
/-- The agent runs, and its memory has the bytes in a range. -/
def Holds (i : ℕ) (ptr len : Int32) (bytes : Bytes) : Prop :=
  ∃ caller memory, w.agents i = some caller ∧ (agentOf caller).memory = some memory ∧
    rangeOf memory ptr len = some bytes

theorem Holds.of_same {w' : System F Db} {i : ℕ} {ptr len : Int32} {bytes : Bytes}
    (holds : Holds w i ptr len bytes) (same : w'.agents i = w.agents i) : Holds w' i ptr len bytes := by
  unfold Holds
  rw [same]
  exact holds

def agentOfStep : Step Db → Option ℕ
  | .start i _ | .compute i _ | .call i _ | .stop i => some i
  | .outside _ | .replace _ => none

theorem rangeOf_whole {bytes : Bytes} {len : Int32} (sign : 0 ≤ len.toInt)
    (size : bytes.length = len.toInt.toNat) : rangeOf bytes 0 len = some bytes := by
  have zero : (0 : Int32).toInt = 0 := by decide
  have named : Named 0 len bytes.length := by
    refine ⟨?_, sign, ?_⟩ <;> omega
  rw [rangeOf, if_pos named, zero, ← size]
  simp

theorem rangeOf_overwrite {memory chunk : Bytes} {ptr len : Int32} (named : Named ptr len memory.length)
    (size : chunk.length = len.toInt.toNat) :
    rangeOf (overwrite memory ptr.toInt.toNat chunk) ptr len = some chunk := by
  have fits : ptr.toInt.toNat + chunk.length ≤ memory.length := by
    obtain ⟨first, second, within⟩ := named
    omega
  rw [rangeOf, length_overwrite fits, if_pos named, ← size, take_drop_overwrite fits]

theorem perform_agents {a : Step Db} {one : System F Db × Option Reply}
    (taken : perform B bloom base L X blank w a = some one) :
    (agentOfStep a = none ∧ one.1.agents = w.agents) ∨
      ∃ i next, agentOfStep a = some i ∧ one.1.agents = Function.update w.agents i next := by
  cases a with
  | start i memory =>
    simp only [perform] at taken
    split at taken
    · cases taken
      exact .inr ⟨i, _, rfl, rfl⟩
    · cases taken
  | compute i memory =>
    obtain ⟨caller, -, rest⟩ := Option.bind_eq_some_iff.mp taken
    obtain ⟨old, -, rest⟩ := Option.bind_eq_some_iff.mp rest
    split at rest
    · cases rest
      exact .inr ⟨i, _, rfl, rfl⟩
    · cases rest
  | call i c =>
    obtain ⟨caller, -, rfl⟩ := Option.map_eq_some_iff.mp taken
    exact .inr ⟨i, _, rfl, rfl⟩
  | stop i =>
    cases taken
    exact .inr ⟨i, none, rfl, rfl⟩
  | outside op =>
    cases taken
    exact .inl ⟨rfl, rfl⟩
  | replace db =>
    cases taken
    exact .inl ⟨rfl, rfl⟩

theorem agents_perform {j : ℕ} {a : Step Db} {one : System F Db × Option Reply}
    (other : agentOfStep a ≠ some j) (taken : perform B bloom base L X blank w a = some one) :
    one.1.agents j = w.agents j := by
  rcases perform_agents taken with ⟨-, same⟩ | ⟨i, next, own, changed⟩
  · rw [same]
  · have apart : j ≠ i := by
      rintro rfl
      exact other own
    rw [changed, Function.update_of_ne apart]

theorem objects_perform {cid : Cid} {a : Step Db} {next : Ideal Db × Option Reply}
    (kept : a ≠ .outside (.delete cid)) (taken : Ideal.perform X B L u a = some next)
    (there : (u.objects cid).isSome) : (next.1.objects cid).isSome := by
  have stays (bytes : Bytes) :
      (Function.update u.objects (Cid.fromData B bytes) (some bytes) cid).isSome := by
    rw [Function.update_apply]
    split
    · rfl
    · exact there
  cases a with
  | start i memory =>
    simp only [Ideal.perform] at taken
    split at taken
    · cases taken
      exact there
    · cases taken
  | compute i memory =>
    obtain ⟨caller, -, rest⟩ := Option.bind_eq_some_iff.mp taken
    obtain ⟨old, -, rest⟩ := Option.bind_eq_some_iff.mp rest
    split at rest
    · cases rest
      exact there
    · cases rest
  | call i c =>
    obtain ⟨caller, -, rfl⟩ := Option.map_eq_some_iff.mp taken
    simp only
    cases asks X caller c with
    | put bytes => exact stays bytes
    | _ => exact there
  | stop i =>
    cases taken
    exact there
  | outside op =>
    cases taken
    cases op with
    | put bytes => exact stays bytes
    | delete gone =>
      have other : cid ≠ gone := by
        rintro rfl
        exact kept rfl
      simp only [after, Function.update_of_ne other]
      exact there
    | _ => exact there
  | replace db =>
    cases taken
    exact there

def Present (B : Blake3) {F Db : Type} (bloom : Bloom F) (base : Obj.Shard.Path) (data : Set Bytes)
    (cid : Cid) (w : System F Db) : Prop :=
  ∃ u, Stands B bloom base data w u ∧ (u.objects cid).isSome

theorem Present.step (sound : NoFalseNegatives bloom) (apart : Set.InjOn (Cid.fromData B) data)
    (short : ∀ bytes ∈ data, bytes.length < 2 ^ 63) {cid : Cid} {a : Step Db}
    {one : System F Db × Option Reply} (present : Present B bloom base data cid w)
    (fair : Fair base data w a ∧ a ≠ .outside (.delete cid))
    (taken : perform B bloom base L X blank w a = some one) : Present B bloom base data cid one.1 := by
  obtain ⟨u, stands, there⟩ := present
  have alike := @perform_alike B F Db bloom base L X data blank sound apart short w u a stands fair.1
  rw [taken] at alike
  obtain ⟨u', taken', stands'⟩ := alike.of_some
  exact ⟨u', stands', objects_perform fair.2 taken' there⟩

theorem perform_call {i : ℕ} {caller : Caller} (running : w.agents i = some caller) {c : HostCall}
    {a : Agent} {reply : Reply}
    (returned : resulting (hostCall B bloom base L X w caller c) = (some a, reply)) :
    ∃ w' caller', perform B bloom base L X blank w (.call i c) = some (w', some reply) ∧
      w'.agents i = some caller' ∧ agentOf caller' = a := by
  obtain ⟨left, replied⟩ := Prod.mk.inj returned
  obtain ⟨caller', host, view⟩ := Option.map_eq_some_iff.mp left
  rw [perform, running, Option.map_some]
  refine ⟨_, caller', congrArg some (Prod.ext rfl (congrArg some replied)), ?_, view⟩
  exact (Function.update_self ..).trans host

theorem written (sound : NoFalseNegatives bloom) (apart : Set.InjOn (Cid.fromData B) data)
    (short : ∀ bytes ∈ data, bytes.length < 2 ^ 63) (stands : Stands B bloom base data w u) {i : ℕ}
    {ptr size : Int32} {bytes : Bytes} (holds : Holds w i ptr size bytes) (known : bytes ∈ data) :
    ∃ w', perform B bloom base L X blank w (.call i (.storePut ptr size)) =
      some (w', some (.value 32)) ∧ Present B bloom base data (Cid.fromData B bytes) w' := by
  obtain ⟨caller, memory, running, mapped, range⟩ := holds
  have asked : asks X (agentOf caller) (.storePut ptr size) = .put bytes := by
    simp only [asks, Agent.argument, mapped, range]
  have fair : Fair base data w (.call i (.storePut ptr size)) := by
    intro writer new running' put
    rw [running] at running'
    cases running'
    rw [storeOp_eq X, asked] at put
    cases put
    exact known
  have ideal := stands.agents i
  rw [running] at ideal
  have alike := @perform_alike B F Db bloom base L X data blank sound apart short w u _ stands fair
  rw [Ideal.perform, ideal, Option.map_some, Option.map_some, asked] at alike
  obtain ⟨w', stepped, stands'⟩ := alike.of_some_right
  refine ⟨w', stepped, _, stands', ?_⟩
  simp [objectsAfter]

theorem fetched (sound : NoFalseNegatives bloom) (apart : Set.InjOn (Cid.fromData B) data)
    (short : ∀ bytes ∈ data, bytes.length < 2 ^ 63) {bytes : Bytes} (known : bytes ∈ data)
    (present : Present B bloom base data (Cid.fromData B bytes) w) {j : ℕ} {reader : Caller}
    (running : w.agents j = some reader) {memory : Bytes} (mapped : (agentOf reader).memory = some memory)
    {cidPtr : Int32} (named : rangeOf memory cidPtr 32 = some (Cid.fromData B bytes).asBytes) :
    ∃ w' caller, perform B bloom base L X blank w (.call j (.storeGet cidPtr 32)) =
      some (w', some (.value bytes.length)) ∧ w'.agents j = some caller ∧
        agentOf caller = { agentOf reader with scratch := bytes } := by
  obtain ⟨u, stands, there⟩ := present
  obtain ⟨found, bound⟩ := Option.isSome_iff_exists.mp there
  have same := stands.same apart known bound
  subst same
  have asked : asks X (agentOf reader) (.storeGet cidPtr 32) = .get (Cid.fromData B found) := by
    simp only [asks, Agent.argument, mapped, named, Bytes32.ofSlice?_asBytes]
    rfl
  refine perform_call running ?_
  rw [stands.hostCall_eq sound apart short reader, asked, respond, bound]
  intro new put
  exact (storeOp_ne_put reader (by simp) new put).elim

theorem copied {j : ℕ} {caller : Caller} {bytes old memory : Bytes} (running : w.agents j = some caller)
    (scratch : (agentOf caller).scratch = bytes) (mapped : (agentOf caller).memory = some memory)
    {dst len : Int32} (room : rangeOf memory dst len = some old) (size : old.length = bytes.length) :
    ∃ w', perform B bloom base L X blank w (.call j (.readResult dst 0 len)) =
      some (w', some (.value bytes.length)) ∧ Holds w' j dst len bytes := by
  obtain ⟨target, length⟩ := length_rangeOf room
  rw [size] at length
  have whole := rangeOf_whole target.2.1 length
  rw [← scratch] at whole
  have asked : asks X (agentOf caller) (.readResult dst 0 len) = .read dst.toInt.toNat bytes := by
    rw [asks_inside _ _ _ _ whole mapped, if_pos target, scratch]
  have replied : resulting (hostCall B bloom base L X w caller (.readResult dst 0 len)) = _ :=
    @readResult_eq B Db L X caller dst 0 len (fun _ => none) none
  rw [asked, respond, mapped, Option.map_some] at replied
  obtain ⟨w', caller', taken, running', view⟩ := perform_call running replied
  refine ⟨w', taken, caller', _, running', ?_, rangeOf_overwrite target length⟩
  rw [view]

section Delivery

variable (B bloom base L X blank)

/-- An agent that names the object fetches its bytes and, after any steps of others, has them copied
into a range of its memory. -/
def Delivers (w : System F Db) (bytes : Bytes) : Prop :=
  ∀ j cidPtr dst len old, Holds w j cidPtr 32 (Cid.fromData B bytes).asBytes → Holds w j dst len old →
    old.length = bytes.length →
    ∃ w', perform B bloom base L X blank w (.call j (.storeGet cidPtr 32)) =
        some (w', some (.value bytes.length)) ∧
      ∀ steps last, Along (perform B bloom base L X blank) (fun _ a => agentOfStep a ≠ some j) w' steps →
        run (perform B bloom base L X blank) w' steps = some last →
        ∃ w'', perform B bloom base L X blank last.1 (.call j (.readResult dst 0 len)) =
            some (w'', some (.value bytes.length)) ∧ Holds w'' j dst len bytes

end Delivery

theorem delivers (sound : NoFalseNegatives bloom) (apart : Set.InjOn (Cid.fromData B) data)
    (short : ∀ bytes ∈ data, bytes.length < 2 ^ 63) {bytes : Bytes} (known : bytes ∈ data)
    (present : Present B bloom base data (Cid.fromData B bytes) w) :
    Delivers B bloom base L X blank w bytes := by
  rintro j cidPtr dst len old ⟨reader, memory, running, mapped, named⟩
    ⟨again, memory', running', mapped', room⟩ size
  rw [running] at running'
  cases running'
  rw [mapped] at mapped'
  cases mapped'
  obtain ⟨w', caller, taken, fetching, view⟩ :=
    @fetched B F Db bloom base L X data w blank sound apart short bytes known present j reader running
      memory mapped cidPtr named
  refine ⟨w', taken, fun steps last along ran => ?_⟩
  -- the others leave the scratch buffer and the memory of the agent alone
  have unmoved : last.1.agents j = some caller := by
    refine @run_invariant _ _ _ _ _ (fun v => v.agents j = some caller) ?_ _ fetching _ along _ ran
    intro v a one before other step
    rw [agents_perform other step, before]
  refine copied unmoved ?_ ?_ room size
  · rw [view]
  · rw [view, ← mapped]

/-- Bytes that one agent puts are delivered to any agent that names them, whatever the agents and the
other users of the store do in between, unless the object is deleted. -/
theorem stored_bytes_arrive (sound : NoFalseNegatives bloom) (apart : Set.InjOn (Cid.fromData B) data)
    (short : ∀ bytes ∈ data, bytes.length < 2 ^ 63) (start : Stands B bloom base data w u) {i : ℕ}
    {ptr size : Int32} {bytes : Bytes} (holds : Holds w i ptr size bytes) (known : bytes ∈ data) :
    ∃ w', perform B bloom base L X blank w (.call i (.storePut ptr size)) = some (w', some (.value 32)) ∧
      ∀ steps last, Along (perform B bloom base L X blank)
          (fun w a => Fair base data w a ∧ a ≠ .outside (.delete (Cid.fromData B bytes))) w' steps →
        run (perform B bloom base L X blank) w' steps = some last →
        Delivers B bloom base L X blank last.1 bytes := by
  obtain ⟨w', taken, present⟩ :=
    @written B F Db bloom base L X data w u blank sound apart short start i ptr size bytes holds known
  refine ⟨w', taken, fun steps last along ran => ?_⟩
  have still : Present B bloom base data (Cid.fromData B bytes) last.1 := by
    refine run_invariant ?_ present along ran
    intro v a one before fair step
    exact before.step sound apart short fair step
  exact delivers sound apart short known still

end Calls

/-! The agent that stored the byte is stopped before the other asks for it. -/

theorem started_stands :
    Stands Blake3.byLeading sureBloom ["objects"] { bytes | bytes = [1] } startedNode
      ⟨fun _ => none, none, fun i => (startedNode.agents i).map agentOf⟩ :=
  ⟨sample_stands.store, sample_stands.stored, rfl, fun _ => rfl⟩

theorem stored_bytes_arrive_after_stop : ∃ first last second third,
    perform Blake3.byLeading sureBloom ["objects"] pageEngine noPackages () startedNode
        (.call 0 (.storePut 0 1)) = some (first, some (.value 32)) ∧
      run (perform Blake3.byLeading sureBloom ["objects"] pageEngine noPackages ()) first [.stop 0] =
        some last ∧
      perform Blake3.byLeading sureBloom ["objects"] pageEngine noPackages () last.1
        (.call 1 (.storeGet 0 32)) = some (second, some (.value 1)) ∧
      perform Blake3.byLeading sureBloom ["objects"] pageEngine noPackages () second
        (.call 1 (.readResult 32 0 1)) = some (third, some (.value 1)) ∧
      Holds third 1 32 1 [1] := by
  have byte : Holds startedNode 0 0 1 [1] := ⟨_, _, rfl, rfl, rfl⟩
  have identifier : Holds startedNode 1 0 32 sample.asBytes := ⟨_, _, rfl, rfl, by decide +kernel⟩
  have room : Holds startedNode 1 32 1 [0] := ⟨_, _, rfl, rfl, by decide +kernel⟩
  obtain ⟨first, wrote, later⟩ :=
    @stored_bytes_arrive Blake3.byLeading _ _ sureBloom ["objects"] pageEngine noPackages
      { bytes | bytes = [1] } startedNode _ () ⟨fun _ _ => rfl, fun _ _ _ _ => rfl⟩
      (Set.injOn_singleton _ _)
      (by rintro bytes rfl; decide) started_stands 0 0 1 [1] byte rfl
  have kept : first.agents 1 = startedNode.agents 1 := agents_perform (by simp [agentOfStep]) wrote
  have delivered := later [.stop 0] ⟨{ first with agents := Function.update first.agents 0 none }, [none]⟩
    ⟨⟨trivial, by simp⟩, fun _ _ => trivial⟩ rfl
  obtain ⟨second, fetching, copying⟩ :=
    delivered 1 0 32 1 [0] (identifier.of_same kept) (room.of_same kept) rfl
  obtain ⟨third, reading, arrived⟩ := copying [] ⟨second, []⟩ trivial rfl
  exact ⟨first, _, second, third, wrote, rfl, fetching, reading, arrived⟩

end Craftec.Com.Delivery
