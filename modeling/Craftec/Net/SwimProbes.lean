/- GID: Craftec/Net/SwimProbes
   generality: I
   digest: The table of pending probes, and the calls that leave a nonce behind in it. -/

import Mathlib
import Craftec.Library.Run
import Craftec.Net.Swim
import Craftec.Net.SwimRuns
import Craftec.Net.SwimSafety
import Craftec.Types.Digest
import Craftec.Types.Wire

set_option autoImplicit false
set_option relaxedAutoImplicit false

namespace Craftec.Net.SwimProbes

open Craftec.Library.Run (Reach Path anyStep exists_path)
open Craftec.Net.Swim
open Craftec.Net.SwimRuns
open Craftec.Net.SwimSafety (Receiver.probe lookup_of_lookup_erase answered)
open Craftec.Types.Digest (NodeId)
open Craftec.Types.Wire (WireMessage)

section Entries

def pinged : Task → Option UInt64
  | .sending p | .awaiting p | .delegating p _ _ | .enlisting p _ | .inserting p _
  | .awaitingIndirect p | .lastKnown p | .suspecting p _ | .ended p _ => some p.nonce
  | _ => none

def relayed : Task → Option UInt64
  | .awaitingIndirect p | .lastKnown p | .suspecting p _ | .ended p _ => p.indirect.head?
  | _ => none

def entry : Receiver → Task → Option UInt64
  | .direct _ => pinged
  | .indirect _ => relayed

/-- A run of `probe_with_ack` that has not returned. -/
def running : Task → Bool
  | .registering _ | .sending _ | .awaiting _ | .delegating _ _ _ | .enlisting _ _ | .inserting _ _
  | .awaitingIndirect _ | .lastKnown _ | .suspecting _ _ => true
  | _ => false

/-- Everything a step of call `i` can do to the table of pending probes and the channels. -/
inductive Exchange (s : Shared) (i : ℕ) (was task : Task) (s' : Shared) : Prop where
  | none (pending : s'.swim.pendingProbes = s.swim.pendingProbes) (acks : s'.swim.acks = s.swim.acks)
  | register (nonce : UInt64) (receiver : Receiver) (own : Receiver.probe receiver = i)
      (unused : entry receiver was = .none) (used : entry receiver task = some nonce)
      (active : running task = true)
      (pending : s'.swim.pendingProbes = s.swim.pendingProbes.insert nonce receiver)
      (acks : s'.swim.acks = s.swim.acks)
  | forget (nonce : UInt64) (pending : s'.swim.pendingProbes = s.swim.pendingProbes.erase nonce)
      (acks : s'.swim.acks = s.swim.acks)
  | resolve (nonce : UInt64) (receiver : Receiver) (incarnation : UInt64)
      (found : s.swim.pendingProbes.lookup nonce = some receiver)
      (pending : s'.swim.pendingProbes = s.swim.pendingProbes.erase nonce)
      (acks : s'.swim.acks = s.swim.acks ++ [(receiver, incarnation)])

theorem exchange_mark {s : Shared} {i : ℕ} {was task : Task} (node : NodeId) (u : Update) :
    Exchange s i was task (s.perform (.mark node u)) := by
  obtain ⟨members, incarnation, same⟩ := mark_eq s.swim s.instant node u
  refine .none ?_ ?_
  · change (s.swim.mark s.instant node u).pendingProbes = _
    rw [same]
  · change (s.swim.mark s.instant node u).acks = _
    rw [same]

theorem exchange_resolve {s : Shared} {i : ℕ} {was task : Task} (fromNode : NodeId)
    (nonce incarnation : UInt64) :
    Exchange s i was task (s.perform (.resolve fromNode nonce incarnation)) := by
  cases waits : s.swim.pendingProbes.lookup nonce with
  | none =>
    have unchanged := resolveProbe_of_none waits incarnation
    exact .none (congrArg SwimMembership.pendingProbes unchanged)
      (congrArg SwimMembership.acks unchanged)
  | some receiver =>
    have taken := resolveProbe_of_some waits incarnation
    exact .resolve nonce receiver incarnation waits (congrArg SwimMembership.pendingProbes taken)
      (congrArg SwimMembership.acks taken)

theorem move_exchange {s s' : Shared} {i : ℕ} {was task : Task} (move : Move s i was s' task) :
    Exchange s i was task s' := by
  cases move with
  | perform op rest =>
    cases op with
    | mark node u => exact exchange_mark node u
    | resolve fromNode nonce incarnation => exact exchange_resolve fromNode nonce incarnation
  | bury node incarnation rest => exact exchange_mark node (.dead incarnation)
  | suspect p incarnation => exact exchange_mark p.target (.suspect incarnation)
  | register p => exact .register p.nonce (.direct i) rfl rfl rfl rfl rfl rfl
  | insert p nonce => exact .register nonce (.indirect i) rfl rfl rfl rfl rfl rfl
  | unsent p => exact .forget p.nonce rfl rfl
  | _ => exact .none rfl rfl

theorem Exchange.lookup {s s' : Shared} {i : ℕ} {was task : Task} (exchange : Exchange s i was task s')
    {nonce : UInt64} {receiver : Receiver} (found : s'.swim.pendingProbes.lookup nonce = some receiver) :
    s.swim.pendingProbes.lookup nonce = some receiver ∨
      Receiver.probe receiver = i ∧ running task = true ∧ entry receiver task = some nonce := by
  cases exchange with
  | none pending acks => exact .inl (pending ▸ found)
  | register other channel own unused used active pending acks =>
    rw [pending] at found
    by_cases same : nonce = other
    · rw [same, Finmap.lookup_insert] at found
      cases found
      exact .inr ⟨own, active, same ▸ used⟩
    · rw [Finmap.lookup_insert_of_ne _ same] at found
      exact .inl found
  | forget other pending acks => exact .inl (lookup_of_lookup_erase (pending ▸ found))
  | resolve other channel incarnation waits pending acks =>
    exact .inl (lookup_of_lookup_erase (pending ▸ found))

theorem entry_move {s s' : Shared} {i : ℕ} {was task : Task} (move : Move s i was s' task)
    {receiver : Receiver} {nonce : UInt64} (registered : entry receiver was = some nonce) :
    entry receiver task = some nonce := by
  cases receiver with
  | direct c => cases move <;> first | exact registered | cases registered
  | indirect c => cases move <;> first | exact registered | cases registered

end Entries

section Once

/-- A channel is in the table under the nonce its call registered and no other, and not any
more once something has been sent on it. -/
structure Once (s : State) : Prop where
  key : ∀ nonce receiver, s.shared.swim.pendingProbes.lookup nonce = some receiver →
    entry receiver (s.calls (Receiver.probe receiver)) = some nonce
  opened : ∀ ack ∈ s.shared.swim.acks, entry ack.1 (s.calls (Receiver.probe ack.1)) ≠ none
  closed : ∀ ack ∈ s.shared.swim.acks, ∀ nonce, s.shared.swim.pendingProbes.lookup nonce ≠ some ack.1

theorem once_start (me : NodeId) : Once (start (.new me)) :=
  ⟨fun _ _ found => absurd found (Option.some_ne_none _).symm,
    fun _ listed => absurd listed List.not_mem_nil, fun _ listed => absurd listed List.not_mem_nil⟩

theorem Once.opened_exchange {s : State} (once : Once s) {i : ℕ} {shared : Shared} {task : Task}
    (exchange : Exchange s.shared i (s.calls i) task shared) (ack : Receiver × UInt64)
    (listed : ack ∈ shared.swim.acks) : entry ack.1 (s.calls (Receiver.probe ack.1)) ≠ none := by
  cases exchange with
  | none pending acks | forget nonce pending acks => exact once.opened ack (acks ▸ listed)
  | register nonce receiver own unused used active pending acks => exact once.opened ack (acks ▸ listed)
  | resolve nonce receiver incarnation found pending acks =>
    rw [acks] at listed
    rcases List.mem_append.mp listed with old | new
    · exact once.opened ack old
    · cases List.mem_singleton.mp new
      exact (once.key nonce receiver found).trans_ne (Option.some_ne_none nonce)

theorem Once.closed_register {s : State} (once : Once s) {i : ℕ} {nonce : UInt64} {receiver : Receiver}
    (own : Receiver.probe receiver = i) (unused : entry receiver (s.calls i) = none)
    (ack : Receiver × UInt64) (listed : ack ∈ s.shared.swim.acks) (other : UInt64) :
    (s.shared.swim.pendingProbes.insert nonce receiver).lookup other ≠ some ack.1 := by
  intro lookup
  by_cases same : other = nonce
  · -- the channel is new: nothing has been sent on it
    rw [same, Finmap.lookup_insert] at lookup
    have sent := once.opened ack listed
    rw [← Option.some.inj lookup, own] at sent
    exact sent unused
  · rw [Finmap.lookup_insert_of_ne _ same] at lookup
    exact once.closed ack listed other lookup

theorem Once.closed_resolve {s : State} (once : Once s) {nonce incarnation : UInt64} {receiver : Receiver}
    (found : s.shared.swim.pendingProbes.lookup nonce = some receiver) (ack : Receiver × UInt64)
    (listed : ack ∈ s.shared.swim.acks ++ [(receiver, incarnation)]) (other : UInt64) :
    (s.shared.swim.pendingProbes.erase nonce).lookup other ≠ some ack.1 := by
  intro lookup
  have before := lookup_of_lookup_erase lookup
  rcases List.mem_append.mp listed with old | new
  · exact once.closed ack old other before
  · -- the channel was there under this nonce only, and that has been erased
    cases List.mem_singleton.mp new
    have same : some other = some nonce :=
      (once.key other receiver before).symm.trans (once.key nonce receiver found)
    rw [Option.some.inj same, Finmap.lookup_erase] at lookup
    cases lookup

theorem Once.closed_exchange {s : State} (once : Once s) {i : ℕ} {shared : Shared} {task : Task}
    (exchange : Exchange s.shared i (s.calls i) task shared) (ack : Receiver × UInt64)
    (listed : ack ∈ shared.swim.acks) (nonce : UInt64) :
    shared.swim.pendingProbes.lookup nonce ≠ some ack.1 := by
  cases exchange with
  | none pending acks => exact pending ▸ once.closed ack (acks ▸ listed) nonce
  | register other receiver own unused used active pending acks =>
    exact pending ▸ once.closed_register own unused ack (acks ▸ listed) nonce
  | forget other pending acks =>
    intro lookup
    exact once.closed ack (acks ▸ listed) nonce (lookup_of_lookup_erase (pending ▸ lookup))
  | resolve other receiver incarnation found pending acks =>
    exact pending ▸ once.closed_resolve found ack (acks ▸ listed) nonce

theorem Once.move {s : State} (once : Once s) {i : ℕ} {shared : Shared} {task : Task}
    (exchange : Exchange s.shared i (s.calls i) task shared)
    (keeps : ∀ receiver nonce, entry receiver (s.calls i) = some nonce →
      entry receiver task = some nonce) :
    Once ⟨shared, Function.update s.calls i task⟩ := by
  have keepsAll : ∀ c receiver nonce, entry receiver (s.calls c) = some nonce →
      entry receiver (Function.update s.calls i task c) = some nonce :=
    (Function.forall_update_iff s.calls (fun c t => ∀ receiver nonce,
      entry receiver (s.calls c) = some nonce → entry receiver t = some nonce)).mpr
        ⟨keeps, fun c _ receiver nonce same => same⟩
  refine ⟨fun nonce receiver found => ?_, fun ack listed => ?_, once.closed_exchange exchange⟩
  · rcases exchange.lookup found with old | ⟨own, -, registered⟩
    · exact keepsAll _ _ _ (once.key nonce receiver old)
    · change entry receiver (Function.update s.calls i task _) = some nonce
      rw [own, Function.update_self]
      exact registered
  · have before := once.opened_exchange exchange ack listed
    obtain ⟨nonce, registered⟩ := Option.ne_none_iff_exists'.mp before
    exact (keepsAll _ _ _ registered).trans_ne (Option.some_ne_none nonce)

theorem entry_of_opens {was task : Task} (opens : Opens was task) (receiver : Receiver) :
    entry receiver was = none := by
  cases opens <;> cases receiver <;> rfl

theorem Once.opens {s : State} (once : Once s) {i : ℕ} {task : Task} (opens : Opens (s.calls i) task) :
    Once ⟨s.shared, Function.update s.calls i task⟩ := by
  refine once.move (.none rfl rfl) fun receiver nonce registered => ?_
  rw [entry_of_opens opens receiver] at registered
  cases registered

theorem step_once {s t : State} {label : Label} (once : Once s) (taken : step s label = some t) :
    Once t := by
  refine step_rule taken once (fun _ _ _ before opens => before.opens opens) (fun ms => ?_) ?_
  · exact ⟨once.key, once.opened, once.closed⟩
  · rintro i o shared task rfl moves
    have move := advance_move moves
    exact once.move (move_exchange move) fun receiver nonce => entry_move move

end Once

section Live

/-- Every nonce in the table has been registered by a call that has not returned. -/
def OnlyLive (s : State) : Prop :=
  ∀ nonce receiver, s.shared.swim.pendingProbes.lookup nonce = some receiver →
    running (s.calls (Receiver.probe receiver)) = true ∧
      entry receiver (s.calls (Receiver.probe receiver)) = some nonce

/-- No run of `probe_with_ack` is under way. -/
def Quiet (s : State) : Prop := ∀ i, running (s.calls i) = false

theorem OnlyLive.empty {s : State} (live : OnlyLive s) (quiet : Quiet s) :
    s.shared.swim.pendingProbes = ∅ := by
  refine Finmap.ext_lookup fun nonce => ?_
  rw [Finmap.lookup_empty]
  cases found : s.shared.swim.pendingProbes.lookup nonce with
  | none => rfl
  | some receiver =>
    have active := (live nonce receiver found).1
    rw [quiet] at active
    cases active

theorem onlyLive_start (me : NodeId) : OnlyLive (start (.new me)) :=
  fun _ _ found => absurd found (Option.some_ne_none _).symm

theorem onlyLive_move {s : State} {i : ℕ} {shared : Shared} {task : Task} (live : OnlyLive s)
    (once : Once ⟨shared, Function.update s.calls i task⟩)
    (exchange : Exchange s.shared i (s.calls i) task shared) :
    OnlyLive ⟨shared, Function.update s.calls i task⟩ ↔
      (running task = true ∨ ∀ nonce receiver, shared.swim.pendingProbes.lookup nonce = some receiver →
        Receiver.probe receiver ≠ i) := by
  constructor
  · intro after
    by_cases active : running task = true
    · exact .inl active
    · refine .inr fun nonce receiver found own => active ?_
      have runs : running (Function.update s.calls i task (Receiver.probe receiver)) = true :=
        (after nonce receiver found).1
      rwa [own, Function.update_self] at runs
  · intro released nonce receiver found
    refine ⟨?_, once.key nonce receiver found⟩
    change running (Function.update s.calls i task (Receiver.probe receiver)) = true
    by_cases own : Receiver.probe receiver = i
    · rw [own, Function.update_self]
      exact released.resolve_right fun none => none nonce receiver found own
    · rw [Function.update_of_ne own]
      rcases exchange.lookup found with old | ⟨mine, -, -⟩
      · exact (live nonce receiver old).1
      · exact absurd mine own

theorem OnlyLive.idle {s : State} (live : OnlyLive s) {i : ℕ} {shared : Shared} {task : Task}
    (resting : running (s.calls i) = false)
    (once : Once ⟨shared, Function.update s.calls i task⟩)
    (exchange : Exchange s.shared i (s.calls i) task shared) :
    OnlyLive ⟨shared, Function.update s.calls i task⟩ := by
  refine (onlyLive_move live once exchange).mpr ?_
  by_cases active : running task = true
  · exact .inl active
  · refine .inr fun nonce receiver found own => ?_
    rcases exchange.lookup found with old | ⟨-, now, -⟩
    · have runs := (live nonce receiver old).1
      rw [own, resting] at runs
      cases runs
    · exact active now

theorem OnlyLive.opens {s : State} (live : OnlyLive s) (once : Once s) {i : ℕ} {task : Task}
    (opens : Opens (s.calls i) task) : OnlyLive ⟨s.shared, Function.update s.calls i task⟩ := by
  refine live.idle ?_ (once.opens opens) (.none rfl rfl)
  generalize s.calls i = was at opens
  cases opens <;> rfl

/-- The probe of a call whose next step is its return after the ping failed or went
unanswered. -/
def leaving (o : Outside) : Task → Option Probe
  | .awaitingIndirect p => if o.success then some p else none
  | .suspecting p _ => some p
  | _ => none

/-- Such a call has had its nonces taken out of the table. -/
def Drained (s : State) : Label → Prop
  | .advance i o => ∀ p ∈ leaving o (s.calls i), ∀ nonce ∈ p.nonces,
    ∀ receiver ∈ s.shared.swim.pendingProbes.lookup nonce, Receiver.probe receiver ≠ i
  | _ => True

/-- What a step makes of a run of `probe_with_ack`. -/
inductive Turn (s : Shared) (i : ℕ) (o : Outside) (was : Task) (s' : Shared) (task : Task) : Prop where
  | on (active : running task = true) (stays : leaving o was = none)
  | answered (p : Probe) (stood : was = .awaiting p) (acked : s.acked (.direct i) = true)
      (table : s'.swim.pendingProbes = s.swim.pendingProbes)
  | left (p : Probe) (leaves : leaving o was = some p) (returned : running task = false)
      (table : s'.swim.pendingProbes = s.swim.pendingProbes)

theorem advance_turn {s s' : Shared} {i : ℕ} {o : Outside} {was task : Task}
    (active : running was = true) (moves : advance s i o was = some (s', task)) :
    Turn s i o was s' task := by
  cases was with
  | idle | handling _ | expiring _ _ _ | burying _ | listing _ _ | choosing _ | gossiping _ _ _ _
  | numbering _ _ | ticked _ | ended _ _ => cases active
  | registering p => cases moves; exact .on rfl rfl
  | sending p =>
    simp only [advance] at moves
    split at moves
    · cases moves; exact .on rfl rfl
    · cases moves; exact .on rfl rfl
  | awaiting p =>
    simp only [advance] at moves
    split at moves
    · split at moves
      · rename_i acked
        cases moves
        exact .answered p rfl acked rfl
      · cases moves
    · cases moves; exact .on rfl rfl
  | delegating p visited alive =>
    have move := advance_move moves
    cases move <;> exact .on rfl rfl
  | enlisting p delegates => cases moves; exact .on rfl rfl
  | inserting p nonce => cases moves; exact .on rfl rfl
  | awaitingIndirect p =>
    simp only [advance] at moves
    split at moves
    · rename_i heard
      split at moves
      · cases moves
        exact .left p (if_pos heard) rfl rfl
      · cases moves
    · rename_i unheard
      cases moves
      exact .on rfl (if_neg unheard)
  | lastKnown p => cases moves; exact .on rfl rfl
  | suspecting p incarnation =>
    cases moves
    exact .left p rfl rfl (pendingProbes_mark s.swim s.instant p.target (.suspect incarnation))

theorem entry_leaving {o : Outside} {task : Task} {p : Probe} {receiver : Receiver} {nonce : UInt64}
    (leaves : leaving o task = some p) (registered : entry receiver task = some nonce) :
    nonce ∈ p.nonces := by
  have known : entry receiver task = some p.nonce ∨ entry receiver task = p.indirect.head? := by
    cases task with
    | awaitingIndirect q =>
      simp only [leaving] at leaves
      split at leaves
      · cases leaves
        cases receiver
        · exact .inl rfl
        · exact .inr rfl
      · cases leaves
    | suspecting q incarnation =>
      cases leaves
      cases receiver
      · exact .inl rfl
      · exact .inr rfl
    | _ => cases leaves
  rw [registered] at known
  rcases known with own | relay
  · rw [Option.some.inj own]
    exact List.mem_cons_self
  · exact List.mem_cons_of_mem _ (List.mem_of_head? relay.symm)

theorem Once.released {s : State} (once : Once s) {i : ℕ} {p : Probe} (stood : s.calls i = .awaiting p)
    (acked : s.shared.acked (.direct i) = true) {nonce : UInt64} {receiver : Receiver}
    (found : s.shared.swim.pendingProbes.lookup nonce = some receiver) : Receiver.probe receiver ≠ i := by
  intro own
  have registered := once.key nonce receiver found
  rw [own, stood] at registered
  cases receiver with
  | direct c =>
    obtain ⟨ack, listed, same⟩ := List.any_eq_true.mp acked
    refine once.closed ack listed nonce ?_
    rw [found, of_decide_eq_true same]
    exact congrArg (fun j => some (Receiver.direct j)) own
  | indirect c => cases registered

theorem step_onlyLive {s t : State} {label : Label} (once : Once s) (live : OnlyLive s)
    (taken : step s label = some t) : OnlyLive t ↔ Drained s label := by
  have after := step_once once taken
  cases label with
  | advance i o =>
    obtain ⟨shared, task, moves, rfl⟩ := step_advance taken
    have exchange := move_exchange (advance_move moves)
    by_cases active : running (s.calls i) = true
    · rw [onlyLive_move live after exchange]
      cases advance_turn active moves with
      | on goesOn stays =>
        refine iff_of_true (.inl goesOn) fun p leaves => ?_
        rw [stays] at leaves
        cases leaves
      | answered p stood acked table =>
        refine iff_of_true (.inr fun nonce receiver found => ?_) fun q leaves => ?_
        · exact once.released stood acked (table ▸ found)
        · rw [stood] at leaves
          cases leaves
      | left p leaves returned table =>
        rw [table, returned]
        constructor
        · rintro (absurd | released) q leaves' nonce - receiver found
          · cases absurd
          · exact released nonce receiver found
        · intro drained
          refine .inr fun nonce receiver found own => ?_
          have registered := once.key nonce receiver found
          rw [own] at registered
          exact drained p leaves nonce (entry_leaving leaves registered) receiver found own
    · have resting : running (s.calls i) = false := Bool.eq_false_iff.mpr active
      refine iff_of_true (live.idle resting after exchange) fun p leaves => ?_
      have runs : running (s.calls i) = true := by
        cases stands : s.calls i with
        | awaitingIndirect q | suspecting q incarnation => rfl
        | _ => rw [stands] at leaves; cases leaves
      exact absurd runs active
  | _ =>
    have both : Once t ∧ OnlyLive t := by
      refine step_rule (P := fun u => Once u ∧ OnlyLive u) taken ⟨once, live⟩
        (fun _ _ _ both opens => ?_) (fun ms => ?_) ?_
      · exact ⟨both.1.opens opens, both.2.opens both.1 opens⟩
      · exact ⟨⟨once.key, once.opened, once.closed⟩, live⟩
      · intro i o shared task advances
        cases advances
    exact iff_of_true both.2 trivial

end Live

section Timeouts

def waits : Task → Bool
  | .awaiting _ | .awaitingIndirect _ => true
  | _ => false

def InTime (s : State) : Label → Prop
  | .advance i o => waits (s.calls i) = true → o.success = true
  | _ => True

instance (s : State) (label : Label) : Decidable (InTime s label) :=
  match label with
  | .advance i o => inferInstanceAs (Decidable (waits (s.calls i) = true → o.success = true))
  | .receive _ _ _ | .tick _ | .spawn _ _ | .elapse _ => isTrue trivial

def detouring : Task → Bool
  | .delegating _ _ _ | .enlisting _ _ | .inserting _ _ | .awaitingIndirect _ => true
  | _ => false

def expecting : Task → Bool
  | .sending _ | .awaiting _ => true
  | _ => false

structure Prompt (s : State) : Prop where
  once : Once s
  straight : ∀ i, detouring (s.calls i) = false
  expected : ∀ nonce receiver, s.shared.swim.pendingProbes.lookup nonce = some receiver →
    expecting (s.calls (Receiver.probe receiver)) = true

theorem prompt_start (me : NodeId) : Prompt (start (.new me)) :=
  ⟨once_start me, fun _ => rfl, fun _ _ found => absurd found (Option.some_ne_none _).symm⟩

theorem Prompt.move {s : State} (prompt : Prompt s) {i : ℕ} {shared : Shared} {task : Task}
    (once : Once ⟨shared, Function.update s.calls i task⟩)
    (exchange : Exchange s.shared i (s.calls i) task shared) (straight : detouring task = false)
    (own : ∀ nonce receiver, shared.swim.pendingProbes.lookup nonce = some receiver →
      Receiver.probe receiver = i → expecting task = true) :
    Prompt ⟨shared, Function.update s.calls i task⟩ := by
  refine ⟨once, ?_, fun nonce receiver found => ?_⟩
  · exact (Function.forall_update_iff s.calls (fun _ t => detouring t = false)).mpr
      ⟨straight, fun c _ => prompt.straight c⟩
  · change expecting (Function.update s.calls i task (Receiver.probe receiver)) = true
    by_cases mine : Receiver.probe receiver = i
    · rw [mine, Function.update_self]
      exact own nonce receiver found mine
    · rw [Function.update_of_ne mine]
      rcases exchange.lookup found with old | ⟨same, -, -⟩
      · exact prompt.expected nonce receiver old
      · exact absurd same mine

theorem Prompt.rest {s : State} (prompt : Prompt s) {i : ℕ} {shared : Shared} {task : Task}
    (once : Once ⟨shared, Function.update s.calls i task⟩)
    (exchange : Exchange s.shared i (s.calls i) task shared) (straight : detouring task = false)
    (resting : expecting (s.calls i) = false)
    (shrinks : ∀ nonce receiver, shared.swim.pendingProbes.lookup nonce = some receiver →
      s.shared.swim.pendingProbes.lookup nonce = some receiver) :
    Prompt ⟨shared, Function.update s.calls i task⟩ := by
  refine prompt.move once exchange straight fun nonce receiver found own => ?_
  have expects := prompt.expected nonce receiver (shrinks nonce receiver found)
  rw [own, resting] at expects
  cases expects

theorem Exchange.shrinks {s s' : Shared} {i : ℕ} {was task : Task} (exchange : Exchange s i was task s')
    (returned : running task = false) (nonce : UInt64) (receiver : Receiver)
    (found : s'.swim.pendingProbes.lookup nonce = some receiver) :
    s.swim.pendingProbes.lookup nonce = some receiver := by
  rcases exchange.lookup found with old | ⟨-, active, -⟩
  · exact old
  · rw [returned] at active
    cases active

theorem Prompt.advance {s : State} (prompt : Prompt s) {i : ℕ} {o : Outside} {shared : Shared}
    {was task : Task} (stands : s.calls i = was) (inTime : waits was = true → o.success = true)
    (moves : advance s.shared i o was = some (shared, task))
    (once : Once ⟨shared, Function.update s.calls i task⟩) :
    Prompt ⟨shared, Function.update s.calls i task⟩ := by
  have exchange : Exchange s.shared i (s.calls i) task shared :=
    stands ▸ move_exchange (advance_move moves)
  have straight : detouring was = false := stands ▸ prompt.straight i
  cases advance_move moves with
  | register p => exact prompt.move once exchange rfl fun _ _ _ _ => rfl
  | sent p => exact prompt.move once exchange rfl fun _ _ _ _ => rfl
  | unsent p =>
    refine prompt.move once exchange rfl fun nonce receiver found own => ?_
    have registered := prompt.once.key nonce receiver (lookup_of_lookup_erase found)
    rw [own, stands] at registered
    cases receiver with
    | direct c =>
      -- the one nonce of this call is the one that has been removed
      change (s.shared.swim.pendingProbes.erase p.nonce).lookup nonce = _ at found
      rw [← Option.some.inj registered, Finmap.lookup_erase] at found
      cases found
    | indirect c => cases registered
  | acked p acked =>
    refine prompt.move once exchange rfl fun nonce receiver found own => ?_
    exact absurd own (prompt.once.released stands acked found)
  | timeout p =>
    simp only [SwimRuns.advance, inTime rfl, if_true] at moves
    split at moves <;> cases moves
  | delegate | delegateNone | delegateEnd | enlist | insert | ackedIndirect | timeoutIndirect =>
    cases straight
  | known p incarnation =>
    exact prompt.rest once exchange rfl (by rw [stands]; rfl) fun _ _ found => found
  | _ => exact prompt.rest once exchange rfl (by rw [stands]; rfl) (exchange.shrinks rfl)

theorem Prompt.opens {s : State} (prompt : Prompt s) {i : ℕ} {task : Task}
    (opens : Opens (s.calls i) task) : Prompt ⟨s.shared, Function.update s.calls i task⟩ := by
  refine prompt.rest (prompt.once.opens opens) (.none rfl rfl) ?_ ?_ fun _ _ found => found
  · generalize s.calls i = was at opens
    cases opens with
    | spawn target msg => cases msg <;> rfl
    | receive | tick | hand => rfl
  · generalize s.calls i = was at opens
    cases opens <;> rfl

theorem step_prompt {s t : State} {label : Label} (prompt : Prompt s) (inTime : InTime s label)
    (taken : step s label = some t) : Prompt t := by
  refine step_rule taken prompt (fun _ _ _ before opens => before.opens opens) (fun ms => ?_) ?_
  · exact ⟨⟨prompt.once.key, prompt.once.opened, prompt.once.closed⟩, prompt.straight, prompt.expected⟩
  · rintro i o shared task rfl moves
    have move := advance_move moves
    exact prompt.advance rfl inTime moves
      (prompt.once.move (move_exchange move) fun receiver nonce => entry_move move)

theorem drained_of_prompt {s : State} (prompt : Prompt s) (label : Label) : Drained s label := by
  cases label with
  | advance i o =>
    intro p leaves nonce listed receiver found own
    have expects := prompt.expected nonce receiver found
    rw [own] at expects
    cases stands : s.calls i with
    | sending q | awaiting q =>
      rw [stands] at leaves
      cases leaves
    | _ =>
      rw [stands] at expects
      cases expects
  | _ => exact trivial

end Timeouts

def pinging : List Label :=
  [.receive 0 true (.swimAlive (peerId 1) 0), .advance 0 ⟨none, true, []⟩, .tick 1,
    .advance 1 ⟨some (peerId 1), true, []⟩, .advance 1 ⟨none, true, []⟩, .advance 1 ⟨none, true, []⟩,
    .advance 1 ⟨some (peerId 1), true, []⟩, .advance 1 ⟨none, true, []⟩, .advance 1 ⟨none, true, []⟩,
    .advance 1 ⟨some (peerId 1), true, []⟩, .advance 1 ⟨none, true, []⟩, .advance 1 ⟨none, true, []⟩,
    .spawn 1 2, .advance 2 ⟨none, true, []⟩, .advance 2 ⟨none, true, []⟩]

def unanswered : List Label :=
  [.advance 2 ⟨none, false, []⟩, .advance 2 ⟨some (peerId 1), true, []⟩, .advance 2 ⟨none, true, []⟩,
    .advance 2 ⟨none, true, []⟩, .advance 2 ⟨none, true, []⟩]

end Craftec.Net.SwimProbes
