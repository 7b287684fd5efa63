/- GID: Craftec/Types/HlcCausality
   generality: I
   digest: Timestamps of a cluster increase along every chain of local steps and accepted messages. -/

import Mathlib
import Craftec.Library.AtomicCell
import Craftec.Library.Run
import Craftec.Types.Hlc

set_option autoImplicit false
set_option relaxedAutoImplicit false

namespace Craftec.Types.HlcCausality

open Craftec.Library.AtomicCell (Write)
open Craftec.Library.Run (Reach exists_reach)
open Craftec.Types.Hlc (Exchange Grows Label Ordered State WallsBelow pack start_ordered step_ordered)

variable {ι : Type}

/-- One clock for each node; at every step one call of one node moves. -/
def step [DecidableEq ι] (clocks : ι → State) (label : ι × Label) : Option (ι → State) :=
  (Hlc.step (clocks label.1) label.2).map (Function.update clocks label.1)

def Below (clocks : ι → State) (label : ι × Label) : Prop := WallsBelow (clocks label.1) label.2

instance (clocks : ι → State) (label : ι × Label) : Decidable (Below clocks label) :=
  inferInstanceAs (Decidable (WallsBelow _ _))

/-- An event is a successful exchange: a timestamp that is given out, or one that is accepted. -/
structure Event (ι : Type) where
  node : ι
  place : ℕ

section Order

variable (clocks : ι → State)

def exchange? (e : Event ι) : Option (Write Exchange UInt64) :=
  (clocks e.node).shared.writes[e.place]?

/-- The timestamp that an exchange of `now` gives out. -/
def givenOut (w : Write Exchange UInt64) : Option UInt64 :=
  match w.event with
  | .now _ => some w.after
  | .observe _ _ => none

/-- The timestamp that an exchange of `observe` accepts. -/
def accepted (w : Write Exchange UInt64) : Option UInt64 :=
  match w.event with
  | .now _ => none
  | .observe _ remote => some remote

def Sends (e : Event ι) (ts : UInt64) : Prop := (exchange? clocks e).bind givenOut = some ts

def Accepts (e : Event ι) (ts : UInt64) : Prop := (exchange? clocks e).bind accepted = some ts

instance (e : Event ι) (ts : UInt64) : Decidable (Sends clocks e ts) :=
  inferInstanceAs (Decidable (_ = _))

instance (e : Event ι) (ts : UInt64) : Decidable (Accepts clocks e ts) :=
  inferInstanceAs (Decidable (_ = _))

/-- One event directly before another: earlier on the same clock, or the stamping of a message
before its acceptance. -/
inductive Direct : Event ι → Event ι → Prop where
  | onClock {node : ι} {i j : ℕ} (earlier : i < j)
      (later : (exchange? clocks ⟨node, j⟩).isSome) : Direct ⟨node, i⟩ ⟨node, j⟩
  | message {e f : Event ι} {ts : UInt64} (sent : Sends clocks e ts) (accepted : Accepts clocks f ts) :
      Direct e f

/-- Causality, which mentions timestamps only as the contents of messages. -/
def HappensBefore : Event ι → Event ι → Prop := Relation.TransGen (Direct clocks)

end Order

def AllOrdered (first : ι → UInt64) (clocks : ι → State) : Prop :=
  ∀ node, Ordered (first node) (clocks node)

theorem allOrdered_reach [DecidableEq ι] {first lastWall : ι → UInt64} {clocks : ι → State}
    (reach : Reach step Below (fun node => Hlc.start (first node) (lastWall node)) clocks) :
    AllOrdered first clocks := by
  refine reach.invariant (fun node => start_ordered (first node) (lastWall node)) ?_
  rintro u ⟨node, label⟩ v ordered below taken
  obtain ⟨s, moved, rfl⟩ := Option.map_eq_some_iff.mp taken
  intro other
  rcases eq_or_ne other node with rfl | apart
  · rw [Function.update_self]
    exact (step_ordered (ordered other) below moved).1
  · rw [Function.update_of_ne apart]
    exact ordered other

section Growth

variable {first : ι → UInt64} {clocks : ι → State} {e f : Event ι} {v w : Write Exchange UInt64}

theorem AllOrdered.grows (ordered : AllOrdered first clocks) (at_ : exchange? clocks e = some w) :
    Grows w :=
  (ordered e.node).grows w (List.mem_of_getElem? at_)

theorem AllOrdered.onward (ordered : AllOrdered first clocks) {node : ι} {i j : ℕ} (earlier : i < j)
    (at_ : exchange? clocks ⟨node, i⟩ = some v) (later : exchange? clocks ⟨node, j⟩ = some w) :
    v.after.toNat ≤ w.before.toNat := by
  have clock := ordered node
  have apart : (clocks node).shared.writes.Pairwise fun a b => a.after.toNat ≤ b.before.toNat :=
    clock.linked.pairwise fun x listed => (clock.grows x listed).le
  obtain ⟨left, rfl⟩ := List.getElem?_eq_some_iff.mp at_
  obtain ⟨right, rfl⟩ := List.getElem?_eq_some_iff.mp later
  exact List.pairwise_iff_getElem.mp apart i j left right earlier

theorem givenOut_eq_some {ts : UInt64} (grows : Grows w) (given : givenOut w = some ts) :
    w.after = ts ∧ w.before.toNat < ts.toNat := by
  obtain ⟨event, before, after⟩ := w
  cases event with
  | now i =>
    cases given
    exact ⟨rfl, grows⟩
  | observe i remote => cases given

theorem accepted_eq_some {ts : UInt64} (grows : Grows w) (accepts : accepted w = some ts) :
    givenOut w = none ∧ ts.toNat ≤ w.after.toNat := by
  obtain ⟨event, before, after⟩ := w
  cases event with
  | now i => cases accepts
  | observe i remote =>
    cases accepts
    exact ⟨rfl, grows.2⟩

theorem AllOrdered.direct (ordered : AllOrdered first clocks) (direct : Direct clocks e f)
    (at_ : exchange? clocks e = some v) :
    ∃ w, exchange? clocks f = some w ∧ v.after.toNat ≤ w.after.toNat ∧
      ∀ ts, givenOut w = some ts → v.after.toNat < ts.toNat := by
  cases direct with
  | onClock earlier later =>
    obtain ⟨w, later⟩ := Option.isSome_iff_exists.mp later
    have onward := ordered.onward earlier at_ later
    have grows := ordered.grows later
    refine ⟨w, later, onward.trans grows.le, ?_⟩
    intro ts given
    exact Nat.lt_of_le_of_lt onward (givenOut_eq_some grows given).2
  | message sent taken =>
    obtain ⟨x, sentAt, given⟩ := Option.bind_eq_some_iff.mp sent
    obtain ⟨w, later, accepts⟩ := Option.bind_eq_some_iff.mp taken
    rw [at_] at sentAt
    cases sentAt
    obtain ⟨rfl, -⟩ := givenOut_eq_some (ordered.grows at_) given
    obtain ⟨none_, above⟩ := accepted_eq_some (ordered.grows later) accepts
    refine ⟨w, later, above, ?_⟩
    intro ts also
    rw [none_] at also
    cases also

theorem AllOrdered.chain (ordered : AllOrdered first clocks) (before : HappensBefore clocks e f)
    (at_ : exchange? clocks e = some v) :
    ∃ w, exchange? clocks f = some w ∧ v.after.toNat ≤ w.after.toNat ∧
      ∀ ts, givenOut w = some ts → v.after.toNat < ts.toNat := by
  induction before with
  | single direct => exact ordered.direct direct at_
  | tail _ direct ih =>
    obtain ⟨x, between, atLeast, -⟩ := ih
    obtain ⟨w, later, above, strictly⟩ := ordered.direct direct between
    refine ⟨w, later, atLeast.trans above, ?_⟩
    intro ts given
    exact Nat.lt_of_le_of_lt atLeast (strictly ts given)

end Growth

end Craftec.Types.HlcCausality
