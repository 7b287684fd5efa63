/- GID: Craftec/Library/Broadcast
   generality: G
   digest: One receiver of a bounded broadcast channel, and what it misses when it falls behind. -/

import Mathlib.Data.List.Basic

set_option autoImplicit false
set_option relaxedAutoImplicit false

namespace Craftec.Library.Broadcast

variable {ε : Type*}

/-- What has been sent since the receiver subscribed, the number of the event it takes next, and
the numbers of the events it has missed. -/
structure Channel (ε : Type*) where
  sent : List ε
  next : ℕ
  missed : List ℕ

inductive Received (ε : Type*) where
  | event (number : ℕ) (e : ε)
  | lagged (count : ℕ)

namespace Channel

def new : Channel ε := ⟨[], 0, []⟩

def send (c : Channel ε) (e : ε) : Channel ε := { c with sent := c.sent ++ [e] }

/-- The channel keeps the last `capacity` events. A receiver that is further behind first goes to the
oldest of them; `none` waits for an event. -/
def recv (capacity : ℕ) (c : Channel ε) : Option (Channel ε × Received ε) :=
  if c.next + capacity < c.sent.length then
    some ({ c with
        next := c.sent.length - capacity
        missed := c.missed ++ List.range' c.next (c.sent.length - capacity - c.next) },
      .lagged (c.sent.length - capacity - c.next))
  else
    match c.sent[c.next]? with
    | none => none
    | some e => some ({ c with next := c.next + 1 }, .event c.next e)

/-- The receiver is not ahead, and each event it missed is behind it and has at least `capacity`
later ones. -/
structure Sound (capacity : ℕ) (c : Channel ε) : Prop where
  behind : c.next ≤ c.sent.length
  passed : ∀ q ∈ c.missed, q < c.next
  overrun : ∀ q ∈ c.missed, q + capacity < c.sent.length

variable {capacity : ℕ} {c c' : Channel ε}

theorem sound_new : Sound capacity (new : Channel ε) where
  behind := Nat.le_refl 0
  passed q listed := by cases listed
  overrun q listed := by cases listed

theorem Sound.send (sound : Sound capacity c) (e : ε) : Sound capacity (c.send e) := by
  have longer : c.sent.length ≤ (c.sent ++ [e]).length := by
    rw [List.length_append]
    exact Nat.le_add_right _ _
  exact ⟨Nat.le_trans sound.behind longer, sound.passed, fun q listed =>
    Nat.lt_of_lt_of_le (sound.overrun q listed) longer⟩

/-- What a call of `recv` that returns has done. -/
inductive Turn (capacity : ℕ) (c : Channel ε) : Channel ε → Received ε → Prop where
  | lagged (far : c.next + capacity < c.sent.length) :
      Turn capacity c { c with
        next := c.sent.length - capacity
        missed := c.missed ++ List.range' c.next (c.sent.length - capacity - c.next) }
        (.lagged (c.sent.length - capacity - c.next))
  | event {e : ε} (near : c.sent.length ≤ c.next + capacity) (there : c.sent[c.next]? = some e) :
      Turn capacity c { c with next := c.next + 1 } (.event c.next e)

theorem recv_turn {r : Received ε} (taken : recv capacity c = some (c', r)) : Turn capacity c c' r := by
  unfold recv at taken
  split at taken
  · rename_i far
    cases taken
    exact .lagged far
  · rename_i near
    cases there : c.sent[c.next]? with
    | none =>
      rw [there] at taken
      cases taken
    | some e =>
      rw [there] at taken
      cases taken
      exact .event (Nat.not_lt.mp near) there

theorem Turn.sent_eq {r : Received ε} (turn : Turn capacity c c' r) : c'.sent = c.sent := by
  cases turn <;> rfl

theorem Turn.missed_of {r : Received ε} (turn : Turn capacity c c' r) {q : ℕ} (listed : q ∈ c.missed) :
    q ∈ c'.missed := by
  cases turn with
  | lagged far => exact List.mem_append_left _ listed
  | event near there => exact listed

theorem Turn.sound {r : Received ε} (turn : Turn capacity c c' r) (sound : Sound capacity c) :
    Sound capacity c' := by
  cases turn with
  | event near there =>
    have inside : c.next < c.sent.length := (List.getElem?_eq_some_iff.mp there).1
    exact ⟨inside, fun q listed => Nat.lt_succ_of_lt (sound.passed q listed), sound.overrun⟩
  | lagged far =>
    refine ⟨Nat.sub_le _ _, fun q listed => ?_, fun q listed => ?_⟩
    · rcases List.mem_append.mp listed with old | new
      · have before := sound.passed q old
        change q < c.sent.length - capacity
        omega
      · obtain ⟨i, below, rfl⟩ := List.mem_range'.mp new
        change c.next + 1 * i < c.sent.length - capacity
        omega
    · rcases List.mem_append.mp listed with old | new
      · exact sound.overrun q old
      · obtain ⟨i, below, rfl⟩ := List.mem_range'.mp new
        change c.next + 1 * i + capacity < c.sent.length
        omega

theorem Turn.cases_passed {r : Received ε} (turn : Turn capacity c c' r) {q : ℕ} (now : q < c'.next) :
    q < c.next ∨ q ∈ c'.missed ∨ ∃ e, r = .event q e ∧ c.sent[q]? = some e := by
  cases turn with
  | @event e near there =>
    rcases Nat.lt_succ_iff_lt_or_eq.mp now with before | rfl
    · exact .inl before
    · exact .inr (.inr ⟨e, rfl, there⟩)
  | lagged far =>
    by_cases before : q < c.next
    · exact .inl before
    · refine .inr (.inl (List.mem_append_right _ (List.mem_range'.mpr ⟨q - c.next, ?_, ?_⟩)))
      · change q < c.sent.length - capacity at now
        omega
      · omega

end Channel

end Craftec.Library.Broadcast
