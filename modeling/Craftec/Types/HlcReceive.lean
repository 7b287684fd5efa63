/- GID: Craftec/Types/HlcReceive
   generality: I
   digest: What one call of observe, alone on the clock, leaves there, and when that is past both timestamps. -/

import Craftec.Library.Run
import Craftec.Types.Hlc

set_option autoImplicit false
set_option relaxedAutoImplicit false

namespace Craftec.Types.HlcReceive

open Craftec.Library.Run (Reach exists_reach)
open Craftec.Types.Hlc

/-- Only call `i` moves. -/
def Alone (i : ℕ) (_ : State) : Label → Prop
  | .invoke _ _ => False
  | .advance j _ => j = i

instance (i : ℕ) (s : State) (label : Label) : Decidable (Alone i s label) :=
  match label with
  | .invoke _ _ => isFalse id
  | .advance _ _ => inferInstanceAs (Decidable (_ = _))

/-- One of the two timestamps leads, the wall clock does not lead both, and the counter
of the leading one is full. -/
def Saturates (old wall remote : UInt64) : Prop :=
  ¬ (wallPart old < wall ∧ wallPart remote < wall) ∧
    ((wallPart remote < wallPart old ∧ logicalPart old = 0xFFFF) ∨
      (wallPart old < wallPart remote ∧ logicalPart remote = 0xFFFF))

instance (old wall remote : UInt64) : Decidable (Saturates old wall remote) :=
  inferInstanceAs (Decidable (_ ∧ _))

section Rounds

variable {old wall remote : UInt64}

theorem lt_pack_saturatingSucc_iff (ts : UInt64) :
    ts.toNat < (pack (wallPart ts) (saturatingSucc (logicalPart ts))).toNat ↔
      logicalPart ts ≠ 0xFFFF := by
  have parts := toNat_parts ts
  have bound : ts.toNat < 2 ^ 64 := ts.toNat_lt
  have wallBound := toNat_wallPart ts
  rw [toNat_pack _ _ (by omega)]
  unfold saturatingSucc
  split
  · rename_i full
    exact iff_of_false (by omega) (not_not.mpr full)
  · rename_i room
    rw [toNat_succ_logical room]
    exact iff_of_true (by omega) room

theorem lt_pack_of_wall {ts : UInt64} {logical : UInt16} (fits : wall.toNat < 2 ^ 48)
    (earlier : (wallPart ts).toNat < wall.toNat) : ts.toNat < (pack wall logical).toNat := by
  have parts := toNat_parts ts
  have small : (logicalPart ts).toNat < 2 ^ 16 := (logicalPart ts).toNat_lt
  rw [toNat_pack _ _ fits]
  omega

theorem lt_observeTs_of_level (level : wallPart old = wallPart remote)
    (behind : ¬ (wallPart old < wall ∧ wallPart remote < wall))
    (room : (wallPart old).toNat < 2 ^ 48 - 1) :
    old.toNat < (observeTs old wall remote).toNat ∧
      remote.toNat < (observeTs old wall remote).toNat := by
  have partsOld := toNat_parts old
  have partsRemote := toNat_parts remote
  have larger := toNat_max_logical (logicalPart old) (logicalPart remote)
  have neither : ¬ wallPart remote < wallPart old ∧ ¬ wallPart old < wallPart remote := by
    rw [level]
    exact ⟨UInt64.lt_irrefl _, UInt64.lt_irrefl _⟩
  unfold observeTs
  rw [if_neg behind, if_neg neither.1, if_neg neither.2]
  split
  · have next : (wallPart old + 1).toNat = (wallPart old).toNat + 1 := toNat_succ_wall (by omega)
    constructor
    · exact lt_pack_of_wall (by omega) (by omega)
    · exact lt_pack_of_wall (by omega) (by rw [← level]; omega)
  · rename_i open_
    rw [level] at partsOld
    rw [toNat_pack _ _ (by omega), toNat_succ_logical open_, level]
    omega

theorem lt_observeTs_iff (roomOld : (wallPart old).toNat < 2 ^ 48 - 1)
    (roomWall : wall.toNat < 2 ^ 48 - 1) (roomRemote : (wallPart remote).toNat < 2 ^ 48 - 1) :
    (old.toNat < (observeTs old wall remote).toNat ∧
      remote.toNat < (observeTs old wall remote).toNat) ↔ ¬ Saturates old wall remote := by
  by_cases leads : wallPart old < wall ∧ wallPart remote < wall
  · refine iff_of_true ?_ (fun saturates => saturates.1 leads)
    unfold observeTs
    rw [if_pos leads]
    exact ⟨lt_pack_of_wall (by omega) leads.1, lt_pack_of_wall (by omega) leads.2⟩
  · rcases Nat.lt_trichotomy (wallPart old).toNat (wallPart remote).toNat with below | level | above
    · have below : wallPart old < wallPart remote := below
      have other : ¬ wallPart remote < wallPart old := UInt64.lt_asymm below
      have stored : observeTs old wall remote =
          pack (wallPart remote) (saturatingSucc (logicalPart remote)) := by
        unfold observeTs
        rw [if_neg leads, if_neg other, if_pos below]
      have saturates : Saturates old wall remote ↔ logicalPart remote = 0xFFFF :=
        ⟨fun s => (s.2.resolve_left fun left => other left.1).2, fun full => ⟨leads, .inr ⟨below, full⟩⟩⟩
      rw [stored, lt_pack_saturatingSucc_iff, saturates]
      exact and_iff_right (lt_pack_of_wall (by omega) below)
    · have level : wallPart old = wallPart remote := UInt64.toNat_inj.mp level
      refine iff_of_true (lt_observeTs_of_level level leads roomOld) ?_
      rintro ⟨-, ⟨less, -⟩ | ⟨less, -⟩⟩
      · exact UInt64.lt_irrefl _ (level ▸ less)
      · exact UInt64.lt_irrefl _ (level ▸ less)
    · have above : wallPart remote < wallPart old := above
      have other : ¬ wallPart old < wallPart remote := UInt64.lt_asymm above
      have stored : observeTs old wall remote =
          pack (wallPart old) (saturatingSucc (logicalPart old)) := by
        unfold observeTs
        rw [if_neg leads, if_pos above]
      have saturates : Saturates old wall remote ↔ logicalPart old = 0xFFFF :=
        ⟨fun s => (s.2.resolve_right fun right => other right.1).2, fun full => ⟨leads, .inl ⟨above, full⟩⟩⟩
      rw [stored, lt_pack_saturatingSucc_iff, saturates]
      exact and_iff_left (lt_pack_of_wall (by omega) above)

end Rounds

/-- How far a call of `observe` has come on a clock that held `old` when it began. -/
def Progress (old remote : UInt64) (s : Shared) : Task → Prop
  | .checkRemote r => r = remote ∧ s.state = old
  | .reload r wall => r = remote ∧ s.state = old ∧ s.lastWall = wall
  | .adopt r wall seen => r = remote ∧ s.state = old ∧ s.lastWall = wall ∧ seen = old
  | .accepted _ => s.state = observeTs old s.lastWall remote
  | .rejected _ _ => s.state = old
  | _ => False

theorem step_progress {old remote : UInt64} {i : ℕ} {s t : State} {label : Label}
    (before : Progress old remote s.shared (s.calls i)) (alone : Alone i s label)
    (taken : step s label = some t) : Progress old remote t.shared (t.calls i) := by
  obtain ⟨j, task, calls, move⟩ := step_move taken
  obtain ⟨shared, calls'⟩ := t
  obtain rfl : calls' = Function.update s.calls j task := calls
  have own : j = i := by
    generalize s.calls j = was at move
    cases move with
    | enter call => exact alone.elim
    | loaded o | wallRead o old | stored o wall | lost o old wall | refused o r e
    | passed o r checked | reloaded o r wall | adopted o r wall | again o r wall old => exact alone
  subst own
  change Progress old remote shared (Function.update s.calls j task j)
  rw [Function.update_self]
  generalize s.calls j = was at before move
  cases move with
  | enter call | loaded o | wallRead o old | stored o wall | lost o old wall => exact before.elim
  | refused o r e => exact before.2
  | passed o r checked => exact ⟨before.1, before.2, rfl⟩
  | reloaded o r wall => exact ⟨before.1, before.2.1, before.2.2, before.2.1⟩
  | again o r wall seen => exact ⟨before.1, before.2.1, before.2.2.1⟩
  | adopted o r wall =>
    obtain ⟨rfl, held, read, -⟩ := before
    change observeTs s.shared.state wall r = observeTs old s.shared.lastWall r
    rw [held, read]

theorem state_of_accepted {s t : State} {i : ℕ} {remote : UInt64}
    (called : s.calls i = .checkRemote remote) (alone : Reach step (Alone i) s t)
    (accepted : t.calls i = .accepted remote) :
    t.shared.state = observeTs s.shared.state t.shared.lastWall remote := by
  have progress : Progress s.shared.state remote t.shared (t.calls i) := by
    refine @Reach.invariant _ _ _ _ (fun u => Progress s.shared.state remote u.shared (u.calls i))
      _ _ alone ?_ ?_
    · rw [called]
      exact ⟨rfl, rfl⟩
    · intro u label v before allowed taken
      exact step_progress before allowed taken
  rw [accepted] at progress
  exact progress

/-- An accepted remote timestamp takes the clock past itself and past the state it found,
unless the timestamp that leads has a full counter. -/
theorem observe_strict_iff {s t : State} {i : ℕ} {remote : UInt64}
    (called : s.calls i = .checkRemote remote) (alone : Reach step (Alone i) s t)
    (accepted : t.calls i = .accepted remote)
    (roomOld : (wallPart s.shared.state).toNat < 2 ^ 48 - 1)
    (roomWall : t.shared.lastWall.toNat < 2 ^ 48 - 1)
    (roomRemote : (wallPart remote).toNat < 2 ^ 48 - 1) :
    (s.shared.state < t.shared.state ∧ remote < t.shared.state) ↔
      ¬ Saturates s.shared.state t.shared.lastWall remote := by
  rw [state_of_accepted called alone accepted, UInt64.lt_iff_toNat_lt, UInt64.lt_iff_toNat_lt]
  exact lt_observeTs_iff roomOld roomWall roomRemote

/-- A clock that holds `ts`, on which call 0 of `observe` begins. -/
def observing (ts remote : UInt64) : State :=
  ⟨⟨ts, [], 0⟩, Function.update (fun _ => .idle) 0 (.checkRemote remote)⟩

/-- One failed weak exchange and one that succeeds. -/
def rounds (wall : UInt64) : List Label :=
  [.advance 0 ⟨wall, false⟩, .advance 0 ⟨wall, false⟩, .advance 0 ⟨wall, true⟩,
    .advance 0 ⟨wall, false⟩, .advance 0 ⟨wall, false⟩]

theorem observe_strict_ahead : ∃ t,
    Reach step (Alone 0) (observing (pack 1000 7) (pack 1200 3)) t ∧
      t.shared.state = pack 1200 4 ∧
      ((pack 1000 7 < t.shared.state ∧ pack 1200 3 < t.shared.state) ↔
        ¬ Saturates (pack 1000 7) t.shared.lastWall (pack 1200 3)) := by
  have run : ∃ t, Reach step (Alone 0) (observing (pack 1000 7) (pack 1200 3)) t ∧
      t.calls 0 = .accepted (pack 1200 3) ∧ t.shared.state = pack 1200 4 ∧
        t.shared.lastWall = 1000 :=
    exists_reach (fun t => t.calls 0 = .accepted (pack 1200 3) ∧ t.shared.state = pack 1200 4 ∧
      t.shared.lastWall = 1000) (observing (pack 1000 7) (pack 1200 3)) (rounds 1000) (by decide)
  obtain ⟨t, reach, accepted, stored, wall⟩ := run
  refine ⟨t, reach, stored, observe_strict_iff rfl reach accepted (by decide) ?_ (by decide)⟩
  rw [wall]
  decide

/-- A clock ahead of the remote with a full counter stays where it is. -/
theorem observe_stands_still : ∃ t,
    Reach step (Alone 0) (observing (pack 1000 0xFFFF) (pack 999 0)) t ∧
      t.calls 0 = .accepted (pack 999 0) ∧ t.shared.lastWall = 1000 ∧
      t.shared.state = pack 1000 0xFFFF :=
  exists_reach (fun t => t.calls 0 = .accepted (pack 999 0) ∧ t.shared.lastWall = 1000 ∧
      t.shared.state = pack 1000 0xFFFF)
    (observing (pack 1000 0xFFFF) (pack 999 0)) (rounds 1000) (by decide)

end Craftec.Types.HlcReceive
