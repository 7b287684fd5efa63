/- GID: Craftec/Types/HlcDrift
   generality: I
   digest: How far ahead of the wall clock a hybrid clock may run, and what a full counter does to that. -/

import Craftec.Library.Run
import Craftec.Types.Hlc

set_option autoImplicit false
set_option relaxedAutoImplicit false

namespace Craftec.Types.HlcDrift

open Craftec.Library.Run (Reach exists_reach)
open Craftec.Types.Hlc

def readsWall : Task → Bool
  | .readWall _ | .checkRemote _ => true
  | _ => false

def WallForward (s : State) : Label → Prop
  | .invoke _ _ => True
  | .advance i o => readsWall (s.calls i) = true → s.shared.lastWall ≤ o.wall

instance (s : State) (label : Label) : Decidable (WallForward s label) :=
  match label with
  | .invoke _ _ => isTrue trivial
  | .advance _ _ => inferInstanceAs (Decidable (_ → _))

def WallFits (s : State) : Label → Prop
  | .invoke _ _ => True
  | .advance i o => readsWall (s.calls i) = true → o.wall.toNat + 500 < 2 ^ 48

instance (s : State) (label : Label) : Decidable (WallFits s label) :=
  match label with
  | .invoke _ _ => isTrue trivial
  | .advance _ _ => inferInstanceAs (Decidable (_ → _))

/-- An exchange that would carry a full counter over into the wall part of `state`,
with the reading it goes by. -/
def carry (state : UInt64) : Task → Option UInt64
  | .exchange old wall =>
    if state = old ∧ logicalPart old = 0xFFFF ∧ wall ≤ wallPart old then some wall else none
  | .adopt remote wall old =>
    if state = old ∧ wallPart old = wallPart remote ∧
      max (logicalPart old) (logicalPart remote) = 0xFFFF ∧ wall ≤ wallPart old then some wall
    else none
  | _ => none

/-- No full counter is carried over into the wall part while that is already
500 ms ahead of the reading the call goes by. -/
def CarriesInReach (s : State) : Label → Prop
  | .invoke _ _ => True
  | .advance i _ => ∀ wall ∈ carry s.shared.state (s.calls i),
    (wallPart s.shared.state).toNat < wall.toNat + 500

-- By the reading that is carried, if any, and not by all 64-bit words.
instance (s : State) (label : Label) : Decidable (CarriesInReach s label) :=
  match label with
  | .invoke _ _ => isTrue trivial
  | .advance i _ => Option.decidableForallMem (carry s.shared.state (s.calls i))

def Within (s : State) (label : Label) : Prop :=
  WallForward s label ∧ WallFits s label ∧ CarriesInReach s label

instance (s : State) (label : Label) : Decidable (Within s label) :=
  inferInstanceAs (Decidable (WallForward s label ∧ WallFits s label ∧ CarriesInReach s label))

section Rounds

variable {old wall remote : UInt64}

theorem checkRemote_skew (fits : wall.toNat + 500 < 2 ^ 48)
    (passed : Hlc.checkRemote wall remote = .ok ()) :
    (wallPart remote).toNat ≤ wall.toNat + 500 := by
  have ahead : (wall + maxSkewMs).toNat = wall.toNat + 500 := by
    rw [UInt64.toNat_add]
    exact Nat.mod_eq_of_lt (by change wall.toNat + 500 < 2 ^ 64; omega)
  unfold Hlc.checkRemote at passed
  split at passed
  · cases passed
  · rename_i near
    have near : ¬ (wall + maxSkewMs).toNat < (wallPart remote).toNat := near
    omega

theorem checkRemote_near (fits : wall.toNat + 500 < 2 ^ 48) (atLeast : wall.toNat ≤ (wallPart remote).toNat)
    (near : (wallPart remote).toNat ≤ wall.toNat + 500) : Hlc.checkRemote wall remote = .ok () := by
  have ahead : (wall + maxSkewMs).toNat = wall.toNat + 500 := by
    rw [UInt64.toNat_add]
    exact Nat.mod_eq_of_lt (by change wall.toNat + 500 < 2 ^ 64; omega)
  have difference : (absDiff (wallPart remote) wall).toNat = (wallPart remote).toNat - wall.toNat := by
    have notBelow : ¬ wallPart remote < wall := by
      rw [UInt64.lt_iff_toNat_lt]
      omega
    rw [absDiff, if_neg notBelow]
    exact UInt64.toNat_sub_of_le _ _ (UInt64.le_iff_toNat_le.mpr atLeast)
  have notAhead : ¬ wall + maxSkewMs < wallPart remote := by
    rw [UInt64.lt_iff_toNat_lt]
    omega
  have notOld : ¬ replayWindowMs < absDiff (wallPart remote) wall := by
    rw [UInt64.lt_iff_toNat_lt, difference]
    change ¬ 30000 < _
    omega
  rw [Hlc.checkRemote, if_neg notAhead, if_neg notOld]

theorem wallPart_nowTs (fits : wall.toNat + 500 < 2 ^ 48)
    (near : (wallPart old).toNat ≤ wall.toNat + 500)
    (inReach : logicalPart old = 0xFFFF → wall ≤ wallPart old →
      (wallPart old).toNat < wall.toNat + 500) :
    wall.toNat ≤ (wallPart (nowTs old wall)).toNat ∧
      (wallPart (nowTs old wall)).toNat ≤ wall.toNat + 500 := by
  unfold nowTs
  split
  · rw [wallPart_pack _ _ (by omega)]
    omega
  · rename_i notAhead
    have notAhead : ¬ (wallPart old).toNat < wall.toNat := notAhead
    split
    · rename_i full
      have room := inReach full (UInt64.le_iff_toNat_le.mpr (by omega))
      have next : (wallPart old + 1).toNat = (wallPart old).toNat + 1 := toNat_succ_wall (by omega)
      rw [wallPart_pack _ _ (by omega)]
      omega
    · rw [wallPart_pack _ _ (by omega)]
      omega

theorem wallPart_observeTs {latest : ℕ} (fits : latest + 500 < 2 ^ 48) (past : wall.toNat ≤ latest)
    (nearOld : (wallPart old).toNat ≤ latest + 500)
    (nearRemote : (wallPart remote).toNat ≤ wall.toNat + 500)
    (inReach : wallPart old = wallPart remote → max (logicalPart old) (logicalPart remote) = 0xFFFF →
      wall ≤ wallPart old → (wallPart old).toNat < wall.toNat + 500) :
    (wallPart (observeTs old wall remote)).toNat ≤ latest + 500 := by
  simp only [observeTs, UInt64.lt_iff_toNat_lt]
  split
  · rw [wallPart_pack _ _ (by omega)]
    omega
  · split
    · rw [wallPart_pack _ _ (by omega)]
      omega
    · split
      · rw [wallPart_pack _ _ (by omega)]
        omega
      · have same : wallPart old = wallPart remote := UInt64.toNat_inj.mp (by omega)
        split
        · rename_i full
          have room := inReach same full (UInt64.le_iff_toNat_le.mpr (by omega))
          have next : (wallPart old + 1).toNat = (wallPart old).toNat + 1 :=
            toNat_succ_wall (by omega)
          rw [wallPart_pack _ _ (by omega)]
          omega
        · rw [wallPart_pack _ _ (by omega)]
          omega

end Rounds

/-- What a call may hold when the last wall reading was `latest`. -/
def Near (latest : ℕ) : Task → Prop
  | .readWall old => (wallPart old).toNat ≤ latest + 500
  | .exchange old wall => (wallPart old).toNat ≤ wall.toNat + 500 ∧ wall.toNat ≤ latest
  | .returned wall ts => wall.toNat + 500 < 2 ^ 48 ∧ wall.toNat ≤ (wallPart ts).toNat ∧
    (wallPart ts).toNat ≤ wall.toNat + 500
  | .reload remote wall | .adopt remote wall _ =>
    (wallPart remote).toNat ≤ wall.toNat + 500 ∧ wall.toNat ≤ latest
  | _ => True

theorem Near.mono {latest later : ℕ} (forward : latest ≤ later) {task : Task}
    (near : Near latest task) : Near later task := by
  cases task with
  | readWall old =>
    have near : (wallPart old).toNat ≤ latest + 500 := near
    change (wallPart old).toNat ≤ later + 500
    omega
  | exchange old wall => exact ⟨near.1, near.2.trans forward⟩
  | reload remote wall => exact ⟨near.1, near.2.trans forward⟩
  | adopt remote wall old => exact ⟨near.1, near.2.trans forward⟩
  | _ => exact near

structure Bounded (s : State) : Prop where
  fits : s.shared.lastWall.toNat + 500 < 2 ^ 48
  word : (wallPart s.shared.state).toNat ≤ s.shared.lastWall.toNat + 500
  near : ∀ i, Near s.shared.lastWall.toNat (s.calls i)

theorem new_bounded {wall : UInt64} (fits : wall.toNat + 500 < 2 ^ 48) : Bounded (new wall) := by
  refine ⟨fits, ?_, fun _ => trivial⟩
  change (wallPart (pack wall 0)).toNat ≤ wall.toNat + 500
  rw [wallPart_pack _ _ (by omega)]
  omega

theorem Bounded.move {s : State} (before : Bounded s) (i : ℕ) {task : Task} {shared : Shared}
    (fits : shared.lastWall.toNat + 500 < 2 ^ 48)
    (forward : s.shared.lastWall.toNat ≤ shared.lastWall.toNat)
    (word : (wallPart shared.state).toNat ≤ shared.lastWall.toNat + 500)
    (near : Near shared.lastWall.toNat task) : Bounded ⟨shared, Function.update s.calls i task⟩ :=
  ⟨fits, word, (Function.forall_update_iff _ (fun _ t => Near shared.lastWall.toNat t)).mpr
    ⟨near, fun j _ => (before.near j).mono forward⟩⟩

theorem Bounded.still {s : State} (before : Bounded s) (i : ℕ) {task : Task}
    (near : Near s.shared.lastWall.toNat task) :
    Bounded ⟨s.shared, Function.update s.calls i task⟩ :=
  before.move i before.fits (Nat.le_refl _) before.word near

theorem Bounded.reads {s : State} (before : Bounded s) (i : ℕ) {wall : UInt64} {task : Task}
    (forward : s.shared.lastWall ≤ wall) (fits : wall.toNat + 500 < 2 ^ 48)
    (near : Near wall.toNat task) :
    Bounded ⟨{ s.shared with lastWall := wall }, Function.update s.calls i task⟩ := by
  have onward : s.shared.lastWall.toNat ≤ wall.toNat := forward
  exact before.move i fits onward (before.word.trans (Nat.add_le_add_right onward 500)) near

theorem step_bounded {s t : State} {label : Label} (before : Bounded s) (within : Within s label)
    (taken : step s label = some t) : Bounded t := by
  obtain ⟨i, task, calls, move⟩ := step_move taken
  obtain ⟨forward, fits, inReach⟩ := within
  have held := before.near i
  obtain ⟨shared, calls'⟩ := t
  obtain rfl : calls' = Function.update s.calls i task := calls
  generalize was : s.calls i = old at held move
  cases move with
  | enter call => exact before.still i (by cases call <;> trivial)
  | loaded o => exact before.still i before.word
  | lost o was wall => exact before.still i trivial
  | reloaded o remote wall => exact before.still i held
  | again o remote wall was => exact before.still i held
  | wallRead o read =>
    have forward := forward (congrArg readsWall was)
    have held : (wallPart read).toNat ≤ s.shared.lastWall.toNat + 500 := held
    have onward : s.shared.lastWall.toNat ≤ o.wall.toNat := forward
    exact before.reads i forward (fits (congrArg readsWall was))
      ⟨held.trans (Nat.add_le_add_right onward 500), Nat.le_refl _⟩
  | refused o remote e =>
    exact before.reads i (forward (congrArg readsWall was)) (fits (congrArg readsWall was)) trivial
  | passed o remote checked =>
    have fits := fits (congrArg readsWall was)
    exact before.reads i (forward (congrArg readsWall was)) fits
      ⟨checkRemote_skew fits checked, Nat.le_refl _⟩
  | stored o wall =>
    obtain ⟨near, past⟩ := held
    have room : wall.toNat + 500 < 2 ^ 48 := (Nat.add_le_add_right past 500).trans_lt before.fits
    have bounds := wallPart_nowTs room near fun full behind =>
      inReach wall (by rw [was, carry, if_pos ⟨rfl, full, behind⟩]; rfl)
    refine before.move i before.fits (Nat.le_refl _) ?_ ⟨room, bounds⟩
    change (wallPart (nowTs s.shared.state wall)).toNat ≤ s.shared.lastWall.toNat + 500
    omega
  | adopted o remote wall =>
    obtain ⟨near, past⟩ := held
    refine before.move i before.fits (Nat.le_refl _)
      (wallPart_observeTs before.fits past before.word near ?_) trivial
    intro same full behind
    exact inReach wall (by rw [was, carry, if_pos ⟨rfl, same, full, behind⟩]; rfl)

/-- On a clock from `new`, with a wall clock that does not go back, a timestamp
returned at reading `wall` is at most 500 ms ahead of it and a peer at the same
reading accepts it, as long as no full counter is carried over at the edge. -/
theorem drift_within_skew {wall₀ : UInt64} {t : State} (fits : wall₀.toNat + 500 < 2 ^ 48)
    (reach : Reach step Within (new wall₀) t) (i : ℕ) (wall ts : UInt64)
    (returned : t.calls i = .returned wall ts) :
    (wallPart ts).toNat ≤ wall.toNat + 500 ∧ Hlc.checkRemote wall ts = .ok () := by
  have bounded : Bounded t := reach.invariant (new_bounded fits)
    fun _ _ _ before within taken => step_bounded before within taken
  have near := bounded.near i
  rw [returned] at near
  obtain ⟨room, atLeast, atMost⟩ := near
  exact ⟨atMost, checkRemote_near room atLeast atMost⟩

theorem drift_within_skew_below_edge :
    ∃ t, Reach step Within (new 1000) t ∧ t.calls 1 = .returned 1000 (pack 1500 0) ∧
      (wallPart (pack 1500 0)).toNat ≤ (1000 : UInt64).toNat + 500 ∧
      Hlc.checkRemote 1000 (pack 1500 0) = .ok () := by
  have run : ∃ t, Reach step Within (new 1000) t ∧ t.calls 1 = .returned 1000 (pack 1500 0) :=
    exists_reach _ _
      [.invoke 0 (.observe (pack 1499 0xFFFF)), .advance 0 ⟨1000, false⟩, .advance 0 ⟨0, false⟩,
        .advance 0 ⟨0, false⟩, .invoke 1 .now, .advance 1 ⟨0, false⟩, .advance 1 ⟨1000, false⟩,
        .advance 1 ⟨0, false⟩] (by decide)
  obtain ⟨t, reach, returned⟩ := run
  exact ⟨t, reach, returned, drift_within_skew (by decide) reach 1 _ _ returned⟩

/-- A remote timestamp at the edge of the window with its counter full is adopted
as it stands; the next `now`, at the same reading, carries it over the edge. -/
theorem full_counter_drifts :
    ∃ t, Reach step WallForward (new 1000) t ∧ t.calls 0 = .accepted (pack 1500 0xFFFF) ∧
      t.calls 1 = .returned 1000 (pack 1501 0) ∧ 1000 + 500 < (wallPart (pack 1501 0)).toNat ∧
      Hlc.checkRemote 1000 (pack 1501 0) = .error (.clockSkew 1000 1501 501) := by
  have run : ∃ t, Reach step WallForward (new 1000) t ∧
      t.calls 0 = .accepted (pack 1500 0xFFFF) ∧ t.calls 1 = .returned 1000 (pack 1501 0) :=
    exists_reach _ _
      [.invoke 0 (.observe (pack 1500 0xFFFF)), .advance 0 ⟨1000, false⟩, .advance 0 ⟨0, false⟩,
        .advance 0 ⟨0, false⟩, .invoke 1 .now, .advance 1 ⟨0, false⟩, .advance 1 ⟨1000, false⟩,
        .advance 1 ⟨0, false⟩] (by decide)
  obtain ⟨t, reach, accepted, returned⟩ := run
  exact ⟨t, reach, accepted, returned, by decide, by decide⟩

end Craftec.Types.HlcDrift
