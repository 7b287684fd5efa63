/- GID: Craftec/Types/Hlc
   generality: I
   digest: The packed hybrid clock, its two operations, and any number of calls racing on one clock. -/

import Mathlib
import Craftec.Library.AtomicCell
import Craftec.Library.Run

set_option autoImplicit false
set_option relaxedAutoImplicit false

namespace Craftec.Types.Hlc

open Craftec.Library.AtomicCell (Write Linked)
open Craftec.Library.Run (Reach exists_reach)

def maxSkewMs : UInt64 := 500

def replayWindowMs : UInt64 := 30000

def pack (wallMs : UInt64) (logical : UInt16) : UInt64 := (wallMs <<< 16) ||| logical.toUInt64

def unpack (ts : UInt64) : UInt64 × UInt16 := (ts >>> 16, (ts &&& 0xFFFF).toUInt16)

def wallPart (ts : UInt64) : UInt64 := (unpack ts).1

def logicalPart (ts : UInt64) : UInt16 := (unpack ts).2

inductive HlcError where
  | clockSkew (localMs remoteMs skewMs : UInt64)
  | replayDetected (localMs remoteMs deltaMs : UInt64)
  deriving DecidableEq

def absDiff (a b : UInt64) : UInt64 := if a < b then b - a else a - b

def saturatingSucc (logical : UInt16) : UInt16 := if logical = 0xFFFF then logical else logical + 1

/-- What one round of `now` tries to store over `old`. -/
def nowTs (old currentWall : UInt64) : UInt64 :=
  if wallPart old < currentWall then pack currentWall 0
  else if logicalPart old = 0xFFFF then pack (wallPart old + 1) 0
  else pack (wallPart old) (logicalPart old + 1)

/-- The two checks that open `observe`. -/
def checkRemote (currentWall remoteTs : UInt64) : Except HlcError Unit :=
  if currentWall + maxSkewMs < wallPart remoteTs then
    .error (.clockSkew currentWall (wallPart remoteTs) (wallPart remoteTs - currentWall))
  else if replayWindowMs < absDiff (wallPart remoteTs) currentWall then
    .error (.replayDetected currentWall (wallPart remoteTs) (absDiff (wallPart remoteTs) currentWall))
  else .ok ()

/-- What one round of `observe` tries to store over `old`. -/
def observeTs (old currentWall remoteTs : UInt64) : UInt64 :=
  if wallPart old < currentWall ∧ wallPart remoteTs < currentWall then pack currentWall 0
  else if wallPart remoteTs < wallPart old then pack (wallPart old) (saturatingSucc (logicalPart old))
  else if wallPart old < wallPart remoteTs then
    pack (wallPart remoteTs) (saturatingSucc (logicalPart remoteTs))
  else if max (logicalPart old) (logicalPart remoteTs) = 0xFFFF then pack (wallPart old + 1) 0
  else pack (wallPart old) (max (logicalPart old) (logicalPart remoteTs) + 1)

section Packing

theorem toNat_pack (wallMs : UInt64) (logical : UInt16) (fits : wallMs.toNat < 2 ^ 48) :
    (pack wallMs logical).toNat = wallMs.toNat * 2 ^ 16 + logical.toNat := by
  have small : logical.toNat < 2 ^ 16 := logical.toNat_lt
  have shifted : (wallMs <<< 16).toNat = wallMs.toNat <<< 16 := by
    rw [UInt64.toNat_shiftLeft]
    change wallMs.toNat <<< 16 % 2 ^ 64 = _
    rw [Nat.mod_eq_of_lt]
    rw [Nat.shiftLeft_eq]
    omega
  rw [pack, UInt64.toNat_or, shifted, UInt16.toNat_toUInt64,
    ← Nat.shiftLeft_add_eq_or_of_lt small, Nat.shiftLeft_eq]

theorem toNat_wallPart (ts : UInt64) : (wallPart ts).toNat = ts.toNat / 2 ^ 16 := by
  rw [wallPart, unpack, UInt64.toNat_shiftRight]
  exact Nat.shiftRight_eq_div_pow _ _

theorem toNat_logicalPart (ts : UInt64) : (logicalPart ts).toNat = ts.toNat % 2 ^ 16 := by
  have masked : ts.toNat &&& 2 ^ 16 - 1 = ts.toNat % 2 ^ 16 := Nat.and_two_pow_sub_one_eq_mod _ _
  rw [logicalPart, unpack, UInt64.toNat_toUInt16, UInt64.toNat_and]
  change (ts.toNat &&& 2 ^ 16 - 1) % 2 ^ 16 = _
  rw [masked, Nat.mod_mod]

theorem toNat_parts (ts : UInt64) :
    ts.toNat = (wallPart ts).toNat * 2 ^ 16 + (logicalPart ts).toNat := by
  rw [toNat_wallPart, toNat_logicalPart]
  exact (Nat.div_add_mod' _ _).symm

theorem wallPart_pack (wallMs : UInt64) (logical : UInt16) (fits : wallMs.toNat < 2 ^ 48) :
    wallPart (pack wallMs logical) = wallMs := by
  have small : logical.toNat < 2 ^ 16 := logical.toNat_lt
  apply UInt64.toNat_inj.mp
  rw [toNat_wallPart, toNat_pack wallMs logical fits]
  omega

theorem toNat_succ_wall {wall : UInt64} (fits : wall.toNat < 2 ^ 48) :
    (wall + 1).toNat = wall.toNat + 1 := by
  rw [UInt64.toNat_add]
  exact Nat.mod_eq_of_lt (by change wall.toNat + 1 < 2 ^ 64; omega)

theorem toNat_succ_logical {logical : UInt16} (room : logical ≠ 0xFFFF) :
    (logical + 1).toNat = logical.toNat + 1 := by
  have small : logical.toNat < 2 ^ 16 := logical.toNat_lt
  have last : logical.toNat ≠ 65535 := fun full => room (UInt16.toNat_inj.mp full)
  rw [UInt16.toNat_add]
  exact Nat.mod_eq_of_lt (by change logical.toNat + 1 < 2 ^ 16; omega)

theorem le_saturatingSucc (logical : UInt16) : logical.toNat ≤ (saturatingSucc logical).toNat := by
  unfold saturatingSucc
  split
  · exact Nat.le_refl _
  · rename_i room
    rw [toNat_succ_logical room]
    omega

theorem toNat_max_logical (a b : UInt16) : (max a b).toNat = max a.toNat b.toNat := by
  change (if a ≤ b then b else a).toNat = max a.toNat b.toNat
  split
  · rename_i below
    have below : a.toNat ≤ b.toNat := below
    omega
  · rename_i above
    have above : ¬ a.toNat ≤ b.toNat := above
    omega

end Packing

section Growth

variable {old wall remote : UInt64}

theorem lt_nowTs (roomOld : (wallPart old).toNat < 2 ^ 48 - 1) (roomWall : wall.toNat < 2 ^ 48 - 1) :
    old.toNat < (nowTs old wall).toNat := by
  have parts := toNat_parts old
  have small : (logicalPart old).toNat < 2 ^ 16 := (logicalPart old).toNat_lt
  unfold nowTs
  split
  · rename_i ahead
    have ahead : (wallPart old).toNat < wall.toNat := ahead
    rw [toNat_pack _ _ (by omega)]
    omega
  · split
    · have next : (wallPart old + 1).toNat = (wallPart old).toNat + 1 := toNat_succ_wall (by omega)
      rw [toNat_pack _ _ (by omega)]
      omega
    · rename_i room
      rw [toNat_pack _ _ (by omega), toNat_succ_logical room]
      omega

theorem le_observeTs (roomOld : (wallPart old).toNat < 2 ^ 48 - 1)
    (roomWall : wall.toNat < 2 ^ 48 - 1) (roomRemote : (wallPart remote).toNat < 2 ^ 48 - 1) :
    old.toNat ≤ (observeTs old wall remote).toNat ∧
      remote.toNat ≤ (observeTs old wall remote).toNat := by
  have partsOld := toNat_parts old
  have partsRemote := toNat_parts remote
  have smallOld : (logicalPart old).toNat < 2 ^ 16 := (logicalPart old).toNat_lt
  have smallRemote : (logicalPart remote).toNat < 2 ^ 16 := (logicalPart remote).toNat_lt
  have saturatedOld := le_saturatingSucc (logicalPart old)
  have saturatedRemote := le_saturatingSucc (logicalPart remote)
  simp only [observeTs, UInt64.lt_iff_toNat_lt]
  split
  · rw [toNat_pack _ _ (by omega)]
    omega
  · split
    · rw [toNat_pack _ _ (by omega)]
      omega
    · split
      · rw [toNat_pack _ _ (by omega)]
        omega
      · -- Equal wall parts: the larger counter, one up, or the next millisecond.
        have larger := toNat_max_logical (logicalPart old) (logicalPart remote)
        split
        · have next : (wallPart old + 1).toNat = (wallPart old).toNat + 1 :=
            toNat_succ_wall (by omega)
          rw [toNat_pack _ _ (by omega)]
          omega
        · rename_i room
          rw [toNat_pack _ _ (by omega), toNat_succ_logical room]
          omega

end Growth

/-- Where a call stands: each constructor names the step it takes next. -/
inductive Task where
  | idle
  | load
  | readWall (old : UInt64)
  | exchange (old wall : UInt64)
  | returned (wall ts : UInt64)
  | checkRemote (remote : UInt64)
  | reload (remote wall : UInt64)
  | adopt (remote wall old : UInt64)
  | accepted (remote : UInt64)
  | rejected (remote : UInt64) (e : HlcError)
  deriving DecidableEq

inductive Call where
  | now
  | observe (remote : UInt64)

inductive Exchange where
  | now (i : ℕ)
  | observe (i : ℕ) (remote : UInt64)

/-- The atomic word. The successful exchanges and the last wall reading are kept
for the statements about runs only. -/
structure Shared where
  state : UInt64
  writes : List (Write Exchange UInt64)
  lastWall : UInt64

structure State where
  shared : Shared
  calls : ℕ → Task

/-- What a step does not control: the system clock, and a weak exchange failing
although the word is the one it expects. -/
structure Outside where
  wall : UInt64
  spurious : Bool

inductive Label where
  | invoke (i : ℕ) (call : Call)
  | advance (i : ℕ) (outside : Outside)

def Shared.write (s : Shared) (event : Exchange) (ts : UInt64) : Shared :=
  { s with state := ts, writes := s.writes ++ [⟨event, s.state, ts⟩] }

def advance (s : Shared) (i : ℕ) (outside : Outside) : Task → Option (Shared × Task)
  | .idle | .returned _ _ | .accepted _ | .rejected _ _ => none
  | .load => some (s, .readWall s.state)
  | .readWall old => some ({ s with lastWall := outside.wall }, .exchange old outside.wall)
  | .exchange old wall =>
    if s.state = old ∧ outside.spurious = false then
      some (s.write (.now i) (nowTs old wall), .returned wall (nowTs old wall))
    else some (s, .load)
  | .checkRemote remote =>
    match Hlc.checkRemote outside.wall remote with
    | .error e => some ({ s with lastWall := outside.wall }, .rejected remote e)
    | .ok () => some ({ s with lastWall := outside.wall }, .reload remote outside.wall)
  | .reload remote wall => some (s, .adopt remote wall s.state)
  | .adopt remote wall old =>
    if s.state = old ∧ outside.spurious = false then
      some (s.write (.observe i remote) (observeTs old wall remote), .accepted remote)
    else some (s, .reload remote wall)

def Call.enter : Call → Task
  | .now => .load
  | .observe remote => .checkRemote remote

def step (s : State) : Label → Option State
  | .invoke i call =>
    match s.calls i with
    | .idle => some { s with calls := Function.update s.calls i call.enter }
    | _ => none
  | .advance i outside =>
    match advance s.shared i outside (s.calls i) with
    | some (shared, t) => some ⟨shared, Function.update s.calls i t⟩
    | none => none

/-- A clock holding `ts`, with no call under way. -/
def start (ts lastWall : UInt64) : State := ⟨⟨ts, [], lastWall⟩, fun _ => .idle⟩

/-- `HybridClock::new` at the given wall reading. -/
def new (wall : UInt64) : State := start (pack wall 0) wall

/-- Everything one step of call `i` can do to the clock and to the call. -/
inductive Move (s : Shared) (i : ℕ) : Label → Task → Shared → Task → Prop where
  | enter (call : Call) : Move s i (.invoke i call) .idle s call.enter
  | loaded (o : Outside) : Move s i (.advance i o) .load s (.readWall s.state)
  | wallRead (o : Outside) (old : UInt64) :
      Move s i (.advance i o) (.readWall old) { s with lastWall := o.wall } (.exchange old o.wall)
  | stored (o : Outside) (wall : UInt64) :
      Move s i (.advance i o) (.exchange s.state wall) (s.write (.now i) (nowTs s.state wall))
        (.returned wall (nowTs s.state wall))
  | lost (o : Outside) (old wall : UInt64) : Move s i (.advance i o) (.exchange old wall) s .load
  | refused (o : Outside) (remote : UInt64) (e : HlcError) :
      Move s i (.advance i o) (.checkRemote remote) { s with lastWall := o.wall }
        (.rejected remote e)
  | passed (o : Outside) (remote : UInt64) (checked : Hlc.checkRemote o.wall remote = .ok ()) :
      Move s i (.advance i o) (.checkRemote remote) { s with lastWall := o.wall }
        (.reload remote o.wall)
  | reloaded (o : Outside) (remote wall : UInt64) :
      Move s i (.advance i o) (.reload remote wall) s (.adopt remote wall s.state)
  | adopted (o : Outside) (remote wall : UInt64) :
      Move s i (.advance i o) (.adopt remote wall s.state)
        (s.write (.observe i remote) (observeTs s.state wall remote)) (.accepted remote)
  | again (o : Outside) (remote wall old : UInt64) :
      Move s i (.advance i o) (.adopt remote wall old) s (.reload remote wall)

theorem advance_move {s s' : Shared} {i : ℕ} {o : Outside} {task task' : Task}
    (moves : advance s i o task = some (s', task')) : Move s i (.advance i o) task s' task' := by
  cases task with
  | idle | returned _ _ | accepted _ | rejected _ _ => cases moves
  | load => cases moves; exact .loaded o
  | readWall old => cases moves; exact .wallRead o old
  | reload remote wall => cases moves; exact .reloaded o remote wall
  | exchange old wall =>
    simp only [advance] at moves
    split at moves
    · rename_i swaps
      obtain ⟨rfl, -⟩ := swaps
      cases moves
      exact .stored o wall
    · cases moves
      exact .lost o old wall
  | checkRemote remote =>
    cases checked : Hlc.checkRemote o.wall remote with
    | error e =>
      simp only [advance, checked] at moves
      cases moves
      exact .refused o remote e
    | ok =>
      simp only [advance, checked] at moves
      cases moves
      exact .passed o remote checked
  | adopt remote wall old =>
    simp only [advance] at moves
    split at moves
    · rename_i swaps
      obtain ⟨rfl, -⟩ := swaps
      cases moves
      exact .adopted o remote wall
    · cases moves
      exact .again o remote wall old

theorem step_move {s t : State} {label : Label} (taken : step s label = some t) :
    ∃ i task, t.calls = Function.update s.calls i task ∧
      Move s.shared i label (s.calls i) t.shared task := by
  cases label with
  | invoke i call =>
    simp only [step] at taken
    split at taken
    · rename_i idle
      cases taken
      refine ⟨i, call.enter, rfl, ?_⟩
      rw [idle]
      exact .enter call
    · cases taken
  | advance i o =>
    simp only [step] at taken
    split at taken
    · rename_i shared task moves
      cases taken
      exact ⟨i, task, rfl, advance_move moves⟩
    · cases taken

section Order

/-- All wall parts stay below `2 ^ 48 - 1`: the one the word holds, the one read
and the one received. -/
def WallsBelow (s : State) : Label → Prop
  | .invoke _ .now => (wallPart s.shared.state).toNat < 2 ^ 48 - 1
  | .invoke _ (.observe remote) =>
    (wallPart s.shared.state).toNat < 2 ^ 48 - 1 ∧ (wallPart remote).toNat < 2 ^ 48 - 1
  | .advance _ o => (wallPart s.shared.state).toNat < 2 ^ 48 - 1 ∧ o.wall.toNat < 2 ^ 48 - 1

instance (s : State) (label : Label) : Decidable (WallsBelow s label) :=
  match label with
  | .invoke _ .now => inferInstanceAs (Decidable (_ < _))
  | .invoke _ (.observe _) => inferInstanceAs (Decidable (_ ∧ _))
  | .advance _ _ => inferInstanceAs (Decidable (_ ∧ _))

def Grows (w : Write Exchange UInt64) : Prop :=
  match w.event with
  | .now _ => w.before.toNat < w.after.toNat
  | .observe _ remote => w.before.toNat ≤ w.after.toNat ∧ remote.toNat ≤ w.after.toNat

theorem Grows.le {w : Write Exchange UInt64} (grows : Grows w) :
    w.before.toNat ≤ w.after.toNat := by
  obtain ⟨event, before, after⟩ := w
  cases event with
  | now i => exact Nat.le_of_lt grows
  | observe i remote => exact grows.1

/-- What a call carries: wall parts within bounds, and, once it is over, the
exchange that ended it. -/
def Task.Carries (writes : List (Write Exchange UInt64)) (i : ℕ) : Task → Prop
  | .exchange _ wall => wall.toNat < 2 ^ 48 - 1
  | .checkRemote remote => (wallPart remote).toNat < 2 ^ 48 - 1
  | .reload remote wall | .adopt remote wall _ =>
    (wallPart remote).toNat < 2 ^ 48 - 1 ∧ wall.toNat < 2 ^ 48 - 1
  | .returned _ ts => ∃ w ∈ writes, w.event = .now i ∧ w.after = ts
  | .accepted remote => ∃ w ∈ writes, w.event = .observe i remote
  | _ => True

theorem Task.Carries.mono {writes later : List (Write Exchange UInt64)} {i : ℕ} {task : Task}
    (carries : task.Carries writes i) : task.Carries (writes ++ later) i := by
  cases task with
  | returned wall ts =>
    obtain ⟨w, listed, facts⟩ := carries
    exact ⟨w, List.mem_append_left _ listed, facts⟩
  | accepted remote =>
    obtain ⟨w, listed, facts⟩ := carries
    exact ⟨w, List.mem_append_left _ listed, facts⟩
  | _ => exact carries

structure Ordered (first : UInt64) (s : State) : Prop where
  linked : Linked first s.shared.writes s.shared.state
  grows : ∀ w ∈ s.shared.writes, Grows w
  carries : ∀ i, (s.calls i).Carries s.shared.writes i

theorem Ordered.write {first : UInt64} {s : State} (before : Ordered first s) (i : ℕ)
    {event : Exchange} {ts : UInt64} {task : Task} (grows : Grows ⟨event, s.shared.state, ts⟩)
    (carries : task.Carries (s.shared.write event ts).writes i) :
    Ordered first ⟨s.shared.write event ts, Function.update s.calls i task⟩ := by
  refine ⟨before.linked.concat event ts, ?_, ?_⟩
  · intro w listed
    rcases List.mem_append.mp listed with old | new
    · exact before.grows w old
    · rw [List.mem_singleton.mp new]
      exact grows
  · refine (Function.forall_update_iff _ (fun j (t : Task) => t.Carries _ j)).mpr ⟨carries, ?_⟩
    intro j _
    exact (before.carries j).mono

theorem Ordered.keep {first wall : UInt64} {s : State} (before : Ordered first s) (i : ℕ)
    {task : Task} (carries : task.Carries s.shared.writes i) :
    Ordered first ⟨{ s.shared with lastWall := wall }, Function.update s.calls i task⟩ :=
  ⟨before.linked, before.grows, (Function.forall_update_iff _ (fun j (t : Task) => t.Carries _ j)).mpr
    ⟨carries, fun j _ => before.carries j⟩⟩

theorem step_ordered {first : UInt64} {s t : State} {label : Label} (before : Ordered first s)
    (below : WallsBelow s label) (taken : step s label = some t) :
    Ordered first t ∧ s.shared.state.toNat ≤ t.shared.state.toNat := by
  obtain ⟨i, task, calls, move⟩ := step_move taken
  have carried := before.carries i
  obtain ⟨shared, calls'⟩ := t
  obtain rfl : calls' = Function.update s.calls i task := calls
  generalize s.calls i = was at carried move
  cases move with
  | enter call =>
    refine ⟨before.keep i ?_, Nat.le_refl _⟩
    cases call with
    | now => trivial
    | observe remote => exact below.2
  | loaded o => exact ⟨before.keep i trivial, Nat.le_refl _⟩
  | wallRead o old => exact ⟨before.keep i below.2, Nat.le_refl _⟩
  | lost o old wall => exact ⟨before.keep i trivial, Nat.le_refl _⟩
  | refused o remote e => exact ⟨before.keep i trivial, Nat.le_refl _⟩
  | passed o remote checked => exact ⟨before.keep i ⟨carried, below.2⟩, Nat.le_refl _⟩
  | reloaded o remote wall => exact ⟨before.keep i carried, Nat.le_refl _⟩
  | again o remote wall old => exact ⟨before.keep i carried, Nat.le_refl _⟩
  | stored o wall =>
    have grows : s.shared.state.toNat < (nowTs s.shared.state wall).toNat := lt_nowTs below.1 carried
    refine ⟨before.write i grows ⟨_, List.mem_append_right _ List.mem_cons_self, rfl, rfl⟩, ?_⟩
    exact Nat.le_of_lt grows
  | adopted o remote wall =>
    have grows := le_observeTs below.1 carried.2 carried.1
    exact ⟨before.write i grows ⟨_, List.mem_append_right _ List.mem_cons_self, rfl⟩, grows.1⟩

theorem start_ordered (first lastWall : UInt64) : Ordered first (start first lastWall) :=
  ⟨rfl, fun _ listed => absurd listed List.not_mem_nil, fun _ => trivial⟩

theorem reach_ordered {first : UInt64} {s t : State} (before : Ordered first s)
    (reach : Reach step WallsBelow s t) :
    Ordered first t ∧ s.shared.state.toNat ≤ t.shared.state.toNat := by
  let inv (u : State) : Prop := Ordered first u ∧ s.shared.state.toNat ≤ u.shared.state.toNat
  have kept : inv t := by
    refine reach.invariant ⟨before, Nat.le_refl _⟩ ?_
    rintro u label v ⟨ordered, above⟩ below taken
    have after := step_ordered ordered below taken
    exact ⟨after.1, above.trans after.2⟩
  exact kept

/-- What an exchange of `now` returns exceeds every timestamp returned or
accepted by an earlier exchange. -/
def Exceeds (earlier later : Write Exchange UInt64) : Prop :=
  ∀ i, later.event = .now i →
    match earlier.event with
    | .now _ => earlier.after < later.after
    | .observe _ remote => remote < later.after

theorem Ordered.exceeds {first : UInt64} {s : State} (ordered : Ordered first s) :
    s.shared.writes.Pairwise Exceeds := by
  have apart : s.shared.writes.Pairwise fun a b => a.after.toNat ≤ b.before.toNat :=
    ordered.linked.pairwise fun w listed => (ordered.grows w listed).le
  refine apart.imp_of_mem ?_
  rintro ⟨event, before, after⟩ ⟨event', before', after'⟩ listed listed' onward i rfl
  -- The later exchange starts at or above what the earlier one stored, and `now` adds to it.
  have later : before'.toNat < after'.toNat := ordered.grows _ listed'
  have onward : after.toNat ≤ before'.toNat := onward
  cases event with
  | now j => exact UInt64.lt_iff_toNat_lt.mpr (Nat.lt_of_le_of_lt onward later)
  | observe j remote =>
    have covered : remote.toNat ≤ after.toNat := (ordered.grows _ listed).2
    exact UInt64.lt_iff_toNat_lt.mpr (Nat.lt_of_le_of_lt (covered.trans onward) later)

theorem Ordered.distinct {first : UInt64} {s : State} (ordered : Ordered first s) {i j : ℕ}
    (apart : i ≠ j) {wall wall' ts ts' : UInt64} (left : s.calls i = .returned wall ts)
    (right : s.calls j = .returned wall' ts') : ts ≠ ts' := by
  have carriesLeft := ordered.carries i
  have carriesRight := ordered.carries j
  rw [left] at carriesLeft
  rw [right] at carriesRight
  obtain ⟨v, listed, event, rfl⟩ := carriesLeft
  obtain ⟨w, listed', event', rfl⟩ := carriesRight
  have differ : v ≠ w := by
    rintro rfl
    exact apart (Exchange.now.inj (event.symm.trans event'))
  let Apart (a b : Write Exchange UInt64) : Prop :=
    ∀ i j, a.event = .now i → b.event = .now j → a.after ≠ b.after
  have _ : Std.Symm Apart := ⟨fun a b unlike i j isA isB same => unlike j i isB isA same.symm⟩
  have unlike : s.shared.writes.Pairwise Apart := by
    refine ordered.exceeds.imp ?_
    rintro ⟨_, before, after⟩ ⟨_, before', after'⟩ exceeds i j rfl rfl same
    have above : after < after' := exceeds j rfl
    exact UInt64.ne_of_lt above same
  exact unlike.forall listed listed' differ i j event event'

/-- However loads and exchanges of any number of calls interleave, whatever the
wall clock reads: the word never decreases, the timestamps of `now` are distinct
and increase in the order of their exchanges, and one that follows an accepted
remote timestamp exceeds it. -/
theorem timestamps_increase {first lastWall : UInt64} {t : State}
    (reach : Reach step WallsBelow (start first lastWall) t) :
    (∀ u, Reach step WallsBelow t u → t.shared.state ≤ u.shared.state) ∧
      t.shared.writes.Pairwise Exceeds ∧
      (∀ i wall ts, t.calls i = .returned wall ts →
        ∃ w ∈ t.shared.writes, w.event = .now i ∧ w.after = ts) ∧
      (∀ i remote, t.calls i = .accepted remote →
        ∃ w ∈ t.shared.writes, w.event = .observe i remote) ∧
      ∀ i j wall wall' ts ts', i ≠ j → t.calls i = .returned wall ts →
        t.calls j = .returned wall' ts' → ts ≠ ts' := by
  have ordered : Ordered first t := (reach_ordered (start_ordered first lastWall) reach).1
  refine ⟨?_, ordered.exceeds, ?_, ?_, ?_⟩
  · intro u onward
    exact UInt64.le_iff_toNat_le.mpr (reach_ordered ordered onward).2
  · intro i wall ts returned
    have carries := ordered.carries i
    rwa [returned] at carries
  · intro i remote accepted
    have carries := ordered.carries i
    rwa [accepted] at carries
  · intro i j wall wall' ts ts' apart left right
    exact ordered.distinct apart left right

theorem timestamps_increase_after_lost_exchange :
    ∃ t, Reach step WallsBelow (start (pack 1000 0) 1000) t ∧
      t.calls 0 = .accepted (pack 1400 7) ∧ t.calls 1 = .returned 900 (pack 1400 9) ∧
      t.shared.writes.Pairwise Exceeds := by
  have run : ∃ t, Reach step WallsBelow (start (pack 1000 0) 1000) t ∧
      t.calls 0 = .accepted (pack 1400 7) ∧ t.calls 1 = .returned 900 (pack 1400 9) :=
    exists_reach _ _
      [.invoke 1 .now, .advance 1 ⟨0, false⟩, .invoke 0 (.observe (pack 1400 7)),
        .advance 0 ⟨1000, false⟩, .advance 0 ⟨0, false⟩, .advance 0 ⟨0, false⟩,
        .advance 1 ⟨900, false⟩, .advance 1 ⟨0, false⟩, .advance 1 ⟨0, false⟩,
        .advance 1 ⟨900, false⟩, .advance 1 ⟨0, false⟩] (by decide)
  obtain ⟨t, reach, accepted, returned⟩ := run
  exact ⟨t, reach, accepted, returned, (timestamps_increase reach).2.1⟩

end Order

end Craftec.Types.Hlc
