/- GID: Craftec/Library/Transcript
   generality: G
   digest: Machines that reply to their steps, and one that replies as another does. -/

import Mathlib.Data.List.Basic
import Mathlib.Data.Option.Basic

set_option autoImplicit false
set_option relaxedAutoImplicit false

namespace Craftec.Library.Transcript

variable {σ τ α ω : Type*}

/-- The state after a list of steps, with the replies. -/
def run (step : σ → α → Option (σ × ω)) : σ → List α → Option (σ × List ω)
  | s, [] => some (s, [])
  | s, a :: rest => (step s a).bind fun one => (run step one.1 rest).map fun more =>
    (more.1, one.2 :: more.2)

/-- Every step of the list meets the guard in the state it is taken from. -/
def Along (step : σ → α → Option (σ × ω)) (guard : σ → α → Prop) : σ → List α → Prop
  | _, [] => True
  | s, a :: rest => guard s a ∧ ∀ one, step s a = some one → Along step guard one.1 rest

/-- Both machines have stopped, or both go on from related states with the same reply. -/
def Alike (R : σ → τ → Prop) (x : Option (σ × ω)) (y : Option (τ × ω)) : Prop :=
  Option.Rel (fun one other => R one.1 other.1 ∧ one.2 = other.2) x y

theorem alike_some {R : σ → τ → Prop} {s : σ} {t : τ} (o : ω) (related : R s t) :
    Alike R (some (s, o)) (some (t, o)) := .some ⟨related, rfl⟩

theorem Alike.of_some {R : σ → τ → Prop} {x : σ × ω} {y : Option (τ × ω)} (alike : Alike R (some x) y) :
    ∃ t, y = some (t, x.2) ∧ R x.1 t := by
  cases alike with
  | @some _ other both =>
    refine ⟨other.1, ?_, both.1⟩
    rw [both.2]

theorem Alike.of_some_right {R : σ → τ → Prop} {x : Option (σ × ω)} {y : τ × ω}
    (alike : Alike R x (some y)) :
    ∃ s, x = some (s, y.2) ∧ R s y.1 := by
  cases alike with
  | @some one _ both =>
    refine ⟨one.1, ?_, both.1⟩
    rw [← both.2]

theorem Alike.of_none {R : σ → τ → Prop} {y : Option (τ × ω)} (alike : Alike R none y) : y = none := by
  cases alike
  rfl

variable {step : σ → α → Option (σ × ω)} {step' : τ → α → Option (τ × ω)} {guard : σ → α → Prop}
  {R : σ → τ → Prop}

/-- Machines whose guarded steps are alike have alike runs. -/
theorem run_alike (alike : ∀ s t a, R s t → guard s a → Alike R (step s a) (step' t a)) {s : σ} {t : τ}
    (start : R s t) {labels : List α} (along : Along step guard s labels) :
    Alike R (run step s labels) (run step' t labels) := by
  induction labels generalizing s t with
  | nil => exact alike_some [] start
  | cons a rest ih =>
    have first := alike s t a start along.1
    rw [run, run]
    cases taken : step s a with
    | none =>
      rw [taken] at first
      rw [first.of_none]
      exact .none
    | some one =>
      rw [taken] at first
      obtain ⟨t', taken', related⟩ := first.of_some
      rw [taken', Option.bind_some, Option.bind_some]
      have later := ih related (along.2 one taken)
      cases ended : run step one.1 rest with
      | none =>
        rw [ended] at later
        rw [later.of_none]
        exact .none
      | some more =>
        rw [ended] at later
        obtain ⟨t'', ended', related'⟩ := later.of_some
        rw [ended']
        exact alike_some _ related'

theorem run_invariant {inv : σ → Prop}
    (keep : ∀ s a one, inv s → guard s a → step s a = some one → inv one.1) {s : σ} (start : inv s)
    {labels : List α} (along : Along step guard s labels) {last : σ × List ω}
    (ran : run step s labels = some last) : inv last.1 := by
  induction labels generalizing s last with
  | nil =>
    cases ran
    exact start
  | cons a rest ih =>
    obtain ⟨one, taken, ended⟩ := Option.bind_eq_some_iff.mp ran
    obtain ⟨more, later, rfl⟩ := Option.map_eq_some_iff.mp ended
    have kept : inv more.1 := ih (keep s a one start along.1 taken) (along.2 one taken) later
    exact kept

end Craftec.Library.Transcript
