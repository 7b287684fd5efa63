/- GID: Craftec/Library/Run
   generality: G
   digest: Runs of a partial step function under a condition on the steps, and calls of which one moves. -/

import Mathlib.Data.List.Basic
import Mathlib.Logic.Relation
import Mathlib.Logic.Function.Basic

set_option autoImplicit false
set_option relaxedAutoImplicit false

namespace Craftec.Library.Run

variable {σ α : Type*}

/-- `t` is reached from `s` by enabled steps, each of which meets `guard` in the
state it is taken from. -/
def Reach (step : σ → α → Option σ) (guard : σ → α → Prop) : σ → σ → Prop :=
  Relation.ReflTransGen fun s t => ∃ a, guard s a ∧ step s a = some t

/-- The same with the labels written down: a schedule from `s` to its last state. -/
inductive Path (step : σ → α → Option σ) (guard : σ → α → Prop) : σ → List α → σ → Prop where
  | nil (s : σ) : Path step guard s [] s
  | cons {s t u : σ} {a : α} {rest : List α} (allowed : guard s a) (taken : step s a = some t)
      (later : Path step guard t rest u) : Path step guard s (a :: rest) u

def anyStep (_ : σ) (_ : α) : Prop := True

variable {step : σ → α → Option σ} {guard : σ → α → Prop}

/-- What holds at the start and is kept by every guarded step holds of every state reached. -/
theorem Reach.invariant {inv : σ → Prop} {s t : σ} (reach : Reach step guard s t)
    (start : inv s)
    (keep : ∀ u a v, inv u → guard u a → step u a = some v → inv v) : inv t := by
  induction reach with
  | refl => exact start
  | tail _ last ih =>
    obtain ⟨a, allowed, taken⟩ := last
    exact keep _ a _ ih allowed taken

theorem Reach.exists_lost {P : σ → Prop} {s t : σ} (reach : Reach step guard s t) (start : P s)
    (lost : ¬ P t) : ∃ u a v, Reach step guard s u ∧ guard u a ∧ step u a = some v ∧
      Reach step guard v t ∧ P u ∧ ¬ P v := by
  induction reach with
  | refl => exact absurd start lost
  | @tail v t before last ih =>
    obtain ⟨a, allowed, taken⟩ := last
    by_cases still : P v
    · exact ⟨v, a, t, before, allowed, taken, .refl, still, lost⟩
    · obtain ⟨u, b, v', first, allowed', taken', later, holds, gone⟩ := ih still
      exact ⟨u, b, v', first, allowed', taken', later.tail ⟨a, allowed, taken⟩, holds, gone⟩

/-- Every run of guarded steps from `s` is finite. -/
def Halts (step : σ → α → Option σ) (guard : σ → α → Prop) : σ → Prop :=
  Acc fun t s => ∃ a, guard s a ∧ step s a = some t

/-- Runs are finite where every guarded step keeps an invariant and lowers a measure. -/
theorem halts_of_measure {β : Type*} {less : β → β → Prop} (founded : WellFounded less)
    {inv : σ → Prop} (measure : σ → β)
    (lower : ∀ s a t, inv s → guard s a → step s a = some t → inv t ∧ less (measure t) (measure s))
    {s : σ} (start : inv s) : Halts step guard s := by
  have all : ∀ v s, measure s = v → inv s → Halts step guard s := by
    intro v
    induction v using founded.induction with
    | _ v ih =>
      intro s value holds
      refine Acc.intro s ?_
      rintro t ⟨a, allowed, taken⟩
      obtain ⟨kept, smaller⟩ := lower s a t holds allowed taken
      exact ih (measure t) (value ▸ smaller) t rfl kept
  exact all _ s rfl start

theorem Reach.mono {weaker : σ → α → Prop} {s t : σ} (reach : Reach step guard s t)
    (weaken : ∀ u a, guard u a → weaker u a) : Reach step weaker s t := by
  induction reach with
  | refl => exact Relation.ReflTransGen.refl
  | tail _ last ih =>
    obtain ⟨a, allowed, taken⟩ := last
    exact ih.tail ⟨a, weaken _ a allowed, taken⟩

theorem reach_step {s t : σ} {a : α} (allowed : guard s a) (taken : step s a = some t) :
    Reach step guard s t := Relation.ReflTransGen.single ⟨a, allowed, taken⟩

theorem Path.reach {s t : σ} {labels : List α} (path : Path step guard s labels t) :
    Reach step guard s t := by
  induction path with
  | nil s => exact Relation.ReflTransGen.refl
  | cons allowed taken _ ih => exact Relation.ReflTransGen.head ⟨_, allowed, taken⟩ ih

theorem Path.append {s t u : σ} {first second : List α} (one : Path step guard s first t)
    (two : Path step guard t second u) : Path step guard s (first ++ second) u := by
  induction one with
  | nil s => exact two
  | cons allowed taken _ ih => exact .cons allowed taken (ih two)

theorem Path.split {other : σ → α → Prop} {s t u : σ} {first second : List α}
    (path : Path step guard s (first ++ second) t) (along : Path step other s first u) :
    Path step guard s first u ∧ Path step guard u second t := by
  induction along with
  | nil s => exact ⟨.nil s, path⟩
  | cons _ taken _ ih =>
    cases path with
    | cons allowed taken' later =>
      rw [taken] at taken'
      cases taken'
      obtain ⟨front, back⟩ := ih later
      exact ⟨.cons allowed taken front, back⟩

theorem Path.mono {weaker : σ → α → Prop} {s t : σ} {labels : List α}
    (path : Path step guard s labels t) (weaken : ∀ u a, guard u a → weaker u a) :
    Path step weaker s labels t := by
  induction path with
  | nil s => exact .nil s
  | cons allowed taken _ ih => exact .cons (weaken _ _ allowed) taken ih

theorem Path.mono_of_invariant {inv : σ → Prop} {weaker : σ → α → Prop} {s t : σ} {labels : List α}
    (path : Path step guard s labels t) (start : inv s)
    (weaken : ∀ u a, inv u → guard u a → weaker u a)
    (keep : ∀ u a v, inv u → guard u a → step u a = some v → inv v) :
    Path step weaker s labels t := by
  induction path with
  | nil s => exact .nil s
  | cons allowed taken _ ih =>
    exact .cons (weaken _ _ start allowed) taken (ih (keep _ _ _ start allowed taken))

/-- When steps that meet `kept` keep an invariant from which a property follows, and any other
step loses the property, it holds of every state on a path exactly when every step of the path
meets `kept`. -/
theorem Path.forall_iff_of_invariant {inv P : σ → Prop} {kept : σ → α → Prop}
    (holds : ∀ s, inv s → P s) (keeps : ∀ s a t, inv s → kept s a → step s a = some t → inv t)
    (breaks : ∀ s a t, inv s → step s a = some t → P t → kept s a) {s t : σ} {labels : List α}
    (path : Path step anyStep s labels t) (start : inv s) :
    (∀ front u, front <+: labels → Path step anyStep s front u → P u) ↔ Path step kept s labels t := by
  induction path with
  | nil s =>
    constructor
    · intro _
      exact .nil s
    · rintro - front u first along
      rw [List.prefix_nil.mp first] at along
      cases along
      exact holds _ start
  | @cons s m t a rest allowed taken later ih =>
    constructor
    · intro every
      have next : P m := every [a] m (List.prefix_append [a] rest) (.cons allowed taken (.nil m))
      have meets := breaks s a m start taken next
      refine .cons meets taken ((ih (keeps s a m start meets taken)).mp fun front u first along => ?_)
      exact every (a :: front) u (List.cons_prefix_cons.mpr ⟨rfl, first⟩) (.cons allowed taken along)
    · rintro (_ | ⟨meets, taken', later'⟩) front u first along
      rw [taken] at taken'
      cases taken'
      have next : inv m := keeps s a m start meets taken
      cases along with
      | nil => exact holds _ start
      | cons _ taken'' along =>
        obtain ⟨rfl, onward⟩ := List.cons_prefix_cons.mp first
        rw [taken] at taken''
        cases taken''
        exact (ih next).mpr later' _ u onward along

theorem Path.forall_iff {P : σ → Prop} {kept : σ → α → Prop}
    (exact_step : ∀ s a t, P s → step s a = some t → (P t ↔ kept s a)) {s t : σ} {labels : List α}
    (path : Path step anyStep s labels t) (start : P s) :
    (∀ front u, front <+: labels → Path step anyStep s front u → P u) ↔ Path step kept s labels t :=
  path.forall_iff_of_invariant (fun _ => id)
    (fun s a t before meets taken => (exact_step s a t before taken).mpr meets)
    (fun s a t before taken after => (exact_step s a t before taken).mp after) start

section Exec

variable [∀ s a, Decidable (guard s a)]

instance (s : σ) (a : α) : Decidable (anyStep s a) := isTrue trivial

def exec (step : σ → α → Option σ) (guard : σ → α → Prop) [∀ s a, Decidable (guard s a)] :
    σ → List α → Option σ
  | s, [] => some s
  | s, a :: rest => if guard s a then (step s a).bind fun t => exec step guard t rest else none

theorem path_of_exec {s t : σ} {labels : List α} (runs : exec step guard s labels = some t) :
    Path step guard s labels t := by
  induction labels generalizing s with
  | nil =>
    cases runs
    exact .nil t
  | cons a rest ih =>
    rw [exec] at runs
    split at runs
    · rename_i allowed
      obtain ⟨u, taken, later⟩ := Option.bind_eq_some_iff.mp runs
      exact .cons allowed taken (ih later)
    · cases runs

theorem reach_of_exec {s t : σ} {labels : List α} (runs : exec step guard s labels = some t) :
    Reach step guard s t := (path_of_exec runs).reach

theorem exists_path (P : σ → Prop) [DecidablePred P] (s : σ) (labels : List α)
    (runs : (exec step guard s labels).any (fun t => decide (P t)) = true) :
    ∃ t, Path step guard s labels t ∧ P t := by
  obtain ⟨t, ended, holds⟩ := (Option.any_eq_true _ _).mp runs
  exact ⟨t, path_of_exec ended, of_decide_eq_true holds⟩

theorem exists_reach (P : σ → Prop) [DecidablePred P] (s : σ) (labels : List α)
    (runs : (exec step guard s labels).any (fun t => decide (P t)) = true) :
    ∃ t, Reach step guard s t ∧ P t := by
  obtain ⟨t, path, holds⟩ := exists_path P s labels runs
  exact ⟨t, path.reach, holds⟩

theorem exists_reach_reach (P Q : σ → Prop) [DecidablePred P] [DecidablePred Q] (s : σ)
    (first second : List α)
    (runs : (exec step guard s first).any (fun t => decide (P t) &&
      (exec step guard t second).any fun u => decide (Q u)) = true) :
    ∃ t u, Reach step guard s t ∧ Reach step guard t u ∧ P t ∧ Q u := by
  obtain ⟨t, ended, both⟩ := (Option.any_eq_true _ _).mp runs
  obtain ⟨holds, later⟩ := Bool.and_eq_true_iff.mp both
  obtain ⟨u, reach, holdsLater⟩ := exists_reach Q t second later
  exact ⟨t, u, reach_of_exec ended, reach, of_decide_eq_true holds, holdsLater⟩

end Exec

section Calls

variable {ι τ : Type*} [DecidableEq ι] {calls : ι → τ} {i : ι} {t : τ}

theorem of_update {P : τ → Prop} (old : P t → P (calls i)) (j : ι)
    (now : P (Function.update calls i t j)) : P (calls j) := by
  rcases eq_or_ne j i with rfl | other
  · rw [Function.update_self] at now
    exact old now
  · rwa [Function.update_of_ne other] at now

theorem pair_update {R : ι → ι → τ → τ → Prop} (before : ∀ a b, R a b (calls a) (calls b))
    (self : R i i t t) (left : ∀ j, j ≠ i → R i j t (calls j))
    (right : ∀ j, j ≠ i → R j i (calls j) t) (a b : ι) :
    R a b (Function.update calls i t a) (Function.update calls i t b) := by
  rcases eq_or_ne a i with rfl | otherA
  · rcases eq_or_ne b a with rfl | otherB
    · rwa [Function.update_self]
    · rw [Function.update_self, Function.update_of_ne otherB]
      exact left b otherB
  · rcases eq_or_ne b i with rfl | otherB
    · rw [Function.update_self, Function.update_of_ne otherA]
      exact right a otherA
    · rw [Function.update_of_ne otherA, Function.update_of_ne otherB]
      exact before a b

theorem single_update {P : τ → Prop} (single : ∀ a b, P (calls a) → P (calls b) → a = b)
    (alone : P t → ∀ j, j ≠ i → ¬ P (calls j)) (a b : ι) :
    P (Function.update calls i t a) → P (Function.update calls i t b) → a = b :=
  pair_update (R := fun a b x y => P x → P y → a = b) single (fun _ _ => rfl)
    (fun j other inside also => (alone inside j other also).elim)
    (fun j other also inside => (alone inside j other also).elim) a b

end Calls

section Positions

/-! Calls that are kept in a list, of which the one at place `i` moves to `next`. -/

variable {τ : Type*} {l : List τ} {i : Nat} {a b next : τ}

theorem mem_set_cases (listed : b ∈ l.set i next) : b = next ∨ ∃ j, i ≠ j ∧ l[j]? = some b := by
  obtain ⟨j, there⟩ := List.mem_iff_getElem?.mp listed
  rw [List.getElem?_set] at there
  split at there
  · split at there
    · exact .inl (Option.some.inj there).symm
    · cases there
  · rename_i other
    exact .inr ⟨j, other, there⟩

theorem mem_set_of_ne (there : l[i]? = some a) (listed : b ∈ l) (other : b ≠ a) : b ∈ l.set i next := by
  obtain ⟨j, place⟩ := List.mem_iff_getElem?.mp listed
  refine List.mem_iff_getElem?.mpr ⟨j, ?_⟩
  rw [List.getElem?_set, if_neg]
  · exact place
  · rintro rfl
    rw [there] at place
    exact other (Option.some.inj place).symm

theorem mem_set_next (there : l[i]? = some a) : next ∈ l.set i next :=
  List.mem_set (List.getElem?_eq_some_iff.mp there).1 next

theorem exists_mem_set {P : τ → Prop} (there : l[i]? = some a) (keeps : P a → P next)
    (before : ∃ b ∈ l, P b) : ∃ b ∈ l.set i next, P b := by
  obtain ⟨b, listed, holds⟩ := before
  obtain ⟨j, place⟩ := List.mem_iff_getElem?.mp listed
  by_cases here : i = j
  · subst here
    rw [there] at place
    cases place
    exact ⟨next, mem_set_next there, keeps holds⟩
  · refine ⟨b, List.mem_iff_getElem?.mpr ⟨j, ?_⟩, holds⟩
    rw [List.getElem?_set_ne here]
    exact place

end Positions

end Craftec.Library.Run
