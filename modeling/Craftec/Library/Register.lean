/- GID: Craftec/Library/Register
   generality: G
   digest: A register that takes or ignores each value offered to it, and what every order of offers agrees on. -/

import Mathlib.Data.List.Induction

set_option autoImplicit false
set_option relaxedAutoImplicit false

namespace Craftec.Library.Register

variable {U S : Type*} (value : U → S) (replaces : U → S → Prop) [∀ u s, Decidable (replaces u s)]

/-- An empty register takes any offer; a full one takes those that replace its value. -/
def offer (held : Option S) (u : U) : Option S :=
  match held with
  | none => some (value u)
  | some s => if replaces u s then some (value u) else some s

def settle (offers : List U) : Option S := offers.foldl (offer value replaces) none

theorem offer_cases (held : Option S) (u : U) :
    offer value replaces held u = some (value u) ∨ offer value replaces held u = held := by
  cases held with
  | none => exact .inl rfl
  | some s =>
    by_cases taken : replaces u s
    · exact .inl (if_pos taken)
    · exact .inr (if_neg taken)

theorem settle_concat (offers : List U) (u : U) :
    settle value replaces (offers ++ [u]) = offer value replaces (settle value replaces offers) u := by
  simp only [settle, List.foldl_append, List.foldl_cons, List.foldl_nil]

variable {value replaces}

theorem settle_offered {offers : List U} {s : S} (held : settle value replaces offers = some s) :
    ∃ u ∈ offers, value u = s := by
  induction offers using List.reverseRecOn with
  | nil => cases held
  | append_singleton front u ih =>
    rw [settle_concat] at held
    rcases offer_cases value replaces (settle value replaces front) u with taken | kept
    · exact ⟨u, List.mem_append_right _ List.mem_cons_self, Option.some_inj.mp (taken.symm.trans held)⟩
    · obtain ⟨v, listed, same⟩ := ih (kept.symm.trans held)
      exact ⟨v, List.mem_append_left _ listed, same⟩

/-- An offer that is taken over every other one, and over which none is taken, decides the
register in whatever order the offers come. -/
theorem settle_top {offers : List U} {top : U} (listed : top ∈ offers)
    (takes : ∀ v ∈ offers, replaces top (value v) ∨ value v = value top)
    (keeps : ∀ v ∈ offers, replaces v (value top) → value v = value top) :
    settle value replaces offers = some (value top) := by
  obtain ⟨front, back, rfl⟩ := List.append_of_mem listed
  have reached : settle value replaces (front ++ [top]) = some (value top) := by
    rw [settle_concat value replaces]
    cases held : settle value replaces front with
    | none => rfl
    | some s =>
      obtain ⟨v, inFront, rfl⟩ := settle_offered held
      rcases takes v (List.mem_append_left _ inFront) with taken | same
      · exact if_pos taken
      · rw [same]
        exact (offer_cases value replaces _ top).elim id id
  have stays : ∀ rest : List U, (∀ v ∈ rest, replaces v (value top) → value v = value top) →
      rest.foldl (offer value replaces) (some (value top)) = some (value top) := by
    intro rest keeps
    induction rest with
    | nil => rfl
    | cons v rest ih =>
      have here : offer value replaces (some (value top)) v = some (value top) := by
        by_cases taken : replaces v (value top)
        · exact (if_pos taken).trans (congrArg some (keeps v List.mem_cons_self taken))
        · exact if_neg taken
      rw [List.foldl_cons, here]
      exact ih fun w inRest => keeps w (List.mem_cons_of_mem v inRest)
  have split : settle value replaces (front ++ top :: back) =
      back.foldl (offer value replaces) (settle value replaces (front ++ [top])) := by
    simp only [settle, List.foldl_append, List.foldl_cons, List.foldl_nil]
  rw [split, reached]
  exact stays back fun v inBack => keeps v (List.mem_append_right _ (List.mem_cons_of_mem top inBack))

end Craftec.Library.Register
