/- GID: Craftec/Library/Retain
   generality: G
   digest: A finite map whose values are changed in place or dropped, one by one. -/

import Mathlib.Data.Finmap

set_option autoImplicit false
set_option relaxedAutoImplicit false

namespace Craftec.Library.Retain

variable {α β : Type*}

def changed (change : α → β → Option β) (e : Sigma fun _ : α => β) : Option (Sigma fun _ : α => β) :=
  (change e.1 e.2).map (Sigma.mk e.1)

theorem keys_filterMap_sublist (change : α → β → Option β) (l : List (Sigma fun _ : α => β)) :
    (l.filterMap (changed change)).keys.Sublist l.keys := by
  induction l with
  | nil => exact List.Sublist.refl _
  | cons e rest ih =>
    unfold changed at ih
    simp only [List.filterMap_cons, changed]
    cases change e.1 e.2 with
    | none => exact ih.cons _
    | some b => exact ih.cons_cons _

theorem nodupKeys_filterMap (change : α → β → Option β) (entries : Multiset (Sigma fun _ : α => β))
    (once : entries.NodupKeys) : (entries.filterMap (changed change)).NodupKeys := by
  induction entries using Quot.inductionOn with
  | h l => exact List.Nodup.sublist (keys_filterMap_sublist change l) once

/-- Visit every entry: `change` gives its new value, or none to drop it. -/
def retain (change : α → β → Option β) (m : Finmap fun _ : α => β) : Finmap fun _ : α => β :=
  ⟨m.entries.filterMap (changed change), nodupKeys_filterMap change m.entries m.nodupKeys⟩

variable [DecidableEq α]

theorem lookup_retain (change : α → β → Option β) (m : Finmap fun _ : α => β) (a : α) :
    (retain change m).lookup a = (m.lookup a).bind (change a) := by
  apply Option.ext
  intro b
  rw [Finmap.lookup_eq_some_iff, Option.bind_eq_some_iff]
  change _ ∈ m.entries.filterMap (changed change) ↔ _
  rw [Multiset.mem_filterMap]
  constructor
  · rintro ⟨⟨a', b'⟩, member, kept⟩
    obtain ⟨c, found, same⟩ := Option.map_eq_some_iff.mp kept
    cases same
    exact ⟨b', Finmap.lookup_eq_some_iff.mpr member, found⟩
  · rintro ⟨b', found, kept⟩
    refine ⟨⟨a, b'⟩, Finmap.lookup_eq_some_iff.mp found, ?_⟩
    exact Option.map_eq_some_iff.mpr ⟨b, kept, rfl⟩

end Craftec.Library.Retain
