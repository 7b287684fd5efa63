/- GID: Craftec/Library/ShardedTable
   generality: G
   digest: A concurrent map of lists, locked shard by shard, and a pass that prunes all of it. -/

import Mathlib.Data.Finmap
import Craftec.Library.Retain

set_option autoImplicit false
set_option relaxedAutoImplicit false

namespace Craftec.Library.ShardedTable

open Craftec.Library.Retain (retain lookup_retain)

variable {α ρ : Type*} [DecidableEq α]

structure Sharding (α : Type*) where
  count : ℕ
  shard : α → ℕ
  below : ∀ a, shard a < count

abbrev Table (α ρ : Type*) := Finmap fun _ : α => List ρ

/-- The rows under a key; a key that is absent has none. -/
def rows (t : Table α ρ) (a : α) : List ρ := (t.lookup a).getD []

def Hollow (t : Table α ρ) (a : α) : Prop := t.lookup a = some []

def filterAt (keep : ρ → Bool) (a : α) (t : Table α ρ) : Table α ρ :=
  match t.lookup a with
  | some l => t.insert a (l.filter keep)
  | none => t

def cleanAt (a : α) (t : Table α ρ) : Table α ρ :=
  match t.lookup a with
  | some [] => t.erase a
  | _ => t

def sweepRows (keep : ρ → Bool) (l : List ρ) : Option (List ρ) :=
  match l.filter keep with
  | [] => none
  | kept => some kept

/-- Keep some of the rows under the keys of one shard, and drop the keys left without any. -/
def sweepShard (S : Sharding α) (keep : ρ → Bool) (j : ℕ) (t : Table α ρ) : Table α ρ :=
  retain (fun a l => if S.shard a = j then sweepRows keep l else some l) t

section Edits

variable {t : Table α ρ} {keep : ρ → Bool} {a b : α}

theorem lookup_filterAt : (filterAt keep a t).lookup b =
    if b = a then (t.lookup b).map (List.filter keep) else t.lookup b := by
  unfold filterAt
  split
  · rename_i l found
    by_cases here : b = a
    · subst here
      rw [if_pos rfl, Finmap.lookup_insert, found]
      rfl
    · rw [if_neg here, Finmap.lookup_insert_of_ne _ here]
  · rename_i missing
    split
    · rename_i here
      rw [here, missing]
      rfl
    · rfl

theorem rows_filterAt : rows (filterAt keep a t) b =
    if b = a then (rows t b).filter keep else rows t b := by
  unfold rows
  rw [lookup_filterAt]
  split
  · cases t.lookup b <;> rfl
  · rfl

theorem hollow_filterAt (hollow : Hollow (filterAt keep a t) b) : b = a ∨ Hollow t b := by
  unfold Hollow at hollow
  rw [lookup_filterAt] at hollow
  split at hollow
  · rename_i here
    exact .inl here
  · exact .inr hollow

theorem lookup_cleanAt_of_ne (other : b ≠ a) : (cleanAt a t).lookup b = t.lookup b := by
  unfold cleanAt
  split
  · exact Finmap.lookup_erase_ne other
  · rfl

theorem rows_cleanAt : rows (cleanAt a t) b = rows t b := by
  by_cases here : b = a
  · subst here
    unfold rows cleanAt
    split
    · rename_i empty
      rw [Finmap.lookup_erase, empty]
      rfl
    · rfl
  · unfold rows
    rw [lookup_cleanAt_of_ne here]

theorem hollow_cleanAt (hollow : Hollow (cleanAt a t) b) : b ≠ a ∧ Hollow t b := by
  by_cases here : b = a
  · subst here
    unfold Hollow cleanAt at hollow
    split at hollow
    · rw [Finmap.lookup_erase] at hollow
      cases hollow
    · rename_i filled
      exact absurd hollow filled
  · unfold Hollow at hollow
    rw [lookup_cleanAt_of_ne here] at hollow
    exact ⟨here, hollow⟩

variable {S : Sharding α} {j : ℕ}

theorem rows_sweepShard : rows (sweepShard S keep j t) b =
    if S.shard b = j then (rows t b).filter keep else rows t b := by
  unfold rows sweepShard
  rw [lookup_retain]
  cases t.lookup b with
  | none =>
    split <;> rfl
  | some l =>
    simp only [Option.bind_some, Option.getD_some]
    split
    · unfold sweepRows
      split
      · rename_i none_
        rw [none_]
        rfl
      · rfl
    · rfl

theorem hollow_sweepShard (hollow : Hollow (sweepShard S keep j t) b) :
    S.shard b ≠ j ∧ Hollow t b := by
  unfold Hollow sweepShard at hollow
  rw [lookup_retain] at hollow
  obtain ⟨l, found, left⟩ := Option.bind_eq_some_iff.mp hollow
  split at left
  · unfold sweepRows at left
    split at left
    · cases left
    · rename_i filled
      exact absurd (Option.some.inj left) filled
  · rename_i elsewhere
    cases left
    exact ⟨elsewhere, found⟩

end Edits

/-- A pruning pass: the keys are collected shard by shard, the rows under each of them are
filtered, and the keys without rows are dropped shard by shard. `pruned` counts dropped rows. -/
inductive Pass (α : Type*) where
  | collect (j : ℕ) (keys : List α)
  | visit (keys : List α) (pruned : ℕ)
  | sweep (j : ℕ) (pruned : ℕ)
  | done (pruned : ℕ)
  deriving DecidableEq

/-- The next step of a pass; `found` is the order in which a shard lists its keys. -/
def advance (S : Sharding α) (keep : ρ → Bool) (found : List α) (t : Table α ρ) :
    Pass α → Option (Table α ρ × Pass α)
  | .collect j keys =>
    if j < S.count then
      if found.Nodup ∧ found.toFinset = t.keys.filter fun a => S.shard a = j then
        some (t, .collect (j + 1) (keys ++ found))
      else none
    else some (t, .visit keys 0)
  | .visit [] pruned => some (t, .sweep 0 pruned)
  | .visit (a :: rest) pruned =>
    some (filterAt keep a t,
      .visit rest (pruned + ((rows t a).length - ((rows t a).filter keep).length)))
  | .sweep j pruned =>
    if j < S.count then some (sweepShard S (fun _ => true) j t, .sweep (j + 1) pruned)
    else some (t, .done pruned)
  | .done _ => none

section Passes

variable {S : Sharding α} {keep : ρ → Bool} {found : List α} {t t' : Table α ρ} {p p' : Pass α}

inductive Turn (S : Sharding α) (keep : ρ → Bool) (t : Table α ρ) : Pass α → Table α ρ → Pass α → Prop
  | collect (j : ℕ) (keys found : List α) (listed : ∀ a, a ∈ found ↔ a ∈ t ∧ S.shard a = j) :
    Turn S keep t (.collect j keys) t (.collect (j + 1) (keys ++ found))
  | collected (j : ℕ) (keys : List α) (all : S.count ≤ j) :
    Turn S keep t (.collect j keys) t (.visit keys 0)
  | filter (a : α) (rest : List α) (pruned more : ℕ)
    (dropped : more = (rows t a).length - ((rows t a).filter keep).length) :
    Turn S keep t (.visit (a :: rest) pruned) (filterAt keep a t) (.visit rest (pruned + more))
  | filtered (pruned : ℕ) : Turn S keep t (.visit [] pruned) t (.sweep 0 pruned)
  | sweep (j pruned : ℕ) :
    Turn S keep t (.sweep j pruned) (sweepShard S (fun _ => true) j t) (.sweep (j + 1) pruned)
  | swept (j pruned : ℕ) (all : S.count ≤ j) : Turn S keep t (.sweep j pruned) t (.done pruned)

theorem advance_turn (taken : advance S keep found t p = some (t', p')) : Turn S keep t p t' p' := by
  cases p with
  | collect j keys =>
    simp only [advance] at taken
    split at taken
    · split at taken
      · rename_i listed
        cases taken
        refine .collect j keys found fun a => ?_
        rw [← List.mem_toFinset, listed.2, Finset.mem_filter, Finmap.mem_keys]
      · cases taken
    · rename_i all
      cases taken
      exact .collected j keys (Nat.le_of_not_lt all)
  | visit keys pruned =>
    cases keys with
    | nil =>
      cases taken
      exact .filtered pruned
    | cons a rest =>
      cases taken
      exact .filter a rest pruned _ rfl
  | sweep j pruned =>
    simp only [advance] at taken
    split at taken
    · cases taken
      exact .sweep j pruned
    · rename_i all
      cases taken
      exact .swept j pruned (Nat.le_of_not_lt all)
  | done => cases taken

theorem mem_of_mem_rows {a : α} {r : ρ} (member : r ∈ rows t a) : a ∈ t := by
  rw [← Finmap.lookup_isSome]
  unfold rows at member
  cases found : t.lookup a with
  | none =>
    rw [found] at member
    cases member
  | some l => rfl

theorem Turn.rows_subset (turn : Turn S keep t p t' p') (a : α) :
    rows t' a = rows t a ∨ rows t' a = (rows t a).filter keep := by
  cases turn with
  | collect | collected | filtered | swept => exact .inl rfl
  | filter b rest pruned =>
    rw [rows_filterAt]
    split
    · exact .inr rfl
    · exact .inl rfl
  | sweep j pruned =>
    rw [rows_sweepShard]
    split
    · exact .inl (List.filter_true _)
    · exact .inl rfl

/-- What the pass still has ahead of it, of the rows that are to go. -/
def Covers (S : Sharding α) (stale : ρ → Prop) (t : Table α ρ) : Pass α → Prop
  | .collect j keys => ∀ a r, S.shard a < j → r ∈ rows t a → stale r → a ∈ keys
  | .visit keys _ => ∀ a r, r ∈ rows t a → stale r → a ∈ keys
  | .sweep _ _ | .done _ => ∀ a r, r ∈ rows t a → ¬ stale r

theorem Covers.mono {stale : ρ → Prop} (covers : Covers S stale t p)
    (fresh : ∀ a r, stale r → r ∈ rows t' a → r ∈ rows t a) : Covers S stale t' p := by
  cases p with
  | collect j keys =>
    intro a r early member is
    exact covers a r early (fresh a r is member) is
  | visit keys pruned =>
    intro a r member is
    exact covers a r (fresh a r is member) is
  | sweep | done =>
    intro a r member is
    exact covers a r (fresh a r is member) is

theorem Turn.subset (turn : Turn S keep t p t' p') {a : α} {r : ρ} (member : r ∈ rows t' a) :
    r ∈ rows t a := by
  rcases turn.rows_subset a with same | fewer
  · rwa [same] at member
  · rw [fewer] at member
    exact (List.mem_filter.mp member).1

theorem Covers.turn {stale : ρ → Prop} (covers : Covers S stale t p)
    (drops : ∀ r, stale r → keep r = false) (turn : Turn S keep t p t' p') : Covers S stale t' p' := by
  cases turn with
  | collect j keys found listed =>
    intro a r early member is
    rcases Nat.lt_or_eq_of_le (Nat.le_of_lt_succ early) with before | here
    · exact List.mem_append_left _ (covers a r before member is)
    · exact List.mem_append_right _ ((listed a).mpr ⟨mem_of_mem_rows member, here⟩)
  | collected j keys all =>
    intro a r member is
    exact covers a r (Nat.lt_of_lt_of_le (S.below a) all) member is
  | filter b rest pruned more dropped =>
    intro a r member is
    rw [rows_filterAt] at member
    split at member
    · have kept := (List.mem_filter.mp member).2
      rw [drops r is] at kept
      cases kept
    · rename_i other
      rcases List.mem_cons.mp (covers a r member is) with here | later
      · exact absurd here other
      · exact later
  | filtered pruned =>
    intro a r member is
    exact List.not_mem_nil (covers a r member is)
  | sweep j pruned =>
    intro a r member
    rw [rows_sweepShard, List.filter_true, ite_self] at member
    exact covers a r member
  | swept => exact covers

def Pass.Cleans (S : Sharding α) (a : α) : Pass α → Prop
  | .collect _ _ | .visit _ _ => True
  | .sweep j _ => j ≤ S.shard a
  | .done _ => False

theorem Turn.hollow (turn : Turn S keep t p t' p') {a : α} (hollow : Hollow t' a) :
    (Hollow t a ∨ p'.Cleans S a) ∧ (p.Cleans S a → p'.Cleans S a) := by
  cases turn with
  | collect | collected => exact ⟨.inl hollow, fun _ => trivial⟩
  | filter => exact ⟨.inr trivial, fun _ => trivial⟩
  | filtered => exact ⟨.inl hollow, fun _ => Nat.zero_le _⟩
  | sweep j pruned =>
    obtain ⟨elsewhere, before⟩ := hollow_sweepShard hollow
    refine ⟨.inl before, ?_⟩
    intro due
    exact Nat.lt_of_le_of_ne due (Ne.symm elsewhere)
  | swept j pruned all =>
    refine ⟨.inl hollow, ?_⟩
    intro due
    exact absurd (Nat.lt_of_lt_of_le (S.below a) all) (Nat.not_lt.mpr due)

end Passes

end Craftec.Library.ShardedTable
