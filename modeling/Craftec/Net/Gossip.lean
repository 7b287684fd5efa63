/- GID: Craftec/Net/Gossip
   generality: I
   digest: What nodes come to agree on from gossip, when a claim is refuted, and whom the pings mention. -/

import Mathlib
import Craftec.Library.Register
import Craftec.Net.Swim
import Craftec.Types.Digest
import Craftec.Types.Wire

set_option autoImplicit false
set_option relaxedAutoImplicit false

namespace Craftec.Net.Gossip

open Craftec.Library.Register (offer settle settle_concat settle_offered settle_top)
open Craftec.Net.Swim
open Craftec.Types.Digest (NodeId)
open Craftec.Types.Wire (WireMessage)

section Orderings

/-- The table after the updates about `peer`, each at the instant it comes with. -/
def receive (s : SwimMembership) (peer : NodeId) (updates : List (Update × ℕ)) : SwimMembership :=
  updates.foldl (fun s e => s.mark e.2 peer e.1) s

/-- What a node holds about `peer` after the updates, starting from an empty table. -/
def learned (localId peer : NodeId) (updates : List (Update × ℕ)) : Option MemberState :=
  ((receive (.new localId) peer updates).members.lookup peer).map undated

theorem undated_mark {s : SwimMembership} {peer : NodeId} (foreign : peer ≠ s.localId) (now : ℕ)
    (u : Update) :
    ((s.mark now peer u).members.lookup peer).map undated =
      offer (Update.fresh 0) Update.Replaces ((s.members.lookup peer).map undated) u := by
  rw [lookup_mark foreign]
  cases held : s.members.lookup peer with
  | none => exact congrArg some (undated_fresh u now)
  | some state =>
    simp only [Option.map_some, offer, modify_eq, replaces_undated]
    split
    · exact congrArg some (undated_fresh u now)
    · rfl

theorem undated_receive {s : SwimMembership} {peer : NodeId} (foreign : peer ≠ s.localId)
    (updates : List (Update × ℕ)) :
    ((receive s peer updates).members.lookup peer).map undated =
      (updates.map Prod.fst).foldl (offer (Update.fresh 0) Update.Replaces)
        ((s.members.lookup peer).map undated) := by
  induction updates generalizing s with
  | nil => rfl
  | cons e rest ih =>
    have onward := ih (s := s.mark e.2 peer e.1) (by rwa [localId_mark])
    rw [undated_mark foreign] at onward
    exact onward

theorem learned_eq_settle {localId peer : NodeId} (foreign : peer ≠ localId)
    (updates : List (Update × ℕ)) :
    learned localId peer updates = settle (Update.fresh 0) Update.Replaces (updates.map Prod.fst) :=
  undated_receive (s := .new localId) foreign updates

def incarnationOf : Update → UInt64
  | .alive incarnation | .suspect incarnation | .dead incarnation => incarnation

/-- Either a death notice that no `alive` exceeds, or no death notice at all and no
tie of `alive` and `suspect` at the highest incarnation. -/
def OneWinner (updates : List Update) : Prop :=
  (∃ d, .dead d ∈ updates ∧ ∀ a, .alive a ∈ updates → a ≤ d) ∨
    (∀ d, .dead d ∉ updates) ∧
      ¬ ∃ i, .alive i ∈ updates ∧ .suspect i ∈ updates ∧ ∀ u ∈ updates, incarnationOf u ≤ i

theorem exists_highest {P : Update → Prop} {updates : List Update} {u : Update} (listed : u ∈ updates)
    (has : P u) : ∃ top ∈ updates, P top ∧ ∀ v ∈ updates, P v → incarnationOf v ≤ incarnationOf top := by
  classical
  obtain ⟨top, isTop, highest⟩ := Finset.exists_max_image (updates.filter fun v => P v).toFinset
    (fun v => (incarnationOf v).toNat) ⟨u, by simp [listed, has]⟩
  simp only [List.mem_toFinset, List.mem_filter, decide_eq_true_eq, and_imp] at isTop highest
  exact ⟨top, isTop.1, isTop.2, fun v inList hasV =>
    UInt64.le_iff_toNat_le.mpr (highest v inList hasV)⟩

theorem settle_of_dead {updates : List Update} {d : UInt64} (listed : Update.dead d ∈ updates)
    (alive : ∀ a, Update.alive a ∈ updates → a ≤ d) (dead : ∀ e, Update.dead e ∈ updates → e ≤ d) :
    settle (Update.fresh 0) Update.Replaces updates = some (.dead d) := by
  refine settle_top listed ?_ ?_
  · intro v inList
    cases v with
    | alive a => exact .inl trivial
    | suspect a => exact .inl trivial
    | dead e =>
      rcases UInt64.lt_or_eq_of_le (dead e inList) with below | rfl
      · exact .inl below
      · exact .inr rfl
  · intro v inList replaced
    cases v with
    | alive a => exact absurd (alive a inList) (UInt64.not_le.mpr replaced)
    | suspect a => exact replaced.elim
    | dead e => exact absurd (dead e inList) (UInt64.not_le.mpr replaced)

theorem settle_of_highest {updates : List Update} {top : Update} (listed : top ∈ updates)
    (noDead : ∀ d, Update.dead d ∉ updates)
    (highest : ∀ v ∈ updates, incarnationOf v ≤ incarnationOf top)
    (alone : ∀ v ∈ updates, incarnationOf v = incarnationOf top → v = top) :
    settle (Update.fresh 0) Update.Replaces updates = some (top.fresh 0) := by
  have below : ∀ v ∈ updates, v ≠ top → incarnationOf v < incarnationOf top := by
    intro v inList other
    refine UInt64.lt_of_le_of_ne (highest v inList) fun level => other (alone v inList level)
  refine settle_top listed ?_ ?_
  · intro v inList
    by_cases same : v = top
    · exact .inr (congrArg _ same)
    have lower := below v inList same
    cases v with
    | dead d => exact absurd inList (noDead d)
    | alive a =>
      cases top with
      | dead d => exact absurd listed (noDead d)
      | alive i => exact .inl lower
      | suspect i => exact .inl (UInt64.le_of_lt lower)
    | suspect a =>
      cases top with
      | dead d => exact absurd listed (noDead d)
      | alive i => exact .inl (UInt64.le_of_lt lower)
      | suspect i => exact .inl lower
  · intro v inList replaced
    by_contra other
    have lower := below v inList fun same => other (congrArg _ same)
    cases v with
    | dead d => exact absurd inList (noDead d)
    | alive a =>
      cases top with
      | dead d => exact absurd listed (noDead d)
      | alive i => exact UInt64.lt_asymm lower replaced
      | suspect i => exact UInt64.not_le.mpr lower replaced
    | suspect a =>
      cases top with
      | dead d => exact absurd listed (noDead d)
      | alive i => exact UInt64.not_le.mpr lower replaced
      | suspect i => exact UInt64.lt_asymm lower replaced

theorem settle_of_oneWinner {updates : List Update} (winner : OneWinner updates)
    (some_update : updates ≠ []) : ∃ top ∈ updates, ∀ other : List Update, other.Perm updates →
      settle (Update.fresh 0) Update.Replaces other = some (top.fresh 0) := by
  rcases winner with ⟨d, listed, aliveBelow⟩ | ⟨noDead, noTie⟩
  · obtain ⟨top, inList, ⟨e, rfl⟩, highest⟩ :=
      exists_highest (P := fun u => ∃ e, u = .dead e) listed ⟨d, rfl⟩
    have deadBelow : ∀ e', Update.dead e' ∈ updates → e' ≤ e :=
      fun e' inList' => highest _ inList' ⟨e', rfl⟩
    refine ⟨.dead e, inList, fun other perm => settle_of_dead (perm.mem_iff.mpr inList) ?_ ?_⟩
    · intro a inOther
      exact UInt64.le_trans (aliveBelow a (perm.mem_iff.mp inOther)) (deadBelow d listed)
    · intro e' inOther
      exact deadBelow e' (perm.mem_iff.mp inOther)
  · obtain ⟨first, inList⟩ := List.exists_mem_of_ne_nil updates some_update
    obtain ⟨top, isTop, -, highest⟩ := exists_highest (P := fun _ => True) inList trivial
    have highest : ∀ v ∈ updates, incarnationOf v ≤ incarnationOf top :=
      fun v inList => highest v inList trivial
    have alone : ∀ v ∈ updates, incarnationOf v = incarnationOf top → v = top := by
      intro v inList level
      cases v with
      | dead d => exact absurd inList (noDead d)
      | alive i =>
        cases top with
        | dead d => exact absurd isTop (noDead d)
        | alive j => exact congrArg _ level
        | suspect j =>
          obtain rfl : i = j := level
          exact absurd ⟨i, inList, isTop, highest⟩ noTie
      | suspect i =>
        cases top with
        | dead d => exact absurd isTop (noDead d)
        | suspect j => exact congrArg _ level
        | alive j =>
          obtain rfl : i = j := level
          exact absurd ⟨i, isTop, inList, highest⟩ noTie
    refine ⟨top, isTop, fun other perm => settle_of_highest (perm.mem_iff.mpr isTop) ?_ ?_ ?_⟩
    · exact fun d inOther => noDead d (perm.mem_iff.mp inOther)
    · exact fun v inOther => highest v (perm.mem_iff.mp inOther)
    · exact fun v inOther => alone v (perm.mem_iff.mp inOther)

theorem settle_differs_of_alive {updates : List Update} {d a : UInt64}
    (above : ∀ e, .dead e ∈ updates → e < a) :
    settle (Update.fresh 0) Update.Replaces (updates.erase (.dead d) ++ [Update.dead d]) ≠
      settle (Update.fresh 0) Update.Replaces (updates.erase (.alive a) ++ [Update.alive a]) := by
  have ends : ∃ e, settle (Update.fresh 0) Update.Replaces (updates.erase (.dead d) ++ [Update.dead d]) =
      some (.dead e) := by
    rw [settle_concat]
    cases held : settle (Update.fresh 0) Update.Replaces (updates.erase (.dead d)) with
    | none => exact ⟨d, rfl⟩
    | some state =>
      cases state with
      | alive inc | suspect inc since => exact ⟨d, rfl⟩
      | dead inc =>
        simp only [offer]
        split
        · exact ⟨d, rfl⟩
        · exact ⟨inc, rfl⟩
  obtain ⟨e, ends⟩ := ends
  intro same
  rw [ends, settle_concat] at same
  cases held : settle (Update.fresh 0) Update.Replaces (updates.erase (.alive a)) with
  | none =>
    rw [held] at same
    cases same
  | some state =>
    obtain ⟨u, inRest, rfl⟩ := settle_offered held
    have listed : u ∈ updates := List.mem_of_mem_erase inRest
    rw [held] at same
    simp only [offer] at same
    split at same
    · cases same
    · rename_i kept
      -- Kept and dead, so a death notice that `a` exceeds: it would have been replaced.
      cases u with
      | alive inc => cases same
      | suspect inc => cases same
      | dead inc => exact kept (above inc listed)

/-- `alive` or `suspect` at incarnation `i`, and nothing else. -/
def AtLevel (i : UInt64) (held : Option MemberState) : Prop :=
  held = some (.alive i) ∨ held = some (.suspect i 0)

theorem atLevel_concat {rest : List Update} {i : UInt64} (noDead : ∀ d, .dead d ∉ rest)
    (highest : ∀ u ∈ rest, incarnationOf u ≤ i) {x : Update} (isLevel : x = .alive i ∨ x = .suspect i) :
    AtLevel i (settle (Update.fresh 0) Update.Replaces (rest ++ [x])) := by
  have taken : AtLevel i (some (x.fresh 0)) := by
    rcases isLevel with rfl | rfl
    · exact .inl rfl
    · exact .inr rfl
  rw [settle_concat]
  cases held : settle (Update.fresh 0) Update.Replaces rest with
  | none => exact taken
  | some state =>
    obtain ⟨u, listed, rfl⟩ := settle_offered held
    simp only [offer]
    split
    · exact taken
    · rename_i kept
      -- Only an entry already at the level resists.
      have level : incarnationOf u = i := by
        refine UInt64.le_antisymm (highest u listed) (UInt64.not_lt.mp fun below => kept ?_)
        rcases isLevel with rfl | rfl <;> cases u with
        | dead d => exact absurd listed (noDead d)
        | alive j | suspect j => first | exact below | exact UInt64.le_of_lt below
      cases u with
      | dead d => exact absurd listed (noDead d)
      | alive j => exact .inl (congrArg (fun k => some (MemberState.alive k)) level)
      | suspect j => exact .inr (congrArg (fun k => some (MemberState.suspect k 0)) level)

theorem offer_atLevel {i : UInt64} {held : Option MemberState} (level : AtLevel i held) :
    offer (Update.fresh 0) Update.Replaces held (.alive i) = some (.alive i) ∧
      offer (Update.fresh 0) Update.Replaces held (.suspect i) = some (.suspect i 0) := by
  rcases level with rfl | rfl
  · exact ⟨if_neg (UInt64.lt_irrefl i), if_pos (UInt64.le_refl i)⟩
  · exact ⟨if_pos (UInt64.le_refl i), if_neg (UInt64.lt_irrefl i)⟩

theorem settle_differs_of_tie {rest : List Update} {i : UInt64} (noDead : ∀ d, .dead d ∉ rest)
    (highest : ∀ u ∈ rest, incarnationOf u ≤ i) :
    settle (Update.fresh 0) Update.Replaces (rest ++ [Update.alive i] ++ [Update.suspect i]) ≠
      settle (Update.fresh 0) Update.Replaces (rest ++ [Update.suspect i] ++ [Update.alive i]) := by
  have aliveAt := atLevel_concat noDead highest (x := .alive i) (.inl rfl)
  have suspectAt := atLevel_concat noDead highest (x := .suspect i) (.inr rfl)
  have suspectLast := (offer_atLevel aliveAt).2
  have aliveLast := (offer_atLevel suspectAt).1
  rw [← settle_concat] at suspectLast aliveLast
  rw [suspectLast, aliveLast]
  intro same
  cases same

theorem exists_dated (updates : List Update) :
    ∃ dated : List (Update × ℕ), dated.map Prod.fst = updates :=
  ⟨updates.map fun u => (u, 0), by simp [Function.comp_def]⟩

theorem perm_erase_concat {updates : List Update} {u : Update} (listed : u ∈ updates) :
    (updates.erase u ++ [u]).Perm updates :=
  (List.perm_append_singleton u _).trans (List.perm_cons_erase listed).symm

theorem learned_agree_iff {localId peer : NodeId} (foreign : peer ≠ localId)
    (updates : List Update) :
    (∀ one two : List (Update × ℕ), (one.map Prod.fst).Perm updates →
      (two.map Prod.fst).Perm updates → learned localId peer one = learned localId peer two) ↔
      ∀ one two : List Update, one.Perm updates → two.Perm updates →
        settle (Update.fresh 0) Update.Replaces one = settle (Update.fresh 0) Update.Replaces two := by
  simp only [learned_eq_settle foreign]
  constructor
  · intro agree one two permOne permTwo
    obtain ⟨datedOne, rfl⟩ := exists_dated one
    obtain ⟨datedTwo, rfl⟩ := exists_dated two
    exact agree datedOne datedTwo permOne permTwo
  · intro agree one two permOne permTwo
    exact agree _ _ permOne permTwo

theorem exists_orders_of_tie {updates : List Update} {i : UInt64}
    (noDead : ∀ d, .dead d ∉ updates) (alive : .alive i ∈ updates) (suspect : .suspect i ∈ updates)
    (highest : ∀ u ∈ updates, incarnationOf u ≤ i) :
    ∃ one two : List Update, one.Perm updates ∧ two.Perm updates ∧
      settle (Update.fresh 0) Update.Replaces one ≠ settle (Update.fresh 0) Update.Replaces two := by
  have rest : Update.suspect i ∈ updates.erase (.alive i) :=
    (List.mem_erase_of_ne (by simp)).mpr suspect
  let others := (updates.erase (.alive i)).erase (.suspect i)
  have inOthers : ∀ u ∈ others, u ∈ updates :=
    fun u listed => List.mem_of_mem_erase (List.mem_of_mem_erase listed)
  have split : (others ++ [Update.suspect i] ++ [Update.alive i]).Perm updates :=
    ((perm_erase_concat rest).append_right _).trans (perm_erase_concat alive)
  have swapped : (others ++ [Update.alive i] ++ [Update.suspect i]).Perm updates := by
    refine List.Perm.trans ?_ split
    simp only [List.append_assoc]
    exact List.Perm.append_left _ List.perm_append_comm
  exact ⟨_, _, swapped, split, settle_differs_of_tie (fun d listed => noDead d (inOthers _ listed))
    fun u listed => highest u (inOthers u listed)⟩

theorem exists_orders_of_not_oneWinner {updates : List Update} (none : ¬ OneWinner updates) :
    ∃ one two : List Update, one.Perm updates ∧ two.Perm updates ∧
      settle (Update.fresh 0) Update.Replaces one ≠ settle (Update.fresh 0) Update.Replaces two := by
  by_cases noDead : ∀ d, .dead d ∉ updates
  · obtain ⟨i, alive, suspect, highest⟩ : ∃ i, .alive i ∈ updates ∧ .suspect i ∈ updates ∧
        ∀ u ∈ updates, incarnationOf u ≤ i :=
      not_not.mp fun noTie => none (.inr ⟨noDead, noTie⟩)
    exact exists_orders_of_tie noDead alive suspect highest
  · push Not at noDead
    obtain ⟨d, dead⟩ := noDead
    obtain ⟨top, listed, ⟨e, rfl⟩, highest⟩ :=
      exists_highest (P := fun u => ∃ e, u = .dead e) dead ⟨d, rfl⟩
    obtain ⟨a, alive, above⟩ : ∃ a, .alive a ∈ updates ∧ ¬ a ≤ e := by
      by_contra noAlive
      push Not at noAlive
      exact none (.inl ⟨e, listed, noAlive⟩)
    have above : ∀ e', .dead e' ∈ updates → e' < a := fun e' listed' =>
      UInt64.lt_of_le_of_lt (highest _ listed' ⟨e', rfl⟩) (UInt64.not_le.mp above)
    exact ⟨_, _, perm_erase_concat listed, perm_erase_concat alive, settle_differs_of_alive above⟩

/-- Two nodes that receive the same updates about a peer, in whatever order and at
whatever instants, agree on it exactly when the updates have one winner. -/
theorem orderings_agree_iff {localId peer : NodeId} (foreign : peer ≠ localId)
    (updates : List Update) :
    (∀ one two : List (Update × ℕ), (one.map Prod.fst).Perm updates →
      (two.map Prod.fst).Perm updates → learned localId peer one = learned localId peer two) ↔
      OneWinner updates := by
  rw [learned_agree_iff foreign]
  constructor
  · intro agree
    by_contra none
    obtain ⟨one, two, permOne, permTwo, differ⟩ := exists_orders_of_not_oneWinner none
    exact differ (agree one two permOne permTwo)
  · intro winner one two permOne permTwo
    rcases eq_or_ne updates [] with rfl | notEmpty
    · rw [List.perm_nil.mp permOne, List.perm_nil.mp permTwo]
    · obtain ⟨top, -, decided⟩ := settle_of_oneWinner winner notEmpty
      rw [decided one permOne, decided two permTwo]

theorem orderings_agree_iff_on_death :
    peerId 2 ≠ peerId 1 ∧
      learned (peerId 1) (peerId 2) [(.alive 2, 0), (.suspect 4, 1), (.dead 3, 2)] =
        learned (peerId 1) (peerId 2) [(.dead 3, 7), (.alive 2, 8), (.suspect 4, 9)] := by
  have foreign : peerId 2 ≠ peerId 1 := by decide
  have winner : OneWinner [.alive 2, .suspect 4, .dead 3] := .inl ⟨3, by decide, by simp⟩
  exact ⟨foreign, (orderings_agree_iff foreign _).mpr winner _ _ (by decide) (by decide)⟩

/-- A death notice is taken whatever it is compared with, an `alive` only above the
recorded incarnation; and `alive` and `suspect` of one incarnation replace each other. -/
theorem orderings_disagree :
    learned (peerId 1) (peerId 2) [(.alive 5, 0), (.dead 3, 1)] = some (.dead 3) ∧
      learned (peerId 1) (peerId 2) [(.dead 3, 0), (.alive 5, 1)] = some (.alive 5) ∧
      learned (peerId 1) (peerId 2) [(.alive 4, 0), (.suspect 4, 1)] = some (.suspect 4 0) ∧
      learned (peerId 1) (peerId 2) [(.suspect 4, 0), (.alive 4, 1)] = some (.alive 4) := by
  decide

end Orderings

section Refutation

/-- The table after a message, through the handler of the endpoint or the one of
the membership itself. -/
def handled (endpoint : Bool) (now : ℕ) (s : SwimMembership) (msg : WireMessage) : SwimMembership :=
  if endpoint then (handleSwimMsg now s msg).1 else (handleMessage now s msg).1

/-- The two messages in which a node states its own incarnation. -/
inductive Assertion where
  | pingAck (nonce : UInt64)
  | alive

def Assertion.message (s : SwimMembership) : Assertion → WireMessage
  | .pingAck nonce => .swimPingAck s.localId nonce s.incarnation
  | .alive => .swimAlive s.localId s.incarnation

/-- When the counter of the node itself answers what a peer holds against it. -/
def Answers (own : UInt64) : MemberState → Prop
  | .alive _ => True
  | .suspect incarnation _ => incarnation ≤ own + 1
  | .dead incarnation => incarnation < own

theorem members_handled_assertion (endpoint : Bool) (now : ℕ) (s n : SwimMembership) (a : Assertion) :
    (handled endpoint now s (a.message n)).members = (s.markAlive n.localId n.incarnation).members := by
  cases a with
  | alive => cases endpoint <;> rfl
  | pingAck nonce =>
    cases endpoint with
    | false => exact members_resolveProbe _ _ _
    | true =>
      change ((s.resolveProbe nonce n.incarnation).markAlive n.localId n.incarnation).members = _
      simp only [SwimMembership.markAlive, localId_resolveProbe]
      split
      · exact members_resolveProbe _ _ _
      · simp only [members_resolveProbe]

theorem handled_claim (endpoint : Bool) (now : ℕ) (n : SwimMembership) (reporter : NodeId)
    (state : MemberState) :
    (handled endpoint now n (gossipMsg reporter (n.localId, state))).localId = n.localId ∧
      (handled endpoint now n (gossipMsg reporter (n.localId, state))).incarnation =
        (match state with
          | .suspect _ _ => n.incarnation + 1
          | _ => n.incarnation) := by
  cases endpoint <;> cases state <;>
    simp [handled, handleSwimMsg, handleMessage, gossipMsg, SwimMembership.markAlive,
      SwimMembership.markSuspect, SwimMembership.markDead]

theorem modify_alive_iff {incarnation : UInt64} (now : ℕ) {state : MemberState}
    (notAlive : state.isAlive = false) :
    (Update.alive incarnation).modify now state = .alive incarnation ↔
      (Update.alive incarnation).Replaces state := by
  rw [modify_eq]
  constructor
  · intro recorded
    by_contra kept
    rw [if_neg kept] at recorded
    rw [recorded] at notAlive
    cases notAlive
  · intro replaced
    exact if_pos replaced

/-- A peer that holds a node suspect or dead records it alive again, after the node
has handled that claim and asserts itself, exactly when the node's counter answers it. -/
theorem refutation_recorded_iff {p n : SwimMembership} (apart : n.localId ≠ p.localId)
    {state : MemberState} (entry : p.members.lookup n.localId = some state)
    (notAlive : state.isAlive = false) (reporter : NodeId) (nowN nowP : ℕ) (atN atP : Bool)
    (a : Assertion) :
    let n' := handled atN nowN n (gossipMsg reporter (n.localId, state))
    (handled atP nowP p (a.message n')).members.lookup n.localId = some (.alive n'.incarnation) ↔
      Answers n.incarnation state := by
  intro n'
  obtain ⟨sameId, counter⟩ := handled_claim atN nowN n reporter state
  have marked : (p.mark nowP n.localId (.alive n'.incarnation)).members.lookup n.localId =
      some ((Update.alive n'.incarnation).modify nowP state) := by
    rw [lookup_mark apart, entry]
  have recorded : (handled atP nowP p (a.message n')).members.lookup n.localId =
      some ((Update.alive n'.incarnation).modify nowP state) := by
    rw [members_handled_assertion, sameId]
    exact marked
  rw [recorded, Option.some_inj, modify_alive_iff nowP notAlive]
  cases state with
  | alive inc => cases notAlive
  | suspect inc since =>
    have counter : n'.incarnation = n.incarnation + 1 := counter
    simp only [Update.Replaces, Answers, counter]
  | dead inc =>
    have counter : n'.incarnation = n.incarnation := counter
    simp only [Update.Replaces, Answers, counter]

def holding (localId peer : NodeId) (state : MemberState) : SwimMembership :=
  { SwimMembership.new localId with members := Finmap.singleton peer state }

def counting (localId : NodeId) (incarnation : UInt64) : SwimMembership :=
  { SwimMembership.new localId with incarnation := incarnation }

theorem refutation_recorded_iff_level :
    let n' := handled true 1 (counting (peerId 2) 3) (.swimSuspect (peerId 2) 3 (peerId 1))
    (handled true 2 (holding (peerId 1) (peerId 2) (.suspect 3 0))
      (.swimPingAck (peerId 2) 7 n'.incarnation)).members.lookup (peerId 2) =
        some (.alive n'.incarnation) := by
  have apart : (counting (peerId 2) 3).localId ≠ (holding (peerId 1) (peerId 2) (.suspect 3 0)).localId := by
    decide
  have entry : (holding (peerId 1) (peerId 2) (.suspect 3 0)).members.lookup
      (counting (peerId 2) 3).localId = some (.suspect 3 0) := by decide
  have level : Answers (counting (peerId 2) 3).incarnation (.suspect 3 0) := by
    change (3 : UInt64) ≤ 3 + 1
    decide
  exact (refutation_recorded_iff apart entry rfl (peerId 1) 1 2 true true (.pingAck 7)).mpr level

/-- A restarted node counts from zero again: it answers a suspicion of incarnation 5
with 1, and a death notice of incarnation 0 with 0, and stays suspect or dead. -/
theorem restarted_node_not_recorded :
    (handled true 1 (.new (peerId 2)) (.swimSuspect (peerId 2) 5 (peerId 1))).incarnation = 1 ∧
      (handled true 2 (holding (peerId 1) (peerId 2) (.suspect 5 0))
        (.swimPingAck (peerId 2) 7 1)).members.lookup (peerId 2) = some (.suspect 5 0) ∧
      (handled true 1 (.new (peerId 2)) (.swimDead (peerId 2) 0 (peerId 1))).incarnation = 0 ∧
      (handled true 2 (holding (peerId 1) (peerId 2) (.dead 0))
        (.swimPingAck (peerId 2) 7 0)).members.lookup (peerId 2) = some (.dead 0) := by
  decide

end Refutation

section Dissemination

structure Enumerates (order : List NodeId) (m : Members) : Prop where
  nodup : order.Nodup
  mem_iff : ∀ node, node ∈ order ↔ node ∈ m

/-- Consecutive ticks, one at each of the instants; nothing else happens between them. -/
def ticks (order : List NodeId) : SwimMembership → List ℕ → List (NodeId × WireMessage)
  | _, [] => []
  | s, now :: later => (s.protocolTick now order).2 ++ ticks order (s.protocolTick now order).1 later

def subject : WireMessage → Option NodeId
  | .swimAlive node _ | .swimSuspect node _ _ | .swimDead node _ _ => some node
  | _ => none

def mentioned : WireMessage → List NodeId
  | .swimPing _ _ piggyback => piggyback.filterMap subject
  | _ => []

theorem subject_gossipMsg (localId : NodeId) (e : NodeId × MemberState) :
    subject (gossipMsg localId e) = some e.1 := by
  obtain ⟨node, state⟩ := e
  cases state <;> rfl

theorem map_fst_listed {order : List NodeId} {m : Members} (enumerates : Enumerates order m) :
    (m.listed order).map Prod.fst = order := by
  have all : ∀ node ∈ order, ((m.lookup node).map fun state => (node, state)).map Prod.fst = some node := by
    intro node listed
    obtain ⟨state, found⟩ := Option.isSome_iff_exists.mp
      (Finmap.lookup_isSome.mpr ((enumerates.mem_iff node).mp listed))
    rw [found]
    rfl
  rw [Members.listed, List.map_filterMap, List.filterMap_congr all, List.filterMap_some]

theorem length_order {order : List NodeId} {s : SwimMembership}
    (enumerates : Enumerates order s.members) : order.length = s.memberCount := by
  have keys : order.toFinset = s.members.keys := by
    ext node
    rw [List.mem_toFinset, Finmap.mem_keys, enumerates.mem_iff]
  rw [SwimMembership.memberCount, ← keys, List.toFinset_card_of_nodup enumerates.nodup]

theorem memberCount_pos {s : SwimMembership} {node : NodeId} (member : node ∈ s.members) :
    0 < s.memberCount :=
  Finset.card_pos.mpr ⟨node, Finmap.mem_keys.mpr member⟩

theorem subjects_eq {order : List NodeId} {s : SwimMembership} (limit : ℕ) :
    (s.collectGossipMsgs order limit).filterMap subject =
      ((sortByPriority (s.members.listed order)).map Prod.fst).take limit := by
  rw [SwimMembership.collectGossipMsgs, List.filterMap_map, ← List.map_take]
  have all : ∀ e ∈ (sortByPriority (s.members.listed order)).take limit,
      (subject ∘ gossipMsg s.localId) e = some e.1 := fun e _ => subject_gossipMsg s.localId e
  rw [List.filterMap_congr all]
  exact congrFun List.filterMap_eq_map _

theorem perm_sorted {order : List NodeId} {m : Members} (enumerates : Enumerates order m) :
    ((sortByPriority (m.listed order)).map Prod.fst).Perm order := by
  have sorted := (List.perm_insertionSort (fun a b : NodeId × MemberState =>
    a.2.priority ≤ b.2.priority) (m.listed order)).map Prod.fst
  rwa [map_fst_listed enumerates] at sorted

theorem all_within_iff {order : List NodeId} {s : SwimMembership}
    (enumerates : Enumerates order s.members) (limit : ℕ) :
    (∀ node ∈ s.members, node ∈ (s.collectGossipMsgs order limit).filterMap subject) ↔
      s.memberCount ≤ limit := by
  have perm := perm_sorted enumerates
  have length : ((sortByPriority (s.members.listed order)).map Prod.fst).length = s.memberCount :=
    perm.length_eq.trans (length_order enumerates)
  have listed : ∀ node, node ∈ (sortByPriority (s.members.listed order)).map Prod.fst ↔
      node ∈ s.members := fun node => perm.mem_iff.trans (enumerates.mem_iff node)
  rw [subjects_eq]
  constructor
  · intro all
    have covered := List.subperm_of_subset (perm.nodup_iff.mpr enumerates.nodup)
      fun node inList => all node ((listed node).mp inList)
    calc s.memberCount = _ := length.symm
      _ ≤ _ := covered.length_le
      _ ≤ limit := List.length_take_le _ _
  · intro enough node member
    rw [List.take_of_length_le (length.le.trans enough)]
    exact (listed node).mpr member

structure SameTable (s t : SwimMembership) : Prop where
  members : t.members = s.members
  localId : t.localId = s.localId
  suspectTimeout : t.suspectTimeout = s.suspectTimeout

def gossip (order : List NodeId) (s : SwimMembership) : List WireMessage :=
  s.collectGossipMsgs order (adaptivePiggybackCount (s.aliveMembers order).length)

theorem protocolTick_quiet {order : List NodeId} {s : SwimMembership} {now : ℕ}
    (quiet : s.expired now order = []) :
    SameTable s (s.protocolTick now order).1 ∧
      (s.aliveMembers order = [] ∧ (s.protocolTick now order).2 = [] ∨
        s.aliveMembers order ≠ [] ∧ ∃ target nonce, (s.protocolTick now order).2 =
          [(target, .swimPing s.localId nonce (gossip order s))]) := by
  have still : s.expireSuspects now order = s := by
    rw [SwimMembership.expireSuspects, quiet]
    rfl
  simp only [SwimMembership.protocolTick, still]
  cases alive : s.aliveMembers order with
  | nil => exact ⟨⟨rfl, rfl, rfl⟩, .inl ⟨rfl, rfl⟩⟩
  | cons first rest =>
    have inside : s.probeIndex.toNat % (first :: rest).length < (first :: rest).length :=
      Nat.mod_lt _ (Nat.succ_pos _)
    simp only [List.getElem?_eq_getElem inside]
    refine ⟨⟨rfl, rfl, rfl⟩,
      .inr ⟨List.cons_ne_nil _ _, (first :: rest).get ⟨_, inside⟩, s.probeNonce, ?_⟩⟩
    rw [gossip, alive]
    rfl

theorem SameTable.expired_eq {s t : SwimMembership} (same : SameTable s t) (now : ℕ)
    (order : List NodeId) : t.expired now order = s.expired now order := by
  simp only [SwimMembership.expired, same.members, same.suspectTimeout]

theorem SameTable.aliveMembers_eq {s t : SwimMembership} (same : SameTable s t)
    (order : List NodeId) : t.aliveMembers order = s.aliveMembers order := by
  simp only [SwimMembership.aliveMembers, same.members]

theorem SameTable.gossip_eq {s t : SwimMembership} (same : SameTable s t) (order : List NodeId) :
    gossip order t = gossip order s := by
  simp only [gossip, SwimMembership.collectGossipMsgs, same.aliveMembers_eq, same.members,
    same.localId]

theorem ticks_quiet {order : List NodeId} {s : SwimMembership} {instants : List ℕ}
    (quiet : ∀ now ∈ instants, s.expired now order = []) :
    s.aliveMembers order = [] ∧ ticks order s instants = [] ∨
      s.aliveMembers order ≠ [] ∧ (ticks order s instants).length = instants.length ∧
        ∀ e ∈ ticks order s instants, ∃ nonce, e.2 = .swimPing s.localId nonce (gossip order s) := by
  induction instants generalizing s with
  | nil =>
    by_cases alive : s.aliveMembers order = []
    · exact .inl ⟨alive, rfl⟩
    · exact .inr ⟨alive, rfl, fun e listed => absurd listed List.not_mem_nil⟩
  | cons now later ih =>
    obtain ⟨same, sent⟩ := protocolTick_quiet (quiet now List.mem_cons_self)
    have onward := ih (s := (s.protocolTick now order).1) fun next listed =>
      (same.expired_eq next order).trans (quiet next (List.mem_cons_of_mem now listed))
    rw [same.aliveMembers_eq, same.gossip_eq, same.localId] at onward
    rcases sent with ⟨alive, none⟩ | ⟨alive, target, nonce, one⟩
    · rcases onward with ⟨-, nothing⟩ | ⟨some, -⟩
      · exact .inl ⟨alive, by rw [ticks, none, nothing, List.append_nil]⟩
      · exact absurd alive some
    · rcases onward with ⟨none, -⟩ | ⟨-, length, carried⟩
      · exact absurd none alive
      · refine .inr ⟨alive, ?_, ?_⟩
        · rw [ticks, one, List.length_append, length]
          exact Nat.add_comm 1 later.length
        · intro e listed
          rw [ticks, one] at listed
          rcases List.mem_cons.mp listed with rfl | inLater
          · exact ⟨nonce, rfl⟩
          · exact carried e inLater

/-- While the table does not change, as many consecutive pings as there are members
mention all of them exactly when one ping has room for all: every ping carries the
same first members by priority. -/
theorem pings_mention_all_iff {order : List NodeId} {s : SwimMembership} {instants : List ℕ}
    (enumerates : Enumerates order s.members)
    (quiet : ∀ now ∈ instants, s.expired now order = [])
    (rounds : instants.length = s.memberCount) :
    ((ticks order s instants).length = s.memberCount →
      ∀ node ∈ s.members, ∃ e ∈ ticks order s instants, node ∈ mentioned e.2) ↔
      s.aliveMembers order = [] ∨
        s.memberCount ≤ adaptivePiggybackCount (s.aliveMembers order).length := by
  have within := all_within_iff enumerates (adaptivePiggybackCount (s.aliveMembers order).length)
  rcases ticks_quiet quiet with ⟨alive, nothing⟩ | ⟨alive, length, carried⟩
  · -- Nobody to ping: the premise holds only of an empty table.
    refine iff_of_true ?_ (.inl alive)
    intro sent node member
    rw [nothing, List.length_nil] at sent
    exact absurd sent (memberCount_pos member).ne
  · rw [or_iff_right alive, ← within]
    constructor
    · intro mentioned node member
      obtain ⟨e, listed, mentions⟩ := mentioned (length.trans rounds) node member
      obtain ⟨nonce, ping⟩ := carried e listed
      rw [ping] at mentions
      exact mentions
    · intro all sent node member
      have some_tick : ticks order s instants ≠ [] := by
        intro none
        rw [none, List.length_nil] at sent
        exact absurd sent (memberCount_pos member).ne
      obtain ⟨e, listed⟩ := List.exists_mem_of_ne_nil _ some_tick
      obtain ⟨nonce, ping⟩ := carried e listed
      refine ⟨e, listed, ?_⟩
      rw [ping]
      exact all node member

def tableOf : List (NodeId × MemberState) → Members
  | [] => ∅
  | e :: rest => (tableOf rest).insert e.1 e.2

theorem enumerates_tableOf {entries : List (NodeId × MemberState)}
    (nodup : (entries.map Prod.fst).Nodup) : Enumerates (entries.map Prod.fst) (tableOf entries) := by
  refine ⟨nodup, ?_⟩
  clear nodup
  induction entries with
  | nil =>
    intro node
    exact iff_of_false List.not_mem_nil Finmap.notMem_empty
  | cons e rest ih =>
    intro node
    rw [List.map_cons, List.mem_cons, ih node, tableOf, Finmap.mem_insert]

def knowing (entries : List (NodeId × MemberState)) : SwimMembership :=
  { SwimMembership.new (peerId 0) with members := tableOf entries }

theorem pings_mention_all_iff_of_three :
    let entries := [(peerId 3, .dead 0), (peerId 1, .alive 0), (peerId 2, .suspect 0 0)]
    let order := entries.map Prod.fst
    (ticks order (knowing entries) [0, 500, 1000]).length = (knowing entries).memberCount ∧
      ∀ member ∈ (knowing entries).members,
        ∃ e ∈ ticks order (knowing entries) [0, 500, 1000], member ∈ mentioned e.2 := by
  intro entries order
  have sent : (ticks order (knowing entries) [0, 500, 1000]).length =
      (knowing entries).memberCount := by decide
  refine ⟨sent, (pings_mention_all_iff (enumerates_tableOf (by decide)) (by decide) (by decide)).mpr
    (.inr (by decide)) sent⟩

/-- With four members alive, a fifth that is suspect is in none of five pings. -/
theorem suspect_never_mentioned :
    let entries := [(peerId 5, .suspect 0 0), (peerId 1, .alive 0), (peerId 2, .alive 0),
      (peerId 3, .alive 0), (peerId 4, .alive 0)]
    let sent := ticks (entries.map Prod.fst) (knowing entries) [0, 500, 1000, 1500, 2000]
    (knowing entries).memberCount = 5 ∧ sent.length = 5 ∧ ∀ e ∈ sent, peerId 5 ∉ mentioned e.2 := by
  decide

end Dissemination

end Craftec.Net.Gossip
