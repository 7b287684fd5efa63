/- GID: Craftec/Net/Providers
   generality: I
   digest: The provider table under any interleaving of announcements, removals and pruning passes. -/

import Mathlib
import Craftec.Health.Holders
import Craftec.Library.Run
import Craftec.Library.ShardedTable
import Craftec.Node.Handler
import Craftec.Types.Digest

set_option autoImplicit false
set_option relaxedAutoImplicit false

namespace Craftec.Net.Providers

open Craftec.Health.Holders (updateFirst_ne_nil)
open Craftec.Library.Run (Reach Reach.invariant Reach.exists_lost anyStep exists_reach
  exists_mem_set
  exists_reach_reach mem_set_cases mem_set_next)
open Craftec.Library.ShardedTable (Covers Hollow Pass Sharding Turn advance_turn cleanAt filterAt
  hollow_cleanAt hollow_filterAt hollow_sweepShard rows rows_cleanAt rows_filterAt rows_sweepShard
  sweepShard)
open Craftec.Node.Handler (DhtProviders ProviderRecord updateFirst)
open Craftec.Types.Digest (Bytes32 Cid NodeId)

def getProviders (dht : DhtProviders) (cid : Cid) : List NodeId :=
  (rows dht.localProviders cid).map ProviderRecord.nodeId

def isOther (node : NodeId) (record : ProviderRecord) : Bool := decide (record.nodeId ≠ node)

/-- Younger than `ttl` at `now`; a record from after `now` has no age. -/
def isYoung (now ttl : ℕ) (record : ProviderRecord) : Bool :=
  decide (now - record.announcedAt < ttl)

inductive Call where
  | announceProvider (cid : Cid) (node : NodeId)
  | removeProvider (cid : Cid) (node : NodeId)
  | removeNode (node : NodeId)
  | pruneStale (ttl : ℕ)

/-- Where a call stands, named by the part of the table it locks next. A removal is marked with
the time it was called at, which no step reads. -/
inductive Task where
  | announce (cid : Cid) (node : NodeId)
  | announced
  | removeFilter (cid : Cid) (node : NodeId) (since : ℕ)
  | removeClean (cid : Cid) (node : NodeId) (since : ℕ)
  | removed (cid : Cid) (node : NodeId) (since : ℕ)
  | removeNode (node : NodeId) (since j : ℕ)
  | nodeRemoved (node : NodeId) (since : ℕ)
  | pruneStart (ttl : ℕ)
  | prune (now ttl : ℕ) (pass : Pass Cid)
  deriving DecidableEq

def Call.start (clock : ℕ) : Call → Task
  | .announceProvider cid node => .announce cid node
  | .removeProvider cid node => .removeFilter cid node clock
  | .removeNode node => .removeNode node clock 0
  | .pruneStale ttl => .pruneStart ttl

def Task.isOver : Task → Bool
  | .announced | .removed _ _ _ | .nodeRemoved _ _ | .prune _ _ (.done _) => true
  | _ => false

structure State where
  dht : DhtProviders
  clock : ℕ
  tasks : List Task

def State.new : State := ⟨⟨∅⟩, 0, []⟩

variable (S : Sharding Cid)

/-- One locked step of a call; `found` is the order in which a shard lists its keys. -/
def advance (dht : DhtProviders) (clock : ℕ) (found : List Cid) : Task → Option (DhtProviders × Task)
  | .announce cid node => some (dht.announceProvider clock cid node, .announced)
  | .removeFilter cid node since =>
    some (⟨filterAt (isOther node) cid dht.localProviders⟩, .removeClean cid node since)
  | .removeClean cid node since => some (⟨cleanAt cid dht.localProviders⟩, .removed cid node since)
  | .removeNode node since j =>
    if j < S.count then
      some (⟨sweepShard S (isOther node) j dht.localProviders⟩, .removeNode node since (j + 1))
    else some (dht, .nodeRemoved node since)
  | .pruneStart ttl => some (dht, .prune clock ttl (.collect 0 []))
  | .prune now ttl pass =>
    (Library.ShardedTable.advance S (isYoung now ttl) found dht.localProviders pass).map fun r =>
      (⟨r.1⟩, .prune now ttl r.2)
  | .announced | .removed _ _ _ | .nodeRemoved _ _ => none

inductive Label where
  | call (c : Call)
  | advance (i : ℕ) (found : List Cid)
  | tick (elapsed : ℕ)

def step (s : State) : Label → Option State
  | .call c => some { s with tasks := s.tasks ++ [c.start s.clock] }
  | .advance i found =>
    (s.tasks[i]?).bind fun t => (advance S s.dht s.clock found t).map fun r =>
      { s with dht := r.1, tasks := s.tasks.set i r.2 }
  | .tick elapsed => some { s with clock := s.clock + elapsed }

section Announcing

variable {dht : DhtProviders} {now : ℕ} {cid other : Cid} {node : NodeId}

theorem rows_announce_of_ne (apart : other ≠ cid) :
    rows (dht.announceProvider now cid node).localProviders other = rows dht.localProviders other := by
  unfold rows DhtProviders.announceProvider
  rw [Finmap.lookup_insert_of_ne _ apart]

theorem rows_announce :
    rows (dht.announceProvider now cid node).localProviders cid =
      updateFirst (fun record => decide (record.nodeId = node))
        (fun record => { record with announcedAt := now }) ⟨node, now⟩
        (rows dht.localProviders cid) := by
  unfold rows DhtProviders.announceProvider
  rw [Finmap.lookup_insert]
  rfl

theorem mem_updateFirst {records : List ProviderRecord} {r : ProviderRecord}
    (listed : r ∈ updateFirst (fun record => decide (record.nodeId = node))
      (fun record => { record with announcedAt := now }) ⟨node, now⟩ records) :
    r ∈ records ∨ r.announcedAt = now := by
  induction records with
  | nil =>
    rw [List.mem_singleton.mp listed]
    exact .inr rfl
  | cons first rest ih =>
    rw [updateFirst] at listed
    split at listed
    · rcases List.mem_cons.mp listed with rfl | later
      · exact .inr rfl
      · exact .inl (List.mem_cons_of_mem _ later)
    · rcases List.mem_cons.mp listed with rfl | later
      · exact .inl List.mem_cons_self
      · exact (ih later).imp_left (List.mem_cons_of_mem _)

theorem mem_rows_announce {r : ProviderRecord}
    (listed : r ∈ rows (dht.announceProvider now cid node).localProviders other) :
    r ∈ rows dht.localProviders other ∨ r.announcedAt = now := by
  by_cases here : other = cid
  · subst here
    rw [rows_announce] at listed
    exact mem_updateFirst listed
  · rw [rows_announce_of_ne here] at listed
    exact .inl listed

theorem nodes_announced (records : List ProviderRecord) :
    (updateFirst (fun record => decide (record.nodeId = node))
      (fun record => { record with announcedAt := now }) ⟨node, now⟩ records).map
        ProviderRecord.nodeId =
      if node ∈ records.map ProviderRecord.nodeId then records.map ProviderRecord.nodeId
      else records.map ProviderRecord.nodeId ++ [node] := by
  induction records with
  | nil => rfl
  | cons first rest ih =>
    rw [updateFirst, List.map_cons]
    by_cases same : first.nodeId = node
    · rw [if_pos (decide_eq_true same), if_pos (by rw [same]; exact List.mem_cons_self)]
      rfl
    · rw [if_neg (by simpa using same), List.map_cons, ih]
      by_cases later : node ∈ rest.map ProviderRecord.nodeId
      · rw [if_pos later, if_pos (List.mem_cons_of_mem _ later)]
      · rw [if_neg later, if_neg (List.not_mem_cons_of_ne_of_not_mem (Ne.symm same) later)]
        rfl

theorem getProviders_announce :
    getProviders (dht.announceProvider now cid node) other =
      if other = cid ∧ node ∉ getProviders dht other then getProviders dht other ++ [node]
      else getProviders dht other := by
  unfold getProviders
  by_cases here : other = cid
  · subst here
    rw [rows_announce, nodes_announced]
    split
    · rename_i known
      rw [if_neg fun both => both.2 known]
    · rename_i new
      rw [if_pos ⟨rfl, new⟩]
  · rw [if_neg fun both => here both.1, rows_announce_of_ne here]

theorem hollow_announce (hollow : Hollow (dht.announceProvider now cid node).localProviders other) :
    Hollow dht.localProviders other := by
  unfold Hollow DhtProviders.announceProvider at hollow
  by_cases here : other = cid
  · subst here
    rw [Finmap.lookup_insert] at hollow
    exact absurd (Option.some.inj hollow) (updateFirst_ne_nil _ _ _ _)
  · rwa [Finmap.lookup_insert_of_ne _ here] at hollow

end Announcing

def Stale (now ttl : ℕ) (record : ProviderRecord) : Prop := ttl ≤ now - record.announcedAt

/-- What a call has made sure of so far: every record it was to remove is one that it has still
ahead of it, or was announced after the call. -/
def Task.Watches (dht : DhtProviders) (clock : ℕ) : Task → Prop
  | .removeFilter _ _ since => since ≤ clock
  | .removeClean cid node since | .removed cid node since =>
    since ≤ clock ∧ ∀ r ∈ rows dht.localProviders cid, r.nodeId = node → since ≤ r.announcedAt
  | .removeNode node since j =>
    since ≤ clock ∧ ∀ cid, S.shard cid < j → ∀ r ∈ rows dht.localProviders cid, r.nodeId = node →
      since ≤ r.announcedAt
  | .nodeRemoved node since =>
    since ≤ clock ∧ ∀ cid, ∀ r ∈ rows dht.localProviders cid, r.nodeId = node →
      since ≤ r.announcedAt
  | .prune now ttl pass =>
    now ≤ clock ∧ (0 < ttl → Covers S (Stale now ttl) dht.localProviders pass)
  | .announce _ _ | .announced | .pruneStart _ => True

def Task.Cleans (cid : Cid) : Task → Prop
  | .removeClean other _ _ => other = cid
  | .prune _ _ pass => pass.Cleans S cid
  | _ => False

section Moves

variable {S} {dht dht' : DhtProviders} {clock : ℕ} {found : List Cid} {t t' : Task}

/-- The locked steps, with what each was decided by. -/
inductive Move (S : Sharding Cid) (dht : DhtProviders) (clock : ℕ) : Task → DhtProviders → Task → Prop
  | announce (cid : Cid) (node : NodeId) :
    Move S dht clock (.announce cid node) (dht.announceProvider clock cid node) .announced
  | removeFilter (cid : Cid) (node : NodeId) (since : ℕ) :
    Move S dht clock (.removeFilter cid node since)
      ⟨filterAt (isOther node) cid dht.localProviders⟩ (.removeClean cid node since)
  | removeClean (cid : Cid) (node : NodeId) (since : ℕ) :
    Move S dht clock (.removeClean cid node since) ⟨cleanAt cid dht.localProviders⟩
      (.removed cid node since)
  | removeNode (node : NodeId) (since j : ℕ) :
    Move S dht clock (.removeNode node since j)
      ⟨sweepShard S (isOther node) j dht.localProviders⟩ (.removeNode node since (j + 1))
  | nodeRemoved (node : NodeId) (since j : ℕ) (all : S.count ≤ j) :
    Move S dht clock (.removeNode node since j) dht (.nodeRemoved node since)
  | pruneStart (ttl : ℕ) : Move S dht clock (.pruneStart ttl) dht (.prune clock ttl (.collect 0 []))
  | prune (now ttl : ℕ) (pass pass' : Pass Cid) (table' : Library.ShardedTable.Table Cid ProviderRecord)
    (turn : Turn S (isYoung now ttl) dht.localProviders pass table' pass') :
    Move S dht clock (.prune now ttl pass) ⟨table'⟩ (.prune now ttl pass')

theorem advance_move (taken : advance S dht clock found t = some (dht', t')) :
    Move S dht clock t dht' t' := by
  cases t with
  | announced | removed | nodeRemoved => cases taken
  | announce cid node =>
    cases taken
    exact .announce cid node
  | removeFilter cid node since =>
    cases taken
    exact .removeFilter cid node since
  | removeClean cid node since =>
    cases taken
    exact .removeClean cid node since
  | removeNode node since j =>
    simp only [advance] at taken
    split at taken
    · cases taken
      exact .removeNode node since j
    · rename_i all
      cases taken
      exact .nodeRemoved node since j (Nat.le_of_not_lt all)
  | pruneStart ttl =>
    cases taken
    exact .pruneStart ttl
  | prune now ttl pass =>
    obtain ⟨r, moved, same⟩ := Option.map_eq_some_iff.mp taken
    cases same
    exact .prune now ttl pass r.2 r.1 (advance_turn moved)

theorem Move.arrive (move : Move S dht clock t dht' t') {cid : Cid} {r : ProviderRecord}
    (listed : r ∈ rows dht'.localProviders cid) :
    r ∈ rows dht.localProviders cid ∨ r.announcedAt = clock := by
  cases move with
  | announce => exact mem_rows_announce listed
  | removeFilter other node since =>
    rw [rows_filterAt] at listed
    split at listed
    · exact .inl (List.mem_filter.mp listed).1
    · exact .inl listed
  | removeClean =>
    rw [rows_cleanAt] at listed
    exact .inl listed
  | removeNode node since j =>
    rw [rows_sweepShard] at listed
    split at listed
    · exact .inl (List.mem_filter.mp listed).1
    · exact .inl listed
  | nodeRemoved | pruneStart => exact .inl listed
  | prune now ttl pass pass' table' turn => exact .inl (turn.subset listed)

theorem nodup_of_filter {records : List ProviderRecord} (keep : ProviderRecord → Bool)
    (once : (records.map ProviderRecord.nodeId).Nodup) :
    ((records.filter keep).map ProviderRecord.nodeId).Nodup :=
  once.sublist (List.filter_sublist.map _)

theorem Move.nodup (move : Move S dht clock t dht' t') {cid : Cid}
    (once : (getProviders dht cid).Nodup) : (getProviders dht' cid).Nodup := by
  cases move with
  | announce other node =>
    rw [getProviders_announce]
    split
    · rename_i fresh
      rw [← List.concat_eq_append]
      exact once.concat fresh.2
    · exact once
  | removeFilter other node since =>
    unfold getProviders
    rw [rows_filterAt]
    split
    · exact nodup_of_filter _ once
    · exact once
  | removeClean =>
    unfold getProviders
    rw [rows_cleanAt]
    exact once
  | removeNode node since j =>
    unfold getProviders
    rw [rows_sweepShard]
    split
    · exact nodup_of_filter _ once
    · exact once
  | nodeRemoved | pruneStart => exact once
  | prune now ttl pass pass' table' turn =>
    unfold getProviders
    rcases turn.rows_subset cid with same | fewer
    · rw [same]
      exact once
    · rw [fewer]
      exact nodup_of_filter _ once

theorem Task.Watches.mono (watches : t.Watches S dht clock)
    (arrive : ∀ cid r, r ∈ rows dht'.localProviders cid →
      r ∈ rows dht.localProviders cid ∨ r.announcedAt = clock) :
    t.Watches S dht' clock := by
  have dated {since : ℕ} (early : since ≤ clock) {cid : Cid} {r : ProviderRecord}
      (before : r ∈ rows dht.localProviders cid → since ≤ r.announcedAt)
      (listed : r ∈ rows dht'.localProviders cid) : since ≤ r.announcedAt := by
    rcases arrive cid r listed with old | new
    · exact before old
    · rwa [new]
  cases t with
  | announce | announced | pruneStart => trivial
  | removeFilter => exact watches
  | removeClean cid node since | removed cid node since =>
    exact ⟨watches.1, fun r listed own => dated watches.1 (fun old => watches.2 r old own) listed⟩
  | removeNode node since j =>
    exact ⟨watches.1, fun cid early r listed own =>
      dated watches.1 (fun old => watches.2 cid early r old own) listed⟩
  | nodeRemoved node since =>
    exact ⟨watches.1, fun cid r listed own =>
      dated watches.1 (fun old => watches.2 cid r old own) listed⟩
  | prune now ttl pass =>
    refine ⟨watches.1, fun positive => (watches.2 positive).mono ?_⟩
    intro cid r stale listed
    rcases arrive cid r listed with old | new
    · exact old
    · have early := watches.1
      unfold Stale at stale
      omega

theorem not_own_of_kept {node : NodeId} {records : List ProviderRecord} {r : ProviderRecord}
    (listed : r ∈ records.filter (isOther node)) : r.nodeId ≠ node :=
  of_decide_eq_true (List.mem_filter.mp listed).2

theorem Move.watches (move : Move S dht clock t dht' t') (watches : t.Watches S dht clock) :
    t'.Watches S dht' clock := by
  cases move with
  | announce => trivial
  | removeFilter cid node since =>
    refine ⟨watches, ?_⟩
    intro r listed own
    rw [rows_filterAt, if_pos rfl] at listed
    exact absurd own (not_own_of_kept listed)
  | removeClean cid node since =>
    refine ⟨watches.1, ?_⟩
    intro r listed
    rw [rows_cleanAt] at listed
    exact watches.2 r listed
  | removeNode node since j =>
    refine ⟨watches.1, ?_⟩
    intro cid early r listed own
    rw [rows_sweepShard] at listed
    split at listed
    · exact absurd own (not_own_of_kept listed)
    · rename_i elsewhere
      exact watches.2 cid (Nat.lt_of_le_of_ne (Nat.le_of_lt_succ early) elsewhere) r listed own
  | nodeRemoved node since j all =>
    exact ⟨watches.1, fun cid => watches.2 cid (Nat.lt_of_lt_of_le (S.below cid) all)⟩
  | pruneStart ttl =>
    refine ⟨le_refl clock, ?_⟩
    intro _ cid r early
    exact absurd early (Nat.not_lt_zero _)
  | prune now ttl pass pass' table' turn =>
    refine ⟨watches.1, fun positive => (watches.2 positive).turn ?_ turn⟩
    intro r stale
    exact decide_eq_false (Nat.not_lt.mpr stale)

theorem Task.Watches.tick {later : ℕ} (watches : t.Watches S dht clock) (after : clock ≤ later) :
    t.Watches S dht later := by
  cases t with
  | announce | announced | pruneStart => trivial
  | removeFilter => exact le_trans watches after
  | removeClean | removed | removeNode | nodeRemoved | prune =>
    exact ⟨le_trans watches.1 after, watches.2⟩

theorem Move.hollow (move : Move S dht clock t dht' t') {cid : Cid}
    (hollow : Hollow dht'.localProviders cid) :
    (Hollow dht.localProviders cid ∨ t'.Cleans S cid) ∧ (t.Cleans S cid → t'.Cleans S cid) := by
  cases move with
  | announce => exact ⟨.inl (hollow_announce hollow), False.elim⟩
  | removeFilter other node since =>
    refine ⟨?_, False.elim⟩
    rcases hollow_filterAt hollow with here | before
    · exact .inr here.symm
    · exact .inl before
  | removeClean other node since =>
    obtain ⟨elsewhere, before⟩ := hollow_cleanAt hollow
    exact ⟨.inl before, fun here => absurd here.symm elsewhere⟩
  | removeNode node since j => exact ⟨.inl (hollow_sweepShard hollow).2, False.elim⟩
  | nodeRemoved => exact ⟨.inl hollow, False.elim⟩
  | pruneStart => exact ⟨.inl hollow, False.elim⟩
  | prune now ttl pass pass' table' turn => exact turn.hollow hollow

end Moves

structure Sound (s : State) : Prop where
  once : ∀ cid, (getProviders s.dht cid).Nodup
  watched : ∀ t ∈ s.tasks, t.Watches S s.dht s.clock
  owned : ∀ cid, Hollow s.dht.localProviders cid → ∃ t ∈ s.tasks, t.Cleans S cid

section Runs

variable {S} {s s' : State}

theorem sound_new : Sound S .new := by
  refine ⟨fun cid => List.nodup_nil, ?_, ?_⟩
  · intro t listed
    cases listed
  · intro cid hollow
    unfold Hollow State.new at hollow
    rw [Finmap.lookup_empty] at hollow
    cases hollow

theorem Call.start_watches (c : Call) (dht : DhtProviders) (clock : ℕ) :
    (c.start clock).Watches S dht clock := by
  cases c with
  | announceProvider | pruneStale => trivial
  | removeProvider => exact le_refl clock
  | removeNode => exact ⟨le_refl clock, fun cid early => absurd early (Nat.not_lt_zero _)⟩

theorem step_sound {l : Label} (sound : Sound S s) (taken : step S s l = some s') : Sound S s' := by
  cases l with
  | call c =>
    cases taken
    refine ⟨sound.once, ?_, ?_⟩
    · intro t listed
      rcases List.mem_append.mp listed with old | new
      · exact sound.watched t old
      · rw [List.mem_singleton.mp new]
        exact c.start_watches s.dht s.clock
    · intro cid hollow
      obtain ⟨t, listed, cleans⟩ := sound.owned cid hollow
      exact ⟨t, List.mem_append_left _ listed, cleans⟩
  | tick elapsed =>
    cases taken
    exact ⟨sound.once, fun t listed => (sound.watched t listed).tick (Nat.le_add_right _ _), sound.owned⟩
  | advance i found =>
    obtain ⟨t, there, moved⟩ := Option.bind_eq_some_iff.mp taken
    obtain ⟨⟨dht', t'⟩, advanced, same⟩ := Option.map_eq_some_iff.mp moved
    cases same
    have move := advance_move advanced
    have listed := List.mem_of_getElem? there
    refine ⟨fun cid => move.nodup (sound.once cid), ?_, ?_⟩
    · intro u among
      rcases mem_set_cases among with rfl | ⟨j, _, place⟩
      · exact move.watches (sound.watched t listed)
      · exact (sound.watched u (List.mem_of_getElem? place)).mono fun cid r => move.arrive
    · intro cid hollow
      obtain ⟨before, keeps⟩ := move.hollow hollow
      rcases before with empty | mine
      · exact exists_mem_set there keeps (sound.owned cid empty)
      · exact ⟨t', mem_set_next there, mine⟩

theorem reach_sound (reach : Reach (step S) anyStep .new s) : Sound S s :=
  reach.invariant (sound_new) fun _ _ _ sound _ taken => step_sound sound taken

theorem Task.not_cleans_of_over {t : Task} (finished : t.isOver = true) (cid : Cid) : ¬ t.Cleans S cid := by
  cases t with
  | announce | removeFilter | removeClean | removeNode | pruneStart => cases finished
  | announced | removed | nodeRemoved => exact id
  | prune now ttl pass =>
    cases pass with
    | collect | visit | sweep => cases finished
    | done => exact id

/-- In whatever order the calls take their locks: no content lists a node twice. What is left of a
node after its removal was announced since the removal was called, what is left after a pruning
pass is younger than the time to live by the clock of that pass, and no content is left without
providers once all calls have returned. -/
theorem provider_table_settles (reach : Reach (step S) anyStep .new s) :
    (∀ cid, (getProviders s.dht cid).Nodup) ∧
    (∀ cid, ∀ r ∈ rows s.dht.localProviders cid,
      (∀ since, .removed cid r.nodeId since ∈ s.tasks → since ≤ r.announcedAt) ∧
      (∀ since, .nodeRemoved r.nodeId since ∈ s.tasks → since ≤ r.announcedAt) ∧
      (∀ now ttl pruned, .prune now ttl (.done pruned) ∈ s.tasks → 0 < ttl →
        now - r.announcedAt < ttl)) ∧
    ((∀ t ∈ s.tasks, t.isOver = true) → ∀ cid, cid ∈ s.dht.localProviders → getProviders s.dht cid ≠ []) := by
  have sound := reach_sound reach
  refine ⟨sound.once, ?_, ?_⟩
  · intro cid r listed
    refine ⟨?_, ?_, ?_⟩
    · intro since returned
      exact (sound.watched _ returned).2 r listed rfl
    · intro since returned
      exact (sound.watched _ returned).2 cid r listed rfl
    · intro now ttl pruned returned positive
      exact Nat.lt_of_not_le ((sound.watched _ returned).2 positive cid r listed)
  · intro quiet cid there empty
    obtain ⟨records, found⟩ := Finmap.mem_iff.mp there
    have none_ : records = [] := by
      unfold getProviders rows at empty
      rw [found] at empty
      exact List.map_eq_nil_iff.mp empty
    rw [none_] at found
    obtain ⟨t, listed, cleans⟩ := sound.owned cid found
    exact Task.not_cleans_of_over (quiet t listed) cid cleans

def twoShards : Sharding Cid :=
  ⟨2, fun cid => if cid = ⟨Bytes32.fill 1⟩ then 1 else 0, fun cid => by
    split <;> decide⟩

theorem provider_table_settles_race :
    ∃ s, Reach (step twoShards) anyStep .new s ∧
      getProviders s.dht ⟨Bytes32.fill 1⟩ = [⟨Bytes32.fill 3⟩] ∧
      ∀ r ∈ rows s.dht.localProviders ⟨Bytes32.fill 1⟩, 10 - r.announcedAt < 5 := by
  let content : Cid := ⟨Bytes32.fill 1⟩
  obtain ⟨s, reach, left, returned⟩ :
      ∃ s, Reach (step twoShards) anyStep .new s ∧
        getProviders s.dht content = [⟨Bytes32.fill 3⟩] ∧
        Task.prune 10 5 (.done 1) ∈ s.tasks :=
    exists_reach _ _ [.call (.announceProvider content ⟨Bytes32.fill 2⟩), .advance 0 [], .tick 10,
      .call (.pruneStale 5), .call (.announceProvider content ⟨Bytes32.fill 3⟩), .advance 1 [],
      .advance 1 [], .advance 1 [content], .advance 2 [], .advance 1 [], .advance 1 [], .advance 1 [],
      .advance 1 [], .advance 1 [], .advance 1 []] (by decide +kernel)
  exact ⟨s, reach, left, fun r listed =>
    ((provider_table_settles reach).2.1 content r listed).2.2 10 5 1 returned (by decide)⟩

/-- A step that takes a node off the providers of a content is one of a call that was to do so. -/
def Takes (S : Sharding Cid) (dht : DhtProviders) (cid : Cid) (node : NodeId) : Task → Prop
  | .removeFilter other gone _ => other = cid ∧ gone = node
  | .removeNode gone _ j => gone = node ∧ S.shard cid = j
  | .prune now ttl _ => ∃ r ∈ rows dht.localProviders cid, r.nodeId = node ∧ ttl ≤ now - r.announcedAt
  | _ => False

theorem mem_nodes_filter {keep : ProviderRecord → Bool} {records : List ProviderRecord} {node : NodeId}
    (listed : node ∈ records.map ProviderRecord.nodeId)
    (gone : node ∉ (records.filter keep).map ProviderRecord.nodeId) :
    ∃ r ∈ records, r.nodeId = node ∧ keep r = false := by
  obtain ⟨r, member, own⟩ := List.mem_map.mp listed
  refine ⟨r, member, own, ?_⟩
  by_contra kept
  exact gone (List.mem_map.mpr ⟨r, List.mem_filter.mpr ⟨member, Bool.eq_true_of_not_eq_false kept⟩, own⟩)

theorem Move.takes {dht dht' : DhtProviders} {clock : ℕ} {t t' : Task} {cid : Cid} {node : NodeId}
    (move : Move S dht clock t dht' t') (listed : node ∈ getProviders dht cid)
    (gone : node ∉ getProviders dht' cid) : Takes S dht cid node t := by
  cases move with
  | announce other new =>
    rw [getProviders_announce] at gone
    split at gone
    · exact absurd (List.mem_append_left _ listed) gone
    · exact absurd listed gone
  | removeFilter other out since =>
    unfold getProviders at gone
    rw [rows_filterAt] at gone
    split at gone
    · rename_i here
      obtain ⟨r, _, own, out_⟩ := mem_nodes_filter listed gone
      have is : r.nodeId = out := not_not.mp (of_decide_eq_false out_)
      exact ⟨here.symm, is.symm.trans own⟩
    · exact absurd listed gone
  | removeClean =>
    unfold getProviders at gone
    rw [rows_cleanAt] at gone
    exact absurd listed gone
  | removeNode out since j =>
    unfold getProviders at gone
    rw [rows_sweepShard] at gone
    split at gone
    · rename_i here
      obtain ⟨r, _, own, out_⟩ := mem_nodes_filter listed gone
      have is : r.nodeId = out := not_not.mp (of_decide_eq_false out_)
      exact ⟨is.symm.trans own, here⟩
    · exact absurd listed gone
  | nodeRemoved | pruneStart => exact absurd listed gone
  | prune now ttl pass pass' table' turn =>
    unfold getProviders at gone
    rcases turn.rows_subset cid with same | fewer
    · rw [same] at gone
      exact absurd listed gone
    · rw [fewer] at gone
      obtain ⟨r, member, own, old⟩ := mem_nodes_filter listed gone
      exact ⟨r, member, own, Nat.le_of_not_lt (of_decide_eq_false old)⟩

/-- A provider that was listed and no longer is was taken off by a removal of it, by the removal
of its node, or by a pass at whose start its last announcement was past the time to live. -/
theorem provider_lost_by {t : State} {cid : Cid} {node : NodeId}
    (later : Reach (step S) anyStep s t) (listed : node ∈ getProviders s.dht cid)
    (gone : node ∉ getProviders t.dht cid) :
    ∃ u v i found task, Reach (step S) anyStep s u ∧ step S u (.advance i found) = some v ∧
      Reach (step S) anyStep v t ∧ u.tasks[i]? = some task ∧ Takes S u.dht cid node task := by
  obtain ⟨u, l, v, before, _, taken, after, held, lost⟩ := later.exists_lost
    (P := fun s => node ∈ getProviders s.dht cid) listed gone
  cases l with
  | call c =>
    cases taken
    exact absurd held lost
  | tick elapsed =>
    cases taken
    exact absurd held lost
  | advance i found =>
    obtain ⟨task, there, moved⟩ := Option.bind_eq_some_iff.mp taken
    obtain ⟨⟨dht', task'⟩, advanced, same⟩ := Option.map_eq_some_iff.mp moved
    refine ⟨u, v, i, found, task, before, taken, after, there, ?_⟩
    cases same
    exact (advance_move advanced).takes held lost

theorem provider_lost_by_death :
    ∃ s t, Reach (step twoShards) anyStep s t ∧ ∃ u v i found task,
      Reach (step twoShards) anyStep s u ∧ step twoShards u (.advance i found) = some v ∧
      Reach (step twoShards) anyStep v t ∧ u.tasks[i]? = some task ∧
      Takes twoShards u.dht ⟨Bytes32.fill 1⟩ ⟨Bytes32.fill 2⟩ task := by
  let content : Cid := ⟨Bytes32.fill 1⟩
  let node : NodeId := ⟨Bytes32.fill 2⟩
  obtain ⟨s, t, _, later, listed, gone⟩ :
      ∃ s t, Reach (step twoShards) anyStep .new s ∧ Reach (step twoShards) anyStep s t ∧
        node ∈ getProviders s.dht content ∧ node ∉ getProviders t.dht content :=
    exists_reach_reach _ _ _ [.call (.announceProvider content node), .advance 0 []]
      [.call (.removeNode node), .call (.announceProvider content node), .advance 1 [], .advance 2 [],
        .advance 1 [], .advance 1 []] (by decide +kernel)
  exact ⟨s, t, later, provider_lost_by later listed gone⟩

end Runs

end Craftec.Net.Providers
