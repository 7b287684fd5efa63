/- GID: Craftec/Net/Waiters
   generality: I
   digest: The rendezvous of piece requests and responses under any interleaving of its calls. -/

import Mathlib
import Craftec.Library.Run
import Craftec.Library.ShardedTable
import Craftec.Library.Tally
import Craftec.Node.Handler
import Craftec.Types.Digest
import Craftec.Types.Piece

set_option autoImplicit false
set_option relaxedAutoImplicit false

namespace Craftec.Net.Waiters

open Craftec.Library.Run (Reach Reach.invariant anyStep exists_mem_set exists_reach mem_set_cases
  mem_set_next reach_step)
open Craftec.Library.ShardedTable (Covers Hollow Pass Sharding Turn advance_turn rows)
open Craftec.Library.Tally (tally tally_concat tally_eq_zero_iff tally_set)
open Craftec.Node.Handler (PendingEntry PendingFetches)
open Craftec.Types.Digest (Blake3 Bytes32 Cid)
open Craftec.Types.Piece (CodedPiece)

/-- The receiving end of a oneshot channel. `cid` and `since` are what it was registered for and
when, which no step reads. -/
structure Receiver where
  cid : Cid
  since : ℕ
  dropped : Bool

/-- `is_closed` of the sending end. -/
def isClosed (receivers : List Receiver) (waiter : ℕ) : Bool :=
  (receivers[waiter]?).any Receiver.dropped

/-- What `retain` keeps: neither too old at `now` nor without a receiver. -/
def isLive (receivers : List Receiver) (now maxAge : ℕ) (entry : PendingEntry) : Bool :=
  !decide (maxAge ≤ now - entry.registeredAt) && !isClosed receivers entry.waiter

/-- Where a call stands. A call of `resolve` owns the entries it has removed; those in `served`
are sent to, those in `todo` are not yet. -/
inductive Task where
  | resolve (cid : Cid) (piece : CodedPiece)
  | send (cid : Cid) (piece : CodedPiece) (served todo : List PendingEntry)
  | resolved (cid : Cid) (piece : CodedPiece) (served : List PendingEntry)
  | pruneStart (maxAge : ℕ)
  | prune (now maxAge : ℕ) (pass : Pass Cid)
  deriving DecidableEq

def Task.isOver : Task → Bool
  | .resolved _ _ _ | .prune _ _ (.done _) => true
  | _ => false

inductive Call where
  | resolve (cid : Cid) (piece : CodedPiece)
  | pruneStale (maxAge : ℕ)

def Call.start : Call → Task
  | .resolve cid piece => .resolve cid piece
  | .pruneStale maxAge => .pruneStart maxAge

structure State where
  pending : PendingFetches
  receivers : List Receiver
  clock : ℕ
  tasks : List Task

def State.new : State := ⟨.new, [], 0, []⟩

def send (pending : PendingFetches) (receivers : List Receiver) (waiter : ℕ) (piece : CodedPiece) :
    PendingFetches :=
  if isClosed receivers waiter then pending
  else { pending with sent := pending.sent ++ [(waiter, piece)] }

variable (S : Sharding Cid)

/-- One step of a call; `found` is the order in which a shard lists its keys. -/
def advance (pending : PendingFetches) (receivers : List Receiver) (clock : ℕ) (found : List Cid) :
    Task → Option (PendingFetches × Task)
  | .resolve cid piece =>
    match pending.waiters.lookup cid with
    | some entries =>
      some ({ pending with waiters := pending.waiters.erase cid }, .send cid piece [] entries)
    | none => some (pending, .resolved cid piece [])
  | .send cid piece served [] => some (pending, .resolved cid piece served)
  | .send cid piece served (entry :: todo) =>
    some (send pending receivers entry.waiter piece, .send cid piece (served ++ [entry]) todo)
  | .resolved _ _ _ => none
  | .pruneStart maxAge => some (pending, .prune clock maxAge (.collect 0 []))
  | .prune now maxAge pass =>
    (Library.ShardedTable.advance S (isLive receivers now maxAge) found pending.waiters pass).map
      fun r => ({ pending with waiters := r.1 }, .prune now maxAge r.2)

inductive Label where
  | register (cid : Cid)
  | drop (waiter : ℕ)
  | call (c : Call)
  | advance (i : ℕ) (found : List Cid)
  | tick (elapsed : ℕ)

def step (s : State) : Label → Option State
  | .register cid =>
    some { s with
      pending := s.pending.register s.clock s.receivers.length cid
      receivers := s.receivers ++ [⟨cid, s.clock, false⟩] }
  | .drop waiter =>
    some { s with receivers := s.receivers.modify waiter fun rx => { rx with dropped := true } }
  | .call c => some { s with tasks := s.tasks ++ [c.start] }
  | .advance i found =>
    (s.tasks[i]?).bind fun t => (advance S s.pending s.receivers s.clock found t).map fun r =>
      { s with pending := r.1, tasks := s.tasks.set i r.2 }
  | .tick elapsed => some { s with clock := s.clock + elapsed }

section Undisturbed

variable {S}

theorem reach_sends {s : State} {i : ℕ} {cid : Cid} {piece : CodedPiece} {served : List PendingEntry}
    (todo : List PendingEntry) (here : s.tasks[i]? = some (.send cid piece served todo)) :
    Reach (step S) anyStep s
      { s with
        pending := { s.pending with
          sent := s.pending.sent ++ (todo.filter fun e => !isClosed s.receivers e.waiter).map fun e =>
            (e.waiter, piece) }
        tasks := s.tasks.set i (.resolved cid piece (served ++ todo)) } := by
  induction todo generalizing s served with
  | nil =>
    refine reach_step trivial (a := .advance i []) ?_
    simp [step, here, advance]
  | cons entry todo ih =>
    have sends : step S s (.advance i []) = some { s with
        pending := send s.pending s.receivers entry.waiter piece
        tasks := s.tasks.set i (.send cid piece (served ++ [entry]) todo) } := by
      simp [step, here, advance]
    have there : (s.tasks.set i (.send cid piece (served ++ [entry]) todo))[i]? =
        some (.send cid piece (served ++ [entry]) todo) :=
      List.getElem?_set_self (List.getElem?_eq_some_iff.mp here).1
    refine (reach_step trivial sends).trans (?_ : Reach (step S) anyStep _ _)
    have rest := @ih { s with
        pending := send s.pending s.receivers entry.waiter piece
        tasks := s.tasks.set i (.send cid piece (served ++ [entry]) todo) } (served ++ [entry]) there
    cases closed : isClosed s.receivers entry.waiter with
    | true => simpa [send, closed, List.set_set] using rest
    | false => simpa [send, closed, List.set_set] using rest

/-- A call of `resolve` that nobody interrupts does what the handler's one step does. -/
theorem reach_resolve {s : State} {i : ℕ} {cid : Cid} {piece : CodedPiece}
    (here : s.tasks[i]? = some (.resolve cid piece)) :
    Reach (step S) anyStep s
      { s with
        pending := s.pending.resolve (isClosed s.receivers) cid piece
        tasks := s.tasks.set i (.resolved cid piece (s.pending.waiting cid)) } := by
  cases found : s.pending.waiters.lookup cid with
  | none =>
    refine reach_step trivial (a := .advance i []) ?_
    simp [step, here, advance, found, PendingFetches.resolve, PendingFetches.waiting]
  | some entries =>
    have removes : step S s (.advance i []) = some { s with
        pending := { s.pending with waiters := s.pending.waiters.erase cid }
        tasks := s.tasks.set i (.send cid piece [] entries) } := by
      simp [step, here, advance, found]
    have there : (s.tasks.set i (.send cid piece [] entries))[i]? = some (.send cid piece [] entries) :=
      List.getElem?_set_self (List.getElem?_eq_some_iff.mp here).1
    have sends := @reach_sends S { s with
        pending := { s.pending with waiters := s.pending.waiters.erase cid }
        tasks := s.tasks.set i (.send cid piece [] entries) } i cid piece [] entries there
    refine (reach_step trivial removes).trans (?_ : Reach (step S) anyStep _ _)
    simpa [PendingFetches.resolve, PendingFetches.waiting, found, List.set_set] using sends

end Undisturbed

/-- The entry is the sending end of a receiver that was registered for `cid`. -/
def Registered (receivers : List Receiver) (cid : Cid) (entry : PendingEntry) : Prop :=
  ∃ rx, receivers[entry.waiter]? = some rx ∧ rx.cid = cid ∧ rx.since = entry.registeredAt

def Stale (now maxAge : ℕ) (entry : PendingEntry) : Prop := maxAge ≤ now - entry.registeredAt

def Task.Fits (s : State) : Task → Prop
  | .send cid piece served todo =>
    (∀ e ∈ todo, Registered s.receivers cid e) ∧
    ∀ e ∈ served, (e.waiter, piece) ∈ s.pending.sent ∨ isClosed s.receivers e.waiter = true
  | .resolved _ piece served =>
    ∀ e ∈ served, (e.waiter, piece) ∈ s.pending.sent ∨ isClosed s.receivers e.waiter = true
  | .prune now maxAge pass =>
    now ≤ s.clock ∧ (0 < maxAge → Covers S (Stale now maxAge) s.pending.waiters pass)
  | .resolve _ _ | .pruneStart _ => True

/-- A call that delivers `piece` to those who wait for `cid`. -/
def Task.Resolves (cid : Cid) (piece : CodedPiece) : Task → Prop
  | .resolve c p | .send c p _ _ | .resolved c p _ => c = cid ∧ p = piece
  | _ => False

/-- A pass for which an entry of the time `since` is too old. -/
def Task.Expires (since : ℕ) : Task → Prop
  | .prune now maxAge _ => maxAge ≤ now - since
  | _ => False

def Task.Cleans (cid : Cid) : Task → Prop
  | .prune _ _ pass => pass.Cleans S cid
  | _ => False

def Task.holds (waiter : ℕ) : Task → ℕ
  | .send _ _ _ todo => todo.countP fun e => e.waiter = waiter
  | _ => 0

def filed (pending : PendingFetches) (cid : Cid) (waiter : ℕ) : ℕ :=
  (rows pending.waiters cid).countP fun e => e.waiter = waiter

def delivered (pending : PendingFetches) (waiter : ℕ) : ℕ :=
  pending.sent.countP fun d => d.1 = waiter

/-- The number of places in which a waiter is found: in the table, in the hands of calls, and among
the pieces delivered. -/
def State.places (s : State) (cid : Cid) (waiter : ℕ) : ℕ :=
  filed s.pending cid waiter + tally (Task.holds waiter) s.tasks + delivered s.pending waiter

section Moves

variable {S} {pending pending' : PendingFetches} {receivers : List Receiver} {clock : ℕ}
  {found : List Cid} {t t' : Task}

/-- The steps of calls, with what each was decided by. -/
inductive Move (S : Sharding Cid) (pending : PendingFetches) (receivers : List Receiver) (clock : ℕ) :
    Task → PendingFetches → Task → Prop
  | remove (cid : Cid) (piece : CodedPiece) (entries : List PendingEntry)
    (found : pending.waiters.lookup cid = some entries) :
    Move S pending receivers clock (.resolve cid piece)
      { pending with waiters := pending.waiters.erase cid } (.send cid piece [] entries)
  | missing (cid : Cid) (piece : CodedPiece) (none_ : pending.waiters.lookup cid = none) :
    Move S pending receivers clock (.resolve cid piece) pending (.resolved cid piece [])
  | send (cid : Cid) (piece : CodedPiece) (served : List PendingEntry) (entry : PendingEntry)
    (todo : List PendingEntry) :
    Move S pending receivers clock (.send cid piece served (entry :: todo))
      (send pending receivers entry.waiter piece) (.send cid piece (served ++ [entry]) todo)
  | resolved (cid : Cid) (piece : CodedPiece) (served : List PendingEntry) :
    Move S pending receivers clock (.send cid piece served []) pending (.resolved cid piece served)
  | pruneStart (maxAge : ℕ) :
    Move S pending receivers clock (.pruneStart maxAge) pending (.prune clock maxAge (.collect 0 []))
  | prune (now maxAge : ℕ) (pass pass' : Pass Cid) (table' : Library.ShardedTable.Table Cid PendingEntry)
    (turn : Turn S (isLive receivers now maxAge) pending.waiters pass table' pass') :
    Move S pending receivers clock (.prune now maxAge pass) { pending with waiters := table' }
      (.prune now maxAge pass')

theorem advance_move (taken : advance S pending receivers clock found t = some (pending', t')) :
    Move S pending receivers clock t pending' t' := by
  cases t with
  | resolve cid piece =>
    simp only [advance] at taken
    split at taken
    · rename_i entries there
      cases taken
      exact .remove cid piece entries there
    · rename_i none_
      cases taken
      exact .missing cid piece none_
  | send cid piece served todo =>
    cases todo with
    | nil =>
      cases taken
      exact .resolved cid piece served
    | cons entry todo =>
      cases taken
      exact .send cid piece served entry todo
  | resolved => cases taken
  | pruneStart maxAge =>
    cases taken
    exact .pruneStart maxAge
  | prune now maxAge pass =>
    obtain ⟨r, moved, same⟩ := Option.map_eq_some_iff.mp taken
    cases same
    exact .prune now maxAge pass r.2 r.1 (advance_turn moved)

theorem rows_erase (m : Library.ShardedTable.Table Cid PendingEntry) (cid other : Cid) :
    rows (m.erase cid) other = if other = cid then [] else rows m other := by
  unfold rows
  split
  · rename_i here
    rw [here, Finmap.lookup_erase]
    rfl
  · rename_i apart
    rw [Finmap.lookup_erase_ne apart]

theorem waiters_send (waiter : ℕ) (piece : CodedPiece) :
    (send pending receivers waiter piece).waiters = pending.waiters := by
  unfold send
  split <;> rfl

theorem sent_send (waiter : ℕ) (piece : CodedPiece) :
    (send pending receivers waiter piece).sent =
      if isClosed receivers waiter then pending.sent else pending.sent ++ [(waiter, piece)] := by
  unfold send
  split <;> rfl

theorem Move.subset (move : Move S pending receivers clock t pending' t') {cid : Cid}
    {e : PendingEntry} (listed : e ∈ rows pending'.waiters cid) : e ∈ rows pending.waiters cid := by
  cases move with
  | remove other piece entries there =>
    rw [rows_erase] at listed
    split at listed
    · cases listed
    · exact listed
  | send other piece served entry todo => rwa [waiters_send] at listed
  | missing | resolved | pruneStart => exact listed
  | prune now maxAge pass pass' table' turn => exact turn.subset listed

theorem Move.sent_subset (move : Move S pending receivers clock t pending' t') :
    pending.sent ⊆ pending'.sent := by
  cases move with
  | send other piece served entry todo =>
    rw [sent_send]
    split
    · exact List.Subset.refl _
    · exact List.subset_append_left _ _
  | remove | missing | resolved | pruneStart | prune => exact List.Subset.refl _

theorem Move.resolves (move : Move S pending receivers clock t pending' t') (cid : Cid)
    (piece : CodedPiece) (resolves : t.Resolves cid piece) : t'.Resolves cid piece := by
  cases move with
  | remove | missing | send | resolved => exact resolves
  | pruneStart | prune => exact resolves.elim

theorem Move.expires (move : Move S pending receivers clock t pending' t') (since : ℕ)
    (expires : t.Expires since) : t'.Expires since := by
  cases move with
  | prune => exact expires
  | remove | missing | send | resolved | pruneStart => exact expires.elim

theorem Move.origin (move : Move S pending receivers clock t pending' t') {waiter : ℕ}
    {piece : CodedPiece} (new : (waiter, piece) ∈ pending'.sent) :
    (waiter, piece) ∈ pending.sent ∨
      ∃ cid served entry todo, t = .send cid piece served (entry :: todo) ∧ entry.waiter = waiter := by
  cases move with
  | send cid p served entry todo =>
    rw [sent_send] at new
    split at new
    · exact .inl new
    · rcases List.mem_append.mp new with old | here
      · exact .inl old
      · cases List.mem_singleton.mp here
        exact .inr ⟨cid, served, entry, todo, rfl, rfl⟩
  | remove | missing | resolved | pruneStart | prune => exact .inl new

theorem Move.hollow (move : Move S pending receivers clock t pending' t') {cid : Cid}
    (hollow : Hollow pending'.waiters cid) :
    (Hollow pending.waiters cid ∨ t'.Cleans S cid) ∧ (t.Cleans S cid → t'.Cleans S cid) := by
  cases move with
  | remove other piece entries there =>
    refine ⟨.inl ?_, False.elim⟩
    by_cases here : cid = other
    · unfold Hollow at hollow
      rw [here, Finmap.lookup_erase] at hollow
      cases hollow
    · unfold Hollow at hollow ⊢
      rwa [Finmap.lookup_erase_ne here] at hollow
  | send other piece served entry todo =>
    rw [waiters_send] at hollow
    exact ⟨.inl hollow, False.elim⟩
  | missing | resolved | pruneStart => exact ⟨.inl hollow, False.elim⟩
  | prune now maxAge pass pass' table' turn => exact turn.hollow hollow

theorem filed_erase (cid other : Cid) (waiter : ℕ) :
    filed { pending with waiters := pending.waiters.erase cid } other waiter =
      if other = cid then 0 else filed pending other waiter := by
  unfold filed
  rw [rows_erase]
  split <;> rfl

theorem delivered_send (waiter other : ℕ) (piece : CodedPiece) :
    delivered (send pending receivers waiter piece) other =
      delivered pending other +
        if waiter = other ∧ isClosed receivers waiter = false then 1 else 0 := by
  unfold delivered
  rw [sent_send]
  cases closed : isClosed receivers waiter with
  | true => simp
  | false =>
    by_cases same : waiter = other <;> simp [List.countP_append, same]

theorem countP_filter_cases (keep : PendingEntry → Bool) (waiter : ℕ) (l : List PendingEntry) :
    (l.filter keep).countP (fun e => e.waiter = waiter) ≤ l.countP (fun e => e.waiter = waiter) ∧
    ((l.filter keep).countP (fun e => e.waiter = waiter) = l.countP (fun e => e.waiter = waiter) ∨
      ∃ e ∈ l, e.waiter = waiter ∧ keep e = false) := by
  refine ⟨List.filter_sublist.countP_le, ?_⟩
  by_cases lost : ∃ e ∈ l, e.waiter = waiter ∧ keep e = false
  · exact .inr lost
  · left
    rw [List.countP_filter]
    refine List.countP_congr fun e listed => ?_
    have kept : e.waiter = waiter → keep e = true := by
      intro own
      by_contra out
      exact lost ⟨e, listed, own, Bool.eq_false_of_not_eq_true out⟩
    simpa using kept

theorem Move.places (move : Move S pending receivers clock t pending' t') {waiter : ℕ} {rx : Receiver}
    (its : receivers[waiter]? = some rx)
    (tabled : ∀ cid, ∀ e ∈ rows pending.waiters cid, Registered receivers cid e) :
    let before := filed pending rx.cid waiter + t.holds waiter + delivered pending waiter
    let after := filed pending' rx.cid waiter + t'.holds waiter + delivered pending' waiter
    after ≤ before ∧ (after = before ∨ rx.dropped = true ∨ t'.Expires rx.since) := by
  have closed : isClosed receivers waiter = rx.dropped := by
    unfold isClosed
    rw [its]
    rfl
  cases move with
  | missing | resolved | pruneStart => exact ⟨le_refl _, .inl rfl⟩
  | remove cid piece entries there =>
    have entered : rows pending.waiters cid = entries := by
      unfold rows
      rw [there]
      rfl
    have elsewhere : rx.cid ≠ cid → entries.countP (fun e => e.waiter = waiter) = 0 := by
      intro apart
      refine List.countP_eq_zero.mpr fun e listed own => ?_
      obtain ⟨rx', its', same, _⟩ := tabled cid e (entered ▸ listed)
      rw [of_decide_eq_true own, its] at its'
      cases its'
      exact apart same
    have own : rx.cid = cid → filed pending rx.cid waiter =
        entries.countP (fun e => e.waiter = waiter) := by
      intro same
      rw [filed, same, entered]
    simp only [filed_erase, Task.holds, delivered]
    split
    · rename_i same
      rw [own same]
      exact ⟨by omega, .inl (by omega)⟩
    · rename_i apart
      rw [elsewhere apart]
      exact ⟨le_refl _, .inl rfl⟩
  | send cid piece served entry todo =>
    have table : filed (Waiters.send pending receivers entry.waiter piece) rx.cid waiter =
        filed pending rx.cid waiter := by
      unfold filed
      rw [waiters_send]
    simp only [table, delivered_send, Task.holds, List.countP_cons, decide_eq_true_eq]
    by_cases own : entry.waiter = waiter
    · rw [own, closed]
      cases rx.dropped with
      | true => exact ⟨by simp, .inr (.inl rfl)⟩
      | false =>
        simp only [and_self, if_true]
        exact ⟨by omega, .inl (by omega)⟩
    · rw [if_neg own, if_neg fun both => own both.1]
      exact ⟨le_refl _, .inl rfl⟩
  | prune now maxAge pass pass' table' turn =>
    have counts := countP_filter_cases (isLive receivers now maxAge) waiter
      (rows pending.waiters rx.cid)
    simp only [filed, Task.holds, delivered]
    rcases turn.rows_subset rx.cid with same | fewer
    · rw [same]
      exact ⟨le_refl _, .inl rfl⟩
    · rw [fewer]
      refine ⟨by omega, ?_⟩
      rcases counts.2 with same | ⟨e, listed, own, out⟩
      · rw [same]
        exact .inl rfl
      · obtain ⟨rx', its', _, dated⟩ := tabled rx.cid e listed
        rw [own, its] at its'
        cases its'
        unfold isLive at out
        rw [own, closed, ← dated] at out
        rcases Bool.and_eq_false_iff.mp out with old | gone
        · have aged : maxAge ≤ now - rx.since := by simpa using old
          exact .inr (.inr aged)
        · have shut : rx.dropped = true := by simpa using gone
          exact .inr (.inl shut)

end Moves

structure Onward (s s' : State) : Prop where
  clock : s.clock ≤ s'.clock
  sent : s.pending.sent ⊆ s'.pending.sent
  registered : ∀ cid e, Registered s.receivers cid e → Registered s'.receivers cid e
  closed : ∀ w, isClosed s.receivers w = true → isClosed s'.receivers w = true
  arrive : ∀ cid, ∀ e ∈ rows s'.pending.waiters cid,
    e ∈ rows s.pending.waiters cid ∨ e.registeredAt = s.clock

section Onwards

variable {S} {s s' : State}

theorem Task.Fits.mono {t : Task} (fits : t.Fits S s) (onward : Onward s s') : t.Fits S s' := by
  have kept {piece : CodedPiece} {served : List PendingEntry}
      (all : ∀ e ∈ served, (e.waiter, piece) ∈ s.pending.sent ∨ isClosed s.receivers e.waiter = true) :
      ∀ e ∈ served, (e.waiter, piece) ∈ s'.pending.sent ∨ isClosed s'.receivers e.waiter = true := by
    intro e listed
    exact (all e listed).imp (fun there => onward.sent there) (onward.closed _)
  cases t with
  | resolve | pruneStart => trivial
  | send cid piece served todo =>
    exact ⟨fun e listed => onward.registered cid e (fits.1 e listed), kept fits.2⟩
  | resolved cid piece served => exact kept fits
  | prune now maxAge pass =>
    refine ⟨le_trans fits.1 onward.clock, fun positive => (fits.2 positive).mono ?_⟩
    intro cid e stale listed
    rcases onward.arrive cid e listed with old | new
    · exact old
    · have early := fits.1
      unfold Stale at stale
      omega

theorem waiting_register (pending : PendingFetches) (now waiter : ℕ) (cid other : Cid) :
    rows (pending.register now waiter cid).waiters other =
      if other = cid then rows pending.waiters other ++ [⟨waiter, now⟩] else rows pending.waiters other := by
  unfold rows PendingFetches.register
  split
  · rename_i here
    rw [here, Finmap.lookup_insert]
    rfl
  · rename_i apart
    rw [Finmap.lookup_insert_of_ne _ apart]

theorem receiver_append {receivers : List Receiver} {new rx : Receiver} {w : ℕ}
    (its : (receivers ++ [new])[w]? = some rx) :
    receivers[w]? = some rx ∨ w = receivers.length ∧ rx = new := by
  rcases Nat.lt_trichotomy w receivers.length with less | same | more
  · rw [List.getElem?_append_left less] at its
    exact .inl its
  · rw [same, List.getElem?_concat_length] at its
    exact .inr ⟨same, (Option.some.inj its).symm⟩
  · rw [List.getElem?_eq_none (by simp; omega)] at its
    cases its

theorem receiver_of_append {receivers : List Receiver} {rx : Receiver} {w : ℕ} (new : Receiver)
    (its : receivers[w]? = some rx) : (receivers ++ [new])[w]? = some rx := by
  rw [List.getElem?_append_left (List.getElem?_eq_some_iff.mp its).1]
  exact its

theorem onward_register (s : State) (cid : Cid) :
    Onward s { s with
      pending := s.pending.register s.clock s.receivers.length cid
      receivers := s.receivers ++ [⟨cid, s.clock, false⟩] } := by
  refine ⟨le_refl _, List.Subset.refl _, ?_, ?_, ?_⟩
  · rintro other e ⟨rx, its, rest⟩
    exact ⟨rx, receiver_of_append _ its, rest⟩
  · intro w shut
    unfold isClosed at shut ⊢
    obtain ⟨rx, its, gone⟩ := (Option.any_eq_true _ _).mp shut
    exact (Option.any_eq_true _ _).mpr ⟨rx, receiver_of_append _ its, gone⟩
  · intro other e listed
    rw [waiting_register] at listed
    split at listed
    · rcases List.mem_append.mp listed with old | new
      · exact .inl old
      · rw [List.mem_singleton.mp new]
        exact .inr rfl
    · exact .inl listed

theorem receiver_drop (receivers : List Receiver) (waiter w : ℕ) :
    (receivers.modify waiter fun rx => { rx with dropped := true })[w]? =
      (receivers[w]?).map fun rx => { rx with dropped := rx.dropped || decide (waiter = w) } := by
  rw [List.getElem?_modify]
  cases receivers[w]? with
  | none => rfl
  | some rx => by_cases here : waiter = w <;> simp [here]

theorem onward_drop (s : State) (waiter : ℕ) :
    Onward s { s with
      receivers := s.receivers.modify waiter fun rx => { rx with dropped := true } } := by
  refine ⟨le_refl _, List.Subset.refl _, ?_, ?_, fun cid e => .inl⟩
  · rintro cid e ⟨rx, its, same, dated⟩
    refine ⟨{ rx with dropped := rx.dropped || decide (waiter = e.waiter) }, ?_, same, dated⟩
    rw [receiver_drop, its]
    rfl
  · intro w shut
    obtain ⟨rx, its, gone⟩ := (Option.any_eq_true _ _).mp shut
    unfold isClosed
    rw [receiver_drop, its]
    exact Bool.or_eq_true_iff.mpr (.inl gone)

theorem Move.onward {pending' : PendingFetches} {t t' : Task} {tasks' : List Task}
    (move : Move S s.pending s.receivers s.clock t pending' t') :
    Onward s { s with pending := pending', tasks := tasks' } :=
  ⟨le_refl _, move.sent_subset, fun _ _ => id, fun _ => id, fun _ _ listed => .inl (move.subset listed)⟩

end Onwards

structure Sound (s : State) : Prop where
  tabled : ∀ cid, ∀ e ∈ rows s.pending.waiters cid, Registered s.receivers cid e
  fits : ∀ t ∈ s.tasks, t.Fits S s
  origin : ∀ w piece, (w, piece) ∈ s.pending.sent →
    ∃ rx, s.receivers[w]? = some rx ∧ ∃ t ∈ s.tasks, t.Resolves rx.cid piece
  single : ∀ w rx, s.receivers[w]? = some rx → s.places rx.cid w ≤ 1
  kept : ∀ w rx, s.receivers[w]? = some rx →
    s.places rx.cid w = 1 ∨ rx.dropped = true ∨ ∃ t ∈ s.tasks, t.Expires rx.since
  owned : ∀ cid, Hollow s.pending.waiters cid → ∃ t ∈ s.tasks, t.Cleans S cid

section Runs

variable {S} {s s' : State}

theorem Sound.of_new : Sound S .new := by
  have none_ (cid : Cid) : (State.new.pending.waiters.lookup cid) = none := Finmap.lookup_empty cid
  refine ⟨?_, ?_, ?_, ?_, ?_, ?_⟩
  · intro cid e listed
    unfold rows at listed
    rw [none_] at listed
    cases listed
  · intro t listed
    cases listed
  · intro w piece listed
    cases listed
  · intro w rx its
    cases its
  · intro w rx its
    cases its
  · intro cid hollow
    unfold Hollow at hollow
    rw [none_] at hollow
    cases hollow

theorem Sound.places_new (sound : Sound S s) (cid : Cid) : s.places cid s.receivers.length = 0 := by
  have past {rx : Receiver} (its : s.receivers[s.receivers.length]? = some rx) : False := by
    rw [List.getElem?_eq_none (le_refl _)] at its
    cases its
  have table : filed s.pending cid s.receivers.length = 0 := by
    refine List.countP_eq_zero.mpr fun e listed own => ?_
    obtain ⟨rx, its, _⟩ := sound.tabled cid e listed
    rw [of_decide_eq_true own] at its
    exact past its
  have hands : tally (Task.holds s.receivers.length) s.tasks = 0 := by
    refine tally_eq_zero_iff.mpr fun t listed => ?_
    cases t with
    | resolve | resolved | pruneStart | prune => rfl
    | send other piece served todo =>
      refine List.countP_eq_zero.mpr fun e among own => ?_
      obtain ⟨rx, its, _⟩ := (sound.fits _ listed).1 e among
      rw [of_decide_eq_true own] at its
      exact past its
  have sent : delivered s.pending s.receivers.length = 0 := by
    refine List.countP_eq_zero.mpr fun d listed own => ?_
    obtain ⟨rx, its, _⟩ := sound.origin d.1 d.2 listed
    rw [of_decide_eq_true own] at its
    exact past its
  unfold State.places
  omega

theorem filed_register (pending : PendingFetches) (now waiter w : ℕ) (cid other : Cid) :
    filed (pending.register now waiter cid) other w =
      filed pending other w + if other = cid ∧ waiter = w then 1 else 0 := by
  unfold filed
  rw [waiting_register]
  by_cases here : other = cid
  · by_cases own : waiter = w <;> simp [here, own, List.countP_append]
  · simp [here]

theorem sound_register (sound : Sound S s) (cid : Cid) :
    Sound S { s with
      pending := s.pending.register s.clock s.receivers.length cid
      receivers := s.receivers ++ [⟨cid, s.clock, false⟩] } := by
  have onward := onward_register s cid
  have nowhere := sound.places_new
  have placed (other : Cid) (w : ℕ) : State.places { s with
      pending := s.pending.register s.clock s.receivers.length cid
      receivers := s.receivers ++ [⟨cid, s.clock, false⟩] } other w =
        s.places other w + if other = cid ∧ s.receivers.length = w then 1 else 0 := by
    unfold State.places
    rw [filed_register]
    change _ + tally (Task.holds w) s.tasks + delivered s.pending w = _
    omega
  have earlier {w : ℕ} {rx : Receiver} (its : s.receivers[w]? = some rx) : s.receivers.length ≠ w := by
    have := (List.getElem?_eq_some_iff.mp its).1
    omega
  refine ⟨?_, fun t listed => (sound.fits t listed).mono onward, ?_, ?_, ?_, ?_⟩
  · intro other e listed
    rw [waiting_register] at listed
    split at listed
    · rename_i here
      rcases List.mem_append.mp listed with old | new
      · exact onward.registered other e (sound.tabled other e old)
      · rw [List.mem_singleton.mp new]
        exact ⟨_, List.getElem?_concat_length, here.symm, rfl⟩
    · exact onward.registered other e (sound.tabled other e listed)
  · intro w piece listed
    obtain ⟨rx, its, resolved⟩ := sound.origin w piece listed
    exact ⟨rx, receiver_of_append _ its, resolved⟩
  · intro w rx its
    rw [placed]
    rcases receiver_append its with old | ⟨rfl, rfl⟩
    · rw [if_neg fun both => earlier old both.2]
      exact sound.single w rx old
    · rw [if_pos ⟨rfl, rfl⟩, nowhere]
  · intro w rx its
    rw [placed]
    rcases receiver_append its with old | ⟨rfl, rfl⟩
    · rw [if_neg fun both => earlier old both.2]
      exact sound.kept w rx old
    · rw [if_pos ⟨rfl, rfl⟩, nowhere]
      exact .inl rfl
  · intro other hollow
    refine sound.owned other ?_
    unfold Hollow PendingFetches.register at hollow
    by_cases here : other = cid
    · rw [here, Finmap.lookup_insert] at hollow
      simp at hollow
    · rwa [Finmap.lookup_insert_of_ne _ here] at hollow

theorem sound_drop (sound : Sound S s) (waiter : ℕ) :
    Sound S { s with
      receivers := s.receivers.modify waiter fun rx => { rx with dropped := true } } := by
  have onward := onward_drop s waiter
  have before {w : ℕ} {rx : Receiver}
      (its : (s.receivers.modify waiter fun rx => { rx with dropped := true })[w]? = some rx) :
      ∃ old, s.receivers[w]? = some old ∧ rx.cid = old.cid ∧ rx.since = old.since ∧
        (old.dropped = true → rx.dropped = true) := by
    rw [receiver_drop] at its
    obtain ⟨old, there, same⟩ := Option.map_eq_some_iff.mp its
    cases same
    exact ⟨old, there, rfl, rfl, fun gone => Bool.or_eq_true_iff.mpr (.inl gone)⟩
  refine ⟨fun cid e listed => onward.registered cid e (sound.tabled cid e listed),
    fun t listed => (sound.fits t listed).mono onward, ?_, ?_, ?_, sound.owned⟩
  · intro w piece listed
    obtain ⟨rx, its, resolved⟩ := sound.origin w piece listed
    refine ⟨{ rx with dropped := rx.dropped || decide (waiter = w) }, ?_, resolved⟩
    rw [receiver_drop, its]
    rfl
  · intro w rx its
    obtain ⟨old, there, same, _⟩ := before its
    rw [same]
    exact sound.single w old there
  · intro w rx its
    obtain ⟨old, there, same, dated, gone⟩ := before its
    rw [same, dated]
    exact (sound.kept w old there).imp_right (.imp_left gone)

theorem sound_call (sound : Sound S s) (c : Call) :
    Sound S { s with tasks := s.tasks ++ [c.start] } := by
  have idle (w : ℕ) : c.start.holds w = 0 := by cases c <;> rfl
  have same (cid : Cid) (w : ℕ) :
      State.places { s with tasks := s.tasks ++ [c.start] } cid w = s.places cid w := by
    unfold State.places
    rw [tally_concat, idle]
    rfl
  have also {P : Task → Prop} (before : ∃ t ∈ s.tasks, P t) : ∃ t ∈ s.tasks ++ [c.start], P t := by
    obtain ⟨t, listed, holds⟩ := before
    exact ⟨t, List.mem_append_left _ listed, holds⟩
  refine ⟨sound.tabled, ?_, ?_, ?_, ?_, fun cid hollow => also (sound.owned cid hollow)⟩
  · intro t listed
    rcases List.mem_append.mp listed with old | new
    · exact (sound.fits t old).mono ⟨le_refl _, List.Subset.refl _, fun _ _ => id, fun _ => id,
        fun _ _ => .inl⟩
    · rw [List.mem_singleton.mp new]
      cases c <;> trivial
  · intro w piece listed
    obtain ⟨rx, its, resolved⟩ := sound.origin w piece listed
    exact ⟨rx, its, also resolved⟩
  · intro w rx its
    rw [same]
    exact sound.single w rx its
  · intro w rx its
    rw [same]
    exact (sound.kept w rx its).imp_right (.imp_right also)

theorem Move.fits {pending' : PendingFetches} {t t' : Task} {tasks' : List Task}
    (move : Move S s.pending s.receivers s.clock t pending' t') (sound : Sound S s)
    (fits : t.Fits S s) : t'.Fits S { s with pending := pending', tasks := tasks' } := by
  cases move with
  | remove cid piece entries there =>
    refine ⟨fun e listed => sound.tabled cid e ?_, fun e listed => by cases listed⟩
    unfold rows
    rw [there]
    exact listed
  | missing cid piece none_ =>
    intro e listed
    cases listed
  | send cid piece served entry todo =>
    refine ⟨fun e listed => fits.1 e (List.mem_cons_of_mem _ listed), ?_⟩
    intro e listed
    change (e.waiter, piece) ∈ (Waiters.send s.pending s.receivers entry.waiter piece).sent ∨
      isClosed s.receivers e.waiter = true
    rw [sent_send]
    rcases List.mem_append.mp listed with old | new
    · refine (fits.2 e old).imp_left fun there => ?_
      split
      · exact there
      · exact List.mem_append_left _ there
    · rw [List.mem_singleton.mp new]
      split
      · rename_i shut
        exact .inr shut
      · exact .inl (List.mem_append_right _ (List.mem_singleton_self _))
  | resolved => exact fits.2
  | pruneStart maxAge =>
    refine ⟨le_refl _, ?_⟩
    intro _ cid e early
    exact absurd early (Nat.not_lt_zero _)
  | prune now maxAge pass pass' table' turn =>
    refine ⟨fits.1, fun positive => (fits.2 positive).turn ?_ turn⟩
    intro e stale
    have old : decide (maxAge ≤ now - e.registeredAt) = true := decide_eq_true stale
    unfold isLive
    rw [old]
    rfl

theorem sound_advance {pending' : PendingFetches} {t t' : Task} {i : ℕ} (sound : Sound S s)
    (there : s.tasks[i]? = some t) (move : Move S s.pending s.receivers s.clock t pending' t') :
    Sound S { s with pending := pending', tasks := s.tasks.set i t' } := by
  have listed := List.mem_of_getElem? there
  have moved {w : ℕ} {rx : Receiver} (its : s.receivers[w]? = some rx) :
      State.places { s with pending := pending', tasks := s.tasks.set i t' } rx.cid w ≤
          s.places rx.cid w ∧
        (State.places { s with pending := pending', tasks := s.tasks.set i t' } rx.cid w =
          s.places rx.cid w ∨ rx.dropped = true ∨ t'.Expires rx.since) := by
    obtain ⟨fewer, same⟩ := move.places its sound.tabled
    have total := tally_set (w := Task.holds w) there t'
    unfold State.places
    exact ⟨by simp only at fewer ⊢; omega, same.imp_left fun equal => by simp only at equal ⊢; omega⟩
  refine ⟨fun cid e among => sound.tabled cid e (move.subset among), ?_, ?_, ?_, ?_, ?_⟩
  · intro u among
    rcases mem_set_cases among with rfl | ⟨j, _, place⟩
    · exact move.fits sound (sound.fits t listed)
    · exact (sound.fits u (List.mem_of_getElem? place)).mono move.onward
  · intro w piece sent
    rcases move.origin sent with old | ⟨cid, served, entry, todo, rfl, own⟩
    · obtain ⟨rx, its, resolved⟩ := sound.origin w piece old
      exact ⟨rx, its, exists_mem_set there (move.resolves rx.cid piece) resolved⟩
    · obtain ⟨rx, its, same, _⟩ := (sound.fits _ listed).1 entry List.mem_cons_self
      rw [own] at its
      refine ⟨rx, its, t', mem_set_next there, move.resolves rx.cid piece ?_⟩
      exact ⟨same.symm, rfl⟩
  · intro w rx its
    exact le_trans (moved its).1 (sound.single w rx its)
  · intro w rx its
    rcases (moved its).2 with same | gone | old
    · rw [same]
      exact (sound.kept w rx its).imp_right (.imp_right (exists_mem_set there (move.expires rx.since)))
    · exact .inr (.inl gone)
    · exact .inr (.inr ⟨t', mem_set_next there, old⟩)
  · intro cid hollow
    obtain ⟨before, keeps⟩ := move.hollow hollow
    rcases before with empty | mine
    · exact exists_mem_set there keeps (sound.owned cid empty)
    · exact ⟨t', mem_set_next there, mine⟩

theorem step_sound {l : Label} (sound : Sound S s) (taken : step S s l = some s') : Sound S s' := by
  cases l with
  | register cid =>
    cases taken
    exact sound_register sound cid
  | drop waiter =>
    cases taken
    exact sound_drop sound waiter
  | call c =>
    cases taken
    exact sound_call sound c
  | tick elapsed =>
    cases taken
    refine ⟨sound.tabled, fun t listed => (sound.fits t listed).mono ?_, sound.origin, sound.single,
      sound.kept, sound.owned⟩
    exact ⟨Nat.le_add_right _ _, List.Subset.refl _, fun _ _ => id, fun _ => id, fun _ _ => .inl⟩
  | advance i found =>
    obtain ⟨t, there, moved⟩ := Option.bind_eq_some_iff.mp taken
    obtain ⟨⟨pending', t'⟩, advanced, same⟩ := Option.map_eq_some_iff.mp moved
    cases same
    exact sound_advance sound there (advance_move advanced)

theorem reach_sound (reach : Reach (step S) anyStep .new s) : Sound S s :=
  reach.invariant .of_new fun _ _ _ sound _ taken => step_sound sound taken

theorem Task.not_cleans_of_over {t : Task} (finished : t.isOver = true) (cid : Cid) : ¬ t.Cleans S cid := by
  cases t with
  | resolve | send | pruneStart => cases finished
  | resolved => exact id
  | prune now maxAge pass =>
    cases pass with
    | collect | visit | sweep => cases finished
    | done => exact id

/-- In whatever order the calls take their steps: a waiter is in one place at most, so that it is
sent one piece at most and never while it is still filed. It is nowhere only if its receiver is
gone or a pass found it too old. What it is sent is a piece that was resolved for its own content,
and a call of `resolve` that returns has served all it removed, but for receivers that are gone.
What a pass leaves is younger than the age it was given; and once all calls have returned, a
content in the table has a waiter. -/
theorem rendezvous_exact (reach : Reach (step S) anyStep .new s) :
    (∀ w rx, s.receivers[w]? = some rx → s.places rx.cid w ≤ 1 ∧
      (s.places rx.cid w = 1 ∨ rx.dropped = true ∨ ∃ t ∈ s.tasks, t.Expires rx.since)) ∧
    (∀ w piece, (w, piece) ∈ s.pending.sent →
      ∃ rx, s.receivers[w]? = some rx ∧ ∃ t ∈ s.tasks, t.Resolves rx.cid piece) ∧
    (∀ cid piece served, .resolved cid piece served ∈ s.tasks → ∀ e ∈ served,
      (e.waiter, piece) ∈ s.pending.sent ∨ isClosed s.receivers e.waiter = true) ∧
    (∀ now maxAge pruned, .prune now maxAge (.done pruned) ∈ s.tasks → 0 < maxAge →
      ∀ cid, ∀ e ∈ s.pending.waiting cid, now - e.registeredAt < maxAge) ∧
    ((∀ t ∈ s.tasks, t.isOver = true) →
      ∀ cid, cid ∈ s.pending.waiters → s.pending.waiting cid ≠ []) := by
  have sound := reach_sound reach
  refine ⟨fun w rx its => ⟨sound.single w rx its, sound.kept w rx its⟩, sound.origin, ?_, ?_, ?_⟩
  · intro cid piece served returned
    exact sound.fits _ returned
  · intro now maxAge pruned returned positive cid e listed
    exact Nat.lt_of_not_le ((sound.fits _ returned).2 positive cid e listed)
  · intro quiet cid there empty
    obtain ⟨entries, found⟩ := Finmap.mem_iff.mp there
    unfold PendingFetches.waiting at empty
    rw [found] at empty
    obtain rfl : entries = [] := empty
    obtain ⟨t, listed, cleans⟩ := sound.owned cid found
    exact Task.not_cleans_of_over (quiet t listed) cid cleans

def oneShard : Sharding Cid := ⟨1, fun _ => 0, fun _ => Nat.one_pos⟩

theorem rendezvous_exact_race :
    ∃ s, Reach (step oneShard) anyStep .new s ∧ s.receivers.length = 2 ∧
      ∀ w rx, s.receivers[w]? = some rx → s.places rx.cid w ≤ 1 := by
  let content : Cid := ⟨Bytes32.fill 1⟩
  let piece := CodedPiece.new Blake3.byLeading content [1] [5] (Bytes32.fill 0)
  obtain ⟨s, reach, two, _⟩ :
      ∃ s, Reach (step oneShard) anyStep .new s ∧ s.receivers.length = 2 ∧
        s.pending.sent = [(0, piece)] ∧ (∀ t ∈ s.tasks, t.isOver = true) :=
    exists_reach _ _ [.register content, .register content, .tick 3, .call (.pruneStale 9),
      .call (.resolve content piece), .advance 0 [], .advance 0 [content], .advance 1 [], .drop 1,
      .advance 0 [], .advance 1 [], .advance 0 [], .advance 1 [], .advance 1 [], .advance 0 [],
      .advance 0 [], .advance 0 []] (by decide +kernel)
  exact ⟨s, reach, two, fun w rx its => ((rendezvous_exact reach).1 w rx its).1⟩

end Runs

end Craftec.Net.Waiters
