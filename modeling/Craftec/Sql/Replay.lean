/- GID: Craftec/Sql/Replay
   generality: I
   digest: Copies of one signed message, and when its SQL is executed at most once. -/

import Mathlib
import Craftec.Library.Run
import Craftec.Sql.Database
import Craftec.Sql.Histories
import Craftec.Sql.RpcWrite
import Craftec.Sql.WriteOrder
import Craftec.Sql.Writers
import Craftec.Types.Digest

set_option autoImplicit false
set_option relaxedAutoImplicit false

namespace Craftec.Sql.Replay

open Craftec.Library.Run (Path Reach pair_update)
open Craftec.Sql.Database (CraftDatabase Env Libsql checkOwnership pageEngine syncPagesToVfs)
open Craftec.Sql.Histories (databaseAt someOwner vfs1 vfs2)
open Craftec.Sql.RpcWrite (Verifier)
open Craftec.Sql.WriteOrder
open Craftec.Sql.Writers
open Craftec.Types.Digest (Blake3 Cid NodeId)

variable (B : Blake3) {Db : Type} (L : Libsql Db) (verify : Verifier) (nodeId : NodeId)

/-- The message a call carries, from its delivery on. -/
def request : Task → Option Request
  | .idle => none
  | .verify req | .checkCas req | .acquire req _ | .runSql req _ | .sync req _
  | .setRoot req _ _ | .release req _ _ | .readRoot req _ _ | .refused req _
  | .done req _ _ _ => some req

def committedRoot : Task → Option Cid
  | .release _ _ own | .readRoot _ _ own | .done _ _ own _ => some own
  | _ => none

/-- The SQL of the call has been executed. Where every executed write yields a root, no
call is turned away after that. -/
def Executed : Task → Prop
  | .sync _ _ | .setRoot _ _ _ | .release _ _ _ | .readRoot _ _ _ | .done _ _ _ _ => True
  | _ => False

def LetIn (t : Task) : Prop := Window t ∨ (committedRoot t).isSome

def Seen (first : Cid) (s : State Db) (r : Cid) : Prop :=
  r = first ∨ ∃ j, committedRoot (s.calls j) = some r

/-- Each executed write yields a root never seen before. -/
def FreshRoots (first : Cid) (s : State Db) : Label → Prop
  | .advance i env =>
    match s.calls i with
    | .runSql req _ => (L.execute s.shared.db.contents req.sql).2 = .ok ()
    | .sync _ _ =>
      ∃ own, (syncPagesToVfs B (L.file s.shared.db.contents) env s.shared.db.vfs).2 = .ok own
    | .setRoot _ _ own => ¬ Seen first s own
    | _ => True
  | _ => True

/-- The call does not stand in the way of a copy of `req`: without an expected root no
copy may have been let in, with one no copy may be in its window. -/
def Clear (req : Request) (t : Task) : Prop :=
  request t = some req →
    match req.expected with
    | none => ¬ LetIn t
    | some _ => ¬ Window t

/-- A message is let in only where all other copies of it are clear. -/
def CopiesApart (s : State Db) : Label → Prop
  | .advance i _ =>
    match s.calls i with
    | .verify (.sqlExecute sql writer signature) =>
      ∀ j, j ≠ i → Clear (.sqlExecute sql writer signature) (s.calls j)
    | .checkCas req => ∀ j, j ≠ i → Clear req (s.calls j)
    | _ => True
  | _ => True

section Once

variable {B L verify nodeId} {s s' : State Db} {first : Cid}

theorem expected_of_request {t : Task} {req : Request} (carries : request t = some req) :
    t.expected = req.expected := by
  cases t with
  | idle => cases carries
  | _ => cases carries; rfl

theorem letIn_of_executed {t : Task} (executed : Executed t) : LetIn t := by
  cases t with
  | sync | setRoot => exact .inl trivial
  | release | readRoot | done => exact .inr rfl
  | _ => exact executed.elim

theorem move_request {s s' : Shared Db} {i : ℕ} {t u : Task} (move : Move s i t s' u) :
    request u = request t := by
  cases move <;> rfl

theorem move_setsRoot {s s' : Shared Db} {i : ℕ} {t u : Task} (move : Move s i t s' u) :
    (s'.db.rootCid = s.db.rootCid ∧ committedRoot u = committedRoot t) ∨
      ∃ req trail own, t = .setRoot req trail own ∧ s'.db.rootCid = own ∧
        committedRoot u = some own := by
  cases move with
  | setRoot req trail own => exact .inr ⟨req, trail, own, rfl, rfl, rfl⟩
  | _ => exact .inl ⟨rfl, rfl⟩

theorem move_asks {s s' : Shared Db} {i : ℕ} {t u : Task} {r : Cid} (move : Move s i t s' u)
    (inside : Window u) (asks : u.expected = some r) :
    (Window t ∧ t.expected = some r) ∨ s.db.rootCid = r := by
  cases move with
  | enterExecute sql writer signature => cases asks
  | enterChecked req current => exact .inr (current r asks)
  | acquire | run | sync => exact .inl ⟨trivial, asks⟩
  | _ => exact inside.elim

theorem move_enters {s s' : Shared Db} {i : ℕ} {t u : Task} (move : Move s i t s' u)
    (inside : LetIn u) :
    LetIn t ∨ (∃ sql writer signature, t = .verify (.sqlExecute sql writer signature)) ∨
      ∃ req, t = .checkCas req ∧ ∀ r, req.expected = some r → s.db.rootCid = r := by
  cases move with
  | enterExecute sql writer signature => exact .inr (.inl ⟨sql, writer, signature, rfl⟩)
  | enterChecked req current => exact .inr (.inr ⟨req, rfl, current⟩)
  | acquire | run | sync | setRoot => exact .inl (.inl trivial)
  | release | read => exact .inl (.inr rfl)
  | _ =>
    rcases inside with inside | committed
    · exact inside.elim
    · cases committed

structure Once (first : Cid) (s : State Db) : Prop where
  current : Seen first s s.shared.db.rootCid
  asked : ∀ i r, Window (s.calls i) → (s.calls i).expected = some r → Seen first s r
  passed : ∀ i r, (committedRoot (s.calls i)).isSome → (s.calls i).expected = some r →
    Seen first s r ∧ s.shared.db.rootCid ≠ r
  single : ∀ i j req, i ≠ j → LetIn (s.calls i) → LetIn (s.calls j) →
    request (s.calls i) = some req → request (s.calls j) ≠ some req

theorem start_once (db : CraftDatabase Db) : Once db.rootCid (start db) := by
  refine ⟨.inl rfl, fun _ _ inside => inside.elim, fun _ _ committed => (by cases committed), ?_⟩
  intro i j req _ inside
  rcases inside with inside | committed
  · exact inside.elim
  · cases committed

theorem Seen.mono {r : Cid} (seen : Seen first s r)
    (keeps : ∀ j own, committedRoot (s.calls j) = some own → committedRoot (s'.calls j) = some own) :
    Seen first s' r :=
  seen.imp_right fun committed => committed.imp fun j holds => keeps j r holds

theorem Once.update {i : ℕ} {shared : Shared Db} {u : Task} (inv : Once first s)
    (kept : ∀ own, committedRoot (s.calls i) = some own → committedRoot u = some own)
    (current : shared.db.rootCid = s.shared.db.rootCid ∨ committedRoot u = some shared.db.rootCid)
    (apart : ∀ r, Seen first s r → s.shared.db.rootCid ≠ r → shared.db.rootCid ≠ r)
    (asked : ∀ r, Window u → u.expected = some r → Seen first s r)
    (passed : ∀ r, (committedRoot u).isSome → u.expected = some r →
      Seen first s r ∧ shared.db.rootCid ≠ r)
    (single : ∀ j, j ≠ i → ∀ req, LetIn u → LetIn (s.calls j) → request u = some req →
      request (s.calls j) ≠ some req) :
    Once first ⟨shared, Function.update s.calls i u⟩ := by
  have keeps : ∀ j own, committedRoot (s.calls j) = some own →
      committedRoot (Function.update s.calls i u j) = some own := by
    intro j own committed
    by_cases same : j = i
    · subst same
      rw [Function.update_self]
      exact kept own committed
    · rwa [Function.update_of_ne same]
  refine ⟨?_, ?_, ?_, ?_⟩
  · rcases current with same | committed
    · rw [same]
      exact inv.current.mono keeps
    · refine .inr ⟨i, ?_⟩
      change committedRoot (Function.update s.calls i u i) = _
      rwa [Function.update_self]
  · refine (Function.forall_update_iff s.calls (fun _ t => ∀ r, Window t → t.expected = some r →
      Seen first ⟨shared, Function.update s.calls i u⟩ r)).mpr ⟨?_, ?_⟩
    · exact fun r inside asks => (asked r inside asks).mono keeps
    · exact fun j _ r inside asks => (inv.asked j r inside asks).mono keeps
  · refine (Function.forall_update_iff s.calls (fun _ t => ∀ r, (committedRoot t).isSome →
      t.expected = some r → Seen first ⟨shared, Function.update s.calls i u⟩ r ∧
        shared.db.rootCid ≠ r)).mpr ⟨?_, ?_⟩
    · exact fun r committed asks => (passed r committed asks).imp_left fun seen => seen.mono keeps
    · intro j _ r committed asks
      obtain ⟨seen, before⟩ := inv.passed j r committed asks
      exact ⟨seen.mono keeps, apart r seen before⟩
  · exact pair_update (R := fun a b x y => ∀ req, a ≠ b → LetIn x → LetIn y →
        request x = some req → request y ≠ some req) inv.single
      (fun _ same => (same rfl).elim)
      (fun j other req _ inside insideJ carries => single j other req inside insideJ carries)
      fun j other req _ insideJ inside carriesJ carries =>
        single j other req inside insideJ carries carriesJ

theorem invoke_once {i : ℕ} {req : Request} (inv : Once first s) (idle : s.calls i = .idle) :
    Once first ⟨s.shared, Function.update s.calls i (.verify req)⟩ := by
  have kept : ∀ own, committedRoot (s.calls i) = some own →
      committedRoot (.verify req) = some own := by
    intro own committed
    rw [idle] at committed
    cases committed
  have out : ¬ LetIn (.verify req) := by
    rintro (inside | committed)
    · exact inside
    · cases committed
  exact inv.update kept (.inl rfl) (fun _ _ before => before) (fun _ inside => inside.elim)
    (fun _ committed => by cases committed) fun _ _ _ inside => (out inside).elim

theorem fresh_setsRoot {i : ℕ} {env : Env} {shared : Shared Db} {u : Task}
    (fresh : FreshRoots B L first s (.advance i env))
    (move : Move s.shared i (s.calls i) shared u) :
    (shared.db.rootCid = s.shared.db.rootCid ∧ committedRoot u = committedRoot (s.calls i)) ∨
      (Window (s.calls i) ∧ committedRoot (s.calls i) = none ∧
        committedRoot u = some shared.db.rootCid ∧ ¬ Seen first s shared.db.rootCid) := by
  rcases move_setsRoot move with same | ⟨req, trail, own, stands, sets, committed⟩
  · exact .inl same
  · simp only [FreshRoots, stands] at fresh
    rw [stands, sets]
    exact .inr ⟨trivial, rfl, committed, fresh⟩

theorem enters_single {i j : ℕ} {env : Env} {shared : Shared Db} {u : Task} {req : Request}
    (inv : Once first s) (copies : CopiesApart s (.advance i env))
    (move : Move s.shared i (s.calls i) shared u) (other : j ≠ i) (inside : LetIn u)
    (insideJ : LetIn (s.calls j)) (carries : request u = some req) :
    request (s.calls j) ≠ some req := by
  intro carriesJ
  rw [move_request move] at carries
  rcases move_enters move inside with before | ⟨sql, writer, signature, verifying⟩ | ⟨own, checking, current⟩
  · exact inv.single i j req other.symm before insideJ carries carriesJ
  · rw [verifying] at carries
    cases carries
    simp only [CopiesApart, verifying] at copies
    exact copies j other carriesJ insideJ
  · rw [checking] at carries
    cases carries
    simp only [CopiesApart, checking] at copies
    have clear := copies j other carriesJ
    cases asks : req.expected with
    | none =>
      rw [asks] at clear
      exact clear insideJ
    | some r =>
      rw [asks] at clear
      -- the other copy has committed its root, so `r` is no longer the current one
      have committed : (committedRoot (s.calls j)).isSome := insideJ.resolve_left clear
      have apart := (inv.passed j r committed ((expected_of_request carriesJ).trans asks)).2
      exact apart (current r asks)

theorem advance_once {i : ℕ} {env : Env} {shared : Shared Db} {u : Task} (inv : Once first s)
    (fresh : FreshRoots B L first s (.advance i env)) (copies : CopiesApart s (.advance i env))
    (move : Move s.shared i (s.calls i) shared u) :
    Once first ⟨shared, Function.update s.calls i u⟩ := by
  have asked : ∀ r, Window u → u.expected = some r → Seen first s r := by
    intro r inside asks
    rcases move_asks move inside asks with ⟨before, asked⟩ | current
    · exact inv.asked i r before asked
    · rw [← current]
      exact inv.current
  have single : ∀ j, j ≠ i → ∀ req, LetIn u → LetIn (s.calls j) → request u = some req →
      request (s.calls j) ≠ some req :=
    fun _ other _ inside insideJ carries => enters_single inv copies move other inside insideJ carries
  rcases fresh_setsRoot fresh move with ⟨same, kept⟩ | ⟨within, uncommitted, committed, unseen⟩
  · refine inv.update (fun _ before => kept.trans before) (.inl same) ?_ asked ?_ single
    · exact fun r _ before => same ▸ before
    · intro r committed asks
      rw [kept] at committed
      rw [move.expected] at asks
      rw [same]
      exact inv.passed i r committed asks
  · have apart : ∀ r, Seen first s r → shared.db.rootCid ≠ r := by
      rintro r seen rfl
      exact unseen seen
    refine inv.update ?_ (.inr committed) (fun r seen _ => apart r seen) asked ?_ single
    · intro own before
      rw [uncommitted] at before
      cases before
    · -- the call leaves its window: what it asked for has been seen, its own root has not
      intro r _ asks
      rw [move.expected] at asks
      have seen := inv.asked i r within asks
      exact ⟨seen, apart r seen⟩

theorem step_once {a : Label} (inv : Once first s)
    (allowed : FreshRoots B L first s a ∧ CopiesApart s a)
    (taken : step B L verify nodeId s a = some s') : Once first s' := by
  rcases step_cases B L verify nodeId taken with
    ⟨i, req, rfl, idle, rfl⟩ | ⟨i, env, shared, u, rfl, move, rfl⟩
  · exact invoke_once inv idle
  · exact advance_once inv allowed.1 allowed.2 move

end Once

/-- In every run where each executed write yields a root never seen before, and where a
copy of a message is let in only if no other copy stands in its way, no two
deliveries of one message are executed. -/
theorem executed_at_most_once {db : CraftDatabase Db} {s : State Db} {i j : ℕ} {req : Request}
    (run : Reach (step B L verify nodeId)
      (fun s a => FreshRoots B L db.rootCid s a ∧ CopiesApart s a) (start db) s)
    (executedI : Executed (s.calls i)) (executedJ : Executed (s.calls j))
    (carriesI : request (s.calls i) = some req) (carriesJ : request (s.calls j) = some req) :
    i = j := by
  have inv : Once db.rootCid s :=
    run.invariant (start_once db) fun _ _ _ before allowed taken => step_once before allowed taken
  by_contra apart
  exact inv.single i j req apart (letIn_of_executed executedI) (letIn_of_executed executedJ)
    carriesI carriesJ

section Copies

def firstWritten (root : Option Cid) : State ℕ :=
  ⟨⟨databaseAt 2 vfs2, none, 1⟩, Function.update (fun _ => .idle) 0
    (.readRoot (signedInsert root) ⟨0, 0, (databaseAt 1 vfs1).rootCid⟩ (databaseAt 2 vfs2).rootCid)⟩

theorem firstWritten_noWindow (root : Option Cid) : ∀ j, ¬ Window ((firstWritten root).calls j) :=
  (Function.forall_update_iff (fun _ => Task.idle) (fun _ t => ¬ Window t)).mpr ⟨id, fun _ _ => id⟩

theorem alone_copiesApart (s : Shared ℕ) (t : Task) (env : Env) :
    CopiesApart ⟨s, Function.update (fun _ => .idle) 0 t⟩ (.advance 0 env) := by
  have clear : ∀ req j, j ≠ 0 → Clear req (Function.update (fun _ => Task.idle) 0 t j) := by
    intro req j other carries
    rw [Function.update_of_ne other] at carries
    cases carries
  simp only [CopiesApart]
  split
  · exact clear _
  · exact clear _
  · trivial

abbrev Allowed (s : State ℕ) (a : Label) : Prop :=
  FreshRoots Blake3.byLeading pageEngine (databaseAt 1 vfs1).rootCid s a ∧ CopiesApart s a

theorem second_unseen (shared : Shared ℕ) (req : Request) (trail : Trail) (own : Cid) :
    ¬ Seen (databaseAt 1 vfs1).rootCid
      ⟨shared, Function.update (fun _ => .idle) 0 (.setRoot req trail own)⟩
      (databaseAt 2 vfs2).rootCid := by
  rintro (same | ⟨j, committed⟩)
  · exact roots_one_two same
  · rcases eq_or_ne j 0 with rfl | other
    · cases committed
    · have idle : committedRoot (Function.update (fun _ => Task.idle) 0 (.setRoot req trail own) j) =
          none := by rw [Function.update_of_ne other]; rfl
      exact Option.some_ne_none _ (committed.symm.trans idle)

theorem reach_firstWritten (root : Option Cid)
    (current : root = none ∨ root = some (databaseAt 1 vfs1).rootCid) :
    Reach (step Blake3.byLeading pageEngine signVerify someOwner) Allowed
      (start (databaseAt 1 vfs1)) (firstWritten root) := by
  have enters : Path (step Blake3.byLeading pageEngine signVerify someOwner) Allowed
      (start (databaseAt 1 vfs1)) _ _ :=
    path_enter (i := 0) _ _ _ _ rfl (signedInsert_verified _ root)
      (signedInsert_passed _ _ rfl current) ⟨trivial, trivial⟩ ⟨trivial, alone_copiesApart _ _ _⟩
      ⟨trivial, alone_copiesApart _ _ _⟩
  have runs : Path (step Blake3.byLeading pageEngine signVerify someOwner) Allowed
      ⟨⟨databaseAt 1 vfs1, none, 0⟩,
        Function.update (fun _ => .idle) 0 (.acquire (signedInsert root) 0)⟩ _ _ :=
    path_run _ _ _ _ rfl (insert_runs 1 root) ⟨trivial, alone_copiesApart _ _ _⟩
      ⟨congrArg Prod.snd (insert_runs 1 root), alone_copiesApart _ _ _⟩
  have commits : Path (step Blake3.byLeading pageEngine signVerify someOwner) Allowed
      ⟨⟨{ databaseAt 1 vfs1 with contents := 2 }, some 0, 0⟩, Function.update (fun _ => .idle) 0
        (.sync (signedInsert root) ⟨0, 0, (databaseAt 1 vfs1).rootCid⟩)⟩ _ _ :=
    path_commit _ _ _ _ sync_two ⟨⟨_, congrArg Prod.snd sync_two⟩, alone_copiesApart _ _ _⟩
      ⟨second_unseen _ _ _ _, alone_copiesApart _ _ _⟩ fun _ => ⟨trivial, alone_copiesApart _ _ _⟩
  exact (enters.append (runs.append commits)).reach

theorem executed_at_most_once_of_copy :
    let req := signedInsert (some (databaseAt 1 vfs1).rootCid)
    ∃ s answer, Reach (step Blake3.byLeading pageEngine signVerify someOwner) Allowed
        (start (databaseAt 1 vfs1)) s ∧ Executed (s.calls 0) ∧ s.calls 1 = .refused req answer ∧
      ∀ j, Executed (s.calls j) → request (s.calls j) = some req → 0 = j := by
  intro req
  have written := reach_firstWritten (some (databaseAt 1 vfs1).rootCid) (.inr rfl)
  have clear : ∀ j, j ≠ 1 →
      Clear req (Function.update (firstWritten req.expected).calls 1 (.checkCas req) j) := by
    intro j other _ inside
    rw [Function.update_of_ne other] at inside
    exact firstWritten_noWindow _ j inside
  have stale : checkCasStep (firstWritten req.expected).shared req = .refused req
      (.sqlError (.casConflict (databaseAt 1 vfs1).rootCid.display
        (databaseAt 2 vfs2).rootCid.display)) := by
    have owned : checkOwnership req.writer (firstWritten req.expected).shared.db.owner = .ok () := rfl
    have conflict : Craftec.Sql.RpcWrite.checkCas req.expected
        (some (firstWritten req.expected).shared.db.rootCid) = .error (.casConflict
          (databaseAt 1 vfs1).rootCid.display (databaseAt 2 vfs2).rootCid.display) := by
      change Craftec.Sql.RpcWrite.checkCas (some (databaseAt 1 vfs1).rootCid)
        (some (databaseAt 2 vfs2).rootCid) = _
      rw [Craftec.Sql.RpcWrite.checkCas, if_pos roots_one_two.symm]
    simp only [checkCasStep, owned, conflict]
  have turned : Path (step Blake3.byLeading pageEngine signVerify someOwner) Allowed
      (firstWritten req.expected) [.invoke 1 req, .advance 1 calmEnv, .advance 1 calmEnv] _ :=
    .cons ⟨trivial, trivial⟩ rfl (.cons ⟨trivial, trivial⟩
      (step_advance _ _ _ _ (congrArg some (congrArg (Prod.mk _) (signedInsert_verified _ _))))
      (.cons ⟨trivial, clear⟩ (step_advance _ _ _ _ (congrArg some (congrArg (Prod.mk _) stale))) (.nil _)))
  have run := written.trans turned.reach
  refine ⟨_, _, run, trivial, rfl, fun j executed carries => ?_⟩
  exact executed_at_most_once Blake3.byLeading pageEngine signVerify someOwner (i := 0) run trivial
    executed rfl carries

/-- A write that asks for no root is executed again when its message is delivered again. -/
theorem copy_executed_again :
    ∃ s, Reach (step Blake3.byLeading pageEngine signVerify someOwner)
        (FreshRoots Blake3.byLeading pageEngine (databaseAt 1 vfs1).rootCid)
        (start (databaseAt 1 vfs1)) s ∧
      Executed (s.calls 0) ∧ Executed (s.calls 1) ∧
      request (s.calls 0) = some (signedInsert none) ∧
      request (s.calls 1) = some (signedInsert none) := by
  have written := (reach_firstWritten none (.inl rfl)).mono fun _ _ allowed => allowed.1
  have enters : Path (step Blake3.byLeading pageEngine signVerify someOwner)
      (FreshRoots Blake3.byLeading pageEngine (databaseAt 1 vfs1).rootCid) (firstWritten none) _ _ :=
    path_enter (i := 1) _ _ _ _ rfl (signedInsert_verified _ none)
      (signedInsert_passed _ _ rfl (.inl rfl)) trivial trivial trivial
  have runs : Path (step Blake3.byLeading pageEngine signVerify someOwner)
      (FreshRoots Blake3.byLeading pageEngine (databaseAt 1 vfs1).rootCid)
      ⟨(firstWritten none).shared,
        Function.update (firstWritten none).calls 1 (.acquire (signedInsert none) 1)⟩ _ _ :=
    path_run _ _ _ _ rfl (insert_runs 2 none) trivial (congrArg Prod.snd (insert_runs 2 none))
  exact ⟨_, written.trans (enters.append runs).reach, trivial, trivial, rfl, rfl⟩

end Copies

end Craftec.Sql.Replay
