/- GID: Craftec/Sql/WriteOrder
   generality: I
   digest: When a checked root is still current as the SQL runs, and when a call reports its own root. -/

import Mathlib
import Craftec.Library.Run
import Craftec.Sql.Database
import Craftec.Sql.Histories
import Craftec.Sql.RpcWrite
import Craftec.Sql.Writers
import Craftec.Types.Digest

set_option autoImplicit false
set_option relaxedAutoImplicit false

namespace Craftec.Sql.WriteOrder

open Craftec.Library.Run (Reach Path anyStep of_update pair_update)
open Craftec.Sql.Database (CraftDatabase Env Libsql SqlError checkOwnership syncPagesToVfs
  pageEngine quietEnv)
open Craftec.Sql.Histories (databaseAt pageEntries someOwner sync_pageEngine vfs1 vfs2 vfs1_entries
  vfs2_entries)
open Craftec.Sql.RpcWrite (SignedWrite Verifier buildSignedPayload checkCas_ok sqlBytes
  verifySignature)
open Craftec.Sql.Writers
open Craftec.Types.Digest (Bytes Blake3 Cid NodeId)
open Craftec.Vfs.Commit (fillPage leading_fillPage)
open Craftec.Vfs.Index (PageIndex mergeSort_toList serializeEntries)

variable (B : Blake3) {Db : Type} (L : Libsql Db) (verify : Verifier) (nodeId : NodeId)

/-- Everything a step of call `i` can do. -/
inductive Move (s : Shared Db) (i : ℕ) : Task → Shared Db → Task → Prop where
  | pass (req : Request) : Move s i (.verify req) s (.checkCas req)
  | enterExecute (sql : String) (writer : NodeId) (signature : Bytes) :
      Move s i (.verify (.sqlExecute sql writer signature)) s
        (.acquire (.sqlExecute sql writer signature) s.version)
  | enterChecked (req : Request)
      (current : ∀ r, req.expected = some r → s.db.rootCid = r) :
      Move s i (.checkCas req) s (.acquire req s.version)
  | refuseVerify (req : Request) (answer : Answer) : Move s i (.verify req) s (.refused req answer)
  | refuseCheck (req : Request) (answer : Answer) : Move s i (.checkCas req) s (.refused req answer)
  | acquire (req : Request) (seen : ℕ) (free : s.lock = none) :
      Move s i (.acquire req seen) { s with lock := some i } (.runSql req seen)
  | run (req : Request) (seen : ℕ) (contents : Db) :
      Move s i (.runSql req seen) { s with db := { s.db with contents := contents } }
        (.sync req ⟨seen, s.version, s.db.rootCid⟩)
  | refuseRun (req : Request) (seen : ℕ) (contents : Db) (answer : Answer) :
      Move s i (.runSql req seen) ⟨{ s.db with contents := contents }, none, s.version⟩
        (.refused req answer)
  | sync (req : Request) (trail : Trail) (vfs : Craftec.Vfs.Commit.CidVfs) (own : Cid) :
      Move s i (.sync req trail) { s with db := { s.db with vfs := vfs } } (.setRoot req trail own)
  | refuseSync (req : Request) (trail : Trail) (vfs : Craftec.Vfs.Commit.CidVfs) (answer : Answer) :
      Move s i (.sync req trail) ⟨{ s.db with vfs := vfs }, none, s.version⟩ (.refused req answer)
  | setRoot (req : Request) (trail : Trail) (own : Cid) :
      Move s i (.setRoot req trail own) ⟨{ s.db with rootCid := own }, s.lock, s.version + 1⟩
        (.release req trail own)
  | release (req : Request) (trail : Trail) (own : Cid) :
      Move s i (.release req trail own) { s with lock := none } (.readRoot req trail own)
  | read (req : Request) (trail : Trail) (own : Cid) :
      Move s i (.readRoot req trail own) s (.done req trail own (.root s.db.rootCid))

theorem advance_move {s s' : Shared Db} {i : ℕ} {env : Env} {t u : Task}
    (taken : advance B L verify nodeId s i env t = some (s', u)) : Move s i t s' u := by
  cases t with
  | idle | refused | done => simp [advance] at taken
  | verify req =>
    obtain ⟨rfl, rfl⟩ := Prod.mk.inj (Option.some.inj taken)
    cases req with
    | signedWrite msg =>
      simp only [verifyStep]
      split
      · exact .refuseVerify _ _
      · exact .pass _
    | sqlExecute sql writer signature =>
      simp only [verifyStep, enterExecute]
      split
      · exact .refuseVerify _ _
      · split
        · exact .refuseVerify _ _
        · split
          · exact .refuseVerify _ _
          · exact .enterExecute _ _ _
  | checkCas req =>
    obtain ⟨rfl, rfl⟩ := Prod.mk.inj (Option.some.inj taken)
    simp only [checkCasStep, enterExecute]
    split
    · exact .refuseCheck _ _
    · split
      · exact .refuseCheck _ _
      · rename_i passed
        have current : ∀ r, req.expected = some r → s.db.rootCid = r := by
          intro r asked
          rw [asked] at passed
          exact checkCas_ok passed
        split
        · exact .refuseCheck _ _
        · exact .enterChecked req current
  | acquire req seen =>
    simp only [advance] at taken
    split at taken
    · rename_i free
      obtain ⟨rfl, rfl⟩ := Prod.mk.inj (Option.some.inj taken)
      exact .acquire req seen free
    · cases taken
  | runSql req seen =>
    simp only [advance] at taken
    split at taken <;> obtain ⟨rfl, rfl⟩ := Prod.mk.inj (Option.some.inj taken)
    · exact .refuseRun _ _ _ _
    · exact .run _ _ _
  | sync req trail =>
    simp only [advance] at taken
    split at taken <;> obtain ⟨rfl, rfl⟩ := Prod.mk.inj (Option.some.inj taken)
    · exact .refuseSync _ _ _ _
    · exact .sync _ _ _ _
  | setRoot req trail own =>
    obtain ⟨rfl, rfl⟩ := Prod.mk.inj (Option.some.inj taken)
    exact .setRoot _ _ _
  | release req trail own =>
    obtain ⟨rfl, rfl⟩ := Prod.mk.inj (Option.some.inj taken)
    exact .release _ _ _
  | readRoot req trail own =>
    obtain ⟨rfl, rfl⟩ := Prod.mk.inj (Option.some.inj taken)
    exact .read _ _ _

theorem step_cases {s s' : State Db} {a : Label} (taken : step B L verify nodeId s a = some s') :
    (∃ i req, a = .invoke i req ∧ s.calls i = .idle ∧
        s' = ⟨s.shared, Function.update s.calls i (.verify req)⟩) ∨
      ∃ i env shared u, a = .advance i env ∧ Move s.shared i (s.calls i) shared u ∧
        s' = ⟨shared, Function.update s.calls i u⟩ := by
  cases a with
  | invoke i req =>
    simp only [step] at taken
    split at taken
    · rename_i idle
      exact .inl ⟨i, req, rfl, idle, (Option.some.inj taken).symm⟩
    · cases taken
  | advance i env =>
    simp only [step] at taken
    split at taken
    · rename_i shared u moved
      exact .inr ⟨i, env, shared, u, rfl, advance_move B L verify nodeId moved,
        (Option.some.inj taken).symm⟩
    · cases taken

/-- A root that was asked for is the current one until the SQL runs, and was the
current one when it ran. -/
def Checked (s : Shared Db) : Task → Prop
  | .acquire req seen | .runSql req seen =>
    ∀ r, req.expected = some r → s.db.rootCid = r ∧ s.version = seen
  | .sync req trail | .setRoot req trail _ | .release req trail _ | .readRoot req trail _
  | .done req trail _ _ => ∀ r, req.expected = some r → trail.root = r ∧ trail.version = trail.seen
  | _ => True

structure CasInv (s : State Db) : Prop where
  apart : ∀ i j, i ≠ j → Window (s.calls i) → Window (s.calls j) → (s.calls i).expected = none
  checked : ∀ i, Checked s.shared (s.calls i)

theorem Checked.keep {s s' : Shared Db} {t : Task} (checked : Checked s t)
    (same : Window t → t.expected ≠ none → s'.db.rootCid = s.db.rootCid ∧ s'.version = s.version) :
    Checked s' t := by
  cases t with
  | acquire req seen | runSql req seen =>
    intro r asked
    have wanted : req.expected ≠ none := by
      rw [asked]
      exact Option.some_ne_none r
    obtain ⟨root, version⟩ := same trivial wanted
    rw [root, version]
    exact checked r asked
  | _ => exact checked

theorem Move.commits {s s' : Shared Db} {i : ℕ} {t u : Task} (move : Move s i t s' u) :
    (s'.db.rootCid = s.db.rootCid ∧ s'.version = s.version) ∨ Window t := by
  cases move with
  | setRoot => exact .inr trivial
  | _ => exact .inl ⟨rfl, rfl⟩

theorem Move.expected {s s' : Shared Db} {i : ℕ} {t u : Task} (move : Move s i t s' u) :
    u.expected = t.expected := by
  cases move <;> rfl

theorem Move.lets {s s' : Shared Db} {i : ℕ} {t u : Task} (move : Move s i t s' u)
    (inside : Window u) :
    Window t ∨ (∃ sql writer signature, t = .verify (.sqlExecute sql writer signature)) ∨
      ∃ req, t = .checkCas req := by
  cases move with
  | enterExecute sql writer signature => exact .inr (.inl ⟨sql, writer, signature, rfl⟩)
  | enterChecked req => exact .inr (.inr ⟨req, rfl⟩)
  | acquire | run | sync => exact .inl trivial
  | _ => exact inside.elim

theorem Move.checked {s s' : Shared Db} {i : ℕ} {t u : Task} (move : Move s i t s' u)
    (checked : Checked s t) : Checked s' u := by
  cases move with
  | enterExecute sql writer signature =>
    intro r asked
    cases asked
  | enterChecked req current =>
    intro r asked
    exact ⟨current r asked, rfl⟩
  | run req seen contents =>
    intro r asked
    exact checked r asked
  | acquire | sync | setRoot | release | read => exact checked
  | _ => trivial

theorem casInv_step {s s' : State Db} {a : Label} (inv : CasInv s) (disjoint : WindowsApart s a)
    (taken : step B L verify nodeId s a = some s') : CasInv s' := by
  rcases step_cases B L verify nodeId taken with
    ⟨i, req, rfl, idle, rfl⟩ | ⟨i, env, shared, u, rfl, move, rfl⟩
  · constructor
    · exact pair_update (R := fun a b x y => a ≠ b → Window x → Window y → x.expected = none)
        inv.apart (fun _ inside => inside.elim) (fun _ _ _ inside => inside.elim)
        fun _ _ _ _ inside => inside.elim
    · exact (Function.forall_update_iff _ fun _ task => Checked s.shared task).mpr
        ⟨trivial, fun j _ => inv.checked j⟩
  · -- two calls in their windows at once ask for no root, also if one was just let in
    have entering : ∀ j, j ≠ i → Window u → Window (s.calls j) →
        u.expected = none ∧ (s.calls j).expected = none := by
      intro j other inside insideJ
      rcases move.lets inside with before | ⟨sql, writer, signature, verifying⟩ | ⟨req, checking⟩
      · rw [move.expected]
        exact ⟨inv.apart i j other.symm before insideJ, inv.apart j i other insideJ before⟩
      · simp only [WindowsApart, verifying] at disjoint
        refine ⟨?_, disjoint j other insideJ⟩
        rw [move.expected, verifying]
        rfl
      · simp only [WindowsApart, checking] at disjoint
        obtain ⟨mine, theirs⟩ := disjoint j other insideJ
        refine ⟨?_, theirs⟩
        rw [move.expected, checking]
        exact mine
    constructor
    · exact pair_update (R := fun a b x y => a ≠ b → Window x → Window y → x.expected = none)
        inv.apart (fun same => (same rfl).elim)
        (fun j other _ inside insideJ => (entering j other inside insideJ).1)
        fun j other _ insideJ inside => (entering j other inside insideJ).2
    · refine (Function.forall_update_iff _ fun _ task => Checked shared task).mpr
        ⟨move.checked (inv.checked i), ?_⟩
      intro j other
      refine (inv.checked j).keep ?_
      intro inside asked
      rcases move.commits with same | window
      · exact same
      · exact (asked (inv.apart j i other inside window)).elim

/-- In every run whose writes overlap only where neither asks for a root, each
call that asks for `r` and succeeds ran its SQL while the committed root was `r`,
with no root committed since its check. -/
theorem cas_sql_at_expected_root {db : CraftDatabase Db} {s : State Db} {i : ℕ} {req : Request}
    {trail : Trail} {own r : Cid} {answer : Answer}
    (run : Reach (step B L verify nodeId) WindowsApart (start db) s)
    (done : s.calls i = .done req trail own answer) (asked : req.expected = some r) :
    trail.root = r ∧ trail.version = trail.seen := by
  have inv : CasInv s :=
    run.invariant ⟨fun _ _ _ inside => inside.elim, fun _ => trivial⟩
      fun _ _ _ inv disjoint taken => casInv_step B L verify nodeId inv disjoint taken
  have checked := inv.checked i
  rw [done] at checked
  exact checked r asked

def calmEnv : Env := ⟨none, [], fun _ => none⟩

section Schedules

variable {guard : State Db → Label → Prop} {s : Shared Db} {calls : ℕ → Task} {i : ℕ}
  {req : Request}

theorem path_enter (idle : calls i = .idle)
    (verified : verifyStep verify nodeId s req = .checkCas req)
    (passed : checkCasStep s req = .acquire req s.version)
    (invoked : guard ⟨s, calls⟩ (.invoke i req))
    (verifying : guard ⟨s, Function.update calls i (.verify req)⟩ (.advance i calmEnv))
    (checking : guard ⟨s, Function.update calls i (.checkCas req)⟩ (.advance i calmEnv)) :
    Path (step B L verify nodeId) guard ⟨s, calls⟩
      [.invoke i req, .advance i calmEnv, .advance i calmEnv]
      ⟨s, Function.update calls i (.acquire req s.version)⟩ := by
  have invokes : step B L verify nodeId ⟨s, calls⟩ (.invoke i req) =
      some ⟨s, Function.update calls i (.verify req)⟩ := by
    simp only [step, idle]
  have verifies : advance B L verify nodeId s i calmEnv (.verify req) =
      some (s, .checkCas req) := by
    rw [advance, verified]
  have checks : advance B L verify nodeId s i calmEnv (.checkCas req) =
      some (s, .acquire req s.version) := by
    rw [advance, passed]
  refine .cons invoked invokes (.cons verifying (step_advance B L verify nodeId verifies) ?_)
  exact .cons checking (step_advance B L verify nodeId checks) (.nil _)

theorem path_run {seen : ℕ} {contents : Db} (free : s.lock = none)
    (ran : L.execute s.db.contents req.sql = (contents, .ok ()))
    (acquiring : guard ⟨s, Function.update calls i (.acquire req seen)⟩ (.advance i calmEnv))
    (running : guard ⟨⟨s.db, some i, s.version⟩, Function.update calls i (.runSql req seen)⟩
      (.advance i calmEnv)) :
    Path (step B L verify nodeId) guard ⟨s, Function.update calls i (.acquire req seen)⟩
      [.advance i calmEnv, .advance i calmEnv]
      ⟨⟨{ s.db with contents := contents }, some i, s.version⟩,
        Function.update calls i (.sync req ⟨seen, s.version, s.db.rootCid⟩)⟩ := by
  have acquires : advance B L verify nodeId s i calmEnv (.acquire req seen) =
      some (⟨s.db, some i, s.version⟩, .runSql req seen) := by
    simp only [advance, free]
  have runs : advance B L verify nodeId ⟨s.db, some i, s.version⟩ i calmEnv (.runSql req seen) =
      some (⟨{ s.db with contents := contents }, some i, s.version⟩,
        .sync req ⟨seen, s.version, s.db.rootCid⟩) := by
    simp only [advance, ran]
  refine .cons acquiring (step_advance B L verify nodeId acquires) ?_
  exact .cons running (step_advance B L verify nodeId runs) (.nil _)

theorem path_commit {env : Env} {trail : Trail} {vfs : Craftec.Vfs.Commit.CidVfs} {own : Cid}
    (synced : syncPagesToVfs B (L.file s.db.contents) env s.db.vfs = (vfs, .ok own))
    (syncing : guard ⟨s, Function.update calls i (.sync req trail)⟩ (.advance i env))
    (setting : guard ⟨{ s with db := { s.db with vfs := vfs } },
      Function.update calls i (.setRoot req trail own)⟩ (.advance i calmEnv))
    (releasing : ∀ s, guard ⟨s, Function.update calls i (.release req trail own)⟩
      (.advance i calmEnv)) :
    Path (step B L verify nodeId) guard ⟨s, Function.update calls i (.sync req trail)⟩
      [.advance i env, .advance i calmEnv, .advance i calmEnv]
      ⟨⟨{ s.db with vfs := vfs, rootCid := own }, none, s.version + 1⟩,
        Function.update calls i (.readRoot req trail own)⟩ := by
  have syncs : advance B L verify nodeId s i env (.sync req trail) =
      some ({ s with db := { s.db with vfs := vfs } }, .setRoot req trail own) := by
    simp only [advance, synced]
  refine .cons syncing (step_advance B L verify nodeId syncs) ?_
  refine .cons setting (step_advance B L verify nodeId rfl) ?_
  exact .cons (releasing _) (step_advance B L verify nodeId rfl) (.nil _)

theorem path_locked {seen : ℕ} {env : Env} {contents : Db} {vfs : Craftec.Vfs.Commit.CidVfs}
    {own : Cid} (free : s.lock = none)
    (ran : L.execute s.db.contents req.sql = (contents, .ok ()))
    (synced : syncPagesToVfs B (L.file contents) env s.db.vfs = (vfs, .ok own))
    (allowed : ∀ s t env, guard ⟨s, Function.update calls i t⟩ (.advance i env)) :
    Path (step B L verify nodeId) guard ⟨s, Function.update calls i (.acquire req seen)⟩
      [.advance i calmEnv, .advance i calmEnv, .advance i env, .advance i calmEnv,
        .advance i calmEnv]
      ⟨⟨⟨s.db.dbId, s.db.owner, vfs, own, contents⟩, none, s.version + 1⟩,
        Function.update calls i (.readRoot req ⟨seen, s.version, s.db.rootCid⟩ own)⟩ := by
  have runs : Path (step B L verify nodeId) guard
      ⟨s, Function.update calls i (.acquire req seen)⟩ _ _ :=
    path_run B L verify nodeId free ran (allowed _ _ _) (allowed _ _ _)
  exact runs.append (path_commit B L verify nodeId synced (allowed _ _ _) (allowed _ _ _)
    fun _ => allowed _ _ _)

theorem path_read {trail : Trail} {own : Cid}
    (allowed : ∀ t env, guard ⟨s, Function.update calls i t⟩ (.advance i env)) :
    Path (step B L verify nodeId) guard ⟨s, Function.update calls i (.readRoot req trail own)⟩
      [.advance i calmEnv]
      ⟨s, Function.update calls i (.done req trail own (.root s.db.rootCid))⟩ :=
  .cons (allowed _ _) (step_advance B L verify nodeId rfl) (.nil _)

end Schedules

def sign (payload : Bytes) (writer : NodeId) : Bytes := writer.asBytes ++ payload

def signVerify : Verifier := fun payload signature writer =>
  decide (signature = sign payload writer)

def insertSql : String := "INSERT INTO t VALUES (1)"

/-- The owner's signed insert, asking for `root`. -/
def signedInsert (root : Option Cid) : Request :=
  .signedWrite ⟨someOwner, insertSql, root,
    sign (buildSignedPayload someOwner insertSql root) someOwner⟩

theorem signedInsert_verified (s : Shared ℕ) (root : Option Cid) :
    verifyStep signVerify someOwner s (signedInsert root) = .checkCas (signedInsert root) := by
  simp [verifyStep, signedInsert, verifySignature, signVerify]

theorem signedInsert_passed (s : Shared ℕ) (root : Option Cid) (owner : s.db.owner = someOwner)
    (current : root = none ∨ root = some s.db.rootCid) :
    checkCasStep s (signedInsert root) = .acquire (signedInsert root) s.version := by
  have mine : checkOwnership (signedInsert root).writer s.db.owner = .ok () := by
    rw [owner]
    rfl
  have same : Craftec.Sql.RpcWrite.checkCas (signedInsert root).expected (some s.db.rootCid) =
      .ok () := by
    rcases current with rfl | rfl
    · rfl
    · simp [signedInsert, Request.expected, Craftec.Sql.RpcWrite.checkCas]
  simp only [checkCasStep, enterExecute, mine, same]

theorem insert_runs (n : ℕ) (root : Option Cid) :
    pageEngine.execute n (signedInsert root).sql = (n + 1, .ok ()) := by
  simp [pageEngine, signedInsert, Request.sql, insertSql]

def vfsThree : Craftec.Vfs.Commit.CidVfs :=
  (vfs2.stored Blake3.byLeading [(0, fillPage 1), (1, fillPage 1), (2, fillPage 1)]).publish
    Blake3.byLeading

theorem vfsThree_entries : vfsThree.pageIndex.entries = pageEntries 3 := by
  show ((vfs2.pageIndex.entries.insert 0 (Cid.fromData Blake3.byLeading (fillPage 1))).insert 1
    (Cid.fromData Blake3.byLeading (fillPage 1))).insert 2
    (Cid.fromData Blake3.byLeading (fillPage 1)) = pageEntries 3
  rw [leading_fillPage, vfs2_entries]
  decide

theorem roots_one_two : (databaseAt 2 vfs2).rootCid ≠ (databaseAt 1 vfs1).rootCid := by
  rw [databaseAt, databaseAt, PageIndex.serialize, PageIndex.serialize, vfs1_entries, vfs2_entries,
    serializeEntries, mergeSort_toList, serializeEntries, mergeSort_toList]
  decide

theorem roots_two_three : (databaseAt 3 vfsThree).rootCid ≠ (databaseAt 2 vfs2).rootCid := by
  rw [databaseAt, databaseAt, PageIndex.serialize, PageIndex.serialize, vfsThree_entries,
    vfs2_entries, serializeEntries, mergeSort_toList, serializeEntries, mergeSort_toList]
  decide

theorem sync_two : syncPagesToVfs Blake3.byLeading (pageEngine.file 2)
    (quietEnv (pageEngine.file 2) vfs1) vfs1 = (vfs2, .ok (databaseAt 2 vfs2).rootCid) :=
  sync_pageEngine Blake3.byLeading 2 vfs1 [(0, fillPage 1), (1, fillPage 1)] rfl rfl rfl (by simp)

theorem sync_three : syncPagesToVfs Blake3.byLeading (pageEngine.file 3)
    (quietEnv (pageEngine.file 3) vfs2) vfs2 = (vfsThree, .ok (databaseAt 3 vfsThree).rootCid) :=
  sync_pageEngine Blake3.byLeading 3 vfs2 [(0, fillPage 1), (1, fillPage 1), (2, fillPage 1)] rfl
    rfl rfl (by simp)

/-- Let call `i` in with its signed insert. -/
def enterSchedule (i : ℕ) (root : Option Cid) : List Label :=
  [.invoke i (signedInsert root), .advance i calmEnv, .advance i calmEnv]

/-- Call `i` from the lock to its release, syncing a file of `n` pages. -/
def lockedSchedule (i n : ℕ) (v : Craftec.Vfs.Commit.CidVfs) : List Label :=
  [.advance i calmEnv, .advance i calmEnv, .advance i (quietEnv (pageEngine.file n) v),
    .advance i calmEnv, .advance i calmEnv]

/-- Two signed inserts that ask for (or do not mind) the same root are both let
in, then run one after the other. -/
def overlapSchedule (root : Option Cid) : List Label :=
  enterSchedule 0 root ++ enterSchedule 1 root ++ lockedSchedule 0 2 vfs1 ++ lockedSchedule 1 3 vfs2

def overlapState (root : Option Cid) : State ℕ :=
  ⟨⟨databaseAt 3 vfsThree, none, 2⟩,
    Function.update (Function.update (fun _ => .idle) 0
      (.readRoot (signedInsert root) ⟨0, 0, (databaseAt 1 vfs1).rootCid⟩ (databaseAt 2 vfs2).rootCid))
      1 (.readRoot (signedInsert root) ⟨0, 1, (databaseAt 2 vfs2).rootCid⟩
        (databaseAt 3 vfsThree).rootCid)⟩

theorem update_swap (a b : Task) :
    Function.update (Function.update (fun _ : ℕ => Task.idle) 0 a) 1 b =
      Function.update (Function.update (fun _ => .idle) 1 b) 0 a := by
  have apart : (0 : ℕ) ≠ 1 := by decide
  rw [Function.update_comm apart]

theorem path_overlap (root : Option Cid)
    (current : root = none ∨ root = some (databaseAt 1 vfs1).rootCid) :
    Path (step Blake3.byLeading pageEngine signVerify someOwner) anyStep
      (start (databaseAt 1 vfs1)) (overlapSchedule root) (overlapState root) := by
  have first : Path (step Blake3.byLeading pageEngine signVerify someOwner) anyStep
      (start (databaseAt 1 vfs1)) (enterSchedule 0 root) _ :=
    path_enter _ _ _ _ rfl (signedInsert_verified _ _) (signedInsert_passed _ _ rfl current) trivial
      trivial trivial
  have second : Path (step Blake3.byLeading pageEngine signVerify someOwner) anyStep
      ⟨⟨databaseAt 1 vfs1, none, 0⟩, Function.update (fun _ => .idle) 0
        (.acquire (signedInsert root) 0)⟩ (enterSchedule 1 root) _ :=
    path_enter _ _ _ _ rfl (signedInsert_verified _ _) (signedInsert_passed _ _ rfl current) trivial
      trivial trivial
  have third : Path (step Blake3.byLeading pageEngine signVerify someOwner) anyStep
      ⟨⟨databaseAt 1 vfs1, none, 0⟩, Function.update (Function.update (fun _ => .idle) 1
        (.acquire (signedInsert root) 0)) 0 (.acquire (signedInsert root) 0)⟩
      (lockedSchedule 0 2 vfs1) _ :=
    path_locked _ _ _ _ rfl (insert_runs 1 root) sync_two fun _ _ _ => trivial
  have fourth : Path (step Blake3.byLeading pageEngine signVerify someOwner) anyStep
      ⟨⟨databaseAt 2 vfs2, none, 1⟩, Function.update (Function.update (fun _ => .idle) 0
        (.readRoot (signedInsert root) ⟨0, 0, (databaseAt 1 vfs1).rootCid⟩
          (databaseAt 2 vfs2).rootCid)) 1 (.acquire (signedInsert root) 0)⟩
      (lockedSchedule 1 3 vfs2) _ :=
    path_locked _ _ _ _ rfl (insert_runs 2 root) sync_three fun _ _ _ => trivial
  rw [← update_swap] at third
  have joined := (first.append second).append third
  rw [← update_swap] at joined
  exact joined.append fourth

/-- Both writers ask for the first root and succeed; the second ran its SQL at
the root of the first. -/
theorem stale_cas_write :
    ∃ s trail, Path (step Blake3.byLeading pageEngine signVerify someOwner) anyStep
        (start (databaseAt 1 vfs1))
        (overlapSchedule (some (databaseAt 1 vfs1).rootCid) ++ [.advance 1 calmEnv]) s ∧
      s.calls 1 = .done (signedInsert (some (databaseAt 1 vfs1).rootCid)) trail
        (databaseAt 3 vfsThree).rootCid (.root (databaseAt 3 vfsThree).rootCid) ∧
      trail.root ≠ (databaseAt 1 vfs1).rootCid := by
  have overlap := path_overlap (some (databaseAt 1 vfs1).rootCid) (.inr rfl)
  exact ⟨_, _, overlap.append (path_read _ _ _ _ fun _ _ => trivial), rfl, roots_one_two⟩

theorem alone_windowsApart (s : Shared ℕ) (t : Task) (env : Env) :
    WindowsApart ⟨s, Function.update (fun _ => .idle) 0 t⟩ (.advance 0 env) := by
  have idle : ∀ j, j ≠ 0 → ¬ Window (Function.update (fun _ => Task.idle) 0 t j) := by
    intro j other
    rw [Function.update_of_ne other]
    exact id
  simp only [WindowsApart]
  split
  · exact fun j other inside => (idle j other inside).elim
  · exact fun j other inside => (idle j other inside).elim
  · trivial

theorem cas_single_writer :
    ∃ s, Reach (step Blake3.byLeading pageEngine signVerify someOwner) WindowsApart
        (start (databaseAt 1 vfs1)) s ∧
      ∃ trail own answer,
        s.calls 0 = .done (signedInsert (some (databaseAt 1 vfs1).rootCid)) trail own answer ∧
          trail.root = (databaseAt 1 vfs1).rootCid ∧ trail.version = trail.seen := by
  have enters : Path (step Blake3.byLeading pageEngine signVerify someOwner) WindowsApart
      (start (databaseAt 1 vfs1)) _ _ :=
    path_enter (i := 0) _ _ _ _ rfl (signedInsert_verified _ (some (databaseAt 1 vfs1).rootCid))
      (signedInsert_passed _ _ rfl (.inr rfl)) trivial (alone_windowsApart _ _ _)
      (alone_windowsApart _ _ _)
  have runs : Path (step Blake3.byLeading pageEngine signVerify someOwner) WindowsApart
      ⟨⟨databaseAt 1 vfs1, none, 0⟩,
        Function.update (fun _ => .idle) 0 (.acquire (signedInsert (some (databaseAt 1 vfs1).rootCid)) 0)⟩ _ _ :=
    path_locked _ _ _ _ rfl (insert_runs 1 (some (databaseAt 1 vfs1).rootCid)) sync_two alone_windowsApart
  have run := ((enters.append runs).append
    (path_read _ _ _ _ fun t env => alone_windowsApart _ t env)).reach
  exact ⟨_, run, _, _, _, rfl, cas_sql_at_expected_root Blake3.byLeading pageEngine signVerify
    someOwner (i := 0) run rfl rfl⟩

/-- Between taking and releasing `write_conn`. -/
def Holding : Task → Prop
  | .runSql _ _ | .sync _ _ | .setRoot _ _ _ | .release _ _ _ => True
  | _ => False

def OwnRoot (s : Shared Db) : Task → Prop
  | .release _ _ own | .readRoot _ _ own => s.db.rootCid = own
  | .done _ _ own answer => answer = .root own
  | _ => True

def Reading : Task → Prop
  | .readRoot _ _ _ => True
  | _ => False

structure OwnInv (s : State Db) : Prop where
  locked : ∀ i, Holding (s.calls i) → s.shared.lock = some i
  quiet : ∀ i j, Reading (s.calls i) → ¬ Holding (s.calls j)
  own : ∀ i, OwnRoot s.shared (s.calls i)

theorem Move.lock {s s' : Shared Db} {i : ℕ} {t u : Task} (move : Move s i t s' u) :
    s'.lock = s.lock ∨ s.lock = none ∨ Holding t := by
  cases move with
  | acquire req seen free => exact .inr (.inl free)
  | refuseRun | refuseSync | release => exact .inr (.inr trivial)
  | _ => exact .inl rfl

theorem Move.holds {s s' : Shared Db} {i : ℕ} {t u : Task} (move : Move s i t s' u)
    (holding : Holding u) :
    (∃ req seen, t = .acquire req seen ∧ s'.lock = some i) ∨ (Holding t ∧ s'.lock = s.lock) := by
  cases move with
  | acquire req seen free => exact .inl ⟨req, seen, rfl, rfl⟩
  | run | sync | setRoot => exact .inr ⟨trivial, rfl⟩
  | _ => exact holding.elim

theorem Move.reads {s s' : Shared Db} {i : ℕ} {t u : Task} (move : Move s i t s' u)
    (reading : Reading u) : Holding t := by
  cases move with
  | release => trivial
  | _ => exact reading.elim

theorem Move.own {s s' : Shared Db} {i : ℕ} {t u : Task} (move : Move s i t s' u)
    (own : OwnRoot s t) : OwnRoot s' u := by
  cases move with
  | setRoot => rfl
  | release => exact own
  | read req trail root =>
    have found : s.db.rootCid = root := own
    rw [OwnRoot, found]
  | _ => trivial

theorem Move.root {s s' : Shared Db} {i : ℕ} {t u : Task} (move : Move s i t s' u) :
    s'.db.rootCid = s.db.rootCid ∨ Holding t := by
  cases move with
  | setRoot => exact .inr trivial
  | _ => exact .inl rfl

theorem OwnRoot.keep {s s' : Shared Db} {t : Task} (own : OwnRoot s t)
    (same : Holding t ∨ Reading t → s'.db.rootCid = s.db.rootCid) : OwnRoot s' t := by
  cases t with
  | release => exact (same (.inl trivial)).trans own
  | readRoot => exact (same (.inr trivial)).trans own
  | _ => exact own

theorem OwnInv.single {s : State Db} (inv : OwnInv s) {i j : ℕ} (one : Holding (s.calls i))
    (two : Holding (s.calls j)) : i = j := by
  have held := inv.locked i one
  rw [inv.locked j two] at held
  exact (Option.some.inj held).symm

theorem ownInv_step {s s' : State Db} {a : Label} (inv : OwnInv s) (first : ReadsFirst s a)
    (taken : step B L verify nodeId s a = some s') : OwnInv s' := by
  rcases step_cases B L verify nodeId taken with
    ⟨i, req, rfl, idle, rfl⟩ | ⟨i, env, shared, u, rfl, move, rfl⟩
  · have holders : ∀ j, Holding (Function.update s.calls i (.verify req) j) →
        Holding (s.calls j) := of_update False.elim
    have readers : ∀ j, Reading (Function.update s.calls i (.verify req) j) →
        Reading (s.calls j) := of_update False.elim
    refine ⟨fun j holding => inv.locked j (holders j holding),
      fun j k reading holding => inv.quiet j k (readers j reading) (holders k holding), ?_⟩
    exact (Function.forall_update_iff _ fun _ task => OwnRoot s.shared task).mpr
      ⟨trivial, fun j _ => inv.own j⟩
  · constructor
    · refine (Function.forall_update_iff _ fun j task => Holding task → shared.lock = some j).mpr
        ⟨?_, ?_⟩
      · intro holding
        rcases move.holds holding with ⟨_, _, _, mine⟩ | ⟨before, same⟩
        · exact mine
        · exact same.trans (inv.locked i before)
      · intro j other holding
        have theirs := inv.locked j holding
        rcases move.lock with same | free | mine
        · exact same.trans theirs
        · rw [free] at theirs
          cases theirs
        · exact (other (inv.single holding mine)).elim
    · refine pair_update (R := fun _ _ x y => Reading x → ¬ Holding y) inv.quiet ?_ ?_ ?_
      · intro reading holding
        cases u <;> first | exact reading.elim | exact holding.elim
      · intro j other reading holding
        exact other (inv.single holding (move.reads reading))
      · intro j _ reading holding
        rcases move.holds holding with ⟨req, seen, acquiring, _⟩ | ⟨before, _⟩
        · -- the lock is not taken while call `j` has its root still to read
          simp only [ReadsFirst, acquiring] at first
          cases standing : s.calls j with
          | readRoot req trail own => exact first j req trail own standing
          | _ =>
            rw [standing] at reading
            exact reading.elim
        · exact inv.quiet j i reading before
    · refine (Function.forall_update_iff _ fun _ task => OwnRoot shared task).mpr
        ⟨move.own (inv.own i), ?_⟩
      intro j other
      refine (inv.own j).keep ?_
      intro standing
      rcases move.root with same | mine
      · exact same
      · rcases standing with holding | reading
        · exact (other (inv.single holding mine)).elim
        · exact (inv.quiet j i reading mine).elim

/-- In every run in which `write_conn` is taken only after earlier calls have
read their root back, each call that succeeds reports the root it committed. -/
theorem own_root_returned {db : CraftDatabase Db} {s : State Db} {i : ℕ} {req : Request}
    {trail : Trail} {own : Cid} {answer : Answer}
    (run : Reach (step B L verify nodeId) ReadsFirst (start db) s)
    (done : s.calls i = .done req trail own answer) : answer = .root own := by
  have inv : OwnInv s :=
    run.invariant ⟨fun _ holding => holding.elim, fun _ _ reading => reading.elim, fun _ => trivial⟩
      fun _ _ _ inv first taken => ownInv_step B L verify nodeId inv first taken
  have known := inv.own i
  rw [done] at known
  exact known

/-- The first writer reads the root back after the second has committed. -/
theorem foreign_root_returned :
    ∃ s trail, Path (step Blake3.byLeading pageEngine signVerify someOwner) anyStep
        (start (databaseAt 1 vfs1)) (overlapSchedule none ++ [.advance 0 calmEnv]) s ∧
      s.calls 0 = .done (signedInsert none) trail (databaseAt 2 vfs2).rootCid
        (.root (databaseAt 3 vfsThree).rootCid) ∧
      (databaseAt 3 vfsThree).rootCid ≠ (databaseAt 2 vfs2).rootCid := by
  have overlap := path_overlap none (.inl rfl)
  rw [overlapState, update_swap] at overlap
  exact ⟨_, _, overlap.append (path_read _ _ _ _ fun _ _ => trivial), rfl, roots_two_three⟩

theorem alone_readsFirst (s : Shared ℕ) (t : Task) (env : Env) :
    ReadsFirst ⟨s, Function.update (fun _ => .idle) 0 t⟩ (.advance 0 env) := by
  simp only [ReadsFirst, Function.update_self]
  split
  · intro j req trail own
    rcases eq_or_ne j 0 with rfl | other
    · simp
    · simp [other]
  · trivial

theorem own_root_single_writer :
    ∃ s trail answer, Reach (step Blake3.byLeading pageEngine signVerify someOwner) ReadsFirst
        (start (databaseAt 1 vfs1)) s ∧
      s.calls 0 = .done (signedInsert none) trail (databaseAt 2 vfs2).rootCid answer ∧
      answer = .root (databaseAt 2 vfs2).rootCid := by
  have enters : Path (step Blake3.byLeading pageEngine signVerify someOwner) ReadsFirst
      (start (databaseAt 1 vfs1)) _ _ :=
    path_enter (i := 0) _ _ _ _ rfl (signedInsert_verified _ none)
      (signedInsert_passed _ _ rfl (.inl rfl)) trivial (alone_readsFirst _ _ _)
      (alone_readsFirst _ _ _)
  have runs : Path (step Blake3.byLeading pageEngine signVerify someOwner) ReadsFirst
      ⟨⟨databaseAt 1 vfs1, none, 0⟩,
        Function.update (fun _ => .idle) 0 (.acquire (signedInsert none) 0)⟩ _ _ :=
    path_locked _ _ _ _ rfl (insert_runs 1 none) sync_two alone_readsFirst
  have run := ((enters.append runs).append
    (path_read _ _ _ _ fun t env => alone_readsFirst _ t env)).reach
  exact ⟨_, _, _, run, rfl, own_root_returned Blake3.byLeading pageEngine signVerify
    someOwner (i := 0) run rfl⟩

end Craftec.Sql.WriteOrder
