/- GID: Craftec/Sql/Writers
   generality: I
   digest: Concurrent signed writes and SqlExecute calls as interleaved steps. -/

import Mathlib
import Craftec.Library.Run
import Craftec.Sql.Database
import Craftec.Sql.RpcWrite
import Craftec.Types.Digest

set_option autoImplicit false
set_option relaxedAutoImplicit false

namespace Craftec.Sql.Writers

open Craftec.Library.Run (Reach anyStep reach_step)
open Craftec.Sql.Database (CraftDatabase Env Libsql SqlError checkOwnership syncPagesToVfs)
open Craftec.Sql.RpcWrite
open Craftec.Types.Digest (Bytes Blake3 Cid NodeId)

inductive Request where
  | signedWrite (msg : SignedWrite)
  | sqlExecute (sql : String) (writer : NodeId) (signature : Bytes)

def Request.sql : Request → String
  | .signedWrite msg => msg.sql
  | .sqlExecute sql _ _ => sql

def Request.writer : Request → NodeId
  | .signedWrite msg => msg.writer
  | .sqlExecute _ writer _ => writer

/-- The root the caller asks for; `SqlExecute` never asks for one. -/
def Request.expected : Request → Option Cid
  | .signedWrite msg => msg.expectedRoot
  | .sqlExecute _ _ _ => none

inductive Answer where
  | root (cid : Cid)
  | sqlError (e : SqlError)
  | rpcError (code : ℕ) (message : String)
  deriving DecidableEq

/-- How a failing `execute` is reported. -/
def Request.fail : Request → SqlError → Answer
  | .signedWrite _, e => .sqlError e
  | .sqlExecute _ _ _, e => .rpcError 400 ("execute failed: " ++ displaySql e)

/-- For the statements about runs only: how many roots had been committed when
the call was let through, how many when its SQL ran, and the root at that moment. -/
structure Trail where
  seen : ℕ
  version : ℕ
  root : Cid

/-- Where a call stands: each constructor names the step it takes next. -/
inductive Task where
  | idle
  | verify (req : Request)
  | checkCas (req : Request)
  | acquire (req : Request) (seen : ℕ)
  | runSql (req : Request) (seen : ℕ)
  | sync (req : Request) (trail : Trail)
  | setRoot (req : Request) (trail : Trail) (own : Cid)
  | release (req : Request) (trail : Trail) (own : Cid)
  | readRoot (req : Request) (trail : Trail) (own : Cid)
  | refused (req : Request) (answer : Answer)
  | done (req : Request) (trail : Trail) (own : Cid) (answer : Answer)

/-- The database, the holder of `write_conn`, and the number of roots committed. -/
structure Shared (Db : Type) where
  db : CraftDatabase Db
  lock : Option ℕ
  version : ℕ

structure State (Db : Type) where
  shared : Shared Db
  calls : ℕ → Task

inductive Label where
  | invoke (i : ℕ) (req : Request)
  | advance (i : ℕ) (env : Env)

variable (B : Blake3) {Db : Type} (L : Libsql Db) (verify : Verifier) (nodeId : NodeId)

/-- The ownership check that opens `execute`. -/
def enterExecute (s : Shared Db) (req : Request) : Task :=
  match checkOwnership req.writer s.db.owner with
  | .error e => .refused req (req.fail e)
  | .ok () => .acquire req s.version

/-- The checks before `execute`, up to the first shared read. -/
def verifyStep (s : Shared Db) : Request → Task
  | .signedWrite msg =>
    match verifySignature verify msg with
    | .error e => .refused (.signedWrite msg) (.sqlError e)
    | .ok () => .checkCas (.signedWrite msg)
  | .sqlExecute sql writer signature =>
    if writer ≠ nodeId then
      .refused (.sqlExecute sql writer signature) (.rpcError 403 "not the database owner")
    else if !verify (sqlBytes sql) signature writer then
      .refused (.sqlExecute sql writer signature) (.rpcError 403 "invalid signature")
    else enterExecute s (.sqlExecute sql writer signature)

def checkCasStep (s : Shared Db) (req : Request) : Task :=
  match checkOwnership req.writer s.db.owner with
  | .error e => .refused req (.sqlError e)
  | .ok () =>
    match RpcWrite.checkCas req.expected (some s.db.rootCid) with
    | .error e => .refused req (.sqlError e)
    | .ok () => enterExecute s req

def advance (s : Shared Db) (i : ℕ) (env : Env) : Task → Option (Shared Db × Task)
  | .idle | .refused _ _ | .done _ _ _ _ => none
  | .verify req => some (s, verifyStep verify nodeId s req)
  | .checkCas req => some (s, checkCasStep s req)
  | .acquire req seen =>
    match s.lock with
    | none => some ({ s with lock := some i }, .runSql req seen)
    | some _ => none
  | .runSql req seen =>
    match L.execute s.db.contents req.sql with
    | (contents, .error e) =>
      some (⟨{ s.db with contents := contents }, none, s.version⟩,
        .refused req (req.fail (.sqlSyntaxError e)))
    | (contents, .ok ()) =>
      some ({ s with db := { s.db with contents := contents } },
        .sync req ⟨seen, s.version, s.db.rootCid⟩)
  | .sync req trail =>
    match syncPagesToVfs B (L.file s.db.contents) env s.db.vfs with
    | (vfs, .error e) =>
      some (⟨{ s.db with vfs := vfs }, none, s.version⟩, .refused req (req.fail e))
    | (vfs, .ok newRoot) =>
      some ({ s with db := { s.db with vfs := vfs } }, .setRoot req trail newRoot)
  | .setRoot req trail own =>
    some (⟨{ s.db with rootCid := own }, s.lock, s.version + 1⟩, .release req trail own)
  | .release req trail own => some ({ s with lock := none }, .readRoot req trail own)
  | .readRoot req trail own => some (s, .done req trail own (.root s.db.rootCid))

def step (s : State Db) : Label → Option (State Db)
  | .invoke i req =>
    match s.calls i with
    | .idle => some { s with calls := Function.update s.calls i (.verify req) }
    | _ => none
  | .advance i env =>
    match advance B L verify nodeId s.shared i env (s.calls i) with
    | some (shared, t) => some ⟨shared, Function.update s.calls i t⟩
    | none => none

def start (db : CraftDatabase Db) : State Db := ⟨⟨db, none, 0⟩, fun _ => .idle⟩

theorem step_advance {s s' : Shared Db} {calls : ℕ → Task} {i : ℕ} {env : Env} {t u : Task}
    (moves : advance B L verify nodeId s i env t = some (s', u)) :
    step B L verify nodeId ⟨s, Function.update calls i t⟩ (.advance i env) =
      some ⟨s', Function.update calls i u⟩ := by
  simp only [step, Function.update_self, moves, Function.update_idem]

def Task.answer : Task → Option Answer
  | .refused _ answer | .done _ _ _ answer => some answer
  | _ => none

/-- How `handle_signed_write` is answered. -/
def signedAnswer : Except SqlError Cid → Answer
  | .ok root => .root root
  | .error e => .sqlError e

section Alone

variable {B L verify nodeId} {calls : ℕ → Task} {i : ℕ}

theorem reach_advance {s s' : Shared Db} {e : Env} {t u : Task}
    (moves : advance B L verify nodeId s i e t = some (s', u)) :
    Reach (step B L verify nodeId) anyStep ⟨s, Function.update calls i t⟩
      ⟨s', Function.update calls i u⟩ :=
  reach_step trivial (step_advance B L verify nodeId moves)

theorem reach_execute {db : CraftDatabase Db} {version seen : ℕ} {req : Request} (env : Env)
    (owned : checkOwnership req.writer db.owner = .ok ()) :
    ∃ version' t, Reach (step B L verify nodeId) anyStep
        ⟨⟨db, none, version⟩, Function.update calls i (.acquire req seen)⟩
        ⟨⟨(db.execute B L req.sql req.writer env).1, none, version'⟩, Function.update calls i t⟩ ∧
      t.answer = some (match db.execute B L req.sql req.writer env with
        | (after, .ok ()) => .root after.rootCid
        | (_, .error e) => req.fail e) := by
  have locked : Reach (step B L verify nodeId) anyStep
      ⟨⟨db, none, version⟩, Function.update calls i (.acquire req seen)⟩
      ⟨⟨db, some i, version⟩, Function.update calls i (.runSql req seen)⟩ :=
    reach_advance (e := env) rfl
  cases run : L.execute db.contents req.sql with
  | mk contents result =>
    cases result with
    | error e =>
      simp only [CraftDatabase.execute, owned, run]
      exact ⟨version, .refused req (req.fail (.sqlSyntaxError e)),
        locked.trans (reach_advance (e := env) (by simp only [advance, run])), rfl⟩
    | ok =>
      have ran : Reach (step B L verify nodeId) anyStep
          ⟨⟨db, some i, version⟩, Function.update calls i (.runSql req seen)⟩
          ⟨⟨{ db with contents := contents }, some i, version⟩,
            Function.update calls i (.sync req ⟨seen, version, db.rootCid⟩)⟩ :=
        reach_advance (e := env) (by simp only [advance, run])
      cases synced : syncPagesToVfs B (L.file contents) env db.vfs with
      | mk vfs answer =>
        cases answer with
        | error e =>
          simp only [CraftDatabase.execute, owned, run, synced]
          exact ⟨version, .refused req (req.fail e), (locked.trans ran).trans
            (reach_advance (e := env) (by simp only [advance, synced])), rfl⟩
        | ok own =>
          simp only [CraftDatabase.execute, owned, run, synced]
          refine ⟨version + 1, .done req ⟨seen, version, db.rootCid⟩ own (.root own), ?_, rfl⟩
          have committed : Reach (step B L verify nodeId) anyStep
              ⟨⟨{ db with contents := contents }, some i, version⟩,
                Function.update calls i (.sync req ⟨seen, version, db.rootCid⟩)⟩
              ⟨⟨{ db with contents := contents, vfs := vfs }, some i, version⟩,
                Function.update calls i (.setRoot req ⟨seen, version, db.rootCid⟩ own)⟩ :=
            reach_advance (e := env) (by simp only [advance, synced])
          refine (locked.trans ran).trans (committed.trans ?_)
          -- the new root, the release of the lock, and the read of the root
          exact (reach_advance (e := env) rfl).trans
            ((reach_advance (e := env) rfl).trans (reach_advance (e := env) rfl))

/-- A signed write that nothing disturbs is `handleSignedWrite`. -/
theorem reach_signedWrite (db : CraftDatabase Db) (version : ℕ) (msg : SignedWrite) (env : Env) :
    ∃ version' t, Reach (step B L verify nodeId) anyStep
        ⟨⟨db, none, version⟩, Function.update calls i (.verify (.signedWrite msg))⟩
        ⟨⟨(handleSignedWrite B L verify db msg env).1, none, version'⟩, Function.update calls i t⟩ ∧
      t.answer = some (signedAnswer (handleSignedWrite B L verify db msg env).2) := by
  have verifies : Reach (step B L verify nodeId) anyStep
      ⟨⟨db, none, version⟩, Function.update calls i (.verify (.signedWrite msg))⟩
      ⟨⟨db, none, version⟩,
        Function.update calls i (verifyStep verify nodeId ⟨db, none, version⟩ (.signedWrite msg))⟩ :=
    reach_advance (e := env) rfl
  have checks : Reach (step B L verify nodeId) anyStep
      ⟨⟨db, none, version⟩, Function.update calls i (.checkCas (.signedWrite msg))⟩
      ⟨⟨db, none, version⟩,
        Function.update calls i (checkCasStep ⟨db, none, version⟩ (.signedWrite msg))⟩ :=
    reach_advance (e := env) rfl
  unfold handleSignedWrite
  cases signed : verifySignature verify msg with
  | error e =>
    refine ⟨version, _, verifies, ?_⟩
    simp only [verifyStep, signed]
    rfl
  | ok =>
    simp only [verifyStep, signed] at verifies
    cases owned : checkOwnership msg.writer db.owner with
    | error e =>
      refine ⟨version, _, verifies.trans checks, ?_⟩
      simp only [checkCasStep, Request.writer, owned]
      rfl
    | ok =>
      cases current : checkCas msg.expectedRoot (some db.rootCid) with
      | error e =>
        refine ⟨version, _, verifies.trans checks, ?_⟩
        simp only [checkCasStep, Request.writer, Request.expected, owned, current]
        rfl
      | ok =>
        simp only [checkCasStep, enterExecute, Request.writer, Request.expected, owned, current]
          at checks
        obtain ⟨version', t, executes, answered⟩ : ∃ version' t,
            Reach (step B L verify nodeId) anyStep
              ⟨⟨db, none, version⟩, Function.update calls i (.acquire (.signedWrite msg) version)⟩
              ⟨⟨(db.execute B L msg.sql msg.writer env).1, none, version'⟩,
                Function.update calls i t⟩ ∧
            t.answer = some (match db.execute B L msg.sql msg.writer env with
              | (after, .ok ()) => .root after.rootCid
              | (_, .error e) => .sqlError e) := reach_execute env owned
        refine ⟨version', t, ?_, ?_⟩
        · cases result : db.execute B L msg.sql msg.writer env with
          | mk after outcome =>
            rw [result] at executes
            cases outcome <;> exact (verifies.trans checks).trans executes
        · rw [answered]
          cases result : db.execute B L msg.sql msg.writer env with
          | mk after outcome => cases outcome <;> rfl

end Alone

def Window : Task → Prop
  | .acquire _ _ | .runSql _ _ | .sync _ _ | .setRoot _ _ _ => True
  | _ => False

def Task.expected : Task → Option Cid
  | .idle => none
  | .verify req | .checkCas req | .acquire req _ | .runSql req _ | .sync req _
  | .setRoot req _ _ | .release req _ _ | .readRoot req _ _ | .refused req _
  | .done req _ _ _ => req.expected

/-- A call is let through while another is in its window only if neither asks
for a root. -/
def WindowsApart (s : State Db) : Label → Prop
  | .advance i _ =>
    match s.calls i with
    | .verify (.sqlExecute _ _ _) => ∀ j, j ≠ i → Window (s.calls j) → (s.calls j).expected = none
    | .checkCas req =>
      ∀ j, j ≠ i → Window (s.calls j) → req.expected = none ∧ (s.calls j).expected = none
    | _ => True
  | _ => True

/-- `write_conn` is taken only while no call is between releasing it and its
last read of the root. -/
def ReadsFirst (s : State Db) : Label → Prop
  | .advance i _ =>
    match s.calls i with
    | .acquire _ _ => ∀ j req trail own, s.calls j ≠ .readRoot req trail own
    | _ => True
  | _ => True

end Craftec.Sql.Writers
