/- GID: Craftec/Node/Requests
   generality: I
   digest: Every inbound request that reaches the database, and when only the owner's signature changes it. -/

import Mathlib
import Craftec.Sql.Database
import Craftec.Sql.Histories
import Craftec.Sql.RpcWrite
import Craftec.Types.Digest

set_option autoImplicit false
set_option relaxedAutoImplicit false

namespace Craftec.Node.Requests

open Craftec.Sql.Database (CraftDatabase Env Libsql Row execute_owner owner_of_execute_changes
  pageEngine query_contents_eq_iff query_owner quietEnv)
open Craftec.Sql.Histories (databaseAt vfs1)
open Craftec.Sql.RpcWrite (SignedWrite Verifier buildSignedPayload displaySql handleSignedWrite
  handleSignedWrite_cases sqlBytes verifySignature_ok)
open Craftec.Types.Digest (Bytes Blake3 Cid NodeId)

/-- A request from any peer or agent. For an agent: the exported memory of its
module, if any, the pointer and length it passes, and whether a database is attached. -/
inductive Inbound where
  | signedWrite (payload signature : Bytes) (writer : NodeId)
  | sqlExecute (sql : String) (writer : NodeId) (signature : Bytes)
  | sqlQuery (sql : String)
  | agentQuery (memory : Option Bytes) (ptr len : Int32) (attached : Bool)

inductive Outbound where
  | none
  | sqlExecute (root : Cid)
  | sqlQuery (rows : List Row)
  | error (code : ℕ) (message : String)
  | agent (code : ℤ)

/-- The third-party parts of the node: signature check, decoding of a wire
payload, encoding of rows for an agent, and UTF-8 decoding. -/
structure Outside where
  verify : Verifier
  decode : Bytes → Option SignedWrite
  encode : List Row → Option Bytes
  utf8 : Bytes → Option String

variable (B : Blake3) {Db : Type} (L : Libsql Db) (X : Outside) (nodeId : NodeId)

/-- An `i32` cast to a 64-bit `usize`. -/
def toUsize (n : Int32) : ℕ := (n.toInt % 2 ^ 64).toNat

/-- The statement an agent passes, or the code returned without running one. -/
def agentSql (memory : Option Bytes) (ptr len : Int32) (attached : Bool) : Except ℤ String :=
  match memory with
  | none => .error (-3)
  | some data =>
    let first := toUsize ptr
    let last := min (first + toUsize len) (2 ^ 64 - 1)
    if last > data.length then .error (-2)
    else
      match X.utf8 ((data.drop first).take (last - first)) with
      | none => .error (-2)
      | some sql => if attached then .ok sql else .error (-1)

def handle (db : CraftDatabase Db) (env : Env) : Inbound → CraftDatabase Db × Outbound
  | .signedWrite payload signature writer =>
    match X.decode payload with
    | none => (db, .none)
    | some msg =>
      ((handleSignedWrite B L X.verify db { msg with writer := writer, signature := signature }
        env).1, .none)
  | .sqlExecute sql writer signature =>
    if writer ≠ nodeId then (db, .error 403 "not the database owner")
    else if !X.verify (sqlBytes sql) signature writer then (db, .error 403 "invalid signature")
    else
      match db.execute B L sql writer env with
      | (after, .ok ()) => (after, .sqlExecute after.rootCid)
      | (after, .error e) => (after, .error 400 ("execute failed: " ++ displaySql e))
  | .sqlQuery sql =>
    match db.query L sql with
    | (after, .ok rows) => (after, .sqlQuery rows)
    | (after, .error e) => (after, .error 400 ("query failed: " ++ displaySql e))
  | .agentQuery memory ptr len attached =>
    match agentSql X memory ptr len attached with
    | .error code => (db, .agent code)
    | .ok sql =>
      match db.query L sql with
      | (after, .error _) => (after, .agent (-2))
      | (after, .ok rows) =>
        match X.encode rows with
        | some encoded => (after, .agent encoded.length)
        | none => (after, .agent (-3))

def serve (db : CraftDatabase Db) (requests : List (Inbound × Env)) : CraftDatabase Db :=
  requests.foldl (fun db request => (handle B L X nodeId db request.2 request.1).1) db

/-- The request carries a signature valid under the owner's key for its SQL. -/
def Authorised (owner : NodeId) : Inbound → Prop
  | .signedWrite payload signature writer =>
    writer = owner ∧ ∃ msg, X.decode payload = some msg ∧
      X.verify (buildSignedPayload owner msg.sql msg.expectedRoot) signature owner = true
  | .sqlExecute sql writer signature =>
    writer = owner ∧ X.verify (sqlBytes sql) signature owner = true
  | _ => False

def queryText : Inbound → Option String
  | .sqlQuery sql => some sql
  | .agentQuery memory ptr len attached => (agentSql X memory ptr len attached).toOption
  | _ => none

/-- Contents change only while an authorised request is handled. -/
def OnlyAuthorised (db : CraftDatabase Db) (requests : List (Inbound × Env)) : Prop :=
  ∀ before request env later, requests = before ++ (request, env) :: later →
    (handle B L X nodeId (serve B L X nodeId db before) env request).1.contents ≠
      (serve B L X nodeId db before).contents → Authorised X db.owner request

/-- Every query statement that reaches the engine leaves the contents it finds. -/
def QueriesReadOnly (db : CraftDatabase Db) (requests : List (Inbound × Env)) : Prop :=
  ∀ before request env later sql, requests = before ++ (request, env) :: later →
    queryText X request = some sql →
      (serve B L X nodeId db before).vfs.currentRoot = none ∨
        (L.query (serve B L X nodeId db before).contents sql).1 =
          (serve B L X nodeId db before).contents

theorem handle_of_query {db : CraftDatabase Db} {env : Env} {request : Inbound} {sql : String}
    (text : queryText X request = some sql) :
    (handle B L X nodeId db env request).1 = (db.query L sql).1 := by
  cases request with
  | signedWrite | sqlExecute => cases text
  | sqlQuery statement =>
    have same : statement = sql := Option.some.inj text
    subst same
    simp only [handle]
    split <;> rename_i result <;> rw [result]
  | agentQuery memory ptr len attached =>
    simp only [queryText] at text
    cases read : agentSql X memory ptr len attached with
    | error code =>
      rw [read] at text
      cases text
    | ok statement =>
      rw [read] at text
      have same : statement = sql := Option.some.inj text
      subst same
      simp only [handle, read]
      split
      · rename_i result
        rw [result]
      · rename_i result
        rw [result]
        -- an answer that cannot be encoded comes after the statement ran
        split <;> rfl

theorem handle_of_other {db : CraftDatabase Db} {env : Env} {request : Inbound}
    (other : queryText X request = none) :
    (handle B L X nodeId db env request).1 = db ∨
      ∃ sql writer, (handle B L X nodeId db env request).1 = (db.execute B L sql writer env).1 ∧
        (writer = db.owner → Authorised X db.owner request) := by
  cases request with
  | signedWrite payload signature writer =>
    simp only [handle]
    split
    · exact .inl rfl
    · rename_i msg decoded
      rcases handleSignedWrite_cases B L X.verify db
        { msg with writer := writer, signature := signature } env with kept | ⟨signed, executed⟩
      · exact .inl kept
      · refine .inr ⟨_, _, executed, ?_⟩
        intro owner
        have mine : writer = db.owner := owner
        subst mine
        exact ⟨rfl, msg, decoded, verifySignature_ok signed⟩
  | sqlExecute sql writer signature =>
    simp only [handle]
    split
    · exact .inl rfl
    · split
      · exact .inl rfl
      · rename_i verified
        refine .inr ⟨sql, writer, ?_, ?_⟩
        · split <;> rename_i result <;> rw [result]
        · rintro rfl
          exact ⟨rfl, by simpa using verified⟩
  | sqlQuery sql => cases other
  | agentQuery memory ptr len attached =>
    simp only [queryText] at other
    cases read : agentSql X memory ptr len attached with
    | error code => exact .inl (by simp only [handle, read])
    | ok sql =>
      rw [read] at other
      cases other

theorem handle_owner (db : CraftDatabase Db) (env : Env) (request : Inbound) :
    (handle B L X nodeId db env request).1.owner = db.owner := by
  cases text : queryText X request with
  | some sql =>
    rw [handle_of_query B L X nodeId text]
    exact query_owner L db sql
  | none =>
    rcases handle_of_other B L X nodeId text with kept | ⟨sql, writer, executed, _⟩
    · rw [kept]
    · rw [executed]
      exact execute_owner B L db sql writer env

theorem serve_owner (db : CraftDatabase Db) (requests : List (Inbound × Env)) :
    (serve B L X nodeId db requests).owner = db.owner := by
  induction requests generalizing db with
  | nil => rfl
  | cons request requests ih =>
    rw [serve, List.foldl_cons]
    exact (ih _).trans (handle_owner B L X nodeId db _ _)

theorem authorised_of_changes {db : CraftDatabase Db} {env : Env} {request : Inbound}
    (other : queryText X request = none)
    (changed : (handle B L X nodeId db env request).1.contents ≠ db.contents) :
    Authorised X db.owner request := by
  rcases handle_of_other B L X nodeId other with kept | ⟨sql, writer, executed, allowed⟩
  · rw [kept] at changed
    exact (changed rfl).elim
  · rw [executed] at changed
    exact allowed (owner_of_execute_changes B L changed)

/-- For every sequence of requests: the contents change only under the owner's
signature exactly when every query statement received leaves them as they are. -/
theorem only_authorised_iff (db : CraftDatabase Db) (requests : List (Inbound × Env)) :
    OnlyAuthorised B L X nodeId db requests ↔ QueriesReadOnly B L X nodeId db requests := by
  constructor
  · intro only before request env later sql split text
    by_contra writes
    have changed : (handle B L X nodeId (serve B L X nodeId db before) env request).1.contents ≠
        (serve B L X nodeId db before).contents := by
      rw [handle_of_query B L X nodeId text]
      intro same
      exact writes ((query_contents_eq_iff L _ sql).mp same)
    have allowed := only before request env later split changed
    cases request with
    | signedWrite | sqlExecute => cases text
    | sqlQuery | agentQuery => exact allowed
  · intro readOnly before request env later split changed
    cases text : queryText X request with
    | none =>
      have allowed := authorised_of_changes B L X nodeId text changed
      rwa [serve_owner] at allowed
    | some sql =>
      exfalso
      apply changed
      rw [handle_of_query B L X nodeId text]
      exact (query_contents_eq_iff L _ sql).mpr (readOnly before request env later sql split text)

def plainEngine : Libsql ℕ :=
  { pageEngine with
    query := fun n sql => ((pageEngine.execute n sql).1, (pageEngine.execute n sql).2.map fun _ => []) }

def unsigned : Outside :=
  ⟨fun _ _ _ => false, fun _ => none, fun _ => none, fun _ => none⟩

/-- One unsigned query from any peer inserts a row. -/
theorem unsigned_query_inserts :
    ¬ OnlyAuthorised Blake3.byLeading plainEngine unsigned (databaseAt 1 vfs1).owner
      (databaseAt 1 vfs1) [(.sqlQuery "INSERT INTO t VALUES (1)", quietEnv [] vfs1)] := by
  intro only
  have inserts : (plainEngine.query 1 "INSERT INTO t VALUES (1)").1 = 2 := by
    simp [plainEngine, pageEngine]
  refine only [] (.sqlQuery "INSERT INTO t VALUES (1)") (quietEnv [] vfs1) [] rfl ?_
  rw [handle_of_query _ _ _ _ rfl]
  intro same
  rcases (query_contents_eq_iff plainEngine _ _).mp same with rootless | kept
  · cases rootless
  · have unchanged : (plainEngine.query 1 "INSERT INTO t VALUES (1)").1 = 1 := kept
    rw [inserts] at unchanged
    cases unchanged

end Craftec.Node.Requests
