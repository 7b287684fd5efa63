/- GID: Craftec/Sql/RpcWrite
   generality: I
   digest: Signed writes: the signed payload, the checks before a write, and the handler as one call. -/

import Mathlib
import Craftec.Library.Records
import Craftec.Sql.Database
import Craftec.Types.Digest
import Craftec.Vfs.Index

set_option autoImplicit false
set_option relaxedAutoImplicit false

namespace Craftec.Sql.RpcWrite

open Craftec.Library.Records (toLeBytes toLeBytes_injective append_inj_of_mod)
open Craftec.Sql.Database (CraftDatabase Env Libsql SqlError checkOwnership)
open Craftec.Types.Digest (Bytes Blake3 Cid NodeId)
open Craftec.Vfs.Index (VfsError)

abbrev Verifier := Bytes → Bytes → NodeId → Bool

structure SignedWrite where
  writer : NodeId
  sql : String
  expectedRoot : Option Cid
  signature : Bytes

def sqlBytes (sql : String) : Bytes := sql.toUTF8.data.toList

/-- Both lengths are truncated to 32 bits, as `as u32` does. -/
def buildSignedPayload (writer : NodeId) (sql : String) (root : Option Cid) : Bytes :=
  toLeBytes (UInt32.ofNat writer.asBytes.length) ++ writer.asBytes ++
    toLeBytes (UInt32.ofNat (sqlBytes sql).length) ++ sqlBytes sql ++
    match root with
    | none => [0]
    | some cid => 1 :: cid.asBytes

def checkCas (expectedRoot currentRoot : Option Cid) : Except SqlError Unit :=
  match expectedRoot, currentRoot with
  | some expected, some current =>
    if expected ≠ current then .error (.casConflict expected.display current.display) else .ok ()
  | _, _ => .ok ()

def verifySignature (verify : Verifier) (msg : SignedWrite) : Except SqlError Unit :=
  if verify (buildSignedPayload msg.writer msg.sql msg.expectedRoot) msg.signature msg.writer then
    .ok ()
  else .error (.invalidSignature msg.writer.display)

/-- `handle_signed_write` with nothing running beside it. -/
def handleSignedWrite {Db : Type} (B : Blake3) (L : Libsql Db) (verify : Verifier)
    (db : CraftDatabase Db) (msg : SignedWrite) (env : Env) :
    CraftDatabase Db × Except SqlError Cid :=
  match verifySignature verify msg with
  | .error e => (db, .error e)
  | .ok () =>
    match checkOwnership msg.writer db.owner with
    | .error e => (db, .error e)
    | .ok () =>
      match checkCas msg.expectedRoot (some db.rootCid) with
      | .error e => (db, .error e)
      | .ok () =>
        match db.execute B L msg.sql msg.writer env with
        | (after, .error e) => (after, .error e)
        | (after, .ok ()) => (after, .ok after.rootCid)

def displayVfs : VfsError → String
  | .pageNotFound page => s!"page {page} not found in page index"
  | .integrityCheckFailed page expected actual =>
    s!"integrity check failed for page {page}: expected {expected}, got {actual}"
  | .storeError message => s!"CAS store error: {message}"
  | .serializationError message => s!"page index serialization error: {message}"
  | .invalidPageSize size =>
    s!"invalid page size {size}; must be a power of two between 512 and 65536"
  | .noRootCid => "no root CID available; the database is empty"

def displaySql : SqlError → String
  | .unauthorizedWriter writer owner =>
    s!"write rejected: writer {writer} is not the database owner {owner}"
  | .invalidSignature writer => s!"invalid signature on write message from {writer}"
  | .casConflict expected actual => s!"CAS conflict: expected root {expected}, got {actual}"
  | .vfsError e => "VFS error: " ++ displayVfs e
  | .sqlSyntaxError message => s!"SQL error: {message}"
  | .libsqlError message => s!"libsql error: {message}"
  | .io message => s!"I/O error: {message}"

section Payload

theorem sqlBytes_injective : Function.Injective sqlBytes := by
  intro sql sql' same
  have bytes : sql.toUTF8.data = sql'.toUTF8.data := Array.toList_inj.mp same
  exact String.toByteArray_inj.mp (ByteArray.ext bytes)

def rootBytes : Option Cid → Bytes
  | none => [0]
  | some cid => 1 :: cid.asBytes

theorem length_rootBytes (root : Option Cid) : (rootBytes root).length ≤ 33 := by
  cases root with
  | none => decide
  | some cid => rw [rootBytes, List.length_cons, Cid.length_asBytes]

theorem rootBytes_injective : Function.Injective rootBytes := by
  intro root root' same
  cases root with
  | none =>
    cases root' with
    | none => rfl
    | some cid => exact absurd (List.cons.inj same).1 (by decide)
  | some cid =>
    cases root' with
    | none => exact absurd (List.cons.inj same).1 (by decide)
    | some cid' => rw [Cid.asBytes_injective (List.cons.inj same).2]

theorem buildSignedPayload_eq (writer : NodeId) (sql : String) (root : Option Cid) :
    buildSignedPayload writer sql root =
      (toLeBytes (UInt32.ofNat writer.asBytes.length) ++ writer.asBytes) ++
        (toLeBytes (UInt32.ofNat (sqlBytes sql).length) ++ (sqlBytes sql ++ rootBytes root)) := by
  cases root <;> simp only [buildSignedPayload, rootBytes, List.append_assoc]

end Payload

/-- The signed bytes determine the write, although the length of the SQL text is written
modulo 2^32: what follows the text is too short to make up for a wrapped length. -/
theorem signed_payload_eq_iff (writer writer' : NodeId) (sql sql' : String)
    (root root' : Option Cid) :
    buildSignedPayload writer sql root = buildSignedPayload writer' sql' root' ↔
      writer = writer' ∧ sql = sql' ∧ root = root' := by
  constructor
  · intro same
    rw [buildSignedPayload_eq, buildSignedPayload_eq] at same
    have level : writer.asBytes.length = writer'.asBytes.length :=
      writer.key.size.trans writer'.key.size.symm
    obtain ⟨front, back⟩ := List.append_inj same (by simp [level])
    have signer := NodeId.asBytes_injective (List.append_inj front rfl).2
    obtain ⟨counts, rest⟩ := List.append_inj back rfl
    have lengths : (sqlBytes sql).length % 2 ^ 32 = (sqlBytes sql').length % 2 ^ 32 := by
      rw [← UInt32.toNat_ofNat', ← UInt32.toNat_ofNat', toLeBytes_injective counts]
    have short (root : Option Cid) : (rootBytes root).length < 2 ^ 32 :=
      Nat.lt_of_le_of_lt (length_rootBytes root) (by decide)
    obtain ⟨text, tail⟩ := append_inj_of_mod rest lengths (short root) (short root')
    exact ⟨signer, sqlBytes_injective text, rootBytes_injective tail⟩
  · rintro ⟨rfl, rfl, rfl⟩
    rfl

theorem checkCas_ok {expected current : Cid}
    (passed : checkCas (some expected) (some current) = .ok ()) : current = expected := by
  simp only [checkCas] at passed
  split at passed
  · cases passed
  · rename_i same
    exact (not_not.mp same).symm

theorem verifySignature_ok {verify : Verifier} {msg : SignedWrite}
    (passed : verifySignature verify msg = .ok ()) :
    verify (buildSignedPayload msg.writer msg.sql msg.expectedRoot) msg.signature msg.writer =
      true := by
  unfold verifySignature at passed
  split at passed
  · assumption
  · cases passed

theorem handleSignedWrite_cases {Db : Type} (B : Blake3) (L : Libsql Db) (verify : Verifier)
    (db : CraftDatabase Db) (msg : SignedWrite) (env : Env) :
    (handleSignedWrite B L verify db msg env).1 = db ∨
      (verifySignature verify msg = .ok () ∧
        (handleSignedWrite B L verify db msg env).1 =
          (db.execute B L msg.sql msg.writer env).1) := by
  unfold handleSignedWrite
  split
  · exact .inl rfl
  · rename_i signed
    split
    · exact .inl rfl
    · split
      · exact .inl rfl
      · refine .inr ⟨signed, ?_⟩
        split <;> rename_i result <;> rw [result]

end Craftec.Sql.RpcWrite
