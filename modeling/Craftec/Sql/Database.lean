/- GID: Craftec/Sql/Database
   generality: I
   digest: The database over the SQL engine and the page layer, and what a failed execute leaves behind. -/

import Mathlib
import Craftec.Library.Chunks
import Craftec.Library.OrderedMap
import Craftec.Types.Digest
import Craftec.Vfs.Commit
import Craftec.Vfs.Index

set_option autoImplicit false
set_option relaxedAutoImplicit false

namespace Craftec.Sql.Database

open Craftec.Library.Chunks (chunk chunks count)
open Craftec.Library.OrderedMap (distinct_of_perm insertMany_eq_self_iff)
open Craftec.Types.Digest (Bytes Bytes32 Blake3 Cid NodeId)
open Craftec.Vfs.Commit (CidVfs Contents smallPage commit_of_fault commit_of_no_fault
  stored_entries stored_indexRoot stored_pageIndex)
open Craftec.Vfs.Index (PageMap PageIndex VfsError)

inductive ColumnValue where
  | null
  | integer (n : Int64)
  | real (bits : UInt64)
  | text (s : String)
  | blob (b : Bytes)
  deriving DecidableEq

abbrev Row := List ColumnValue

inductive SqlError where
  | unauthorizedWriter (writer owner : String)
  | invalidSignature (writer : String)
  | casConflict (expected actual : String)
  | vfsError (e : VfsError)
  | sqlSyntaxError (message : String)
  | libsqlError (message : String)
  | io (message : String)
  deriving DecidableEq

/-- The third-party SQL engine: `Db` is what SQL can see of one database, a
connection performs the statement it is given, and `file` is the database file. -/
structure Libsql (Db : Type) where
  execute : Db → String → Db × Except String Unit
  query : Db → String → Db × Except String (List Row)
  file : Db → Bytes

structure CraftDatabase (Db : Type) where
  dbId : Cid
  owner : NodeId
  vfs : CidVfs
  rootCid : Cid
  contents : Db

/-- What a sync does not decide itself: the error of reading the file, the
iteration order of the dirty pages, and the error of each `store.put`. -/
structure Env where
  readFault : Option String
  order : List (UInt32 × Bytes)
  putFault : ℕ → Option String

def checkOwnership (writer owner : NodeId) : Except SqlError Unit :=
  if writer ≠ owner then .error (.unauthorizedWriter writer.display owner.display) else .ok ()

def padPage (size : ℕ) (c : Bytes) : Bytes := c ++ List.replicate (size - c.length) 0

/-- The loop of `sync_pages_to_vfs`; the page number is truncated to 32 bits. -/
def writePages (size : ℕ) : ℕ → CidVfs → List Bytes → CidVfs × Except VfsError Unit
  | _, v, [] => (v, .ok ())
  | i, v, c :: rest =>
    match v.writePage (UInt32.ofNat i) (padPage size c) with
    | (w, .error e) => (w, .error e)
    | (w, .ok ()) => writePages size (i + 1) w rest

variable (B : Blake3)

def syncPagesToVfs (file : Bytes) (env : Env) (v : CidVfs) : CidVfs × Except SqlError Cid :=
  match env.readFault with
  | some e => (v, .error (.io e))
  | none =>
    match writePages v.pageSize.bytes 0 v (chunks v.pageSize.bytes file) with
    | (w, .error e) => (w, .error (.vfsError e))
    | (w, .ok ()) =>
      match w.commit B env.order env.putFault with
      | (u, .error e) => (u, .error (.vfsError e))
      | (u, .ok root) => (u, .ok root)

variable {Db : Type} (L : Libsql Db)

def CraftDatabase.execute (db : CraftDatabase Db) (sql : String) (writer : NodeId) (env : Env) :
    CraftDatabase Db × Except SqlError Unit :=
  match checkOwnership writer db.owner with
  | .error e => (db, .error e)
  | .ok () =>
    match L.execute db.contents sql with
    | (contents, .error e) => ({ db with contents := contents }, .error (.sqlSyntaxError e))
    | (contents, .ok ()) =>
      match syncPagesToVfs B (L.file contents) env db.vfs with
      | (vfs, .error e) => ({ db with contents := contents, vfs := vfs }, .error e)
      | (vfs, .ok newRoot) =>
        ({ db with contents := contents, vfs := vfs, rootCid := newRoot }, .ok ())

/-- `query`: the snapshot is taken for its error only; the statement goes to the
read connection, an ordinary one. -/
def CraftDatabase.query (db : CraftDatabase Db) (sql : String) :
    CraftDatabase Db × Except SqlError (List Row) :=
  match db.vfs.currentRoot with
  | none => (db, .error (.vfsError .noRootCid))
  | some _ =>
    match L.query db.contents sql with
    | (contents, .error e) => ({ db with contents := contents }, .error (.sqlSyntaxError e))
    | (contents, .ok rows) => ({ db with contents := contents }, .ok rows)

inductive Statement where
  | query (sql : String)
  | execute (sql : String)

/-- The statements `create` runs, the last one on the read connection. -/
def setupStatements : List Statement :=
  [.query "PRAGMA page_size = 16384", .query "PRAGMA journal_mode = DELETE",
    .query "PRAGMA busy_timeout = 5000",
    .execute "CREATE TABLE IF NOT EXISTS _craftec_meta (key TEXT PRIMARY KEY, value TEXT)",
    .execute "INSERT OR REPLACE INTO _craftec_meta VALUES ('version', '1')",
    .query "PRAGMA busy_timeout = 5000"]

def runSetup : Db → List Statement → Except SqlError Db
  | db, [] => .ok db
  | db, .query sql :: rest =>
    match L.query db sql with
    | (_, .error e) => .error (.libsqlError e)
    | (after, .ok _) => runSetup after rest
  | db, .execute sql :: rest =>
    match L.execute db sql with
    | (_, .error e) => .error (.libsqlError e)
    | (after, .ok _) => runSetup after rest

/-- `create`; `opened` is the database the engine opens, or its error text. -/
def CraftDatabase.create (owner : NodeId) (vfs : CidVfs) (dirFault : Option String)
    (opened : Except String Db) (env : Env) : Except SqlError (CraftDatabase Db) :=
  match dirFault, opened with
  | some e, _ => .error (.io e)
  | none, .error e => .error (.libsqlError e)
  | none, .ok fresh =>
    match runSetup L fresh setupStatements with
    | .error e => .error e
    | .ok contents =>
      match syncPagesToVfs B (L.file contents) env vfs with
      | (_, .error e) => .error e
      | (synced, .ok root) => .ok ⟨Cid.fromData B owner.asBytes, owner, synced, root, contents⟩

/-- The page of `file` with number `i`, zero padded. -/
def filePage (size : ℕ) (file : Bytes) (i : ℕ) : Bytes := padPage size (chunk size file i)

def filePages (size : ℕ) (file : Bytes) : List (UInt32 × Bytes) :=
  (List.range (count size file.length)).map fun i => (UInt32.ofNat i, filePage size file i)

theorem length_padPage {size : ℕ} {c : Bytes} (fits : c.length ≤ size) :
    (padPage size c).length = size := by
  rw [padPage, List.length_append, List.length_replicate]
  omega

theorem length_chunk_le (size : ℕ) (file : Bytes) (i : ℕ) : (chunk size file i).length ≤ size := by
  rw [chunk, List.length_take]
  omega

theorem writePages_eq (size : ℕ) (file : Bytes) (indices : List ℕ) (i : ℕ) (v : CidVfs)
    (whole : v.pageSize.bytes = size)
    (consecutive : indices = List.range' i indices.length) :
    writePages size i v (indices.map (chunk size file)) =
      (CidVfs.mk v.store v.pageIndex v.pageCache
        (v.dirtyPages.insertMany (indices.map fun j => (UInt32.ofNat j, filePage size file j)))
        v.currentRoot v.pageSize, .ok ()) := by
  induction indices generalizing i v with
  | nil => simp [writePages]
  | cons j indices ih =>
    rw [List.length_cons, List.range'_succ, List.cons.injEq] at consecutive
    obtain ⟨rfl, later⟩ := consecutive
    have fits : (padPage size (chunk size file j)).length = v.pageSize.bytes := by
      rw [whole]
      exact length_padPage (length_chunk_le size file j)
    have written : v.writePage (UInt32.ofNat j) (padPage size (chunk size file j)) =
        (CidVfs.mk v.store v.pageIndex v.pageCache
          (v.dirtyPages.insert (UInt32.ofNat j) (filePage size file j)) v.currentRoot v.pageSize,
          .ok ()) := by
      simp [CidVfs.writePage, fits, filePage]
    rw [List.map_cons, writePages, written]
    simp only
    rw [List.map_cons, Std.ExtTreeMap.insertMany_cons]
    exact ih (j + 1) _ whole later

/-- The page layer with the pages of `file` buffered. -/
def buffered (file : Bytes) (v : CidVfs) : CidVfs :=
  { v with dirtyPages := v.dirtyPages.insertMany (filePages v.pageSize.bytes file) }

theorem writePages_file (file : Bytes) (v : CidVfs) :
    writePages v.pageSize.bytes 0 v (chunks v.pageSize.bytes file) = (buffered file v, .ok ()) := by
  have loop := writePages_eq v.pageSize.bytes file
    (List.range (count v.pageSize.bytes file.length)) 0 v rfl (by simp [List.range_eq_range'])
  exact loop

/-- How many pages a sync has indexed when it fails; `none` when it does not fail. -/
def failsAt (file : Bytes) (env : Env) (v : CidVfs) : Option ℕ :=
  if env.readFault.isSome then some 0
  else if (buffered file v).dirtyPages.isEmpty then
    if v.currentRoot.isNone then some 0 else none
  else (List.range (env.order.length + 1)).find? fun i => (env.putFault i).isSome

theorem sync_of_failsAt_none {file : Bytes} {env : Env} {v : CidVfs}
    (succeeds : failsAt file env v = none) : ∃ root, (syncPagesToVfs B file env v).2 = .ok root := by
  unfold failsAt at succeeds
  split at succeeds
  · cases succeeds
  · rename_i readable
    have noFault : env.readFault = none := by simpa using readable
    split at succeeds
    · rename_i clean
      split at succeeds
      · cases succeeds
      · rename_i rooted
        obtain ⟨root, current⟩ : ∃ root, v.currentRoot = some root := by
          simpa [Option.isNone_iff_eq_none, Option.ne_none_iff_exists'] using rooted
        have same : (buffered file v).currentRoot = some root := current
        exact ⟨root, by simp [syncPagesToVfs, noFault, writePages_file, CidVfs.commit, clean, same]⟩
    · rename_i dirty
      have quiet : ∀ i ≤ env.order.length, env.putFault i = none := by
        intro i hi
        have passed := List.find?_eq_none.mp succeeds i (List.mem_range.mpr (by omega))
        simpa using passed
      have result := commit_of_no_fault B env.order env.putFault (buffered file v)
        (by simpa using dirty) quiet
      simp only [syncPagesToVfs, noFault, writePages_file, result]
      exact ⟨_, rfl⟩

theorem sync_of_failsAt_some {file : Bytes} {env : Env} {v : CidVfs} {j : ℕ}
    (fails : failsAt file env v = some j) :
    (∃ e, (syncPagesToVfs B file env v).2 = .error e) ∧
      (syncPagesToVfs B file env v).1.pageIndex = (v.stored B (env.order.take j)).pageIndex := by
  unfold failsAt at fails
  split at fails
  · rename_i unreadable
    obtain ⟨e, fault⟩ := Option.isSome_iff_exists.mp unreadable
    cases fails
    simp only [syncPagesToVfs, fault]
    exact ⟨⟨_, rfl⟩, rfl⟩
  · rename_i readable
    have noFault : env.readFault = none := by simpa using readable
    split at fails
    · rename_i clean
      split at fails
      · rename_i rootless
        cases fails
        have none_ : (buffered file v).currentRoot = none := Option.isNone_iff_eq_none.mp rootless
        simp only [syncPagesToVfs, noFault, writePages_file, CidVfs.commit, clean, none_]
        exact ⟨⟨_, rfl⟩, rfl⟩
      · cases fails
    · rename_i dirty
      obtain ⟨failed, within, before⟩ := List.find?_range_eq_some.mp fails
      obtain ⟨e, fault⟩ := Option.isSome_iff_exists.mp failed
      have bound : j ≤ env.order.length := by
        have := List.mem_range.mp within
        omega
      have quiet : ∀ i < j, env.putFault i = none := by
        intro i hi
        simpa using before i hi
      have result := commit_of_fault B env.order env.putFault (buffered file v)
        (by simpa using dirty) j e bound quiet fault
      simp only [syncPagesToVfs, noFault, writePages_file, result]
      exact ⟨⟨_, rfl⟩, stored_pageIndex B _ rfl⟩

/-- What SQL, the root and the page index show of a database. -/
def SameView (db after : CraftDatabase Db) : Prop :=
  after.contents = db.contents ∧ after.rootCid = db.rootCid ∧
    after.vfs.pageIndex = db.vfs.pageIndex

/-- A statement the engine rejects changes nothing. -/
def RejectsCleanly : Prop :=
  ∀ db sql e, (L.execute db sql).2 = .error e → (L.execute db sql).1 = db

theorem stored_pageIndex_eq_iff {v : CidVfs} {pages : List (UInt32 × Bytes)}
    (distinct : pages.Pairwise fun a b => ¬ compare a.1 b.1 = .eq) :
    (v.stored B pages).pageIndex = v.pageIndex ↔
      ∀ entry ∈ pages, v.pageIndex.get entry.1 = some (Cid.fromData B entry.2) := by
  have images : (pages.map fun e => (e.1, Cid.fromData B e.2)).Pairwise
      fun a b => ¬ compare a.1 b.1 = .eq := List.pairwise_map.mpr distinct
  have entries := insertMany_eq_self_iff v.pageIndex.entries _ images
  have root : (v.stored B pages).pageIndex.rootCid = v.pageIndex.rootCid :=
    stored_indexRoot B v pages
  constructor
  · intro same entry listed
    have kept := congrArg PageIndex.entries same
    rw [stored_entries] at kept
    exact entries.mp kept _ (List.mem_map.mpr ⟨entry, listed, rfl⟩)
  · intro present
    have kept : (v.stored B pages).pageIndex.entries = v.pageIndex.entries := by
      rw [stored_entries]
      apply entries.mpr
      intro e member
      obtain ⟨entry, listed, rfl⟩ := List.mem_map.mp member
      exact present entry listed
    cases after : (v.stored B pages).pageIndex with
    | mk newEntries newRoot =>
      rw [after] at kept root
      cases before : v.pageIndex with
      | mk oldEntries oldRoot =>
        rw [before] at kept root
        have sameEntries : newEntries = oldEntries := kept
        have sameRoot : newRoot = oldRoot := root
        rw [sameEntries, sameRoot]

theorem execute_of_stranger (db : CraftDatabase Db) (sql : String) {writer : NodeId} (env : Env)
    (stranger : writer ≠ db.owner) : (db.execute B L sql writer env).1 = db := by
  simp only [CraftDatabase.execute, checkOwnership, if_pos stranger]

theorem execute_of_rejected (db : CraftDatabase Db) (sql : String) (env : Env) {e : String}
    (clean : RejectsCleanly L) (rejected : (L.execute db.contents sql).2 = .error e) :
    (db.execute B L sql db.owner env).1 = db := by
  have same := clean _ _ _ rejected
  cases run : L.execute db.contents sql with
  | mk contents result =>
    rw [run] at rejected same
    have failed : result = .error e := rejected
    have kept : contents = db.contents := same
    simp [CraftDatabase.execute, checkOwnership, run, failed, kept]

theorem execute_of_accepted (db : CraftDatabase Db) (sql : String) (env : Env)
    (accepted : (L.execute db.contents sql).2 = .ok ()) :
    db.execute B L sql db.owner env =
      match syncPagesToVfs B (L.file (L.execute db.contents sql).1) env db.vfs with
      | (vfs, .error e) =>
        ({ db with contents := (L.execute db.contents sql).1, vfs := vfs }, .error e)
      | (vfs, .ok newRoot) =>
        (⟨db.dbId, db.owner, vfs, newRoot, (L.execute db.contents sql).1⟩, .ok ()) := by
  cases run : L.execute db.contents sql with
  | mk contents result =>
    rw [run] at accepted
    have ok : result = .ok () := accepted
    simp only [CraftDatabase.execute, checkOwnership, run, ok]
    simp

theorem execute_owner (db : CraftDatabase Db) (sql : String) (writer : NodeId) (env : Env) :
    (db.execute B L sql writer env).1.owner = db.owner := by
  unfold CraftDatabase.execute
  split
  · rfl
  · split
    · rfl
    · split <;> rfl

theorem owner_of_execute_changes {db : CraftDatabase Db} {sql : String} {writer : NodeId}
    {env : Env} (changed : (db.execute B L sql writer env).1.contents ≠ db.contents) :
    writer = db.owner := by
  by_contra stranger
  apply changed
  rw [execute_of_stranger B L db sql env stranger]

theorem query_owner (db : CraftDatabase Db) (sql : String) : (db.query L sql).1.owner = db.owner := by
  unfold CraftDatabase.query
  split
  · rfl
  · split <;> rfl

theorem query_contents_eq_iff (db : CraftDatabase Db) (sql : String) :
    (db.query L sql).1.contents = db.contents ↔
      db.vfs.currentRoot = none ∨ (L.query db.contents sql).1 = db.contents := by
  unfold CraftDatabase.query
  cases db.vfs.currentRoot with
  | none => simp
  | some root =>
    cases L.query db.contents sql with
    | mk contents result => cases result <;> simp

theorem execute_of_failsAt_some (db : CraftDatabase Db) (sql : String) (env : Env) {j : ℕ}
    (accepted : (L.execute db.contents sql).2 = .ok ())
    (fails : failsAt (L.file (L.execute db.contents sql).1) env db.vfs = some j) :
    ∃ vfs e, db.execute B L sql db.owner env =
        ({ db with contents := (L.execute db.contents sql).1, vfs := vfs }, .error e) ∧
      vfs.pageIndex = (db.vfs.stored B (env.order.take j)).pageIndex := by
  have result := execute_of_accepted B L db sql env accepted
  obtain ⟨⟨e, failed⟩, index⟩ := sync_of_failsAt_some B fails
  cases synced : syncPagesToVfs B (L.file (L.execute db.contents sql).1) env db.vfs with
  | mk vfs answer =>
    rw [synced] at failed index result
    have error : answer = .error e := failed
    subst error
    exact ⟨vfs, e, result, index⟩

theorem execute_of_failsAt_none (db : CraftDatabase Db) (sql : String) (env : Env)
    (accepted : (L.execute db.contents sql).2 = .ok ())
    (succeeds : failsAt (L.file (L.execute db.contents sql).1) env db.vfs = none) :
    (db.execute B L sql db.owner env).2 = .ok () := by
  have result := execute_of_accepted B L db sql env accepted
  obtain ⟨root, ok⟩ := sync_of_failsAt_none B succeeds
  cases synced : syncPagesToVfs B (L.file (L.execute db.contents sql).1) env db.vfs with
  | mk vfs answer =>
    rw [synced] at ok result
    have success : answer = .ok root := ok
    subst success
    rw [result]

/-- A failed execute has no effect exactly when the writer is refused, the engine
rejects the statement, or any later failure finds contents the statement did not
change and, among the pages indexed before it, only ones the index already had. -/
theorem execute_error_no_effect_iff (clean : RejectsCleanly L) (db : CraftDatabase Db)
    (sql : String) (writer : NodeId) (env : Env)
    (listed : env.order.Perm
      (buffered (L.file (L.execute db.contents sql).1) db.vfs).dirtyPages.toList) :
    (∀ e, (db.execute B L sql writer env).2 = .error e →
        SameView db (db.execute B L sql writer env).1) ↔
      (writer ≠ db.owner ∨ (∃ e, (L.execute db.contents sql).2 = .error e) ∨
        ∀ j, failsAt (L.file (L.execute db.contents sql).1) env db.vfs = some j →
          (L.execute db.contents sql).1 = db.contents ∧
          ∀ entry ∈ env.order.take j,
            db.vfs.pageIndex.get entry.1 = some (Cid.fromData B entry.2)) := by
  by_cases stranger : writer ≠ db.owner
  · refine ⟨fun _ => .inl stranger, ?_⟩
    intro _ e _
    rw [execute_of_stranger B L db sql env stranger]
    exact ⟨rfl, rfl, rfl⟩
  · have owner : writer = db.owner := not_not.mp stranger
    subst owner
    cases outcome : (L.execute db.contents sql).2 with
    | error e =>
      refine ⟨fun _ => .inr (.inl ⟨e, rfl⟩), ?_⟩
      intro _ _ _
      rw [execute_of_rejected B L db sql env clean outcome]
      exact ⟨rfl, rfl, rfl⟩
    | ok =>
      have distinct : ∀ j, (env.order.take j).Pairwise fun a b => ¬ compare a.1 b.1 = .eq :=
        fun j => (distinct_of_perm listed).sublist (List.take_sublist j _)
      constructor
      · intro noEffect
        refine .inr (.inr ?_)
        intro j fails
        obtain ⟨vfs, e, result, index⟩ := execute_of_failsAt_some B L db sql env outcome fails
        rw [result] at noEffect
        have same := noEffect e rfl
        refine ⟨same.1, (stored_pageIndex_eq_iff B (distinct j)).mp ?_⟩
        rw [← index]
        exact same.2.2
      · rintro (refused | ⟨e, rejected⟩ | harmless) e' failed
        · exact (refused rfl).elim
        · cases rejected
        · cases position : failsAt (L.file (L.execute db.contents sql).1) env db.vfs with
          | none =>
            rw [execute_of_failsAt_none B L db sql env outcome position] at failed
            cases failed
          | some j =>
            obtain ⟨kept, present⟩ := harmless j position
            obtain ⟨vfs, e, result, index⟩ := execute_of_failsAt_some B L db sql env outcome position
            have unchanged := (stored_pageIndex_eq_iff B (distinct j)).mpr present
            rw [result]
            exact ⟨kept, rfl, index.trans unchanged⟩

/-- An engine whose database is a number of 512-byte pages: it refuses the empty
statement, an insert adds a page, and `VACUUM` leaves one. -/
def pageEngine : Libsql ℕ where
  execute n sql :=
    if sql = "" then (n, .error "not an error")
    else if sql = "INSERT INTO t VALUES (1)" then (n + 1, .ok ())
    else if sql = "VACUUM" then (1, .ok ())
    else (n, .ok ())
  query n _ := (n, .ok [])
  file n := List.replicate (512 * n) 1

theorem pageEngine_rejectsCleanly : RejectsCleanly pageEngine := by
  intro n sql e rejected
  by_cases empty : sql = ""
  · simp [pageEngine, empty]
  · exfalso
    simp only [pageEngine, if_neg empty] at rejected
    split at rejected
    · cases rejected
    · split at rejected <;> cases rejected

def onePageDb : CraftDatabase ℕ :=
  ⟨Cid.fromBytes (Bytes32.fill 7), ⟨Bytes32.fill 9⟩,
    ⟨fun _ => none, PageIndex.new, fun _ => none, ∅, none, smallPage⟩,
    Cid.fromBytes (Bytes32.fill 0), 1⟩

/-- The environment in which everything works, for the given engine state. -/
def quietEnv (file : Bytes) (v : CidVfs) : Env :=
  ⟨none, (buffered file v).dirtyPages.toList, fun _ => none⟩

theorem quietEnv_listed (file : Bytes) (v : CidVfs) :
    (quietEnv file v).order.Perm (buffered file v).dirtyPages.toList := List.Perm.refl _

theorem execute_empty_statement :
    let env := quietEnv (pageEngine.file (pageEngine.execute onePageDb.contents "").1) onePageDb.vfs
    ∀ e, (onePageDb.execute Blake3.byLeading pageEngine "" onePageDb.owner env).2 = .error e →
      SameView onePageDb
        (onePageDb.execute Blake3.byLeading pageEngine "" onePageDb.owner env).1 := by
  intro env
  have rejected : ∃ e, (pageEngine.execute onePageDb.contents "").2 = .error e :=
    ⟨"not an error", rfl⟩
  exact (execute_error_no_effect_iff Blake3.byLeading pageEngine pageEngine_rejectsCleanly
    onePageDb "" onePageDb.owner env (quietEnv_listed _ _)).mpr (.inr (.inl rejected))

/-- Reading the file fails after the insert was performed: the call fails and
the row stays. -/
theorem execute_unreadable_file_keeps_row :
    let after := onePageDb.execute Blake3.byLeading pageEngine "INSERT INTO t VALUES (1)"
      onePageDb.owner ⟨some "Permission denied (os error 13)", [], fun _ => none⟩
    after.2 = .error (.io "Permission denied (os error 13)") ∧ ¬ SameView onePageDb after.1 := by
  intro after
  have inserts : pageEngine.execute onePageDb.contents "INSERT INTO t VALUES (1)" = (2, .ok ()) := by
    simp [pageEngine, onePageDb]
  have accepted : (pageEngine.execute onePageDb.contents "INSERT INTO t VALUES (1)").2 = .ok () := by
    rw [inserts]
  have result := execute_of_accepted Blake3.byLeading pageEngine onePageDb
    "INSERT INTO t VALUES (1)" ⟨some "Permission denied (os error 13)", [], fun _ => none⟩ accepted
  simp only [inserts, syncPagesToVfs] at result
  refine ⟨congrArg Prod.snd result, ?_⟩
  intro same
  have grown : after.1.contents = 2 := congrArg (fun r => r.1.contents) result
  have kept : after.1.contents = 1 := same.1
  rw [grown] at kept
  cases kept

end Craftec.Sql.Database
