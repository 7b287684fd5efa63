/- GID: Craftec/Node/Operator
   generality: I
   digest: The craftec commands against a running node, from the arguments to what is printed. -/

import Mathlib
import Craftec.Health.Tracker
import Craftec.Net.Endpoint
import Craftec.Net.HlcGate
import Craftec.Node.Identity
import Craftec.Node.Requests
import Craftec.Obj.Accounting
import Craftec.Obj.Faulty
import Craftec.Obj.Refinement
import Craftec.Sql.Database
import Craftec.Sql.Histories
import Craftec.Types.Frames
import Craftec.Types.Rpc

set_option autoImplicit false
set_option relaxedAutoImplicit false

namespace Craftec.Node.Operator

open Craftec.Health.Tracker (PieceTracker)
open Craftec.Net.Endpoint (CraftecEndpoint Reading readLimit readToEnd streamReadTimeout)
open Craftec.Net.HlcGate (handleRpcConn maxConcurrentRpcStreams respondRpc)
open Craftec.Node.Handler (PieceHolder)
open Craftec.Node.Identity (CliError Ed25519 Files Utf8 idText loadKeypair readNodeId readNodeId_idText)
open Craftec.Node.Requests (Outbound Outside handle)
open Craftec.Obj.Accounting (objectCount)
open Craftec.Obj.Faulty (Faults get listCids put refines_get refines_put)
open Craftec.Obj.Refinement (Lists NoFalseNegatives Objects Refines filed_listing filed_nothing listing
  plain_listing refines_vacant sample sampleStore sureBloom)
open Craftec.Obj.Shard (ReadDir mem_walkShards nodup_walkShards)
open Craftec.Obj.Store (Bloom ObjError Shared)
open Craftec.Sql.Database (ColumnValue CraftDatabase Env Libsql pageEngine quietEnv)
open Craftec.Sql.Histories (databaseAt vfs1)
open Craftec.Sql.RpcWrite (displaySql sqlBytes)
open Craftec.Types.Digest (Blake3 Bytes Bytes32 Cid NodeId)
open Craftec.Types.Rpc
open Craftec.Types.Frames (roundTrips_rpc)
open Craftec.Types.Wire (Codec CraftecError frameHeaderSize length_v1Header v1Header)

structure Running (F Db : Type) where
  nodeId : NodeId
  store : Shared F
  database : CraftDatabase Db
  endpoint : CraftecEndpoint Unit
  pieceTracker : PieceTracker

/-- What an exchange does not decide itself: the arrival of the request and the number of other streams,
what the directories list, the errors that the store meets, how a sync goes, the order of the members,
the clocks, and whether the client gives up. -/
structure Moment where
  reading : Reading
  others : ℕ
  readDir : ReadDir
  faults : Faults
  env : Env
  order : List NodeId
  uptime : UInt64
  wall : UInt64
  timedOut : Bool

def toRpcValue : ColumnValue → RpcValue
  | .null => .null
  | .integer v => .integer v
  | .real v => .real v
  | .text v => .text v
  | .blob v => .blob v

section Node

variable (B : Blake3) {F Db : Type} (bloom : Bloom F) (base : Obj.Shard.Path) (L : Libsql Db)
  (X : Outside)

/-- `NodeRpcHandler::handle_request`. -/
def handleRequest (node : Running F Db) (at_ : Moment) : RpcRequest → Running F Db × RpcResponse
  | .status =>
    (node, .status node.nodeId (UInt64.ofNat (node.endpoint.swim.aliveMembers at_.order).length)
      (UInt64.ofNat (if at_.faults.list.isSome then 0
        else (objectCount base node.store.fs at_.readDir).toOption.getD 0))
      node.database.rootCid at_.uptime)
  | .storePut data =>
    match put B bloom base node.store at_.faults data with
    | (store, .ok cid) => ({ node with store := store }, .storePut cid)
    | (store, .error e) =>
      ({ node with store := store }, .error 500 ("store put failed: " ++ e.display))
  | .storeGet cid =>
    match get B bloom base node.store at_.faults cid with
    | (store, .ok data) => ({ node with store := store }, .storeGet data)
    | (store, .error e) =>
      ({ node with store := store }, .error 500 ("store get failed: " ++ e.display))
  | .storeList =>
    match listCids base at_.faults at_.readDir with
    | .ok cids => (node, .storeList cids)
    | .error e => (node, .error 500 ("store list failed: " ++ e.display))
  | .sqlQuery sql =>
    match node.database.query L sql with
    | (db, .ok rows) => ({ node with database := db }, .sqlQuery (rows.map (List.map toRpcValue)))
    | (db, .error e) => ({ node with database := db }, .error 400 ("query failed: " ++ displaySql e))
  | .sqlExecute sql writer signature =>
    if writer ≠ node.nodeId then (node, .error 403 "not the database owner")
    else if !X.verify (sqlBytes sql) signature writer then (node, .error 403 "invalid signature")
    else
      match node.database.execute B L sql writer at_.env with
      | (db, .ok ()) => ({ node with database := db }, .sqlExecute db.rootCid)
      | (db, .error e) =>
        ({ node with database := db }, .error 400 ("execute failed: " ++ displaySql e))
  | .peers =>
    (node, .peers (node.endpoint.swim.aliveMembers at_.order)
      (UInt64.ofNat (node.endpoint.swim.aliveMembers at_.order).length))
  | .pieceInfo cid =>
    (node, .pieceInfo cid (node.pieceTracker.availableCount cid) (node.pieceTracker.getK cid)
      ((node.pieceTracker.getHolders cid).map PieceHolder.nodeId))

/-- The answers of `Requests.handle` in the words of the wire. -/
def Says : Outbound → RpcResponse → Prop
  | .sqlExecute root, resp => resp = .sqlExecute root
  | .sqlQuery rows, resp => resp = .sqlQuery (rows.map (List.map toRpcValue))
  | .error code message, resp => resp = .error (UInt32.ofNat code) message
  | .none, _ | .agent _, _ => False

theorem handleRequest_sqlQuery (node : Running F Db) (at_ : Moment) (sql : String) :
    (handleRequest B bloom base L X node at_ (.sqlQuery sql)).1 =
        { node with database := (handle B L X node.nodeId node.database at_.env (.sqlQuery sql)).1 } ∧
      Says (handle B L X node.nodeId node.database at_.env (.sqlQuery sql)).2
        (handleRequest B bloom base L X node at_ (.sqlQuery sql)).2 := by
  cases taken : node.database.query L sql with
  | mk db result => cases result <;> simp only [handleRequest, handle, taken] <;> exact ⟨trivial, rfl⟩

theorem handleRequest_sqlExecute (node : Running F Db) (at_ : Moment) (sql : String) (writer : NodeId)
    (signature : Bytes) :
    (handleRequest B bloom base L X node at_ (.sqlExecute sql writer signature)).1 =
        { node with database := (handle B L X node.nodeId node.database at_.env
          (.sqlExecute sql writer signature)).1 } ∧
      Says (handle B L X node.nodeId node.database at_.env (.sqlExecute sql writer signature)).2
        (handleRequest B bloom base L X node at_ (.sqlExecute sql writer signature)).2 := by
  simp only [handleRequest, handle]
  split
  · exact ⟨rfl, rfl⟩
  · split
    · exact ⟨rfl, rfl⟩
    · cases node.database.execute B L sql writer at_.env with
      | mk db result => cases result <;> exact ⟨rfl, rfl⟩

end Node

inductive Failure where
  | usage (text : String)
  | files (e : CliError)
  | invalidCid
  | unreachable
  | timedOut
  | request (e : CraftecError)
  | noAnswer
  | response (e : CraftecError)
  | notFound
  | error (code : UInt32) (message : String)
  deriving DecidableEq

inductive Json where
  | null
  | integer (value : Int64)
  | unsigned (value : UInt64)
  | real (bits : UInt64)
  | string (text : String)
  | array (items : List Json)
  | object (fields : List (String × Json))

inductive Shown where
  | line (text : String)
  | lines (texts : List String)
  | raw (data : Bytes)
  | json (value : Json)
  | failed (f : Failure)

def toJson : RpcValue → Json
  | .null => .null
  | .integer v => .integer v
  | .real v => .real v
  | .text v => .string v
  | .blob v => .string (Types.Digest.hexEncode v)

/-- `print_response`. -/
def printResponse : RpcResponse → Shown
  | .status nodeId alivePeers storeObjects dbRootCid uptimeSecs =>
    .json (.object [("node_id", .string nodeId.display), ("alive_peers", .unsigned alivePeers),
      ("store_objects", .unsigned storeObjects), ("db_root_cid", .string dbRootCid.display),
      ("uptime_secs", .unsigned uptimeSecs)])
  | .storePut cid => .line cid.display
  | .storeGet (some data) => .raw data
  | .storeGet none => .failed .notFound
  | .storeList cids => .lines (cids.map Cid.display)
  | .sqlQuery rows => .json (.array (rows.map fun row => .array (row.map toJson)))
  | .sqlExecute rootCid => .line rootCid.display
  | .peers peers count =>
    .json (.object [("count", .unsigned count),
      ("peers", .array (peers.map fun p => .string p.display))])
  | .pieceInfo cid available k holders =>
    .json (.object [("cid", .string cid.display), ("available", .unsigned available.toUInt64),
      ("k", (k.map fun k => Json.unsigned k.toUInt64).getD .null),
      ("holders", .array (holders.map fun h => .string h.display))])
  | .error code message => .failed (.error code message)

def usageText : String :=
  "usage: craftec <status|store|query|execute|peers|pieces>\nsubcommands:\n  status              Node status (JSON)\n  store put           Read stdin, store, print CID\n  store get <cid>     Retrieve data, write to stdout\n  store list          List stored CIDs\n  query \"<sql>\"       SQL query (JSON rows)\n  execute \"<sql>\"     SQL execute (print root CID)\n  peers               Peer list (JSON)\n  pieces <cid>        Piece info (JSON)"

section Client

variable (E : Ed25519) (U : Utf8)

def withCid (text : String) (request : Cid → RpcRequest) : Except Failure RpcRequest :=
  match Cid.fromStr text with
  | some cid => .ok (request cid)
  | none => .error .invalidCid

/-- The request a command line stands for; standard input is read by `store put` only. -/
def parse (f : Files) (stdin : Bytes) : List String → Except Failure RpcRequest
  | "status" :: _ => .ok .status
  | "store" :: "put" :: _ => .ok (.storePut stdin)
  | "store" :: "get" :: cid :: _ => withCid cid .storeGet
  | ["store", "get"] => .error (.usage "usage: craftec store get <cid>")
  | "store" :: "list" :: _ => .ok .storeList
  | "store" :: _ => .error (.usage "usage: craftec store <put|get|list>")
  | "query" :: sql :: _ => .ok (.sqlQuery sql)
  | ["query"] => .error (.usage "usage: craftec query \"<sql>\"")
  | "execute" :: sql :: _ =>
    match loadKeypair f with
    | .ok secret => .ok (.sqlExecute sql (E.publicKey secret) (E.sign secret (sqlBytes sql)))
    | .error e => .error (.files e)
  | ["execute"] => .error (.usage "usage: craftec execute \"<sql>\"")
  | "peers" :: _ => .ok .peers
  | "pieces" :: cid :: _ => withCid cid .pieceInfo
  | ["pieces"] => .error (.usage "usage: craftec pieces <cid>")
  | _ => .error (.usage usageText)

/-- The request that gets to be sent: `node.id` names the node to connect to. -/
def request (nodeId : NodeId) (f : Files) (stdin : Bytes) (args : List String) :
    Except Failure RpcRequest :=
  match readNodeId U f with
  | .error e => .error (.files e)
  | .ok id =>
    match parse E f stdin args with
    | .error f => .error f
    | .ok req => if id = nodeId.key then .ok req else .error .unreachable

end Client

section Commands

variable (B : Blake3) {F Db : Type} (bloom : Bloom F) (base : Obj.Shard.Path) (L : Libsql Db)
  (X : Outside) (R : RpcPostcard) (E : Ed25519) (U : Utf8)

/-- The client's side of the answer, which the node may have failed to frame. -/
def readResponse (at_ : Moment) : Except CraftecError Bytes → Except Failure RpcResponse
  | .error _ => .error .noAnswer
  | .ok frame =>
    if at_.timedOut then .error .timedOut
    else if readLimit < frame.length then .error .noAnswer
    else
      match decodeRpcResponse R frame with
      | .error e => .error (.response e)
      | .ok (resp, _) => .ok resp

/-- `send_rpc_inner` with the node's side of the stream. -/
def exchange (node : Running F Db) (at_ : Moment) (req : RpcRequest) :
    Running F Db × Except Failure RpcResponse :=
  match encodeRpcRequest R req 0 with
  | .error e => (node, .error (.request e))
  | .ok bytes =>
    match handleRpcConn R node.endpoint at_.reading at_.others bytes with
    | (endpoint, .serving received) =>
      let served := handleRequest B bloom base L X { node with endpoint := endpoint } at_ received
      let answer := respondRpc R served.1.endpoint at_.wall served.2
      ({ served.1 with endpoint := answer.1 }, readResponse R at_ answer.2)
    | (endpoint, _) => ({ node with endpoint := endpoint }, .error .noAnswer)

/-- `run_cli` against the node. -/
def runCli (node : Running F Db) (at_ : Moment) (f : Files) (stdin : Bytes) (args : List String) :
    Running F Db × Shown :=
  match request E U node.nodeId f stdin args with
  | .error e => (node, .failed e)
  | .ok req =>
    match exchange B bloom base L X R node at_ req with
    | (after, .ok resp) => (after, printResponse resp)
    | (after, .error e) => (after, .failed e)

/-- A session: commands, and what the node puts into its store of its own accord (pages, coded pieces,
objects of agents). -/
inductive Step where
  | command (at_ : Moment) (f : Files) (stdin : Bytes) (args : List String)
  | put (faults : Faults) (data : Bytes)

def perform (node : Running F Db) : Step → Running F Db × Option Shown
  | .command at_ f stdin args =>
    ((runCli B bloom base L X R E U node at_ f stdin args).1,
      some (runCli B bloom base L X R E U node at_ f stdin args).2)
  | .put faults data => ({ node with store := (put B bloom base node.store faults data).1 }, none)

/-- The request is read, within the bounds of size, time and number of streams. -/
def received (at_ : Moment) (req : RpcRequest) : Bool :=
  match encodeRpcRequest R req 0 with
  | .error _ => false
  | .ok bytes => decide (bytes.length ≤ readLimit ∧ at_.reading.elapsed < streamReadTimeout ∧
      at_.others < maxConcurrentRpcStreams)

/-- The answer is read in turn. The timestamp in it has the same length whatever it is. -/
def answered (at_ : Moment) (resp : RpcResponse) : Bool :=
  match encodeRpcResponse R resp 0 with
  | .error _ => false
  | .ok bytes => decide (bytes.length ≤ readLimit) && !at_.timedOut

/-! Abstract layer: the objects of the store as a map, and what the operator is to see of them. -/

def filed (m : Objects) (data : Bytes) : Except ObjError Cid → Objects
  | .ok cid => Function.update m cid (some data)
  | .error _ => m

/-- The objects after a request that was received and answered so: a put that is refused stores
nothing. -/
def after (m : Objects) : RpcRequest → RpcResponse → Objects
  | .storePut data, .storePut cid => Function.update m cid (some data)
  | _, _ => m

def Refused (at_ : Moment) (what : String) (shown : Shown) : Prop :=
  at_.faults ≠ .none ∧ ∃ e : ObjError, shown = .failed (.error 500 (what ++ e.display))

/-- What is to be shown for a request, by the map of the objects. Any other command shows the answer
of the node. -/
def Right (node : Running F Db) (m : Objects) (at_ : Moment) (shown : Shown) : RpcRequest → Prop
  | .storePut data =>
    shown = .line (Cid.fromData B data).display ∨ Refused at_ "store put failed: " shown
  | .storeGet cid =>
    (shown = match m cid with
      | some data => .raw data
      | none => .failed .notFound) ∨ Refused at_ "store get failed: " shown
  | .storeList =>
    (∃ cids : List Cid, cids.Nodup ∧ (∀ cid, cid ∈ cids ↔ (m cid).isSome) ∧
      shown = .lines (cids.map Cid.display)) ∨ Refused at_ "store list failed: " shown
  | req => shown = printResponse (handleRequest B bloom base L X node at_ req).2

def stepped (node : Running F Db) (m : Objects) : Step → Objects
  | .command at_ f stdin args =>
    match request E U node.nodeId f stdin args with
    | .error _ => m
    | .ok req =>
      if received R at_ req then after m req (handleRequest B bloom base L X node at_ req).2 else m
  | .put faults data => filed m data (put B bloom base node.store faults data).2

/-- What a step shows: what is right where both frames are read, and an error otherwise. -/
def Shows (node : Running F Db) (m : Objects) (shown : Option Shown) : Step → Prop
  | .command at_ f stdin args =>
    match request E U node.nodeId f stdin args with
    | .error e => shown = some (.failed e)
    | .ok req =>
      if received R at_ req ∧ answered R at_ (handleRequest B bloom base L X node at_ req).2 then
        ∃ text, shown = some text ∧ Right B bloom base L X node m at_ text req
      else ∃ e, shown = some (.failed e)
  | .put _ _ => shown = none

/-- Every step of the session shows what the map says. -/
def Agrees : Running F Db → Objects → List Step → Prop
  | _, _, [] => True
  | node, m, step :: rest =>
    Shows B bloom base L X R E U node m (perform B bloom base L X R E U node step).2 step ∧
      Agrees (perform B bloom base L X R E U node step).1 (stepped B bloom base L X R E U node m step) rest

/-- The directories list what is in them whenever they are walked. -/
def Walked : Running F Db → List Step → Prop
  | _, [] => True
  | node, step :: rest =>
    (match step with
      | .command at_ _ _ _ => Lists base node.store.fs at_.readDir
      | .put _ _ => True) ∧
      Walked (perform B bloom base L X R E U node step).1 rest

def Step.faults : Step → Faults
  | .command at_ _ _ _ => at_.faults
  | .put faults _ => faults

def Step.data : Step → Bytes
  | .command _ _ stdin _ => stdin
  | .put _ data => data

end Commands

section Frames

variable {α : Type} {codec : Codec α} {tag : ℕ} {value : α} {hlcTs : UInt64} {frame : Bytes}

theorem encodeRpc_ok (framed : encodeRpc codec tag value hlcTs = .ok frame) :
    ∃ payload, codec.encode value = .ok payload ∧ frame = v1Header tag hlcTs payload.length ++ payload := by
  unfold encodeRpc at framed
  split at framed
  · cases framed
  · rename_i payload encoded
    cases framed
    exact ⟨payload, encoded, rfl⟩

theorem decodeRpc_encodeRpc (name : String) (tagFits : tag < 2 ^ 32)
    (framed : encodeRpc codec tag value hlcTs = .ok frame) (short : frame.length ≤ readLimit) :
    decodeRpc codec name tag frame = .ok (value, hlcTs) := by
  obtain ⟨payload, encoded, rfl⟩ := encodeRpc_ok framed
  have word : readLimit < 2 ^ 32 := by decide
  rw [List.length_append] at short
  have whole := (roundTrips_rpc name hlcTs tagFits encoded (by omega)).whole []
  rwa [List.append_nil] at whole

theorem encodeRpc_restamp (framed : encodeRpc codec tag value 0 = .ok frame) (hlcTs : UInt64) :
    ∃ other, encodeRpc codec tag value hlcTs = .ok other ∧ other.length = frame.length := by
  obtain ⟨payload, encoded, rfl⟩ := encodeRpc_ok framed
  refine ⟨v1Header tag hlcTs payload.length ++ payload, ?_, ?_⟩
  · rw [encodeRpc, encoded]
  · rw [List.length_append, List.length_append, length_v1Header, length_v1Header]

end Frames

section Exchanges

variable {B : Blake3} {F Db : Type} {bloom : Bloom F} {base : Obj.Shard.Path} {L : Libsql Db}
  {X : Outside} {R : RpcPostcard} {node : Running F Db} {at_ : Moment} {req : RpcRequest}

theorem handleRpcConn_received {bytes : Bytes} (framed : encodeRpcRequest R req 0 = .ok bytes)
    (short : bytes.length ≤ readLimit) (prompt : at_.reading.elapsed < streamReadTimeout)
    (room : at_.others < maxConcurrentRpcStreams) (e : CraftecEndpoint Unit) :
    handleRpcConn R e at_.reading at_.others bytes = (e, .serving req) := by
  have decoded : decodeRpcRequest R bytes = .ok (req, 0) :=
    decodeRpc_encodeRpc "request" (by decide) framed short
  have read : readToEnd at_.reading bytes = .bytes := by
    unfold readToEnd
    rw [if_neg (Nat.not_le.mpr prompt), if_neg (Nat.not_lt.mpr short)]
  unfold handleRpcConn
  rw [if_neg (Nat.not_le.mpr room)]
  simp only [read, decoded]
  rfl

theorem handleRpcConn_unread {bytes : Bytes}
    (unread : ¬ (bytes.length ≤ readLimit ∧ at_.reading.elapsed < streamReadTimeout ∧
      at_.others < maxConcurrentRpcStreams)) (e : CraftecEndpoint Unit) :
    (handleRpcConn R e at_.reading at_.others bytes).1 = e ∧
      ∀ req, (handleRpcConn R e at_.reading at_.others bytes).2 ≠ .serving req := by
  unfold handleRpcConn
  split
  · exact ⟨rfl, fun _ same => by cases same⟩
  · rename_i room
    have missed : readToEnd at_.reading bytes ≠ .bytes := by
      intro read
      unfold readToEnd at read
      split at read
      · cases read
      · rename_i prompt
        split at read
        · cases read
        · rename_i short
          exact unread ⟨Nat.le_of_not_lt short, Nat.lt_of_not_le prompt, Nat.lt_of_not_le room⟩
    split
    · exact ⟨rfl, fun _ same => by cases same⟩
    · exact ⟨rfl, fun _ same => by cases same⟩
    · rename_i read
      exact absurd read missed

theorem exchange_lost (lost : received R at_ req = false) :
    (exchange B bloom base L X R node at_ req).1 = node ∧
      ∃ e, (exchange B bloom base L X R node at_ req).2 = .error e := by
  unfold received at lost
  unfold exchange
  split at lost
  · exact ⟨rfl, _, rfl⟩
  · rename_i bytes framed
    obtain ⟨kept, unserved⟩ := handleRpcConn_unread (R := R) (of_decide_eq_false lost) node.endpoint
    cases taken : handleRpcConn R node.endpoint at_.reading at_.others bytes with
    | mk endpoint stream =>
      rw [taken] at kept unserved
      cases stream with
      | serving got => exact absurd rfl (unserved got)
      | refused | failed =>
        refine ⟨?_, _, rfl⟩
        rw [show endpoint = node.endpoint from kept]

theorem readResponse_answered {resp : RpcResponse} (heard : answered R at_ resp = true) (hlcTs : UInt64) :
    readResponse R at_ (encodeRpcResponse R resp hlcTs) = .ok resp := by
  unfold answered at heard
  split at heard
  · cases heard
  · rename_i frame shaped
    obtain ⟨fits, stays⟩ := Bool.and_eq_true_iff.mp heard
    have patient : at_.timedOut = false := by simpa using stays
    obtain ⟨other, framed, length⟩ := encodeRpc_restamp shaped hlcTs
    have framed' : encodeRpcResponse R resp hlcTs = .ok other := framed
    have short : other.length ≤ readLimit := length.le.trans (of_decide_eq_true fits)
    have back : decodeRpcResponse R other = .ok (resp, hlcTs) :=
      decodeRpc_encodeRpc "response" (by decide) framed short
    simp only [framed', readResponse, patient, Bool.false_eq_true, if_false,
      if_neg (Nat.not_lt.mpr short), back]

theorem readResponse_unanswered {resp : RpcResponse} (unheard : answered R at_ resp = false)
    (hlcTs : UInt64) : ∃ e, readResponse R at_ (encodeRpcResponse R resp hlcTs) = .error e := by
  cases framed : encodeRpcResponse R resp hlcTs with
  | error e => exact ⟨_, rfl⟩
  | ok other =>
    obtain ⟨payload, encoded, rfl⟩ := encodeRpc_ok framed
    have shaped : encodeRpcResponse R resp 0 =
        .ok (v1Header typeTagRpcResponse 0 payload.length ++ payload) := by
      rw [encodeRpcResponse, encodeRpc, encoded]
    unfold answered at unheard
    simp only [shaped, List.length_append, length_v1Header] at unheard
    simp only [readResponse, List.length_append, length_v1Header]
    split
    · exact ⟨_, rfl⟩
    · rename_i patient
      have long : readLimit < frameHeaderSize + payload.length := by
        rw [Bool.eq_false_of_not_eq_true patient, Bool.not_false, Bool.and_true] at unheard
        exact Nat.lt_of_not_le (of_decide_eq_false unheard)
      rw [if_pos long]
      exact ⟨_, rfl⟩

theorem exchange_received (got : received R at_ req = true) :
    ∃ hlc, (exchange B bloom base L X R node at_ req).1 =
        { (handleRequest B bloom base L X node at_ req).1 with
          endpoint := { (handleRequest B bloom base L X node at_ req).1.endpoint with hlc := hlc } } ∧
      (answered R at_ (handleRequest B bloom base L X node at_ req).2 = true →
        (exchange B bloom base L X R node at_ req).2 =
          .ok (handleRequest B bloom base L X node at_ req).2) ∧
      (answered R at_ (handleRequest B bloom base L X node at_ req).2 = false →
        ∃ e, (exchange B bloom base L X R node at_ req).2 = .error e) := by
  unfold received at got
  split at got
  · cases got
  · rename_i bytes framed
    obtain ⟨short, prompt, room⟩ := of_decide_eq_true got
    have serving := handleRpcConn_received framed short prompt room node.endpoint
    unfold exchange
    simp only [framed, serving]
    exact ⟨_, rfl, fun heard => readResponse_answered heard _, fun unheard =>
      readResponse_unanswered unheard _⟩

theorem handleRequest_refines {left : Set Cid} {m : Objects}
    (refines : Refines B bloom base left node.store m)
    (sound : NoFalseNegatives bloom) (lists : Lists base node.store.fs at_.readDir)
    (only : ∀ data bytes, req = .storePut data → m (Cid.fromData B data) = some bytes → bytes = data) :
    (∃ left', (at_.faults = .none → left' = left) ∧
      Refines B bloom base left' (handleRequest B bloom base L X node at_ req).1.store
        (after m req (handleRequest B bloom base L X node at_ req).2)) ∧
      Right B bloom base L X node m at_
        (printResponse (handleRequest B bloom base L X node at_ req).2) req := by
  cases req with
  | storePut data =>
    have outcome := refines_put refines sound at_.faults data fun bytes => only data bytes rfl
    cases taken : put B bloom base node.store at_.faults data with
    | mk store result =>
      rw [taken] at outcome
      rcases outcome with ⟨stored, kept⟩ | ⟨met, e, failed, kept⟩
      · obtain rfl : result = .ok _ := stored
        simp only [handleRequest, taken]
        exact ⟨⟨_, fun _ => rfl, kept⟩, .inl rfl⟩
      · obtain rfl : result = .error e := failed
        simp only [handleRequest, taken]
        exact ⟨⟨_, fun quiet => absurd quiet met, kept⟩, .inr ⟨met, e, rfl⟩⟩
  | storeGet cid =>
    have outcome := refines_get refines at_.faults cid
    cases taken : get B bloom base node.store at_.faults cid with
    | mk store result =>
      rw [taken] at outcome
      obtain ⟨found | ⟨met, e, failed⟩, kept⟩ := outcome
      · obtain rfl : result = .ok (m cid) := found
        simp only [handleRequest, taken]
        refine ⟨⟨_, fun _ => rfl, kept⟩, .inl ?_⟩
        cases m cid <;> rfl
      · obtain rfl : result = .error e := failed
        simp only [handleRequest, taken]
        exact ⟨⟨_, fun _ => rfl, kept⟩, .inr ⟨met, e, rfl⟩⟩
  | storeList =>
    have filed := refines.filed lists
    cases fault : at_.faults.list with
    | none =>
      simp only [handleRequest, listCids, fault]
      exact ⟨⟨_, fun _ => rfl, refines⟩, .inl ⟨_, nodup_walkShards filed, mem_walkShards filed, rfl⟩⟩
    | some e =>
      simp only [handleRequest, listCids, fault]
      refine ⟨⟨_, fun _ => rfl, refines⟩, .inr ⟨?_, .ioError e, rfl⟩⟩
      intro quiet
      rw [quiet] at fault
      cases fault
  | status | peers | pieceInfo => exact ⟨⟨_, fun _ => rfl, refines⟩, rfl⟩
  | sqlQuery sql =>
    refine ⟨⟨left, fun _ => rfl, ?_⟩, rfl⟩
    simp only [handleRequest]
    split <;> exact refines
  | sqlExecute sql writer signature =>
    refine ⟨⟨left, fun _ => rfl, ?_⟩, rfl⟩
    simp only [handleRequest]
    split
    · exact refines
    · split
      · exact refines
      · split <;> exact refines

end Exchanges

section Sessions

variable {B : Blake3} {F Db : Type} {bloom : Bloom F} {base : Obj.Shard.Path} {L : Libsql Db}
  {X : Outside} {R : RpcPostcard} {E : Ed25519} {U : Utf8} {node : Running F Db} {m : Objects}

theorem withCid_ne_put {text : String} {make : Cid → RpcRequest} {data : Bytes}
    (other : ∀ cid, make cid ≠ .storePut data) : withCid text make ≠ .ok (.storePut data) := by
  unfold withCid
  split
  · intro same
    exact other _ (Except.ok.inj same)
  · intro same
    cases same

theorem stdin_of_request {nodeId : NodeId} {f : Files} {stdin data : Bytes} {args : List String}
    (made : request E U nodeId f stdin args = .ok (.storePut data)) : data = stdin := by
  unfold request at made
  split at made
  · cases made
  · split at made
    · cases made
    · rename_i req parsed
      split at made
      · cases made
        unfold parse at parsed
        split at parsed
        all_goals first
          | cases parsed
          | exact absurd parsed (withCid_ne_put fun _ same => by cases same)
          | skip
        · rfl
        · split at parsed <;> cases parsed
      · cases made

theorem perform_agrees {step : Step} {left : Set Cid} (refines : Refines B bloom base left node.store m)
    (sound : NoFalseNegatives bloom)
    (lists : ∀ at_ f stdin args, step = .command at_ f stdin args → Lists base node.store.fs at_.readDir)
    (only : ∀ bytes, m (Cid.fromData B step.data) = some bytes → bytes = step.data) :
    (∃ left', (step.faults = .none → left' = left) ∧
      Refines B bloom base left' (perform B bloom base L X R E U node step).1.store
        (stepped B bloom base L X R E U node m step)) ∧
      Shows B bloom base L X R E U node m (perform B bloom base L X R E U node step).2 step := by
  cases step with
  | put faults data =>
    refine ⟨?_, rfl⟩
    simp only [perform, stepped]
    rcases refines_put refines sound faults data only with ⟨stored, kept⟩ | ⟨met, e, failed, kept⟩
    · rw [stored]
      exact ⟨_, fun _ => rfl, kept⟩
    · rw [failed]
      exact ⟨_, fun quiet => absurd quiet met, kept⟩
  | command at_ f stdin args =>
    simp only [perform, stepped, Shows, runCli]
    cases made : request E U node.nodeId f stdin args with
    | error e => exact ⟨⟨_, fun _ => rfl, refines⟩, rfl⟩
    | ok req =>
      simp only
      cases got : received R at_ req with
      | false =>
        obtain ⟨kept, e, failed⟩ := @exchange_lost B F Db bloom base L X R node at_ req got
        cases taken : exchange B bloom base L X R node at_ req with
        | mk after result =>
          rw [taken] at kept failed
          obtain rfl : after = node := kept
          obtain rfl : result = .error e := failed
          exact ⟨⟨left, fun _ => rfl, by simpa using refines⟩, by simp⟩
      | true =>
        obtain ⟨hlc, kept, heard, unheard⟩ := @exchange_received B F Db bloom base L X R node at_ req got
        obtain ⟨⟨left', same, refines'⟩, right⟩ := @handleRequest_refines B F Db bloom base L X node at_ req left m
          refines sound (lists at_ f stdin args rfl) fun data bytes isPut bound => by
            subst isPut
            obtain rfl := stdin_of_request made
            exact only bytes bound
        cases taken : exchange B bloom base L X R node at_ req with
        | mk after result =>
          rw [taken] at kept heard unheard
          obtain rfl := kept
          cases answer : answered R at_ (handleRequest B bloom base L X node at_ req).2 with
          | true =>
            obtain rfl : result = .ok _ := heard answer
            refine ⟨⟨left', same, by simpa using refines'⟩, ?_⟩
            rw [if_pos ⟨rfl, rfl⟩]
            exact ⟨_, rfl, right⟩
          | false =>
            obtain ⟨e, failed⟩ := unheard answer
            obtain rfl : result = .error e := failed
            refine ⟨⟨left', same, by simpa using refines'⟩, ?_⟩
            rw [if_neg fun both => Bool.false_ne_true both.2]
            exact ⟨e, rfl⟩

theorem stepped_mem {step : Step} {data : Set Bytes} (given : step.data ∈ data)
    (stored : ∀ cid bytes, m cid = some bytes → bytes ∈ data) (cid : Cid) (bytes : Bytes)
    (bound : stepped B bloom base L X R E U node m step cid = some bytes) : bytes ∈ data := by
  have updated {key : Cid} {new : Bytes} (isNew : new ∈ data)
      (bound : Function.update m key (some new) cid = some bytes) : bytes ∈ data := by
    rw [Function.update_apply] at bound
    split at bound
    · cases bound
      exact isNew
    · exact stored cid bytes bound
  cases step with
  | put faults new =>
    simp only [stepped] at bound
    cases result : (put B bloom base node.store faults new).2 with
    | ok key =>
      rw [result] at bound
      exact updated given bound
    | error e =>
      rw [result] at bound
      exact stored cid bytes bound
  | command at_ f stdin args =>
    cases made : request E U node.nodeId f stdin args with
    | error e =>
      simp only [stepped, made] at bound
      exact stored cid bytes bound
    | ok req =>
      simp only [stepped, made] at bound
      split at bound
      · generalize (handleRequest B bloom base L X node at_ req).2 = resp at bound
        cases req with
        | storePut new =>
          obtain rfl := stdin_of_request made
          cases resp with
          | storePut key => exact updated given bound
          | _ => exact stored cid bytes bound
        | _ => exact stored cid bytes bound
      · exact stored cid bytes bound

end Sessions

/-! An object stored by one command and fetched by the next. -/

def twoCommands : RpcPostcard where
  request :=
    { encode := fun
        | .storePut data => .ok (0 :: data)
        | .storeGet cid => .ok (1 :: cid.asBytes)
        | _ => .error "unsupported"
      decode := fun
        | 0 :: data => .ok (.storePut data)
        | 1 :: bytes =>
          match Bytes32.ofSlice? bytes with
          | some digest => .ok (.storeGet ⟨digest⟩)
          | none => .error "unexpected end"
        | _ => .error "unexpected end"
      decode_encode := by
        intro value payload encoded
        cases value with
        | storePut data =>
          cases encoded
          rfl
        | storeGet cid =>
          cases encoded
          simp only [Bytes32.ofSlice?_asBytes]
        | _ => cases encoded }
  response :=
    { encode := fun
        | .storePut cid => .ok (0 :: cid.asBytes)
        | .storeGet (some data) => .ok (1 :: data)
        | _ => .error "unsupported"
      decode := fun
        | 0 :: bytes =>
          match Bytes32.ofSlice? bytes with
          | some digest => .ok (.storePut ⟨digest⟩)
          | none => .error "unexpected end"
        | 1 :: data => .ok (.storeGet (some data))
        | _ => .error "unexpected end"
      decode_encode := by
        intro value payload encoded
        cases value with
        | storePut cid =>
          cases encoded
          simp only [Bytes32.ofSlice?_asBytes]
        | storeGet data =>
          cases data with
          | none => cases encoded
          | some data =>
            cases encoded
            rfl
        | _ => cases encoded }

def asciiOnly : Utf8 where
  decode l := if ∀ b ∈ l, b < 128 then some (l.map fun b => Char.ofNat b.toNat) else none
  ascii _ plain := if_pos plain

def sampleNode : Running Unit ℕ where
  nodeId := ⟨Bytes32.fill 7⟩
  store := sampleStore
  database := databaseAt 1 vfs1
  endpoint := ⟨.withCapacity 4, .new ⟨Bytes32.fill 7⟩, 0, ()⟩
  pieceTracker := .new

def sampleFiles : Files := ⟨none, none, some (idText ⟨Bytes32.fill 7⟩)⟩

def sampleMoment (readDir : ReadDir) : Moment :=
  ⟨⟨0, 0, 0⟩, 0, readDir, .none, quietEnv [] vfs1, [], 0, 0, false⟩

def noOutside : Outside := ⟨fun _ _ _ => false, fun _ => none, fun _ => none, fun _ => none⟩

def putThenGet : List Step :=
  [.command (sampleMoment fun _ => some []) sampleFiles [1] ["store", "put"],
    .command (sampleMoment (listing ["objects"] sample)) sampleFiles [] ["store", "get", sample.display]]

end Craftec.Node.Operator
