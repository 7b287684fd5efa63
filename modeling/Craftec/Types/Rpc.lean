/- GID: Craftec/Types/Rpc
   generality: I
   digest: The requests and responses of the RPC protocol and their frames. -/

import Craftec.Library.Records
import Craftec.Types.Digest
import Craftec.Types.Wire

set_option autoImplicit false
set_option relaxedAutoImplicit false

namespace Craftec.Types.Rpc

open Craftec.Library.Records (fromBeBytes fromBeBytes_toBeBytes toBeBytes)
open Craftec.Types.Digest (Bytes Cid NodeId)
open Craftec.Types.Wire (Codec CraftecError drop_v1Header frameHeaderSize fromBeBytes_stamp length_v1Header
  payloadLen_v1Header stamp_v1Header tag_v1Header v1Header version_v1Header wireVersion)

inductive RpcRequest where
  | status
  | storePut (data : Bytes)
  | storeGet (cid : Cid)
  | storeList
  | sqlQuery (sql : String)
  | sqlExecute (sql : String) (writer : NodeId) (signature : Bytes)
  | peers
  | pieceInfo (cid : Cid)
  deriving DecidableEq

/-- One column of a query result; a `Real` is its 64 bits. -/
inductive RpcValue where
  | null
  | integer (value : Int64)
  | real (bits : UInt64)
  | text (value : String)
  | blob (value : Bytes)
  deriving DecidableEq

inductive RpcResponse where
  | status (nodeId : NodeId) (alivePeers storeObjects : UInt64) (dbRootCid : Cid) (uptimeSecs : UInt64)
  | storePut (cid : Cid)
  | storeGet (data : Option Bytes)
  | storeList (cids : List Cid)
  | sqlQuery (rows : List (List RpcValue))
  | sqlExecute (rootCid : Cid)
  | peers (peers : List NodeId) (count : UInt64)
  | pieceInfo (cid : Cid) (available : UInt32) (k : Option UInt32) (holders : List NodeId)
  | error (code : UInt32) (message : String)
  deriving DecidableEq

structure RpcPostcard where
  request : Codec RpcRequest
  response : Codec RpcResponse

def typeTagRpcRequest : ℕ := 0x0200

def typeTagRpcResponse : ℕ := 0x0201

/-- Lower-case hexadecimal with at least four digits, as `{:04x}` prints it. -/
def hexTag (tag : ℕ) : String := String.ofList ((Nat.toDigits 16 tag).leftpad 4 '0')

section Frames

variable {α : Type} (codec : Codec α)

/-- The frame under a type tag; the payload length is truncated to 32 bits. -/
def encodeRpc (tag : ℕ) (value : α) (hlcTs : UInt64) : Except CraftecError Bytes :=
  match codec.encode value with
  | .error e => .error (.serializationError s!"postcard encode error: {e}")
  | .ok payload => .ok (v1Header tag hlcTs payload.length ++ payload)

/-- The reading of a frame of one type tag, with its name in the error texts. -/
def decodeRpc (name : String) (tag : ℕ) (data : Bytes) : Except CraftecError (α × UInt64) :=
  if data.length < frameHeaderSize then
    .error (.serializationError
      s!"RPC {name} frame too short: {data.length} bytes (need at least {frameHeaderSize})")
  else
    let typeTag := fromBeBytes (data.take 4)
    if typeTag ≠ tag then
      .error (.serializationError
        s!"expected RPC {name} type tag 0x{hexTag tag}, got 0x{hexTag typeTag}")
    else
      let version := data.getD 4 0
      if version ≠ wireVersion then
        .error (.serializationError
          s!"unsupported wire version: {version} (expected {wireVersion})")
      else
        let payloadLen := fromBeBytes ((data.drop 13).take 4)
        if data.length < frameHeaderSize + payloadLen then
          .error (.serializationError
            s!"RPC {name} frame truncated: have {data.length} bytes, need {frameHeaderSize + payloadLen}")
        else
          match codec.decode ((data.drop frameHeaderSize).take payloadLen) with
          | .error e => .error (.serializationError s!"postcard decode error: {e}")
          | .ok value => .ok (value, UInt64.ofNat (fromBeBytes ((data.drop 5).take 8)))

variable {codec}

theorem decodeRpc_v1 (name : String) {tag : ℕ} (hlcTs : UInt64) {length : ℕ}
    (tagFits : tag < 2 ^ 32) (fits : length < 2 ^ 32) (rest : Bytes) :
    decodeRpc codec name tag (v1Header tag hlcTs length ++ rest) =
      if rest.length < length then
        .error (.serializationError
          s!"RPC {name} frame truncated: have {17 + rest.length} bytes, need {17 + length}")
      else
        match codec.decode (rest.take length) with
        | .error e => .error (.serializationError s!"postcard decode error: {e}")
        | .ok value => .ok (value, hlcTs) := by
  have whole : (v1Header tag hlcTs length ++ rest).length = 17 + rest.length := by
    rw [List.length_append, length_v1Header, frameHeaderSize]
  have readTag : fromBeBytes (toBeBytes 4 tag) = tag := fromBeBytes_toBeBytes tagFits
  have readLength : fromBeBytes (toBeBytes 4 length) = length := fromBeBytes_toBeBytes fits
  have headed : ¬ 17 + rest.length < 17 := by omega
  have payload := drop_v1Header tag hlcTs length rest
  rw [frameHeaderSize] at payload
  simp only [decodeRpc, whole, frameHeaderSize, if_neg headed, tag_v1Header, readTag,
    version_v1Header, payloadLen_v1Header, readLength, stamp_v1Header, fromBeBytes_stamp, payload,
    ne_eq, not_true_eq_false, if_false, Nat.add_lt_add_iff_left]

end Frames

variable (R : RpcPostcard)

def encodeRpcRequest (req : RpcRequest) (hlcTs : UInt64) : Except CraftecError Bytes :=
  encodeRpc R.request typeTagRpcRequest req hlcTs

def encodeRpcResponse (resp : RpcResponse) (hlcTs : UInt64) : Except CraftecError Bytes :=
  encodeRpc R.response typeTagRpcResponse resp hlcTs

def decodeRpcRequest (data : Bytes) : Except CraftecError (RpcRequest × UInt64) :=
  decodeRpc R.request "request" typeTagRpcRequest data

def decodeRpcResponse (data : Bytes) : Except CraftecError (RpcResponse × UInt64) :=
  decodeRpc R.response "response" typeTagRpcResponse data

end Craftec.Types.Rpc
