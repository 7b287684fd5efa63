/- GID: Craftec/Types/Wire
   generality: I
   digest: The messages of the wire protocol and their frames. -/

import Craftec.Library.Records
import Craftec.Types.Digest
import Craftec.Types.Piece

set_option autoImplicit false
set_option relaxedAutoImplicit false

namespace Craftec.Types.Wire

open Craftec.Library.Records (fromBeBytes fromBeBytes_toBeBytes length_toBeBytes toBeBytes)
open Craftec.Types.Digest (Bytes Cid NodeId)
open Craftec.Types.Piece (CodedPiece)

inductive WireMessage where
  | ping (nonce : UInt64)
  | pong (nonce : UInt64)
  | pieceRequest (cid : Cid) (pieceIndices : List UInt32) (requestId : UInt64)
  | pieceResponse (pieces : List CodedPiece) (requestId : UInt64)
  | providerAnnounce (cid : Cid) (nodeId : NodeId)
  | signedWrite (payload signature : Bytes) (writer : NodeId) (casVersion : UInt64)
  | swimJoin (nodeId : NodeId) (listenPort : UInt16)
  | swimAlive (nodeId : NodeId) (incarnation : UInt64)
  | swimSuspect (nodeId : NodeId) (incarnation : UInt64) (fromNode : NodeId)
  | swimDead (nodeId : NodeId) (incarnation : UInt64) (fromNode : NodeId)
  | healthReport (cid : Cid) (availablePieces targetPieces : UInt32)
  | swimPing (fromNode : NodeId) (nonce : UInt64) (piggyback : List WireMessage)
  | swimPingAck (fromNode : NodeId) (nonce incarnation : UInt64)

def WireMessage.isSwim : WireMessage → Bool
  | .swimJoin _ _ | .swimAlive _ _ | .swimSuspect _ _ _ | .swimDead _ _ _ | .swimPing _ _ _
  | .swimPingAck _ _ _ => true
  | _ => false

def WireMessage.typeTag : WireMessage → ℕ
  | .ping _ => 0x0001
  | .pong _ => 0x0002
  | .pieceRequest _ _ _ => 0x0010
  | .pieceResponse _ _ => 0x0011
  | .providerAnnounce _ _ => 0x0020
  | .signedWrite _ _ _ _ => 0x0030
  | .swimJoin _ _ => 0x0100
  | .swimAlive _ _ => 0x0101
  | .swimSuspect _ _ _ => 0x0102
  | .swimDead _ _ _ => 0x0103
  | .swimPing _ _ _ => 0x0104
  | .swimPingAck _ _ _ => 0x0105
  | .healthReport _ _ _ => 0x0040

/-- The third-party `postcard` package at one type: what it writes it reads back. -/
structure Codec (α : Type) where
  encode : α → Except String Bytes
  decode : Bytes → Except String α
  decode_encode : ∀ {value payload}, encode value = .ok payload → decode payload = .ok value

abbrev Postcard := Codec WireMessage

inductive CraftecError where
  | serializationError (message : String)
  deriving DecidableEq

def CraftecError.display : CraftecError → String
  | .serializationError message => s!"serialization error: {message}"

def wireVersion : UInt8 := 1

def frameHeaderSize : ℕ := 17

def frameHeaderV0Size : ℕ := 9

/-- The header that all encoders write: tag, version, timestamp and payload length; the length is
truncated to 32 bits, as `as u32` does. -/
def v1Header (tag : ℕ) (hlcTs : UInt64) (length : ℕ) : Bytes :=
  toBeBytes 4 tag ++ [wireVersion] ++ toBeBytes 8 hlcTs.toNat ++ toBeBytes 4 length

def frameHeader (msg : WireMessage) (hlcTs : UInt64) (length : ℕ) : Bytes :=
  v1Header msg.typeTag hlcTs length

variable (P : Postcard)

def encodeFramedWithHlc (msg : WireMessage) (hlcTs : UInt64) : Except CraftecError Bytes :=
  match P.encode msg with
  | .error e => .error (.serializationError s!"postcard encode error: {e}")
  | .ok payload => .ok (frameHeader msg hlcTs payload.length ++ payload)

def encodeFramed (msg : WireMessage) : Except CraftecError Bytes := encodeFramedWithHlc P msg 0

/-- The payload of a frame, after a header of `header` bytes that says how long it is. -/
def decodePayload (name : String) (header length : ℕ) (data : Bytes) :
    Except CraftecError WireMessage :=
  if data.length < header + length then
    .error (.serializationError
      s!"{name} frame truncated: have {data.length} bytes, need {header + length}")
  else
    match P.decode ((data.drop header).take length) with
    | .error e => .error (.serializationError s!"postcard decode error: {e}")
    | .ok msg => .ok msg

def decodeFramedWithHlc (data : Bytes) : Except CraftecError (WireMessage × UInt64) :=
  if data.length < frameHeaderV0Size then
    .error (.serializationError
      s!"frame too short: {data.length} bytes (need at least {frameHeaderV0Size})")
  else
    let version := data.getD 4 0
    if version = 0 then
      (decodePayload P "v0" frameHeaderV0Size (fromBeBytes ((data.drop 5).take 4)) data).map
        fun msg => (msg, 0)
    else if version = 1 then
      if data.length < frameHeaderSize then
        .error (.serializationError
          s!"v1 frame too short: {data.length} bytes (need at least {frameHeaderSize})")
      else
        (decodePayload P "v1" frameHeaderSize (fromBeBytes ((data.drop 13).take 4)) data).map
          fun msg => (msg, UInt64.ofNat (fromBeBytes ((data.drop 5).take 8)))
    else .error (.serializationError s!"unsupported wire version: {version} (supported: 0, 1)")

section Header

variable (tag : ℕ) (hlcTs : UInt64) (length : ℕ) (rest : Bytes)

theorem length_v1Header : (v1Header tag hlcTs length).length = frameHeaderSize := by
  simp only [v1Header, List.length_append, length_toBeBytes, List.length_singleton, frameHeaderSize]

/-! What the decoders read in the place of each field, whatever follows the header. -/

theorem tag_v1Header : (v1Header tag hlcTs length ++ rest).take 4 = toBeBytes 4 tag := by
  rw [v1Header, List.append_assoc, List.append_assoc, List.append_assoc,
    List.take_left' (length_toBeBytes 4 _)]

theorem version_v1Header : (v1Header tag hlcTs length ++ rest).getD 4 0 = wireVersion := rfl

theorem stamp_v1Header :
    ((v1Header tag hlcTs length ++ rest).drop 5).take 8 = toBeBytes 8 hlcTs.toNat := by
  have front : (toBeBytes 4 tag ++ [wireVersion]).length = 5 := by
    rw [List.length_append, length_toBeBytes]
    rfl
  rw [v1Header, List.append_assoc, List.append_assoc, List.drop_left' front,
    List.take_left' (length_toBeBytes 8 _)]

theorem payloadLen_v1Header :
    ((v1Header tag hlcTs length ++ rest).drop 13).take 4 = toBeBytes 4 length := by
  have front : (toBeBytes 4 tag ++ [wireVersion] ++ toBeBytes 8 hlcTs.toNat).length = 13 := by
    rw [List.length_append, List.length_append, length_toBeBytes, length_toBeBytes]
    rfl
  rw [v1Header, List.append_assoc, List.drop_left' front, List.take_left' (length_toBeBytes 4 _)]

theorem drop_v1Header : (v1Header tag hlcTs length ++ rest).drop frameHeaderSize = rest :=
  List.drop_left' (length_v1Header tag hlcTs length)

theorem fromBeBytes_stamp : UInt64.ofNat (fromBeBytes (toBeBytes 8 hlcTs.toNat)) = hlcTs := by
  rw [fromBeBytes_toBeBytes hlcTs.toNat_lt, UInt64.ofNat_toNat]

end Header

section Frames

variable {P} {msg : WireMessage} {hlcTs : UInt64} {bytes payload : Bytes}

theorem length_frameHeader (msg : WireMessage) (hlcTs : UInt64) (length : ℕ) :
    (frameHeader msg hlcTs length).length = frameHeaderSize := length_v1Header _ _ _

theorem encodeFramedWithHlc_ok (framed : encodeFramedWithHlc P msg hlcTs = .ok bytes) :
    ∃ payload, P.encode msg = .ok payload ∧
      bytes = frameHeader msg hlcTs payload.length ++ payload := by
  unfold encodeFramedWithHlc at framed
  split at framed
  · cases framed
  · rename_i payload encoded
    cases framed
    exact ⟨payload, encoded, rfl⟩

theorem decodeFramedWithHlc_v1 (tag : ℕ) (hlcTs : UInt64) {length : ℕ} (fits : length < 2 ^ 32)
    (rest : Bytes) : decodeFramedWithHlc P (v1Header tag hlcTs length ++ rest) =
      (decodePayload P "v1" frameHeaderSize length (v1Header tag hlcTs length ++ rest)).map
        fun msg => (msg, hlcTs) := by
  have whole : (v1Header tag hlcTs length ++ rest).length = 17 + rest.length := by
    rw [List.length_append, length_v1Header, frameHeaderSize]
  have readLength : fromBeBytes (toBeBytes 4 length) = length := fromBeBytes_toBeBytes fits
  have notShort : ¬ 17 + rest.length < 9 := by omega
  have headed : ¬ 17 + rest.length < 17 := by omega
  have second : wireVersion ≠ 0 := by decide
  have version : wireVersion = 1 := rfl
  simp only [decodeFramedWithHlc, version_v1Header, whole, stamp_v1Header, payloadLen_v1Header,
    readLength, fromBeBytes_stamp, frameHeaderV0Size, if_neg notShort, if_neg second, if_pos version,
    frameHeaderSize, if_neg headed]

theorem decodePayload_v1 (tag : ℕ) (hlcTs : UInt64) (payload rest : Bytes) :
    decodePayload P "v1" frameHeaderSize payload.length
        (v1Header tag hlcTs payload.length ++ (payload ++ rest)) =
      match P.decode payload with
      | .error e => .error (.serializationError s!"postcard decode error: {e}")
      | .ok msg => .ok msg := by
  have enough : ¬ (v1Header tag hlcTs payload.length ++ (payload ++ rest)).length <
      frameHeaderSize + payload.length := by
    rw [List.length_append, length_v1Header, List.length_append]
    omega
  rw [decodePayload, if_neg enough, drop_v1Header, List.take_left]

theorem decodeFramedWithHlc_append (encoded : P.encode msg = .ok payload)
    (fits : payload.length < 2 ^ 32) (hlcTs : UInt64) (rest : Bytes) :
    decodeFramedWithHlc P (frameHeader msg hlcTs payload.length ++ payload ++ rest) =
      .ok (msg, hlcTs) := by
  have body := decodePayload_v1 (P := P) msg.typeTag hlcTs payload rest
  rw [P.decode_encode encoded] at body
  rw [frameHeader, List.append_assoc, decodeFramedWithHlc_v1 _ _ fits, body]
  rfl

theorem decodeFramedWithHlc_of_encode (framed : encodeFramedWithHlc P msg hlcTs = .ok bytes)
    (fits : bytes.length < 2 ^ 32) : decodeFramedWithHlc P bytes = .ok (msg, hlcTs) := by
  obtain ⟨payload, encoded, rfl⟩ := encodeFramedWithHlc_ok framed
  have short : payload.length < 2 ^ 32 := by
    rw [List.length_append] at fits
    omega
  have read := decodeFramedWithHlc_append encoded short hlcTs []
  rwa [List.append_nil] at read

end Frames

end Craftec.Types.Wire
