/- GID: Craftec/Types/Frames
   generality: I
   digest: Frames are read back whole, never out of bounds, and under any type tag. -/

import Mathlib.Data.List.Basic
import Craftec.Library.Records
import Craftec.Types.Digest
import Craftec.Types.Rpc
import Craftec.Types.Wire

set_option autoImplicit false
set_option relaxedAutoImplicit false

namespace Craftec.Types.Frames

open Craftec.Library.Records (fromBeBytes fromBeBytes_lt fromBeBytes_toBeBytes indexed? indexed?_eq
  length_toBeBytes slice? slice?_eq toBeBytes)
open Craftec.Types.Digest (Bytes)
open Craftec.Types.Rpc
open Craftec.Types.Wire

/-! The decoders once more, with every read of the buffer written as the indexing or the
slicing it is in the code. `none` is the panic of a read out of bounds. -/

section Checked

variable (P : Postcard) {α : Type} (codec : Codec α) (R : RpcPostcard)

def decodePayloadChecked (name : String) (header length : ℕ) (data : Bytes) :
    Option (Except CraftecError WireMessage) :=
  if data.length < header + length then
    some (.error (.serializationError
      s!"{name} frame truncated: have {data.length} bytes, need {header + length}"))
  else
    (slice? data header (header + length)).map fun payload =>
      match P.decode payload with
      | .error e => .error (.serializationError s!"postcard decode error: {e}")
      | .ok msg => .ok msg

def decodeFramedWithHlcChecked (data : Bytes) : Option (Except CraftecError (WireMessage × UInt64)) :=
  if data.length < frameHeaderV0Size then
    some (.error (.serializationError
      s!"frame too short: {data.length} bytes (need at least {frameHeaderV0Size})"))
  else
    data[4]?.bind fun version =>
      if version = 0 then
        (indexed? data 5 4).bind fun word =>
          (decodePayloadChecked P "v0" frameHeaderV0Size (fromBeBytes word) data).map fun read =>
            read.map fun msg => (msg, 0)
      else if version = 1 then
        if data.length < frameHeaderSize then
          some (.error (.serializationError
            s!"v1 frame too short: {data.length} bytes (need at least {frameHeaderSize})"))
        else
          (indexed? data 5 8).bind fun stamp => (indexed? data 13 4).bind fun word =>
            (decodePayloadChecked P "v1" frameHeaderSize (fromBeBytes word) data).map fun read =>
              read.map fun msg => (msg, UInt64.ofNat (fromBeBytes stamp))
      else
        some (.error (.serializationError s!"unsupported wire version: {version} (supported: 0, 1)"))

def decodeRpcChecked (name : String) (tag : ℕ) (data : Bytes) :
    Option (Except CraftecError (α × UInt64)) :=
  if data.length < frameHeaderSize then
    some (.error (.serializationError
      s!"RPC {name} frame too short: {data.length} bytes (need at least {frameHeaderSize})"))
  else
    (indexed? data 0 4).bind fun tagBytes =>
      let typeTag := fromBeBytes tagBytes
      if typeTag ≠ tag then
        some (.error (.serializationError
          s!"expected RPC {name} type tag 0x{hexTag tag}, got 0x{hexTag typeTag}"))
      else
        data[4]?.bind fun version =>
          if version ≠ wireVersion then
            some (.error (.serializationError
              s!"unsupported wire version: {version} (expected {wireVersion})"))
          else
            (indexed? data 5 8).bind fun stamp => (indexed? data 13 4).bind fun word =>
              let payloadLen := fromBeBytes word
              if data.length < frameHeaderSize + payloadLen then
                some (.error (.serializationError
                  s!"RPC {name} frame truncated: have {data.length} bytes, need {frameHeaderSize + payloadLen}"))
              else
                (slice? data frameHeaderSize (frameHeaderSize + payloadLen)).map fun payload =>
                  match codec.decode payload with
                  | .error e => .error (.serializationError s!"postcard decode error: {e}")
                  | .ok value => .ok (value, UInt64.ofNat (fromBeBytes stamp))

def decodeRpcRequestChecked (data : Bytes) : Option (Except CraftecError (RpcRequest × UInt64)) :=
  decodeRpcChecked R.request "request" typeTagRpcRequest data

def decodeRpcResponseChecked (data : Bytes) : Option (Except CraftecError (RpcResponse × UInt64)) :=
  decodeRpcChecked R.response "response" typeTagRpcResponse data

variable {codec}

theorem getElem?_version {data : Bytes} (there : 4 < data.length) :
    data[4]? = some (data.getD 4 0) := by
  rw [List.getD_eq_getElem?_getD, List.getElem?_eq_getElem there, Option.getD_some]

theorem decodePayloadChecked_eq (name : String) (header length : ℕ) (data : Bytes) :
    decodePayloadChecked P name header length data =
      some (decodePayload P name header length data) := by
  unfold decodePayloadChecked decodePayload
  split
  · rfl
  · rename_i enough
    rw [slice?_eq (Nat.not_lt.mp enough)]
    rfl

theorem decodeFramedWithHlcChecked_eq (data : Bytes) :
    decodeFramedWithHlcChecked P data = some (decodeFramedWithHlc P data) := by
  unfold decodeFramedWithHlcChecked decodeFramedWithHlc
  split
  · rfl
  · rename_i notShort
    rw [frameHeaderV0Size] at notShort
    rw [getElem?_version (by omega), Option.bind_some]
    dsimp only
    split
    · rw [indexed?_eq (by omega), Option.bind_some, decodePayloadChecked_eq]
      rfl
    · split
      · split
        · rfl
        · rename_i headed
          rw [frameHeaderSize] at headed
          rw [indexed?_eq (by omega), Option.bind_some, indexed?_eq (by omega), Option.bind_some,
            decodePayloadChecked_eq]
          rfl
      · rfl

theorem decodeRpcChecked_eq (name : String) (tag : ℕ) (data : Bytes) :
    decodeRpcChecked codec name tag data = some (decodeRpc codec name tag data) := by
  unfold decodeRpcChecked decodeRpc
  split
  · rfl
  · rename_i headed
    rw [frameHeaderSize] at headed
    rw [indexed?_eq (by omega), Option.bind_some, List.drop_zero]
    dsimp only
    split
    · rfl
    · rw [getElem?_version (by omega), Option.bind_some]
      split
      · rfl
      · rw [indexed?_eq (by omega), Option.bind_some, indexed?_eq (by omega), Option.bind_some]
        split
        · rfl
        · rename_i enough
          rw [slice?_eq (Nat.not_lt.mp enough)]
          rfl

end Checked

/-- A decoder takes the frame, whatever follows it, for the value, and takes no part of
the frame for anything. -/
structure RoundTrips {β : Type} (decode : Bytes → Except CraftecError β) (frame : Bytes) (value : β) :
    Prop where
  whole : ∀ rest, decode (frame ++ rest) = .ok value
  cut : ∀ part, part <+: frame → part ≠ frame → ∃ e, decode part = .error e

/-- The frame without a timestamp that earlier versions sent. -/
def v0Frame (msg : WireMessage) (payload : Bytes) : Bytes :=
  toBeBytes 4 msg.typeTag ++ [0] ++ toBeBytes 4 payload.length ++ payload

section Reading

variable {P : Postcard} {α : Type} {codec : Codec α} {payload : Bytes}

theorem cut_cases {header part : Bytes} (before : part <+: header ++ payload)
    (proper : part ≠ header ++ payload) :
    (part.length < header.length ∧ part <+: header) ∨
      ∃ some_, part = header ++ some_ ∧ some_.length < payload.length := by
  rcases Nat.lt_or_ge part.length header.length with short | long
  · exact .inl ⟨short, List.prefix_of_prefix_length_le before (List.prefix_append _ _) short.le⟩
  · obtain ⟨some_, rfl⟩ := List.prefix_of_prefix_length_le (List.prefix_append header payload) before long
    refine .inr ⟨some_, rfl, ?_⟩
    have inside : some_ <+: payload := (List.prefix_append_right_inj header).mp before
    refine Nat.lt_of_le_of_ne inside.length_le ?_
    intro same
    exact proper (by rw [inside.eq_of_length same])

theorem decodeFramedWithHlc_cut {tag : ℕ} {hlcTs : UInt64} (fits : payload.length < 2 ^ 32)
    {part : Bytes} (before : part <+: v1Header tag hlcTs payload.length ++ payload)
    (proper : part ≠ v1Header tag hlcTs payload.length ++ payload) :
    ∃ e, decodeFramedWithHlc P part = .error e := by
  have size := length_v1Header tag hlcTs payload.length
  rcases cut_cases before proper with ⟨short, inHeader⟩ | ⟨some_, rfl, less⟩
  · rw [size] at short
    unfold decodeFramedWithHlc
    split
    · exact ⟨_, rfl⟩
    · rename_i long
      rw [frameHeaderV0Size] at long
      -- the version byte is there, and it is that of the whole header
      have version : part.getD 4 0 = wireVersion := by
        obtain ⟨rest, whole⟩ := inHeader
        have same := version_v1Header tag hlcTs payload.length []
        rwa [List.append_nil, ← whole, List.getD_eq_getElem?_getD,
          List.getElem?_append_left (by omega), ← List.getD_eq_getElem?_getD] at same
      have later : wireVersion ≠ 0 := by decide
      have current : wireVersion = 1 := rfl
      simp only [version, if_neg later, if_pos current]
      exact ⟨_, rfl⟩
  · rw [decodeFramedWithHlc_v1 tag hlcTs fits, decodePayload, if_pos]
    · exact ⟨_, rfl⟩
    · rw [List.length_append, size]
      omega

theorem v0Frame_fields (msg : WireMessage) (payload rest : Bytes) :
    ((v0Frame msg payload ++ rest).drop 5).take 4 = toBeBytes 4 payload.length ∧
      ((v0Frame msg payload ++ rest).drop frameHeaderV0Size).take payload.length = payload ∧
      (v0Frame msg payload ++ rest).length = frameHeaderV0Size + (payload.length + rest.length) := by
  have front : (toBeBytes 4 msg.typeTag ++ [(0 : UInt8)]).length = 5 := by
    rw [List.length_append, length_toBeBytes]
    rfl
  have header : (toBeBytes 4 msg.typeTag ++ [(0 : UInt8)] ++ toBeBytes 4 payload.length).length =
      frameHeaderV0Size := by
    rw [List.length_append, front, length_toBeBytes]
    rfl
  refine ⟨?_, ?_, ?_⟩
  · rw [v0Frame, List.append_assoc, List.append_assoc, List.drop_left' front,
      List.take_left' (length_toBeBytes 4 _)]
  · rw [v0Frame, List.append_assoc, List.drop_left' header, List.take_left]
  · rw [v0Frame, List.append_assoc, List.length_append, header, List.length_append]

theorem decodeFramedWithHlc_v0 {msg : WireMessage} (encoded : P.encode msg = .ok payload)
    (fits : payload.length < 2 ^ 32) (rest : Bytes) :
    decodeFramedWithHlc P (v0Frame msg payload ++ rest) = .ok (msg, 0) := by
  obtain ⟨word, body, size⟩ := v0Frame_fields msg payload rest
  have version : (v0Frame msg payload ++ rest).getD 4 0 = 0 := rfl
  have readLength : fromBeBytes (toBeBytes 4 payload.length) = payload.length :=
    fromBeBytes_toBeBytes fits
  have long : ¬ (v0Frame msg payload ++ rest).length < frameHeaderV0Size := by omega
  have enough : ¬ (v0Frame msg payload ++ rest).length < frameHeaderV0Size + payload.length := by
    omega
  simp only [decodeFramedWithHlc, if_neg long, version, if_true, word, readLength, decodePayload,
    if_neg enough, body, P.decode_encode encoded]
  rfl

theorem roundTrips_rpc (name : String) {tag : ℕ} (hlcTs : UInt64) (tagFits : tag < 2 ^ 32) {value : α}
    (encoded : codec.encode value = .ok payload) (fits : payload.length < 2 ^ 32) :
    RoundTrips (decodeRpc codec name tag) (v1Header tag hlcTs payload.length ++ payload)
      (value, hlcTs) := by
  constructor
  · intro rest
    have enough : ¬ (payload ++ rest).length < payload.length := by
      rw [List.length_append]
      omega
    rw [List.append_assoc, decodeRpc_v1 name hlcTs tagFits fits, if_neg enough, List.take_left,
      codec.decode_encode encoded]
  · intro part before proper
    rcases cut_cases before proper with ⟨short, -⟩ | ⟨some_, rfl, less⟩
    · rw [length_v1Header] at short
      exact ⟨_, if_pos short⟩
    · rw [decodeRpc_v1 name hlcTs tagFits fits, if_pos less]
      exact ⟨_, rfl⟩

theorem roundTrips_wire {msg : WireMessage} (hlcTs : UInt64) (encoded : P.encode msg = .ok payload)
    (fits : payload.length < 2 ^ 32) :
    RoundTrips (decodeFramedWithHlc P) (frameHeader msg hlcTs payload.length ++ payload)
      (msg, hlcTs) :=
  ⟨decodeFramedWithHlc_append encoded fits hlcTs, fun _ => decodeFramedWithHlc_cut fits⟩

end Reading

/-- For every message, request and response with a payload below `2 ^ 32` bytes, every
timestamp and anything that follows: the frame is read back, each of its proper prefixes
is rejected, and a frame of version 0 is read with timestamp zero. On no byte string
does a decoder read out of bounds. -/
theorem frames_round_trip (P : Postcard) (R : RpcPostcard) :
    (∀ msg payload hlcTs, P.encode msg = .ok payload → payload.length < 2 ^ 32 →
      (∃ frame, encodeFramedWithHlc P msg hlcTs = .ok frame ∧
        RoundTrips (decodeFramedWithHlc P) frame (msg, hlcTs)) ∧
      ∀ rest, decodeFramedWithHlc P (v0Frame msg payload ++ rest) = .ok (msg, 0)) ∧
    (∀ req payload hlcTs, R.request.encode req = .ok payload → payload.length < 2 ^ 32 →
      ∃ frame, encodeRpcRequest R req hlcTs = .ok frame ∧
        RoundTrips (decodeRpcRequest R) frame (req, hlcTs)) ∧
    (∀ resp payload hlcTs, R.response.encode resp = .ok payload → payload.length < 2 ^ 32 →
      ∃ frame, encodeRpcResponse R resp hlcTs = .ok frame ∧
        RoundTrips (decodeRpcResponse R) frame (resp, hlcTs)) ∧
    ∀ data, decodeFramedWithHlcChecked P data = some (decodeFramedWithHlc P data) ∧
      decodeRpcRequestChecked R data = some (decodeRpcRequest R data) ∧
      decodeRpcResponseChecked R data = some (decodeRpcResponse R data) := by
  refine ⟨?_, ?_, ?_, ?_⟩
  · intro msg payload hlcTs encoded fits
    refine ⟨⟨_, ?_, roundTrips_wire hlcTs encoded fits⟩, decodeFramedWithHlc_v0 encoded fits⟩
    rw [encodeFramedWithHlc, encoded]
  · intro req payload hlcTs encoded fits
    refine ⟨_, ?_, roundTrips_rpc "request" hlcTs (by decide) encoded fits⟩
    rw [encodeRpcRequest, encodeRpc, encoded]
  · intro resp payload hlcTs encoded fits
    refine ⟨_, ?_, roundTrips_rpc "response" hlcTs (by decide) encoded fits⟩
    rw [encodeRpcResponse, encodeRpc, encoded]
  · intro data
    exact ⟨decodeFramedWithHlcChecked_eq P data, decodeRpcChecked_eq _ _ data,
      decodeRpcChecked_eq _ _ data⟩

/-! The type tag is written into every frame, and only the RPC decoders read it. -/

def tagField (frame : Bytes) : ℕ := fromBeBytes (frame.take 4)

/-- Whatever is accepted carries the tag of the message it is taken for. -/
def TagsAgree (P : Postcard) : Prop :=
  ∀ frame msg hlcTs, decodeFramedWithHlc P frame = .ok (msg, hlcTs) → tagField frame = msg.typeTag

section Tags

variable {P : Postcard}

theorem tagField_v1Header {tag : ℕ} (tagFits : tag < 2 ^ 32) (hlcTs : UInt64) (length : ℕ) (rest : Bytes) :
    tagField (v1Header tag hlcTs length ++ rest) = tag := by
  rw [tagField, tag_v1Header]
  exact fromBeBytes_toBeBytes tagFits

theorem typeTag_lt (msg : WireMessage) : msg.typeTag < typeTagRpcRequest := by
  cases msg <;> exact Nat.le_of_ble_eq_true rfl

theorem accepts_iff (tag : ℕ) (hlcTs : UInt64) {payload : Bytes} (fits : payload.length < 2 ^ 32)
    (msg : WireMessage) :
    decodeFramedWithHlc P (v1Header tag hlcTs payload.length ++ payload) = .ok (msg, hlcTs) ↔
      P.decode payload = .ok msg := by
  have whole : decodePayload P "v1" frameHeaderSize payload.length
      (v1Header tag hlcTs payload.length ++ payload) =
      match P.decode payload with
      | .error e => .error (.serializationError s!"postcard decode error: {e}")
      | .ok msg => .ok msg := by
    have read := decodePayload_v1 (P := P) tag hlcTs payload []
    rwa [List.append_nil] at read
  rw [decodeFramedWithHlc_v1 tag hlcTs fits, whole]
  constructor
  · intro read
    cases decoded : P.decode payload with
    | error e =>
      rw [decoded] at read
      cases read
    | ok found =>
      rw [decoded] at read
      cases read
      rfl
  · intro decoded
    rw [decoded]
    rfl

theorem exists_of_map_eq_ok {α β : Type} {read : Except CraftecError α} {f : α → β} {value : β}
    (mapped : read.map f = .ok value) : ∃ found, read = .ok found ∧ f found = value := by
  cases read with
  | error e => cases mapped
  | ok found => exact ⟨found, rfl, Except.ok.inj mapped⟩

theorem decodePayload_accepted {name : String} {header length : ℕ} {data : Bytes} {msg : WireMessage}
    (accepted : decodePayload P name header length data = .ok msg) :
    P.decode ((data.drop header).take length) = .ok msg := by
  unfold decodePayload at accepted
  split at accepted
  · cases accepted
  · cases decoded : P.decode ((data.drop header).take length) with
    | error e =>
      rw [decoded] at accepted
      cases accepted
    | ok found =>
      rw [decoded] at accepted
      cases accepted
      rfl

theorem decoded_of_accepted {frame : Bytes} {msg : WireMessage} {hlcTs : UInt64}
    (accepted : decodeFramedWithHlc P frame = .ok (msg, hlcTs)) :
    ∃ payload, payload.length < 2 ^ 32 ∧ P.decode payload = .ok msg := by
  have short (header start : ℕ) :
      ((frame.drop header).take (fromBeBytes ((frame.drop start).take 4))).length < 2 ^ 32 := by
    have word := fromBeBytes_lt ((frame.drop start).take 4)
    have four : ((frame.drop start).take 4).length ≤ 4 := List.length_take_le 4 _
    have below : 256 ^ ((frame.drop start).take 4).length ≤ 256 ^ 4 :=
      Nat.pow_le_pow_right (by decide) four
    have taken := List.length_take_le (fromBeBytes ((frame.drop start).take 4)) (frame.drop header)
    omega
  unfold decodeFramedWithHlc at accepted
  dsimp only at accepted
  split at accepted
  · cases accepted
  · split at accepted
    · obtain ⟨found, read, same⟩ := exists_of_map_eq_ok accepted
      cases same
      exact ⟨_, short _ _, decodePayload_accepted read⟩
    · split at accepted
      · split at accepted
        · cases accepted
        · obtain ⟨found, read, same⟩ := exists_of_map_eq_ok accepted
          cases same
          exact ⟨_, short _ _, decodePayload_accepted read⟩
      · cases accepted

theorem tagsAgree_iff_rejects :
    TagsAgree P ↔ ∀ payload : Bytes, payload.length < 2 ^ 32 → ∃ e, P.decode payload = .error e := by
  constructor
  · intro agree payload fits
    cases decoded : P.decode payload with
    | error e => exact ⟨e, rfl⟩
    | ok msg =>
      -- the payload under the tag of an RPC request
      have tag := agree _ _ _ ((accepts_iff typeTagRpcRequest 0 fits msg).mpr decoded)
      rw [tagField_v1Header (by decide)] at tag
      exact absurd tag (typeTag_lt msg).ne'
  · intro rejects frame msg hlcTs accepted
    obtain ⟨payload, fits, decoded⟩ := decoded_of_accepted accepted
    obtain ⟨e, rejected⟩ := rejects payload fits
    rw [rejected] at decoded
    cases decoded

end Tags

/-- Only a serialisation that reads no payload at all makes every accepted frame carry
the tag of its message; the frames that `encode_framed_with_hlc` writes do. An RPC frame
is taken for the message its payload decodes to. -/
theorem tags_agree_iff (P : Postcard) (R : RpcPostcard) :
    (TagsAgree P ↔ ∀ payload : Bytes, payload.length < 2 ^ 32 → ∃ e, P.decode payload = .error e) ∧
    (∀ msg payload hlcTs, P.encode msg = .ok payload → payload.length < 2 ^ 32 →
      ∃ frame, encodeFramedWithHlc P msg hlcTs = .ok frame ∧
        decodeFramedWithHlc P frame = .ok (msg, hlcTs) ∧ tagField frame = msg.typeTag) ∧
    (∀ req payload hlcTs, R.request.encode req = .ok payload → payload.length < 2 ^ 32 →
      ∃ frame, encodeRpcRequest R req hlcTs = .ok frame ∧ tagField frame = typeTagRpcRequest ∧
        ∀ msg, decodeFramedWithHlc P frame = .ok (msg, hlcTs) ↔ P.decode payload = .ok msg) ∧
    ∀ resp payload hlcTs, R.response.encode resp = .ok payload → payload.length < 2 ^ 32 →
      ∃ frame, encodeRpcResponse R resp hlcTs = .ok frame ∧ tagField frame = typeTagRpcResponse ∧
        ∀ msg, decodeFramedWithHlc P frame = .ok (msg, hlcTs) ↔ P.decode payload = .ok msg := by
  refine ⟨tagsAgree_iff_rejects, ?_, ?_, ?_⟩
  · intro msg payload hlcTs encoded fits
    refine ⟨frameHeader msg hlcTs payload.length ++ payload, ?_,
      (accepts_iff _ _ fits msg).mpr (P.decode_encode encoded), tagField_v1Header ?_ _ _ _⟩
    · rw [encodeFramedWithHlc, encoded]
    · exact (typeTag_lt msg).trans (by decide)
  · intro req payload hlcTs encoded fits
    refine ⟨v1Header typeTagRpcRequest hlcTs payload.length ++ payload, ?_,
      tagField_v1Header (by decide) _ _ _, accepts_iff _ _ fits⟩
    rw [encodeRpcRequest, encodeRpc, encoded]
  · intro resp payload hlcTs encoded fits
    refine ⟨v1Header typeTagRpcResponse hlcTs payload.length ++ payload, ?_,
      tagField_v1Header (by decide) _ _ _, accepts_iff _ _ fits⟩
    rw [encodeRpcResponse, encodeRpc, encoded]

/-! postcard on an empty `StorePut` and on `Pong` with nonce zero: both are the second
variant of their enum followed by a zero. -/

def pongOnly : Postcard where
  encode
    | .pong nonce => if nonce = 0 then .ok [1, 0] else .error "not modelled"
    | _ => .error "not modelled"
  decode payload := if payload = [1, 0] then .ok (.pong 0) else .error "not modelled"
  decode_encode := by
    intro msg payload encoded
    cases msg with
    | pong nonce =>
      dsimp only at encoded
      split at encoded
      · rename_i zero
        cases encoded
        rw [if_pos rfl, zero]
      · cases encoded
    | _ => cases encoded

def putOnly : Codec RpcRequest where
  encode req := if req = .storePut [] then .ok [1, 0] else .error "not modelled"
  decode payload := if payload = [1, 0] then .ok (.storePut []) else .error "not modelled"
  decode_encode := by
    intro req payload encoded
    split at encoded
    · rename_i put
      cases encoded
      rw [if_pos rfl, put]
    · cases encoded

def noResponse : Codec RpcResponse where
  encode _ := .error "not modelled"
  decode _ := .error "not modelled"
  decode_encode encoded := by cases encoded

/-- A request to store the empty object is a `Pong` to the peer decoder. -/
theorem store_put_is_a_pong :
    ∃ frame, encodeRpcRequest ⟨putOnly, noResponse⟩ (.storePut []) 0 = .ok frame ∧
      decodeFramedWithHlc pongOnly frame = .ok (.pong 0, 0) ∧
      tagField frame = typeTagRpcRequest ∧ tagField frame ≠ (WireMessage.pong 0).typeTag := by
  have fits : ([1, 0] : Bytes).length < 2 ^ 32 := by decide
  have tag : tagField (v1Header typeTagRpcRequest 0 2 ++ [1, 0]) = typeTagRpcRequest :=
    tagField_v1Header (by decide) 0 2 [1, 0]
  refine ⟨v1Header typeTagRpcRequest 0 2 ++ [1, 0], rfl, (accepts_iff _ _ fits _).mpr rfl, tag, ?_⟩
  rw [tag]
  exact (typeTag_lt _).ne'

end Craftec.Types.Frames
