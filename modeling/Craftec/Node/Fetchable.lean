/- GID: Craftec/Node/Fetchable
   generality: I
   digest: How long the response with all pieces of an object is, against the longest stream a peer reads. -/

import Mathlib
import Craftec.Library.Records
import Craftec.Net.Endpoint
import Craftec.Net.Swim
import Craftec.Node.Dispatch
import Craftec.Node.EncodeTask
import Craftec.Node.Handler
import Craftec.Rlnc.Encoder
import Craftec.Rlnc.Engine
import Craftec.Sql.Database
import Craftec.Types.Digest
import Craftec.Types.Frames
import Craftec.Types.Piece
import Craftec.Types.Rpc
import Craftec.Types.Wire

set_option autoImplicit false
set_option relaxedAutoImplicit false

namespace Craftec.Node.Fetchable

open Craftec.Library
open Craftec.Library.Records (lt_varintLength one_le_varintLength varintLength
  varintLength_le)
open Craftec.Net.Endpoint (readLimit)
open Craftec.Net.Swim (peerId)
open Craftec.Node.Dispatch (pieceCid stocked twoNodes)
open Craftec.Node.EncodeTask
open Craftec.Node.Handler (NodeMessageHandler Packages Surroundings handleMessage servePieces storedPieces)
open Craftec.Rlnc.Encoder (RlncEncoder pieceSizeFor sourcePiece)
open Craftec.Rlnc.Engine (dimensions_of_encode encode encodeN length_of_encode targetN
  targetN_thirtyTwo)
open Craftec.Sql.Database (Libsql pageEngine)
open Craftec.Types.Digest (Bytes Blake3 Cid NodeId someCid)
open Craftec.Types.Frames (noResponse)
open Craftec.Types.Piece (CodedPiece)
open Craftec.Types.Rpc (RpcPostcard RpcRequest encodeRpc encodeRpcRequest)
open Craftec.Types.Wire (Postcard WireMessage encodeFramed encodeFramedWithHlc encodeFramedWithHlc_ok
  frameHeaderSize length_frameHeader length_v1Header)

/-! Lengths of payloads -/

def contents (piece : CodedPiece) : ℕ := piece.data.length + piece.codingVector.length

/-- A response is at least as long as what its pieces contain. -/
def HoldsPieces (P : Postcard) : Prop :=
  ∀ pieces requestId payload, P.encode (.pieceResponse pieces requestId) = .ok payload →
    (pieces.map contents).sum ≤ payload.length

def bytesLength (bytes : Bytes) : ℕ := varintLength bytes.length + bytes.length

/-- Arrays are written as they are; the content identifier is written as a byte string. -/
def pieceLength (piece : CodedPiece) : ℕ :=
  piece.pieceId.digest.bytes.length + bytesLength piece.cid.asBytes + bytesLength piece.codingVector +
    bytesLength piece.data + piece.hommacTag.bytes.length

def responseLength (pieces : List CodedPiece) (requestId : UInt64) : ℕ :=
  1 + varintLength pieces.length + (pieces.map pieceLength).sum + varintLength requestId.toNat

def putLength (data : Bytes) : ℕ := 1 + bytesLength data

/-- The lengths that the format of `postcard` gives the two messages. -/
structure PostcardSizes (P : Postcard) (R : RpcPostcard) : Prop where
  response : ∀ pieces requestId payload, P.encode (.pieceResponse pieces requestId) = .ok payload →
    payload.length = responseLength pieces requestId
  put : ∀ data payload, R.request.encode (.storePut data) = .ok payload →
    payload.length = putLength data

section Lengths

variable {P : Postcard} {R : RpcPostcard}

theorem length_encodeFramed {msg : WireMessage} {frame : Bytes}
    (framed : encodeFramed P msg = .ok frame) :
    ∃ payload, P.encode msg = .ok payload ∧ frame.length = 17 + payload.length := by
  obtain ⟨payload, encoded, rfl⟩ := encodeFramedWithHlc_ok framed
  exact ⟨payload, encoded, by rw [List.length_append, length_frameHeader, frameHeaderSize]⟩

theorem length_encodeRpcRequest {req : RpcRequest} {hlcTs : UInt64} {frame : Bytes}
    (framed : encodeRpcRequest R req hlcTs = .ok frame) :
    ∃ payload, R.request.encode req = .ok payload ∧ frame.length = 17 + payload.length := by
  unfold encodeRpcRequest encodeRpc at framed
  split at framed
  · cases framed
  · rename_i payload encoded
    cases framed
    exact ⟨payload, encoded, by rw [List.length_append, length_v1Header, frameHeaderSize]⟩

theorem sum_map_of_const {f : CodedPiece → ℕ} {pieces : List CodedPiece} {size : ℕ}
    (same : ∀ piece ∈ pieces, f piece = size) : (pieces.map f).sum = pieces.length * size := by
  have all : ∀ n ∈ pieces.map f, n = size := by
    intro n listed
    obtain ⟨piece, made, rfl⟩ := List.mem_map.mp listed
    exact same piece made
  rw [List.sum_eq_card_nsmul _ _ all, List.length_map, smul_eq_mul]

end Lengths

/-! Stored pieces -/

/-- A piece that was serialised and put, and whose bytes are read and decoded later. -/
def Kept (X : Packages) (env : EncodeEnv) (later : Surroundings) (entry : CodedPiece × ℕ) : Prop :=
  ∃ bytes pcid, env.serialise entry.1 = .ok bytes ∧ env.put entry.2 bytes = .ok pcid ∧
    later.get pcid = .ok (some bytes) ∧ X.piece bytes = some entry.1

/-- An object that the node has encoded, with all its pieces stored, and a handler with the
index as the task left it for this object. -/
structure Indexed (B : Blake3) {Db : Type} (X : Packages) (node : Encoding) (cid : Cid) (data : Bytes)
    (pieces : List CodedPiece) (env : EncodeEnv) (h : NodeMessageHandler Db) (later : Surroundings) :
    Prop where
  reads : env.get cid = .ok (some data)
  drawn : ∀ i, (env.vectors i).length = 32
  encoded : encode B Binary64.rounded env.closed data 32 env.vectors = .ok pieces
  kept : ∀ entry ∈ pieces.zipIdx, Kept X env later entry
  index : h.pieceIndex.get cid = (encodeTask B Binary64.rounded 32 node cid env).pieceIndex.get cid

section Served

variable {B : Blake3} {Db : Type} {L : Libsql Db} {X : Packages} {node : Encoding} {cid : Cid}
  {data : Bytes} {pieces : List CodedPiece} {env : EncodeEnv} {h : NodeMessageHandler Db}
  {later : Surroundings}

theorem storedPieces_append (first second : List Cid) :
    storedPieces X later (first ++ second) = storedPieces X later first ++ storedPieces X later second :=
  List.filterMap_append

theorem storedPieces_storePiece {entry : CodedPiece × ℕ} (kept : Kept X env later entry)
    (s : CodedPieceIndex × List Cid) :
    storedPieces X later (storePiece B env s entry).2 = storedPieces X later s.2 ++ [entry.1] := by
  obtain ⟨bytes, pcid, serialised, stored, read, decoded⟩ := kept
  have one : storedPieces X later [pcid] = [entry.1] := by
    simp only [storedPieces, List.filterMap_cons, List.filterMap_nil, read, decoded]
  simp only [storePiece, serialised, stored, storedPieces_append, one]

theorem storedPieces_storePieces (kept : ∀ entry ∈ pieces.zipIdx, Kept X env later entry)
    (index : CodedPieceIndex) : storedPieces X later (storePieces B env index pieces).2 = pieces := by
  have run : ∀ (entries : List (CodedPiece × ℕ)) (s : CodedPieceIndex × List Cid),
      (∀ entry ∈ entries, Kept X env later entry) →
        storedPieces X later (entries.foldl (storePiece B env) s).2 =
          storedPieces X later s.2 ++ entries.map Prod.fst := by
    intro entries
    induction entries with
    | nil => exact fun s _ => (List.append_nil _).symm
    | cons entry rest ih =>
      intro s all
      rw [List.foldl_cons, ih _ fun e listed => all e (List.mem_cons_of_mem _ listed),
        storedPieces_storePiece (all entry List.mem_cons_self), List.map_cons, List.append_assoc,
        List.singleton_append]
  have none_ : storedPieces X later [] = [] := rfl
  rw [storePieces, run _ _ kept, none_, List.nil_append, List.zipIdx_map_fst]

theorem Indexed.count (indexed : Indexed B X node cid data pieces env h later) : pieces.length = 80 :=
  (length_of_encode indexed.encoded).trans (targetN_thirtyTwo (.inr rfl))

theorem Indexed.found (indexed : Indexed B X node cid data pieces env h later) :
    storedPieces X later ((h.pieceIndex.get cid).getD []) = pieces := by
  have entry : (encodeTask B Binary64.rounded 32 node cid env).pieceIndex.get cid =
      some (storePieces B env node.pieceIndex pieces).2 := by
    have encoded : encode B Binary64.rounded env.closed data (32 : UInt32).toNat env.vectors = .ok pieces := indexed.encoded
    simp only [encodeTask, indexed.reads, encoded]
    exact Finmap.lookup_insert _
  rw [indexed.index, entry, Option.getD_some, storedPieces_storePieces indexed.kept]

theorem Indexed.reply (indexed : Indexed B X node cid data pieces env h later) (peer : NodeId)
    (indices : List UInt32) (requestId : UInt64) :
    (handleMessage B L X h peer (.pieceRequest cid indices requestId) later).2 =
      some (.pieceResponse pieces requestId) := by
  have some_ : pieces ≠ [] := by
    rintro rfl
    exact absurd indexed.count (by decide)
  simp only [handleMessage, servePieces, indexed.found, if_pos some_]

theorem Indexed.sum_contents (indexed : Indexed B X node cid data pieces env h later) :
    (pieces.map contents).sum = 80 * (pieceSizeFor data.length 32 + 32) := by
  have each : ∀ piece ∈ pieces, contents piece = pieceSizeFor data.length 32 + 32 := by
    intro piece made
    obtain ⟨vector, size⟩ := dimensions_of_encode indexed.drawn indexed.encoded made
    rw [contents, vector, size]
  rw [sum_map_of_const each, indexed.count]

theorem Indexed.responseLength_eq (indexed : Indexed B X node cid data pieces env h later)
    (requestId : UInt64) :
    responseLength pieces requestId =
      2 + 80 * (130 + varintLength (pieceSizeFor data.length 32) + pieceSizeFor data.length 32) +
        varintLength requestId.toNat := by
  have short (n : ℕ) (small : n < 128) : varintLength n = 1 :=
    le_antisymm (varintLength_le one_ne_zero small) (one_le_varintLength n)
  have each : ∀ piece ∈ pieces, pieceLength piece =
      130 + varintLength (pieceSizeFor data.length 32) + pieceSizeFor data.length 32 := by
    intro piece made
    obtain ⟨vector, size⟩ := dimensions_of_encode indexed.drawn indexed.encoded made
    rw [pieceLength, bytesLength, bytesLength, bytesLength, vector, size, Cid.asBytes,
      piece.pieceId.digest.size, piece.cid.digest.size, piece.hommacTag.size, short 32 (by decide)]
    omega
  rw [responseLength, sum_map_of_const each, indexed.count, short 80 (by decide)]

end Served

/-! The limits -/

theorem response_fits_iff (size : ℕ) (requestId : UInt64) :
    17 + (2 + 80 * (130 + varintLength size + size) + varintLength requestId.toNat) ≤ readLimit ↔
      size ≤ 52295 := by
  have least := one_le_varintLength requestId.toNat
  have most : varintLength requestId.toNat ≤ 10 :=
    varintLength_le (by decide) (requestId.toNat_lt.trans (by decide))
  have limit : readLimit = 4194304 := rfl
  constructor
  · intro fits
    by_contra large
    have wide : 2 < varintLength size := lt_varintLength (by omega)
    omega
  · intro small
    have narrow : varintLength size ≤ 3 := varintLength_le (by decide) (by omega)
    omega

theorem put_fits_iff (total : ℕ) :
    17 + (1 + (varintLength total + total)) ≤ readLimit ↔ total ≤ 4194282 := by
  have limit : readLimit = 4194304 := rfl
  constructor
  · intro fits
    by_contra large
    have wide : 3 < varintLength total := lt_varintLength (by omega)
    omega
  · intro small
    have narrow : varintLength total ≤ 4 := varintLength_le (by decide) (by omega)
    omega

theorem pieceSizeFor_le_iff {total size : ℕ} (nonzero : 1 ≤ size) :
    pieceSizeFor total 32 ≤ size ↔ total ≤ 32 * size := by
  unfold pieceSizeFor
  split <;> omega

section Limits

variable {B : Blake3} {Db : Type} {L : Libsql Db} {X : Packages} {node : Encoding} {cid : Cid}
  {data : Bytes} {pieces : List CodedPiece} {env : EncodeEnv} {h : NodeMessageHandler Db}
  {later : Surroundings} {P : Postcard} {R : RpcPostcard}

/-- An object is put, encoded and asked for. However a response is written, as long as it holds its
pieces, it is read only if the object has at most 1676672 bytes. In the format of `postcard`, an
object that can be put can be fetched if and only if it has at most 1673440 bytes; one of more
than 4194282 bytes cannot be put. -/
theorem fetchable_iff (holds : HoldsPieces P) (indexed : Indexed B X node cid data pieces env h later)
    {hlcTs : UInt64} {put : Bytes} (sent : encodeRpcRequest R (.storePut data) hlcTs = .ok put)
    {peer : NodeId} {indices : List UInt32} {requestId : UInt64} {reply : WireMessage}
    (replied : (handleMessage B L X h peer (.pieceRequest cid indices requestId) later).2 = some reply)
    {frame : Bytes} (framed : encodeFramed P reply = .ok frame) :
    (frame.length ≤ readLimit → data.length ≤ 1676672) ∧
      (PostcardSizes P R → ((put.length ≤ readLimit → frame.length ≤ readLimit) ↔
        data.length ≤ 1673440 ∨ 4194282 < data.length)) := by
  rw [indexed.reply] at replied
  cases replied
  obtain ⟨payload, encoded, length⟩ := length_encodeFramed framed
  obtain ⟨request, encodedPut, requestLength⟩ := length_encodeRpcRequest sent
  rw [length]
  constructor
  · intro fits
    have room := holds _ _ _ encoded
    rw [indexed.sum_contents] at room
    have limit : readLimit = 4194304 := rfl
    have small : pieceSizeFor data.length 32 ≤ 52396 := by omega
    exact (pieceSizeFor_le_iff (by decide)).mp small
  · intro sizes
    rw [requestLength, sizes.response _ _ _ encoded, sizes.put _ _ encodedPut, indexed.responseLength_eq,
      response_fits_iff, putLength, bytesLength, put_fits_iff, pieceSizeFor_le_iff (by decide)]
    omega

end Limits

/-! An object of zero bytes, and eighty pieces with one coding vector. -/

def zeros (total : ℕ) : Bytes := List.replicate total 0

def ones : ℕ → Bytes := fun _ => List.replicate 32 1

def zerosEncoder (total : ℕ) : RlncEncoder where
  k := 32
  pieceSize := pieceSizeFor (zeros total).length 32
  originalPieces := (List.range 32).map (sourcePiece (zeros total) (pieceSizeFor (zeros total).length 32))
  cid := Cid.fromData .byLeading (zeros total)

def zerosPiece (total : ℕ) : CodedPiece := (zerosEncoder total).encodePiece .byLeading (ones 0)

def zerosPieces (total : ℕ) : List CodedPiece := encodeN .byLeading (zerosEncoder total) ones (targetN Binary64.rounded 32)

def zerosEnv (total : ℕ) : EncodeEnv where
  get _ := .ok (some (zeros total))
  closed := false
  vectors := ones
  serialise _ := .ok [9]
  put _ _ := .ok pieceCid
  now := 0

def zerosPackages (total : ℕ) : Packages := ⟨fun _ => some (zerosPiece total), fun _ => none, fun _ _ _ => false⟩

def zerosHandler (total : ℕ) : NodeMessageHandler ℕ :=
  { (twoNodes (peerId 2)).handler with
    pieceIndex := (encodeTask .byLeading Binary64.rounded 32 fresh someCid (zerosEnv total)).pieceIndex.toCodedPieceIndex }

theorem indexed_zeros (total : ℕ) :
    Indexed .byLeading (zerosPackages total) fresh someCid (zeros total) (zerosPieces total)
      (zerosEnv total) (zerosHandler total) stocked where
  reads := rfl
  drawn _ := List.length_replicate
  encoded := rfl
  kept entry listed := by
    have made : entry.1 ∈ zerosPieces total := List.fst_mem_of_mem_zipIdx listed
    obtain ⟨i, -, same⟩ := List.mem_map.mp made
    exact ⟨[9], pieceCid, rfl, rfl, rfl, congrArg some same⟩
  index := rfl

def responseOnly (total : ℕ) : Postcard where
  encode
    | .pieceResponse pieces requestId =>
      if pieces = zerosPieces total ∧ requestId = 7 then
        .ok (List.replicate (responseLength pieces requestId) 0)
      else .error "unknown"
    | _ => .error "unknown"
  decode _ := .ok (.pieceResponse (zerosPieces total) 7)
  decode_encode := by
    intro msg payload encoded
    cases msg with
    | pieceResponse pieces requestId =>
      simp only at encoded
      split at encoded
      · rename_i both
        obtain ⟨rfl, rfl⟩ := both
        rfl
      · cases encoded
    | _ => cases encoded

def putZeros (total : ℕ) : RpcPostcard where
  request := {
    encode := fun req =>
      if req = .storePut (zeros total) then .ok (List.replicate (putLength (zeros total)) 0)
      else .error "unknown"
    decode := fun _ => .ok (.storePut (zeros total))
    decode_encode := by
      intro req payload encoded
      split at encoded
      · rename_i same
        rw [same]
      · cases encoded }
  response := noResponse

theorem postcardSizes_zeros (total : ℕ) : PostcardSizes (responseOnly total) (putZeros total) where
  response pieces requestId payload encoded := by
    simp only [responseOnly] at encoded
    split at encoded
    · cases encoded
      exact List.length_replicate
    · cases encoded
  put data payload encoded := by
    simp only [putZeros] at encoded
    split at encoded
    · rename_i same
      cases same
      cases encoded
      exact List.length_replicate
    · cases encoded

theorem contents_le_pieceLength (piece : CodedPiece) : contents piece ≤ pieceLength piece := by
  simp only [contents, pieceLength, bytesLength]
  omega

theorem holdsPieces_of_sizes {P : Postcard} {R : RpcPostcard} (sizes : PostcardSizes P R) :
    HoldsPieces P := by
  intro pieces requestId payload encoded
  rw [sizes.response _ _ _ encoded, responseLength]
  have inside := List.sum_le_sum fun piece (_ : piece ∈ pieces) => contents_le_pieceLength piece
  omega

theorem frames_zeros (total : ℕ) :
    ∃ put frame, encodeRpcRequest (putZeros total) (.storePut (zeros total)) 0 = .ok put ∧
      encodeFramed (responseOnly total) (.pieceResponse (zerosPieces total) 7) = .ok frame := by
  have written : (putZeros total).request.encode (.storePut (zeros total)) =
      .ok (List.replicate (putLength (zeros total)) 0) := if_pos rfl
  have answered : (responseOnly total).encode (.pieceResponse (zerosPieces total) 7) =
      .ok (List.replicate (responseLength (zerosPieces total) 7) 0) := if_pos ⟨rfl, rfl⟩
  simp only [encodeRpcRequest, encodeRpc, written, encodeFramed, encodeFramedWithHlc, answered]
  exact ⟨_, _, rfl, rfl⟩

theorem fetchable_at_limit :
    ∃ put frame, encodeRpcRequest (putZeros 1673440) (.storePut (zeros 1673440)) 0 = .ok put ∧
      encodeFramed (responseOnly 1673440) (.pieceResponse (zerosPieces 1673440) 7) = .ok frame ∧
      (put.length ≤ readLimit → frame.length ≤ readLimit) := by
  obtain ⟨put, frame, sent, framed⟩ := frames_zeros 1673440
  have sizes := postcardSizes_zeros 1673440
  have indexed := indexed_zeros 1673440
  refine ⟨put, frame, sent, framed, ?_⟩
  refine ((fetchable_iff (L := pageEngine) (holdsPieces_of_sizes sizes) indexed sent
    (indexed.reply (peerId 1) [] 7) framed).2 sizes).mpr (Or.inl ?_)
  exact List.length_replicate.le

/-- Two mebibytes of zeros are put and encoded, and no peer reads the response with the pieces. -/
theorem stored_but_not_fetchable :
    ∃ put reply frame, encodeRpcRequest (putZeros 2097152) (.storePut (zeros 2097152)) 0 = .ok put ∧
      put.length ≤ readLimit ∧
      Indexed .byLeading (zerosPackages 2097152) fresh someCid (zeros 2097152) (zerosPieces 2097152)
        (zerosEnv 2097152) (zerosHandler 2097152) stocked ∧
      (handleMessage .byLeading pageEngine (zerosPackages 2097152) (zerosHandler 2097152) (peerId 1)
        (.pieceRequest someCid [] 7) stocked).2 = some reply ∧
      encodeFramed (responseOnly 2097152) reply = .ok frame ∧ HoldsPieces (responseOnly 2097152) ∧
      readLimit < frame.length := by
  obtain ⟨put, frame, sent, framed⟩ := frames_zeros 2097152
  have indexed := indexed_zeros 2097152
  have sizes := postcardSizes_zeros 2097152
  have long : (zeros 2097152).length = 2097152 := List.length_replicate
  refine ⟨put, _, frame, sent, ?_, indexed, indexed.reply (peerId 1) [] 7, framed,
    holdsPieces_of_sizes sizes, ?_⟩
  · obtain ⟨payload, encoded, length⟩ := length_encodeRpcRequest sent
    rw [length, sizes.put _ _ encoded, putLength, bytesLength, long]
    exact (put_fits_iff _).mpr (by decide)
  · obtain ⟨payload, encoded, length⟩ := length_encodeFramed framed
    rw [← Nat.not_le, length, sizes.response _ _ _ encoded, indexed.responseLength_eq,
      response_fits_iff, long, pieceSizeFor_le_iff (by decide)]
    decide

end Craftec.Node.Fetchable
