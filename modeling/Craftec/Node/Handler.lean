/- GID: Craftec/Node/Handler
   generality: I
   digest: The message handler of a node, the tables it writes, and the waiters a response reaches. -/

import Mathlib
import Craftec.Crypto.HomMac
import Craftec.Obj.Store
import Craftec.Sql.Database
import Craftec.Sql.RpcWrite
import Craftec.Types.Digest
import Craftec.Types.Piece
import Craftec.Types.Wire

set_option autoImplicit false
set_option relaxedAutoImplicit false

namespace Craftec.Node.Handler

open Craftec.Crypto.HomMac (HomMacKey computeTag)
open Craftec.Obj.Store (ObjError)
open Craftec.Sql.Database (CraftDatabase Libsql)
open Craftec.Sql.RpcWrite (SignedWrite Verifier handleSignedWrite)
open Craftec.Types.Digest (Bytes Blake3 Cid NodeId)
open Craftec.Types.Piece (CodedPiece)
open Craftec.Types.Wire (WireMessage)

structure PendingEntry where
  waiter : ℕ
  registeredAt : ℕ
  deriving DecidableEq

/-- `sent` is what has been put on the channels so far. -/
structure PendingFetches where
  waiters : Finmap fun _ : Cid => List PendingEntry
  sent : List (ℕ × CodedPiece)

namespace PendingFetches

def new : PendingFetches := ⟨∅, []⟩

/-- The entries that wait for a piece of `cid`. -/
def waiting (pending : PendingFetches) (cid : Cid) : List PendingEntry :=
  (pending.waiters.lookup cid).getD []

def register (pending : PendingFetches) (now waiter : ℕ) (cid : Cid) : PendingFetches :=
  { pending with waiters := pending.waiters.insert cid (pending.waiting cid ++ [⟨waiter, now⟩]) }

/-- The entries for `cid` whose receiver is still there. -/
def listening (pending : PendingFetches) (isClosed : ℕ → Bool) (cid : Cid) : List PendingEntry :=
  (pending.waiting cid).filter fun entry => !isClosed entry.waiter

/-- All entries for `cid` are removed; `send` fails, and is ignored, where the receiver was dropped. -/
def resolve (pending : PendingFetches) (isClosed : ℕ → Bool) (cid : Cid) (piece : CodedPiece) :
    PendingFetches :=
  match pending.waiters.lookup cid with
  | some entries =>
    ⟨pending.waiters.erase cid,
      pending.sent ++ (entries.filter fun entry => !isClosed entry.waiter).map fun entry =>
        (entry.waiter, piece)⟩
  | none => pending

def resolveAll (pending : PendingFetches) (isClosed : ℕ → Bool) (pieces : List CodedPiece) :
    PendingFetches :=
  pieces.foldl (fun pending piece => pending.resolve isClosed piece.cid piece) pending

end PendingFetches

def updateFirst {α : Type} (isMeant : α → Bool) (change : α → α) (fresh : α) : List α → List α
  | [] => [fresh]
  | entry :: rest =>
    if isMeant entry then change entry :: rest else entry :: updateFirst isMeant change fresh rest

structure ProviderRecord where
  nodeId : NodeId
  announcedAt : ℕ

structure DhtProviders where
  localProviders : Finmap fun _ : Cid => List ProviderRecord

def DhtProviders.announceProvider (dht : DhtProviders) (now : ℕ) (cid : Cid) (node : NodeId) :
    DhtProviders :=
  ⟨dht.localProviders.insert cid
    (updateFirst (fun record => decide (record.nodeId = node))
      (fun record => { record with announcedAt := now }) ⟨node, now⟩
      ((dht.localProviders.lookup cid).getD []))⟩

structure PieceHolder where
  nodeId : NodeId
  pieceCount : UInt32
  lastSeen : ℕ

structure PieceTracker where
  availability : Finmap fun _ : Cid => List PieceHolder

def PieceTracker.recordPiece (tracker : PieceTracker) (cid : Cid) (holder : PieceHolder) :
    PieceTracker :=
  ⟨tracker.availability.insert cid
    (updateFirst (fun existing => decide (existing.nodeId = holder.nodeId))
      (fun existing => { existing with
        pieceCount := max existing.pieceCount holder.pieceCount, lastSeen := holder.lastSeen })
      holder ((tracker.availability.lookup cid).getD []))⟩

structure CodedPieceIndex where
  index : Finmap fun _ : Cid => List Cid

def CodedPieceIndex.get (index : CodedPieceIndex) (cid : Cid) : Option (List Cid) :=
  index.index.lookup cid

structure NodeMessageHandler (Db : Type) where
  tracker : PieceTracker
  dht : DhtProviders
  pending : PendingFetches
  db : CraftDatabase Db
  pieceIndex : CodedPieceIndex

/-- The third-party decoders of stored pieces and of signed writes, and the signature check. -/
structure Packages where
  piece : Bytes → Option CodedPiece
  write : Bytes → Option SignedWrite
  verify : Verifier

/-- What the handler finds outside its tables: the answers of the object store, which of the waiters
have dropped their receiver, the clock, and the environment of the database. -/
structure Surroundings where
  get : Cid → Except ObjError (Option Bytes)
  isClosed : ℕ → Bool
  now : ℕ
  sql : Craftec.Sql.Database.Env

variable (B : Blake3) {Db : Type} (L : Libsql Db) (X : Packages)

def storedPieces (env : Surroundings) (pcids : List Cid) : List CodedPiece :=
  pcids.filterMap fun pcid =>
    match env.get pcid with
    | .ok (some bytes) => X.piece bytes
    | _ => none

def identityPiece (cid : Cid) (data : Bytes) : CodedPiece :=
  CodedPiece.new B cid [1] data (computeTag B ⟨cid.digest⟩ [1] data)

/-- The answer to a request: coded pieces if there are any, else the raw data. -/
def servePieces (index : CodedPieceIndex) (env : Surroundings) (cid : Cid) (requestId : UInt64) :
    Option WireMessage :=
  let pieces := storedPieces X env ((index.get cid).getD [])
  if pieces ≠ [] then some (.pieceResponse pieces requestId)
  else
    match env.get cid with
    | .ok (some data) => some (.pieceResponse [identityPiece B cid data] requestId)
    | .ok none => some (.pieceResponse [] requestId)
    | .error _ => none

def handleMessage (h : NodeMessageHandler Db) (fromNode : NodeId) (msg : WireMessage)
    (env : Surroundings) : NodeMessageHandler Db × Option WireMessage :=
  match msg with
  | .ping nonce => (h, some (.pong nonce))
  | .pong _ => (h, none)
  | .pieceRequest cid _ requestId => (h, servePieces B X h.pieceIndex env cid requestId)
  | .pieceResponse pieces _ => ({ h with pending := h.pending.resolveAll env.isClosed pieces }, none)
  | .providerAnnounce cid node => ({ h with dht := h.dht.announceProvider env.now cid node }, none)
  | .healthReport cid available _ =>
    ({ h with tracker := h.tracker.recordPiece cid ⟨fromNode, available, env.now⟩ }, none)
  | .signedWrite payload signature writer _ =>
    match X.write payload with
    | some write =>
      ({ h with db := (handleSignedWrite B L X.verify h.db
          { write with writer := writer, signature := signature } env.sql).1 }, none)
    | none => (h, none)
  | _ => (h, none)

section Waiters

variable {pending : PendingFetches} {isClosed : ℕ → Bool} {cid : Cid}

theorem sent_resolve (pending : PendingFetches) (other : Cid) (piece : CodedPiece) {e : ℕ × CodedPiece}
    (sent : e ∈ pending.sent) : e ∈ (pending.resolve isClosed other piece).sent := by
  unfold PendingFetches.resolve
  split
  · exact List.mem_append_left _ sent
  · exact sent

theorem sent_resolveAll (pieces : List CodedPiece) {pending : PendingFetches} {e : ℕ × CodedPiece}
    (sent : e ∈ pending.sent) : e ∈ (pending.resolveAll isClosed pieces).sent := by
  induction pieces generalizing pending with
  | nil => exact sent
  | cons piece rest ih => exact ih (sent_resolve pending piece.cid piece sent)

theorem waiting_resolve_of_ne {other : Cid} (apart : cid ≠ other) (piece : CodedPiece) :
    (pending.resolve isClosed other piece).waiting cid = pending.waiting cid := by
  unfold PendingFetches.resolve
  split
  · unfold PendingFetches.waiting
    rw [Finmap.lookup_erase_ne apart]
  · rfl

theorem listening_resolve_of_ne {other : Cid} (apart : cid ≠ other) (piece : CodedPiece) :
    (pending.resolve isClosed other piece).listening isClosed cid = pending.listening isClosed cid := by
  rw [PendingFetches.listening, waiting_resolve_of_ne apart, PendingFetches.listening]

theorem served_by_resolve {entry : PendingEntry} (listens : entry ∈ pending.listening isClosed cid)
    (piece : CodedPiece) : (entry.waiter, piece) ∈ (pending.resolve isClosed cid piece).sent := by
  unfold PendingFetches.listening PendingFetches.waiting at listens
  unfold PendingFetches.resolve
  split
  · rename_i entries found
    rw [found] at listens
    exact List.mem_append_right _ (List.mem_map.mpr ⟨entry, listens, rfl⟩)
  · rename_i missing
    rw [missing] at listens
    cases listens

theorem served_by_resolveAll {pieces : List CodedPiece} {entry : PendingEntry}
    (listens : entry ∈ pending.listening isClosed cid) (answered : ∃ piece ∈ pieces, piece.cid = cid) :
    ∃ piece ∈ pieces, piece.cid = cid ∧
      (entry.waiter, piece) ∈ (pending.resolveAll isClosed pieces).sent := by
  induction pieces generalizing pending with
  | nil =>
    obtain ⟨piece, listed, -⟩ := answered
    cases listed
  | cons piece rest ih =>
    by_cases own : piece.cid = cid
    · -- The first piece of the content takes the waiters with it.
      have served : (entry.waiter, piece) ∈ (pending.resolve isClosed piece.cid piece).sent :=
        served_by_resolve (own ▸ listens) piece
      exact ⟨piece, List.mem_cons_self, own, sent_resolveAll rest served⟩
    · have still : entry ∈ (pending.resolve isClosed piece.cid piece).listening isClosed cid := by
        rwa [listening_resolve_of_ne (Ne.symm own)]
      have later : ∃ piece ∈ rest, piece.cid = cid := by
        obtain ⟨other, listed, same⟩ := answered
        rcases List.mem_cons.mp listed with rfl | listed
        · exact absurd same own
        · exact ⟨other, listed, same⟩
      obtain ⟨found, listed, same, sent⟩ := ih still later
      exact ⟨found, List.mem_cons_of_mem _ listed, same, sent⟩

end Waiters

end Craftec.Node.Handler
