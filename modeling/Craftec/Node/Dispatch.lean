/- GID: Craftec/Node/Dispatch
   generality: I
   digest: Which application messages reach the handler of the node they are delivered to. -/

import Mathlib
import Craftec.Library.Run
import Craftec.Net.Endpoint
import Craftec.Net.Pool
import Craftec.Net.Swim
import Craftec.Node.Handler
import Craftec.Sql.Database
import Craftec.Types.Digest
import Craftec.Types.Hlc
import Craftec.Types.Piece
import Craftec.Types.Wire

set_option autoImplicit false
set_option relaxedAutoImplicit false

namespace Craftec.Node.Dispatch

open Craftec.Library.Run (Reach anyStep exists_reach)
open Craftec.Net.Endpoint
open Craftec.Net.Pool (ConnectionPool)
open Craftec.Net.Swim (SwimMembership peerId)
open Craftec.Node.Handler
open Craftec.Sql.Database (Libsql onePageDb pageEngine quietEnv)
open Craftec.Types.Digest (Bytes Bytes32 Blake3 Cid NodeId someCid)
open Craftec.Types.Hlc (checkRemote)
open Craftec.Types.Piece (CodedPiece)
open Craftec.Types.Wire (Postcard WireMessage encodeFramedWithHlc)

section Messages

variable {P : Postcard} {B : Blake3} {Db : Type} {L : Libsql Db} {X : Packages}
  {nodes : NodeId → CraftecEndpoint (NodeMessageHandler Db)}
  {w w' : World (NodeMessageHandler Db)} {c : ℕ} {side : End} {k : ℕ} {r : Reading}
  {conn : Connection} {bytes : Bytes} {msg : WireMessage} {hlcTs : UInt64}

/-- The handler has been called with the message at that end, and if it is a response
then every waiter for one of its contents that has not dropped its receiver is served when the call is
carried out. -/
def Dispatched (P : Postcard) (B : Blake3) (L : Libsql Db) (X : Packages)
    (w : World (NodeMessageHandler Db)) (c : ℕ) (side : End) (msg : WireMessage) : Prop :=
  w.Handed c side msg ∧
    ∀ pieces requestId, msg = .pieceResponse pieces requestId →
      ∀ v v' conn env, Reach (step P (handleMessage B L X)) anyStep w v →
        v.conns c = some conn → conn.reader side = .handling msg →
        step P (handleMessage B L X) v (.handle c side env) = some v' →
          ∀ cid, (∃ piece ∈ pieces, piece.cid = cid) →
            ∀ entry ∈ (v.nodes (conn.node side)).handler.pending.listening env.isClosed cid,
              ∃ piece ∈ pieces, piece.cid = cid ∧
                (entry.waiter, piece) ∈ (v'.nodes (conn.node side)).handler.pending.sent

theorem response_served {v v' : World (NodeMessageHandler Db)} {pieces : List CodedPiece}
    {requestId : UInt64} {env : Surroundings} {cid : Cid} {entry : PendingEntry}
    (found : v.conns c = some conn) (stands : conn.reader side = .handling (.pieceResponse pieces requestId))
    (taken : step P (handleMessage B L X) v (.handle c side env) = some v')
    (answered : ∃ piece ∈ pieces, piece.cid = cid)
    (listens : entry ∈ (v.nodes (conn.node side)).handler.pending.listening env.isClosed cid) :
    ∃ piece ∈ pieces, piece.cid = cid ∧
      (entry.waiter, piece) ∈ (v'.nodes (conn.node side)).handler.pending.sent := by
  have resolved : (v'.nodes (conn.node side)).handler.pending =
      (v.nodes (conn.node side)).handler.pending.resolveAll env.isClosed pieces := by
    simp only [step, found, Option.bind_some, stands, handleMessage] at taken
    cases taken
    change (Function.update v.nodes (conn.node side) _ (conn.node side)).handler.pending = _
    rw [Function.update_self]
  rw [resolved]
  exact served_by_resolveAll listens answered

/-- A delivered application message with an accepted timestamp is dispatched exactly at
the accepting end, while the loop of its reader goes on, if the frame is within
the bound of the read and arrives within its timeout. -/
theorem dispatched_iff_accepted_end
    (reach : Reach (step P (handleMessage B L X)) anyStep (start nodes) w)
    (found : w.conns c = some conn) (waits : (conn.streams side)[k]? = some bytes)
    (taken : step P (handleMessage B L X) w (.deliver c side k r) = some w')
    (framed : encodeFramedWithHlc P msg hlcTs = .ok bytes) (application : msg.isSwim = false)
    (accepted : hlcTs = 0 ∨ checkRemote r.wall hlcTs = .ok ()) :
    Dispatched P B L X w' c side msg ↔ side = .acceptor ∧ conn.reader side ≠ .stopped ∧
      bytes.length ≤ readLimit ∧ r.elapsed < streamReadTimeout := by
  have handed := deliver_hands_iff (reach_loops reach) found waits taken framed application accepted
  constructor
  · exact fun dispatched => handed.mp dispatched.1
  · intro all
    refine ⟨handed.mpr all, ?_⟩
    rintro pieces requestId rfl v v' later env - there stands handled cid answered entry listens
    exact response_served there stands handled answered listens

end Messages

section Runs

def pieceCid : Cid := ⟨Bytes32.fill 6⟩

def somePiece : CodedPiece := ⟨⟨Bytes32.fill 6⟩, someCid, [1], [42], Bytes32.fill 0⟩

def twoMessages : Postcard where
  encode
    | .pieceRequest cid indices requestId =>
      if cid = someCid ∧ indices = [] ∧ requestId = 7 then .ok [0] else .error "unknown"
    | .pieceResponse pieces requestId =>
      if pieces = [somePiece] ∧ requestId = 7 then .ok [1] else .error "unknown"
    | _ => .error "unknown"
  decode payload :=
    if payload = [0] then .ok (.pieceRequest someCid [] 7)
    else if payload = [1] then .ok (.pieceResponse [somePiece] 7)
    else .error "unknown"
  decode_encode := by
    intro msg payload encoded
    cases msg with
    | pieceRequest cid indices requestId =>
      simp only at encoded
      split at encoded
      · rename_i all
        obtain ⟨rfl, rfl, rfl⟩ := all
        cases encoded
        rfl
      · cases encoded
    | pieceResponse pieces requestId =>
      simp only at encoded
      split at encoded
      · rename_i all
        obtain ⟨rfl, rfl⟩ := all
        cases encoded
        rfl
      · cases encoded
    | _ => cases encoded

def somePackages : Packages := ⟨fun _ => some somePiece, fun _ => none, fun _ _ _ => false⟩

def twoNodes (node : NodeId) : CraftecEndpoint (NodeMessageHandler ℕ) :=
  ⟨.withCapacity 256, .new node, 0,
    ⟨⟨∅⟩, ⟨∅⟩, if node = peerId 1 then PendingFetches.new.register 0 0 someCid else .new, onePageDb,
      ⟨if node = peerId 2 then Finmap.singleton someCid [pieceCid] else ∅⟩⟩⟩

def stocked : Surroundings := ⟨fun _ => .ok (some [9]), fun _ => false, 0, quietEnv [] onePageDb.vfs⟩

abbrev twoStep := step twoMessages (handleMessage Blake3.byLeading pageEngine somePackages)

def sendFresh (node peer : NodeId) (msg : WireMessage) : List (Label (NodeMessageHandler ℕ) Surroundings) :=
  let o : Outside := ⟨1, 0, [], none, .whole⟩
  [.send 0 node peer msg, .advance 0 o, .advance 0 o, .advance 0 o, .advance 0 o, .accept 0 0 [],
    .advance 0 o]

def responseFrame (hlcTs : UInt64) : Bytes :=
  Craftec.Types.Wire.frameHeader (.pieceResponse [somePiece] 7) hlcTs 1 ++ [1]

/-- The frame is first at that end of connection 0, where `node` runs a reader, and its
delivery leads to a world of this kind. -/
def Delivers (node : NodeId) (side : End) (frame : Bytes)
    (after : World (NodeMessageHandler ℕ) → Prop) (w : World (NodeMessageHandler ℕ)) : Prop :=
  (∃ conn ∈ w.conns 0, conn.node side = node ∧ (conn.reader side).loop = some side.loop ∧
      (conn.streams side)[0]? = some frame) ∧
    ∃ w' ∈ twoStep w (.deliver 0 side 0 ⟨0, 1, 0⟩), after w'

instance (node : NodeId) (side : End) (frame : Bytes) (after : World (NodeMessageHandler ℕ) → Prop)
    [DecidablePred after] : DecidablePred (Delivers node side frame after) := fun w =>
  inferInstanceAs (Decidable ((∃ conn ∈ w.conns 0, conn.node side = node ∧
      (conn.reader side).loop = some side.loop ∧ (conn.streams side)[0]? = some frame) ∧
    ∃ w' ∈ twoStep w (.deliver 0 side 0 ⟨0, 1, 0⟩), after w'))

theorem dispatched_iff_accepted_end_of_sent :
    ∃ w w', Reach twoStep anyStep (start twoNodes) w ∧
      twoStep w (.deliver 0 .acceptor 0 ⟨0, 1, 0⟩) = some w' ∧
      Dispatched twoMessages Blake3.byLeading pageEngine somePackages w' 0 .acceptor
        (.pieceResponse [somePiece] 7) := by
  have run : ∃ w, Reach twoStep anyStep (start twoNodes) w ∧
      Delivers (peerId 1) .acceptor (responseFrame 65536) (fun _ => True) w :=
    exists_reach _ _ (sendFresh (peerId 2) (peerId 1) (.pieceResponse [somePiece] 7)) (by decide)
  obtain ⟨w, reach, ⟨conn, found, -, loop, waits⟩, w', taken, -⟩ := run
  have running : conn.reader .acceptor ≠ .stopped := by
    intro stopped
    rw [stopped] at loop
    cases loop
  have framed : encodeFramedWithHlc twoMessages (.pieceResponse [somePiece] 7) 65536 =
      .ok (responseFrame 65536) := rfl
  refine ⟨w, w', reach, taken, ?_⟩
  exact (dispatched_iff_accepted_end reach found waits taken framed rfl (.inr rfl)).mpr
    ⟨rfl, running, by decide, by decide⟩

/-- The response to a request goes back over the connection of the requester, whose
reader throws it away: the waiter goes on waiting. -/
theorem response_ignored_by_requester :
    ∃ w w' conn, Reach twoStep anyStep (start twoNodes) w ∧ w.conns 0 = some conn ∧
      conn.dialler = peerId 1 ∧ (conn.streams .dialler)[0]? = some (responseFrame 0) ∧
      encodeFramedWithHlc twoMessages (.pieceResponse [somePiece] 7) 0 = .ok (responseFrame 0) ∧
      twoStep w (.deliver 0 .dialler 0 ⟨0, 1, 0⟩) = some w' ∧
      ¬ w'.Handed 0 .dialler (.pieceResponse [somePiece] 7) ∧
      (w'.nodes (peerId 1)).handler.pending.waiting someCid = [⟨0, 0⟩] := by
  have run : ∃ w, Reach twoStep anyStep (start twoNodes) w ∧
      Delivers (peerId 1) .dialler (responseFrame 0)
        (fun w' => (w'.nodes (peerId 1)).handler.pending.waiting someCid = [⟨0, 0⟩]) w :=
    exists_reach _ _ (sendFresh (peerId 1) (peerId 2) (.pieceRequest someCid [] 7) ++
      [.deliver 0 .acceptor 0 ⟨0, 1, 0⟩, .handle 0 .acceptor stocked, .reply 0 .acceptor .whole])
      (by decide)
  obtain ⟨w, reach, ⟨conn, found, requester, -, waits⟩, w', taken, waiting⟩ := run
  have framed : encodeFramedWithHlc twoMessages (.pieceResponse [somePiece] 7) 0 =
      .ok (responseFrame 0) := rfl
  have unheard : ¬ w'.Handed 0 .dialler (.pieceResponse [somePiece] 7) := by
    intro handed
    have accepted := (deliver_hands_iff (reach_loops reach) found waits taken framed rfl
      (.inl rfl)).mp handed
    cases accepted.1
  exact ⟨w, w', conn, reach, found, requester, waits, framed, taken, unheard, waiting⟩

end Runs

end Craftec.Node.Dispatch
