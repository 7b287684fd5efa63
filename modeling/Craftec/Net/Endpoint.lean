/- GID: Craftec/Net/Endpoint
   generality: I
   digest: Endpoints that dial, accept and share connections, and the two reader loops at the ends. -/

import Mathlib
import Craftec.Library.Run
import Craftec.Net.Pool
import Craftec.Net.Swim
import Craftec.Types.Digest
import Craftec.Types.Hlc
import Craftec.Types.Wire

set_option autoImplicit false
set_option relaxedAutoImplicit false

namespace Craftec.Net.Endpoint

open Craftec.Library.Run (Reach anyStep)
open Craftec.Net.Pool (ConnectionPool)
open Craftec.Net.Swim (SwimMembership handleSwimMsg)
open Craftec.Types.Digest (Bytes Bytes32 NodeId)
open Craftec.Types.Hlc (HlcError checkRemote nowTs observeTs)
open Craftec.Types.Wire

inductive NetError where
  | connectionFailed (peer reason : String)
  | bootstrapFailed (message : String)
  | serializationError (message : String)
  deriving DecidableEq

def NetError.display : NetError → String
  | .connectionFailed peer reason => s!"connection failed to peer {peer}: {reason}"
  | .bootstrapFailed message => s!"bootstrap failed: {message}"
  | .serializationError message => s!"serialization error: {message}"

def streamReadTimeout : ℕ := 30000

def readLimit : ℕ := 4 * 1024 * 1024

inductive End where
  | dialler
  | acceptor
  deriving DecidableEq

def End.other : End → End
  | .dialler => .acceptor
  | .acceptor => .dialler

structure Handle where
  conn : ℕ
  side : End
  deriving DecidableEq

/-- `read_outbound_conn` or `handle_craftec_conn`. -/
inductive Loop where
  | outbound
  | craftec
  deriving DecidableEq

/-- Where the reader of an end stands: not spawned, at `accept_uni`, about to write a
SWIM reply, inside the handler, about to write the reply of the handler, or out of
its loop. -/
inductive Reader where
  | absent
  | accepting (loop : Loop)
  | answering (loop : Loop) (reply : WireMessage)
  | handling (msg : WireMessage)
  | replying (reply : WireMessage)
  | stopped

/-- `streams e` are written in full or in part and still to be read at end `e`. -/
structure Connection where
  dialler : NodeId
  acceptor : NodeId
  streams : End → List Bytes
  reader : End → Reader

def Connection.node (conn : Connection) : End → NodeId
  | .dialler => conn.dialler
  | .acceptor => conn.acceptor

def Connection.remote (conn : Connection) (side : End) : NodeId := conn.node side.other

def Connection.setReader (conn : Connection) (side : End) (reader : Reader) : Connection :=
  { conn with reader := Function.update conn.reader side reader }

/-- What is written at end `side` arrives at the other one. -/
def Connection.push (conn : Connection) (side : End) (bytes : Bytes) : Connection :=
  { conn with
    streams := Function.update conn.streams side.other (conn.streams side.other ++ [bytes]) }

def Connection.drop (conn : Connection) (side : End) (k : ℕ) : Connection :=
  { conn with streams := Function.update conn.streams side ((conn.streams side).eraseIdx k) }

/-- An endpoint and the application handler its accept loop was started with. -/
structure CraftecEndpoint (H : Type) where
  connections : ConnectionPool Handle
  swim : SwimMembership
  hlc : UInt64
  handler : H

/-- How long the bytes of a stream took, and the clocks at the time. -/
structure Reading where
  elapsed : ℕ
  wall : UInt64
  now : ℕ

inductive Got where
  | bytes
  | failed
  | timedOut
  deriving DecidableEq

/-- `read_to_end` with its bound, under the timeout. -/
def readToEnd (r : Reading) (bytes : Bytes) : Got :=
  if streamReadTimeout ≤ r.elapsed then .timedOut
  else if readLimit < bytes.length then .failed
  else .bytes

section Readers

variable (P : Postcard) {H : Type}

/-- `observe`, called only for a timestamp above zero. -/
def CraftecEndpoint.observe (e : CraftecEndpoint H) (wall hlcTs : UInt64) :
    Except HlcError (CraftecEndpoint H) :=
  if 0 < hlcTs then
    match checkRemote wall hlcTs with
    | .error err => .error err
    | .ok () => .ok { e with hlc := observeTs e.hlc wall hlcTs }
  else .ok e

def CraftecEndpoint.swimMsg (e : CraftecEndpoint H) (now : ℕ) (loop : Loop) (msg : WireMessage) :
    CraftecEndpoint H × Reader :=
  ({ e with swim := (handleSwimMsg now e.swim msg).1 },
    match (handleSwimMsg now e.swim msg).2 with
    | some reply => .answering loop reply
    | none => .accepting loop)

/-- One turn of `read_outbound_conn`: a failed clock check is ignored, and so is
every message that is not SWIM's. -/
def readOutboundConn (e : CraftecEndpoint H) (r : Reading) (bytes : Bytes) :
    CraftecEndpoint H × Reader :=
  match readToEnd r bytes with
  | .timedOut => (e, .accepting .outbound)
  | .failed => (e, .stopped)
  | .bytes =>
    match decodeFramedWithHlc P bytes with
    | .error _ => (e, .accepting .outbound)
    | .ok (msg, hlcTs) =>
      let seen := match e.observe r.wall hlcTs with
        | .ok later => later
        | .error _ => e
      if msg.isSwim then seen.swimMsg r.now .outbound msg else (seen, .accepting .outbound)

/-- One turn of `handle_craftec_conn`, up to the call of the handler. -/
def handleCraftecConn (e : CraftecEndpoint H) (r : Reading) (bytes : Bytes) :
    CraftecEndpoint H × Reader :=
  match readToEnd r bytes with
  | .timedOut => (e, .accepting .craftec)
  | .failed => (e, .stopped)
  | .bytes =>
    match decodeFramedWithHlc P bytes with
    | .error _ => (e, .accepting .craftec)
    | .ok (msg, hlcTs) =>
      match e.observe r.wall hlcTs with
      | .error _ => (e, .accepting .craftec)
      | .ok seen =>
        if msg.isSwim then seen.swimMsg r.now .craftec msg else (seen, .handling msg)

def Loop.turn : Loop → CraftecEndpoint H → Reading → Bytes → CraftecEndpoint H × Reader
  | .outbound => readOutboundConn P
  | .craftec => handleCraftecConn P

end Readers

/-- How the writing of a stream goes: no stream, a part of the bytes, an error at
`finish`, or all of it. -/
inductive Writing where
  | refused (e : String)
  | cut (n : ℕ) (e : String)
  | unfinished (e : String)
  | whole

def Writing.arrives (bytes : Bytes) : Writing → Option Bytes
  | .refused _ | .unfinished _ => none
  | .cut n _ => some (bytes.take n)
  | .whole => some bytes

/-- What `send_message` reports. -/
def Writing.result (peer : NodeId) : Writing → Except NetError Unit
  | .refused e => .error (.connectionFailed peer.display s!"open_uni failed: {e}")
  | .cut _ e => .error (.connectionFailed peer.display s!"write_all failed: {e}")
  | .unfinished e => .error (.connectionFailed peer.display s!"stream finish failed: {e}")
  | .whole => .ok ()

/-- The bootstrap a message is sent for: peers to come, peers joined, and how many
there were. An entry that could not be parsed is `none`. -/
structure Bootstrap where
  rest : List (Option NodeId)
  connected : ℕ
  total : ℕ

/-- Where a call of `send_message` or `bootstrap` stands: each constructor names the
step it takes next. -/
inductive Task where
  | idle
  | stamping (job : Option Bootstrap) (peer : NodeId) (msg : WireMessage)
  | looking (job : Option Bootstrap) (peer : NodeId) (bytes : Bytes)
  | connecting (job : Option Bootstrap) (peer : NodeId) (bytes : Bytes)
  | pooling (job : Option Bootstrap) (peer : NodeId) (bytes : Bytes) (conn : ℕ)
  | writing (job : Option Bootstrap) (peer : NodeId) (bytes : Bytes) (handle : Handle)
  | joining (job : Bootstrap)
  | greeting (job : Bootstrap) (peer : NodeId) (conn : ℕ)
  | returned (result : Except NetError Unit)

structure Call where
  node : NodeId
  task : Task

structure World (H : Type) where
  nodes : NodeId → CraftecEndpoint H
  conns : ℕ → Option Connection
  opened : ℕ
  calls : ℕ → Call

/-- What a step of a call does not control: the two clocks, the order of an iteration
over the pool, whether the dial fails, and how the writing goes. -/
structure Outside where
  wall : UInt64
  now : ℕ
  order : List NodeId
  refusal : Option String
  writing : Writing

/-- `deliver` hands stream `k` of an end to its reader; `lose` is an error of
`accept_uni` or of reading a stream; `other` is what the rest of the node does to the
state of the handler. -/
inductive Label (H E : Type) where
  | send (i : ℕ) (node peer : NodeId) (msg : WireMessage)
  | bootstrap (i : ℕ) (node : NodeId) (peers : List (Option NodeId))
  | advance (i : ℕ) (o : Outside)
  | accept (c : ℕ) (now : ℕ) (order : List NodeId)
  | deliver (c : ℕ) (side : End) (k : ℕ) (r : Reading)
  | lose (c : ℕ) (side : End)
  | handle (c : ℕ) (side : End) (env : E)
  | reply (c : ℕ) (side : End) (w : Writing)
  | other (node : NodeId) (handler : H)

section Steps

variable (P : Postcard) {H E : Type} (handleMessage : H → NodeId → WireMessage → E → H × Option WireMessage)

def World.setNode (w : World H) (node : NodeId) (e : CraftecEndpoint H) : World H :=
  { w with nodes := Function.update w.nodes node e }

def World.setConn (w : World H) (c : ℕ) (conn : Connection) : World H :=
  { w with conns := Function.update w.conns c (some conn) }

def World.setTask (w : World H) (i : ℕ) (task : Task) : World H :=
  { w with calls := Function.update w.calls i { w.calls i with task := task } }

/-- The pool of `node` takes the connection. -/
def World.pool (w : World H) (node : NodeId) (o : ℕ × List NodeId) (peer : NodeId) (handle : Handle) :
    World H :=
  w.setNode node { w.nodes node with
    connections := (w.nodes node).connections.insert o.1 o.2 peer handle }

/-- A message has been sent, or not: back to the caller or to the loop over the peers. -/
def finish (job : Option Bootstrap) (result : Except NetError Unit) : Task :=
  match job with
  | none => .returned result
  | some b => .joining { b with connected := b.connected + if result.isOk then 1 else 0 }

/-- A connection that `node` has dialled: its own reader is spawned when it is pooled,
the other end is still to be accepted. -/
def dialled (node peer : NodeId) : Connection := ⟨node, peer, fun _ => [], fun _ => .absent⟩

def World.dial (w : World H) (node peer : NodeId) : World H :=
  { w.setConn w.opened (dialled node peer) with opened := w.opened + 1 }

/-- Insert a dialled connection and spawn `read_outbound_conn`. -/
def World.adopt (w : World H) (node peer : NodeId) (o : Outside) (c : ℕ) : Option (World H) :=
  (w.conns c).map fun conn =>
    (w.pool node (o.now, o.order) peer ⟨c, .dialler⟩).setConn c
      (conn.setReader .dialler (.accepting .outbound))

def advance (w : World H) (i : ℕ) (o : Outside) : Option (World H) :=
  let node := (w.calls i).node
  match (w.calls i).task with
  | .idle | .returned _ => none
  | .stamping job peer msg =>
    let stamp := nowTs (w.nodes node).hlc o.wall
    let ticked := w.setNode node { w.nodes node with hlc := stamp }
    match encodeFramedWithHlc P msg stamp with
    | .error e =>
      some (ticked.setTask i
        (finish job (.error (.serializationError s!"encode_framed failed: {e.display}"))))
    | .ok bytes => some (ticked.setTask i (.looking job peer bytes))
  | .looking job peer bytes =>
    match (w.nodes node).connections.get o.now peer with
    | (pool, some handle) =>
      some ((w.setNode node { w.nodes node with connections := pool }).setTask i
        (.writing job peer bytes handle))
    | (_, none) => some (w.setTask i (.connecting job peer bytes))
  | .connecting job peer bytes =>
    match o.refusal with
    | some e => some (w.setTask i (finish job (.error (.connectionFailed peer.display e))))
    | none => some ((w.dial node peer).setTask i (.pooling job peer bytes w.opened))
  | .pooling job peer bytes c =>
    (w.adopt node peer o c).map fun later => later.setTask i (.writing job peer bytes ⟨c, .dialler⟩)
  | .writing job peer bytes handle =>
    (w.conns handle.conn).map fun conn =>
      let written := match o.writing.arrives bytes with
        | some part => w.setConn handle.conn (conn.push handle.side part)
        | none => w
      written.setTask i (finish job (o.writing.result peer))
  | .joining b =>
    match b.rest with
    | [] =>
      some (w.setTask i (.returned (if b.connected = 0 then
        .error (.bootstrapFailed s!"could not reach any of {b.total} configured bootstrap peers")
      else .ok ())))
    | none :: rest => some (w.setTask i (.joining { b with rest := rest }))
    | some peer :: rest =>
      match o.refusal with
      | some _ => some (w.setTask i (.joining { b with rest := rest }))
      | none => some ((w.dial node peer).setTask i (.greeting { b with rest := rest } peer w.opened))
  | .greeting b peer c =>
    (w.adopt node peer o c).map fun later => later.setTask i
      (.stamping (some b) peer (.swimJoin node 0))

/-- A stream is handed to the reader of its end. Nobody takes it once the loop is over,
and a reader that is busy takes it later. -/
def deliver (w : World H) (c : ℕ) (side : End) (k : ℕ) (r : Reading) : Option (World H) :=
  (w.conns c).bind fun conn => (conn.streams side)[k]?.bind fun bytes =>
    match conn.reader side with
    | .accepting loop =>
      let turn := loop.turn P (w.nodes (conn.node side)) r bytes
      some ((w.setNode (conn.node side) turn.1).setConn c ((conn.drop side k).setReader side turn.2))
    | .stopped => some (w.setConn c (conn.drop side k))
    | _ => none

/-- The reader writes the reply it holds on the connection the message came from. Only
a SWIM reply that finds no stream ends the loop. -/
def reply (conn : Connection) (side : End) (w : Writing) : Option Connection :=
  match conn.reader side with
  | .answering loop msg =>
    match encodeFramed P msg, w with
    | .error _, _ => some (conn.setReader side (.accepting loop))
    | .ok _, .refused _ => some (conn.setReader side .stopped)
    | .ok bytes, w =>
      some (((w.arrives bytes).elim conn (conn.push side)).setReader side (.accepting loop))
  | .replying msg =>
    match encodeFramed P msg with
    | .error _ => some (conn.setReader side (.accepting .craftec))
    | .ok bytes =>
      some (((w.arrives bytes).elim conn (conn.push side)).setReader side (.accepting .craftec))
  | _ => none

def step (w : World H) : Label H E → Option (World H)
  | .send i node peer msg =>
    match (w.calls i).task with
    | .idle => some { w with calls := Function.update w.calls i ⟨node, .stamping none peer msg⟩ }
    | _ => none
  | .bootstrap i node peers =>
    match (w.calls i).task with
    | .idle => some { w with
        calls := Function.update w.calls i ⟨node,
          if peers.isEmpty then .returned (.ok ()) else .joining ⟨peers, 0, peers.length⟩⟩ }
    | _ => none
  | .advance i o => advance P w i o
  | .accept c now order =>
    (w.conns c).bind fun conn =>
      match conn.reader .acceptor with
      | .absent =>
        some ((w.pool conn.acceptor (now, order) conn.dialler ⟨c, .acceptor⟩).setConn c
          (conn.setReader .acceptor (.accepting .craftec)))
      | _ => none
  | .deliver c side k r => deliver P w c side k r
  | .lose c side =>
    (w.conns c).bind fun conn =>
      match conn.reader side with
      | .accepting _ => some (w.setConn c (conn.setReader side .stopped))
      | _ => none
  | .handle c side env =>
    (w.conns c).bind fun conn =>
      match conn.reader side with
      | .handling msg =>
        let e := w.nodes (conn.node side)
        let (handler, answer) := handleMessage e.handler (conn.remote side) msg env
        some ((w.setNode (conn.node side) { e with handler := handler }).setConn c
          (conn.setReader side (answer.elim (.accepting .craftec) .replying)))
      | _ => none
  | .reply c side writing =>
    (w.conns c).bind fun conn => (reply P conn side writing).map (w.setConn c)
  | .other node handler => some (w.setNode node { w.nodes node with handler := handler })

def start (nodes : NodeId → CraftecEndpoint H) : World H :=
  ⟨nodes, fun _ => none, 0, fun _ => ⟨⟨Bytes32.fill 0⟩, .idle⟩⟩

end Steps

section Loops

variable {P : Postcard} {H E : Type}
  {handleMessage : H → NodeId → WireMessage → E → H × Option WireMessage} {w w' : World H}

def Reader.loop : Reader → Option Loop
  | .absent | .stopped => none
  | .accepting loop | .answering loop _ => some loop
  | .handling _ | .replying _ => some .craftec

def End.loop : End → Loop
  | .dialler => .outbound
  | .acceptor => .craftec

def Connection.Sided (conn : Connection) : Prop :=
  ∀ side, ∀ loop ∈ (conn.reader side).loop, loop = side.loop

theorem Connection.Sided.setReader {conn : Connection} (sided : conn.Sided) {side : End}
    {reader : Reader} (own : ∀ loop ∈ reader.loop, loop = side.loop) :
    (conn.setReader side reader).Sided :=
  (Function.forall_update_iff conn.reader
    (fun e (reader : Reader) => ∀ loop ∈ reader.loop, loop = e.loop)).mpr
    ⟨own, fun e _ => sided e⟩

theorem Connection.Sided.elim {conn : Connection} (sided : conn.Sided) (side : End)
    (part : Option Bytes) : (part.elim conn (conn.push side)).Sided := by
  cases part with
  | none => exact sided
  | some bytes => exact sided

theorem swimMsg_loop (e : CraftecEndpoint H) (now : ℕ) (loop : Loop) (msg : WireMessage) :
    ∀ l ∈ (e.swimMsg now loop msg).2.loop, l = loop := by
  intro l runs
  unfold CraftecEndpoint.swimMsg at runs
  split at runs <;> exact (Option.some.inj runs).symm

/-- What a turn of a loop comes to: it waits for the next stream, leaves the loop, passes a message
to SWIM, or calls the handler. Besides SWIM's table only the clock of the endpoint may move. -/
inductive Turned (loop : Loop) (e : CraftecEndpoint H) (r : Reading) :
    CraftecEndpoint H × Reader → Prop where
  | accepts (hlc : UInt64) : Turned loop e r ({ e with hlc := hlc }, .accepting loop)
  | fails : Turned loop e r (e, .stopped)
  | swim (hlc : UInt64) (msg : WireMessage) :
      Turned loop e r (CraftecEndpoint.swimMsg { e with hlc := hlc } r.now loop msg)
  | hands (hlc : UInt64) (msg : WireMessage) (own : loop = .craftec) :
      Turned loop e r ({ e with hlc := hlc }, .handling msg)

theorem observe_ok {e seen : CraftecEndpoint H} {wall hlcTs : UInt64}
    (observed : e.observe wall hlcTs = .ok seen) : ∃ hlc, seen = { e with hlc := hlc } := by
  unfold CraftecEndpoint.observe at observed
  split at observed
  · split at observed <;> cases observed
    exact ⟨_, rfl⟩
  · cases observed
    exact ⟨e.hlc, rfl⟩

theorem turn_turned (loop : Loop) (e : CraftecEndpoint H) (r : Reading) (bytes : Bytes) :
    Turned loop e r (loop.turn P e r bytes) := by
  cases loop with
  | outbound =>
    simp only [Loop.turn, readOutboundConn]
    split
    · exact .accepts e.hlc
    · exact .fails
    · split
      · exact .accepts e.hlc
      · rename_i msg hlcTs _
        cases observed : e.observe r.wall hlcTs with
        | error _ =>
          -- the failed check is ignored
          split
          · exact .swim e.hlc msg
          · exact .accepts e.hlc
        | ok seen =>
          obtain ⟨hlc, rfl⟩ := observe_ok observed
          split
          · exact .swim hlc msg
          · exact .accepts hlc
  | craftec =>
    simp only [Loop.turn, handleCraftecConn]
    split
    · exact .accepts e.hlc
    · exact .fails
    · split
      · exact .accepts e.hlc
      · rename_i msg hlcTs _
        split
        · exact .accepts e.hlc
        · rename_i seen observed
          obtain ⟨hlc, rfl⟩ := observe_ok observed
          split
          · exact .swim hlc msg
          · exact .hands hlc msg rfl

theorem turn_loop (loop : Loop) (e : CraftecEndpoint H) (r : Reading) (bytes : Bytes) :
    ∀ l ∈ (loop.turn P e r bytes).2.loop, l = loop := by
  have turned := turn_turned (P := P) loop e r bytes
  generalize loop.turn P e r bytes = after at turned
  intro l runs
  cases turned with
  | accepts hlc => exact (Option.some.inj runs).symm
  | fails => cases runs
  | swim hlc msg => exact swimMsg_loop _ _ _ _ l runs
  | hands hlc msg own => exact (Option.some.inj runs).symm.trans own.symm

theorem Connection.Sided.reply {conn after : Connection} {side : End} {writing : Writing}
    (sided : conn.Sided) (written : reply P conn side writing = some after) : after.Sided := by
  unfold Endpoint.reply at written
  split at written
  · rename_i loop msg stands
    have own : loop = side.loop := sided side loop (by rw [stands]; rfl)
    subst own
    have accepting : ∀ l ∈ (Reader.accepting side.loop).loop, l = side.loop :=
      fun l runs => (Option.some.inj runs).symm
    split at written
    · cases written
      exact sided.setReader accepting
    · cases written
      exact sided.setReader fun l runs => by cases runs
    · cases written
      exact (sided.elim side _).setReader accepting
  · rename_i msg stands
    have own : Loop.craftec = side.loop := sided side .craftec (by rw [stands]; rfl)
    have accepting : ∀ l ∈ (Reader.accepting .craftec).loop, l = side.loop :=
      fun l runs => (Option.some.inj runs).symm.trans own
    split at written
    · cases written
      exact sided.setReader accepting
    · cases written
      exact (sided.elim side _).setReader accepting
  · cases written

/-- Whoever dialled reads with `read_outbound_conn`, whoever accepted reads with
`handle_craftec_conn`. -/
def Loops (w : World H) : Prop := ∀ c conn, w.conns c = some conn → conn.Sided

theorem Loops.setConn (loops : Loops w) (c : ℕ) {conn : Connection} (sided : conn.Sided) :
    Loops (w.setConn c conn) := by
  refine (Function.forall_update_iff w.conns
    (fun _ o => ∀ found, o = some found → found.Sided)).mpr ⟨?_, fun d _ => loops d⟩
  intro found same
  cases same
  exact sided

theorem Loops.dial (loops : Loops w) (node peer : NodeId) : Loops (w.dial node peer) :=
  loops.setConn w.opened fun _ _ runs => by cases runs

theorem Loops.adopt (loops : Loops w) {node peer : NodeId} {o : Outside} {c : ℕ}
    (adopted : w.adopt node peer o c = some w') : Loops w' := by
  obtain ⟨conn, found, rfl⟩ := Option.map_eq_some_iff.mp adopted
  have before : Loops (w.pool node (o.now, o.order) peer ⟨c, .dialler⟩) := loops
  exact before.setConn c ((loops c conn found).setReader fun l runs => (Option.some.inj runs).symm)

theorem advance_loops {i : ℕ} {o : Outside} (loops : Loops w) (taken : advance P w i o = some w') :
    Loops w' := by
  unfold advance at taken
  simp only at taken
  split at taken
  · cases taken
  · cases taken
  · -- stamping
    split at taken <;> cases taken <;> exact loops
  · -- looking
    split at taken <;> cases taken <;> exact loops
  · -- connecting
    split at taken
    · cases taken
      exact loops
    · cases taken
      exact loops.dial _ _
  · -- pooling
    obtain ⟨later, adopted, rfl⟩ := Option.map_eq_some_iff.mp taken
    have after : Loops later := loops.adopt adopted
    exact after
  · -- writing
    obtain ⟨conn, found, rfl⟩ := Option.map_eq_some_iff.mp taken
    split
    · exact loops.setConn _ (loops _ conn found)
    · exact loops
  · -- joining
    split at taken
    · cases taken
      exact loops
    · cases taken
      exact loops
    · split at taken
      · cases taken
        exact loops
      · cases taken
        exact loops.dial _ _
  · -- greeting
    obtain ⟨later, adopted, rfl⟩ := Option.map_eq_some_iff.mp taken
    have after : Loops later := loops.adopt adopted
    exact after

theorem step_loops {label : Label H E} (taken : step P handleMessage w label = some w')
    (loops : Loops w) : Loops w' := by
  cases label with
  | send i node peer msg =>
    simp only [step] at taken
    split at taken
    · cases taken
      exact loops
    · cases taken
  | bootstrap i node peers =>
    simp only [step] at taken
    split at taken
    · cases taken
      exact loops
    · cases taken
  | advance i o => exact advance_loops loops taken
  | accept c now order =>
    obtain ⟨conn, found, taken⟩ := Option.bind_eq_some_iff.mp taken
    split at taken
    · cases taken
      have before : Loops (w.pool conn.acceptor (now, order) conn.dialler ⟨c, .acceptor⟩) := loops
      exact before.setConn c
        ((loops c conn found).setReader fun l runs => (Option.some.inj runs).symm)
    · cases taken
  | deliver c side k r =>
    obtain ⟨conn, found, taken⟩ := Option.bind_eq_some_iff.mp taken
    obtain ⟨bytes, waits, taken⟩ := Option.bind_eq_some_iff.mp taken
    have sided : (conn.drop side k).Sided := loops c conn found
    split at taken
    · rename_i loop stands
      have own : loop = side.loop := loops c conn found side loop (by rw [stands]; rfl)
      cases taken
      have before : Loops (w.setNode (conn.node side)
        (loop.turn P (w.nodes (conn.node side)) r bytes).1) := loops
      exact before.setConn c (sided.setReader fun l runs => (turn_loop loop _ r bytes l runs).trans own)
    · cases taken
      exact loops.setConn c sided
    · cases taken
  | lose c side =>
    obtain ⟨conn, found, taken⟩ := Option.bind_eq_some_iff.mp taken
    split at taken
    · cases taken
      exact loops.setConn c ((loops c conn found).setReader fun l runs => by cases runs)
    · cases taken
  | handle c side env =>
    obtain ⟨conn, found, taken⟩ := Option.bind_eq_some_iff.mp taken
    split at taken
    · rename_i msg stands
      have own : Loop.craftec = side.loop := loops c conn found side .craftec (by rw [stands]; rfl)
      cases taken
      refine Loops.setConn (w := w.setNode _ _) loops c ((loops c conn found).setReader ?_)
      intro l runs
      cases answer : (handleMessage (w.nodes (conn.node side)).handler (conn.remote side) msg env).2 with
      | none =>
        rw [answer] at runs
        exact (Option.some.inj runs).symm.trans own
      | some reply =>
        rw [answer] at runs
        exact (Option.some.inj runs).symm.trans own
    · cases taken
  | reply c side writing =>
    obtain ⟨conn, found, taken⟩ := Option.bind_eq_some_iff.mp taken
    obtain ⟨after, written, rfl⟩ := Option.map_eq_some_iff.mp taken
    exact loops.setConn c ((loops c conn found).reply written)
  | other node handler =>
    cases taken
    exact loops

theorem reach_loops {nodes : NodeId → CraftecEndpoint H}
    (reach : Reach (step P handleMessage) anyStep (start nodes) w) : Loops w :=
  reach.invariant (fun _ _ found => by cases found) fun _ _ _ before _ taken => step_loops taken before

end Loops

section Dispatch

variable {P : Postcard} {H : Type} {w w' : World H} {c : ℕ} {side : End} {k : ℕ} {r : Reading}
  {conn : Connection} {bytes : Bytes} {msg : WireMessage} {hlcTs : UInt64}

def World.Handed (w : World H) (c : ℕ) (side : End) (msg : WireMessage) : Prop :=
  ∃ conn, w.conns c = some conn ∧ conn.reader side = .handling msg

theorem deliver_cases (found : w.conns c = some conn) (waits : (conn.streams side)[k]? = some bytes)
    (taken : deliver P w c side k r = some w') :
    (∃ loop after, conn.reader side = .accepting loop ∧ w'.conns c = some after ∧
        after.reader side = (loop.turn P (w.nodes (conn.node side)) r bytes).2) ∨
      ∃ after, conn.reader side = .stopped ∧ w'.conns c = some after ∧
        after.reader side = .stopped := by
  simp only [deliver, found, waits, Option.bind_some] at taken
  split at taken
  · rename_i loop stands
    cases taken
    exact .inl ⟨loop, _, stands, Function.update_self .., Function.update_self ..⟩
  · rename_i stands
    cases taken
    exact .inr ⟨_, stands, Function.update_self .., stands⟩
  · cases taken

theorem observe_of_accepted (e : CraftecEndpoint H) {wall : UInt64}
    (accepted : hlcTs = 0 ∨ checkRemote wall hlcTs = .ok ()) :
    ∃ seen, e.observe wall hlcTs = .ok seen := by
  unfold CraftecEndpoint.observe
  split
  · rename_i stamped
    rcases accepted with rfl | passed
    · exact absurd stamped (UInt64.lt_irrefl 0)
    · rw [passed]
      exact ⟨_, rfl⟩
  · exact ⟨e, rfl⟩

theorem handleCraftecConn_handling_iff (e : CraftecEndpoint H)
    (framed : encodeFramedWithHlc P msg hlcTs = .ok bytes) (application : msg.isSwim = false)
    (accepted : hlcTs = 0 ∨ checkRemote r.wall hlcTs = .ok ()) :
    (handleCraftecConn P e r bytes).2 = .handling msg ↔
      bytes.length ≤ readLimit ∧ r.elapsed < streamReadTimeout := by
  obtain ⟨seen, observed⟩ := observe_of_accepted e accepted
  unfold handleCraftecConn readToEnd
  by_cases late : streamReadTimeout ≤ r.elapsed
  · rw [if_pos late]
    exact ⟨fun same => (by cases same), fun fits => absurd late (Nat.not_le.mpr fits.2)⟩
  · rw [if_neg late]
    by_cases long : readLimit < bytes.length
    · rw [if_pos long]
      exact ⟨fun same => (by cases same), fun fits => absurd long (Nat.not_lt.mpr fits.1)⟩
    · have short : bytes.length ≤ readLimit := Nat.not_lt.mp long
      have word : readLimit < 2 ^ 32 := by decide
      rw [if_neg long]
      simp only [decodeFramedWithHlc_of_encode framed (Nat.lt_of_le_of_lt short word), observed,
        application, Bool.false_eq_true, if_false]
      exact ⟨fun _ => ⟨short, Nat.not_le.mp late⟩, fun _ => trivial⟩

theorem readOutboundConn_ne_handling (e : CraftecEndpoint H) :
    (readOutboundConn P e r bytes).2 ≠ .handling msg := by
  intro same
  have outbound := turn_loop (P := P) .outbound e r bytes .craftec (by rw [Loop.turn, same]; rfl)
  cases outbound

theorem deliver_hands_iff (loops : Loops w) (found : w.conns c = some conn)
    (waits : (conn.streams side)[k]? = some bytes) (taken : deliver P w c side k r = some w')
    (framed : encodeFramedWithHlc P msg hlcTs = .ok bytes) (application : msg.isSwim = false)
    (accepted : hlcTs = 0 ∨ checkRemote r.wall hlcTs = .ok ()) :
    w'.Handed c side msg ↔ side = .acceptor ∧ conn.reader side ≠ .stopped ∧
      bytes.length ≤ readLimit ∧ r.elapsed < streamReadTimeout := by
  have handed : ∀ {after : Connection}, w'.conns c = some after →
      (w'.Handed c side msg ↔ after.reader side = .handling msg) := by
    intro after now
    constructor
    · rintro ⟨other, there, stands⟩
      rw [now] at there
      cases there
      exact stands
    · exact fun stands => ⟨after, now, stands⟩
  rcases deliver_cases found waits taken with ⟨loop, after, stands, now, turned⟩ | ⟨after, stands, now, still⟩
  · have own : loop = side.loop := loops c conn found side loop (by rw [stands]; rfl)
    have runs : conn.reader side ≠ .stopped := by
      rw [stands]
      intro same
      cases same
    rw [handed now, turned]
    cases side with
    | dialler =>
      subst own
      exact ⟨fun same => absurd same (readOutboundConn_ne_handling _), fun all => by cases all.1⟩
    | acceptor =>
      subst own
      have turn := handleCraftecConn_handling_iff (w.nodes (conn.node .acceptor)) framed application accepted
      exact turn.trans ⟨fun fits => ⟨rfl, runs, fits⟩, fun all => all.2.2⟩
  · rw [handed now, still]
    exact ⟨fun same => (by cases same), fun all => absurd stands all.2.1⟩

end Dispatch

end Craftec.Net.Endpoint
