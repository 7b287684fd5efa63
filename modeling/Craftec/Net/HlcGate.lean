/- GID: Craftec/Net/HlcGate
   generality: I
   digest: What the four reader loops do with a frame whose timestamp the clock rejects. -/

import Mathlib
import Craftec.Library.Records
import Craftec.Library.Register
import Craftec.Net.Endpoint
import Craftec.Net.Pool
import Craftec.Net.Swim
import Craftec.Net.SwimRuns
import Craftec.Types.Digest
import Craftec.Types.Hlc
import Craftec.Types.Rpc
import Craftec.Types.Wire

set_option autoImplicit false
set_option relaxedAutoImplicit false

namespace Craftec.Net.HlcGate

open Craftec.Library.Records (toBeBytes)
open Craftec.Library.Register (offer)
open Craftec.Net.Endpoint
open Craftec.Net.Pool (ConnectionPool)
open Craftec.Net.Swim
open Craftec.Net.SwimRuns (endpointOps handleSwimMsg_fst performAll)
open Craftec.Types.Digest (Bytes Bytes32 NodeId)
open Craftec.Types.Hlc (HlcError checkRemote nowTs)
open Craftec.Types.Rpc
open Craftec.Types.Wire

def swimReadLimit : ℕ := 64 * 1024

def maxConcurrentRpcStreams : ℕ := 16

/-- Where the reader of a `craftec-swim/0.1` connection stands after a frame. -/
inductive SwimReader where
  | accepting
  | answering (reply : WireMessage)
  | stopped

inductive RpcError where
  | readTimedOut
  | readFailed
  | decode (e : CraftecError)
  deriving DecidableEq

/-- Where an RPC stream stands: given up because too many are open, failed before the
handler was called, or inside the handler. -/
inductive RpcStream where
  | refused
  | failed (e : RpcError)
  | serving (req : RpcRequest)
  deriving DecidableEq

section Readers

variable (P : Postcard) (R : RpcPostcard) {H : Type}

/-- One turn of `handle_swim_conn`. Every decoded message goes to the SWIM handler,
which ignores those that are not its own. -/
def handleSwimConn (e : CraftecEndpoint H) (r : Reading) (bytes : Bytes) :
    CraftecEndpoint H × SwimReader :=
  if streamReadTimeout ≤ r.elapsed then (e, .accepting)
  else if swimReadLimit < bytes.length then (e, .stopped)
  else
    match decodeFramedWithHlc P bytes with
    | .error _ => (e, .accepting)
    | .ok (msg, hlcTs) =>
      match e.observe r.wall hlcTs with
      | .error _ => (e, .accepting)
      | .ok seen =>
        ({ seen with swim := (handleSwimMsg r.now seen.swim msg).1 },
          match (handleSwimMsg r.now seen.swim msg).2 with
          | some reply => .answering reply
          | none => .accepting)

/-- One stream of `handle_rpc_conn` while `others` are open, up to the call of the
handler. A failed clock check is ignored. -/
def handleRpcConn (e : CraftecEndpoint H) (r : Reading) (others : ℕ) (bytes : Bytes) :
    CraftecEndpoint H × RpcStream :=
  if maxConcurrentRpcStreams ≤ others then (e, .refused)
  else
    match readToEnd r bytes with
    | .timedOut => (e, .failed .readTimedOut)
    | .failed => (e, .failed .readFailed)
    | .bytes =>
      match decodeRpcRequest R bytes with
      | .error err => (e, .failed (.decode err))
      | .ok (req, hlcTs) =>
        (match e.observe r.wall hlcTs with
          | .ok later => later
          | .error _ => e, .serving req)

def respondRpc (e : CraftecEndpoint H) (wall : UInt64) (resp : RpcResponse) :
    CraftecEndpoint H × Except CraftecError Bytes :=
  ({ e with hlc := nowTs e.hlc wall }, encodeRpcResponse R resp (nowTs e.hlc wall))

/-- The loops that read inbound frames; `others` RPC streams are open when one comes. -/
inductive Inlet where
  | craftec
  | outbound
  | swim
  | rpc (others : ℕ)

inductive Invocation where
  | message (msg : WireMessage)
  | request (req : RpcRequest)

def calledBy : Reader → Option Invocation
  | .handling msg => some (.message msg)
  | _ => none

def servedBy : RpcStream → Option Invocation
  | .serving req => some (.request req)
  | _ => none

/-- What a loop makes of a frame: the endpoint after it, and the handler it calls. -/
def Inlet.turn (e : CraftecEndpoint H) (r : Reading) (bytes : Bytes) :
    Inlet → CraftecEndpoint H × Option Invocation
  | .craftec => (handleCraftecConn P e r bytes).map id calledBy
  | .outbound => (readOutboundConn P e r bytes).map id calledBy
  | .swim => (handleSwimConn P e r bytes).map id fun _ => none
  | .rpc others => (handleRpcConn R e r others bytes).map id servedBy

def Inlet.stamp (bytes : Bytes) : Inlet → Option UInt64
  | .craftec | .outbound | .swim => (decodeFramedWithHlc P bytes).toOption.map Prod.snd
  | .rpc _ => (decodeRpcRequest R bytes).toOption.map Prod.snd

end Readers

section Gate

variable {P : Postcard} {R : RpcPostcard} {H : Type} {e : CraftecEndpoint H} {r : Reading}
  {bytes : Bytes} {hlcTs : UInt64} {err : HlcError}

/-- A turn changes neither the members nor the pending probes, and calls no handler. -/
def Unaffected (e : CraftecEndpoint H) (turn : CraftecEndpoint H × Option Invocation) : Prop :=
  turn.1.swim.members = e.swim.members ∧ turn.1.swim.pendingProbes = e.swim.pendingProbes ∧
    turn.2 = none

theorem Unaffected.refl (e : CraftecEndpoint H) : Unaffected e (e, none) := ⟨rfl, rfl, rfl⟩

def updatesAbout (node : NodeId) (ops : List Op) : List Update :=
  ops.filterMap fun
    | .mark other u => if other = node then some u else none
    | .resolve _ _ _ => none

/-- The message tells the table nothing: what it says of a peer, taken in turn, leaves the entry of
the peer as it is, and no probe waits for an ack that it carries. -/
def TellsNothing (s : SwimMembership) (now : ℕ) (msg : WireMessage) : Prop :=
  (∀ node, node ≠ s.localId →
    (updatesAbout node (endpointOps msg)).foldl (offer (Update.fresh now) Update.Replaces)
      (s.members.lookup node) = s.members.lookup node) ∧
    ∀ fromNode nonce incarnation, Op.resolve fromNode nonce incarnation ∈ endpointOps msg →
      s.pendingProbes.lookup nonce = none

section Told

variable {s : SwimMembership} {now : ℕ}

theorem localId_perform (op : Op) : (s.perform now op).localId = s.localId := by
  cases op with
  | mark node u => exact localId_mark u
  | resolve fromNode nonce incarnation => exact localId_resolveProbe s nonce incarnation

theorem lookup_mark_offer {node : NodeId} (foreign : node ≠ s.localId) (u : Update) :
    (s.mark now node u).members.lookup node =
      offer (Update.fresh now) Update.Replaces (s.members.lookup node) u := by
  rw [lookup_mark foreign]
  cases s.members.lookup node with
  | none => rfl
  | some state => exact (congrArg some (modify_eq now u state)).trans (apply_ite some _ _ _)

theorem lookup_performAll_offers {node : NodeId} (foreign : node ≠ s.localId) (ops : List Op) :
    (performAll now s ops).members.lookup node =
      (updatesAbout node ops).foldl (offer (Update.fresh now) Update.Replaces)
        (s.members.lookup node) := by
  induction ops generalizing s with
  | nil => rfl
  | cons op rest ih =>
    refine (ih (s := s.perform now op) (by rwa [localId_perform])).trans ?_
    cases op with
    | mark other u =>
      by_cases about : other = node
      · subst about
        have entry : (s.perform now (.mark other u)).members.lookup other = _ := lookup_mark_offer foreign u
        rw [entry]
        simp only [updatesAbout, List.filterMap_cons, if_true, List.foldl_cons]
      · have entry : (s.perform now (.mark other u)).members.lookup node = _ :=
          lookup_mark_of_ne (fun same => about same.symm) u
        rw [entry]
        simp only [updatesAbout, List.filterMap_cons, if_neg about]
    | resolve fromNode nonce incarnation =>
      have entries : (s.perform now (.resolve fromNode nonce incarnation)).members = _ :=
        members_resolveProbe s nonce incarnation
      rw [entries]
      simp only [updatesAbout, List.filterMap_cons]

theorem lookup_performAll_self (ops : List Op) :
    (performAll now s ops).members.lookup s.localId = s.members.lookup s.localId := by
  induction ops generalizing s with
  | nil => rfl
  | cons op rest ih =>
    have onward := ih (s := s.perform now op)
    rw [localId_perform] at onward
    refine onward.trans ?_
    cases op with
    | mark other u =>
      by_cases own : other = s.localId
      · exact congrArg (Finmap.lookup _) (members_mark_self own u)
      · exact lookup_mark_of_ne (fun same => own same.symm) u
    | resolve fromNode nonce incarnation =>
      exact congrArg (Finmap.lookup _) (members_resolveProbe s nonce incarnation)

theorem pendingProbes_perform_subset {op : Op} {nonce : UInt64}
    (free : s.pendingProbes.lookup nonce = none) :
    (s.perform now op).pendingProbes.lookup nonce = none := by
  cases op with
  | mark node u =>
    refine Eq.trans ?_ free
    exact congrArg (Finmap.lookup _) (pendingProbes_mark s now node u)
  | resolve fromNode other incarnation =>
    simp only [SwimMembership.perform, SwimMembership.resolveProbe]
    split
    · by_cases same : nonce = other
      · subst same
        exact Finmap.lookup_erase _ _
      · exact (Finmap.lookup_erase_ne same).trans free
    · exact free

theorem lookup_pendingProbes_performAll {ops : List Op} {nonce : UInt64}
    (free : s.pendingProbes.lookup nonce = none ∨
      ∃ fromNode incarnation, Op.resolve fromNode nonce incarnation ∈ ops) :
    (performAll now s ops).pendingProbes.lookup nonce = none := by
  induction ops generalizing s with
  | nil =>
    rcases free with free | ⟨fromNode, incarnation, listed⟩
    · exact free
    · cases listed
  | cons op rest ih =>
    refine ih (s := s.perform now op) ?_
    rcases free with free | ⟨fromNode, incarnation, listed⟩
    · exact .inl (pendingProbes_perform_subset free)
    · rcases List.mem_cons.mp listed with rfl | later
      · refine .inl ?_
        simp only [SwimMembership.perform, SwimMembership.resolveProbe]
        split
        · exact Finmap.lookup_erase _ _
        · assumption
      · exact .inr ⟨fromNode, incarnation, later⟩

theorem pendingProbes_performAll_iff (ops : List Op) :
    (performAll now s ops).pendingProbes = s.pendingProbes ↔
      ∀ fromNode nonce incarnation, Op.resolve fromNode nonce incarnation ∈ ops →
        s.pendingProbes.lookup nonce = none := by
  constructor
  · intro same fromNode nonce incarnation listed
    rw [← same]
    exact lookup_pendingProbes_performAll (.inr ⟨fromNode, incarnation, listed⟩)
  · intro free
    induction ops generalizing s with
    | nil => rfl
    | cons op rest ih =>
      have kept : (s.perform now op).pendingProbes = s.pendingProbes := by
        cases op with
        | mark node u => exact pendingProbes_mark s now node u
        | resolve fromNode nonce incarnation =>
          have none_ := free fromNode nonce incarnation List.mem_cons_self
          simp only [SwimMembership.perform, SwimMembership.resolveProbe, none_]
      refine (ih (s := s.perform now op) fun fromNode nonce incarnation later => ?_).trans kept
      rw [kept]
      exact free fromNode nonce incarnation (List.mem_cons_of_mem _ later)

theorem tellsNothing_iff (msg : WireMessage) : TellsNothing s now msg ↔
    (handleSwimMsg now s msg).1.members = s.members ∧
      (handleSwimMsg now s msg).1.pendingProbes = s.pendingProbes := by
  rw [handleSwimMsg_fst, pendingProbes_performAll_iff]
  refine and_congr_left fun _ => ⟨fun quiet => Finmap.ext_lookup fun node => ?_, ?_⟩
  · by_cases own : node = s.localId
    · rw [own]
      exact lookup_performAll_self _
    · rw [lookup_performAll_offers own]
      exact quiet node own
  · intro same node foreign
    rw [← lookup_performAll_offers foreign, same]

end Told

theorem observe_of_rejected (nonzero : 0 < hlcTs) (rejected : checkRemote r.wall hlcTs = .error err) :
    e.observe r.wall hlcTs = .error err := by
  rw [CraftecEndpoint.observe, if_pos nonzero, rejected]

theorem readToEnd_eq_bytes : readToEnd r bytes = .bytes ↔
    r.elapsed < streamReadTimeout ∧ bytes.length ≤ readLimit := by
  unfold readToEnd
  split
  · rename_i late
    exact ⟨fun same => (by cases same), fun whole => absurd late (Nat.not_le.mpr whole.1)⟩
  · rename_i early
    split
    · rename_i long
      exact ⟨fun same => (by cases same), fun whole => absurd long (Nat.not_lt.mpr whole.2)⟩
    · rename_i short
      exact ⟨fun _ => ⟨Nat.not_le.mp early, Nat.not_lt.mp short⟩, fun _ => rfl⟩

theorem handleCraftecConn_of_rejected {msg : WireMessage}
    (decoded : decodeFramedWithHlc P bytes = .ok (msg, hlcTs))
    (rejected : e.observe r.wall hlcTs = .error err) :
    Unaffected e ((handleCraftecConn P e r bytes).map id calledBy) := by
  unfold handleCraftecConn
  split
  · exact .refl e
  · exact .refl e
  · simp only [decoded, rejected]
    exact .refl e

theorem handleSwimConn_of_rejected {msg : WireMessage}
    (decoded : decodeFramedWithHlc P bytes = .ok (msg, hlcTs))
    (rejected : e.observe r.wall hlcTs = .error err) :
    Unaffected e ((handleSwimConn P e r bytes).map id fun _ => none) := by
  unfold handleSwimConn
  split
  · exact .refl e
  · split
    · exact .refl e
    · simp only [decoded, rejected]
      exact .refl e

theorem iff_of_unread {Q : Prop} {after : CraftecEndpoint H × Option Invocation} {got : Got}
    (outcome : readToEnd r bytes = got) (unread : got ≠ .bytes) (still : Unaffected e after) :
    Unaffected e after ↔ (readToEnd r bytes = .bytes → Q) :=
  ⟨fun _ whole => absurd (outcome.symm.trans whole) unread, fun _ => still⟩

theorem readOutboundConn_of_rejected {msg : WireMessage}
    (decoded : decodeFramedWithHlc P bytes = .ok (msg, hlcTs))
    (rejected : e.observe r.wall hlcTs = .error err) :
    Unaffected e ((readOutboundConn P e r bytes).map id calledBy) ↔
      (readToEnd r bytes = .bytes → msg.isSwim → TellsNothing e.swim r.now msg) := by
  unfold readOutboundConn
  split
  · rename_i late
    exact iff_of_unread late (by decide) (.refl e)
  · rename_i broken
    exact iff_of_unread broken (by decide) (.refl e)
  · rename_i whole
    simp only [decoded, rejected]
    split
    · rename_i swim
      have uncalled : calledBy (e.swimMsg r.now .outbound msg).2 = none := by
        unfold CraftecEndpoint.swimMsg
        split <;> rfl
      constructor
      · exact fun still _ _ => (tellsNothing_iff msg).mpr ⟨still.1, still.2.1⟩
      · intro quiet
        obtain ⟨members, pending⟩ := (tellsNothing_iff msg).mp (quiet whole swim)
        exact ⟨members, pending, uncalled⟩
    · rename_i application
      exact ⟨fun _ _ swim => absurd swim application, fun _ => .refl e⟩

theorem handleRpcConn_of_rejected {req : RpcRequest} {others : ℕ}
    (decoded : decodeRpcRequest R bytes = .ok (req, hlcTs))
    (rejected : e.observe r.wall hlcTs = .error err) :
    Unaffected e ((handleRpcConn R e r others bytes).map id servedBy) ↔
      (readToEnd r bytes = .bytes → maxConcurrentRpcStreams ≤ others) := by
  unfold handleRpcConn
  split
  · rename_i full
    exact ⟨fun _ _ => full, fun _ => .refl e⟩
  · rename_i room
    split
    · rename_i late
      exact iff_of_unread late (by decide) (.refl e)
    · rename_i broken
      exact iff_of_unread broken (by decide) (.refl e)
    · rename_i whole
      simp only [decoded, rejected]
      exact ⟨fun still => (by cases still.2.2), fun full => absurd (full whole) room⟩

/-- When a loop keeps a rejected frame away from the shared state. -/
def Inlet.Covers (P : Postcard) (e : CraftecEndpoint H) (r : Reading) (bytes : Bytes) : Inlet → Prop
  | .craftec | .swim => True
  | .outbound => r.elapsed < streamReadTimeout → bytes.length ≤ readLimit →
      ∀ msg hlcTs, decodeFramedWithHlc P bytes = .ok (msg, hlcTs) → msg.isSwim →
        TellsNothing e.swim r.now msg
  | .rpc others => r.elapsed < streamReadTimeout → bytes.length ≤ readLimit →
      maxConcurrentRpcStreams ≤ others

theorem decoded_of_stamp {α : Type} {decode : Except CraftecError (α × UInt64)}
    (stamped : decode.toOption.map Prod.snd = some hlcTs) :
    ∃ value, decode = .ok (value, hlcTs) := by
  cases decode with
  | error e => cases stamped
  | ok pair =>
    obtain ⟨value, ts⟩ := pair
    cases stamped
    exact ⟨value, rfl⟩

/-- For every node state, every loop and every frame whose timestamp is not zero and is
rejected by the clock: the frame leaves members and probes alone and calls no handler
if and only if it came in on an accepted connection for wire or SWIM messages, or was
not read or let in at all, or is a message on an outbound connection that tells the
table nothing. -/
theorem unaffected_iff_covers (inlet : Inlet) (e : CraftecEndpoint H) (r : Reading) (bytes : Bytes)
    (hlcTs : UInt64) (err : HlcError) (stamped : inlet.stamp P R bytes = some hlcTs)
    (nonzero : 0 < hlcTs) (rejected : checkRemote r.wall hlcTs = .error err) :
    Unaffected e (inlet.turn P R e r bytes) ↔ inlet.Covers P e r bytes := by
  have seen := observe_of_rejected (e := e) nonzero rejected
  cases inlet with
  | craftec =>
    obtain ⟨msg, decoded⟩ := decoded_of_stamp stamped
    exact ⟨fun _ => trivial, fun _ => handleCraftecConn_of_rejected decoded seen⟩
  | swim =>
    obtain ⟨msg, decoded⟩ := decoded_of_stamp stamped
    exact ⟨fun _ => trivial, fun _ => handleSwimConn_of_rejected decoded seen⟩
  | outbound =>
    obtain ⟨msg, decoded⟩ := decoded_of_stamp stamped
    refine (readOutboundConn_of_rejected decoded seen).trans ?_
    rw [readToEnd_eq_bytes]
    constructor
    · intro quiet early short other ts same
      rw [decoded] at same
      cases same
      exact quiet ⟨early, short⟩
    · intro quiet whole
      exact quiet whole.1 whole.2 msg hlcTs decoded
  | rpc others =>
    obtain ⟨req, decoded⟩ := decoded_of_stamp stamped
    refine (handleRpcConn_of_rejected decoded seen).trans ?_
    rw [readToEnd_eq_bytes, and_imp]
    rfl

end Gate

section Stale

def aliveOnly : Postcard where
  encode
    | .swimAlive node incarnation =>
      if node = peerId 2 ∧ incarnation = 0 then .ok [] else .error "unsupported"
    | _ => .error "unsupported"
  decode
    | [] => .ok (.swimAlive (peerId 2) 0)
    | _ => .error "unsupported"
  decode_encode := by
    intro msg payload encoded
    cases msg with
    | swimAlive node incarnation =>
      dsimp only at encoded
      split at encoded
      · rename_i known
        cases encoded
        rw [known.1, known.2]
      · cases encoded
    | _ => cases encoded

def statusOnly : RpcPostcard where
  request :=
    { encode := fun req => if req = .status then .ok [] else .error "unsupported"
      decode := fun payload => if payload = [] then .ok .status else .error "unsupported"
      decode_encode := by
        intro req payload encoded
        split at encoded
        · rename_i known
          cases encoded
          rw [if_pos rfl, known]
        · cases encoded }
  response :=
    { encode := fun _ => .error "unsupported"
      decode := fun _ => .error "unsupported"
      decode_encode := fun encoded => by cases encoded }

def lonely : CraftecEndpoint Unit := ⟨.withCapacity 1, .new (peerId 1), 0, ()⟩

def late : Reading := ⟨0, 100000, 0⟩

def staleAlive : Bytes := frameHeader (.swimAlive (peerId 2) 0) 65536 0

def staleStatus : Bytes :=
  toBeBytes 4 typeTagRpcRequest ++ [wireVersion] ++ toBeBytes 8 65536 ++ toBeBytes 4 0

theorem late_rejects : checkRemote late.wall 65536 = .error (.replayDetected 100000 1 99999) := by
  decide

theorem unaffected_iff_covers_accepted :
    Unaffected lonely (Inlet.craftec.turn aliveOnly statusOnly lonely late staleAlive) :=
  (unaffected_iff_covers .craftec lonely late staleAlive 65536 _ rfl (by decide) late_rejects).mpr
    trivial

/-- A replayed message on an outbound connection adds a member, and a replayed request
reaches the RPC handler. -/
theorem stale_frames_let_in :
    (Inlet.outbound.stamp aliveOnly statusOnly staleAlive = some 65536 ∧
      (Inlet.outbound.turn aliveOnly statusOnly lonely late staleAlive).1.swim.members.lookup
        (peerId 2) = some (.alive 0) ∧ lonely.swim.members.lookup (peerId 2) = none) ∧
    ((Inlet.rpc 0).stamp aliveOnly statusOnly staleStatus = some 65536 ∧
      ((Inlet.rpc 0).turn aliveOnly statusOnly lonely late staleStatus).2 = some (.request .status)) ∧
    checkRemote late.wall 65536 = .error (.replayDetected 100000 1 99999) := by
  have served : (handleRpcConn statusOnly lonely late 0 staleStatus).2 = .serving .status := by
    decide
  exact ⟨⟨rfl, by decide, rfl⟩, ⟨by decide, congrArg servedBy served⟩, late_rejects⟩

end Stale

end Craftec.Net.HlcGate
