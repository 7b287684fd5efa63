/- GID: Craftec/Health/Repair
   generality: I
   digest: Repair requests and their execution: election, recoding, and distribution of one piece. -/

import Mathlib
import Craftec.Health.Coordinator
import Craftec.Health.Tracker
import Craftec.Net.Endpoint
import Craftec.Net.Swim
import Craftec.Obj.Store
import Craftec.Rlnc.Engine
import Craftec.Types.Digest
import Craftec.Types.Piece
import Craftec.Types.Wire

set_option autoImplicit false
set_option relaxedAutoImplicit false

namespace Craftec.Health.Repair

open Craftec.Health.Coordinator (F64 NodeRanking rankProviders)
open Craftec.Health.Tracker (PieceTracker)
open Craftec.Net.Endpoint (NetError)
open Craftec.Net.Swim (SwimMembership)
open Craftec.Node.Handler (PieceHolder)
open Craftec.Obj.Store (ObjError)
open Craftec.Rlnc.Engine (engineRecode)
open Craftec.Types.Digest (Bytes Blake3 Cid NodeId)
open Craftec.Types.Piece (CodedPiece)
open Craftec.Types.Wire (WireMessage)

inductive HealthError where
  | insufficientPieces (cid : String) (k available : UInt32)
  | repairFailed (cid reason : String)
  deriving DecidableEq

inductive RepairRequest where
  | critical (cid : Cid) (available k : UInt32)
  | normal (cid : Cid) (available target : UInt32)
  deriving DecidableEq

namespace RepairRequest

def cid : RepairRequest → Cid
  | .critical cid _ _ | .normal cid _ _ => cid

def targetCount : RepairRequest → UInt32
  | .critical _ _ k => k
  | .normal _ _ target => target

def availableCount : RepairRequest → UInt32
  | .critical _ available _ | .normal _ available _ => available

/-- `saturating_sub` of the available count from the target. -/
def deficit (request : RepairRequest) : ℕ :=
  request.targetCount.toNat - request.availableCount.toNat

end RepairRequest

/-- The piece lookup is the piece index of the node. -/
structure RepairExecutor where
  tracker : PieceTracker
  swim : SwimMembership
  pieceLookup : Cid → Option (List Cid)
  nodeId : NodeId
  nextRequestId : UInt64

/-- What a repair meets: the order of an iteration over the members, the answers of the
store, the decoder of stored pieces, the engine and the scalars it draws, the tracker
and the members by the time a target is chosen, the choice, and how the sending goes. -/
structure RepairEnv where
  order : List NodeId
  get : Cid → Except ObjError (Option Bytes)
  piece : Bytes → Option CodedPiece
  closed : Bool
  scalars : Bytes
  laterTracker : PieceTracker
  laterSwim : SwimMembership
  laterOrder : List NodeId
  pick : ℕ
  sending : Except NetError Unit

inductive Outcome where
  | skipped
  | sent (target : NodeId) (msg : WireMessage)

namespace RepairExecutor

def placeholder (node : NodeId) : NodeRanking := ⟨node, 0, .num ((1 / 2 : ℚ) : WithTop ℚ)⟩

/-- The holders with at least two pieces that are alive or the node itself. -/
def rankings (x : RepairExecutor) (order : List NodeId) (cid : Cid) : List NodeRanking :=
  (((x.tracker.getHolders cid).filter fun h => 2 ≤ x.tracker.localPieceCount cid h.nodeId).filter
    fun h => h.nodeId ∈ x.swim.aliveMembers order ∨ h.nodeId = x.nodeId).map
    fun h => placeholder h.nodeId

def electedNodes (x : RepairExecutor) (order : List NodeId) (request : RepairRequest) : List NodeId :=
  let ranked := rankProviders (x.rankings order request.cid)
  ranked.take (min ranked.length request.deficit)

/-- The loop of `load_local_pieces`, which stops at two pieces. -/
def loadPieces (env : RepairEnv) : List Cid → List CodedPiece → List CodedPiece
  | [], pieces => pieces
  | pcid :: rest, pieces =>
    if 2 ≤ pieces.length then pieces
    else
      match env.get pcid with
      | .ok (some bytes) =>
        match env.piece bytes with
        | some piece => loadPieces env rest (pieces ++ [piece])
        | none => loadPieces env rest pieces
      | .ok none => loadPieces env rest pieces
      | .error _ => loadPieces env rest pieces

def loadLocalPieces (x : RepairExecutor) (env : RepairEnv) (cid : Cid) :
    Except HealthError (List CodedPiece) :=
  match x.pieceLookup cid with
  | none => .error (.insufficientPieces cid.display 2 0)
  | some pcids =>
    let pieces := loadPieces env pcids []
    if pieces.length < 2 then .error (.insufficientPieces cid.display 2 (.ofNat pieces.length))
    else .ok pieces

def choose (pick : ℕ) (nodes : List NodeId) : Option NodeId := nodes[pick % nodes.length]?

/-- Holders of one piece first, then peers without any, then any alive peer. -/
def selectDistributionTarget (x : RepairExecutor) (env : RepairEnv) (cid : Cid) :
    Except HealthError NodeId :=
  let counts := env.laterTracker.holdersWithCount cid
  let alive := env.laterSwim.aliveMembers env.laterOrder
  let onePiece := (counts.filter fun h => h.2 = 1 ∧ h.1 ∈ alive ∧ h.1 ≠ x.nodeId).map Prod.fst
  let zeroPiece := alive.filter fun node => node ∉ counts.map Prod.fst ∧ node ≠ x.nodeId
  let fallback := alive.filter fun node => node ≠ x.nodeId
  match choose env.pick onePiece with
  | some target => .ok target
  | none =>
    match choose env.pick zeroPiece with
    | some target => .ok target
    | none =>
      match choose env.pick fallback with
      | some target => .ok target
      | none =>
        .error (.repairFailed cid.display "no candidate peers available for distribution")

variable (B : Blake3)

def distribute (x : RepairExecutor) (request : RepairRequest) (env : RepairEnv) :
    RepairExecutor × Except HealthError Outcome :=
  let cid := request.cid
  match x.loadLocalPieces env cid with
  | .error e => (x, .error e)
  | .ok pieces =>
    match engineRecode B env.closed pieces env.scalars with
    | .error e => (x, .error (.repairFailed cid.display s!"RLNC recode failed: {e.display}"))
    | .ok recoded =>
      match x.selectDistributionTarget env cid with
      | .error e => (x, .error e)
      | .ok target =>
        let msg := .pieceResponse [recoded] x.nextRequestId
        let later := { x with nextRequestId := x.nextRequestId + 1 }
        match env.sending with
        | .error e =>
          (later, .error (.repairFailed cid.display s!"piece distribution failed: {e.display}"))
        | .ok () => (later, .ok (.sent target msg))

def executeRepair (x : RepairExecutor) (request : RepairRequest) (env : RepairEnv) :
    RepairExecutor × Except HealthError Outcome :=
  if request.deficit = 0 then (x, .ok .skipped)
  else if x.rankings env.order request.cid = [] then (x, .ok .skipped)
  else if x.nodeId ∉ x.electedNodes env.order request then (x, .ok .skipped)
  else x.distribute B request env

end RepairExecutor

/-- The node gets past the election of `execute_repair`. -/
def FindsItselfElected (x : RepairExecutor) (order : List NodeId) (request : RepairRequest) : Prop :=
  request.deficit ≠ 0 ∧ x.rankings order request.cid ≠ [] ∧ x.nodeId ∈ x.electedNodes order request

section Facts

variable {B : Blake3} {x : RepairExecutor} {request : RepairRequest} {env : RepairEnv}

theorem executeRepair_of_elected (elected : FindsItselfElected x env.order request) :
    x.executeRepair B request env = x.distribute B request env := by
  unfold RepairExecutor.executeRepair
  rw [if_neg elected.1, if_neg elected.2.1, if_neg (not_not.mpr elected.2.2)]

theorem executeRepair_of_not_elected (passed : ¬ FindsItselfElected x env.order request) :
    x.executeRepair B request env = (x, .ok .skipped) := by
  unfold RepairExecutor.executeRepair
  split
  · rfl
  · split
    · rfl
    · split
      · rfl
      · rename_i deficit some mine
        exact absurd ⟨deficit, some, not_not.mp mine⟩ passed

theorem findsItselfElected_iff (x : RepairExecutor) (order : List NodeId) (request : RepairRequest) :
    FindsItselfElected x order request ↔ x.nodeId ∈ x.electedNodes order request := by
  refine ⟨fun elected => elected.2.2, ?_⟩
  intro mine
  refine ⟨?_, ?_, mine⟩
  · intro none
    simp only [RepairExecutor.electedNodes, none, Nat.min_zero, List.take_zero] at mine
    cases mine
  · intro empty
    simp only [RepairExecutor.electedNodes, empty, rankProviders, Craftec.Library.SortBy.sortBy,
      List.mergeSort_nil, List.map_nil, List.take_nil] at mine
    cases mine

theorem sent_of_executeRepair {later : RepairExecutor} {target : NodeId} {msg : WireMessage}
    (sent : x.executeRepair B request env = (later, .ok (.sent target msg))) :
    ∃ pieces recoded, engineRecode B env.closed pieces env.scalars = .ok recoded ∧
      x.loadLocalPieces env request.cid = .ok pieces ∧
      msg = .pieceResponse [recoded] x.nextRequestId := by
  by_cases elected : FindsItselfElected x env.order request
  · rw [executeRepair_of_elected elected, RepairExecutor.distribute] at sent
    split at sent
    · cases sent
    · rename_i pieces loaded
      split at sent
      · cases sent
      · rename_i recoded made
        split at sent
        · cases sent
        · split at sent
          · cases sent
          · cases sent
            exact ⟨pieces, recoded, made, loaded, rfl⟩
  · rw [executeRepair_of_not_elected elected] at sent
    cases sent

end Facts

end Craftec.Health.Repair
