/- GID: Craftec/Health/RepairYield
   generality: I
   digest: How many repairers a shortage elects, and how many independent pieces repairs can yield. -/

import Mathlib
import Craftec.Health.Coordinator
import Craftec.Health.Repair
import Craftec.Health.Scanner
import Craftec.Health.Tracker
import Craftec.Library.ByteField
import Craftec.Library.SortBy
import Craftec.Net.Swim
import Craftec.Rlnc.Encoder
import Craftec.Rlnc.Engine
import Craftec.Rlnc.Gf256
import Craftec.Types.Digest
import Craftec.Types.Piece
import Craftec.Types.Wire

set_option autoImplicit false
set_option relaxedAutoImplicit false

namespace Craftec.Health.RepairYield

open Craftec.Health.Coordinator (rankProviders rankProviders_perm)
open Craftec.Health.Repair
open Craftec.Health.Scanner (cid_evaluateCid defaultK evaluateCid targetPieceCount toNat_targetPieceCount)
open Craftec.Health.Tracker (PieceTracker)
open Craftec.Library.ByteField (GF256)
open Craftec.Library.SortBy (sortBy)
open Craftec.Net.Swim (SwimMembership peerId)
open Craftec.Rlnc.Encoder (recode recode_vector)
open Craftec.Rlnc.Engine (engineRecode)
open Craftec.Rlnc.Gf256 (mulAddAll vec vec_mulAddAll vec_replicate_zero)
open Craftec.Types.Digest (Blake3 Bytes Bytes32 Cid NodeId someCid)
open Craftec.Types.Piece (CodedPiece)

/-! How many nodes are elected when the scanner finds so many pieces. -/

section Elected

def effectiveK (tracker : PieceTracker) (cid : Cid) : UInt32 := (tracker.getK cid).getD defaultK

/-- The deficit of what the scanner asks for; nothing asked for is no deficit. -/
def scannedDeficit (tracker : PieceTracker) (cid : Cid) : ℕ :=
  ((evaluateCid tracker cid).map RepairRequest.deficit).getD 0

/-- How many nodes an executor elects on what the scanner asks for. -/
def electedCount (x : RepairExecutor) (order : List NodeId) (scanned : PieceTracker) (cid : Cid) : ℕ :=
  ((evaluateCid scanned cid).map fun request => (x.electedNodes order request).length).getD 0

theorem scannedDeficit_eq (tracker : PieceTracker) (cid : Cid) :
    scannedDeficit tracker cid =
      if (tracker.availableCount cid).toNat < (effectiveK tracker cid).toNat then
        (effectiveK tracker cid).toNat - (tracker.availableCount cid).toNat
      else
        (targetPieceCount (effectiveK tracker cid)).toNat - (tracker.availableCount cid).toNat := by
  have scan : evaluateCid tracker cid =
      if tracker.availableCount cid < effectiveK tracker cid then
        some (.critical cid (tracker.availableCount cid) (effectiveK tracker cid))
      else if tracker.availableCount cid < targetPieceCount (effectiveK tracker cid) then
        some (.normal cid (tracker.availableCount cid) (targetPieceCount (effectiveK tracker cid)))
      else none := rfl
  simp only [scannedDeficit, scan, UInt32.lt_iff_toNat_lt]
  by_cases short : (tracker.availableCount cid).toNat < (effectiveK tracker cid).toNat
  · rw [if_pos short, if_pos short]
    rfl
  · rw [if_neg short, if_neg short]
    split
    · rfl
    · rename_i reached
      exact (Nat.sub_eq_zero_of_le (Nat.not_lt.mp reached)).symm

theorem length_electedNodes (x : RepairExecutor) (order : List NodeId) (request : RepairRequest) :
    (x.electedNodes order request).length =
      min (x.rankings order request.cid).length request.deficit := by
  have ranked : (rankProviders (x.rankings order request.cid)).length =
      (x.rankings order request.cid).length := by
    rw [(rankProviders_perm _).length_eq, List.length_map]
  rw [RepairExecutor.electedNodes, List.length_take, ranked]
  omega

theorem electedCount_eq (x : RepairExecutor) (order : List NodeId) (scanned : PieceTracker) (cid : Cid) :
    electedCount x order scanned cid = min (x.rankings order cid).length (scannedDeficit scanned cid) := by
  unfold electedCount scannedDeficit
  cases asked : evaluateCid scanned cid with
  | none => exact (Nat.min_zero _).symm
  | some request =>
    have same := cid_evaluateCid asked
    simp only [Option.map_some, Option.getD_some, length_electedNodes, same]

/-- Of two scans with the same K the one that finds no more pieces elects no fewer nodes,
and has no smaller deficit, exactly if crossing K does not raise the count. -/
theorem elected_antitone_iff {cid : Cid} {fewer more : PieceTracker}
    (sameK : effectiveK fewer cid = effectiveK more cid)
    (lost : fewer.availableCount cid ≤ more.availableCount cid)
    {x y : RepairExecutor} {order later : List NodeId}
    (eligible : x.rankings order cid = y.rankings later cid) :
    let k := (effectiveK more cid).toNat
    let target := (targetPieceCount (effectiveK more cid)).toNat
    let a := (fewer.availableCount cid).toNat
    let b := (more.availableCount cid).toNat
    (electedCount y later more cid ≤ electedCount x order fewer cid ↔
      (a < k → k ≤ b → min (x.rankings order cid).length (target - b) ≤ k - a)) ∧
    (scannedDeficit more cid ≤ scannedDeficit fewer cid ↔ (a < k → k ≤ b → target - b ≤ k - a)) := by
  have order' := UInt32.le_iff_toNat_le.mp lost
  simp only [electedCount_eq, scannedDeficit_eq, sameK, ← eligible]
  generalize (effectiveK more cid).toNat = k
  generalize (targetPieceCount (effectiveK more cid)).toNat = target
  generalize (fewer.availableCount cid).toNat = a at order'
  generalize (more.availableCount cid).toNat = b at order'
  generalize (x.rankings order cid).length = n
  by_cases low : a < k
  · by_cases high : k ≤ b
    · rw [if_pos low, if_neg (Nat.not_lt.mpr high)]
      constructor <;> omega
    · rw [if_pos low, if_pos (Nat.not_le.mp high)]
      constructor <;> omega
  · rw [if_neg low, if_neg (by omega)]
    constructor <;> omega

/-- Sixteen pieces here and so many at one peer, of a content with the default K. -/
def stocked (count : UInt32) : PieceTracker :=
  (PieceTracker.new.recordPiece someCid ⟨peerId 1, 16, 0⟩).recordPiece someCid ⟨peerId 2, count, 0⟩

def stockedNode (count : UInt32) : RepairExecutor :=
  ⟨stocked count, (SwimMembership.new (peerId 1)).markAlive (peerId 2) 0, fun _ => none, peerId 1, 0⟩

theorem rankings_stockedNode (count : UInt32) (eligible : 2 ≤ count) :
    (stockedNode count).rankings [peerId 2] someCid =
      [RepairExecutor.placeholder (peerId 1), RepairExecutor.placeholder (peerId 2)] := by
  have holders : (stockedNode count).tracker.getHolders someCid =
      [⟨peerId 1, 16, 0⟩, ⟨peerId 2, count, 0⟩] := rfl
  have alive : (stockedNode count).swim.aliveMembers [peerId 2] = [peerId 2] := rfl
  rw [RepairExecutor.rankings, holders, alive, List.filter_eq_self.mpr, List.filter_eq_self.mpr]
  · rfl
  · intro holder listed
    rcases List.mem_pair.mp listed with rfl | rfl
    · rfl
    · exact decide_eq_true eligible
  · intro holder listed
    rcases List.mem_pair.mp (List.mem_of_mem_filter listed) with rfl | rfl
    · exact decide_eq_true (.inr rfl)
    · exact decide_eq_true (.inl (List.mem_singleton.mpr rfl))

theorem scannedDeficit_stocked (count : UInt32) : scannedDeficit (stocked count) someCid =
    if (16 + count).toNat < 32 then 32 - (16 + count).toNat else 96 - (16 + count).toNat := by
  have available : (stocked count).availableCount someCid = 16 + (count + 0) := rfl
  have k : effectiveK (stocked count) someCid = 32 := rfl
  have target : (targetPieceCount 32).toNat = 96 := toNat_targetPieceCount (by decide)
  rw [scannedDeficit_eq, available, k, target, add_zero]
  rfl

theorem elected_antitone_above_k :
    electedCount (stockedNode 41) [peerId 2] (stocked 41) someCid ≤
      electedCount (stockedNode 40) [peerId 2] (stocked 40) someCid := by
  have sameK : effectiveK (stocked 40) someCid = effectiveK (stocked 41) someCid := rfl
  have lost : (stocked 40).availableCount someCid ≤ (stocked 41).availableCount someCid := by decide
  refine (elected_antitone_iff sameK lost ?_).1.mpr ?_
  · rw [rankings_stockedNode _ (by decide), rankings_stockedNode _ (by decide)]
  · intro low
    exact absurd low (by decide)

/-- At 31 pieces one of two eligible nodes is elected, at 32 both are. -/
theorem more_pieces_more_repairers :
    effectiveK (stocked 15) someCid = 32 ∧ effectiveK (stocked 16) someCid = 32 ∧
      (stocked 15).availableCount someCid = 31 ∧ (stocked 16).availableCount someCid = 32 ∧
      (stockedNode 15).rankings [peerId 2] someCid = (stockedNode 16).rankings [peerId 2] someCid ∧
      (stockedNode 16).rankings [peerId 2] someCid ≠ [] ∧
      electedCount (stockedNode 15) [peerId 2] (stocked 15) someCid = 1 ∧
      electedCount (stockedNode 16) [peerId 2] (stocked 16) someCid = 2 ∧
      scannedDeficit (stocked 15) someCid = 1 ∧ scannedDeficit (stocked 16) someCid = 64 := by
  have fewer := rankings_stockedNode 15 (by decide)
  have more := rankings_stockedNode 16 (by decide)
  refine ⟨rfl, rfl, by decide, by decide, fewer.trans more.symm, ?_, ?_, ?_, ?_, ?_⟩
  · rw [more]
    exact List.cons_ne_nil _ _
  · rw [electedCount_eq, scannedDeficit_stocked, fewer]
    decide
  · rw [electedCount_eq, scannedDeficit_stocked, more]
    decide
  · rw [scannedDeficit_stocked]
    decide
  · rw [scannedDeficit_stocked]
    decide

end Elected

/-! What the pieces of several repairs span. -/

def Reads (env : RepairEnv) (pcid : Cid) (piece : CodedPiece) : Prop :=
  ∃ bytes, env.get pcid = .ok (some bytes) ∧ env.piece bytes = some piece

/-- The piece index lists these pieces of the content, and all of them can be read. -/
def Holds (x : RepairExecutor) (env : RepairEnv) (cid : Cid) (pieces : List CodedPiece) : Prop :=
  ∃ pcids, x.pieceLookup cid = some pcids ∧ List.Forall₂ (Reads env) pcids pieces

/-- A repair that meets no obstacle but possibly the pieces it loads. -/
structure Unhindered (x : RepairExecutor) (request : RepairRequest) (env : RepairEnv) : Prop where
  elected : FindsItselfElected x env.order request
  engine : env.closed = false
  target : ∃ target, x.selectDistributionTarget env request.cid = .ok target
  sending : env.sending = .ok ()

/-- Scalars as recoding draws them: one for each loaded piece, and none zero. -/
def Draws (x : RepairExecutor) (env : RepairEnv) (cid : Cid) (scalars : Bytes) : Prop :=
  ∃ pieces, x.loadLocalPieces env cid = .ok pieces ∧ scalars.length = pieces.length ∧ 0 ∉ scalars

def Produces (B : Blake3) (x : RepairExecutor) (request : RepairRequest) (env : RepairEnv)
    (scalars : Bytes) (made : CodedPiece) : Prop :=
  ∃ later target number, x.executeRepair B request { env with scalars := scalars } =
    (later, .ok (.sent target (.pieceResponse [made] number)))

section Spanned

variable {B : Blake3} {x : RepairExecutor} {request : RepairRequest} {env : RepairEnv} {cid : Cid}
  {first second : CodedPiece} {rest : List CodedPiece}

theorem loadLocalPieces_of_holds (holds : Holds x env cid (first :: second :: rest)) :
    x.loadLocalPieces env cid = .ok [first, second] := by
  obtain ⟨pcids, listed, readable⟩ := holds
  cases readable with
  | cons one more =>
    obtain ⟨bytes, got, decoded⟩ := one
    cases more with
    | cons two others =>
      obtain ⟨bytes', got', decoded'⟩ := two
      have stops (pcids : List Cid) :
          RepairExecutor.loadPieces env pcids [first, second] = [first, second] := by
        cases pcids <;> rfl
      simp [RepairExecutor.loadLocalPieces, listed, RepairExecutor.loadPieces, got, decoded, got',
        decoded', stops]

theorem sends_pair (unhindered : Unhindered x request env)
    (holds : Holds x env request.cid (first :: second :: rest)) (cids : second.cid = first.cid)
    (sizes : second.codingVector.length = first.codingVector.length) {a b : UInt8}
    (drawn : env.scalars = [a, b]) :
    ∃ later target number made,
      x.executeRepair B request env = (later, .ok (.sent target (.pieceResponse [made] number))) ∧
        vec made.codingVector =
          (⟨a⟩ : GF256) • vec first.codingVector + (⟨b⟩ : GF256) • vec second.codingVector := by
  have alike : ∀ p ∈ [first, second], p.cid = first.cid ∧
      p.codingVector.length = first.codingVector.length := by
    intro p listed
    rcases List.mem_pair.mp listed with rfl | rfl
    · exact ⟨rfl, rfl⟩
    · exact ⟨cids, sizes⟩
  have several : 2 ≤ [first, second].length := Nat.le_refl 2
  obtain ⟨made, recoded, vector⟩ := recode_vector B several alike [a, b]
  obtain ⟨target, chosen⟩ := unhindered.target
  have loaded := loadLocalPieces_of_holds holds
  have engine : engineRecode B env.closed [first, second] env.scalars = .ok made := by
    rw [engineRecode, unhindered.engine, drawn, recoded]
    rfl
  refine ⟨{ x with nextRequestId := x.nextRequestId + 1 }, target, x.nextRequestId, made, ?_, ?_⟩
  · rw [executeRepair_of_elected unhindered.elected, RepairExecutor.distribute]
    simp only [loaded, engine, chosen, unhindered.sending]
  · rw [vector]
    simp only [List.zip_cons_cons, List.zip_nil_right, List.map_cons, List.map_nil, List.sum_cons,
      List.sum_nil, add_zero]

theorem produces_pair (unhindered : Unhindered x request env)
    (holds : Holds x env request.cid (first :: second :: rest)) (cids : second.cid = first.cid)
    (sizes : second.codingVector.length = first.codingVector.length) (a b : UInt8) :
    ∃ made, Produces B x request env [a, b] made ∧
      vec made.codingVector =
        (⟨a⟩ : GF256) • vec first.codingVector + (⟨b⟩ : GF256) • vec second.codingVector := by
  have drawn : Unhindered x request { env with scalars := [a, b] } :=
    ⟨unhindered.elected, unhindered.engine, unhindered.target, unhindered.sending⟩
  obtain ⟨later, target, number, made, ran, vector⟩ := sends_pair drawn holds cids sizes rfl
  exact ⟨made, ⟨later, target, number, ran⟩, vector⟩

theorem Produces.unique {scalars : Bytes} {made other : CodedPiece}
    (one : Produces B x request env scalars made) (two : Produces B x request env scalars other) :
    made = other := by
  obtain ⟨later, target, number, ran⟩ := one
  obtain ⟨later', target', number', ran'⟩ := two
  rw [ran] at ran'
  cases ran'
  rfl

theorem vector_mem_span (unhindered : Unhindered x request env)
    (holds : Holds x env request.cid (first :: second :: rest)) (cids : second.cid = first.cid)
    (sizes : second.codingVector.length = first.codingVector.length) {scalars : Bytes} {made : CodedPiece}
    (draws : Draws x env request.cid scalars) (produces : Produces B x request env scalars made) :
    vec made.codingVector ∈
      Submodule.span GF256 (Set.range ![vec first.codingVector, vec second.codingVector]) := by
  obtain ⟨pieces, loaded, count, -⟩ := draws
  rw [loadLocalPieces_of_holds holds] at loaded
  cases loaded
  obtain ⟨a, b, rfl⟩ := List.length_eq_two.mp count
  obtain ⟨other, produced, vector⟩ := produces_pair (B := B) unhindered holds cids sizes a b
  rw [produces.unique produced, vector]
  refine Submodule.add_mem _ (Submodule.smul_mem _ _ ?_) (Submodule.smul_mem _ _ ?_)
  · exact Submodule.subset_span ⟨0, rfl⟩
  · exact Submodule.subset_span ⟨1, rfl⟩

end Spanned

/-- These repairs can be given scalars for which their pieces are independent. -/
def YieldIndependent (B : Blake3) {n : ℕ} (x : Fin n → RepairExecutor) (request : Fin n → RepairRequest)
    (env : Fin n → RepairEnv) : Prop :=
  ∃ (scalars : Fin n → Bytes) (made : Fin n → CodedPiece),
    (∀ i, Draws (x i) (env i) (request i).cid (scalars i)) ∧
    (∀ i, Produces B (x i) (request i) (env i) (scalars i) (made i)) ∧
    LinearIndependent GF256 fun i => vec (made i).codingVector

section Yield

variable {B : Blake3} {n : ℕ} {x : Fin n → RepairExecutor} {request : Fin n → RepairRequest}
  {env : Fin n → RepairEnv} {first second : CodedPiece} {rest : List CodedPiece}

theorem at_most_two (unhindered : ∀ i, Unhindered (x i) (request i) (env i))
    (holds : ∀ i, Holds (x i) (env i) (request i).cid (first :: second :: rest))
    (cids : second.cid = first.cid) (sizes : second.codingVector.length = first.codingVector.length)
    (yield : YieldIndependent B x request env) : n ≤ 2 := by
  obtain ⟨scalars, made, draws, produces, independent⟩ := yield
  have inside : Submodule.span GF256 (Set.range fun i => vec (made i).codingVector) ≤
      Submodule.span GF256 (Set.range ![vec first.codingVector, vec second.codingVector]) := by
    rw [Submodule.span_le]
    rintro v ⟨i, rfl⟩
    exact vector_mem_span (unhindered i) (holds i) cids sizes (draws i) (produces i)
  have finite := FiniteDimensional.span_of_finite GF256
    (Set.finite_range ![vec first.codingVector, vec second.codingVector])
  calc n = Fintype.card (Fin n) := (Fintype.card_fin n).symm
    _ = Module.finrank GF256 (Submodule.span GF256 (Set.range fun i => vec (made i).codingVector)) :=
        (finrank_span_eq_card independent).symm
    _ ≤ Module.finrank GF256
          (Submodule.span GF256 (Set.range ![vec first.codingVector, vec second.codingVector])) :=
        Submodule.finrank_mono inside
    _ ≤ Fintype.card (Fin 2) := finrank_range_le_card _
    _ = 2 := Fintype.card_fin 2

theorem two_suffice (few : n ≤ 2) (unhindered : ∀ i, Unhindered (x i) (request i) (env i))
    (holds : ∀ i, Holds (x i) (env i) (request i).cid (first :: second :: rest))
    (cids : second.cid = first.cid) (sizes : second.codingVector.length = first.codingVector.length)
    (independent : LinearIndependent GF256 ![vec first.codingVector, vec second.codingVector]) :
    YieldIndependent B x request env := by
  let scalar : Fin 2 → UInt8 := ![1, 2]
  have produced (i : Fin n) :=
    produces_pair (B := B) (unhindered i) (holds i) cids sizes 1 (scalar (i.castLE few))
  choose made produces vectors using produced
  refine ⟨fun i => [1, scalar (i.castLE few)], made, ?_, produces, ?_⟩
  · intro i
    refine ⟨[first, second], loadLocalPieces_of_holds (holds i), rfl, ?_⟩
    dsimp only
    generalize i.castLE few = j
    fin_cases j <;> decide
  · have apart : (1 : GF256) * ⟨2⟩ ≠ 1 * 1 := by decide
    have both := (LinearIndependent.pair_add_smul_add_smul_iff _ _ _ _).mpr ⟨independent, apart⟩
    have same : (fun i => vec (made i).codingVector) =
        ![(1 : GF256) • vec first.codingVector + (1 : GF256) • vec second.codingVector,
          (1 : GF256) • vec first.codingVector + (⟨2⟩ : GF256) • vec second.codingVector] ∘
          Fin.castLE few := by
      funext i
      rw [vectors i, Function.comp_apply]
      generalize i.castLE few = j
      fin_cases j <;> rfl
    rw [same]
    exact both.comp _ (Fin.castLE_injective few)

/-- A node with at least two independent pieces, all readable, can repair `n` times with
independent results, for some non-zero scalars, exactly if `n` is at most two. -/
theorem repairs_independent_iff {cid : Cid} {k : ℕ} {pieces : List CodedPiece}
    (several : 2 ≤ pieces.length) (alike : ∀ p ∈ pieces, p.cid = cid ∧ p.codingVector.length = k)
    (independent : LinearIndependent GF256 fun i : Fin pieces.length => vec (pieces.get i).codingVector)
    (asked : ∀ i, (request i).cid = cid) (holds : ∀ i, Holds (x i) (env i) cid pieces)
    (unhindered : ∀ i, Unhindered (x i) (request i) (env i)) :
    YieldIndependent B x request env ↔ n ≤ 2 := by
  rcases pieces with _ | ⟨first, _ | ⟨second, rest⟩⟩
  · exact absurd several (Nat.not_succ_le_zero 1)
  · exact absurd several (Nat.not_succ_le_self 1)
  · have one := alike first List.mem_cons_self
    have two := alike second (List.mem_cons_of_mem _ List.mem_cons_self)
    have cids := two.1.trans one.1.symm
    have sizes := two.2.trans one.2.symm
    have held (i : Fin n) : Holds (x i) (env i) (request i).cid (first :: second :: rest) := by
      rw [asked i]
      exact holds i
    refine ⟨at_most_two unhindered held cids sizes, ?_⟩
    intro few
    refine two_suffice few unhindered held cids sizes ?_
    have firstTwo := independent.comp (Fin.castLE several) (Fin.castLE_injective several)
    convert firstTwo using 1
    funext i
    fin_cases i <;> rfl

end Yield

/-! A node with three unit vectors. -/

def unit (vector : Bytes) : CodedPiece := CodedPiece.new Blake3.byLeading someCid vector [] (Bytes32.fill 0)

def units : List CodedPiece := [unit [1, 0, 0], unit [0, 1, 0], unit [0, 0, 1]]

theorem independent_units :
    LinearIndependent GF256 fun i : Fin units.length => vec (units.get i).codingVector := by
  have entries : ∀ i j : Fin 3, vec (units.get i).codingVector j = if i = j then 1 else 0 := by decide
  rw [Fintype.linearIndependent_iff]
  intro (g : Fin 3 → GF256) zero (i : Fin 3)
  have coordinate : ∑ j : Fin 3, g j * vec (units.get j).codingVector i = 0 := by
    have entry := congrFun zero i
    simp only [Finset.sum_apply, Pi.smul_apply, smul_eq_mul, Pi.zero_apply] at entry
    exact entry
  simpa only [entries, mul_ite, mul_one, mul_zero, Finset.sum_ite_eq', Finset.mem_univ, if_true] using
    coordinate

def unitsNode : RepairExecutor :=
  { stockedNode 0 with pieceLookup := fun _ => some [⟨Bytes32.fill 0⟩, ⟨Bytes32.fill 1⟩, ⟨Bytes32.fill 2⟩] }

def unitsEnv : RepairEnv where
  order := [peerId 2]
  get pcid := .ok (some (pcid.asBytes.take 1))
  piece bytes := units[(bytes.getD 0 0).toNat]?
  closed := false
  scalars := []
  laterTracker := stocked 0
  laterSwim := (stockedNode 0).swim
  laterOrder := [peerId 2]
  pick := 0
  sending := .ok ()

theorem holds_units : Holds unitsNode unitsEnv someCid units := by
  have reads (n : UInt8) (piece : CodedPiece) (stored : units[n.toNat]? = some piece) :
      Reads unitsEnv ⟨Bytes32.fill n⟩ piece := ⟨[n], rfl, stored⟩
  exact ⟨_, rfl, .cons (reads 0 _ rfl) (.cons (reads 1 _ rfl) (.cons (reads 2 _ rfl) .nil))⟩

def shortage : RepairRequest := .critical someCid 16 32

theorem unhindered_units : Unhindered unitsNode shortage unitsEnv := by
  have eligible : unitsNode.rankings [peerId 2] shortage.cid =
      [RepairExecutor.placeholder (peerId 1)] := rfl
  have ranked : rankProviders (unitsNode.rankings [peerId 2] shortage.cid) = [peerId 1] := by
    rw [eligible, rankProviders, sortBy, List.mergeSort_singleton]
    rfl
  refine ⟨(findsItselfElected_iff _ _ _).mpr ?_, rfl, ⟨peerId 2, rfl⟩, rfl⟩
  change peerId 1 ∈ unitsNode.electedNodes [peerId 2] shortage
  rw [RepairExecutor.electedNodes, ranked]
  exact List.mem_singleton.mpr rfl

theorem two_repairs_of_units :
    YieldIndependent Blake3.byLeading (fun _ : Fin 2 => unitsNode)
      (fun _ => shortage) fun _ => unitsEnv := by
  have several : 2 ≤ units.length := by decide
  have alike : ∀ p ∈ units, p.cid = someCid ∧ p.codingVector.length = 3 := by decide
  exact (repairs_independent_iff several alike independent_units (fun _ => rfl)
    (fun _ => holds_units) fun _ => unhindered_units).mpr (Nat.le_refl 2)

/-- Three repairs cannot, with three independent pieces at hand. -/
theorem three_repairs_dependent :
    units.length = 3 ∧ (∀ p ∈ units, p.cid = someCid ∧ p.codingVector.length = 3) ∧
      (LinearIndependent GF256 fun i : Fin units.length => vec (units.get i).codingVector) ∧
      Holds unitsNode unitsEnv someCid units ∧
      Unhindered unitsNode shortage unitsEnv ∧
      ¬ YieldIndependent Blake3.byLeading (fun _ : Fin 3 => unitsNode)
        (fun _ => shortage) fun _ => unitsEnv := by
  refine ⟨by decide, by decide, independent_units, holds_units, unhindered_units, ?_⟩
  intro yield
  exact absurd (at_most_two (fun _ => unhindered_units) (fun _ => holds_units) rfl rfl yield) (by decide)

end Craftec.Health.RepairYield
