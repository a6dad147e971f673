import Vllm.Lib.Numpy
import Mathlib.Algebra.Order.Field.Rat
import Mathlib.Algebra.Order.Monoid.WithTop

/-! The default policy of the expert-parallelism load balancer
(`vllm/distributed/eplb/policy/default.py`). The arrays have one row per layer and numpy works on
the rows independently, so the functions here work on one row. -/

namespace Vllm.Eplb

structure Array2 (α : Type) (m n : Nat) where
  rows : List (List α)
  length_rows : rows.length = m
  length_row : ∀ row ∈ rows, row.length = n

def divides (a b : Nat) : Result Bool :=
  if b = 0 then .error .zeroDivisionError else .ok (a % b = 0)

def assertDivides (a b : Nat) : Result Unit := do
  let d ← divides a b
  Result.ensure (d = true) ""

structure Packing where
  packIndex : List Int
  rankInPack : List Int
  packWeights : List (WithTop Rat)
  packItems : List Nat

def Packing.place (groupsPerPack : Nat) (weight : List Rat) (s : Packing) (group : Nat) :
    Result Packing := do
  -- a full pack weighs infinity
  let pack ← Numpy.argmin s.packWeights
  let items ← Result.getItem s.packItems pack
  let packWeight ← Result.getItem s.packWeights pack
  let w ← Result.getItem weight group
  pure
    { packIndex := s.packIndex.set group pack
      rankInPack := s.rankInPack.set group items
      packWeights := s.packWeights.set pack
        (if items + 1 = groupsPerPack then ⊤ else packWeight + (w : WithTop Rat))
      packItems := s.packItems.set pack (items + 1) }

def balancedPacking (np : Numpy) (weight : List Rat) (numPacks : Nat) :
    Result (List Int × List Int) := do
  let numGroups := weight.length
  assertDivides numGroups numPacks
  let groupsPerPack := numGroups / numPacks
  if groupsPerPack = 1 then
    pure ((List.range numGroups).map Nat.cast, List.replicate numGroups 0)
  else do
    let indices := np.argsort (weight.map fun w => -w)
    let s ← indices.foldlM (Packing.place groupsPerPack weight)
      { packIndex := List.replicate numGroups (-1)
        rankInPack := List.replicate numGroups (-1)
        packWeights := List.replicate numPacks 0
        packItems := List.replicate numPacks 0 }
    pure (s.packIndex, s.rankInPack)

structure Replicas where
  phy2log : List Nat
  replicaIdx : List Nat
  logcnt : List Nat

def loads (weight : List Rat) (logcnt : List Nat) : List Rat :=
  weight.zipWith (fun (w : Rat) (c : Nat) => w / (c : Rat)) logcnt

def Replicas.replicate (weight : List Rat) (s : Replicas) (i : Nat) : Result Replicas := do
  let redundant ← Numpy.argmax (loads weight s.logcnt)
  let cnt ← Result.getItem s.logcnt redundant
  pure
    { phy2log := s.phy2log.set i redundant
      replicaIdx := s.replicaIdx.set i cnt
      logcnt := s.logcnt.set redundant (cnt + 1) }

def replicateExperts (weight : List Rat) (numPhy : Nat) : Result Replicas := do
  let numLog := weight.length
  Result.ensure (numLog ≤ numPhy) ""
  (List.range' numLog (numPhy - numLog)).foldlM (Replicas.replicate weight)
    { phy2log := List.range numPhy
      replicaIdx := List.replicate numPhy 0
      logcnt := List.replicate numLog 1 }

def inverse (np : Numpy) (perm : List Int) : Result (List Int) :=
  Numpy.put (np.empty perm.length) (perm.zip ((List.range perm.length).map Nat.cast))

def packed (perPack : Nat) (packIndex rankInPack : List Int) : List Int :=
  packIndex.zipWith (fun pack rank => pack * perPack + rank) rankInPack

def rebalanceNode (np : Numpy) (numPhy numGpus phyExpertsPerGpu : Nat) (tokensPerMlog : List Rat) :
    Result Replicas := do
  let r ← replicateExperts tokensPerMlog numPhy
  let tokensPerPhy ← Numpy.take (loads tokensPerMlog r.logcnt) (r.phy2log.map Nat.cast)
  let (packIndex, rankInPack) ← balancedPacking np tokensPerPhy numGpus
  let pphy2phy ← inverse np (packed phyExpertsPerGpu packIndex rankInPack)
  let pphy2mlog ← Numpy.take r.phy2log pphy2phy
  let pphyReplicasIdx ← Numpy.take r.replicaIdx pphy2phy
  pure { phy2log := pphy2mlog, replicaIdx := pphyReplicasIdx, logcnt := r.logcnt }

/-- One layer's `phy2log`, `phy_replicas_idx` and `logcnt`. -/
structure Layer where
  phy2log : List Int
  phyReplicasIdx : List Nat
  logcnt : List Nat
  deriving DecidableEq

def rebalanceLayer (np : Numpy) (numPhysicalExperts numGroups numNodes numGpus : Nat)
    (weight : List Rat) : Result Layer := do
  let numLogicalExperts := weight.length
  let groupSize := numLogicalExperts / numGroups
  let groupsPerNode := numGroups / numNodes
  let expertsPerNode := numLogicalExperts / numNodes
  let phyExpertsPerGpu := numPhysicalExperts / numGpus
  -- pack groups to nodes
  let tokensPerGroup := (Numpy.rows numGroups groupSize weight).map List.sum
  let (groupPackIndex, groupRankInPack) ← balancedPacking np tokensPerGroup numNodes
  let log2mlog := (packed groupsPerNode groupPackIndex groupRankInPack).flatMap fun place =>
    (List.range groupSize).map fun j : Nat => place * groupSize + (j : Int)
  let mlog2log ← inverse np log2mlog
  let tokensPerMlog ← Numpy.take weight mlog2log
  let nodes ← (Numpy.rows numNodes expertsPerNode tokensPerMlog).mapM
    (rebalanceNode np (numPhysicalExperts / numNodes) (numGpus / numNodes) phyExpertsPerGpu)
  -- back from each node's own numbers to the logical experts
  let pphy2mlog := nodes.zipIdx.flatMap fun node =>
    node.1.phy2log.map fun m => ((m + node.2 * expertsPerNode : Nat) : Int)
  let pphy2log ← Numpy.take mlog2log pphy2mlog
  let logcnt ← Numpy.take (nodes.flatMap Replicas.logcnt) log2mlog
  pure
    { phy2log := pphy2log
      phyReplicasIdx := nodes.flatMap Replicas.replicaIdx
      logcnt := logcnt }

def rebalanceExpertsHierarchical {numLayers numLogicalExperts : Nat} (np : Numpy)
    (weight : Array2 Rat numLayers numLogicalExperts)
    (numPhysicalExperts numGroups numNodes numGpus : Nat) : Result (List Layer) := do
  assertDivides numLogicalExperts numGroups
  assertDivides numGroups numNodes
  assertDivides numGpus numNodes
  assertDivides numPhysicalExperts numGpus
  -- numpy cannot infer the dimension `-1` of an array without entries
  if numLogicalExperts = 0 then
    throw (.valueError "cannot reshape array of size 0")
  if numLayers = 0 then do
    Result.ensure (numLogicalExperts / numNodes ≤ numPhysicalExperts / numNodes) ""
    throw (.valueError "cannot reshape array of size 0")
  weight.rows.mapM (rebalanceLayer np numPhysicalExperts numGroups numNodes numGpus)

structure Reorder where
  postPhy2log : List Int
  postPhyReplicasIdx : List Nat
  usedNewIndices : List Bool
  preservedPositions : List Bool

def Reorder.preserve (start : Nat) (oldLocal newLocal : List Int) (newRidx : List Nat)
    (s : Reorder) (slotIdx : Nat) : Result Reorder := do
  let old ← Result.getItem oldLocal slotIdx
  let isMatch := newLocal.zipWith (fun new used => new == old && !used) s.usedNewIndices
  if isMatch.any id then do
    let firstIdx := isMatch.idxOf true
    let new ← Result.getItem newLocal firstIdx
    let ridx ← Result.getItem newRidx firstIdx
    pure
      { postPhy2log := s.postPhy2log.set (start + slotIdx) new
        postPhyReplicasIdx := s.postPhyReplicasIdx.set (start + slotIdx) ridx
        usedNewIndices := s.usedNewIndices.set firstIdx true
        preservedPositions := s.preservedPositions.set slotIdx true }
  else pure s

def priority (mask : List Bool) (slotsPerGpu : Nat) : List Nat :=
  mask.zipIdx.map fun x => if x.1 then x.2 else slotsPerGpu + 1

def Reorder.fill (np : Numpy) (start slotsPerGpu : Nat) (newLocal : List Int) (newRidx : List Nat)
    (s : Reorder) : Result Reorder := do
  let remainingMask := s.usedNewIndices.map not
  let fillMask := s.preservedPositions.map not
  let k := min (remainingMask.count true) (fillMask.count true)
  if k = 0 then pure s
  else do
    let srcPos := (np.argsort (priority remainingMask slotsPerGpu)).take k
    let dstPos := (np.argsort (priority fillMask slotsPerGpu)).take k
    let new ← Numpy.take newLocal (srcPos.map Nat.cast)
    let ridx ← Numpy.take newRidx (srcPos.map Nat.cast)
    let places := dstPos.map fun dst => ((start + dst : Nat) : Int)
    let postPhy2log ← Numpy.put s.postPhy2log (places.zip new)
    let postPhyReplicasIdx ← Numpy.put s.postPhyReplicasIdx (places.zip ridx)
    pure { s with postPhy2log := postPhy2log, postPhyReplicasIdx := postPhyReplicasIdx }

def gpuSlots {α : Type} (slotsPerGpu gpuIdx : Nat) (row : List α) : List α :=
  Py.slice row (gpuIdx * slotsPerGpu : Nat) (gpuIdx * slotsPerGpu + slotsPerGpu : Nat)

def reorderGpu (np : Numpy) (phy2log : List Int) (phyReplicasIdx : List Nat) (slotsPerGpu : Nat)
    (oldPhy2log : List Int) (post : List Int × List Nat) (gpuIdx : Nat) :
    Result (List Int × List Nat) := do
  let start := gpuIdx * slotsPerGpu
  let oldLocal := gpuSlots slotsPerGpu gpuIdx oldPhy2log
  let newLocal := gpuSlots slotsPerGpu gpuIdx phy2log
  let newRidx := gpuSlots slotsPerGpu gpuIdx phyReplicasIdx
  let s ← (List.range slotsPerGpu).foldlM (Reorder.preserve start oldLocal newLocal newRidx)
    { postPhy2log := post.1
      postPhyReplicasIdx := post.2
      usedNewIndices := List.replicate slotsPerGpu false
      preservedPositions := List.replicate slotsPerGpu false }
  let s ← s.fill np start slotsPerGpu newLocal newRidx
  pure (s.postPhy2log, s.postPhyReplicasIdx)

def preserveIntragpuSlots (np : Numpy) (phy2log : List Int) (phyReplicasIdx : List Nat)
    (numRanks : Nat) (oldPhy2log : List Int) : Result (List Int × List Nat) :=
  let numPhyExperts := phy2log.length
  if numRanks = 0 ∨ numPhyExperts % numRanks ≠ 0 then pure (phy2log, phyReplicasIdx)
  else
    (List.range numRanks).foldlM
      (reorderGpu np phy2log phyReplicasIdx (numPhyExperts / numRanks) oldPhy2log)
      (phy2log, phyReplicasIdx)

/-- `log2phy[phy2log, phy_replicas_idx] = arange(num_replicas)`. -/
def log2phyRow (numLogicalExperts maxlogcnt : Nat) (phy2log : List Int)
    (phyReplicasIdx : List Nat) : Result (List (List Int)) :=
  (phy2log.zip phyReplicasIdx).zipIdx.foldlM
    (fun table x => do
      let row ← Numpy.item table x.1.1
      let row ← Numpy.setItem row x.1.2 x.2
      Numpy.setItem table x.1.1 row)
    (List.replicate numLogicalExperts (List.replicate maxlogcnt (-1)))

/-- One layer of the result. -/
structure Placement where
  phy2log : List Int
  log2phy : List (List Int)
  logcnt : List Nat
  deriving DecidableEq

def reorderLayers {numLayers : Nat} (np : Numpy) (numRanks : Nat) (layers : List Layer) :
    Option (Σ n, Array2 Int numLayers n) → Result (List Layer)
  | none => pure layers
  | some old => (layers.zip old.2.rows).mapM fun x => do
    let (phy2log, phyReplicasIdx) ←
      preserveIntragpuSlots np x.1.phy2log x.1.phyReplicasIdx numRanks x.2
    pure { x.1 with phy2log := phy2log, phyReplicasIdx := phyReplicasIdx }

def Layer.placement (numLogicalExperts maxlogcnt : Nat) (s : Layer) : Result Placement := do
  let log2phy ← log2phyRow numLogicalExperts maxlogcnt s.phy2log s.phyReplicasIdx
  pure { phy2log := s.phy2log, log2phy := log2phy, logcnt := s.logcnt }

def rebalanceExperts {numLayers numLogicalExperts : Nat} (np : Numpy)
    (weight : Array2 Rat numLayers numLogicalExperts) (numReplicas numGroups numNodes numRanks : Nat)
    (oldGlobalExpertIndices : Option (Σ n, Array2 Int numLayers n)) : Result (List Placement) := do
  let hierarchical ← divides numGroups numNodes
  let layers ←
    if hierarchical then
      rebalanceExpertsHierarchical np weight numReplicas numGroups numNodes numRanks
    else rebalanceExpertsHierarchical np weight numReplicas 1 1 numRanks
  let layers ← reorderLayers np numRanks layers oldGlobalExpertIndices
  let maxlogcnt := numReplicas - numLogicalExperts + 1
  layers.mapM (Layer.placement numLogicalExperts maxlogcnt)

end Vllm.Eplb
