import Vllm.EplbRebalance
import Vllm.Lib.Greedy
import Vllm.Lib.Segments

namespace Vllm.Eplb

open Ragged

variable {np : Numpy} {weight : List Rat}

theorem block_le {n k g : Nat} (hg : g < n) : g * k + k ≤ n * k := Nat.succ_mul g k ▸ Nat.mul_le_mul_right k hg

theorem place_lt {n k g j : Nat} (hg : g < n) (hj : j < k) : g * k + j < n * k :=
  (Nat.add_lt_add_left hj _).trans_le (block_le hg)

def share (weight : List Rat) (e count : Nat) : Rat := weight.getD e 0 / (count : Rat)

theorem getD_nonneg (hw : ∀ w ∈ weight, 0 ≤ w) (e : Nat) : 0 ≤ weight.getD e 0 := by
  rcases Nat.lt_or_ge e weight.length with h | h
  · rw [List.getD_eq_getElem _ _ h]
    exact hw _ (List.getElem_mem h)
  · rw [List.getD_eq_default _ _ h]

theorem shared_share (hw : ∀ w ∈ weight, 0 ≤ w) (s : Finset Nat) : Greedy.Shared s (share weight) :=
  fun e _ _ _ hpos hle =>
    div_le_div_of_nonneg_left (getD_nonneg hw e) (Nat.cast_pos.mpr hpos) (Nat.cast_le.mpr hle)

section Replication

variable {numPhy i : Nat} {s s' : Replicas}

theorem getD_loads {logcnt : List Nat} (hlen : logcnt.length = weight.length) {e : Nat} (he : e < weight.length) :
    (loads weight logcnt).getD e 0 = share weight e (logcnt.getD e 0) := by
  rw [loads, Numpy.zipWith_eq_map_range _ 0 0 hlen, List.getD_eq_getElem _ _ (by simpa using he), List.getElem_map,
    List.getElem_range, share]

structure Replicas.Greedy (weight : List Rat) (s : Replicas) : Prop where
  logcnt : s.logcnt.length = weight.length
  pos : ∀ e < weight.length, 0 < s.logcnt.getD e 0
  allotted : Greedy.Allotted (Finset.range weight.length) (share weight) fun e => s.logcnt.getD e 0

theorem Replicas.Greedy.replicate (h : s.Greedy weight) (hw : ∀ w ∈ weight, 0 ≤ w)
    (hok : Replicas.replicate weight s i = .ok s') : s'.Greedy weight := by
  simp only [Replicas.replicate, Result.bind_eq_ok, Result.getItem_eq_ok, Result.pure_eq_ok] at hok
  obtain ⟨e, hmax, cnt, hcnt, rfl⟩ := hok
  obtain ⟨he, rfl⟩ := List.getElem?_eq_some_iff.mp hcnt
  have hlt : e < weight.length := h.logcnt ▸ he
  have hself := Numpy.getD_set_self 0 (s.logcnt[e] + 1) he
  have hother := fun j (hj : j ≠ e) => Numpy.getD_set_ne (l := s.logcnt) 0 (s.logcnt[e] + 1) hj
  refine ⟨by rw [List.length_set, h.logcnt], fun j hj => ?_, ?_⟩
  · by_cases hje : j = e
    · rw [hje, hself]
      exact Nat.succ_pos _
    · rw [hother j hje]
      exact h.pos j hj
  · refine h.allotted.give (i := e) (shared_share hw _) (fun j hj => h.pos j (Finset.mem_range.mp hj)) (fun j hj => ?_) ?_
      hother
    · have hj := Finset.mem_range.mp hj
      rw [← getD_loads h.logcnt hj, ← getD_loads h.logcnt hlt]
      refine Numpy.le_of_argmax hmax 0 _ ?_
      have hjlen : j < (loads weight s.logcnt).length := by
        rwa [loads, List.length_zipWith, h.logcnt, Nat.min_self]
      rw [List.getD_eq_getElem _ _ hjlen]
      exact List.getElem_mem hjlen
    · rw [hself, List.getD_eq_getElem _ _ he]

end Replication

section Packs

variable {numPacks perPack n pack g : Nat} {done : List Nat} {s s' : Packing} {packIndex : List Int} {m : Rat}

def packLoad (weight : List Rat) (packIndex : List Int) (done : List Nat) (pack : Nat) : Rat :=
  ((done.filter fun g => packIndex.getD g default = pack).map fun g => weight.getD g 0).sum

theorem packLoad_append (hlen : g < packIndex.length) (hg : g ∉ done) (p : Nat) :
    packLoad weight (packIndex.set g pack) (done ++ [g]) p =
      packLoad weight packIndex done p + if p = pack then weight.getD g 0 else 0 := by
  have hsame : done.filter (fun i => (packIndex.set g (pack : Int)).getD i default = p) =
      done.filter fun i => packIndex.getD i default = p := by
    refine List.filter_congr fun i hi => ?_
    have hne : i ≠ g := fun heq => hg (heq ▸ hi)
    rw [Numpy.getD_set_ne _ _ hne]
  rw [packLoad, List.filter_append, hsame, List.map_append, List.sum_append, packLoad, List.filter_singleton,
    Numpy.getD_set_self _ _ hlen]
  by_cases hp : p = pack
  · simp [hp]
  · have hne : ¬ ((pack : Int) = p) := fun h => hp (Int.ofNat_inj.mp h).symm
    simp [hp, hne]

structure Packing.Level (numPacks perPack : Nat) (m : Rat) (weight : List Rat) (done : List Nat) (s : Packing) : Prop where
  packWeights : ∀ p < numPacks, s.packItems.getD p 0 < perPack →
    s.packWeights.getD p 0 = (packLoad weight s.packIndex done p : Rat)
  level : ∀ y, 0 ≤ y → (∀ g ∈ done, y ≤ weight.getD g 0) → Greedy.Level (Finset.range numPacks) perPack m
    (packLoad weight s.packIndex done) (fun p => s.packItems.getD p 0) y

theorem Packing.Level.place (h : s.Level numPacks perPack m weight done) (hinv : Packing.Inv numPacks perPack n done s)
    (hroom : done.length < numPacks * perPack) (hg : g < n) (hdone : g ∉ done)
    (hdesc : ∀ i ∈ done, weight.getD g 0 ≤ weight.getD i 0) (hw : 0 ≤ weight.getD g 0 ∧ weight.getD g 0 ≤ m)
    (hok : Packing.place perPack weight s g = .ok s') : s'.Level numPacks perPack m weight (done ++ [g]) := by
  obtain ⟨pack, hmin, hpack, -, hfree⟩ := hinv.argmin hroom
  simp only [Packing.place, hmin, Result.ok_bind, Result.bind_eq_ok, Result.getItem_eq_ok, Result.pure_eq_ok] at hok
  obtain ⟨items, hitems, packWeight, hweight, w, hgw, rfl⟩ := hok
  obtain ⟨hlenItems, rfl⟩ := List.getElem?_eq_some_iff.mp hitems
  obtain ⟨hlenWeights, rfl⟩ := List.getElem?_eq_some_iff.mp hweight
  obtain rfl : weight.getD g 0 = w := by rw [List.getD_eq_getElem?_getD, hgw, Option.getD_some]
  have hload := @packLoad_append weight pack _ _ _ (hinv.packIndex ▸ hg) hdone
  have hselfItems := Numpy.getD_set_self 0 (s.packItems[pack] + 1) hlenItems
  have hotherItems := fun j (hj : j ≠ pack) => Numpy.getD_set_ne (l := s.packItems) 0 (s.packItems[pack] + 1) hj
  have hcount : s.packItems.getD pack 0 = s.packItems[pack] := List.getD_eq_getElem _ _ hlenItems
  refine ⟨fun p hp hlt => ?_, fun y hy hsmall => ?_⟩
  · dsimp only at hlt ⊢
    rw [hload]
    by_cases hpp : p = pack
    · subst hpp
      rw [hselfItems] at hlt
      rw [Numpy.getD_set_self _ _ hlenWeights, if_neg hlt.ne, if_pos rfl, WithTop.coe_add,
        ← h.packWeights p hp (hcount ▸ Nat.lt_of_succ_lt hlt), List.getD_eq_getElem _ _ hlenWeights]
    · rw [hotherItems p hpp] at hlt
      rw [Numpy.getD_set_ne _ _ hpp, if_neg hpp, add_zero, h.packWeights p hp hlt]
  · have hyz : y ≤ weight.getD g 0 := hsmall g (List.mem_append_right _ List.mem_cons_self)
    have hold := h.level y hy fun i hi => hsmall i (List.mem_append_left _ hi)
    refine hold.put (h.level _ hw.1 hdesc) hy hyz hw.2 (Finset.mem_range.mpr hpack) hfree (fun j hj hlt => ?_) ⟨?_, ?_⟩ ?_
    · -- a pack that is not full weighs what it has
      have hj := Finset.mem_range.mp hj
      obtain ⟨pack', hmin', -, hle⟩ := Numpy.argmin_ok (List.ne_nil_of_length_pos (Nat.zero_lt_of_lt hlenWeights))
      obtain rfl := Except.ok.inj (hmin.symm.trans hmin')
      have hjlen : j < s.packWeights.length := hinv.packWeights ▸ hj
      have hle := hle 0 (s.packWeights.getD j 0) (by rw [List.getD_eq_getElem _ _ hjlen]; exact List.getElem_mem hjlen)
      rw [h.packWeights pack hpack hfree, h.packWeights j hj hlt] at hle
      exact WithTop.coe_le_coe.mp hle
    · rw [hload, if_pos rfl]
    · exact hselfItems.trans (congrArg Nat.succ hcount.symm)
    · exact fun j hj => ⟨by rw [hload, if_neg hj, add_zero], hotherItems j hj⟩

end Packs

section Nodes

variable {numPhy numGpus perGpu : Nat} {r : Replicas}

def nodeGpuLoad (weight : List Rat) (r : Replicas) (perGpu g : Nat) : Rat :=
  ((List.range perGpu).map fun j =>
    share weight (r.phy2log.getD (g * perGpu + j) 0) (r.logcnt.getD (r.phy2log.getD (g * perGpu + j) 0) 0)).sum

end Nodes

section Slots

variable {α β : Type} {row : List α} {n k g i : Nat}

theorem gpuSlots_eq_take : gpuSlots k g row = (row.drop (g * k)).take k := by
  rcases Nat.le_total (g * k) row.length with hle | hge
  · rw [gpuSlots, Py.slice_natCast _ hle, Nat.add_sub_cancel_left]
  · rw [gpuSlots, Py.slice, Py.bound_natCast, Nat.min_eq_right hge, List.drop_eq_nil_of_le hge,
      List.drop_eq_nil_of_le (List.length_take_le' _ _), List.take_nil]

theorem gpuSlots_gpuSlots (hi : i < n) : gpuSlots k i (gpuSlots (n * k) g row) = gpuSlots k (g * n + i) row := by
  have hfit : i * k + k ≤ n * k := block_le hi
  rw [gpuSlots_eq_take, gpuSlots_eq_take, gpuSlots_eq_take, List.drop_take, List.take_take, List.drop_drop,
    Nat.min_eq_left (by omega), Nat.add_mul, Nat.mul_assoc]

theorem mem_gpuSlots_node {x : α} : x ∈ gpuSlots (n * k) g row ↔ ∃ i < n, x ∈ gpuSlots k (g * n + i) row := by
  constructor
  · intro hx
    obtain ⟨t, ht⟩ := List.getElem?_of_mem hx
    have hlt : t < n * k := by
      refine (List.getElem?_eq_some_iff.mp ht).1.trans_le ?_
      rw [gpuSlots_eq_take]
      exact List.length_take_le _ _
    have hk : 0 < k := Nat.pos_of_mul_pos_left (Nat.zero_lt_of_lt hlt)
    have hdiv : t / k < n := Nat.div_lt_of_lt_mul (Nat.mul_comm n k ▸ hlt)
    refine ⟨t / k, hdiv, ?_⟩
    rw [← gpuSlots_gpuSlots hdiv, gpuSlots_eq_take]
    refine List.mem_of_getElem? (i := t % k) ?_
    rw [List.getElem?_take_of_lt (Nat.mod_lt _ hk), List.getElem?_drop, Nat.div_add_mod', ht]
  · rintro ⟨i, hi, hx⟩
    rw [← gpuSlots_gpuSlots hi, gpuSlots_eq_take] at hx
    exact List.mem_of_mem_drop (List.mem_of_mem_take hx)

end Slots

section Layers

variable {numPhy numGroups numNodes numGpus : Nat} {s : Layer}

def nodeRow (weight : List Rat) (σ : List Nat) (perNode node : Nat) : List Rat :=
  (List.range perNode).map fun m => weight.getD (σ.idxOf (node * perNode + m)) 0

structure Layer.NodeOk (weight : List Rat) (σ : List Nat) (perNode gpus perGpu node : Nat) (s : Layer) (r : Replicas) :
    Prop where
  covers : r.Covers perNode (gpus * perGpu)
  greedy : r.Greedy (nodeRow weight σ perNode node)
  level : ∀ m, (∀ e < perNode, share (nodeRow weight σ perNode node) e (r.logcnt.getD e 0) ≤ m) → ∀ g < gpus, ∀ g' < gpus,
    nodeGpuLoad (nodeRow weight σ perNode node) r perGpu g ≤ nodeGpuLoad (nodeRow weight σ perNode node) r perGpu g' + m
  slots : gpuSlots (gpus * perGpu) node s.phy2log = r.phy2log.map fun m => (σ.idxOf (node * perNode + m) : Int)
  logcnt : ∀ m < perNode, s.logcnt.getD (σ.idxOf (node * perNode + m)) 0 = r.logcnt.getD m 0

def experts (numLogical : Nat) (slots : List Int) : List Nat :=
  (List.range numLogical).filter fun e => (e : Int) ∈ slots

def slotsLoad (weight : List Rat) (logcnt : List Nat) (slots : List Int) : Rat :=
  (slots.map fun x => share weight x.toNat (logcnt.getD x.toNat 0)).sum

def nodeExperts (numLogical numNodes node : Nat) (phy2log : List Int) : List Nat :=
  experts numLogical (gpuSlots (phy2log.length / numNodes) node phy2log)

/-- How well one layer is balanced. -/
structure Balanced (weight : List Rat) (numNodes numGpus : Nat) (phy2log : List Int) (logcnt : List Nat) : Prop where
  replicas : ∀ node < numNodes, ∀ count : Nat → Nat,
    (∀ e ∈ nodeExperts weight.length numNodes node phy2log, 0 < count e) →
    ((nodeExperts weight.length numNodes node phy2log).map count).sum ≤ phy2log.length / numNodes →
    ∀ m, (∀ e ∈ nodeExperts weight.length numNodes node phy2log, share weight e (count e) ≤ m) →
      ∀ e ∈ nodeExperts weight.length numNodes node phy2log, share weight e (logcnt.getD e 0) ≤ m
  gpus : ∀ node < numNodes, ∀ m,
    (∀ e ∈ nodeExperts weight.length numNodes node phy2log, share weight e (logcnt.getD e 0) ≤ m) →
    ∀ g < numGpus / numNodes, ∀ g' < numGpus / numNodes,
      slotsLoad weight logcnt (gpuSlots (phy2log.length / numGpus) (node * (numGpus / numNodes) + g) phy2log) ≤
        slotsLoad weight logcnt (gpuSlots (phy2log.length / numGpus) (node * (numGpus / numNodes) + g') phy2log) + m

theorem Replicas.Covers.mem_iff {numLog : Nat} {r : Replicas} (h : r.Covers numLog numPhy) {e : Nat} :
    e ∈ r.phy2log ↔ e < numLog := by
  refine ⟨h.lt, fun he => ?_⟩
  have hlt : e < r.logcnt.length := h.logcnt ▸ he
  have hpos : 0 < r.logcnt.getD e 0 := by
    rw [List.getD_eq_getElem _ _ hlt]
    exact h.pos _ (List.getElem_mem hlt)
  exact (List.of_mem_zip (h.perm.mem_iff.mpr (mem_places.mpr ⟨he, hpos⟩))).1

theorem Replicas.Covers.sum {numLog : Nat} {r : Replicas} (h : r.Covers numLog numPhy) : r.logcnt.sum = numPhy := by
  have hlen := h.perm.length_eq
  rw [List.length_zip, h.phy2log, h.replicaIdx, Nat.min_self, length_places, ← h.logcnt, Numpy.map_getD_range] at hlen
  exact hlen.symm

section Node

variable {σ : List Nat} {perNode gpus perGpu node : Nat} {r : Replicas}

theorem share_nodeRow {m c : Nat} (hm : m < perNode) :
    share (nodeRow weight σ perNode node) m c = share weight (σ.idxOf (node * perNode + m)) c := by
  simp [share, nodeRow, hm]

theorem Layer.NodeOk.slotsLoad (h : s.NodeOk weight σ perNode gpus perGpu node r) {g : Nat} (hg : g < gpus) :
    slotsLoad weight s.logcnt (gpuSlots perGpu (node * gpus + g) s.phy2log) =
      nodeGpuLoad (nodeRow weight σ perNode node) r perGpu g := by
  have hfit : g * perGpu + perGpu ≤ r.phy2log.length := h.covers.phy2log ▸ block_le hg
  have hslots : gpuSlots perGpu g (r.phy2log.map fun m => (σ.idxOf (node * perNode + m) : Int)) =
      (gpuSlots perGpu g r.phy2log).map fun m => (σ.idxOf (node * perNode + m) : Int) := by
    rw [gpuSlots_eq_take, gpuSlots_eq_take, List.map_take, List.map_drop]
  rw [← gpuSlots_gpuSlots hg, h.slots, hslots, gpuSlots_eq 0 hfit, Eplb.slotsLoad, List.map_map, List.map_map]
  refine congrArg List.sum (List.map_congr_left fun j hj => ?_)
  have hj : g * perGpu + j < r.phy2log.length := Nat.lt_of_lt_of_le (Nat.add_lt_add_left (List.mem_range.mp hj) _) hfit
  have hm : r.phy2log.getD (g * perGpu + j) 0 < perNode := by
    rw [List.getD_eq_getElem _ _ hj]
    exact h.covers.lt (List.getElem_mem hj)
  simp only [Function.comp_apply, Int.toNat_natCast]
  rw [share_nodeRow hm, h.logcnt _ hm]

end Node

theorem experts_congr {numLogical : Nat} {slots slots' : List Int} (h : ∀ x, x ∈ slots ↔ x ∈ slots') :
    experts numLogical slots = experts numLogical slots' :=
  List.filter_congr fun e _ => decide_eq_decide.mpr (h e)

theorem Balanced.permute {phy2log : List Int} {ridx logcnt : List Nat} {post : List Int × List Nat}
    (h : Balanced weight numNodes numGpus phy2log logcnt) (hridx : ridx.length = phy2log.length)
    (hpost : PermutesSlots numGpus phy2log ridx post) (hdvd : numNodes ∣ numGpus)
    (hgpus : numGpus ∣ phy2log.length) : Balanced weight numNodes numGpus post.1 logcnt := by
  have hslots : ∀ g < numGpus, (gpuSlots (phy2log.length / numGpus) g post.1).Perm
      (gpuSlots (phy2log.length / numGpus) g phy2log) := by
    intro g hg
    have hmap := (hpost.gpus g hg).map Prod.fst
    simp only [gpuSlots_eq_take, List.map_take, List.map_drop] at hmap ⊢
    rwa [List.map_fst_zip (hpost.fst.trans hpost.snd.symm).le, List.map_fst_zip hridx.ge] at hmap
  have hperNode : phy2log.length / numNodes = numGpus / numNodes * (phy2log.length / numGpus) := by
    conv_lhs => rw [← Nat.mul_div_cancel' hgpus]
    exact Nat.mul_div_right_comm hdvd _
  have hlt : ∀ node < numNodes, ∀ i < numGpus / numNodes, node * (numGpus / numNodes) + i < numGpus :=
    fun node hnode i hi => (place_lt hnode hi).trans_eq (Nat.mul_div_cancel' hdvd)
  have hexperts : ∀ node < numNodes, nodeExperts weight.length numNodes node post.1 =
      nodeExperts weight.length numNodes node phy2log := by
    intro node hnode
    rw [nodeExperts, nodeExperts, hpost.fst, hperNode]
    refine experts_congr fun x => ?_
    rw [mem_gpuSlots_node, mem_gpuSlots_node]
    exact exists_congr fun i => and_congr_right fun hi => (hslots _ (hlt node hnode i hi)).mem_iff
  refine ⟨fun node hnode => ?_, fun node hnode m hm g hg g' hg' => ?_⟩
  · rw [hexperts node hnode, hpost.fst]
    exact h.replicas node hnode
  · rw [hexperts node hnode] at hm
    rw [hpost.fst, slotsLoad, slotsLoad, ((hslots _ (hlt node hnode g hg)).map _).sum_eq,
      ((hslots _ (hlt node hnode g' hg')).map _).sum_eq]
    exact h.gpus node hnode m hm g hg g' hg'

section Rebalance

variable {numLayers numLogical numReplicas numRanks : Nat} {old : Option (Σ n, Array2 Int numLayers n)} {layers : List Layer}

end Rebalance

end Layers

end Vllm.Eplb
