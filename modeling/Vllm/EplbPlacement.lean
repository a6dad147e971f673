import Vllm.EplbPacking

namespace Vllm.Eplb

open Ragged

variable {np : Numpy}

theorem exists_nat_of_perm {l : List Int} {n : Nat}
    (h : l.Perm ((List.range n).map fun k : Nat => (k : Int))) :
    ∃ σ : List Nat, l = σ.map (fun k : Nat => (k : Int)) ∧ σ.Perm (List.range n) := by
  refine ⟨l.map Int.toNat, ?_, ?_⟩
  · rw [List.map_map]
    refine (List.map_id l).symm.trans (List.map_congr_left fun x hx => ?_)
    obtain ⟨k, -, rfl⟩ := List.mem_map.1 (h.mem_iff.1 hx)
    rfl
  · have hmap := h.map Int.toNat
    rw [List.map_map] at hmap
    exact hmap.trans (List.Perm.of_eq (List.map_id _))

theorem idxOf_perm {σ : List Nat} {n : Nat} (h : σ.Perm (List.range n)) :
    ((List.range n).map fun m => σ.idxOf m).Perm (List.range n) := by
  obtain rfl : σ.length = n := by simpa using h.length_eq
  refine (h.symm.map _).trans (List.Perm.of_eq ?_)
  apply List.ext_getElem
  · simp
  · intro i hi _
    rw [List.length_map] at hi
    rw [List.getElem_map, List.getElem_range]
    exact (h.nodup_iff.2 List.nodup_range).idxOf_getElem i hi

theorem inverse_ok {σ : List Nat} {n : Nat} (h : σ.Perm (List.range n)) :
    inverse np (σ.map fun k : Nat => (k : Int)) =
      .ok (((List.range n).map fun m => σ.idxOf m).map fun k : Nat => (k : Int)) := by
  obtain rfl : σ.length = n := by simpa using h.length_eq
  have hempty := np.length_empty σ.length
  obtain ⟨inv, hput, hlen, hmap, -⟩ := @Numpy.put_natCast Int (np.empty σ.length) σ 0
    ((List.range σ.length).map fun k : Nat => (k : Int))
    (fun k hk => by rw [hempty]; exact List.mem_range.1 (h.mem_iff.1 hk))
    (h.nodup_iff.2 List.nodup_range) (by simp)
  rw [inverse, List.length_map, List.map_map]
  refine hput.trans (congrArg Except.ok ?_)
  apply List.ext_getElem
  · rw [hlen, hempty, List.length_map, List.length_range]
  · intro m hm _
    rw [hlen, hempty] at hm
    have hmem := h.mem_iff.2 (List.mem_range.2 hm)
    have hi := List.idxOf_lt_length_iff.2 hmem
    have hget := congrArg (fun l => l.getD (σ.idxOf m) 0) hmap
    simp only [List.getD_eq_getElem?_getD, List.getElem?_map, List.getElem?_eq_getElem hi,
      Option.map_some, Option.getD_some, List.getElem_idxOf, List.getElem?_range hi] at hget
    simpa [hlen, hempty, hm] using hget

theorem zip_map_getD_perm {α β : Type} [Inhabited α] [Inhabited β] {l : List α} {m : List β}
    {τ : List Nat} (hlen : m.length = l.length) (h : τ.Perm (List.range l.length)) :
    ((τ.map fun k => l.getD k default).zip (τ.map fun k => m.getD k default)).Perm (l.zip m) := by
  rw [List.zip_map', zip_eq_map_pairs hlen]
  exact h.map _

theorem Replicas.Covers.lt {numLog numPhy : Nat} {r : Replicas} (h : r.Covers numLog numPhy)
    {e : Nat} (he : e ∈ r.phy2log) : e < numLog := by
  rw [← List.map_fst_zip (h.phy2log.trans h.replicaIdx.symm).le,
    (h.perm.map Prod.fst).mem_iff, List.mem_map] at he
  obtain ⟨⟨i, j⟩, hx, rfl⟩ := he
  exact (mem_places.1 hx).1

theorem rebalanceNode_ok {tokens : List Rat} {numPhy numGpus perGpu : Nat}
    (hpos : 0 < tokens.length) (hle : tokens.length ≤ numPhy) (hgpus : numGpus ≠ 0)
    (hphy : numPhy = numGpus * perGpu) :
    ∃ r, rebalanceNode np numPhy numGpus perGpu tokens = .ok r ∧
      r.Covers tokens.length numPhy := by
  obtain ⟨r, hr, h⟩ := replicateExperts_ok hpos hle
  have hlt : ∀ e ∈ r.phy2log, e < (loads tokens r.logcnt).length := by
    intro e he
    rw [loads, List.length_zipWith, h.logcnt, Nat.min_self]
    exact h.lt he
  have htake := Numpy.take_natCast 0 hlt
  obtain ⟨packs, ranks, hpack, hperm⟩ := @balancedPacking_ok np
    (r.phy2log.map fun e => (loads tokens r.logcnt).getD e 0) _ _ hgpus
    (by rw [List.length_map, h.phy2log, hphy])
  rw [List.length_map] at hperm
  obtain ⟨σ, hσ, hσperm⟩ := exists_nat_of_perm hperm
  have hτ := idxOf_perm hσperm
  have hτlt : ∀ k ∈ (List.range r.phy2log.length).map fun m => σ.idxOf m, k < r.phy2log.length :=
    fun k hk => List.mem_range.1 (hτ.mem_iff.1 hk)
  have hphy2log := Numpy.take_natCast (l := r.phy2log) default hτlt
  have hridx := Numpy.take_natCast (l := r.replicaIdx) default fun k hk =>
    lt_of_lt_of_eq (hτlt k hk) (h.phy2log.trans h.replicaIdx.symm)
  refine ⟨{
    phy2log := ((List.range r.phy2log.length).map σ.idxOf).map fun k => r.phy2log.getD k default
    replicaIdx :=
      ((List.range r.phy2log.length).map σ.idxOf).map fun k => r.replicaIdx.getD k default
    logcnt := r.logcnt }, ?_, ?_⟩
  · simp only [rebalanceNode, hr, Result.ok_bind, htake, hpack, hσ, inverse_ok hσperm, hphy2log,
      hridx]
    rfl
  · refine ⟨by simp [h.phy2log], by simp [h.phy2log], h.logcnt, h.pos, ?_⟩
    exact (zip_map_getD_perm (h.replicaIdx.trans h.phy2log.symm) hτ).trans h.perm

structure Layer.Covers (numLogical numPhy : Nat) (s : Layer) : Prop where
  phy2log : s.phy2log.length = numPhy
  phyReplicasIdx : s.phyReplicasIdx.length = numPhy
  logcnt : s.logcnt.length = numLogical
  pos : ∀ c ∈ s.logcnt, 0 < c
  perm : (s.phy2log.zip s.phyReplicasIdx).Perm
    ((places numLogical fun e => s.logcnt.getD e 0).map fun x => ((x.1 : Int), x.2))

theorem log2mlog_perm {places : List Int} {numGroups groupSize : Nat}
    (h : places.Perm ((List.range numGroups).map fun k : Nat => (k : Int))) :
    (places.flatMap fun place =>
      (List.range groupSize).map fun j : Nat => place * groupSize + (j : Int)).Perm
      ((List.range (numGroups * groupSize)).map fun k : Nat => (k : Int)) := by
  refine (h.flatMap_right _).trans (List.Perm.of_eq ?_)
  rw [← map_places_const, Ragged.places, List.flatMap_map, List.map_flatMap, List.map_flatMap]
  refine List.flatMap_congr fun g _ => ?_
  rw [List.map_map, List.map_map]
  refine List.map_congr_left fun j _ => ?_
  simp

theorem zip_flatMap_nodes {numLog numPhy : Nat} {nodes : List Replicas}
    (h : ∀ r ∈ nodes, r.Covers numLog numPhy) (j : Nat) :
    (((nodes.zipIdx j).flatMap fun node =>
        node.1.phy2log.map fun m => m + node.2 * numLog).zip
      (nodes.flatMap Replicas.replicaIdx)).Perm
    (((nodes.map Replicas.logcnt).zipIdx j).flatMap fun c =>
      (places numLog fun i => c.1.getD i 0).map fun x => (x.1 + c.2 * numLog, x.2)) := by
  induction nodes generalizing j with
  | nil => rfl
  | cons r nodes ih =>
    have hr := h r List.mem_cons_self
    rw [List.zipIdx_cons, List.flatMap_cons, List.flatMap_cons, List.map_cons, List.zipIdx_cons,
      List.flatMap_cons, List.zip_append (by simp [hr.phy2log, hr.replicaIdx])]
    refine List.Perm.append ?_ (ih (fun r hr => h r (List.mem_cons_of_mem _ hr)) (j + 1))
    rw [List.zip_map_left]
    exact hr.perm.map _

theorem length_flatMap_of_forall {α β : Type} {l : List α} {f : α → List β} {k : Nat}
    (h : ∀ a ∈ l, (f a).length = k) : (l.flatMap f).length = l.length * k := by
  induction l with
  | nil => simp
  | cons a l ih =>
    rw [List.flatMap_cons, List.length_append, h a List.mem_cons_self,
      ih fun a ha => h a (List.mem_cons_of_mem _ ha), List.length_cons, Nat.succ_mul, Nat.add_comm]

theorem covers_nodes {numLog numPhy : Nat} {nodes : List Replicas}
    (h : ∀ r ∈ nodes, r.Covers numLog numPhy) :
    Replicas.Covers (nodes.length * numLog) (nodes.length * numPhy)
      { phy2log := nodes.zipIdx.flatMap fun node => node.1.phy2log.map fun m => m + node.2 * numLog
        replicaIdx := nodes.flatMap Replicas.replicaIdx
        logcnt := nodes.flatMap Replicas.logcnt } where
  phy2log := by
    rw [length_flatMap_of_forall (k := numPhy), List.length_zipIdx]
    rintro ⟨r, j⟩ hr
    rw [List.length_map]
    exact (h r (List.fst_mem_of_mem_zipIdx hr)).phy2log
  replicaIdx := length_flatMap_of_forall fun r hr => (h r hr).replicaIdx
  logcnt := length_flatMap_of_forall fun r hr => (h r hr).logcnt
  pos := by
    intro c hc
    obtain ⟨r, hr, hc⟩ := List.mem_flatMap.1 hc
    exact (h r hr).pos c hc
  perm := by
    refine (zip_flatMap_nodes h 0).trans (List.Perm.of_eq ?_)
    rw [flatMap_places, List.length_map]
    · simp [List.flatMap_def]
    · intro c hc
      obtain ⟨r, hr, rfl⟩ := List.mem_map.1 hc
      exact (h r hr).logcnt

theorem Replicas.Covers.relabel {σ : List Nat} {numLog numPhy : Nat} {r : Replicas}
    (h : r.Covers numLog numPhy) (hσ : σ.Perm (List.range numLog)) :
    Layer.Covers numLog numPhy
      { phy2log := r.phy2log.map fun m => (σ.idxOf m : Int)
        phyReplicasIdx := r.replicaIdx
        logcnt := σ.map fun m => r.logcnt.getD m 0 } where
  phy2log := by rw [List.length_map, h.phy2log]
  phyReplicasIdx := h.replicaIdx
  logcnt := by rw [List.length_map, hσ.length_eq, List.length_range]
  pos := by
    intro c hc
    obtain ⟨m, hm, rfl⟩ := List.mem_map.1 hc
    have hlt : m < r.logcnt.length := h.logcnt ▸ List.mem_range.1 (hσ.mem_iff.1 hm)
    rw [List.getD_eq_getElem _ _ hlt]
    exact h.pos _ (List.getElem_mem hlt)
  perm := by
    obtain rfl : σ.length = numLog := by simpa using hσ.length_eq
    rw [List.zip_map_left]
    refine ((h.perm.trans (places_perm_relabel hσ _)).map _).trans (List.Perm.of_eq ?_)
    have hcount : ∀ e < σ.length,
        (σ.map fun m => r.logcnt.getD m 0).getD e 0 = r.logcnt.getD (σ.getD e 0) 0 := by
      intro e he
      rw [List.getD_eq_getElem _ _ (by rwa [List.length_map]), List.getElem_map,
        List.getD_eq_getElem _ _ he]
    rw [places_congr hcount, List.map_map]
    refine List.map_congr_left fun x hx => ?_
    have hx := (mem_places.1 hx).1
    simp only [Function.comp_apply, Prod.map, id]
    rw [List.getD_eq_getElem _ _ hx, (hσ.nodup_iff.2 List.nodup_range).idxOf_getElem]

section Layer

variable {weight : List Rat} {numPhy numGroups numNodes numGpus : Nat}

structure Sizes (numLogical numPhy numGroups numNodes numGpus : Nat) : Prop where
  groups_pos : numGroups ≠ 0
  nodes_pos : numNodes ≠ 0
  gpus_pos : numGpus ≠ 0
  groups_dvd : numGroups ∣ numLogical
  nodes_dvd_groups : numNodes ∣ numGroups
  nodes_dvd_gpus : numNodes ∣ numGpus
  gpus_dvd : numGpus ∣ numPhy
  pos : 0 < numLogical

theorem Sizes.nodes {numLogical : Nat} (h : Sizes numLogical numPhy numGroups numNodes numGpus) :
    numLogical = numNodes * (numLogical / numNodes) ∧ 0 < numLogical / numNodes ∧
      numGpus / numNodes ≠ 0 ∧ numPhy / numNodes = numGpus / numNodes * (numPhy / numGpus) := by
  have hlog : numNodes ∣ numLogical := h.nodes_dvd_groups.trans h.groups_dvd
  refine ⟨(Nat.mul_div_cancel' hlog).symm, ?_, ?_, ?_⟩
  · exact Nat.div_pos (Nat.le_of_dvd h.pos hlog) (Nat.pos_of_ne_zero h.nodes_pos)
  · exact (Nat.div_pos (Nat.le_of_dvd (Nat.pos_of_ne_zero h.gpus_pos) h.nodes_dvd_gpus)
      (Nat.pos_of_ne_zero h.nodes_pos)).ne'
  · obtain ⟨a, rfl⟩ := h.nodes_dvd_gpus
    obtain ⟨b, rfl⟩ := h.gpus_dvd
    have hnode : 0 < numNodes := Nat.pos_of_ne_zero h.nodes_pos
    rw [Nat.mul_div_cancel_left _ (Nat.pos_of_ne_zero h.gpus_pos), Nat.mul_div_cancel_left _ hnode,
      Nat.mul_assoc, Nat.mul_div_cancel_left _ hnode]

theorem groups_ok (h : Sizes weight.length numPhy numGroups numNodes numGpus) :
    ∃ (packs ranks : List Int) (σ : List Nat),
      balancedPacking np ((Numpy.rows numGroups (weight.length / numGroups) weight).map List.sum)
        numNodes = .ok (packs, ranks) ∧
      (packed (numGroups / numNodes) packs ranks).flatMap (fun place =>
        (List.range (weight.length / numGroups)).map fun j : Nat =>
          place * (weight.length / numGroups : Nat) + (j : Int)) =
        σ.map (fun k : Nat => (k : Int)) ∧
      σ.Perm (List.range weight.length) := by
  obtain ⟨packs, ranks, hpack, hperm⟩ := @balancedPacking_ok np
    ((Numpy.rows numGroups (weight.length / numGroups) weight).map List.sum) _
    (numGroups / numNodes) h.nodes_pos
    (by rw [List.length_map, Numpy.length_rows, Nat.mul_div_cancel' h.nodes_dvd_groups])
  rw [List.length_map, Numpy.length_rows] at hperm
  have hlog := @log2mlog_perm _ _ (weight.length / numGroups) hperm
  rw [Nat.mul_div_cancel' h.groups_dvd] at hlog
  obtain ⟨σ, hσ, hσperm⟩ := exists_nat_of_perm hlog
  exact ⟨packs, ranks, σ, hpack, hσ, hσperm⟩

theorem take_idxOf_ok {σ : List Nat} (h : σ.Perm (List.range weight.length)) :
    Numpy.take weight
      (((List.range weight.length).map fun m => σ.idxOf m).map fun k : Nat => (k : Int)) =
      .ok (((List.range weight.length).map fun m => σ.idxOf m).map fun k => weight.getD k 0) :=
  Numpy.take_natCast 0 fun _ hk => List.mem_range.1 ((idxOf_perm h).mem_iff.1 hk)

theorem rebalanceLayer_ok (h : Sizes weight.length numPhy numGroups numNodes numGpus)
    (hle : weight.length ≤ numPhy) :
    ∃ s, rebalanceLayer np numPhy numGroups numNodes numGpus weight = .ok s ∧
      s.Covers weight.length numPhy := by
  obtain ⟨hnodes, hnodepos, hgpus, hphy⟩ := h.nodes
  obtain ⟨packs, ranks, σ, hpack, hσ, hσperm⟩ := @groups_ok np _ _ _ _ _ h
  -- steps 2 and 3: every node on its own
  obtain ⟨nodes, hmap, hlen, hcovers⟩ := Result.mapM_ok
    (f := rebalanceNode np (numPhy / numNodes) (numGpus / numNodes) (numPhy / numGpus))
    (l := Numpy.rows numNodes (weight.length / numNodes)
      (((List.range weight.length).map fun m => σ.idxOf m).map fun k => weight.getD k 0))
    (P := fun r => r.Covers (weight.length / numNodes) (numPhy / numNodes))
    (by
      intro row hrow
      have hrowlen := Numpy.length_of_mem_rows (by simp [← hnodes]) hrow
      rw [← hrowlen]
      exact rebalanceNode_ok (hrowlen ▸ hnodepos) (hrowlen ▸ Nat.div_le_div_right hle) hgpus hphy)
  rw [Numpy.length_rows] at hlen
  have hall := covers_nodes hcovers
  rw [hlen, ← hnodes, Nat.mul_div_cancel' (h.nodes_dvd_gpus.trans h.gpus_dvd)] at hall
  have hphy2log : Numpy.take
      (((List.range weight.length).map fun m => σ.idxOf m).map fun k : Nat => (k : Int))
      (nodes.zipIdx.flatMap fun node => node.1.phy2log.map fun m =>
        ((m + node.2 * (weight.length / numNodes) : Nat) : Int)) =
      .ok ((nodes.zipIdx.flatMap fun node => node.1.phy2log.map fun m =>
        m + node.2 * (weight.length / numNodes)).map fun m => (σ.idxOf m : Int)) := by
    have hcast := Numpy.take_natCast
      (l := ((List.range weight.length).map fun m => σ.idxOf m).map fun k : Nat => (k : Int)) 0
      fun m hm => by
        rw [List.length_map, List.length_map, List.length_range]
        exact hall.lt hm
    simp only [List.map_flatMap, List.map_map] at hcast ⊢
    refine hcast.trans (congrArg Except.ok (List.flatMap_congr fun node hnode => ?_))
    refine List.map_congr_left fun m hm => ?_
    have hlt := hall.lt (List.mem_flatMap.2 ⟨node, hnode, List.mem_map_of_mem hm⟩)
    simp [hlt]
  have hlogcnt := @Numpy.take_natCast Nat _ σ 0 fun m hm =>
    lt_of_lt_of_eq (List.mem_range.1 (hσperm.mem_iff.1 hm)) hall.logcnt.symm
  refine ⟨_, ?_, hall.relabel hσperm⟩
  simp only [rebalanceLayer, hpack, Result.ok_bind, hσ, inverse_ok hσperm, take_idxOf_ok hσperm,
    hmap, hphy2log, hlogcnt]
  rfl

theorem le_of_rebalanceLayer_ok (h : Sizes weight.length numPhy numGroups numNodes numGpus)
    {s : Layer} (hok : rebalanceLayer np numPhy numGroups numNodes numGpus weight = .ok s) :
    weight.length ≤ numPhy := by
  obtain ⟨hnodes, -⟩ := h.nodes
  obtain ⟨packs, ranks, σ, hpack, hσ, hσperm⟩ := @groups_ok np _ _ _ _ _ h
  simp only [rebalanceLayer, hpack, Result.ok_bind, hσ, inverse_ok hσperm, take_idxOf_ok hσperm,
    Result.bind_eq_ok] at hok
  obtain ⟨nodes, hmap, -⟩ := hok
  obtain ⟨n, rfl⟩ := Nat.exists_eq_succ_of_ne_zero h.nodes_pos
  rw [Numpy.rows, List.mapM_cons] at hmap
  simp only [Result.bind_eq_ok, rebalanceNode, replicateExperts, Result.ensure_eq_ok] at hmap
  obtain ⟨r, ⟨r', ⟨-, hle, -⟩, -⟩, -⟩ := hmap
  rw [List.length_take, List.length_map, List.length_map, List.length_range,
    Nat.min_eq_left (Nat.div_le_self _ _)] at hle
  calc weight.length = (n + 1) * (weight.length / (n + 1)) := hnodes
    _ ≤ (n + 1) * (numPhy / (n + 1)) := Nat.mul_le_mul_left _ hle
    _ ≤ numPhy := Nat.mul_div_le _ _

end Layer

end Vllm.Eplb
