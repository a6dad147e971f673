import Vllm.EplbSlots
import Mathlib.Data.List.Count

namespace Vllm.Eplb

open Ragged

variable {np : Numpy}

def slotOf (l : List (Int × Nat)) (e k : Nat) : Int :=
  if ((e : Int), k) ∈ l then l.idxOf ((e : Int), k) else -1

def slotTable (numLogical maxlogcnt : Nat) (l : List (Int × Nat)) : List (List Int) :=
  (List.range numLogical).map fun e => (List.range maxlogcnt).map fun k => slotOf l e k

section Table

variable {numLogical maxlogcnt : Nat} {l : List (Int × Nat)} {e k : Nat}

theorem slotOf_append (h : ((e : Int), k) ∉ l) (e' k' : Nat) :
    slotOf (l ++ [((e : Int), k)]) e' k' =
      if e' = e ∧ k' = k then (l.length : Int) else slotOf l e' k' := by
  by_cases heq : e' = e ∧ k' = k
  · obtain ⟨rfl, rfl⟩ := heq
    simp [slotOf, List.idxOf_append_of_notMem h]
  · have hne : ((e' : Int), k') ≠ ((e : Int), k) := by
      intro h
      rw [Prod.mk.injEq, Int.ofNat_inj] at h
      exact heq h
    rw [if_neg heq, slotOf, slotOf]
    by_cases hmem : ((e' : Int), k') ∈ l
    · rw [if_pos (List.mem_append_left _ hmem), if_pos hmem, List.idxOf_append_of_mem hmem]
    · rw [if_neg hmem, if_neg]
      rw [List.mem_append, List.mem_singleton]
      exact not_or.2 ⟨hmem, hne⟩

theorem slotTable_append (he : e < numLogical) (h : ((e : Int), k) ∉ l) :
    slotTable numLogical maxlogcnt (l ++ [((e : Int), k)]) =
      (slotTable numLogical maxlogcnt l).set e
        (((List.range maxlogcnt).map fun k' => slotOf l e k').set k (l.length : Int)) := by
  apply List.ext_getElem
  · simp [slotTable]
  · intro e' he' _
    by_cases hee : e' = e
    · subst hee
      rw [List.getElem_set_self]
      apply List.ext_getElem
      · simp [slotTable]
      · intro k' hk' _
        by_cases hkk : k' = k
        · subst hkk
          rw [List.getElem_set_self]
          simp [slotTable, slotOf_append h]
        · rw [List.getElem_set_ne (Ne.symm hkk)]
          simp [slotTable, slotOf_append h, hkk]
    · rw [List.getElem_set_ne (Ne.symm hee)]
      simp [slotTable, slotOf_append h, hee]

theorem log2phyRow_eq {phy2log : List Int} {phyReplicasIdx : List Nat}
    (hnodup : (phy2log.zip phyReplicasIdx).Nodup)
    (hmem : ∀ x ∈ phy2log.zip phyReplicasIdx, ∃ e < numLogical, x.1 = (e : Int) ∧ x.2 < maxlogcnt) :
    log2phyRow numLogical maxlogcnt phy2log phyReplicasIdx =
      .ok (slotTable numLogical maxlogcnt (phy2log.zip phyReplicasIdx)) := by
  generalize hps : phy2log.zip phyReplicasIdx = ps at hnodup hmem
  obtain ⟨table, htable, rfl⟩ := Result.foldlM_inv (l := ps.zipIdx)
    (f := fun (table : List (List Int)) (x : (Int × Nat) × Nat) => do
      let row ← Numpy.item table x.1.1
      let row ← Numpy.setItem row x.1.2 x.2
      Numpy.setItem table x.1.1 row)
    (b := List.replicate numLogical (List.replicate maxlogcnt (-1)))
    (I := fun done table => table = slotTable numLogical maxlogcnt (done.map Prod.fst))
    (by
      rintro done ⟨⟨i, k⟩, slot⟩ todo table hl rfl
      have hsplit : ps = done.map Prod.fst ++ (i, k) :: todo.map Prod.fst := by
        have := congrArg (List.map Prod.fst) hl
        rwa [List.zipIdx_map_fst, List.map_append, List.map_cons] at this
      have hslot : slot = (done.map Prod.fst).length := by
        have hget : ps.zipIdx[done.length]? = some ((i, k), slot) := by
          rw [hl]
          simp
        rw [List.getElem?_zipIdx, Option.map_eq_some_iff] at hget
        obtain ⟨x, -, hx⟩ := hget
        rw [List.length_map, ← (Prod.mk.inj hx).2, Nat.zero_add]
      obtain ⟨e, he, rfl, hk⟩ := hmem (i, k) (hsplit ▸ by simp)
      have hitem : Numpy.item (slotTable numLogical maxlogcnt (done.map Prod.fst)) (e : Int) =
          .ok ((List.range maxlogcnt).map fun k' => slotOf (done.map Prod.fst) e k') := by
        rw [Numpy.item_natCast [] (by simpa [slotTable] using he)]
        simp [slotTable, he]
      refine ⟨_, ?_, rfl⟩
      rw [hitem, Result.ok_bind, Numpy.setItem_natCast _ (by simpa using hk), Result.ok_bind,
        Numpy.setItem_natCast _ (by simpa [slotTable] using he), List.map_append, List.map_singleton,
        slotTable_append he (Result.notMem_done hsplit hnodup), hslot])
    (by simp [slotTable, slotOf, List.map_const'])
  rw [log2phyRow, hps, htable, List.zipIdx_map_fst]

end Table

/-- A valid assignment of the slots of one layer. -/
structure Placement.Valid (numLogical numReplicas : Nat) (p : Placement) : Prop where
  length_phy2log : p.phy2log.length = numReplicas
  length_logcnt : p.logcnt.length = numLogical
  length_log2phy : p.log2phy.length = numLogical
  expert : ∀ x ∈ p.phy2log, ∃ e < numLogical, x = (e : Int)
  covered : ∀ e < numLogical, (e : Int) ∈ p.phy2log
  count : ∀ e < numLogical, p.phy2log.count (e : Int) = p.logcnt.getD e 0
  sum : p.logcnt.sum = numReplicas
  listed : ∀ e < numLogical, ∀ x ∈ p.log2phy.getD e [],
    x = -1 ∨ ∃ slot : Nat, x = (slot : Int) ∧ p.phy2log[slot]? = some (e : Int)
  once : ∀ slot < numReplicas, p.log2phy.flatten.count (slot : Int) = 1

theorem add_length_le_sum {l : List Nat} (h : ∀ c ∈ l, 0 < c) {c : Nat} (hc : c ∈ l) :
    c + l.length ≤ l.sum + 1 := by
  have hperm := List.perm_cons_erase hc
  have hsum := hperm.sum_eq
  have hlength := hperm.length_eq
  have hle := List.length_le_sum_of_one_le (l.erase c) fun d hd => h d (List.mem_of_mem_erase hd)
  rw [List.sum_cons] at hsum
  rw [List.length_cons] at hlength
  omega

namespace Layer.Covers

variable {numLogical numPhy : Nat} {s : Layer}

theorem sum (h : s.Covers numLogical numPhy) : s.logcnt.sum = numPhy := by
  have hlen := h.perm.length_eq
  rw [List.length_zip, h.phy2log, h.phyReplicasIdx, Nat.min_self, List.length_map, length_places,
    ← h.logcnt, Numpy.map_getD_range] at hlen
  exact hlen.symm

theorem map_fst (h : s.Covers numLogical numPhy) :
    s.phy2log.Perm (((places numLogical fun e => s.logcnt.getD e 0).map Prod.fst).map
      fun e : Nat => (e : Int)) := by
  have hmap := h.perm.map Prod.fst
  rw [List.map_fst_zip (h.phy2log.trans h.phyReplicasIdx.symm).le, List.map_map] at hmap
  rw [List.map_map]
  exact hmap

theorem count (h : s.Covers numLogical numPhy) {e : Nat} (he : e < numLogical) :
    s.phy2log.count (e : Int) = s.logcnt.getD e 0 := by
  have hinj : Function.Injective fun e : Nat => (e : Int) := fun _ _ => Int.ofNat_inj.1
  have hcount := List.count_map_of_injective
    ((places numLogical fun e => s.logcnt.getD e 0).map Prod.fst) _ hinj e
  rw [h.map_fst.count_eq, hcount, count_fst_places, if_pos he]

theorem nodup (h : s.Covers numLogical numPhy) : (s.phy2log.zip s.phyReplicasIdx).Nodup := by
  refine h.perm.nodup_iff.2 ((nodup_places _ _).map fun x y hxy => ?_)
  obtain ⟨h₁, h₂⟩ := Prod.mk.inj hxy
  exact Prod.ext (Int.ofNat_inj.1 h₁) h₂

theorem mem_zip (h : s.Covers numLogical numPhy) {x : Int × Nat}
    (hx : x ∈ s.phy2log.zip s.phyReplicasIdx) :
    ∃ e < numLogical, x.1 = (e : Int) ∧ x.2 < numPhy - numLogical + 1 := by
  rw [h.perm.mem_iff, List.mem_map] at hx
  obtain ⟨⟨e, k⟩, hek, rfl⟩ := hx
  obtain ⟨he, hk⟩ := mem_places.1 hek
  have hlt : e < s.logcnt.length := h.logcnt ▸ he
  rw [List.getD_eq_getElem _ _ hlt] at hk
  have hle := add_length_le_sum h.pos (List.getElem_mem hlt)
  rw [h.sum, h.logcnt] at hle
  exact ⟨e, he, rfl, by simp only; omega⟩

theorem permute (h : s.Covers numLogical numPhy) {numRanks : Nat} {post : List Int × List Nat}
    (hpost : PermutesSlots numRanks s.phy2log s.phyReplicasIdx post) :
    Layer.Covers numLogical numPhy { s with phy2log := post.1, phyReplicasIdx := post.2 } :=
  ⟨hpost.fst.trans h.phy2log, hpost.snd.trans h.phy2log, h.logcnt, h.pos, hpost.perm.trans h.perm⟩

end Layer.Covers

theorem count_slotTable {numLogical maxlogcnt : Nat} {l : List (Int × Nat)} (hnodup : l.Nodup)
    (hmem : ∀ x ∈ l, ∃ e < numLogical, x.1 = (e : Int) ∧ x.2 < maxlogcnt) {slot : Nat}
    (hslot : slot < l.length) :
    (slotTable numLogical maxlogcnt l).flatten.count (slot : Int) = 1 := by
  obtain ⟨e, he, he', hk⟩ := hmem l[slot] (List.getElem_mem hslot)
  have hflat : (slotTable numLogical maxlogcnt l).flatten =
      (places numLogical fun _ => maxlogcnt).map fun x => slotOf l x.1 x.2 := by
    rw [slotTable, places, List.map_flatMap, ← List.flatMap_def]
    simp only [List.map_map]
    rfl
  have hiff : ∀ x ∈ places numLogical fun _ => maxlogcnt,
      ((slotOf l x.1 x.2 == (slot : Int)) = true ↔ (x == (e, l[slot].2)) = true) := by
    rintro ⟨e', k'⟩ -
    rw [beq_iff_eq, beq_iff_eq, slotOf]
    have hself : ((e : Int), l[slot].2) = l[slot] := by rw [← he']
    constructor
    · intro h
      split at h
      · rename_i hin
        have hidx : l.idxOf ((e' : Int), k') = slot := by exact_mod_cast h
        have hget := List.getElem_idxOf (List.idxOf_lt_length_iff.2 hin)
        simp only [hidx] at hget
        rw [← hself, Prod.mk.injEq, Int.ofNat_inj] at hget
        exact Prod.ext hget.1.symm hget.2.symm
      · omega
    · intro h
      obtain ⟨rfl, rfl⟩ := Prod.mk.inj h
      rw [hself, if_pos (List.getElem_mem hslot), hnodup.idxOf_getElem]
  rw [hflat, List.count, List.countP_map]
  exact (List.countP_congr hiff).trans
    (List.count_eq_one_of_mem (nodup_places _ _) (mem_places.2 ⟨he, hk⟩))

theorem Layer.Covers.valid {numLogical numReplicas : Nat} {s : Layer}
    (h : s.Covers numLogical numReplicas) :
    ∃ p, s.placement numLogical (numReplicas - numLogical + 1) = .ok p ∧
      p.Valid numLogical numReplicas := by
  have hmem := fun x hx => h.mem_zip (x := x) hx
  refine ⟨_, by rw [Layer.placement, log2phyRow_eq h.nodup hmem]; rfl, h.phy2log, h.logcnt, by simp [slotTable], ?_, ?_,
    fun e he => h.count he, h.sum, ?_, ?_⟩
  · intro x hx
    rw [h.map_fst.mem_iff, List.mem_map] at hx
    obtain ⟨e, he, rfl⟩ := hx
    obtain ⟨⟨e, k⟩, hek, rfl⟩ := List.mem_map.1 he
    exact ⟨e, (mem_places.1 hek).1, rfl⟩
  · intro e he
    rw [← List.count_pos_iff, h.count he, List.getD_eq_getElem _ _ (h.logcnt ▸ he)]
    exact h.pos _ (List.getElem_mem _)
  · intro e he x hx
    have hrow : (slotTable numLogical (numReplicas - numLogical + 1)
        (s.phy2log.zip s.phyReplicasIdx)).getD e [] =
        (List.range (numReplicas - numLogical + 1)).map
          fun k => slotOf (s.phy2log.zip s.phyReplicasIdx) e k := by
      simp [slotTable, he]
    rw [hrow, List.mem_map] at hx
    obtain ⟨k, -, rfl⟩ := hx
    rw [slotOf]
    split
    · rename_i hin
      refine .inr ⟨_, rfl, ?_⟩
      have hget := List.getElem?_idxOf hin
      rw [List.getElem?_zip_eq_some] at hget
      exact hget.1
    · exact .inl rfl
  · intro slot hslot
    refine count_slotTable h.nodup hmem ?_
    rwa [List.length_zip, h.phy2log, h.phyReplicasIdx, Nat.min_self]

section Rebalance

variable {numLayers numLogical : Nat} {weight : Array2 Rat numLayers numLogical}
  {numReplicas numGroups numNodes numRanks : Nat} {layers : List Layer}

theorem rebalanceExpertsHierarchical_ok
    (h : Sizes numLogical numReplicas numGroups numNodes numRanks) (hle : numLogical ≤ numReplicas)
    (hlayers : numLayers ≠ 0) :
    ∃ layers, rebalanceExpertsHierarchical np weight numReplicas numGroups numNodes numRanks =
        .ok layers ∧
      layers.length = numLayers ∧ ∀ s ∈ layers, s.Covers numLogical numReplicas := by
  obtain ⟨layers, hok, hlen, hall⟩ := Result.mapM_ok
    (f := rebalanceLayer np numReplicas numGroups numNodes numRanks) (l := weight.rows)
    (P := fun s => s.Covers numLogical numReplicas) fun row hrow => by
      have hrow := weight.length_row row hrow
      subst hrow
      exact rebalanceLayer_ok h hle
  refine ⟨layers, ?_, hlen.trans weight.length_rows, hall⟩
  simp only [rebalanceExpertsHierarchical, assertDivides_eq_ok.2 ⟨h.groups_pos, h.groups_dvd⟩,
    assertDivides_eq_ok.2 ⟨h.nodes_pos, h.nodes_dvd_groups⟩,
    assertDivides_eq_ok.2 ⟨h.nodes_pos, h.nodes_dvd_gpus⟩,
    assertDivides_eq_ok.2 ⟨h.gpus_pos, h.gpus_dvd⟩, Result.ok_bind, if_neg h.pos.ne',
    if_neg hlayers]
  exact hok

theorem sizes_of_ok
    (h : rebalanceExpertsHierarchical np weight numReplicas numGroups numNodes numRanks =
      .ok layers) :
    Sizes numLogical numReplicas numGroups numNodes numRanks ∧ numLogical ≤ numReplicas ∧
      numLayers ≠ 0 := by
  simp only [rebalanceExpertsHierarchical, Result.bind_eq_ok] at h
  obtain ⟨_, h₁, _, h₂, _, h₃, _, h₄, h⟩ := h
  rw [assertDivides_eq_ok] at h₁ h₂ h₃ h₄
  split at h
  · simp at h
  · rename_i hpos
    split at h
    · simp at h
    · rename_i hlayers
      have hsizes : Sizes numLogical numReplicas numGroups numNodes numRanks :=
        ⟨h₁.1, h₂.1, h₄.1, h₁.2, h₂.2, h₃.2, h₄.2, Nat.pos_of_ne_zero hpos⟩
      refine ⟨hsizes, ?_, hlayers⟩
      obtain ⟨row, rows, hrows⟩ := List.exists_cons_of_ne_nil
        (List.ne_nil_of_length_pos (weight.length_rows ▸ Nat.pos_of_ne_zero hlayers))
      rw [hrows, List.mapM_cons] at h
      simp only [Result.bind_eq_ok] at h
      obtain ⟨s, hs, -⟩ := h
      have hrow := weight.length_row row (hrows ▸ List.mem_cons_self)
      subst hrow
      exact le_of_rebalanceLayer_ok hsizes hs

variable {old : Option (Σ n, Array2 Int numLayers n)} {placements : List Placement}

theorem reorderLayers_covers (hlen : layers.length = numLayers)
    (hall : ∀ s ∈ layers, s.Covers numLogical numReplicas) {layers' : List Layer}
    (h : reorderLayers np numRanks layers old = .ok layers') :
    layers'.length = numLayers ∧ ∀ s ∈ layers', s.Covers numLogical numReplicas := by
  cases old with
  | none =>
    cases h
    exact ⟨hlen, hall⟩
  | some old =>
    obtain ⟨hlen', hmem⟩ := Result.of_mapM_ok h
    refine ⟨?_, fun s' hs' => ?_⟩
    · rw [hlen', List.length_zip, hlen, old.2.length_rows, Nat.min_self]
    · obtain ⟨⟨s, row⟩, hs, hok⟩ := hmem s' hs'
      simp only [Result.bind_eq_ok, Prod.exists, Result.pure_eq_ok] at hok
      obtain ⟨phy2log, phyReplicasIdx, hpost, rfl⟩ := hok
      have hcovers := hall s (List.of_mem_zip hs).1
      exact hcovers.permute
        (preserveIntragpuSlots_permutes (hcovers.phyReplicasIdx.trans hcovers.phy2log.symm) hpost)

theorem reorderLayers_ok (hall : ∀ s ∈ layers, s.Covers numLogical numReplicas)
    (hold : ∀ o ∈ old, numReplicas ≤ o.1) :
    ∃ layers', reorderLayers np numRanks layers old = .ok layers' := by
  cases old with
  | none => exact ⟨layers, rfl⟩
  | some old =>
    refine (Result.mapM_ok (P := fun _ => True) (l := layers.zip old.2.rows) ?_).imp fun layers' hok => hok.1
    rintro ⟨s, row⟩ hs
    obtain ⟨hs, hrow⟩ := List.of_mem_zip hs
    have hcovers := hall s hs
    have hlen := old.2.length_row row hrow
    obtain ⟨post, hpost⟩ := @preserveIntragpuSlots_ok np _ row _ numRanks
      (hcovers.phyReplicasIdx.trans hcovers.phy2log.symm)
      (by rw [hcovers.phy2log, hlen]; exact hold old rfl)
    exact ⟨_, by rw [hpost]; rfl, trivial⟩

/-- The sizes that the policy admits: where the nodes do not divide the groups, it works with one
group and one node. -/
def Admitted (numLayers numLogical numReplicas numGroups numNodes numRanks : Nat) : Prop :=
  numLayers ≠ 0 ∧ numLogical ≤ numReplicas ∧ numNodes ≠ 0 ∧
    if numGroups % numNodes = 0 then Sizes numLogical numReplicas numGroups numNodes numRanks
    else Sizes numLogical numReplicas 1 1 numRanks

theorem valid_of_covers (hlen : layers.length = numLayers)
    (hall : ∀ s ∈ layers, s.Covers numLogical numReplicas)
    (h : (do
      let layers ← reorderLayers np numRanks layers old
      layers.mapM (Layer.placement numLogical (numReplicas - numLogical + 1))) = .ok placements) :
    placements.length = numLayers ∧ ∀ p ∈ placements, p.Valid numLogical numReplicas := by
  rw [Result.bind_eq_ok] at h
  obtain ⟨layers', hreorder, hmap⟩ := h
  obtain ⟨hlen', hall'⟩ := reorderLayers_covers hlen hall hreorder
  obtain ⟨hlength, hmem⟩ := Result.of_mapM_ok hmap
  refine ⟨hlength.trans hlen', fun p hp => ?_⟩
  obtain ⟨s, hs, hok⟩ := hmem p hp
  obtain ⟨p', hok', hvalid⟩ := (hall' s hs).valid
  obtain rfl := Except.ok.inj (hok.symm.trans hok')
  exact hvalid

theorem placements_ok (hall : ∀ s ∈ layers, s.Covers numLogical numReplicas)
    (hlen : layers.length = numLayers) (hold : ∀ o ∈ old, numReplicas ≤ o.1) :
    ∃ placements, (do
      let layers ← reorderLayers np numRanks layers old
      layers.mapM (Layer.placement numLogical (numReplicas - numLogical + 1))) =
        .ok placements := by
  obtain ⟨layers', hreorder⟩ := @reorderLayers_ok np _ _ _ numRanks _ _ hall hold
  obtain ⟨-, hall'⟩ := reorderLayers_covers hlen hall hreorder
  obtain ⟨placements, hok, -⟩ := Result.mapM_ok fun s hs => (hall' s hs).valid
  exact ⟨placements, by rw [hreorder, Result.ok_bind, hok]⟩

end Rebalance

/-- Every result of `rebalance_experts` is a valid assignment, there is one for all sizes that the
policy admits, and keeping old slots only permutes the slots of each GPU. -/
theorem rebalanceExperts_valid {numLayers numLogical : Nat} (np : Numpy)
    (weight : Array2 Rat numLayers numLogical) (numReplicas numGroups numNodes numRanks : Nat)
    (old : Option (Σ n, Array2 Int numLayers n)) :
    (∀ placements, rebalanceExperts np weight numReplicas numGroups numNodes numRanks old =
        .ok placements →
      placements.length = numLayers ∧ ∀ p ∈ placements, p.Valid numLogical numReplicas) ∧
    (Admitted numLayers numLogical numReplicas numGroups numNodes numRanks →
      (∀ o ∈ old, numReplicas ≤ o.1) →
      ∃ placements, rebalanceExperts np weight numReplicas numGroups numNodes numRanks old =
        .ok placements) ∧
    (∀ (phy2log oldPhy2log : List Int) (phyReplicasIdx : List Nat) (post : List Int × List Nat),
      phyReplicasIdx.length = phy2log.length →
      preserveIntragpuSlots np phy2log phyReplicasIdx numRanks oldPhy2log = .ok post →
      PermutesSlots numRanks phy2log phyReplicasIdx post) := by
  refine ⟨fun placements h => ?_, fun hadmit hold => ?_,
    fun _ _ _ _ hlen h => preserveIntragpuSlots_permutes hlen h⟩
  · simp only [rebalanceExperts] at h
    rw [Result.bind_eq_ok] at h
    obtain ⟨hierarchical, -, h⟩ := h
    split at h
    all_goals
      rw [Result.bind_eq_ok] at h
      obtain ⟨layers, hlayers, h⟩ := h
      obtain ⟨hsizes, hle, hpos⟩ := sizes_of_ok hlayers
      obtain ⟨layers', hok, hlen, hall⟩ :=
        @rebalanceExpertsHierarchical_ok np _ _ weight _ _ _ _ hsizes hle hpos
      obtain rfl := Except.ok.inj (hlayers.symm.trans hok)
      exact valid_of_covers hlen hall h
  · obtain ⟨hpos, hle, hnodes, hsizes⟩ := hadmit
    simp only [rebalanceExperts, divides, if_neg hnodes, Result.ok_bind]
    split at hsizes
    all_goals
      rename_i hmod
      obtain ⟨layers, hok, hlen, hall⟩ :=
        @rebalanceExpertsHierarchical_ok np _ _ weight _ _ _ _ hsizes hle hpos
      simp only [hmod, decide_true, decide_false, if_true, Bool.false_eq_true, if_false]
      rw [hok, Result.ok_bind]
      exact placements_ok hall hlen hold

def twoExperts : Array2 Rat 1 2 := ⟨[[3, 1]], rfl, by simp⟩

def oldSlots : Array2 Int 1 4 := ⟨[[0, 1, 1, 0]], rfl, by simp⟩

theorem rebalanceExperts_twoExperts : ∃ placements,
    rebalanceExperts Numpy.insertion twoExperts 4 1 1 2 (some ⟨4, oldSlots⟩) = .ok placements ∧
      placements.length = 1 ∧ ∀ p ∈ placements, p.Valid 2 4 := by
  obtain ⟨hvalid, htotal, -⟩ := rebalanceExperts_valid Numpy.insertion twoExperts 4 1 1 2
    (some ⟨4, oldSlots⟩)
  obtain ⟨placements, hok⟩ := htotal
    ⟨by decide, by decide, by decide, by
      rw [if_pos (by decide)]
      exact ⟨by decide, by decide, by decide, by decide, by decide, by decide, by decide, by decide⟩⟩
    (by
      rintro o ⟨⟩
      exact Nat.le_refl 4)
  exact ⟨placements, hok, hvalid placements hok⟩

end Vllm.Eplb
