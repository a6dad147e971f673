import Vllm.Eplb
import Mathlib.Tactic.Ring

namespace Vllm.Eplb

open Ragged

def pairs {α β : Type} [Inhabited α] [Inhabited β] (l : List α) (m : List β) (k : Nat) : α × β :=
  (l.getD k default, m.getD k default)

section Pairs

variable {α β : Type} [Inhabited α] [Inhabited β] {l : List α} {m : List β} {i j : Nat}
  {a : α} {b : β}

theorem zip_eq_map_pairs (h : m.length = l.length) :
    l.zip m = (List.range l.length).map (pairs l m) := by
  rw [List.zip_eq_zipWith, Numpy.zipWith_eq_map_range _ default default h]
  rfl

theorem pairs_set_self (hl : i < l.length) (hm : i < m.length) :
    pairs (l.set i a) (m.set i b) i = (a, b) := by
  rw [pairs, Numpy.getD_set_self _ _ hl, Numpy.getD_set_self _ _ hm]

theorem pairs_set_ne (h : j ≠ i) : pairs (l.set i a) (m.set i b) j = pairs l m j := by
  rw [pairs, Numpy.getD_set_ne _ _ h, Numpy.getD_set_ne _ _ h, pairs]

end Pairs

def toInt (x : Nat × Nat) : Int × Int := (x.1, x.2)

namespace Packing

variable {numPacks perPack n : Nat} {done : List Nat} {s : Packing} {weight : List Rat}

structure Inv (numPacks perPack n : Nat) (done : List Nat) (s : Packing) : Prop where
  packIndex : s.packIndex.length = n
  rankInPack : s.rankInPack.length = n
  packWeights : s.packWeights.length = numPacks
  packItems : s.packItems.length = numPacks
  le : ∀ pack < numPacks, s.packItems.getD pack 0 ≤ perPack
  full : 0 < perPack → ∀ pack < numPacks,
    s.packWeights.getD pack 0 = ⊤ ↔ s.packItems.getD pack 0 = perPack
  placed : (done.map (pairs s.packIndex s.rankInPack)).Perm
    ((places numPacks fun pack => s.packItems.getD pack 0).map toInt)

theorem Inv.length_done (h : Inv numPacks perPack n done s) :
    (places numPacks fun pack => s.packItems.getD pack 0).length = done.length := by
  have hlen := h.placed.length_eq
  rwa [List.length_map, List.length_map, eq_comm] at hlen

theorem Inv.argmin (h : Inv numPacks perPack n done s) (hn : done.length < numPacks * perPack) :
    ∃ pack, Numpy.argmin s.packWeights = .ok pack ∧ pack < numPacks ∧
      s.packWeights.getD pack 0 ≠ ⊤ ∧ s.packItems.getD pack 0 < perPack := by
  obtain ⟨free, hfree, hlt⟩ : ∃ pack < numPacks, s.packItems.getD pack 0 < perPack := by
    by_contra hnone
    push Not at hnone
    have hall : places numPacks (fun pack => s.packItems.getD pack 0) =
        places numPacks fun _ => perPack :=
      places_congr fun pack hp => le_antisymm (h.le pack hp) (hnone pack hp)
    have hlen := h.length_done
    rw [hall, length_places_const] at hlen
    omega
  have hpos : 0 < perPack := Nat.zero_lt_of_lt hlt
  have hfree' : free < s.packWeights.length := h.packWeights ▸ hfree
  have hne : s.packWeights ≠ [] := List.ne_nil_of_length_pos (by omega)
  obtain ⟨pack, hok, hpack, hmin⟩ := Numpy.argmin_ok hne
  rw [h.packWeights] at hpack
  have htop : s.packWeights.getD pack 0 ≠ ⊤ := by
    intro htop
    have hle := hmin 0 (s.packWeights.getD free 0) (by
      rw [List.getD_eq_getElem _ _ hfree']
      exact List.getElem_mem hfree')
    rw [htop, top_le_iff, h.full hpos free hfree] at hle
    omega
  exact ⟨pack, hok, hpack, htop,
    lt_of_le_of_ne (h.le pack hpack) (mt (h.full hpos pack hpack).2 htop)⟩

theorem Inv.place (h : Inv numPacks perPack n done s) (hn : done.length < numPacks * perPack)
    {group : Nat} (hgroup : group < n) (hw : weight.length = n) (hdone : group ∉ done) :
    ∃ s', Packing.place perPack weight s group = .ok s' ∧
      Inv numPacks perPack n (done ++ [group]) s' := by
  obtain ⟨pack, hok, hpack, htop, hlt⟩ := h.argmin hn
  have hitems : pack < s.packItems.length := h.packItems ▸ hpack
  have hweights : pack < s.packWeights.length := h.packWeights ▸ hpack
  have hgw : group < weight.length := hw ▸ hgroup
  rw [List.getD_eq_getElem _ _ hitems] at hlt
  rw [List.getD_eq_getElem _ _ hweights] at htop
  refine ⟨{
    packIndex := s.packIndex.set group pack
    rankInPack := s.rankInPack.set group s.packItems[pack]
    packWeights := s.packWeights.set pack
      (if s.packItems[pack] + 1 = perPack then ⊤ else s.packWeights[pack] + (weight[group] : Rat))
    packItems := s.packItems.set pack (s.packItems[pack] + 1) }, ?_, ?_⟩
  · simp [Packing.place, hok, Result.getItem, hitems, hweights, hgw, bind, Except.bind, pure,
      Except.pure]
  · have hself := Numpy.getD_set_self 0 (s.packItems[pack] + 1) hitems
    have hother := fun j (hj : j ≠ pack) =>
      Numpy.getD_set_ne (l := s.packItems) 0 (s.packItems[pack] + 1) hj
    refine ⟨by simp [h.packIndex], by simp [h.rankInPack], by simp [h.packWeights],
      by simp [h.packItems], fun j hj => ?_, fun hpos j hj => ?_, ?_⟩
    · by_cases hjp : j = pack
      · subst hjp
        rw [hself]
        exact hlt
      · rw [hother j hjp]
        exact h.le j hj
    · by_cases hjp : j = pack
      · subst hjp
        rw [hself, Numpy.getD_set_self _ _ hweights]
        split
        · simp [*]
        · have hne : s.packWeights[j] + ((weight[group] : Rat) : WithTop Rat) ≠ ⊤ :=
            WithTop.add_ne_top.2 ⟨htop, WithTop.coe_ne_top⟩
          exact iff_of_false hne ‹_›
      · rw [hother j hjp, Numpy.getD_set_ne _ _ hjp]
        exact h.full hpos j hj
    · rw [List.map_append, List.map_singleton,
        pairs_set_self (h.packIndex ▸ hgroup) (h.rankInPack ▸ hgroup)]
      have hsame : done.map (pairs (s.packIndex.set group (pack : Int))
          (s.rankInPack.set group (s.packItems[pack] : Int))) =
          done.map (pairs s.packIndex s.rankInPack) :=
        List.map_congr_left fun g hg => pairs_set_ne fun heq => hdone (heq ▸ hg)
      rw [hsame]
      rw [← List.getD_eq_getElem _ 0 hitems] at hself hother ⊢
      have hplaces := (places_perm_cons hpack hself hother).map toInt
      rw [List.map_cons] at hplaces
      exact (List.perm_append_singleton _ _).trans ((h.placed.cons _).trans hplaces.symm)

theorem Inv.perm (h : Inv numPacks perPack n done s) (hn : n = numPacks * perPack)
    (hdone : done.Perm (List.range n)) :
    (packed perPack s.packIndex s.rankInPack).Perm
      ((List.range n).map fun k : Nat => (k : Int)) := by
  have hlen : (places numPacks fun pack => s.packItems.getD pack 0).length =
      numPacks * perPack := by
    rw [h.length_done, hdone.length_eq, List.length_range, hn]
  have hcode : packed perPack s.packIndex s.rankInPack =
      ((List.range n).map (pairs s.packIndex s.rankInPack)).map
        fun x : Int × Int => x.1 * perPack + x.2 := by
    rw [packed, Numpy.zipWith_eq_map_range _ default default (h.rankInPack.trans h.packIndex.symm),
      h.packIndex, List.map_map]
    rfl
  have hplaces := h.placed.trans ((places_perm_const h.le hlen).map toInt)
  rw [hcode]
  refine (((hdone.symm.map _).trans hplaces).map _).trans ?_
  rw [hn, ← map_places_const, List.map_map, List.map_map]
  refine List.Perm.of_eq (List.map_congr_left fun x _ => ?_)
  simp [toInt]

end Packing

theorem assertDivides_eq_ok {a b : Nat} : assertDivides a b = .ok () ↔ b ≠ 0 ∧ b ∣ a := by
  by_cases hb : b = 0
  · simp [assertDivides, divides, hb]
  · simp [assertDivides, divides, hb, Nat.dvd_iff_mod_eq_zero]

theorem balancedPacking_ok (np : Numpy) {weight : List Rat} {numPacks perPack : Nat}
    (hpos : numPacks ≠ 0) (hlen : weight.length = numPacks * perPack) :
    ∃ packIndex rankInPack, balancedPacking np weight numPacks = .ok (packIndex, rankInPack) ∧
      (packed perPack packIndex rankInPack).Perm
        ((List.range weight.length).map fun k : Nat => (k : Int)) := by
  have hdiv : weight.length / numPacks = perPack := by
    rw [hlen, Nat.mul_div_cancel_left _ (Nat.pos_of_ne_zero hpos)]
  have hassert := assertDivides_eq_ok.2 ⟨hpos, Dvd.intro _ hlen.symm⟩
  by_cases hone : perPack = 1
  · refine ⟨_, _, by simp [balancedPacking, hassert, hdiv, hone]; exact ⟨rfl, rfl⟩, ?_⟩
    refine List.Perm.of_eq ?_
    apply List.ext_getElem
    · simp [packed]
    · simp [packed, hone]
  · have hperm := np.argsort_perm (weight.map fun w => -w)
    rw [List.length_map] at hperm
    obtain ⟨s, hs, hinv⟩ := Result.foldlM_inv
      (f := Packing.place perPack weight) (l := np.argsort (weight.map fun w => -w))
      (I := Packing.Inv numPacks perPack weight.length)
      (b := { packIndex := List.replicate weight.length (-1)
              rankInPack := List.replicate weight.length (-1)
              packWeights := List.replicate numPacks 0
              packItems := List.replicate numPacks 0 })
      (by
        intro done group todo s hl h
        have hmem : group < weight.length :=
          List.mem_range.1 (hperm.mem_iff.1 (hl ▸ by simp))
        have hlt : done.length < numPacks * perPack := by
          have hall := hperm.length_eq
          rw [hl, List.length_append, List.length_cons, List.length_range] at hall
          omega
        exact h.place hlt hmem rfl
          (Result.notMem_done hl (hperm.nodup_iff.2 List.nodup_range)))
      (by
        refine ⟨by simp, by simp, by simp, by simp, fun j _ => ?_, fun hpos j hj => ?_, ?_⟩
        · simp
        · simp [hj, hpos.ne]
        · simp [places])
    refine ⟨s.packIndex, s.rankInPack, ?_, hinv.perm hlen hperm⟩
    simp [balancedPacking, hassert, hdiv, hone, hs]

namespace Replicas

structure Covers (numLog numPhy : Nat) (s : Replicas) : Prop where
  phy2log : s.phy2log.length = numPhy
  replicaIdx : s.replicaIdx.length = numPhy
  logcnt : s.logcnt.length = numLog
  pos : ∀ c ∈ s.logcnt, 0 < c
  perm : (s.phy2log.zip s.replicaIdx).Perm (places numLog fun e => s.logcnt.getD e 0)

structure Inv (numLog numPhy m : Nat) (s : Replicas) : Prop where
  phy2log : s.phy2log.length = numPhy
  replicaIdx : s.replicaIdx.length = numPhy
  logcnt : s.logcnt.length = numLog
  pos : ∀ c ∈ s.logcnt, 0 < c
  perm : ((List.range m).map (pairs s.phy2log s.replicaIdx)).Perm
    (places numLog fun e => s.logcnt.getD e 0)

variable {numLog numPhy m : Nat} {s : Replicas} {weight : List Rat}

theorem Inv.replicate (h : Inv numLog numPhy m s) (hw : weight.length = numLog) (hpos : 0 < numLog)
    (hm : m < numPhy) :
    ∃ s', s.replicate weight m = .ok s' ∧ Inv numLog numPhy (m + 1) s' := by
  have hloads : (loads weight s.logcnt).length = numLog := by simp [loads, hw, h.logcnt]
  obtain ⟨e, he, hlt⟩ := Numpy.argmax_ok (List.ne_nil_of_length_pos (hloads ▸ hpos))
  rw [hloads] at hlt
  have hcnt : e < s.logcnt.length := h.logcnt ▸ hlt
  refine ⟨{
    phy2log := s.phy2log.set m e
    replicaIdx := s.replicaIdx.set m s.logcnt[e]
    logcnt := s.logcnt.set e (s.logcnt[e] + 1) }, ?_, ?_⟩
  · simp [Replicas.replicate, he, Result.getItem, hcnt, bind, Except.bind, pure, Except.pure]
  · have hself := Numpy.getD_set_self 0 (s.logcnt[e] + 1) hcnt
    have hother := fun j (hj : j ≠ e) =>
      Numpy.getD_set_ne (l := s.logcnt) 0 (s.logcnt[e] + 1) hj
    refine ⟨by simp [h.phy2log], by simp [h.replicaIdx], by simp [h.logcnt], ?_, ?_⟩
    · intro c hc
      rcases List.mem_or_eq_of_mem_set hc with hc | rfl
      · exact h.pos c hc
      · exact Nat.succ_pos _
    · rw [List.range_succ, List.map_append, List.map_singleton,
        pairs_set_self (h.phy2log ▸ hm) (h.replicaIdx ▸ hm)]
      have hsame : (List.range m).map (pairs (s.phy2log.set m e)
          (s.replicaIdx.set m s.logcnt[e])) =
          (List.range m).map (pairs s.phy2log s.replicaIdx) :=
        List.map_congr_left fun g hg => pairs_set_ne (Nat.ne_of_lt (List.mem_range.1 hg))
      rw [hsame]
      rw [← List.getD_eq_getElem _ 0 hcnt] at hself hother ⊢
      have hplaces := places_perm_cons hlt hself hother
      exact (List.perm_append_singleton _ _).trans ((h.perm.cons _).trans hplaces.symm)

end Replicas

theorem replicateExperts_ok {weight : List Rat} {numPhy : Nat} (hpos : 0 < weight.length)
    (hle : weight.length ≤ numPhy) :
    ∃ s, replicateExperts weight numPhy = .ok s ∧ s.Covers weight.length numPhy := by
  obtain ⟨s, hs, hinv⟩ := Result.foldlM_inv
    (f := Replicas.replicate weight) (l := List.range' weight.length (numPhy - weight.length))
    (I := fun done => Replicas.Inv weight.length numPhy (weight.length + done.length))
    (b := { phy2log := List.range numPhy
            replicaIdx := List.replicate numPhy 0
            logcnt := List.replicate weight.length 1 })
    (by
      intro done i todo s hl h
      have hlen := congrArg List.length hl
      rw [List.length_range', List.length_append, List.length_cons] at hlen
      have hi : i = weight.length + done.length := by
        have hget : (List.range' weight.length (numPhy - weight.length))[done.length]? = some i := by
          rw [hl]
          simp
        rw [List.getElem?_range' (by omega), Nat.one_mul] at hget
        exact (Option.some.inj hget).symm
      obtain ⟨s', hs', h'⟩ := h.replicate rfl hpos (by omega)
      rw [List.length_append, List.length_singleton, hi]
      exact ⟨s', hs', h'⟩)
    (by
      refine ⟨by simp, by simp, by simp, ?_, ?_⟩
      · intro c hc
        rw [List.eq_of_mem_replicate hc]
        exact Nat.one_pos
      · rw [@places_congr _ _ (fun _ => 1) fun i hi => by simp [hi], places_one]
        refine List.Perm.of_eq (List.map_congr_left fun i hi => ?_)
        have hi : i < numPhy := by
          have := List.mem_range.1 hi
          simp only [List.length_nil, Nat.add_zero] at this
          omega
        simp [pairs, hi])
  rw [List.length_range', Nat.add_sub_cancel' hle] at hinv
  refine ⟨s, ?_, hinv.phy2log, hinv.replicaIdx, hinv.logcnt, hinv.pos, ?_⟩
  · simp [replicateExperts, hle, hs]
  · rw [zip_eq_map_pairs (hinv.replicaIdx.trans hinv.phy2log.symm), hinv.phy2log]
    exact hinv.perm

end Vllm.Eplb
