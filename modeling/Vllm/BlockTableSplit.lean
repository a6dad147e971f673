import Vllm.InputBatchLaws
import Vllm.SlotMappingLaws

namespace Vllm

namespace BlockTable

inductive RowOp
  | addRow (blockIds : List Nat) (rowIdx : Nat)
  | appendRow (blockIds : List Nat) (rowIdx : Nat)
  | moveRow (src tgt : Nat)
  | swapRow (src tgt : Nat)

def RowOp.step (t : BlockTable) : RowOp → Result BlockTable
  | .addRow blockIds rowIdx => t.addRow blockIds rowIdx
  | .appendRow blockIds rowIdx => t.appendRow blockIds rowIdx
  | .moveRow src tgt => .ok (t.moveRow src tgt)
  | .swapRow src tgt => .ok (t.swapRow src tgt)

def RowOp.given (ids : Nat → List Nat) : RowOp → Nat → List Nat
  | .addRow blockIds rowIdx => Function.update ids rowIdx blockIds
  | .appendRow blockIds rowIdx => Function.update ids rowIdx (ids rowIdx ++ blockIds)
  | .moveRow src tgt => Function.update ids tgt (ids src)
  | .swapRow src tgt => ids ∘ Equiv.swap src tgt

def givenIds (ops : List RowOp) : Nat → List Nat := ops.foldl RowOp.given fun _ => []

variable {c : BlockTableConfig} {t t' : BlockTable} {i row p : Nat} {ids old : List Nat}

structure Made (c : BlockTableConfig) (t : BlockTable) : Prop where
  blockSize : t.blockSize = c.kernelBlockSize
  blocksPerKvBlock : t.blocksPerKvBlock * c.kernelBlockSize = c.blockSize
  hybrid : t.useHybridBlocks = true ↔ c.kernelBlockSize ≠ c.blockSize
  whole : c.kernelBlockSize = c.blockSize → t.blocksPerKvBlock = 1
  width : t.maxNumBlocksPerReq = c.maxNumBlocksPerReq * t.blocksPerKvBlock
  single : t.totalCpWorldSize = 1

theorem init_made (hpcp : c.pcpWorldSize = 1) (hdcp : c.dcpWorldSize = 1) (h : init c = .ok t) :
    Made c t := by
  have hsingle : c.pcpWorldSize * c.dcpWorldSize = 1 := by rw [hpcp, hdcp]
  unfold init at h
  dsimp only at h
  split at h
  · cases h
  · rename_i hdiv
    cases h
    rw [decide_eq_true_eq, not_and, not_not] at hdiv
    by_cases heq : c.kernelBlockSize = c.blockSize
    · exact ⟨by simp [heq], by simp [heq], by simp [heq], fun _ => by simp [heq], rfl, hsingle⟩
    · have hmul : c.blockSize / c.kernelBlockSize * c.kernelBlockSize = c.blockSize :=
        Nat.div_mul_cancel (Nat.dvd_of_mod_eq_zero (hdiv heq))
      exact ⟨by simp [heq], by simpa [heq] using hmul, by simp [heq], fun h => absurd h heq, rfl, hsingle⟩

theorem Made.kernelBlocks_eq (h : Made c t) (ids : List Nat) :
    t.kernelBlocks ids = ids.flatMap fun b =>
      (List.range t.blocksPerKvBlock).map fun k => b * t.blocksPerKvBlock + k := by
  have hwhole : t.blocksPerKvBlock = 1 → ids.flatMap (fun b =>
      (List.range t.blocksPerKvBlock).map fun k => b * t.blocksPerKvBlock + k) = ids := by
    intro hone
    rw [hone]
    simp
  unfold kernelBlocks mapToKernelBlocks
  split
  · split
    · rename_i hone
      exact (hwhole hone).symm
    · rfl
  · rename_i hhybrid
    have heq : c.kernelBlockSize = c.blockSize := not_not.1 fun hne => hhybrid (h.hybrid.2 hne)
    exact (hwhole (h.whole heq)).symm

theorem Made.length_kernelBlocks (h : Made c t) (ids : List Nat) :
    (t.kernelBlocks ids).length = ids.length * t.blocksPerKvBlock := by
  rw [h.kernelBlocks_eq, List.length_flatMap]
  simp

theorem Made.getElem?_kernelBlocks (h : Made c t) (hk : 0 < t.blocksPerKvBlock) (j : Nat) :
    (t.kernelBlocks ids)[j]? = ids[j / t.blocksPerKvBlock]?.map fun b =>
      b * t.blocksPerKvBlock + j % t.blocksPerKvBlock := by
  rw [h.kernelBlocks_eq]
  generalize t.blocksPerKvBlock = k at hk
  induction ids generalizing j with
  | nil => rfl
  | cons b ids ih =>
    have hlen : ((List.range k).map fun i => b * k + i).length = k := by
      rw [List.length_map, List.length_range]
    rw [List.flatMap_cons, List.getElem?_append, hlen]
    split
    · rename_i hj
      rw [Nat.div_eq_of_lt hj, Nat.mod_eq_of_lt hj, List.getElem?_map, List.getElem?_range hj]
      rfl
    · rename_i hj
      have hle : k ≤ j := Nat.not_lt.1 hj
      rw [ih, Nat.div_eq_sub_div hk hle, List.getElem?_cons_succ, ← Nat.mod_eq_sub_mod hle]

structure Lists (c : BlockTableConfig) (t : BlockTable) (ids : Nat → List Nat) : Prop where
  made : Made c t
  holds : ∀ i, t.Fits (ids i) → (t.row i).Holds (ids i)
  fits : c.kernelBlockSize ≠ c.blockSize → ∀ i, t.Fits (ids i)

theorem appendRow_frame (h : Made c t) (hok : t.appendRow ids i = .ok t') :
    Made c t' ∧ t'.Fits = t.Fits ∧ ∀ j ≠ i, t'.row j = t.row j := by
  unfold appendRow at hok
  split at hok
  · cases hok
    exact ⟨h, rfl, fun _ _ => rfl⟩
  · simp only [Result.bind_eq_ok, Result.pure_eq_ok] at hok
    obtain ⟨cells, -, rfl⟩ := hok
    refine ⟨⟨h.blockSize, h.blocksPerKvBlock, h.hybrid, h.whole, h.width, h.single⟩, rfl, ?_⟩
    intro j hj
    simp only [row, Function.update_of_ne hj]
    rfl

theorem Fits.of_append {ids' : List Nat} (h : t.Fits (ids ++ ids')) : t.Fits ids := by
  rw [Fits, kernelBlocks_append, List.length_append] at h
  exact Nat.le_trans (Nat.le_add_right _ _) h

theorem Made.fits_of_appendRow (h : Made c t) (hne : c.kernelBlockSize ≠ c.blockSize)
    (hold : (t.row i).Holds old) (hok : t.appendRow ids i = .ok t') : t.Fits (old ++ ids) := by
  have hnum : t.numBlocksPerRow i = (t.kernelBlocks old).length := hold.numBlocks
  have hfits : t.Fits old := by
    rw [Fits, ← hnum]
    exact hold.fits
  unfold appendRow at hok
  split at hok
  · rename_i hnil
    rw [hnil, List.append_nil]
    exact hfits
  · rename_i hnil
    simp only [Result.bind_eq_ok] at hok
    obtain ⟨cells, hcells, -⟩ := hok
    rw [Fits, kernelBlocks_append, List.length_append, ← hnum]
    unfold assignSlice at hcells
    rw [List.length_map] at hcells
    split at hcells
    · assumption
    · split at hcells
      · rename_i hone
        have hpos := List.length_pos_iff.2 hnil
        rw [h.length_kernelBlocks] at hone ⊢
        rw [hnum]
        have hmul := h.blocksPerKvBlock
        rcases hk : t.blocksPerKvBlock with _ | _ | k
        · rw [Nat.mul_zero, Nat.add_zero]
          exact hfits
        · rw [hk, Nat.zero_add, Nat.one_mul] at hmul
          exact absurd hmul hne
        · rw [hk] at hone
          have hone : ids.length * (k + 2) ≤ 1 := hone
          have htwo : 1 * (k + 2) ≤ ids.length * (k + 2) := Nat.mul_le_mul_right _ hpos
          omega
      · cases hcells

theorem Lists.appendRow {rows : Nat → List Nat} (h : Lists c t rows) (hok : t.appendRow ids i = .ok t') :
    Lists c t' (Function.update rows i (rows i ++ ids)) := by
  obtain ⟨hmade, hfits, hframe⟩ := appendRow_frame h.made hok
  refine ⟨hmade, fun j hj => ?_, fun hne j => ?_⟩
  · rw [hfits] at hj
    by_cases hji : j = i
    · subst hji
      rw [Function.update_self] at hj ⊢
      obtain ⟨t₁, hok₁, hholds, -⟩ := appendRow_spec (h.holds j hj.of_append) hj
      rw [hok] at hok₁
      cases hok₁
      exact hholds
    · rw [Function.update_of_ne hji] at hj ⊢
      rw [hframe j hji]
      exact h.holds j hj
  · rw [hfits]
    by_cases hji : j = i
    · subst hji
      rw [Function.update_self]
      exact h.made.fits_of_appendRow hne (h.holds j (h.fits hne j)) hok
    · rw [Function.update_of_ne hji]
      exact h.fits hne j

theorem fits_nil (t : BlockTable) : t.Fits [] := by
  rw [Fits, kernelBlocks_nil]
  exact Nat.zero_le _

theorem Lists.resetRow {rows : Nat → List Nat} (h : Lists c t rows) (i : Nat) :
    Lists c { t with numBlocksPerRow := Function.update t.numBlocksPerRow i 0, dirty := true }
      (Function.update rows i []) := by
  have hmade := h.made
  refine ⟨⟨hmade.blockSize, hmade.blocksPerKvBlock, hmade.hybrid, hmade.whole, hmade.width,
    hmade.single⟩, fun j hj => ?_, fun hne j => ?_⟩
  · by_cases hji : j = i
    · subst hji
      have hnil : t.kernelBlocks [] = [] := kernelBlocks_nil t
      rw [Function.update_self]
      refine ⟨?_, ?_, fun k b hb => ?_⟩
      · show Function.update t.numBlocksPerRow j 0 j = (t.kernelBlocks []).length
        rw [Function.update_self, hnil]
        rfl
      · show Function.update t.numBlocksPerRow j 0 j ≤ _
        rw [Function.update_self]
        exact Nat.zero_le _
      · have hb : (t.kernelBlocks [])[k]? = some b := hb
        rw [hnil] at hb
        cases hb
    · rw [Function.update_of_ne hji] at hj ⊢
      have hrow := h.holds j hj
      simp only [row, Function.update_of_ne hji]
      exact hrow
  · by_cases hji : j = i
    · subst hji
      rw [Function.update_self]
      exact fits_nil _
    · rw [Function.update_of_ne hji]
      exact h.fits hne j

theorem Lists.step {rows : Nat → List Nat} {op : RowOp} (h : Lists c t rows) (hok : op.step t = .ok t') :
    Lists c t' (op.given rows) := by
  have hmade := h.made
  cases op with
  | addRow blockIds rowIdx =>
    have hrows := (h.resetRow rowIdx).appendRow hok
    rw [Function.update_self, Function.update_idem] at hrows
    exact hrows
  | appendRow blockIds rowIdx => exact h.appendRow hok
  | moveRow src tgt =>
    cases hok
    refine ⟨⟨hmade.blockSize, hmade.blocksPerKvBlock, hmade.hybrid, hmade.whole, hmade.width,
      hmade.single⟩, fun j hj => ?_, fun hne j => ?_⟩
    · by_cases hjt : j = tgt
      · subst hjt
        rw [RowOp.given, Function.update_self] at hj ⊢
        exact moveRow_self (h.holds src hj)
      · rw [RowOp.given, Function.update_of_ne hjt] at hj ⊢
        rw [moveRow_of_ne hjt]
        exact h.holds j hj
    · by_cases hjt : j = tgt
      · subst hjt
        rw [RowOp.given, Function.update_self]
        exact h.fits hne src
      · rw [RowOp.given, Function.update_of_ne hjt]
        exact h.fits hne j
  | swapRow src tgt =>
    cases hok
    exact ⟨⟨hmade.blockSize, hmade.blocksPerKvBlock, hmade.hybrid, hmade.whole, hmade.width,
      hmade.single⟩, fun j hj => h.holds _ hj, fun hne j => h.fits hne _⟩

theorem Lists.run {rows : Nat → List Nat} {ops : List RowOp} (h : Lists c t rows)
    (hok : ops.foldlM RowOp.step t = .ok t') : Lists c t' (ops.foldl RowOp.given rows) := by
  induction ops generalizing t rows with
  | nil =>
    cases hok
    exact h
  | cons op ops ih =>
    rw [List.foldlM_cons, Result.bind_eq_ok] at hok
    obtain ⟨t₁, hstep, hok⟩ := hok
    exact ih (h.step hstep) hok

theorem init_lists (hpcp : c.pcpWorldSize = 1) (hdcp : c.dcpWorldSize = 1) (h : init c = .ok t) :
    Lists c t fun _ => [] := by
  have hzero : ∀ i, t.numBlocksPerRow i = 0 := by
    unfold init at h
    dsimp only at h
    split at h
    · cases h
    · cases h
      exact fun _ => rfl
  refine ⟨init_made hpcp hdcp h, fun i _ => ⟨?_, ?_, fun j b hb => ?_⟩, fun _ _ => fits_nil t⟩
  · show t.numBlocksPerRow i = (t.kernelBlocks []).length
    rw [hzero, kernelBlocks_nil]
    rfl
  · show t.numBlocksPerRow i ≤ _
    rw [hzero]
    exact Nat.zero_le _
  · have hb : (t.kernelBlocks [])[j]? = some b := hb
    rw [kernelBlocks_nil] at hb
    cases hb

theorem Lists.fits_row {rows : Nat → List Nat} (h : Lists c t rows)
    (hroom : c.kernelBlockSize = c.blockSize → (rows row).length ≤ c.maxNumBlocksPerReq) :
    t.Fits (rows row) := by
  by_cases heq : c.kernelBlockSize = c.blockSize
  · rw [Fits, h.made.length_kernelBlocks, h.made.width]
    exact Nat.mul_le_mul_right _ (hroom heq)
  · exact h.fits heq row

theorem Lists.slot_eq {rows : Nat → List Nat} (h : Lists c t rows)
    (hroom : c.kernelBlockSize = c.blockSize → (rows row).length ≤ c.maxNumBlocksPerReq)
    (hp : p < c.blockSize * (rows row).length) :
    ∃ b, (rows row)[p / c.blockSize]? = some b ∧
      t.slot row p = b * c.blockSize + (p % c.blockSize : Nat) := by
  have hmade := h.made
  have hfits := h.fits_row hroom
  have hrow := h.holds row hfits
  have hB : 0 < c.blockSize := Nat.pos_of_ne_zero fun hzero => by
    rw [hzero, Nat.zero_mul] at hp
    exact Nat.not_lt_zero p hp
  have hk : 0 < t.blocksPerKvBlock := Nat.pos_of_ne_zero fun hzero => by
    have hmul := hmade.blocksPerKvBlock
    rw [hzero, Nat.zero_mul] at hmul
    omega
  have hmul : c.kernelBlockSize * t.blocksPerKvBlock = c.blockSize := by
    rw [Nat.mul_comm, hmade.blocksPerKvBlock]
  have hb : p / c.blockSize < (rows row).length := Nat.div_lt_of_lt_mul hp
  have hindex : t.blockIndex p = p / c.kernelBlockSize := by
    rw [blockIndex, hmade.single, Nat.mul_one, hmade.blockSize]
  have hj : p / c.kernelBlockSize < t.maxNumBlocksPerReq := by
    refine Nat.lt_of_lt_of_le ?_ hfits
    rw [hmade.length_kernelBlocks]
    refine Nat.div_lt_of_lt_mul ?_
    rwa [Nat.mul_comm (rows row).length, ← Nat.mul_assoc, hmul]
  refine ⟨(rows row)[p / c.blockSize], List.getElem?_eq_getElem hb, ?_⟩
  have hcell : t.cpu row (p / c.kernelBlockSize) = ((rows row)[p / c.blockSize] * t.blocksPerKvBlock +
      p / c.kernelBlockSize % t.blocksPerKvBlock : Nat) := by
    refine hrow.cells _ _ ?_
    show (t.kernelBlocks (rows row))[p / c.kernelBlockSize]? = _
    rw [hmade.getElem?_kernelBlocks hk, Nat.div_div_eq_div_mul, hmul, List.getElem?_eq_getElem hb]
    rfl
  have hravel := @ravel_row t row p (hindex ▸ hj)
  rw [hindex, hcell] at hravel
  have hoffset : p % c.blockSize = c.kernelBlockSize * (p / c.kernelBlockSize % t.blocksPerKvBlock) +
      p % c.kernelBlockSize := by
    rw [← hmul, Nat.mod_mul, Nat.add_comm]
  have hwhole : (rows row)[p / c.blockSize] * c.blockSize =
      (rows row)[p / c.blockSize] * t.blocksPerKvBlock * c.kernelBlockSize := by
    rw [Nat.mul_assoc, hmade.blocksPerKvBlock]
  have hsingle : ¬ 1 < t.totalCpWorldSize := by
    rw [hmade.single]
    exact Nat.lt_irrefl 1
  rw [slot, if_neg hsingle]
  dsimp only
  rw [hmade.blockSize, hravel]
  norm_cast
  rw [hwhole, hoffset, Nat.add_mul, Nat.mul_comm c.kernelBlockSize, Nat.add_assoc]

/-- Splitting the blocks changes no slot, in whichever row the block ids of a request are. -/
theorem slot_of_run {t₀ : BlockTable} {ops : List RowOp} (hpcp : c.pcpWorldSize = 1)
    (hdcp : c.dcpWorldSize = 1) (hinit : init c = .ok t₀) (hok : ops.foldlM RowOp.step t₀ = .ok t)
    (hroom : c.kernelBlockSize = c.blockSize → (givenIds ops row).length ≤ c.maxNumBlocksPerReq)
    (hp : p < c.blockSize * (givenIds ops row).length) :
    (∃ b, (givenIds ops row)[p / c.blockSize]? = some b ∧
      t.slot row p = b * c.blockSize + (p % c.blockSize : Nat)) ∧
    ∀ u₀ u, init { c with kernelBlockSize := c.blockSize } = .ok u₀ →
      ops.foldlM RowOp.step u₀ = .ok u → u.slot row p = t.slot row p := by
  have hlists : Lists c t (givenIds ops) := (init_lists hpcp hdcp hinit).run hok
  obtain ⟨b, hb, hslot⟩ := hlists.slot_eq hroom hp
  refine ⟨⟨b, hb, hslot⟩, fun u₀ u hu₀ hu => ?_⟩
  have hwhole : Lists { c with kernelBlockSize := c.blockSize } u (givenIds ops) :=
    (@init_lists { c with kernelBlockSize := c.blockSize } u₀ hpcp hdcp hu₀).run hu
  have hlen : (givenIds ops row).length ≤ c.maxNumBlocksPerReq := by
    have hfits := hlists.fits_row hroom
    rw [Fits, hlists.made.length_kernelBlocks, hlists.made.width] at hfits
    refine Nat.le_of_mul_le_mul_right hfits (Nat.pos_of_ne_zero fun hzero => ?_)
    have hmul := hlists.made.blocksPerKvBlock
    rw [hzero, Nat.zero_mul] at hmul
    rw [← hmul, Nat.zero_mul] at hp
    exact Nat.not_lt_zero p hp
  obtain ⟨b', hb', hslot'⟩ := hwhole.slot_eq (fun _ => hlen) hp
  rw [hslot, hslot']
  rw [hb] at hb'
  cases hb'
  rfl

def splitConfig : BlockTableConfig := { blockSize := 32, kernelBlockSize := 16, maxNumBlocksPerReq := 3 }

def splitOps : List RowOp :=
  [.addRow [7] 1, .addRow [4, 9] 0, .appendRow [2] 0, .moveRow 0 2, .swapRow 2 1]

theorem slot_of_run_split : ∃ t₀ t, init splitConfig = .ok t₀ ∧ splitOps.foldlM RowOp.step t₀ = .ok t ∧
    ∃ b : Nat, (givenIds splitOps 1)[2]? = some b ∧ t.slot 1 70 = b * 32 + 6 := by
  obtain ⟨t₀, hinit, t, hok⟩ : ∃ t₀, init splitConfig = .ok t₀ ∧
      ∃ t, splitOps.foldlM RowOp.step t₀ = .ok t := ⟨_, rfl, _, rfl⟩
  have hgiven : givenIds splitOps 1 = [4, 9, 2] := by decide
  obtain ⟨⟨b, hb, hslot⟩, -⟩ := @slot_of_run splitConfig t 1 70 t₀ splitOps rfl rfl hinit hok
    (fun heq => absurd heq (by decide)) (by rw [hgiven]; decide)
  exact ⟨t₀, t, hinit, hok, b, hb, hslot⟩

end BlockTable

end Vllm
