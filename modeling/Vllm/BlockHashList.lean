import Vllm.BlockPool
import Vllm.Lib.Numpy

namespace Vllm

open BlockPool

def getGroupId (key : BlockHashWithGroupId) : Nat :=
  (Py.sliceFrom key (-4)).foldl (fun n b => n * 256 + b.toNat) 0

structure BlockHashListWithBlockSize where
  blockHashes : List BlockHash
  scaleFactor : Nat
  deriving DecidableEq, Repr

namespace BlockHashListWithBlockSize

def init (blockHashes : List BlockHash) (hashBlockSize targetBlockSize : Nat) : Result BlockHashListWithBlockSize :=
  if hashBlockSize = 0 then .error .zeroDivisionError
  else do
    Result.ensure (targetBlockSize % hashBlockSize = 0) "target_block_size % hash_block_size == 0"
    return { blockHashes, scaleFactor := targetBlockSize / hashBlockSize }

def len (l : BlockHashListWithBlockSize) : Result Nat :=
  if l.scaleFactor = 0 then .error .zeroDivisionError else .ok (l.blockHashes.length / l.scaleFactor)

def appendHashes (blockHashes : List BlockHash) : BlockHash → List Int → Result BlockHash
  | mergedHash, [] => .ok mergedHash
  | mergedHash, i :: is => do
    let blockHash ← Numpy.item blockHashes i
    appendHashes blockHashes (mergedHash ++ blockHash) is

def getValueAt (l : BlockHashListWithBlockSize) (idx : Int) : Result BlockHash := do
  let base := idx * l.scaleFactor
  let stop := base + l.scaleFactor
  let mergedHash ← Numpy.item l.blockHashes base
  appendHashes l.blockHashes mergedHash (Py.range (base + 1) stop 1)

def getSlice (l : BlockHashListWithBlockSize) (idx : Py.Slice) : Result (List BlockHash) := do
  let n ← l.len
  let (start, stop, step) ← idx.indices n
  (Py.range start stop step).mapM l.getValueAt

def iter (l : BlockHashListWithBlockSize) : Result (List BlockHash) := do
  let n ← l.len
  (Py.range 0 n 1).mapM l.getValueAt

variable {l : BlockHashListWithBlockSize}

theorem init_eq_ok {blockHashes : List BlockHash} {hashBlockSize targetBlockSize : Nat}
    (h : init blockHashes hashBlockSize targetBlockSize = .ok l) :
    l.blockHashes = blockHashes ∧ targetBlockSize = l.scaleFactor * hashBlockSize := by
  unfold init at h
  split at h
  · cases h
  · simp only [Result.bind_eq_ok, Result.pure_eq_ok] at h
    obtain ⟨_, hdvd, rfl⟩ := h
    exact ⟨rfl, (Nat.div_mul_cancel (Nat.dvd_of_mod_eq_zero (Result.ensure_eq_ok.mp hdvd))).symm⟩

theorem appendHashes_ok {blockHashes : List BlockHash} {merged : BlockHash} {start stop : Nat}
    (hle : start ≤ stop) (h : stop ≤ blockHashes.length) :
    appendHashes blockHashes merged (Py.range start stop 1) =
      .ok (merged ++ ((blockHashes.drop start).take (stop - start)).flatten) := by
  obtain ⟨k, rfl⟩ := Nat.exists_eq_add_of_le hle
  induction k generalizing start merged with
  | zero =>
    rw [Py.range_one_nil (by omega), Nat.add_zero, Nat.sub_self, List.take_zero]
    exact congrArg Except.ok (List.append_nil merged).symm
  | succ k ih =>
    have hlt : start < blockHashes.length := by omega
    have hrest := @ih (merged ++ blockHashes[start]) (start + 1) (by omega) (by omega)
    rw [show start + 1 + k = start + (k + 1) by omega, Int.natCast_succ] at hrest
    rw [Py.range_one_cons (by omega), appendHashes, Numpy.item_natCast [] hlt, Result.ok_bind, List.getD_eq_getElem _ _ hlt,
      hrest, List.append_assoc]
    rw [show start + (k + 1) - (start + 1) = k by omega, show start + (k + 1) - start = k + 1 by omega,
      List.drop_eq_getElem_cons hlt, List.take_succ_cons, List.flatten_cons]

theorem getValueAt_ok (hpos : 0 < l.scaleFactor) {i : Nat} (hi : i < l.blockHashes.length / l.scaleFactor) :
    (i + 1) * l.scaleFactor ≤ l.blockHashes.length ∧
      l.getValueAt i = .ok ((l.blockHashes.drop (i * l.scaleFactor)).take l.scaleFactor).flatten := by
  have hfit : (i + 1) * l.scaleFactor ≤ l.blockHashes.length := (Nat.le_div_iff_mul_le hpos).mp hi
  have hsplit : (i + 1) * l.scaleFactor = i * l.scaleFactor + l.scaleFactor := Nat.succ_mul _ _
  have hlt : i * l.scaleFactor < l.blockHashes.length := by omega
  have hrest := @appendHashes_ok l.blockHashes l.blockHashes[i * l.scaleFactor] (i * l.scaleFactor + 1)
    (i * l.scaleFactor + l.scaleFactor) (by omega) (by omega)
  refine ⟨hfit, ?_⟩
  unfold getValueAt
  dsimp only
  rw [← Int.natCast_mul, Numpy.item_natCast [] hlt, Result.ok_bind, List.getD_eq_getElem _ _ hlt]
  rw [Int.natCast_succ, Int.natCast_add] at hrest
  rw [hrest]
  rw [show i * l.scaleFactor + l.scaleFactor - (i * l.scaleFactor + 1) = l.scaleFactor - 1 by omega,
    List.drop_eq_getElem_cons hlt, List.take_cons hpos, List.flatten_cons]

theorem len_eq (hpos : 0 < l.scaleFactor) : l.len = .ok (l.blockHashes.length / l.scaleFactor) := if_neg hpos.ne'

theorem length_coarseBlockHashes (factor : Nat) (blockHashes : List BlockHash) :
    (coarseBlockHashes factor blockHashes).length = blockHashes.length / factor := by
  rw [coarseBlockHashes, List.length_map, List.length_range]

theorem getValueAt_eq (hpos : 0 < l.scaleFactor) {i : Nat} (hi : i < l.blockHashes.length / l.scaleFactor) :
    l.getValueAt i = .ok ((coarseBlockHashes l.scaleFactor l.blockHashes).getD i []) := by
  rw [(getValueAt_ok hpos hi).2, coarseBlockHashes, List.getD_eq_getElem _ _ (by simpa using hi), List.getElem_map,
    List.getElem_range]

theorem iter_eq (hpos : 0 < l.scaleFactor) : l.iter = .ok (coarseBlockHashes l.scaleFactor l.blockHashes) := by
  have hvalues : ∀ i ∈ Py.range 0 (l.blockHashes.length / l.scaleFactor : Nat) 1, l.getValueAt i =
      .ok ((coarseBlockHashes l.scaleFactor l.blockHashes).getD i.toNat []) := by
    intro i hi
    obtain ⟨hle, hlt⟩ := Py.mem_range_one.mp hi
    obtain ⟨k, rfl⟩ := Int.eq_ofNat_of_zero_le hle
    exact getValueAt_eq hpos (by omega)
  unfold iter
  rw [len_eq hpos, Result.ok_bind, Result.mapM_eq_ok hvalues, Py.range_zero_one, List.map_map]
  refine congrArg Except.ok (Eq.trans ?_ (Numpy.map_getD_range _ []))
  rw [length_coarseBlockHashes]
  exact List.map_congr_left fun k _ => rfl

theorem iter_init {c : PoolConfig} {blockHashes : List BlockHash} {blockSize : Nat}
    (h : init blockHashes c.hashBlockSize blockSize = .ok l) (hpos : 0 < blockSize)
    (hne : blockSize ≠ c.hashBlockSize) : l.iter = .ok (blockHashesFor c blockSize blockHashes) := by
  obtain ⟨rfl, hsize⟩ := init_eq_ok h
  have hfactor : 0 < l.scaleFactor := Nat.pos_of_mul_pos_right (hsize ▸ hpos)
  have hhash : 0 < c.hashBlockSize := Nat.pos_of_mul_pos_left (hsize ▸ hpos)
  rw [iter_eq hfactor, blockHashesFor, if_neg hne, hsize, Nat.mul_div_cancel _ hhash]

theorem getSlice_eq (hpos : 0 < l.scaleFactor) (s : Py.Slice) :
    l.getSlice s = Py.getSlice (coarseBlockHashes l.scaleFactor l.blockHashes) s := by
  unfold getSlice Py.getSlice
  rw [len_eq hpos, Result.ok_bind, length_coarseBlockHashes]
  cases hs : s.indices (l.blockHashes.length / l.scaleFactor) with
  | error e => rfl
  | ok bounds =>
    obtain ⟨start, stop, step⟩ := bounds
    have hplace : ∀ i ∈ Py.range start stop step, ∃ k : Nat, i = k ∧ k < l.blockHashes.length / l.scaleFactor := by
      intro i hi
      obtain ⟨hle, hlt⟩ := Py.Slice.mem_range_indices hs i hi
      exact ⟨i.toNat, by omega, by omega⟩
    have hvalues : ∀ i ∈ Py.range start stop step, l.getValueAt i =
        .ok ((coarseBlockHashes l.scaleFactor l.blockHashes).getD i.toNat []) := by
      intro i hi
      obtain ⟨k, rfl, hk⟩ := hplace i hi
      exact getValueAt_eq hpos hk
    have hitems : ∀ i ∈ Py.range start stop step, Numpy.item (coarseBlockHashes l.scaleFactor l.blockHashes) i =
        .ok ((coarseBlockHashes l.scaleFactor l.blockHashes).getD i.toNat []) := by
      intro i hi
      obtain ⟨k, rfl, hk⟩ := hplace i hi
      exact Numpy.item_natCast [] (length_coarseBlockHashes _ _ ▸ hk)
    rw [Result.ok_bind, Result.ok_bind]
    dsimp only
    rw [Result.mapM_eq_ok hvalues, Result.mapM_eq_ok hitems]

theorem eq_of_getValueAt_eq {l' : BlockHashListWithBlockSize} {width i j : Nat} (hpos : 0 < l.scaleFactor)
    (hfactor : l'.scaleFactor = l.scaleFactor) (hwidth : ∀ x ∈ l.blockHashes, x.length = width)
    (hwidth' : ∀ x ∈ l'.blockHashes, x.length = width) (hi : i < l.blockHashes.length / l.scaleFactor)
    (hj : j < l'.blockHashes.length / l'.scaleFactor) (h : l.getValueAt i = l'.getValueAt j) :
    ∀ k < l.scaleFactor, l.blockHashes[i * l.scaleFactor + k]? = l'.blockHashes[j * l.scaleFactor + k]? := by
  obtain ⟨hfit, hvalue⟩ := getValueAt_ok hpos hi
  obtain ⟨hfit', hvalue'⟩ := getValueAt_ok (hfactor ▸ hpos) hj
  rw [hfactor] at hfit' hvalue'
  rw [Nat.succ_mul] at hfit hfit'
  rw [hvalue, hvalue', Except.ok.injEq] at h
  have hlengths : ((l.blockHashes.drop (i * l.scaleFactor)).take l.scaleFactor).map List.length =
      ((l'.blockHashes.drop (j * l.scaleFactor)).take l.scaleFactor).map List.length := by
    have hall : ∀ {hashes : List BlockHash} {m : Nat}, (∀ x ∈ hashes, x.length = width) →
        m + l.scaleFactor ≤ hashes.length →
        ((hashes.drop m).take l.scaleFactor).map List.length = List.replicate l.scaleFactor width := by
      intro hashes m hw hm
      refine List.eq_replicate_iff.mpr ⟨by simp; omega, fun n hn => ?_⟩
      obtain ⟨x, hx, rfl⟩ := List.mem_map.mp hn
      exact hw x (List.mem_of_mem_drop (List.mem_of_mem_take hx))
    rw [hall hwidth hfit, hall hwidth' hfit']
  have hsame := List.eq_iff_flatten_eq.mpr ⟨h, hlengths⟩
  intro k hk
  have hget := congrArg (·[k]?) hsame
  simpa only [List.getElem?_take, if_pos hk, List.getElem?_drop] using hget

end BlockHashListWithBlockSize

theorem getBlockHash_makeBlockHashWithGroupId (blockHash : BlockHash) (groupId : Nat) :
    getBlockHash (makeBlockHashWithGroupId blockHash groupId) = blockHash := by
  have hlen : (makeBlockHashWithGroupId blockHash groupId).length = blockHash.length + 4 := List.length_append
  rw [getBlockHash, hlen, Nat.add_sub_cancel]
  exact List.take_left

theorem getGroupId_makeBlockHashWithGroupId (blockHash : BlockHash) {groupId : Nat} (h : groupId < 2 ^ 32) :
    getGroupId (makeBlockHashWithGroupId blockHash groupId) = groupId := by
  have hlen : (makeBlockHashWithGroupId blockHash groupId).length = blockHash.length + 4 := List.length_append
  have hbytes : Py.sliceFrom (makeBlockHashWithGroupId blockHash groupId) (-4) = groupIdBytes groupId := by
    rw [Py.sliceFrom, Py.bound, if_pos (by omega), hlen, show (-4 + (blockHash.length + 4 : Nat) : Int).toNat =
      blockHash.length by omega]
    exact List.drop_left
  rw [getGroupId, hbytes, groupIdBytes]
  simp only [List.foldl_cons, List.foldl_nil, UInt8.toNat_ofNat']
  omega

theorem makeBlockHashWithGroupId_inj_iff {x y : BlockHash} {g g' : Nat} (hg : g < 2 ^ 32) (hg' : g' < 2 ^ 32) :
    makeBlockHashWithGroupId x g = makeBlockHashWithGroupId y g' ↔ x = y ∧ g = g' := by
  refine ⟨fun h => ⟨?_, ?_⟩, by rintro ⟨rfl, rfl⟩; rfl⟩
  · rw [← getBlockHash_makeBlockHashWithGroupId x g, h, getBlockHash_makeBlockHashWithGroupId]
  · rw [← getGroupId_makeBlockHashWithGroupId x hg, h, getGroupId_makeBlockHashWithGroupId y hg']

namespace BlockHashListWithBlockSize

/-- Indexing, iteration and slices of the list agree, an element is made of its fine hashes, and keys lose
neither hash nor group. -/
theorem coarseHashes_faithful (l : BlockHashListWithBlockSize) (hpos : 0 < l.scaleFactor) :
    l.len = .ok (l.blockHashes.length / l.scaleFactor) ∧
    (∀ i < l.blockHashes.length / l.scaleFactor, (i + 1) * l.scaleFactor ≤ l.blockHashes.length ∧
      l.getValueAt i = .ok ((l.blockHashes.drop (i * l.scaleFactor)).take l.scaleFactor).flatten) ∧
    (∃ xs, l.iter = .ok xs ∧ xs.length = l.blockHashes.length / l.scaleFactor ∧
      (∀ (i : Nat) (hi : i < xs.length), l.getValueAt i = .ok (xs.get ⟨i, hi⟩)) ∧
      ∀ s, l.getSlice s = Py.getSlice xs s ∧ (s.step ≠ some 0 → ∃ ys, l.getSlice s = .ok ys)) ∧
    (∀ (l' : BlockHashListWithBlockSize) (width : Nat), l'.scaleFactor = l.scaleFactor →
      (∀ x ∈ l.blockHashes, x.length = width) → (∀ x ∈ l'.blockHashes, x.length = width) →
      ∀ i < l.blockHashes.length / l.scaleFactor, ∀ j < l'.blockHashes.length / l'.scaleFactor,
        l.getValueAt i = l'.getValueAt j → ∀ k < l.scaleFactor,
          l.blockHashes[i * l.scaleFactor + k]? = l'.blockHashes[j * l.scaleFactor + k]?) ∧
    (∀ (blockHash : BlockHash), ∀ groupId < 2 ^ 32,
      getBlockHash (makeBlockHashWithGroupId blockHash groupId) = blockHash ∧
        getGroupId (makeBlockHashWithGroupId blockHash groupId) = groupId) ∧
    ∀ (x y : BlockHash), ∀ g < 2 ^ 32, ∀ g' < 2 ^ 32,
      makeBlockHashWithGroupId x g = makeBlockHashWithGroupId y g' → x = y ∧ g = g' := by
  refine ⟨len_eq hpos, fun i hi => getValueAt_ok hpos hi, ?_, fun l' width hfactor hw hw' i hi j hj =>
    eq_of_getValueAt_eq hpos hfactor hw hw' hi hj, fun blockHash g hg =>
    ⟨getBlockHash_makeBlockHashWithGroupId blockHash g, getGroupId_makeBlockHashWithGroupId blockHash hg⟩,
    fun x y g hg g' hg' => (makeBlockHashWithGroupId_inj_iff hg hg').mp⟩
  refine ⟨_, iter_eq hpos, length_coarseBlockHashes _ _, fun i hi => ?_, fun s => ⟨getSlice_eq hpos s, fun hstep => ?_⟩⟩
  · rw [getValueAt_eq hpos (length_coarseBlockHashes _ _ ▸ hi), List.getD_eq_getElem _ _ hi]
    rfl
  · obtain ⟨start, stop, step, hindices, -⟩ :=
      Py.Slice.exists_indices hstep (coarseBlockHashes l.scaleFactor l.blockHashes).length
    rw [getSlice_eq hpos, Py.getSlice, hindices, Result.ok_bind]
    refine (Result.mapM_ok (P := fun _ => True) fun i hi => ?_).imp fun ys h => h.1
    obtain ⟨hle, hlt⟩ := Py.Slice.mem_range_indices hindices i hi
    obtain ⟨k, rfl⟩ := Int.eq_ofNat_of_zero_le hle
    exact ⟨_, Numpy.item_natCast [] (by omega), trivial⟩

def fiveHashes : BlockHashListWithBlockSize := ⟨[[1], [2], [3], [4], [5]], 2⟩

theorem coarseHashes_faithful_fiveHashes : fiveHashes.len = .ok 2 ∧ fiveHashes.getValueAt (1 : Nat) = .ok [3, 4] ∧
    ∃ xs, fiveHashes.iter = .ok xs ∧ xs.length = 2 ∧ fiveHashes.getSlice { step := some (-1) } =
      Py.getSlice xs { step := some (-1) } := by
  obtain ⟨hlen, hvalue, ⟨xs, hiter, hxs, -, hslice⟩, -⟩ := coarseHashes_faithful fiveHashes (by decide)
  exact ⟨hlen, (hvalue 1 (by decide)).2, xs, hiter, hxs, (hslice _).1⟩

end BlockHashListWithBlockSize

end Vllm
