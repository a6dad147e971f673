import Vllm.Lib.CycleWalk
import Vllm.OptionalData

namespace Vllm.Worker

open CycleWalk

variable {F F32 G E : Type}

section Regions

variable (decodeThreshold numScheduled : Int) (numComputed : Nat)

def isPrefill : Bool := numComputed = 0

def isDecode : Bool := numScheduled ≤ decodeThreshold && !isPrefill numComputed

def isExtend : Bool := numScheduled > decodeThreshold && !isPrefill numComputed

def reqRegion : Nat :=
  if isPrefill numComputed then 2
  else if isExtend decodeThreshold numScheduled numComputed then 1
  else 0

variable {decodeThreshold numScheduled numComputed}

theorem isDecode_iff : isDecode decodeThreshold numScheduled numComputed = true ↔
    reqRegion decodeThreshold numScheduled numComputed = 0 := by
  unfold reqRegion isDecode isExtend
  cases isPrefill numComputed <;> simp

theorem isExtend_iff : isExtend decodeThreshold numScheduled numComputed = true ↔
    reqRegion decodeThreshold numScheduled numComputed = 1 := by
  unfold reqRegion
  split
  · rename_i h
    simp [isExtend, h]
  · split <;> simp [*]

theorem reqRegion_lt : reqRegion decodeThreshold numScheduled numComputed < 3 := by
  unfold reqRegion
  split
  · decide
  · split <;> decide

end Regions

def targetRegion (numDecodes numExtends i : Nat) : Nat :=
  if numDecodes + numExtends ≤ i then 2 else if numDecodes ≤ i then 1 else 0

structure Reordering (F F32 G E : Type) where
  batch : InputBatch F F32 G E
  srcDestMap : Dict Nat Nat
  swaps : List (Nat × Nat)

namespace InputBatch

def scheduledTokens (b : InputBatch F F32 G E) (numScheduledTokens : Dict ReqId Int) :
    Result (List Int) :=
  b.reqIds.mapM fun reqId =>
    match reqId.bind numScheduledTokens.get? with
    | some n => .ok n
    | none => .error .keyError

/-- Swaps until the request that belongs to `src` is there. Every swap brings a request where it
belongs, so there are at most as many as there are entries; these are the fuel. -/
def followCycle (c : InputBatchConfig F F32) :
    Nat → Nat → Nat → Reordering F F32 G E → Result (Reordering F F32 G E)
  | fuel, src, dst, st =>
    if src = dst then .ok st
    else
      match fuel with
      | 0 => .error (.runtimeError "out of fuel")
      | fuel + 1 => do
        let b ← st.batch.swapStates c src dst
        let nextDst := st.srcDestMap.getD dst dst
        followCycle c fuel src nextDst
          { batch := b
            srcDestMap := st.srcDestMap.set dst dst
            swaps := st.swaps ++ [(src, dst)] }

def startCycle (c : InputBatchConfig F F32) (fuel : Nat) (st : Reordering F F32 G E) (src : Nat) :
    Result (Reordering F F32 G E) :=
  match st.srcDestMap.get? src with
  | some dst => followCycle c fuel src dst st
  | none => .error .keyError

def reorderBatchToSplitDecodesAndPrefills (c : InputBatchConfig F F32)
    (numScheduledTokens : Dict ReqId Int) (decodeThreshold : Int) (b : InputBatch F F32 G E) :
    Result (Bool × Reordering F F32 G E) := do
  let numReqs := b.reqIds.length
  let scheduled ← b.scheduledTokens numScheduledTokens
  let numScheduled := fun i => scheduled.getD i 0
  let numComputed := b.numComputedTokensCpu
  let reqRegions := fun i => reqRegion decodeThreshold (numScheduled i) (numComputed i)
  let numDecodes := ((List.range numReqs).filter fun i =>
    isDecode decodeThreshold (numScheduled i) (numComputed i)).length
  let numExtends := ((List.range numReqs).filter fun i =>
    isExtend decodeThreshold (numScheduled i) (numComputed i)).length
  let targetRegions := targetRegion numDecodes numExtends
  let origIndices := (List.range numReqs).filter fun i => reqRegions i ≠ targetRegions i
  if origIndices = [] then return (false, ⟨b, .empty, []⟩)
  let srcIndices := origIndices.insertionSort fun i j => reqRegions i ≤ reqRegions j
  let srcDestMap : Dict Nat Nat :=
    (srcIndices.zip origIndices).foldl (fun d p => d.set p.1 p.2) .empty
  let st ← srcDestMap.keys.foldlM (startCycle c srcDestMap.size) ⟨b, srcDestMap, []⟩
  return (true, st)

variable {c : InputBatchConfig F F32} {b : InputBatch F F32 G E} {st : Reordering F F32 G E}
variable {numScheduledTokens : Dict ReqId Int} {decodeThreshold : Int}

section Sorting

variable {f : Nat → Nat} {n : Nat}

theorem length_filter_regions (hf : ∀ i, f i < 3) :
    ((List.range n).filter fun i => f i = 0).length +
      ((List.range n).filter fun i => f i = 1).length +
      ((List.range n).filter fun i => f i = 2).length = n := by
  induction n with
  | zero => rfl
  | succ n ih =>
    have hlt := hf n
    simp only [List.range_succ, List.filter_append, List.filter_singleton, List.length_append]
    obtain h | h | h : f n = 0 ∨ f n = 1 ∨ f n = 2 := by omega
    all_goals
      simp only [h]
      simp
      omega

theorem map_targetRegion_perm (hf : ∀ i, f i < 3) :
    ((List.range n).map (targetRegion ((List.range n).filter fun i => f i = 0).length
      ((List.range n).filter fun i => f i = 1).length)).Perm ((List.range n).map f) := by
  have htotal := length_filter_regions (n := n) hf
  generalize hd : ((List.range n).filter fun i => f i = 0).length = d at htotal ⊢
  generalize he : ((List.range n).filter fun i => f i = 1).length = e at htotal ⊢
  generalize hp : ((List.range n).filter fun i => f i = 2).length = p at htotal
  have hmap : (List.range n).map (targetRegion d e) =
      List.replicate d 0 ++ (List.replicate e 1 ++ List.replicate p 2) := by
    rw [← htotal, Nat.add_assoc, List.range_add, List.range_add, List.map_append, List.map_append,
      List.map_append, List.map_map, List.map_map, List.map_map]
    congr 1
    · refine List.eq_replicate_iff.mpr ⟨by simp, fun x hx => ?_⟩
      obtain ⟨i, hi, rfl⟩ := List.mem_map.mp hx
      have := List.mem_range.mp hi
      rw [targetRegion, if_neg (by omega), if_neg (by omega)]
    · congr 1
      · refine List.eq_replicate_iff.mpr ⟨by simp, fun x hx => ?_⟩
        obtain ⟨i, hi, rfl⟩ := List.mem_map.mp hx
        have := List.mem_range.mp hi
        rw [Function.comp_apply, targetRegion, if_neg (by omega), if_pos (by omega)]
      · refine List.eq_replicate_iff.mpr ⟨by simp, fun x hx => ?_⟩
        obtain ⟨i, hi, rfl⟩ := List.mem_map.mp hx
        rw [Function.comp_apply, Function.comp_apply, targetRegion, if_pos (by omega)]
  have hcount : ∀ v, ((List.range n).map f).count v =
      ((List.range n).filter fun i => f i = v).length := by
    intro v
    rw [List.count, List.countP_map, List.countP_eq_length_filter]
    congr 1
  rw [hmap, List.perm_iff_count]
  intro v
  rw [hcount]
  simp only [List.count_append, List.count_replicate]
  obtain rfl | rfl | rfl | hv : v = 0 ∨ v = 1 ∨ v = 2 ∨ 3 ≤ v := by omega
  · simp [hd]
  · simp [he]
  · simp [hp]
  · have hnone : ((List.range n).filter fun i => f i = v) = [] := by
      rw [List.filter_eq_nil_iff]
      intro i _
      have := hf i
      simp
      omega
    rw [hnone, beq_false_of_ne (by omega), beq_false_of_ne (by omega), beq_false_of_ne (by omega)]
    rfl

theorem map_insertionSort_eq {t : Nat → Nat} (ht : Monotone t)
    (hperm : ((List.range n).map t).Perm ((List.range n).map f)) :
    (((List.range n).filter fun i => f i ≠ t i).insertionSort fun i j => f i ≤ f j).map f =
      ((List.range n).filter fun i => f i ≠ t i).map t := by
  have : Std.Total fun i j => f i ≤ f j := ⟨fun i j => Nat.le_total (f i) (f j)⟩
  have : IsTrans Nat fun i j => f i ≤ f j := ⟨fun _ _ _ => Nat.le_trans⟩
  have hsame : ((List.range n).filter fun i => ¬ f i ≠ t i).map f =
      ((List.range n).filter fun i => ¬ f i ≠ t i).map t := by
    refine List.map_congr_left fun i hi => ?_
    simpa using (List.mem_filter.mp hi).2
  have hparts : ∀ g : Nat → Nat, ((List.range n).map g).Perm
      (((List.range n).filter fun i => f i ≠ t i).map g ++
        ((List.range n).filter fun i => ¬ f i ≠ t i).map g) := by
    intro g
    rw [← List.map_append]
    refine List.Perm.map g (List.Perm.symm ?_)
    simpa using List.filter_append_perm (fun i => decide (f i ≠ t i)) (List.range n)
  have hmiss : (((List.range n).filter fun i => f i ≠ t i).map f).Perm
      (((List.range n).filter fun i => f i ≠ t i).map t) := by
    have hall := ((hparts f).symm.trans hperm.symm).trans (hparts t)
    rw [hsame] at hall
    exact (List.perm_append_right_iff _).mp hall
  refine List.Perm.eq_of_pairwise' (r := (· ≤ ·)) ?_ ?_ ?_
  · exact List.pairwise_map.mpr (List.pairwise_insertionSort _ _)
  · refine List.pairwise_map.mpr (List.Pairwise.imp (R := (· < ·)) (fun hlt => ht hlt.le) ?_)
    exact List.pairwise_lt_range.filter _
  · exact ((List.perm_insertionSort _ _).map f).trans hmiss

theorem targetRegion_mono (d e : Nat) : Monotone (targetRegion d e) := by
  intro i j hij
  unfold targetRegion
  split
  · rw [if_pos (by omega)]
  · split
    · split
      · omega
      · rw [if_pos (by omega)]
    · exact Nat.zero_le _

end Sorting

section Swaps

def arrangement (swaps : List (Nat × Nat)) : Equiv.Perm Nat :=
  swaps.foldl (fun π p => π * Equiv.swap p.1 p.2) 1

theorem arrangement_concat (swaps : List (Nat × Nat)) (i j : Nat) :
    arrangement (swaps ++ [(i, j)]) = arrangement swaps * Equiv.swap i j :=
  List.foldl_concat ..

structure Progress (c : InputBatchConfig F F32) (b : InputBatch F F32 G E) (ms : List Nat)
    (st : Reordering F F32 G E) : Prop where
  made : st.swaps.foldlM (fun b p => b.swapStates c p.1 p.2) b = .ok st.batch
  shaped : st.batch.Shaped
  full : ∀ i < b.reqIds.length, st.batch.Occupied i
  places : ∀ i, st.batch.place i = { b.place (arrangement st.swaps i) with
    needsTokenIds := b.logitsProcessingNeedsTokenIds i }
  within : ∀ p ∈ st.swaps, p.1 ∈ ms ∧ p.2 ∈ ms
  keys : ∀ i ∈ ms, i ∈ st.srcDestMap.keys

theorem Progress.swap {ms : List Nat} (h : Progress c b ms st)
    (hms : ∀ i ∈ ms, i < b.reqIds.length) {src dst : Nat} (hsrc : src ∈ ms) (hdst : dst ∈ ms) :
    ∃ b', st.batch.swapStates c src dst = .ok b' ∧
      Progress c b ms ⟨b', st.srcDestMap.set dst dst, st.swaps ++ [(src, dst)]⟩ := by
  obtain ⟨id1, h1⟩ := h.full src (hms src hsrc)
  obtain ⟨id2, h2⟩ := h.full dst (hms dst hdst)
  have hok := swapStates_eq (c := c) h.shaped h1 h2
  have hplace := place_swapped (c := c) h.shaped h1 h2
  refine ⟨_, hok, ?_⟩
  constructor
  case made =>
    rw [List.foldlM_append, h.made, Result.ok_bind, List.foldlM_cons, hok]
    rfl
  case shaped => exact h.shaped.swapped h1 h2
  case full =>
    intro i hi
    have hslot : (st.batch.swapped c src dst id1 id2).reqIds[i]? =
        st.batch.reqIds[Equiv.swap src dst i]? := congrArg Place.reqId (hplace i)
    have hlt : Equiv.swap src dst i < b.reqIds.length := by
      have := hms src hsrc
      have := hms dst hdst
      rw [Equiv.swap_apply_def]
      split
      · assumption
      · split <;> assumption
    obtain ⟨id, hid⟩ := h.full _ hlt
    exact ⟨id, hslot.trans hid⟩
  case places =>
    intro i
    have hflag : st.batch.logitsProcessingNeedsTokenIds i = b.logitsProcessingNeedsTokenIds i :=
      congrArg Place.needsTokenIds (h.places i)
    rw [hplace, h.places, hflag, arrangement_concat]
    rfl
  case within =>
    intro p hp
    rw [List.mem_append, List.mem_singleton] at hp
    rcases hp with hp | rfl
    · exact h.within p hp
    · exact ⟨hsrc, hdst⟩
  case keys => exact fun i hi => Dict.mem_keys_set.mpr (.inr (h.keys i hi))

theorem getD_set (d : Dict Nat Nat) (k : Nat) :
    (fun y => (d.set k k).getD y y) = Function.update (fun y => d.getD y y) k k := by
  funext y
  rw [Dict.getD, Dict.get?_set, Function.update_apply]
  split
  · rename_i hk
    rw [if_pos hk.symm, hk]
    rfl
  · rename_i hk
    rw [if_neg (Ne.symm hk)]
    rfl

variable {δ : Equiv.Perm Nat} {ms started : List Nat} {src : Nat}

theorem followCycle_spec (hms : ∀ i ∈ ms, i < b.reqIds.length) (hδ : ∀ i, δ i ∈ ms ↔ i ∈ ms)
    (hsrc : src ∈ ms) {fuel dst : Nat} (h : Progress c b ms st) (hdst : dst ∈ ms)
    (hw : CycleWalk.Walking δ (arrangement st.swaps) (fun y => st.srcDestMap.getD y y) started
      src dst)
    (hfuel : (unsettled δ (arrangement st.swaps) ms.toFinset).card ≤ fuel) :
    ∃ st', followCycle c fuel src dst st = .ok st' ∧ Progress c b ms st' ∧
      Between δ (arrangement st'.swaps) (fun y => st'.srcDestMap.getD y y) (started ++ [src]) := by
  induction fuel generalizing dst st with
  | zero =>
    have heq : src = dst := by
      by_contra hne
      have hmem : dst ∈ unsettled δ (arrangement st.swaps) ms.toFinset :=
        Finset.mem_filter.mpr ⟨List.mem_toFinset.mpr hdst, hw.not_settled hne⟩
      exact absurd (Finset.card_pos.mpr ⟨dst, hmem⟩) (by omega)
    subst heq
    refine ⟨st, ?_, h, hw.between⟩
    rw [followCycle, if_pos rfl]
  | succ fuel ih =>
    by_cases heq : src = dst
    · subst heq
      refine ⟨st, ?_, h, hw.between⟩
      rw [followCycle, if_pos rfl]
    · obtain ⟨b', hok, hp⟩ := h.swap hms hsrc hdst
      have hstep := hw.step heq
      have hcard := hw.card_lt heq (List.mem_toFinset.mpr hdst)
      have hnext : st.srcDestMap.getD dst dst ∈ ms := by
        have hmap : st.srcDestMap.getD dst dst = δ dst := (hw.untouched heq).2
        rw [hmap, hδ]
        exact hdst
      obtain ⟨st', hok', hp', hbetween⟩ := ih hp hnext
        (by
          rw [arrangement_concat, getD_set]
          exact hstep)
        (by
          rw [arrangement_concat]
          omega)
      refine ⟨st', ?_, hp', hbetween⟩
      rw [followCycle, if_neg heq, hok, Result.ok_bind]
      exact hok'

theorem startCycle_spec (hms : ∀ i ∈ ms, i < b.reqIds.length) (hδ : ∀ i, δ i ∈ ms ↔ i ∈ ms)
    (hsrc : src ∈ ms) (h : Progress c b ms st)
    (hb : Between δ (arrangement st.swaps) (fun y => st.srcDestMap.getD y y) started)
    (hnot : src ∉ started) :
    ∃ st', startCycle c ms.length st src = .ok st' ∧ Progress c b ms st' ∧
      Between δ (arrangement st'.swaps) (fun y => st'.srcDestMap.getD y y) (started ++ [src]) := by
  obtain ⟨dst, hdst⟩ := Dict.mem_keys.mp (h.keys src hsrc)
  have hmap : st.srcDestMap.getD src src = dst := by
    rw [Dict.getD, hdst]
    rfl
  have hstart : startCycle c ms.length st src = followCycle c ms.length src dst st := by
    rw [startCycle, hdst]
  rw [hstart]
  rcases hb.walking hnot with hw | ⟨hself, hset⟩
  · simp only [hmap] at hw
    have hmem : dst ∈ ms := by
      by_cases heq : src = dst
      · exact heq ▸ hsrc
      · have hnext := hw.next
        have hcur : arrangement st.swaps src = src := by
          rcases hb src with ⟨hcur, -⟩ | ⟨hset, -⟩
          · exact hcur
          · exact absurd (hset.symm.trans hnext.symm) heq
        rw [hnext, hδ, hcur]
        exact hsrc
    refine followCycle_spec hms hδ hsrc h hmem hw ?_
    exact (Finset.card_filter_le _ _).trans (List.toFinset_card_le ms)
  · rw [hmap] at hself
    subst hself
    refine ⟨st, ?_, h, hb.skip hset⟩
    unfold followCycle
    exact if_pos rfl

end Swaps

section Reorder

variable (numScheduledTokens decodeThreshold b)

def scheduledAt (i : Nat) : Int := ((b.holder i).bind numScheduledTokens.get?).getD 0

def regionAt (i : Nat) : Nat :=
  reqRegion decodeThreshold (b.scheduledAt numScheduledTokens i) (b.numComputedTokensCpu i)

def targetAt : Nat → Nat :=
  targetRegion
    ((List.range b.reqIds.length).filter fun i =>
      b.regionAt numScheduledTokens decodeThreshold i = 0).length
    ((List.range b.reqIds.length).filter fun i =>
      b.regionAt numScheduledTokens decodeThreshold i = 1).length

def misplaced : List Nat :=
  (List.range b.reqIds.length).filter fun i =>
    b.regionAt numScheduledTokens decodeThreshold i ≠ b.targetAt numScheduledTokens decodeThreshold i

def sources : List Nat :=
  (b.misplaced numScheduledTokens decodeThreshold).insertionSort fun i j =>
    b.regionAt numScheduledTokens decodeThreshold i ≤
      b.regionAt numScheduledTokens decodeThreshold j

variable {numScheduledTokens decodeThreshold b}

def AllScheduled (b : InputBatch F F32 G E) (numScheduledTokens : Dict ReqId Int) : Prop :=
  ∀ x ∈ b.reqIds, ∃ id, x = some id ∧ id ∈ numScheduledTokens.keys

theorem scheduledTokens_spec (h : b.AllScheduled numScheduledTokens) :
    ∃ scheduled, b.scheduledTokens numScheduledTokens = .ok scheduled ∧
      ∀ i, scheduled.getD i 0 = b.scheduledAt numScheduledTokens i := by
  have hmap : ∀ l : List (Option ReqId),
      (∀ x ∈ l, ∃ id, x = some id ∧ id ∈ numScheduledTokens.keys) →
      l.mapM (fun reqId => (match reqId.bind numScheduledTokens.get? with
        | some n => .ok n
        | none => .error .keyError : Result Int)) =
      .ok (l.map fun reqId => (reqId.bind numScheduledTokens.get?).getD 0) := by
    intro l hl
    induction l with
    | nil => rfl
    | cons x l ih =>
      obtain ⟨id, rfl, hid⟩ := hl x List.mem_cons_self
      obtain ⟨n, hn⟩ := Dict.mem_keys.mp hid
      rw [List.mapM_cons, ih fun y hy => hl y (List.mem_cons_of_mem _ hy)]
      simp only [Option.bind_some, hn, Result.ok_bind, List.map_cons]
      rfl
  refine ⟨_, hmap b.reqIds h, fun i => ?_⟩
  rw [List.getD_eq_getElem?_getD, List.getElem?_map, scheduledAt, holder]
  cases b.reqIds[i]? with
  | none => rfl
  | some x => rfl

theorem reorder_eq (h : b.AllScheduled numScheduledTokens) :
    b.reorderBatchToSplitDecodesAndPrefills c numScheduledTokens decodeThreshold =
      let ms := b.misplaced numScheduledTokens decodeThreshold
      let d := destinations (b.sources numScheduledTokens decodeThreshold) ms
      if ms = [] then .ok (false, ⟨b, .empty, []⟩)
      else d.keys.foldlM (startCycle c d.size) ⟨b, d, []⟩ >>= fun st => .ok (true, st) := by
  obtain ⟨scheduled, hok, hscheduled⟩ := scheduledTokens_spec h
  have hregion : ∀ i, reqRegion decodeThreshold (scheduled.getD i 0) (b.numComputedTokensCpu i) =
      b.regionAt numScheduledTokens decodeThreshold i := by
    intro i
    rw [hscheduled]
    rfl
  have hdecode : ∀ i, isDecode decodeThreshold (scheduled.getD i 0) (b.numComputedTokensCpu i) =
      decide (b.regionAt numScheduledTokens decodeThreshold i = 0) := by
    intro i
    rw [← hregion, Bool.eq_iff_iff, isDecode_iff, decide_eq_true_eq]
  have hextend : ∀ i, isExtend decodeThreshold (scheduled.getD i 0) (b.numComputedTokensCpu i) =
      decide (b.regionAt numScheduledTokens decodeThreshold i = 1) := by
    intro i
    rw [← hregion, Bool.eq_iff_iff, isExtend_iff, decide_eq_true_eq]
  unfold reorderBatchToSplitDecodesAndPrefills
  simp only [hok, Result.ok_bind, hregion, hdecode, hextend]
  rfl

/-- What the reordering does: it makes its swaps among requests that are out of place, everybody's
data going along, and afterwards the regions are in order. -/
structure Reordered (c : InputBatchConfig F F32) (numScheduledTokens : Dict ReqId Int)
    (decodeThreshold : Int) (b : InputBatch F F32 G E) (modified : Bool)
    (st : Reordering F F32 G E) : Prop where
  made : st.swaps.foldlM (fun b p => b.swapStates c p.1 p.2) b = .ok st.batch
  within : ∀ i, b.reqIds.length ≤ i → arrangement st.swaps i = i
  places : ∀ i, st.batch.place i = { b.place (arrangement st.swaps i) with
    needsTokenIds := b.logitsProcessingNeedsTokenIds i }
  sorted : ∀ i j, i ≤ j → j < b.reqIds.length →
    st.batch.regionAt numScheduledTokens decodeThreshold i ≤
      st.batch.regionAt numScheduledTokens decodeThreshold j
  kept : ∀ i, b.regionAt numScheduledTokens decodeThreshold i =
      b.targetAt numScheduledTokens decodeThreshold i → ∀ p ∈ st.swaps, p.1 ≠ i ∧ p.2 ≠ i
  modified_iff : modified = false ↔ st.swaps = []

theorem regionAt_lt (i : Nat) : b.regionAt numScheduledTokens decodeThreshold i < 3 := reqRegion_lt

theorem mem_misplaced {i : Nat} : i ∈ b.misplaced numScheduledTokens decodeThreshold ↔
    i < b.reqIds.length ∧ b.regionAt numScheduledTokens decodeThreshold i ≠
      b.targetAt numScheduledTokens decodeThreshold i := by
  simp [misplaced]

theorem nodup_misplaced : (b.misplaced numScheduledTokens decodeThreshold).Nodup :=
  List.nodup_range.filter _

theorem sources_perm : (b.sources numScheduledTokens decodeThreshold).Perm
    (b.misplaced numScheduledTokens decodeThreshold) := List.perm_insertionSort _ _

theorem nodup_sources : (b.sources numScheduledTokens decodeThreshold).Nodup :=
  sources_perm.nodup_iff.mpr nodup_misplaced

variable (numScheduledTokens decodeThreshold b)

theorem length_sources : (b.sources numScheduledTokens decodeThreshold).length =
    (b.misplaced numScheduledTokens decodeThreshold).length := sources_perm.length_eq

def relocated : Equiv.Perm Nat :=
  relocation (nodup_sources : (b.sources numScheduledTokens decodeThreshold).Nodup) sources_perm

variable {numScheduledTokens decodeThreshold b}

theorem regionAt_of_mem_zip {i j : Nat}
    (h : (i, j) ∈ (b.sources numScheduledTokens decodeThreshold).zip
      (b.misplaced numScheduledTokens decodeThreshold)) :
    b.regionAt numScheduledTokens decodeThreshold i =
      b.targetAt numScheduledTokens decodeThreshold j := by
  have heq : (b.sources numScheduledTokens decodeThreshold).map
      (b.regionAt numScheduledTokens decodeThreshold) =
      (b.misplaced numScheduledTokens decodeThreshold).map
        (b.targetAt numScheduledTokens decodeThreshold) :=
    map_insertionSort_eq (targetRegion_mono _ _) (map_targetRegion_perm regionAt_lt)
  obtain ⟨k, hk⟩ := List.mem_iff_getElem?.mp h
  obtain ⟨hi, hj⟩ := List.getElem?_zip_eq_some.mp hk
  have hk := congrArg (fun l => l[k]?) heq
  simp only [List.getElem?_map, hi, hj, Option.map_some] at hk
  exact Option.some.inj hk

theorem regionAt_of_settled {π : Equiv.Perm Nat} {i : Nat} (hi : i < b.reqIds.length)
    (h : Settled (b.relocated numScheduledTokens decodeThreshold) π i) :
    b.regionAt numScheduledTokens decodeThreshold (π i) =
      b.targetAt numScheduledTokens decodeThreshold i := by
  have hlen := b.length_sources numScheduledTokens decodeThreshold
  by_cases hmem : π i ∈ b.sources numScheduledTokens decodeThreshold
  · obtain ⟨j, hj⟩ := exists_mem_zip hlen hmem
    have hval : b.relocated numScheduledTokens decodeThreshold (π i) = j :=
      getD_destinations nodup_sources hlen hj
    rw [regionAt_of_mem_zip hj, ← hval]
    exact congrArg _ h
  · have hval : b.relocated numScheduledTokens decodeThreshold (π i) = π i :=
      getD_destinations_of_notMem nodup_sources hlen hmem
    have heq : π i = i := hval.symm.trans h
    rw [heq] at hmem ⊢
    by_contra hne
    exact hmem (sources_perm.mem_iff.mpr (mem_misplaced.mpr ⟨hi, hne⟩))

theorem arrangement_of_notMem {swaps : List (Nat × Nat)} {i : Nat}
    (h : ∀ p ∈ swaps, p.1 ≠ i ∧ p.2 ≠ i) : arrangement swaps i = i := by
  induction swaps using List.reverseRecOn with
  | nil => rfl
  | append_singleton swaps p ih =>
    obtain ⟨h1, h2⟩ := h p (by simp)
    rw [arrangement_concat, Equiv.Perm.mul_apply,
      Equiv.swap_apply_of_ne_of_ne (Ne.symm h1) (Ne.symm h2)]
    exact ih fun q hq => h q (List.mem_append_left _ hq)

theorem regionAt_of_places {b' : InputBatch F F32 G E} {i j : Nat}
    (h : b'.place i = { b.place j with needsTokenIds := b.logitsProcessingNeedsTokenIds i }) :
    b'.regionAt numScheduledTokens decodeThreshold i =
      b.regionAt numScheduledTokens decodeThreshold j := by
  have hid : b'.reqIds[i]? = b.reqIds[j]? := congrArg Place.reqId h
  have hcomputed : b'.numComputedTokensCpu i = b.numComputedTokensCpu j :=
    congrArg Place.numComputedTokens h
  rw [regionAt, regionAt, scheduledAt, scheduledAt, holder, holder, hid, hcomputed]

theorem size_destinations : (destinations (b.sources numScheduledTokens decodeThreshold)
    (b.misplaced numScheduledTokens decodeThreshold)).size =
      (b.misplaced numScheduledTokens decodeThreshold).length := by
  have hlen := b.length_sources numScheduledTokens decodeThreshold
  rw [Dict.size, items_destinations nodup_sources hlen, List.length_zip, hlen, Nat.min_self]

theorem startCycles_spec (decodeThreshold : Int) (hs : b.Shaped) (hall : b.AllScheduled numScheduledTokens) :
    let ms := b.misplaced numScheduledTokens decodeThreshold
    let d := destinations (b.sources numScheduledTokens decodeThreshold) ms
    ∃ st, d.keys.foldlM (startCycle c d.size) ⟨b, d, []⟩ = .ok st ∧ Progress c b ms st ∧
      ∀ i, Settled (b.relocated numScheduledTokens decodeThreshold) (arrangement st.swaps) i := by
  intro ms d
  have hlen := b.length_sources numScheduledTokens decodeThreshold
  have hkeys : d.keys = b.sources numScheduledTokens decodeThreshold :=
    keys_destinations nodup_sources hlen
  have hms : ∀ i ∈ ms, i < b.reqIds.length := fun i hi => (mem_misplaced.mp hi).1
  have hfull : ∀ i < b.reqIds.length, b.Occupied i := by
    intro i hi
    obtain ⟨id, hid, -⟩ := hall _ (List.getElem_mem hi)
    exact ⟨id, by rw [List.getElem?_eq_getElem hi, hid]⟩
  have hstart : Progress c b ms ⟨b, d, []⟩ := by
    refine ⟨rfl, hs, hfull, fun _ => rfl, nofun, fun i hi => ?_⟩
    show i ∈ d.keys
    rw [hkeys]
    exact sources_perm.mem_iff.mpr hi
  obtain ⟨st, hok, hp, hb⟩ := Result.foldlM_inv (f := startCycle c d.size) (l := d.keys)
    (I := fun started st => Progress c b ms st ∧
      Between (relocation nodup_sources sources_perm) (arrangement st.swaps)
        (fun y => st.srcDestMap.getD y y) started)
    (fun started src rest st hsplit ⟨hp, hb⟩ => by
      have hsrc : src ∈ ms := by
        refine sources_perm.mem_iff.mp ?_
        rw [← hkeys, hsplit]
        simp
      have hnot : src ∉ started := Result.notMem_done hsplit (hkeys ▸ nodup_sources)
      rw [size_destinations]
      obtain ⟨st', hok, hp', hb'⟩ :=
        startCycle_spec hms (fun i => relocation_mem _ _) hsrc hp hb hnot
      exact ⟨st', hok, hp', hb'⟩)
    ⟨hstart, between_start fun _ => rfl⟩
  refine ⟨st, hok, hp, hb.settled fun y hy => ?_⟩
  rw [hkeys]
  by_contra hnot
  exact hy (getD_destinations_of_notMem nodup_sources hlen hnot)

theorem exists_reordered (hs : b.Shaped) (hall : b.AllScheduled numScheduledTokens) :
    ∃ modified st, b.reorderBatchToSplitDecodesAndPrefills c numScheduledTokens decodeThreshold =
        .ok (modified, st) ∧
      Reordered c numScheduledTokens decodeThreshold b modified st := by
  rw [reorder_eq hall]
  simp only
  have htarget : ∀ i ∉ b.misplaced numScheduledTokens decodeThreshold, i < b.reqIds.length →
      b.regionAt numScheduledTokens decodeThreshold i =
        b.targetAt numScheduledTokens decodeThreshold i := by
    intro i hi hlt
    by_contra hne
    exact hi (mem_misplaced.mpr ⟨hlt, hne⟩)
  split
  · rename_i hnil
    refine ⟨false, _, rfl, rfl, fun _ _ => rfl, fun _ => rfl, fun i j hij hj => ?_,
      fun _ _ _ => nofun, by simp⟩
    rw [htarget i (by simp [hnil]) (by omega), htarget j (by simp [hnil]) hj]
    exact targetRegion_mono _ _ hij
  · rename_i hne
    obtain ⟨st, hok, hp, hset⟩ := startCycles_spec (c := c) decodeThreshold hs hall
    have hregion : ∀ i < b.reqIds.length, st.batch.regionAt numScheduledTokens decodeThreshold i =
        b.targetAt numScheduledTokens decodeThreshold i := by
      intro i hi
      rw [regionAt_of_places (hp.places i)]
      exact regionAt_of_settled hi (hset i)
    rw [hok, Result.ok_bind]
    refine ⟨true, st, rfl, ?_⟩
    constructor
    case made => exact hp.made
    case within =>
      intro i hi
      refine arrangement_of_notMem fun p hmem => ?_
      obtain ⟨h1, h2⟩ := hp.within p hmem
      have := (mem_misplaced.mp h1).1
      have := (mem_misplaced.mp h2).1
      omega
    case places => exact hp.places
    case sorted =>
      intro i j hij hj
      rw [hregion i (by omega), hregion j hj]
      exact targetRegion_mono _ _ hij
    case kept =>
      intro i hi p hmem
      obtain ⟨h1, h2⟩ := hp.within p hmem
      have h1 := (mem_misplaced.mp h1).2
      have h2 := (mem_misplaced.mp h2).2
      exact ⟨fun heq => h1 (heq ▸ hi), fun heq => h2 (heq ▸ hi)⟩
    case modified_iff =>
      refine iff_of_false (by simp) fun hswaps => ?_
      -- without a swap nobody has moved, so that nobody was out of place
      obtain ⟨i, hi⟩ := List.exists_mem_of_ne_nil _ hne
      obtain ⟨hlt, hmis⟩ := mem_misplaced.mp hi
      have hregion := hregion i hlt
      rw [regionAt_of_places (hp.places i), hswaps] at hregion
      exact hmis hregion

/-- A batch of scheduled requests is reordered: the function ends, its swaps bring the decodes
before the extends and these before the prefills, and nobody already in place is moved. -/
theorem reorder_spec (hs : b.Shaped) (hall : b.AllScheduled numScheduledTokens) :
    ∃ modified st, b.reorderBatchToSplitDecodesAndPrefills c numScheduledTokens decodeThreshold =
        .ok (modified, st) ∧
      Reordered c numScheduledTokens decodeThreshold b modified st :=
  exists_reordered hs hall

theorem reordered_of_ok {modified : Bool} (hs : b.Shaped)
    (hall : b.AllScheduled numScheduledTokens)
    (h : b.reorderBatchToSplitDecodesAndPrefills c numScheduledTokens decodeThreshold =
      .ok (modified, st)) : Reordered c numScheduledTokens decodeThreshold b modified st := by
  obtain ⟨modified', st', hok, hspec⟩ : ∃ modified' st',
      b.reorderBatchToSplitDecodesAndPrefills c numScheduledTokens decodeThreshold =
        .ok (modified', st') ∧
      Reordered c numScheduledTokens decodeThreshold b modified' st' := exists_reordered hs hall
  cases h.symm.trans hok
  exact hspec

theorem Reordered.length_eq {modified : Bool}
    (h : Reordered c numScheduledTokens decodeThreshold b modified st) :
    st.batch.reqIds.length = b.reqIds.length := by
  have hget : ∀ i : Nat, st.batch.reqIds[i]? = b.reqIds[arrangement st.swaps i]? :=
    fun i => congrArg Place.reqId (h.places i)
  apply Nat.le_antisymm
  · have hnone := hget b.reqIds.length
    rw [h.within _ (Nat.le_refl _), List.getElem?_eq_none (Nat.le_refl _)] at hnone
    exact List.getElem?_eq_none_iff.1 hnone
  · by_contra hlt
    have hnone := hget st.batch.reqIds.length
    rw [List.getElem?_eq_none (Nat.le_refl _)] at hnone
    have hout := List.getElem?_eq_none_iff.1 hnone.symm
    -- an index outside stays, so that it cannot be reached from within
    have heq := (arrangement st.swaps).injective (h.within _ hout)
    omega

end Reorder

section Sample

def reorderConfig : InputBatchConfig Int Int := { sampleConfig with maxNumReqs := 4 }

def computedRequest (id : ReqId) (numComputedTokens : Nat) : CachedRequestState Int Nat Nat :=
  { ModelRunner.embedsRequest id none 1 ModelRunner.length_oneToken with numComputedTokens }

def mixedRun : List (BatchOp Int Nat Nat) :=
  [.addRequest (computedRequest "a" 0), .addRequest (computedRequest "b" 4),
    .addRequest (computedRequest "c" 7), .addRequest (computedRequest "d" 2)]

def mixedTokens : Dict ReqId Int :=
  (((Dict.empty.set "a" 3).set "b" 5).set "c" 1).set "d" 1

theorem reorder_spec_mixedRun : ∃ st modified st',
    runSteps (ModelRunner.batchStep reorderConfig) (ModelRunner.init reorderConfig [sampleTable])
      mixedRun = .ok st ∧
    st.batch.reorderBatchToSplitDecodesAndPrefills reorderConfig mixedTokens 1 =
      .ok (modified, st') ∧
    Reordered reorderConfig mixedTokens 1 st.batch modified st' := by
  obtain ⟨st, hok, hids⟩ := Result.exists_of_holds
    (x := runSteps (ModelRunner.batchStep reorderConfig)
      (ModelRunner.init reorderConfig [sampleTable]) mixedRun)
    (p := fun st => st.batch.reqIds = [some "a", some "b", some "c", some "d"])
    (by decide +kernel)
  have hids := of_decide_eq_true hids
  have hknown := ModelRunner.known_of_run (by decide +kernel) hok
  have hall : st.batch.AllScheduled mixedTokens := by
    unfold AllScheduled
    rw [hids]
    decide +kernel
  obtain ⟨modified, st', hreorder, hspec⟩ : ∃ modified st',
      st.batch.reorderBatchToSplitDecodesAndPrefills reorderConfig mixedTokens 1 =
        .ok (modified, st') ∧ Reordered reorderConfig mixedTokens 1 st.batch modified st' :=
    reorder_spec hknown.shaped hall
  exact ⟨st, modified, st', hok, hreorder, hspec⟩

end Sample

end InputBatch

end Vllm.Worker
