import Vllm.InputIds

namespace Vllm.InputIds

open Sample Segments

section Copies

variable {α E : Type}

theorem copyInto_ok {xs ys : List α} {n : Nat} (hys : ys.length = n) (hxs : n ≤ xs.length) :
    copyInto xs n ys = .ok (ys ++ xs.drop n) :=
  if_pos (by rw [List.length_take, hys, Nat.min_eq_left hxs])

theorem getElem?_copied {xs ys : List α} {n k : Nat} (hys : ys.length = n) :
    (ys ++ xs.drop n)[k]? = if k < n then ys[k]? else xs[k]? := by
  split
  · rename_i hk
    exact List.getElem?_append_left (by omega)
  · rename_i hk
    rw [List.getElem?_append_right (by omega), List.getElem?_drop, hys]
    congr 1
    omega

theorem length_copied {xs ys : List α} {n : Nat} (hys : ys.length = n) (hxs : n ≤ xs.length) :
    (ys ++ xs.drop n).length = xs.length := by
  rw [List.length_append, hys, List.length_drop]
  omega

theorem CpuGpuBuffer.copyToGpu_ok {b : CpuGpuBuffer α} {n : Nat} (hlen : b.cpu.length = b.gpu.length)
    (hn : n ≤ b.gpu.length) : b.copyToGpu n = .ok { b with gpu := b.cpu.take n ++ b.gpu.drop n } := by
  have htake : (b.cpu.take n).length = n := by
    rw [List.length_take]
    omega
  rw [CpuGpuBuffer.copyToGpu, copyInto_ok htake hn]
  rfl

end Copies

variable {ReqId E : Type} [DecidableEq ReqId] {s : Step ReqId E}

namespace Step

variable {r r' : ReqId} {i i' n n' j j' p p' : Nat}

theorem Valid.index_lt (h : s.Valid) (hr : s.batch.reqIdToIndex.get? r = some i) :
    i < s.numScheduledTokens.length := by
  have hvalue : i ∈ s.batch.reqIdToIndex.values := Dict.mem_values.mpr ⟨r, hr⟩
  exact List.mem_range.mp (h.indexes.mem_iff.mp hvalue)

theorem Valid.exists_scheduled (h : s.Valid) (hr : s.batch.reqIdToIndex.get? r = some i) : ∃ n, s.Scheduled r i n :=
  ⟨_, hr, List.getElem?_eq_getElem (h.index_lt hr)⟩

theorem Scheduled.pos (hr : s.Scheduled r i n) (h : s.Valid) : 1 ≤ n :=
  h.scheduled.2 n (List.mem_of_getElem? hr.count)

theorem Scheduled.lt (hr : s.Scheduled r i n) : i < s.numScheduledTokens.length :=
  (List.getElem?_eq_some_iff.mp hr.count).1

theorem start_succ (hn : s.numScheduledTokens[i]? = some n) : s.start (i + 1) = s.start i + n := by
  obtain ⟨hi, rfl⟩ := List.getElem?_eq_some_iff.mp hn
  rw [start, start, List.take_add_one, List.sum_append, List.getElem?_eq_getElem hi]
  simp

theorem Scheduled.place_inj (hr : s.Scheduled r i n) (hr' : s.Scheduled r' i' n') (hj : j < n) (hj' : j' < n')
    (h : s.start i + j = s.start i' + j') : i = i' ∧ j = j' :=
  sum_take_add_inj hr.count hr'.count hj hj' h

theorem Valid.request_inj (h : s.Valid) (hr : s.batch.reqIdToIndex.get? r = some i)
    (hr' : s.batch.reqIdToIndex.get? r' = some i) : r = r' := by
  have hnodup : s.batch.reqIdToIndex.values.Nodup := h.indexes.nodup_iff.mpr List.nodup_range
  exact congrArg Prod.fst (List.inj_on_of_nodup_map hnodup (Dict.get?_eq_some.mp hr) (Dict.get?_eq_some.mp hr') rfl)

theorem Scheduled.place_lt (hr : s.Scheduled r i n) (hj : j < n) : s.start i + j < s.numScheduledTokens.sum := by
  have hle := sum_take_add_le hr.count (Nat.lt_of_lt_of_le (Nat.lt_succ_self i) hr.lt)
  rw [List.take_length] at hle
  rw [start]
  omega

theorem getElem?_total {α : Type} {l ys : List α} {get : Nat → Nat → Option α} (hlen : ys.length = s.numScheduledTokens.sum)
    (hys : ∀ r i n, s.Scheduled r i n → ∀ j < n, ys[s.start i + j]? = get i j) (hr : s.Scheduled r i n) (hj : j < n) :
    (ys ++ l.drop s.numScheduledTokens.sum)[s.start i + j]? = get i j := by
  rw [getElem?_copied hlen, if_pos (hr.place_lt hj)]
  exact hys r i n hr j hj

end Step

structure Filled (s : Step ReqId E) (filled : GPUModelRunner E) : Prop where
  tokens : ∀ r i n, s.Scheduled r i n → ∀ j < n, filled.inputIds.cpu[s.start i + j]? = s.cpuToken i j
  mask : s.runner.enablePromptEmbeds = true → ∀ r i n, s.Scheduled r i n → ∀ j < n,
    filled.isTokenIds.cpu[s.start i + j]? = s.mask i j
  inputIds : filled.inputIds.gpu = s.runner.inputIds.gpu ∧ filled.inputIds.cpu.length = s.runner.inputIds.cpu.length
  isTokenIds : filled.isTokenIds.gpu = s.runner.isTokenIds.gpu ∧
    filled.isTokenIds.cpu.length = s.runner.isTokenIds.cpu.length
  inputsEmbeds : filled.inputsEmbeds = s.runner.inputsEmbeds
  enablePromptEmbeds : filled.enablePromptEmbeds = s.runner.enablePromptEmbeds
  numSpecTokens : filled.numSpecTokens = s.runner.numSpecTokens
  draftTokenIds : filled.draftTokenIds = s.runner.draftTokenIds

def tokenIndex (s : Step ReqId E) (x : Nat × Nat) : Nat :=
  s.batch.numComputedTokensCpu.getD x.1 0 + x.2 + x.1 * s.batch.maxModelLen

def Step.count (s : Step ReqId E) (i : Nat) : Nat := s.numScheduledTokens.getD i 0

theorem map_count (s : Step ReqId E) :
    (List.range s.numScheduledTokens.length).map s.count = s.numScheduledTokens :=
  map_getD_range s.numScheduledTokens 0

/-- The places of the batch: a row, and a token of it. -/
def Step.places (s : Step ReqId E) : List (Nat × Nat) := labels s.count (List.range s.numScheduledTokens.length)

theorem reqIndices_eq (s : Step ReqId E) :
    repeatEach (List.range s.numScheduledTokens.length) s.numScheduledTokens = s.places.map Prod.fst := by
  conv_lhs => rw [← List.map_id (List.range s.numScheduledTokens.length), ← map_count s, List.length_map, List.length_range]
  rw [repeatEach_map, Step.places, labels, List.map_flatMap]
  refine List.flatMap_congr fun i _ => ?_
  simp [Function.comp_def]

theorem arange_eq (s : Step ReqId E) :
    ((List.range s.numScheduledTokens.length).flatMap fun i => List.range (s.count i)) = s.places.map Prod.snd := by
  rw [Step.places, labels, List.map_flatMap]
  refine List.flatMap_congr fun i _ => ?_
  rw [List.map_map]
  exact (List.map_id _).symm

theorem gather_map {α β : Type} {xs : List β} {l : List α} {f : α → Nat} {g : α → β}
    (h : ∀ a ∈ l, xs[f a]? = some (g a)) : gather xs (l.map f) = .ok (l.map g) := by
  refine gather_eq_ok ?_
  rw [List.map_map, List.map_map]
  exact List.map_congr_left h

theorem getElem?_places {i n j : Nat} (hn : s.numScheduledTokens[i]? = some n) (hj : j < n) :
    s.places[s.start i + j]? = some (i, j) := by
  obtain ⟨hi, hget⟩ := List.getElem?_eq_some_iff.mp hn
  have hcount : s.count i = n := by rw [Step.count, List.getD_eq_getElem?_getD, hn, Option.getD_some]
  have hread := @getElem?_flatMap_take _ _ (List.range s.numScheduledTokens.length) i s.count j
    (fun i => (List.range (s.count i)).map (i, ·)) i (fun _ _ => by simp) (List.getElem?_range hi) (hcount ▸ hj)
  rw [map_count] at hread
  refine hread.trans ?_
  rw [List.getElem?_map, List.getElem?_range (hcount ▸ hj)]
  rfl

theorem mem_places {x : Nat × Nat} (hx : x ∈ s.places) :
    ∃ n, s.numScheduledTokens[x.1]? = some n ∧ x.2 < n := by
  obtain ⟨hi, hj⟩ := mem_labels.mp hx
  have hlt := List.mem_range.mp hi
  refine ⟨_, List.getElem?_eq_getElem hlt, ?_⟩
  rwa [Step.count, List.getD_eq_getElem _ _ hlt] at hj

theorem length_places (s : Step ReqId E) : s.places.length = s.numScheduledTokens.sum := by
  rw [Step.places, length_labels, map_count]

theorem tokenIndex_eq (h : s.Valid) {i n j c : Nat} (hn : s.numScheduledTokens[i]? = some n) (hj : j < n)
    (hc : s.batch.numComputedTokensCpu[i]? = some c) :
    tokenIndex s (i, j) = i * s.batch.maxModelLen + (c + j) ∧ c + j < s.batch.maxModelLen := by
  have hroom := h.room i n c hn hc
  rw [tokenIndex, List.getD_eq_getElem?_getD, hc, Option.getD_some]
  exact ⟨Nat.add_comm _ _, by omega⟩

theorem gather_rows (h : s.Valid) {α : Type} {rows : List (List α)} (hwidth : ∀ row ∈ rows, row.length = s.batch.maxModelLen)
    (hrows : rows.length = s.batch.numComputedTokensCpu.length) :
    ∃ ys, gather rows.flatten (s.places.map (tokenIndex s)) = .ok ys ∧ ys.length = s.numScheduledTokens.sum ∧
      ∀ i n, s.numScheduledTokens[i]? = some n → ∀ j < n, ys[s.start i + j]? =
        rows[i]?.bind fun row => s.batch.numComputedTokensCpu[i]?.bind fun c => row[c + j]? := by
  have hread : ∀ i n, s.numScheduledTokens[i]? = some n → ∀ j < n, ∃ c, s.batch.numComputedTokensCpu[i]? = some c ∧
      rows.flatten[tokenIndex s (i, j)]? = rows[i]?.bind fun row => row[c + j]? := by
    intro i n hn j hj
    have hi := (List.getElem?_eq_some_iff.mp hn).1
    have hc := List.getElem?_eq_getElem (Nat.lt_of_lt_of_le hi h.rows.2.2)
    obtain ⟨hindex, hlt⟩ := tokenIndex_eq h hn hj hc
    refine ⟨_, hc, ?_⟩
    rw [hindex, ← List.flatMap_id]
    exact getElem?_flatMap_const hwidth hlt
  have hlt : ∀ k ∈ s.places.map (tokenIndex s), k < rows.flatten.length := by
    intro k hk
    obtain ⟨x, hx, rfl⟩ := List.mem_map.mp hk
    obtain ⟨n, hn, hj⟩ := mem_places hx
    obtain ⟨c, hc, hget⟩ := hread x.1 n hn x.2 hj
    have hroom := h.room x.1 n c hn hc
    have hi : x.1 < rows.length := hrows ▸ (List.getElem?_eq_some_iff.mp hc).1
    have hlen : (rows[x.1]).length = s.batch.maxModelLen := hwidth _ (List.getElem_mem hi)
    have hin : c + x.2 < (rows[x.1]).length := by omega
    rw [List.getElem?_eq_getElem hi, Option.bind_some, List.getElem?_eq_getElem hin] at hget
    exact (List.getElem?_eq_some_iff.mp hget).1
  obtain ⟨ys, hok, hlen, hys⟩ := gather_ok rows.flatten _ hlt
  refine ⟨ys, hok, ?_, fun i n hn j hj => ?_⟩
  · rw [hlen, List.length_map, length_places]
  · obtain ⟨c, hc, hget⟩ := hread i n hn j hj
    rw [hys _ _ (by rw [List.getElem?_map, getElem?_places hn hj, Option.map_some]), hget, hc]
    rfl

theorem prepareInputs_eq (h : s.Valid) : ∃ self, Filled s self ∧
    s.runner.prepareInputs s.batch s.output s.numScheduledTokens =
      self.prepareInputIds s.batch s.output (cumsum 0 s.numScheduledTokens) := by
  have hsize : s.batch.reqIdToIndex.size = s.numScheduledTokens.length := by
    rw [← List.length_range (n := s.numScheduledTokens.length), ← h.indexes.length_eq]
    exact (List.length_map _).symm
  have hpos : 0 < s.numScheduledTokens.length := List.length_pos_iff.mpr h.scheduled.1
  have htotal : 0 < s.numScheduledTokens.sum :=
    Nat.lt_of_lt_of_le hpos (List.length_le_sum_of_one_le _ h.scheduled.2)
  have hcumsum : Sample.GPUModelRunner.getCumsumAndArange s.numScheduledTokens =
      .ok (cumsum 0 s.numScheduledTokens, s.places.map Prod.snd) := by
    have hok := @Sample.GPUModelRunner.getCumsumAndArange_ok _ (List.range s.numScheduledTokens.length) s.count
      (fun hnil => hpos.ne' (List.range_eq_nil.mp hnil))
    rw [← cumsum_map, map_count, arange_eq] at hok
    exact hok
  have hcomputed : gather s.batch.numComputedTokensCpu (s.places.map Prod.fst) =
      .ok (s.places.map fun x => s.batch.numComputedTokensCpu.getD x.1 0) := by
    refine gather_map fun x hx => ?_
    obtain ⟨n, hn, -⟩ := mem_places hx
    have hi := Nat.lt_of_lt_of_le (List.getElem?_eq_some_iff.mp hn).1 h.rows.2.2
    rw [List.getD_eq_getElem _ _ hi, List.getElem?_eq_getElem hi]
  have hindices : List.zipWith (· + ·) (List.zipWith (· + ·)
      (s.places.map fun x => s.batch.numComputedTokensCpu.getD x.1 0) (s.places.map Prod.snd))
      ((s.places.map Prod.fst).map (· * s.batch.maxModelLen)) = s.places.map (tokenIndex s) := by
    rw [List.zipWith_map, List.zipWith_self, List.map_map, List.zipWith_map, List.zipWith_self]
    rfl
  obtain ⟨tokens, htok, htoklen, htokens⟩ := gather_rows h h.width.1 h.rows.1
  obtain ⟨mask, hmask, hmasklen, hmasks⟩ := gather_rows h h.width.2 h.rows.2.1
  obtain ⟨hids, hmaskCpu, -, -, -, hfit⟩ := h.buffers
  have hcopy : copyInto s.runner.inputIds.cpu s.numScheduledTokens.sum tokens = .ok _ := copyInto_ok htoklen (hids ▸ hfit)
  have hcopyMask : copyInto s.runner.isTokenIds.cpu s.numScheduledTokens.sum mask = .ok _ :=
    copyInto_ok hmasklen (hmaskCpu ▸ hfit)
  unfold GPUModelRunner.prepareInputs
  dsimp only
  rw [Result.ensure, if_pos (show 0 < s.output.totalNumScheduledTokens from htotal), Result.ok_bind, Result.ensure,
    hsize, if_pos hpos, Result.ok_bind, hcumsum, Result.ok_bind]
  dsimp only
  rw [reqIndices_eq, hcomputed, Result.ok_bind, hindices, htok, Result.ok_bind]
  have hread := fun r i n (hr : s.Scheduled r i n) j (hj : j < n) =>
    Step.getElem?_total (l := s.runner.inputIds.cpu) htoklen (fun _ i n hr => htokens i n hr.count) hr hj
  have hlength := length_copied htoklen (hids ▸ hfit)
  rw [show copyInto s.runner.inputIds.cpu s.output.totalNumScheduledTokens tokens = .ok _ from hcopy, Result.ok_bind]
  cases henable : s.runner.enablePromptEmbeds with
  | false =>
    refine ⟨_, ?_, rfl⟩
    exact ⟨hread, fun h => absurd (henable.symm.trans h) Bool.false_ne_true, ⟨rfl, hlength⟩, ⟨rfl, rfl⟩, rfl, henable.symm,
      rfl, rfl⟩
  | true =>
    rw [if_pos rfl, hmask, Result.ok_bind,
      show copyInto s.runner.isTokenIds.cpu s.output.totalNumScheduledTokens mask = .ok _ from hcopyMask, Result.ok_bind]
    refine ⟨_, ?_, rfl⟩
    exact ⟨hread, fun _ r i n hr j hj => Step.getElem?_total hmasklen (fun _ i n hr => hmasks i n hr.count) hr hj,
      ⟨rfl, hlength⟩, ⟨rfl, length_copied hmasklen (hmaskCpu ▸ hfit)⟩, rfl, henable.symm, rfl, rfl⟩

section Loop

structure Common where
  start : Nat
  prevIndex : Nat
  draftLen : Nat

def collected (numSpecTokens : Nat) (l : List Common) : CommonRequests where
  sampleFlattenedIndices := l.map (·.start)
  specFlattenedIndices := l.flatMap fun x => List.range' (x.start + 1) x.draftLen
  prevCommonReqIndices := l.map (·.prevIndex)
  prevDraftTokenIndices := l.flatMap fun x => List.range' (x.prevIndex * numSpecTokens) x.draftLen
  indicesMatch := l.all fun x => x.prevIndex == x.start + x.draftLen
  maxFlattenedIndex := l.foldl (fun m x => max m ((x.start + x.draftLen : Nat) : Int)) (-1)
  totalNumSpecTokens := (l.map (·.draftLen)).sum

def Step.commonOf (s : Step ReqId E) (request : ReqId × Nat) : Option Common :=
  (s.prevIndex request.1).map fun p => ⟨s.start request.2, p, s.draftLen request.1⟩

def Step.commons (s : Step ReqId E) : List Common := s.batch.reqIdToIndex.items.filterMap s.commonOf

theorem getElem?_cumsum {r : ReqId} {i n : Nat} (hr : s.Scheduled r i n) :
    (cumsum 0 s.numScheduledTokens)[i]? = some (s.start i + n) := by
  have hread := @getElem?_cons_cumsum (i + 1) 0 s.numScheduledTokens hr.lt
  rw [List.getElem?_cons_succ, Nat.zero_add] at hread
  rw [hread, ← Step.start_succ hr.count]
  rfl

variable {ids : List Int} {prev : Dict ReqId Nat}

theorem visit_spec (h : s.Valid) (hids : s.batch.prevSampledTokenIds = some ids)
    (hprev : s.batch.prevReqIdToIndex = some prev) {request : ReqId × Nat} (hmem : request ∈ s.batch.reqIdToIndex.items)
    (numSpecTokens : Nat) (l : List Common) :
    visit prev s.scheduledSpecDecodeTokens numSpecTokens (cumsum 0 s.numScheduledTokens) (collected numSpecTokens l)
      request = .ok (collected numSpecTokens (l ++ (s.commonOf request).toList)) := by
  have hindex : s.prevIndex request.1 = prev.get? request.1 := by
    rw [Step.prevIndex, hids, hprev]
    rfl
  unfold visit
  rw [Step.commonOf, hindex]
  cases hget : prev.get? request.1 with
  | none =>
    rw [Option.map_none, Option.toList_none, List.append_nil]
  | some p =>
    obtain ⟨n, hr⟩ := h.exists_scheduled (Dict.get?_eq_some.mpr hmem)
    have hn := h.common _ _ _ _ hr (hindex.trans hget)
    have hcu : Result.getItem (cumsum 0 s.numScheduledTokens) request.2 =
        .ok (s.start request.2 + s.draftLen request.1 + 1) :=
      Result.getItem_eq_ok.mpr ((getElem?_cumsum hr).trans (by rw [hn, Nat.add_assoc]))
    dsimp only
    rw [hcu, Result.ok_bind, Option.map_some, Option.toList_some, Nat.add_sub_cancel]
    have hsub : s.start request.2 + s.draftLen request.1 - (s.scheduledSpecDecodeTokens.getD request.1 []).length =
        s.start request.2 := Nat.add_sub_cancel _ _
    simp only [collected, List.map_append, List.flatMap_append, List.all_append, List.foldl_append, List.sum_append, hsub]
    simp [Step.draftLen, pure, Except.pure]

theorem foldlM_visit (h : s.Valid) (hids : s.batch.prevSampledTokenIds = some ids)
    (hprev : s.batch.prevReqIdToIndex = some prev) (numSpecTokens : Nat) :
    s.batch.reqIdToIndex.items.foldlM
      (visit prev s.scheduledSpecDecodeTokens numSpecTokens (cumsum 0 s.numScheduledTokens)) {} =
      .ok (collected numSpecTokens s.commons) := by
  have hloop : ∀ (items : List (ReqId × Nat)) (l : List Common), (∀ request ∈ items, request ∈ s.batch.reqIdToIndex.items) →
      items.foldlM (visit prev s.scheduledSpecDecodeTokens numSpecTokens (cumsum 0 s.numScheduledTokens))
        (collected numSpecTokens l) = .ok (collected numSpecTokens (l ++ items.filterMap s.commonOf)) := by
    intro items
    induction items with
    | nil =>
      intro l _
      rw [List.filterMap_nil, List.append_nil]
      rfl
    | cons request items ih =>
      intro l hmem
      obtain ⟨hrequest, hitems⟩ := List.forall_mem_cons.mp hmem
      rw [List.foldlM_cons, visit_spec h hids hprev hrequest, Result.ok_bind, ih _ hitems, List.append_assoc]
      cases hcommon : s.commonOf request with
      | none => rw [List.filterMap_cons_none hcommon, Option.toList_none, List.nil_append]
      | some x => rw [List.filterMap_cons_some hcommon, Option.toList_some, List.singleton_append]
  exact hloop _ [] fun _ hmem => hmem

end Loop

theorem mem_commons (h : s.Valid) {x : Common} : x ∈ s.commons ↔
    ∃ r i p, s.Scheduled r i (s.draftLen r + 1) ∧ s.prevIndex r = some p ∧ x = ⟨s.start i, p, s.draftLen r⟩ := by
  rw [Step.commons, List.mem_filterMap]
  constructor
  · rintro ⟨⟨r, i⟩, hmem, hcommon⟩
    obtain ⟨n, hr⟩ := h.exists_scheduled (Dict.get?_eq_some.mpr hmem)
    obtain ⟨p, hp, rfl⟩ := Option.map_eq_some_iff.mp hcommon
    have hn := h.common r i n p hr hp
    exact ⟨r, i, p, hn ▸ hr, hp, rfl⟩
  · rintro ⟨r, i, p, hr, hp, rfl⟩
    exact ⟨(r, i), Dict.get?_eq_some.mp hr.index, by rw [Step.commonOf, hp, Option.map_some]⟩

theorem pairwise_commons (h : s.Valid) : s.commons.Pairwise fun x y =>
    ∀ a ≤ x.draftLen, ∀ b ≤ y.draftLen, x.start + a ≠ y.start + b := by
  have hvalues : (s.batch.reqIdToIndex.items.map Prod.snd).Nodup := h.indexes.nodup_iff.mpr List.nodup_range
  rw [Step.commons, List.pairwise_filterMap]
  refine (List.pairwise_map.mp hvalues).imp_of_mem ?_
  rintro ⟨r, i⟩ ⟨r', i'⟩ hmem hmem' hne x hx y hy a ha b hb heq
  obtain ⟨n, hr⟩ := h.exists_scheduled (Dict.get?_eq_some.mpr hmem)
  obtain ⟨n', hr'⟩ := h.exists_scheduled (Dict.get?_eq_some.mpr hmem')
  obtain ⟨p, hp, rfl⟩ := Option.map_eq_some_iff.mp hx
  obtain ⟨p', hp', rfl⟩ := Option.map_eq_some_iff.mp hy
  have hn := h.common r i n p hr hp
  have hn' := h.common r' i' n' p' hr' hp'
  dsimp only at ha hb heq
  exact hne (hr.place_inj hr' (by omega) (by omega) heq).1

theorem nodup_indices (h : s.Valid) (numSpecTokens : Nat) :
    ((collected numSpecTokens s.commons).sampleFlattenedIndices ++
      (collected numSpecTokens s.commons).specFlattenedIndices).Nodup := by
  have hperm : (s.commons.map (·.start) ++ s.commons.flatMap fun x => List.range' (x.start + 1) x.draftLen).Perm
      (s.commons.flatMap fun x => List.range' x.start (x.draftLen + 1)) := by
    rw [List.map_eq_flatMap]
    exact List.flatMap_append_perm _ _ _
  refine hperm.nodup_iff.mpr (List.nodup_flatMap.mpr ⟨fun x _ => List.nodup_range', ?_⟩)
  refine (pairwise_commons h).imp fun {x y} hne => ?_
  intro k hx hy
  rw [List.mem_range'_1] at hx hy
  refine hne (k - x.start) (by omega) (k - y.start) (by omega) ?_
  omega

def Step.lastPlaces (s : Step ReqId E) : List Nat := s.commons.map fun x => x.start + x.draftLen

theorem nodup_lastPlaces (h : s.Valid) : s.lastPlaces.Nodup :=
  List.pairwise_map.mpr ((pairwise_commons h).imp fun hne => hne _ (Nat.le_refl _) _ (Nat.le_refl _))

theorem mem_lastPlaces (h : s.Valid) {k : Nat} : k ∈ s.lastPlaces ↔
    ∃ r i n p, s.Scheduled r i n ∧ s.prevIndex r = some p ∧ k + 1 = s.start i + n := by
  rw [Step.lastPlaces, List.mem_map]
  constructor
  · rintro ⟨x, hx, rfl⟩
    obtain ⟨r, i, p, hr, hp, rfl⟩ := (mem_commons h).mp hx
    exact ⟨r, i, _, p, hr, hp, rfl⟩
  · rintro ⟨r, i, n, p, hr, hp, hk⟩
    have hn := h.common r i n p hr hp
    subst hn
    exact ⟨_, (mem_commons h).mpr ⟨r, i, p, hr, hp, rfl⟩, by dsimp only; omega⟩

theorem length_commons (s : Step ReqId E) : s.commons.length = s.numCommonTokens := by
  rw [Step.commons, List.length_filterMap_eq_countP, Step.numCommonTokens]
  refine List.countP_congr fun request _ => ?_
  rw [Step.commonOf, Option.isSome_map]

theorem sum_eq (h : s.Valid) : s.numScheduledTokens.sum = s.commons.length + (s.commons.map (·.draftLen)).sum +
    ((s.batch.reqIdToIndex.items.filter fun request => (s.prevIndex request.1).isNone).map fun request =>
      s.count request.2).sum := by
  have hitems : ∀ items : List (ReqId × Nat), (∀ request ∈ items, request ∈ s.batch.reqIdToIndex.items) →
      (items.map fun request => s.count request.2).sum = (items.filterMap s.commonOf).length +
        ((items.filterMap s.commonOf).map (·.draftLen)).sum +
        ((items.filter fun request => (s.prevIndex request.1).isNone).map fun request => s.count request.2).sum := by
    intro items
    induction items with
    | nil => exact fun _ => rfl
    | cons request items ih =>
      intro hmem
      obtain ⟨hrequest, hitems⟩ := List.forall_mem_cons.mp hmem
      obtain ⟨n, hr⟩ := h.exists_scheduled (Dict.get?_eq_some.mpr hrequest)
      have hcount : s.count request.2 = n := by
        rw [Step.count, List.getD_eq_getElem?_getD, hr.count, Option.getD_some]
      rw [List.map_cons, List.sum_cons, ih hitems]
      cases hp : s.prevIndex request.1 with
      | none =>
        rw [List.filterMap_cons_none (by rw [Step.commonOf, hp, Option.map_none]),
          List.filter_cons_of_pos (by rw [hp]; rfl), List.map_cons, List.sum_cons]
        omega
      | some p =>
        have hn := h.common _ _ n p hr hp
        rw [List.filterMap_cons_some (by rw [Step.commonOf, hp, Option.map_some]),
          List.filter_cons_of_neg (by rw [hp]; exact Bool.false_ne_true), List.length_cons, List.map_cons, List.sum_cons]
        dsimp only
        omega
  have hperm := (h.indexes.map s.count).sum_eq
  rw [map_count, Dict.values, List.map_map] at hperm
  exact hperm.symm.trans (hitems _ fun _ hmem => hmem)

theorem length_lt_iff (h : s.Valid) :
    s.commons.length < s.numScheduledTokens.sum - (s.commons.map (·.draftLen)).sum ↔
      ∃ r i n, s.Scheduled r i n ∧ s.prevIndex r = none := by
  have hsum := sum_eq h
  constructor
  · intro hlt
    have hne : (s.batch.reqIdToIndex.items.filter fun request => (s.prevIndex request.1).isNone) ≠ [] := by
      intro hnil
      rw [hnil, List.map_nil, List.sum_nil] at hsum
      omega
    obtain ⟨request, hmem⟩ := List.exists_mem_of_ne_nil _ hne
    obtain ⟨hrequest, hnone⟩ := List.mem_filter.mp hmem
    obtain ⟨n, hr⟩ := h.exists_scheduled (Dict.get?_eq_some.mpr hrequest)
    exact ⟨request.1, request.2, n, hr, Option.isNone_iff_eq_none.mp hnone⟩
  · rintro ⟨r, i, n, hr, hnone⟩
    have hmem : (r, i) ∈ s.batch.reqIdToIndex.items.filter fun request => (s.prevIndex request.1).isNone :=
      List.mem_filter.mpr ⟨Dict.get?_eq_some.mp hr.index, by rw [hnone]; rfl⟩
    have hle := List.length_le_sum_of_one_le ((s.batch.reqIdToIndex.items.filter fun request =>
      (s.prevIndex request.1).isNone).map fun request => s.count request.2) (List.forall_mem_map.mpr fun request hrequest => by
        obtain ⟨n, hr⟩ := h.exists_scheduled (Dict.get?_eq_some.mpr (List.mem_filter.mp hrequest).1)
        rw [Step.count, List.getD_eq_getElem?_getD, hr.count, Option.getD_some]
        exact hr.pos h)
    have hpos := List.length_pos_of_mem hmem
    rw [List.length_map] at hle
    omega

section Copied

variable {self : GPUModelRunner E}

def Step.HasNew (s : Step ReqId E) : Prop := ∃ r i n, s.Scheduled r i n ∧ s.prevIndex r = none

structure Ready (s : Step ReqId E) (filled : GPUModelRunner E) : Prop where
  tokens : ∀ r i n, s.Scheduled r i n → s.prevIndex r = none → ∀ j < n,
    filled.inputIds.gpu[s.start i + j]? = s.cpuToken i j
  mask : s.runner.enablePromptEmbeds = true → s.HasNew → ∀ r i n, s.Scheduled r i n → ∀ j < n,
    filled.isTokenIds.gpu[s.start i + j]? = s.mask i j
  oldMask : ¬ s.HasNew → filled.isTokenIds.gpu = s.runner.isTokenIds.gpu
  fits : s.numScheduledTokens.sum ≤ filled.inputIds.gpu.length ∧ s.numScheduledTokens.sum ≤ filled.isTokenIds.gpu.length
  enablePromptEmbeds : filled.enablePromptEmbeds = s.runner.enablePromptEmbeds
  draftTokenIds : filled.draftTokenIds = s.runner.draftTokenIds

theorem Filled.ready (hf : Filled s self) (h : s.Valid) (hnew : ¬ s.HasNew) : Ready s self where
  tokens r i n hr hp := absurd ⟨r, i, n, hr, hp⟩ hnew
  mask _ hold := absurd hold hnew
  oldMask _ := hf.isTokenIds.1
  fits := by
    obtain ⟨-, -, hmask, -, -, hfit⟩ := h.buffers
    rw [hf.inputIds.1, hf.isTokenIds.1, hmask]
    exact ⟨hfit, hfit⟩
  enablePromptEmbeds := hf.enablePromptEmbeds
  draftTokenIds := hf.draftTokenIds

theorem Filled.copyInputs (hf : Filled s self) (h : s.Valid) (hnew : s.HasNew) :
    ∃ self', self.copyInputs s.numScheduledTokens.sum = .ok self' ∧ Ready s self' := by
  obtain ⟨hids, hmaskCpu, hmask, hembedsCpu, hembeds, hfit⟩ := h.buffers
  have hcopied : ∀ {α : Type} {b : CpuGpuBuffer α} {get : Nat → Nat → Option α},
      s.numScheduledTokens.sum ≤ b.cpu.length → (∀ r i n, s.Scheduled r i n → ∀ j < n, b.cpu[s.start i + j]? = get i j) →
      ∀ r i n, s.Scheduled r i n → ∀ j < n,
        (b.cpu.take s.numScheduledTokens.sum ++ b.gpu.drop s.numScheduledTokens.sum)[s.start i + j]? = get i j := by
    intro α b get hlen hget r i n hr j hj
    refine Step.getElem?_total (List.length_take_of_le hlen) (fun r i n hr j hj => ?_) hr hj
    rw [List.getElem?_take_of_lt (hr.place_lt hj)]
    exact hget r i n hr j hj
  have hidsLen : self.inputIds.cpu.length = self.inputIds.gpu.length := by rw [hf.inputIds.2, hf.inputIds.1, hids]
  have hmaskLen : self.isTokenIds.cpu.length = self.isTokenIds.gpu.length := by
    rw [hf.isTokenIds.2, hf.isTokenIds.1, hmaskCpu, hmask]
  have hidsFit : s.numScheduledTokens.sum ≤ self.inputIds.gpu.length := hf.inputIds.1 ▸ hfit
  have hmaskFit : s.numScheduledTokens.sum ≤ self.isTokenIds.gpu.length := by rw [hf.isTokenIds.1, hmask]; exact hfit
  have hembedsFit : s.numScheduledTokens.sum ≤ self.inputsEmbeds.gpu.length := by rw [hf.inputsEmbeds, hembeds]; exact hfit
  have hidsAfter : s.numScheduledTokens.sum ≤
      (self.inputIds.cpu.take s.numScheduledTokens.sum ++ self.inputIds.gpu.drop s.numScheduledTokens.sum).length :=
    (length_copied (List.length_take_of_le (hidsLen ▸ hidsFit)) hidsFit).symm ▸ hidsFit
  unfold GPUModelRunner.copyInputs
  rw [CpuGpuBuffer.copyToGpu_ok hidsLen hidsFit, Result.ok_bind]
  dsimp only
  cases henable : self.enablePromptEmbeds with
  | false =>
    have hoff : s.runner.enablePromptEmbeds = false := hf.enablePromptEmbeds.symm.trans henable
    refine ⟨_, rfl, ?_⟩
    exact ⟨fun r i n hr _ => hcopied (hidsLen ▸ hidsFit) hf.tokens r i n hr, fun hon => absurd (hoff.symm.trans hon) Bool.false_ne_true,
      fun hno => absurd hnew hno, ⟨hidsAfter, hmaskFit⟩, hoff.symm, hf.draftTokenIds⟩
  | true =>
    have hon : s.runner.enablePromptEmbeds = true := hf.enablePromptEmbeds.symm.trans henable
    rw [if_pos rfl, CpuGpuBuffer.copyToGpu_ok (by rw [hf.inputsEmbeds, hembedsCpu, hembeds]) hembedsFit, Result.ok_bind,
      CpuGpuBuffer.copyToGpu_ok hmaskLen hmaskFit, Result.ok_bind]
    refine ⟨_, rfl, ?_⟩
    exact ⟨fun r i n hr _ => hcopied (hidsLen ▸ hidsFit) hf.tokens r i n hr,
      fun _ _ => hcopied (hmaskLen ▸ hmaskFit) (hf.mask hon), fun hno => absurd hnew hno,
      ⟨hidsAfter, (length_copied (List.length_take_of_le (hmaskLen ▸ hmaskFit)) hmaskFit).symm ▸ hmaskFit⟩, hon.symm, hf.draftTokenIds⟩

end Copied

section Slice

variable {self : GPUModelRunner E} {r : ReqId} {i n j p : Nat}

theorem lastPlaces_perm (h : s.Valid) (hlt : ∀ k ∈ s.lastPlaces, k < s.numCommonTokens) :
    s.lastPlaces.Perm (List.range s.numCommonTokens) := by
  have hlen : s.lastPlaces.length = s.numCommonTokens := by
    rw [Step.lastPlaces, List.length_map, length_commons]
  refine ((nodup_lastPlaces h).subperm fun k hk => List.mem_range.mpr (hlt k hk)).perm_of_length_le ?_
  rw [List.length_range, hlen]

theorem Unchanged.lt (hun : s.Unchanged) (h : s.Valid) : ∀ k ∈ s.lastPlaces, k < s.numCommonTokens := by
  intro k hk
  obtain ⟨r, i, n, p, hr, hp, hlast⟩ := (mem_lastPlaces h).mp hk
  obtain ⟨hprev, hlt⟩ := hun.2 r i n p hr hp
  rw [Step.start_succ hr.count] at hprev
  omega

theorem foldl_max_le_iff {l : List Nat} {m b : Int} :
    l.foldl (fun m (k : Nat) => max m (k : Int)) m ≤ b ↔ m ≤ b ∧ ∀ k ∈ l, (k : Int) ≤ b := by
  induction l generalizing m with
  | nil => exact ⟨fun h => ⟨h, fun k hk => absurd hk List.not_mem_nil⟩, fun h => h.1⟩
  | cons k l ih => rw [List.foldl_cons, ih, max_le_iff, List.forall_mem_cons, and_assoc]

theorem unchanged_iff (h : s.Valid) (hpos : 0 < s.numCommonTokens) (numSpecTokens : Nat) :
    ((collected numSpecTokens s.commons).indicesMatch = true ∧
      (collected numSpecTokens s.commons).maxFlattenedIndex = (s.numCommonTokens : Int) - 1) ↔ s.Unchanged := by
  have hmatch : (collected numSpecTokens s.commons).indicesMatch = true ↔
      ∀ r i n p, s.Scheduled r i n → s.prevIndex r = some p → p + 1 = s.start (i + 1) := by
    rw [collected, List.all_eq_true]
    constructor
    · intro hall r i n p hr hp
      have hn := h.common r i n p hr hp
      have heq := hall _ ((mem_commons h).mpr ⟨r, i, p, hn ▸ hr, hp, rfl⟩)
      rw [beq_iff_eq] at heq
      rw [Step.start_succ hr.count]
      dsimp only at heq
      omega
    · intro hall x hx
      obtain ⟨r, i, p, hr, hp, rfl⟩ := (mem_commons h).mp hx
      have heq := hall r i _ p hr hp
      rw [Step.start_succ hr.count] at heq
      rw [beq_iff_eq]
      dsimp only
      omega
  have hmax : (collected numSpecTokens s.commons).maxFlattenedIndex =
      s.lastPlaces.foldl (fun m (k : Nat) => max m (k : Int)) (-1) := by
    rw [Step.lastPlaces, List.foldl_map]
    rfl
  rw [hmatch, hmax]
  constructor
  · rintro ⟨hall, hlast⟩
    refine ⟨hpos, fun r i n p hr hp => ⟨hall r i n p hr hp, ?_⟩⟩
    have hle := (foldl_max_le_iff.mp hlast.le).2 p ((mem_lastPlaces h).mpr ⟨r, i, n, p, hr, hp, ?_⟩)
    · omega
    · rw [hall r i n p hr hp, Step.start_succ hr.count]
  · intro hun
    have hlt := Unchanged.lt hun h
    refine ⟨fun r i n p hr hp => (hun.2 r i n p hr hp).1, le_antisymm ?_ ?_⟩
    · refine foldl_max_le_iff.mpr ⟨by omega, fun k hk => ?_⟩
      have := hlt k hk
      omega
    · by_contra hsmall
      have hin : s.numCommonTokens - 1 ∈ s.lastPlaces :=
        (lastPlaces_perm h hlt).mem_iff.mpr (List.mem_range.mpr (by omega))
      have hle := ((foldl_max_le_iff (m := -1)).mp (show _ ≤ (s.numCommonTokens : Int) - 2 by omega)).2 _ hin
      omega

theorem Unchanged.place (hun : s.Unchanged) (h : s.Valid) (hr : s.Scheduled r i n) (hj : j < n) :
    s.start i + j < s.numCommonTokens ↔ (∃ p, s.prevIndex r = some p) := by
  have hlt := Unchanged.lt hun h
  constructor
  · intro hplace
    obtain ⟨r', i', n', p, hr', hp, hlast⟩ := (mem_lastPlaces h).mp
      ((lastPlaces_perm h hlt).mem_iff.mpr (List.mem_range.mpr hplace))
    have hpos := hr'.pos h
    obtain ⟨hi, -⟩ := hr.place_inj hr' hj (Nat.sub_lt hpos Nat.one_pos) (by omega)
    subst hi
    exact ⟨p, h.request_inj hr.index hr'.index ▸ hp⟩
  · rintro ⟨p, hp⟩
    have hpos := hr.pos h
    have hlast := hlt (s.start i + (n - 1)) ((mem_lastPlaces h).mpr ⟨r, i, n, p, hr, hp, by omega⟩)
    omega

theorem Unchanged.single (hun : s.Unchanged) (h : s.Valid) (hr : s.Scheduled r i n) (hp : s.prevIndex r = some p) :
    n = 1 ∧ p = s.start i := by
  have hlt := Unchanged.lt hun h
  have hpos := hr.pos h
  have hone : n = 1 := by
    by_contra hne
    have hplace := (Unchanged.place hun h hr (show n - 2 < n by omega)).mpr ⟨p, hp⟩
    obtain ⟨r', i', n', p', hr', hp', hlast⟩ := (mem_lastPlaces h).mp
      ((lastPlaces_perm h hlt).mem_iff.mpr (List.mem_range.mpr hplace))
    have hpos' := hr'.pos h
    obtain ⟨hi, hj⟩ := hr.place_inj hr' (show n - 2 < n by omega) (Nat.sub_lt hpos' Nat.one_pos) (by omega)
    subst hi
    have hn := Option.some_inj.mp (hr.count.symm.trans hr'.count)
    omega
  have hprev := (hun.2 r i n p hr hp).1
  rw [Step.start_succ hr.count] at hprev
  exact ⟨hone, by omega⟩

def Right (s : Step ReqId E) (x : Result (GPUModelRunner E)) : Prop :=
  ∃ after, x = .ok after ∧ s.HasTokens after ∧ (s.HasMask after ↔ s.MaskReady)

theorem token_of_new (hp : s.prevIndex r = none) : s.token r i j = s.cpuToken i j := by
  unfold Step.token
  rw [hp]

theorem token_zero {ids : List Int} (hids : s.batch.prevSampledTokenIds = some ids) (hp : s.prevIndex r = some p) :
    s.token r i 0 = ids[p]? := by
  unfold Step.token
  rw [hp, hids]
  rfl

theorem token_succ (hp : s.prevIndex r = some p) : s.token r i (j + 1) = s.prevDraft p j := by
  unfold Step.token
  rw [hp]

theorem Unchanged.fits (hun : s.Unchanged) (h : s.Valid) {ids : List Int}
    (hids : s.batch.prevSampledTokenIds = some ids) :
    s.numCommonTokens ≤ ids.length ∧ s.numCommonTokens ≤ s.numScheduledTokens.sum := by
  have hpos := hun.1
  obtain ⟨r, i, n, p, hr, hp, hlast⟩ := (mem_lastPlaces h).mp
    ((lastPlaces_perm h (Unchanged.lt hun h)).mem_iff.mpr (List.mem_range.mpr (Nat.sub_lt hpos Nat.one_pos)))
  obtain ⟨hone, hprev⟩ := Unchanged.single hun h hr hp
  obtain ⟨ids', hids', hlt⟩ := h.sampled r p hp
  cases hids.symm.trans hids'
  have hplace := hr.place_lt (j := 0) (by omega)
  omega

theorem getElem?_slice {α : Type} {xs ys : List α} {N k : Nat} (hN : N ≤ ys.length) :
    (ys.take N ++ xs.drop N)[k]? = if k < N then ys[k]? else xs[k]? := by
  rw [getElem?_copied (by rw [List.length_take, Nat.min_eq_left hN])]
  split
  · rename_i hk
    exact List.getElem?_take_of_lt hk
  · rfl

theorem Unchanged.tokens (hun : s.Unchanged) (h : s.Valid) (hr : Ready s self) {ids : List Int}
    (hids : s.batch.prevSampledTokenIds = some ids) :
    ∀ r i n, s.Scheduled r i n → ∀ j < n,
      (ids.take s.numCommonTokens ++ self.inputIds.gpu.drop s.numCommonTokens)[s.start i + j]? = s.token r i j := by
  intro r i n hsched j hj
  rw [getElem?_slice (Unchanged.fits hun h hids).1]
  cases hp : s.prevIndex r with
  | none =>
    have hplace := mt (Unchanged.place hun h hsched hj).mp (by rw [hp]; exact fun h => by obtain ⟨p, hp⟩ := h; cases hp)
    rw [if_neg hplace, hr.tokens r i n hsched hp j hj, token_of_new hp]
  | some p =>
    obtain ⟨hone, hprev⟩ := Unchanged.single hun h hsched hp
    obtain rfl : j = 0 := by omega
    rw [if_pos ((Unchanged.place hun h hsched hj).mpr ⟨p, hp⟩), token_zero hids hp, hprev]
    rfl

theorem copySampled_right (h : s.Valid) (hr : Ready s self) (hun : s.Unchanged) {ids : List Int}
    (hids : s.batch.prevSampledTokenIds = some ids) : Right s (self.copySampled s.numCommonTokens ids) := by
  obtain ⟨hfit, hsum⟩ := Unchanged.fits hun h hids
  have htokens := Unchanged.tokens hun h hr hids
  have hcopy : copyInto self.inputIds.gpu s.numCommonTokens (ids.take s.numCommonTokens) = .ok _ :=
    copyInto_ok (by rw [List.length_take, Nat.min_eq_left hfit]) (Nat.le_trans hsum hr.fits.1)
  unfold GPUModelRunner.copySampled
  rw [hcopy, Result.ok_bind]
  dsimp only [GPUModelRunner.setInputIds]
  cases henable : self.enablePromptEmbeds with
  | false =>
    have hoff : s.runner.enablePromptEmbeds ≠ true := by
      rw [← hr.enablePromptEmbeds, henable]
      exact Bool.false_ne_true
    exact ⟨_, rfl, htokens, iff_of_true (fun hon => absurd hon hoff) fun hon => absurd hon hoff⟩
  | true =>
    have hon : s.runner.enablePromptEmbeds = true := hr.enablePromptEmbeds.symm.trans henable
    have hmask : ∀ k, (List.replicate (self.isTokenIds.gpu.take s.numCommonTokens).length true ++
        self.isTokenIds.gpu.drop s.numCommonTokens)[k]? = if k < s.numCommonTokens then some true else self.isTokenIds.gpu[k]? := by
      intro k
      have hlen : (self.isTokenIds.gpu.take s.numCommonTokens).length = s.numCommonTokens := by
        rw [List.length_take, Nat.min_eq_left (Nat.le_trans hsum hr.fits.2)]
      rw [hlen, getElem?_copied List.length_replicate]
      split
      · rename_i hk
        rw [List.getElem?_replicate, if_pos hk]
      · rfl
    refine ⟨_, rfl, htokens, ?_⟩
    unfold Step.HasMask
    simp only [hmask]
    constructor
    · intro hall _
      refine ⟨fun _ r i n p hsched hp => ?_, fun hnot => absurd hun hnot⟩
      obtain ⟨hone, -⟩ := Unchanged.single hun h hsched hp
      have hj : 0 < n := by omega
      have hread := hall hon r i n hsched 0 hj
      rw [if_pos ((Unchanged.place hun h hsched hj).mpr ⟨p, hp⟩)] at hread
      exact hread.symm
    · intro hready _ r i n hsched j hj
      split
      · rename_i hplace
        obtain ⟨p, hp⟩ := (Unchanged.place hun h hsched hj).mp hplace
        obtain ⟨hone, -⟩ := Unchanged.single hun h hsched hp
        obtain rfl : j = 0 := by omega
        exact ((hready hon).1 hun r i n p hsched hp).symm
      · rename_i hplace
        have hnone : s.prevIndex r = none := Option.eq_none_iff_forall_ne_some.mpr fun p hp =>
          hplace ((Unchanged.place hun h hsched hj).mpr ⟨p, hp⟩)
        exact hr.mask hon ⟨r, i, n, hsched, hnone⟩ r i n hsched j hj

end Slice

section Scatter

variable {self : GPUModelRunner E}

theorem mask_iff (hr : Ready s self) (hun : ¬ s.Unchanged) :
    s.HasMask self ↔ s.MaskReady := by
  unfold Step.HasMask Step.MaskReady
  refine imp_congr_right fun hon => ?_
  by_cases hnew : s.HasNew
  · refine iff_of_true (hr.mask hon hnew) ⟨fun hyes => absurd hyes hun, fun _ hall => ?_⟩
    obtain ⟨r, i, n, hsched, hnone⟩ := hnew
    exact absurd hnone (hall r i n hsched)
  · rw [hr.oldMask hnew]
    constructor
    · exact fun hmask => ⟨fun hyes => absurd hyes hun, fun _ _ => hmask⟩
    · exact fun hready => hready.2 hun fun r i n hsched hnone => hnew ⟨r, i, n, hsched, hnone⟩

variable {ids : List Int} {k : Nat}

theorem scatter_sampled (h : s.Valid) (hr : Ready s self) (hids : s.batch.prevSampledTokenIds = some ids) :
    ∃ sampled gpu, gather ids (collected k s.commons).prevCommonReqIndices = .ok sampled ∧
      scatter self.inputIds.gpu (collected k s.commons).sampleFlattenedIndices sampled = .ok gpu ∧
      gpu.length = self.inputIds.gpu.length ∧ (∀ x ∈ s.commons, gpu[x.start]? = ids[x.prevIndex]?) ∧
      ∀ place ∉ (collected k s.commons).sampleFlattenedIndices, gpu[place]? = self.inputIds.gpu[place]? := by
  have hrows : ∀ p ∈ (collected k s.commons).prevCommonReqIndices, p < ids.length := by
    intro row hrow
    obtain ⟨x, hx, rfl⟩ := List.mem_map.mp hrow
    obtain ⟨r, i, p, hsched, hp, rfl⟩ := (mem_commons h).mp hx
    obtain ⟨ids', hids', hlt⟩ := h.sampled r p hp
    cases hids.symm.trans hids'
    exact hlt
  have hplaces : ∀ place ∈ (collected k s.commons).sampleFlattenedIndices, place < self.inputIds.gpu.length := by
    intro place hplace
    obtain ⟨x, hx, rfl⟩ := List.mem_map.mp hplace
    obtain ⟨r, i, p, hsched, hp, rfl⟩ := (mem_commons h).mp hx
    have hlt := hsched.place_lt (j := 0) (by omega)
    exact Nat.lt_of_lt_of_le hlt hr.fits.1
  obtain ⟨sampled, hgather, hlen, hread⟩ := gather_ok ids _ hrows
  have hsame : (collected k s.commons).sampleFlattenedIndices.length = sampled.length := by
    rw [hlen]
    simp only [collected, List.length_map]
  obtain ⟨gpu, hscatter, hgpu, hset, hrest⟩ := scatter_ok self.inputIds.gpu hsame
    (List.nodup_append.mp (nodup_indices h k)).1 hplaces
  refine ⟨sampled, gpu, hgather, hscatter, hgpu, fun x hx => ?_, hrest⟩
  obtain ⟨t, ht⟩ := List.mem_iff_getElem?.mp hx
  have hstart : (collected k s.commons).sampleFlattenedIndices[t]? = some x.start := by
    rw [collected, List.getElem?_map, ht, Option.map_some]
  have hprev : (collected k s.commons).prevCommonReqIndices[t]? = some x.prevIndex := by
    rw [collected, List.getElem?_map, ht, Option.map_some]
  rw [hset t _ hstart, hread t _ hprev]

theorem Step.Valid.draftRows (h : s.Valid) {x : Common} (hx : x ∈ s.commons) (hd : x.draftLen ≠ 0) :
    ∃ rows, s.runner.draftTokenIds = some (.tensor rows) ∧ (∀ row ∈ rows, row.length = s.runner.numSpecTokens) ∧
      x.prevIndex < rows.length ∧ x.draftLen ≤ s.runner.numSpecTokens := by
  obtain ⟨r, i, p, hsched, hp, rfl⟩ := (mem_commons h).mp hx
  exact h.drafts r i _ p hsched hp hd

theorem scatter_drafts (h : s.Valid) {gpu : List Int} (hgpu : s.numScheduledTokens.sum ≤ gpu.length) {rows : List (List Int)}
    (hk : s.runner.numSpecTokens = k) (hrows : s.runner.draftTokenIds = some (.tensor rows)) :
    ∃ drafts gpu', gather rows.flatten (collected k s.commons).prevDraftTokenIndices = .ok drafts ∧
      scatter gpu (collected k s.commons).specFlattenedIndices drafts = .ok gpu' ∧
      (∀ x ∈ s.commons, ∀ j < x.draftLen, gpu'[x.start + 1 + j]? = s.prevDraft x.prevIndex j) ∧
      ∀ place ∉ (collected k s.commons).specFlattenedIndices, gpu'[place]? = gpu[place]? := by
  have hread : ∀ x ∈ s.commons, ∀ j < x.draftLen, rows.flatten[x.prevIndex * k + j]? = s.prevDraft x.prevIndex j ∧
      x.prevIndex * k + j < rows.flatten.length := by
    intro x hx j hj
    obtain ⟨rows', hrows', hwidth, hlt, hle⟩ := h.draftRows hx (by omega)
    cases hrows.symm.trans hrows'
    rw [hk] at hwidth hle
    have hflat : rows.flatten[x.prevIndex * k + j]? = rows[x.prevIndex]?.bind (·[j]?) := by
      rw [← List.flatMap_id]
      exact getElem?_flatMap_const hwidth (by omega)
    have hrow := hwidth _ (List.getElem_mem hlt)
    refine ⟨hflat.trans (by rw [Step.prevDraft, hrows]), ?_⟩
    rw [List.getElem?_eq_getElem hlt, Option.bind_some, List.getElem?_eq_getElem (show j < rows[x.prevIndex].length by omega)] at hflat
    exact (List.getElem?_eq_some_iff.mp hflat).1
  obtain ⟨drafts, hgather, hlen, hget⟩ := gather_ok rows.flatten (collected k s.commons).prevDraftTokenIndices (by
    intro place hplace
    obtain ⟨x, hx, hin⟩ := List.mem_flatMap.mp hplace
    rw [List.mem_range'_1] at hin
    have hlt := (hread x hx (place - x.prevIndex * k) (by omega)).2
    omega)
  have hsame : (collected k s.commons).specFlattenedIndices.length = drafts.length := by
    rw [hlen]
    simp only [collected, List.length_flatMap, List.length_range']
  obtain ⟨gpu', hscatter, -, hset, hrest⟩ := scatter_ok gpu hsame (List.nodup_append.mp (nodup_indices h k)).2.1 (by
    intro place hplace
    obtain ⟨x, hx, hin⟩ := List.mem_flatMap.mp hplace
    obtain ⟨r, i, p, hsched, hp, rfl⟩ := (mem_commons h).mp hx
    rw [List.mem_range'_1] at hin
    dsimp only at hin
    have hlt := hsched.place_lt (j := place - s.start i) (by omega)
    omega)
  refine ⟨drafts, gpu', hgather, hscatter, fun x hx j hj => ?_, hrest⟩
  obtain ⟨t, ht⟩ := List.mem_iff_getElem?.mp hx
  have hplace := @getElem?_flatMap_take _ _ s.commons x (·.draftLen) j (fun x => List.range' (x.start + 1) x.draftLen) t
    (fun _ _ => List.length_range') ht hj
  have hindex := @getElem?_flatMap_take _ _ s.commons x (·.draftLen) j (fun x => List.range' (x.prevIndex * k) x.draftLen) t
    (fun _ _ => List.length_range') ht hj
  rw [List.getElem?_range' hj] at hplace hindex
  rw [Nat.one_mul] at hplace hindex
  rw [hset _ _ hplace, hget _ _ hindex]
  exact (hread x hx j hj).1

theorem tokens_of_scattered (h : s.Valid) (hr : Ready s self) (hids : s.batch.prevSampledTokenIds = some ids)
    {gpu : List Int} (hsample : ∀ x ∈ s.commons, gpu[x.start]? = ids[x.prevIndex]?)
    (hspec : ∀ x ∈ s.commons, ∀ j < x.draftLen, gpu[x.start + 1 + j]? = s.prevDraft x.prevIndex j)
    (hrest : ∀ place, (∀ x ∈ s.commons, ∀ a ≤ x.draftLen, place ≠ x.start + a) →
      gpu[place]? = self.inputIds.gpu[place]?) :
    ∀ r i n, s.Scheduled r i n → ∀ j < n, gpu[s.start i + j]? = s.token r i j := by
  intro r i n hsched j hj
  cases hp : s.prevIndex r with
  | none =>
    rw [token_of_new hp, ← hr.tokens r i n hsched hp j hj]
    refine hrest _ fun x hx a ha heq => ?_
    obtain ⟨r', i', p, hsched', hp', rfl⟩ := (mem_commons h).mp hx
    obtain ⟨rfl, -⟩ := hsched.place_inj hsched' hj (Nat.lt_succ_of_le ha) heq
    rw [h.request_inj hsched.index hsched'.index, hp'] at hp
    cases hp
  | some p =>
    have hn := h.common r i n p hsched hp
    have hmem := (mem_commons h).mpr ⟨r, i, p, hn ▸ hsched, hp, rfl⟩
    cases j with
    | zero =>
      rw [token_zero hids hp]
      exact hsample _ hmem
    | succ j =>
      have hread := hspec _ hmem j (by dsimp only; omega)
      rw [token_succ hp, ← hread]
      congr 1
      dsimp only
      omega

theorem notMem_indices {place : Nat} (hplace : ∀ x ∈ s.commons, ∀ a ≤ x.draftLen, place ≠ x.start + a) :
    place ∉ (collected k s.commons).sampleFlattenedIndices ∧ place ∉ (collected k s.commons).specFlattenedIndices := by
  constructor
  · intro hin
    obtain ⟨x, hx, rfl⟩ := List.mem_map.mp hin
    exact hplace x hx 0 (Nat.zero_le _) rfl
  · intro hin
    obtain ⟨x, hx, hrange⟩ := List.mem_flatMap.mp hin
    rw [List.mem_range'_1] at hrange
    exact hplace x hx (place - x.start) (by omega) (by omega)

theorem specFlattenedIndices_eq_nil : (collected k s.commons).specFlattenedIndices = [] ↔ ∀ x ∈ s.commons, x.draftLen = 0 := by
  rw [collected, List.flatMap_eq_nil_iff]
  exact forall₂_congr fun x _ => List.range'_eq_nil_iff

theorem scatterTokens_right (h : s.Valid) (hr : Ready s self) (hun : ¬ s.Unchanged)
    (hids : s.batch.prevSampledTokenIds = some ids) :
    Right s (self.scatterTokens (collected s.runner.numSpecTokens s.commons) ids) := by
  obtain ⟨sampled, gpu, hgather, hscatter, hlen, hsample, hrest⟩ := scatter_sampled (k := s.runner.numSpecTokens) h hr hids
  have hmask := mask_iff hr hun
  have hnoDrafts : (collected s.runner.numSpecTokens s.commons).specFlattenedIndices = [] →
      ∀ r i n, s.Scheduled r i n → ∀ j < n, gpu[s.start i + j]? = s.token r i j := by
    intro hnil
    rw [specFlattenedIndices_eq_nil] at hnil
    refine tokens_of_scattered h hr hids hsample (fun x hx j hj => ?_) fun place hplace => hrest _ (notMem_indices hplace).1
    rw [hnil x hx] at hj
    exact absurd hj (Nat.not_lt_zero j)
  unfold GPUModelRunner.scatterTokens
  rw [hgather, Result.ok_bind, hscatter, Result.ok_bind]
  dsimp only [GPUModelRunner.setInputIds]
  cases hdrafts : self.draftTokenIds with
  | none =>
    refine ⟨_, rfl, hnoDrafts (specFlattenedIndices_eq_nil.mpr fun x hx => ?_), hmask⟩
    by_contra hd
    obtain ⟨rows, hrows, -⟩ := h.draftRows hx hd
    rw [← hr.draftTokenIds, hdrafts] at hrows
    cases hrows
  | some draftTokenIds =>
    dsimp only
    split
    · rename_i hnil
      exact ⟨_, rfl, hnoDrafts hnil, hmask⟩
    · rename_i hne
      have hsome : ∃ x ∈ s.commons, x.draftLen ≠ 0 := by
        by_contra hnone
        push Not at hnone
        exact hne (specFlattenedIndices_eq_nil.mpr hnone)
      obtain ⟨x, hx, hd⟩ := hsome
      obtain ⟨rows, hrows, -⟩ := h.draftRows hx hd
      have htensor : draftTokenIds = .tensor rows := by
        rw [← hr.draftTokenIds, hdrafts] at hrows
        exact Option.some_inj.mp hrows
      subst htensor
      obtain ⟨drafts, gpu', hgather', hscatter', hspec, hrest'⟩ := scatter_drafts h (hlen ▸ hr.fits.1) rfl hrows
      dsimp only
      rw [hgather', Result.ok_bind, hscatter', Result.ok_bind]
      refine ⟨_, rfl, tokens_of_scattered h hr hids (fun x hx => ?_) hspec fun place hplace => ?_, hmask⟩
      · have hnot : x.start ∉ (collected s.runner.numSpecTokens s.commons).specFlattenedIndices := fun hin =>
          (List.nodup_append.mp (nodup_indices h s.runner.numSpecTokens)).2.2 _ (List.mem_map_of_mem hx) _ hin rfl
        rw [hrest' _ hnot, hsample x hx]
      · obtain ⟨hnot, hnot'⟩ := notMem_indices (k := s.runner.numSpecTokens) hplace
        rw [hrest' _ hnot', hrest _ hnot]

end Scatter

theorem right_of_new (h : s.Valid) {self : GPUModelRunner E} (hr : Ready s self)
    (hnone : ∀ r i n, s.Scheduled r i n → s.prevIndex r = none) : Right s (.ok self) := by
  refine ⟨self, rfl, fun r i n hsched j hj => ?_, mask_iff hr fun hun => ?_⟩
  · rw [token_of_new (hnone r i n hsched)]
    exact hr.tokens r i n hsched (hnone r i n hsched) j hj
  · have hpos := hun.1
    rw [← length_commons] at hpos
    obtain ⟨x, hx⟩ := List.exists_mem_of_length_pos hpos
    obtain ⟨r, i, p, hsched, hp, -⟩ := (mem_commons h).mp hx
    exact Option.some_ne_none p (hp.symm.trans (hnone r i _ hsched))

theorem Step.Valid.exists_request (h : s.Valid) : ∃ r i n, s.Scheduled r i n := by
  have hpos := List.length_pos_iff.mpr h.scheduled.1
  have hvalue : 0 ∈ s.batch.reqIdToIndex.values := h.indexes.mem_iff.mpr (List.mem_range.mpr hpos)
  obtain ⟨r, hr⟩ := Dict.mem_values.mp hvalue
  exact ⟨r, 0, h.exists_scheduled hr⟩

theorem prepareInputIds_right (h : s.Valid) {self : GPUModelRunner E} (hf : Filled s self) :
    Right s (self.prepareInputIds s.batch s.output (cumsum 0 s.numScheduledTokens)) := by
  unfold GPUModelRunner.prepareInputIds
  cases hids : s.batch.prevSampledTokenIds with
  | none =>
    have hnone : ∀ r, s.prevIndex r = none := fun r => by rw [Step.prevIndex, hids]; rfl
    obtain ⟨r, i, n, hsched⟩ := h.exists_request
    obtain ⟨self', hcopy, hr⟩ := hf.copyInputs h ⟨r, i, n, hsched, hnone r⟩
    dsimp only
    rw [show self.copyInputs s.output.totalNumScheduledTokens = .ok self' from hcopy]
    exact right_of_new h hr fun r _ _ _ => hnone r
  | some ids =>
    cases hprev : s.batch.prevReqIdToIndex with
    | none => exact absurd hprev (h.previous (by rw [hids]; exact Option.some_ne_none ids))
    | some prev =>
      dsimp only
      rw [hf.numSpecTokens, show s.output.scheduledSpecDecodeTokens = s.scheduledSpecDecodeTokens from rfl,
        foldlM_visit h hids hprev, Result.ok_bind]
      have hlen : (collected s.runner.numSpecTokens s.commons).sampleFlattenedIndices.length = s.commons.length :=
        List.length_map _
      have hfinish : ∀ {self' : GPUModelRunner E}, Ready s self' → Right s
          (if s.numCommonTokens = 0 then .ok self'
          else if (collected s.runner.numSpecTokens s.commons).indicesMatch = true ∧
              (collected s.runner.numSpecTokens s.commons).maxFlattenedIndex = (s.numCommonTokens : Int) - 1 then
            self'.copySampled s.numCommonTokens ids
          else self'.scatterTokens (collected s.runner.numSpecTokens s.commons) ids) := by
        intro self' hr
        split
        · rename_i hzero
          refine right_of_new h hr fun r i n hsched => Option.eq_none_iff_forall_ne_some.mpr fun p hp => ?_
          have hn := h.common r i n p hsched hp
          have hmem := (mem_commons h).mpr ⟨r, i, p, hn ▸ hsched, hp, rfl⟩
          exact (List.length_pos_of_mem hmem).ne' ((length_commons s).trans hzero)
        · rename_i hzero
          have htest := unchanged_iff h (Nat.pos_of_ne_zero hzero) s.runner.numSpecTokens
          split
          · rename_i hslice
            exact copySampled_right h hr (htest.mp hslice) hids
          · rename_i hslice
            exact scatterTokens_right h hr (mt htest.mpr hslice) hids
      rw [hlen]
      split
      · rename_i hlt
        obtain ⟨self', hcopy, hr⟩ := hf.copyInputs h ((length_lt_iff h).mp hlt)
        rw [show self.copyInputs s.output.totalNumScheduledTokens = .ok self' from hcopy, Result.ok_bind, length_commons]
        exact hfinish hr
      · rename_i hlt
        rw [length_commons, Result.ok_bind]
        exact hfinish (hf.ready h (mt (length_lt_iff h).mpr hlt))

theorem prepareInputs_right (h : s.Valid) : Right s (s.runner.prepareInputs s.batch s.output s.numScheduledTokens) := by
  obtain ⟨self, hf, heq⟩ := prepareInputs_eq h
  rw [heq]
  exact prepareInputIds_right h hf

/-- On every path, every place of the input ids gets its token. -/
theorem Step.hasTokens_prepareInputs (h : s.Valid) :
    ∃ after, s.runner.prepareInputs s.batch s.output s.numScheduledTokens = .ok after ∧ s.HasTokens after := by
  obtain ⟨after, hok, htokens, -⟩ := prepareInputs_right h
  exact ⟨after, hok, htokens⟩

/-- A batch whose requests are all common, and not where they were, keeps the mask of the step before. -/
theorem Step.hasMask_prepareInputs_iff (h : s.Valid) :
    ∃ after, s.runner.prepareInputs s.batch s.output s.numScheduledTokens = .ok after ∧ (s.HasMask after ↔ s.MaskReady) := by
  obtain ⟨after, hok, -, hmask⟩ := prepareInputs_right h
  exact ⟨after, hok, hmask⟩

/-- Two requests have changed places; the one that is first now has one draft, the other one has two. -/
def movedStep : Step String Unit where
  batch :=
    { reqIdToIndex := (Dict.empty.set "a" 1).set "b" 0
      maxModelLen := 6
      tokenIdsCpu := [[4, 5, -1, 0, 0, 0], [7, 8, 6, -1, 0, 0]]
      isTokenIds := [[true, true, true, true, false, false], [true, true, true, true, true, true]]
      numComputedTokensCpu := [2, 3]
      prevSampledTokenIds := some [5, 9]
      prevReqIdToIndex := some ((Dict.empty.set "a" 0).set "b" 1) }
  scheduledSpecDecodeTokens := (Dict.empty.set "a" [-1, -1]).set "b" [-1]
  numScheduledTokens := [2, 3]
  runner :=
    { inputIds := ⟨[0, 0, 0, 0, 0], [0, 0, 0, 0, 0]⟩
      isTokenIds := ⟨List.replicate 5 false, List.replicate 5 false⟩
      inputsEmbeds := ⟨List.replicate 5 (), List.replicate 5 ()⟩
      enablePromptEmbeds := true
      numSpecTokens := 2
      draftTokenIds := some (.tensor [[11, 12], [13, 14]]) }

theorem movedStep_scheduled {r : String} {i n : Nat} (h : movedStep.Scheduled r i n) :
    r = "b" ∧ i = 0 ∧ n = 2 ∨ r = "a" ∧ i = 1 ∧ n = 3 := by
  obtain ⟨hi, hn⟩ := h
  simp only [movedStep, Dict.get?_set, Dict.get?_empty] at hi
  split at hi
  · rename_i hb
    cases hi
    exact .inl ⟨hb.symm, rfl, (Option.some_inj.mp hn).symm⟩
  · split at hi
    · rename_i ha
      cases hi
      exact .inr ⟨ha.symm, rfl, (Option.some_inj.mp hn).symm⟩
    · cases hi

theorem movedStep_prevIndex {r : String} {p : Nat} (h : movedStep.prevIndex r = some p) : p < 2 := by
  simp only [movedStep, Step.prevIndex, Option.bind_some, Dict.get?_set, Dict.get?_empty] at h
  split at h
  · cases h
    decide
  · split at h
    · cases h
      decide
    · cases h

theorem movedStep_valid : movedStep.Valid where
  indexes := List.Perm.swap 0 1 []
  scheduled := ⟨List.cons_ne_nil _ _, by decide⟩
  rows := by decide
  width := by decide
  room i n c hn hc := by
    match i with
    | 0 =>
      cases hn
      cases hc
      decide
    | 1 =>
      cases hn
      cases hc
      decide
    | i + 2 => cases hn
  buffers := by decide
  previous _ := Option.some_ne_none _
  sampled r p hp := ⟨[5, 9], rfl, movedStep_prevIndex hp⟩
  common r i n p hr _ := by
    rcases movedStep_scheduled hr with ⟨rfl, rfl, rfl⟩ | ⟨rfl, rfl, rfl⟩ <;> decide
  drafts r i n p hr hp _ := by
    refine ⟨_, rfl, by decide, movedStep_prevIndex hp, ?_⟩
    rcases movedStep_scheduled hr with ⟨rfl, rfl, rfl⟩ | ⟨rfl, rfl, rfl⟩ <;> decide

theorem hasTokens_movedStep : ∃ after, movedStep.runner.prepareInputs movedStep.batch movedStep.output
    movedStep.numScheduledTokens = .ok after ∧ movedStep.HasTokens after ∧
    after.inputIds.gpu = [9, 13, 5, 11, 12] := by
  obtain ⟨after, hok, htokens⟩ := Step.hasTokens_prepareInputs movedStep_valid
  obtain ⟨after', hok', hids⟩ := Result.exists_of_holds
    (x := movedStep.runner.prepareInputs movedStep.batch movedStep.output movedStep.numScheduledTokens)
    (p := fun after => after.inputIds.gpu = [9, 13, 5, 11, 12]) (by decide +kernel)
  obtain rfl := Except.ok.inj (hok.symm.trans hok')
  rw [decide_eq_true_eq] at hids
  exact ⟨after, hok, htokens, hids⟩

theorem not_hasMask_movedStep : ∃ after, movedStep.runner.prepareInputs movedStep.batch movedStep.output
    movedStep.numScheduledTokens = .ok after ∧ ¬ movedStep.HasMask after := by
  obtain ⟨after, hok, hmask⟩ := Step.hasMask_prepareInputs_iff movedStep_valid
  have hrow : movedStep.Scheduled "b" 0 2 := ⟨rfl, rfl⟩
  refine ⟨after, hok, mt hmask.mp fun hready => ?_⟩
  have hold := (hready rfl).2 (fun hun => ?_) (fun r i n hr => ?_) "b" 0 2 hrow 0 Nat.two_pos
  · exact absurd hold (by decide)
  · exact absurd (hun.2 "a" 1 3 0 ⟨rfl, rfl⟩ rfl).1 (by decide)
  · rcases movedStep_scheduled hr with ⟨rfl, -, -⟩ | ⟨rfl, -, -⟩ <;> exact Option.some_ne_none _

end Vllm.InputIds
