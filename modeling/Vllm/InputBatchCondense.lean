import Vllm.InputBatchInvariant

namespace Vllm.Worker

open InputBatch

variable {F F32 G E V : Type}
variable {c : InputBatchConfig F F32} {b b' : InputBatch F F32 G E} {last n e : Nat} {id : ReqId}

def Untouched (u : BatchUpdateBuilder F) : Prop :=
  ∀ m ∈ u.moved, m.1 ∉ u.removed ∧ m.2.1 ∉ u.removed

/-- Up to `last` the removed indices are the empty ones, behind it nothing is left; `n` requests
are in the batch. -/
structure Sliding (b : InputBatch F F32 G E) (last n : Nat) : Prop where
  sorted : b.batchUpdateBuilder.isRemovedSorted = true
  order : b.batchUpdateBuilder.removed.Pairwise (· > ·)
  lt : last < b.reqIds.length
  below : ∀ j ≤ last, j ∈ b.batchUpdateBuilder.removed ↔ b.reqIds[j]? = some none
  above : ∀ j > last, ∀ x, b.reqIds[j]? ≠ some (some x)
  count : last + 1 = n + (b.batchUpdateBuilder.removed.filter (· ≤ last)).length
  pos : 0 < n
  size : b.numReqs = n

structure Packed (b : InputBatch F F32 G E) (n : Nat) : Prop where
  full : ∀ j < n, ∃ x, b.reqIds[j]? = some (some x)
  rest : ∀ j, n ≤ j → ∀ x, b.reqIds[j]? ≠ some (some x)
  out : ∀ e ∈ b.batchUpdateBuilder.removed, n ≤ e
  size : b.numReqs = n

namespace Sliding

theorem nodup (h : Sliding b last n) : b.batchUpdateBuilder.removed.Nodup :=
  h.order.imp fun hab => (Nat.ne_of_lt hab).symm

theorem length_filter_le_pred {l : List Nat} (hl : l.Nodup) {k : Nat} (hk : k + 1 ∈ l) :
    (l.filter (· ≤ k + 1)).length = (l.filter (· ≤ k)).length + 1 := by
  have hperm : (l.filter (· ≤ k + 1)).Perm ((k + 1) :: l.filter (· ≤ k)) := by
    refine (List.perm_ext_iff_of_nodup (hl.filter _) ?_).mpr fun x => ?_
    · exact List.nodup_cons.mpr ⟨by simp, hl.filter _⟩
    · simp only [List.mem_filter, List.mem_cons, decide_eq_true_eq]
      constructor
      · rintro ⟨hx, hle⟩
        by_cases hxk : x = k + 1
        · exact .inl hxk
        · exact .inr ⟨hx, by omega⟩
      · rintro (rfl | ⟨hx, hle⟩)
        · exact ⟨hk, Nat.le_refl _⟩
        · exact ⟨hx, by omega⟩
  rw [hperm.length_eq, List.length_cons]

theorem skip (h : Sliding b (last + 1) n) (hmem : last + 1 ∈ b.batchUpdateBuilder.removed) :
    Sliding b last n where
  sorted := h.sorted
  order := h.order
  lt := Nat.lt_of_succ_lt h.lt
  below := fun j hj => h.below j (Nat.le_succ_of_le hj)
  above := fun j hj x hx => by
    by_cases hjl : j = last + 1
    · subst hjl
      rw [(h.below _ (Nat.le_refl _)).mp hmem] at hx
      cases hx
    · exact h.above j (by omega) x hx
  count := by
    have := h.count
    rw [length_filter_le_pred h.nodup hmem] at this
    omega
  pos := h.pos
  size := h.size

theorem largestNonEmpty (h : Sliding b last n) :
    Sliding b (largestNonEmpty b.batchUpdateBuilder.removed last) n ∧
      InputBatch.largestNonEmpty b.batchUpdateBuilder.removed last ∉
        b.batchUpdateBuilder.removed := by
  induction last with
  | zero =>
    refine ⟨h, fun hmem => ?_⟩
    have hcount := h.count
    have hpos := h.pos
    have : 0 ∈ b.batchUpdateBuilder.removed.filter (· ≤ 0) :=
      List.mem_filter.mpr ⟨hmem, by simp⟩
    have := List.length_pos_of_mem this
    omega
  | succ last ih =>
    unfold InputBatch.largestNonEmpty
    split
    · rename_i hmem
      exact ih (h.skip hmem)
    · rename_i hmem
      exact ⟨h, hmem⟩

theorem occupied (h : Sliding b last n) {j : Nat} (hj : j ≤ last)
    (hnot : j ∉ b.batchUpdateBuilder.removed) : ∃ x, b.reqIds[j]? = some (some x) := by
  have hlt : j < b.reqIds.length := Nat.lt_of_le_of_lt hj h.lt
  have hget := List.getElem?_eq_getElem hlt
  cases hx : b.reqIds[j] with
  | none =>
    rw [hx] at hget
    exact absurd ((h.below j hj).mpr hget) hnot
  | some x =>
    rw [hx] at hget
    exact ⟨x, hget⟩

theorem packed (h : Sliding b last n) (hout : ∀ e ∈ b.batchUpdateBuilder.removed, last < e) :
    Packed b n := by
  have hnil : b.batchUpdateBuilder.removed.filter (· ≤ last) = [] := by
    rw [List.filter_eq_nil_iff]
    intro e he
    simpa using hout e he
  have hcount := h.count
  rw [hnil, List.length_nil] at hcount
  constructor
  case full =>
    intro j hj
    refine h.occupied (by omega) fun hmem => ?_
    have := hout j hmem
    omega
  case rest => exact fun j hj => h.above j (by omega)
  case out =>
    intro e he
    have := hout e he
    omega
  case size => exact h.size

theorem slide [Zero F] {rest : List Nat} (h : Sliding b last n)
    (hrest : b.batchUpdateBuilder.removed = rest ++ [e]) (hlt : e < last)
    (hnot : last ∉ b.batchUpdateBuilder.removed) (hx : b.reqIdToIndex.get? id = some last)
    (hm : (b.withBuilder { b.batchUpdateBuilder with
      removed := rest, isRemovedSorted := true }).Moved c last e id b') :
    Sliding b' (last - 1) n := by
  have hremoved : b'.batchUpdateBuilder.removed = rest := by rw [hm.builder]; rfl
  have hids : b'.reqIds = (b.reqIds.set e (some id)).set last none := hm.reqIds
  have hlen : b'.reqIds.length = b.reqIds.length := by
    rw [hids, List.length_set, List.length_set]
  have hlast := h.lt
  have hnodup := h.nodup
  rw [hrest] at hnodup
  have hnot_e : e ∉ rest := fun he =>
    (List.nodup_append.mp hnodup).2.2 e he e (List.mem_singleton_self e) rfl
  have hmem : ∀ j, j ∈ b.batchUpdateBuilder.removed ↔ j ∈ rest ∨ j = e := by
    intro j
    rw [hrest, List.mem_append, List.mem_singleton]
  have hnot_last : last ∉ rest := fun hmem' => hnot ((hmem last).mpr (.inl hmem'))
  constructor
  case sorted => rw [hm.builder]; rfl
  case order =>
    rw [hremoved]
    have := h.order
    rw [hrest] at this
    exact (List.pairwise_append.mp this).1
  case lt =>
    rw [hlen]
    omega
  case below =>
    intro j hj
    rw [hremoved, hids, List.getElem?_set, if_neg (by omega), List.getElem?_set]
    by_cases hje : e = j
    · subst hje
      rw [if_pos rfl, if_pos (by omega)]
      simp [hnot_e]
    · rw [if_neg hje, ← h.below j (by omega), hmem]
      exact ⟨.inl, fun hj => hj.resolve_right fun h => hje h.symm⟩
  case above =>
    intro j hj x
    rw [hids, List.getElem?_set, List.length_set]
    by_cases hjl : last = j
    · subst hjl
      rw [if_pos rfl, if_pos hlast]
      simp
    · rw [if_neg hjl, List.getElem?_set, if_neg (by omega)]
      exact h.above j (by omega) x
  case count =>
    have hcount := h.count
    have hfilter : (b.batchUpdateBuilder.removed.filter (· ≤ last)).length =
        (rest.filter (· ≤ last - 1)).length + 1 := by
      have hsame : rest.filter (· ≤ last) = rest.filter (· ≤ last - 1) := by
        refine List.filter_congr fun x hx => ?_
        have : x ≠ last := fun h => hnot_last (h ▸ hx)
        have hiff : x ≤ last ↔ x ≤ last - 1 := by omega
        simp [hiff]
      have hle : e ≤ last := Nat.le_of_lt hlt
      rw [hrest, List.filter_append, List.length_append, hsame]
      simp [hle]
    rw [hfilter] at hcount
    rw [hremoved]
    omega
  case pos => exact h.pos
  case size =>
    have hset := Dict.size_set b.reqIdToIndex id e
    rw [hx] at hset
    have hsize := h.size
    have hnum : b'.numReqs = (b.reqIdToIndex.set id e).size := by
      rw [numReqs, hm.index]
      rfl
    unfold numReqs at hsize
    simp only [Option.map_some, Option.getD_some] at hset
    omega

end Sliding

namespace Follower

open BatchReplay

variable {w : Follower F V} {requests : Dict ReqId (CachedRequestState F G E)}

/-- Dropping an index from the removed ones brings back a stale value there, which the move that
fills the index overwrites. -/
theorem after_slide {u : BatchUpdateBuilder F} {rest : List Nat} (hu : Untouched u)
    (hrest : u.removed = rest ++ [e]) (hnot : e ∉ rest) (hne : last ≠ e) (j : Nat) :
    w.after { u with
        removed := rest, isRemovedSorted := true
        moved := u.moved ++ [(last, e, .unidirectional)] } j =
      if j = last then w.zero else if j = e then w.after u last else w.after u j := by
  have hstale : removed w.zero (added w.value w.start u.added) rest =
      Function.update (removed w.zero (added w.value w.start u.added) u.removed) e
        (added w.value w.start u.added e) := by
    funext k
    rw [removed_apply, hrest, Function.update_apply, removed_apply]
    by_cases hk : k = e
    · subst hk
      simp [hnot]
    · simp [hk]
  have hmoves : ∀ m ∈ u.moved, m.1 ≠ e ∧ m.2.1 ≠ e := by
    intro m hm
    have hmem : e ∈ u.removed := by rw [hrest]; simp
    obtain ⟨h₁, h₂⟩ := hu m hm
    exact ⟨fun h => h₁ (h ▸ hmem), fun h => h₂ (h ▸ hmem)⟩
  simp only [after, replay, moved_concat, hstale, moved_update hmoves, move,
    Function.update_apply, if_neg hne]
  by_cases hj : j = last <;> by_cases hje : j = e <;> simp [hj, hje]

theorem Logged.slide [Zero F] {rest : List Nat} (h : w.Logged requests b)
    (hu : Untouched b.batchUpdateBuilder) (hrest : b.batchUpdateBuilder.removed = rest ++ [e])
    (hnot : e ∉ rest) (hlast : b.reqIds[last]? = some (some id)) (hempty : b.reqIds[e]? = some none)
    (hm : (b.withBuilder { b.batchUpdateBuilder with
      removed := rest, isRemovedSorted := true }).Moved c last e id b') :
    w.Logged requests b' := by
  have hne : last ≠ e := by
    rintro rfl
    rw [hlast] at hempty
    cases hempty
  have hids : b'.reqIds = (b.reqIds.set e (some id)).set last none := hm.reqIds
  have hlt := (List.getElem?_eq_some_iff.mp hlast).1
  have hlt' := (List.getElem?_eq_some_iff.mp hempty).1
  have hafter : w.after b.batchUpdateBuilder = w.slotValue requests b := h
  unfold Logged
  rw [hm.builder]
  funext j
  refine (after_slide hu hrest hnot hne j).trans ?_
  by_cases hj : j = last
  · subst hj
    rw [if_pos rfl, slotValue_empty]
    intro x hx
    rw [hids, List.getElem?_set, if_pos rfl, List.length_set, if_pos hlt] at hx
    cases hx
  · rw [if_neg hj]
    by_cases hje : j = e
    · subst hje
      have hslot : b'.reqIds[j]? = b.reqIds[last]? := by
        rw [hids, List.getElem?_set, if_neg (Ne.symm hj), List.getElem?_set, if_pos rfl,
          if_pos hlt', hlast]
      rw [if_pos rfl, slotValue_congr hslot, hafter]
    · have hslot : b'.reqIds[j]? = b.reqIds[j]? := by
        rw [hids, List.getElem?_set, if_neg (Ne.symm hj), List.getElem?_set,
          if_neg (Ne.symm hje)]
      rw [if_neg hje, slotValue_congr hslot, hafter]

end Follower

theorem Untouched.slide {u : BatchUpdateBuilder F} {rest : List Nat} (h : Untouched u)
    (hrest : u.removed = rest ++ [e]) (hnot : e ∉ rest) (hlast : last ∉ u.removed) :
    Untouched { u with
      removed := rest, isRemovedSorted := true
      moved := u.moved ++ [(last, e, .unidirectional)] } := by
  have hsub : ∀ x, x ∉ u.removed → x ∉ rest := fun x hx hmem =>
    hx (by rw [hrest]; exact List.mem_append_left _ hmem)
  intro m hm
  rcases List.mem_append.mp hm with hm | hm
  · exact ⟨hsub _ (h m hm).1, hsub _ (h m hm).2⟩
  · cases List.mem_singleton.mp hm
    exact ⟨hsub _ hlast, hnot⟩

section Condense

variable {w : Follower F V} {requests : Dict ReqId (CachedRequestState F G E)}
variable {A : SamplingParams F → Prop}

theorem condenseLoop_spec [Zero F] (hc : c.isPoolingModel = false) {fuel : Nat}
    (hfuel : b.batchUpdateBuilder.removed.length ≤ fuel) (hcore : Core c requests b)
    (hs : Sliding b last n) (hlog : w.Logged requests b) (hu : Untouched b.batchUpdateBuilder)
    (hrec : b.batchUpdateBuilder.Records A) :
    ∃ b', condenseLoop c fuel last b = .ok b' ∧ Core c requests b' ∧ Packed b' n ∧
      w.Logged requests b' ∧ b'.batchUpdateBuilder.Records A := by
  induction fuel generalizing last b with
  | zero =>
    have hnil := List.length_eq_zero_iff.mp (Nat.le_zero.mp hfuel)
    refine ⟨b, rfl, hcore, hs.packed fun e he => ?_, hlog, hrec⟩
    rw [hnil] at he
    cases he
  | succ fuel ih =>
    unfold condenseLoop
    by_cases hnil : b.batchUpdateBuilder.removed = []
    · rw [if_pos hnil]
      refine ⟨b, rfl, hcore, hs.packed fun e he => ?_, hlog, hrec⟩
      rw [hnil] at he
      cases he
    · rw [if_neg hnil]
      obtain ⟨hs, hlast⟩ := hs.largestNonEmpty
      generalize largestNonEmpty b.batchUpdateBuilder.removed last = last at hs hlast
      obtain ⟨rest, e, hrest⟩ : ∃ rest e, b.batchUpdateBuilder.removed = rest ++ [e] :=
        ⟨_, _, (List.dropLast_append_getLast hnil).symm⟩
      obtain ⟨hpeek, hpop⟩ := BatchUpdateBuilder.removed_of_sorted hs.sorted hrest
      have horder := hs.order
      rw [hrest] at horder
      have hmin := (List.pairwise_append.mp horder).2.2
      simp only [hpeek]
      split
      · rename_i hle
        -- the smallest empty index is behind the last request
        refine ⟨_, rfl, hcore.withBuilder _, hs.packed fun j hj => ?_, hlog, hrec⟩
        have hne : j ≠ last := fun h => hlast (h ▸ hj)
        rw [hrest, List.mem_append, List.mem_singleton] at hj
        rcases hj with hj | rfl
        · have := hmin j hj e (List.mem_singleton_self e)
          omega
        · omega
      · rename_i hlt
        have hlt : e < last := Nat.not_le.mp hlt
        have hmem : e ∈ b.batchUpdateBuilder.removed := by simp [hrest]
        have hnot : e ∉ rest := fun he =>
          Nat.lt_irrefl e (hmin e he e (List.mem_singleton_self e))
        have hempty := (hs.below e (Nat.le_of_lt hlt)).mp hmem
        obtain ⟨id, hid⟩ := hs.occupied (Nat.le_refl last) hlast
        have hcore' : Core c requests (b.withBuilder { b.batchUpdateBuilder with
            removed := rest, isRemovedSorted := true }) := hcore.withBuilder _
        obtain ⟨b', hok, hm⟩ := moveRequest_spec (b := b.withBuilder { b.batchUpdateBuilder with
          removed := rest, isRemovedSorted := true }) hc hid (Nat.ne_of_gt hlt) hcore'.lists
        have hbuilder := hm.builder
        rw [hpop, hok, Result.ok_bind]
        refine ih ?_ (hcore'.moved hid hempty hm)
          (hs.slide hrest hlt hlast ((hcore.index _ _).mpr hid) hm)
          (hlog.slide hu hrest hnot hid hempty hm) ?_ ?_
        · rw [hrest, List.length_append, List.length_singleton] at hfuel
          rw [hbuilder]
          exact Nat.le_of_succ_le_succ hfuel
        · rw [hbuilder]
          exact hu.slide hrest hnot hlast
        · rw [hbuilder]
          exact ⟨hrec.added, hrec.moved.concat fun _ => Nat.ne_of_gt hlt⟩

theorem Core.trim [Zero F] (h : Core c requests b)
    (hrest : ∀ j, n ≤ j → ∀ x, b.reqIds[j]? ≠ some (some x)) : Core c requests (b.trim n) := by
  have hslot : ∀ (j : Nat) x, (b.trim n).reqIds[j]? = some (some x) ↔
      b.reqIds[j]? = some (some x) := by
    intro j x
    show (b.reqIds.take n)[j]? = _ ↔ _
    rw [List.getElem?_take]
    split
    · rfl
    · rename_i hj
      refine iff_of_false (by simp) (hrest j (Nat.not_lt.mp hj) x)
  constructor
  case index => exact fun id i => (h.index id i).trans (hslot i id).symm
  case rows => exact fun i id hi => h.rows i id ((hslot i id).mp hi)
  case free => exact fun i hi => h.free i fun id hid => hi id ((hslot i id).mpr hid)
  case users =>
    intro l x
    simp only [hslot]
    exact h.users l x
  case idle => exact h.idle
  case lists =>
    constructor
    · simp only [InputBatch.trim, List.length_take, h.lists.outputs]
    · have := h.lists.specs
      simp only [InputBatch.trim, List.length_take]
      omega

theorem Follower.Logged.trim (h : w.Logged requests b)
    (hrest : ∀ j, n ≤ j → ∀ x, b.reqIds[j]? ≠ some (some x)) : w.Logged requests (b.trim n) := by
  refine (show w.after b.batchUpdateBuilder = w.slotValue requests b from h).trans ?_
  funext j
  by_cases hj : j < n
  · refine (slotValue_congr ?_).symm
    show (b.reqIds.take n)[j]? = _
    rw [List.getElem?_take, if_pos hj]
  · rw [slotValue_empty (hrest j (Nat.not_lt.mp hj)), slotValue_empty]
    intro x
    show (b.reqIds.take n)[j]? ≠ _
    rw [List.getElem?_take, if_neg hj]
    simp

structure Dense (b : InputBatch F F32 G E) : Prop where
  length : b.reqIds.length = b.numReqs
  full : ∀ j < b.numReqs, ∃ x, b.reqIds[j]? = some (some x)

theorem Packed.dense (h : Packed b n) : Dense (b.trim n) := by
  have hsize : (b.trim n).numReqs = n := h.size
  have hle : n ≤ b.reqIds.length := by
    rcases Nat.eq_zero_or_pos n with rfl | hpos
    · exact Nat.zero_le _
    · obtain ⟨x, hx⟩ := h.full (n - 1) (Nat.sub_lt hpos Nat.one_pos)
      have := (List.getElem?_eq_some_iff.mp hx).1
      omega
  constructor
  · rw [hsize]
    show (b.reqIds.take n).length = n
    rw [List.length_take, Nat.min_eq_left hle]
  · intro j hj
    rw [hsize] at hj
    show ∃ x, (b.reqIds.take n)[j]? = some (some x)
    rw [List.getElem?_take, if_pos hj]
    exact h.full j hj

theorem Holes.sliding (h : Holes b) (hs : b.batchUpdateBuilder.isRemovedSorted = true)
    (hpos : b.numReqs ≠ 0) :
    Sliding b (b.numReqs + b.batchUpdateBuilder.removed.length - 1) b.numReqs := by
  have hsize := h.size
  constructor
  case sorted => exact hs
  case order =>
    refine (h.sorted hs).imp₂ (fun _ _ hge hne => ?_) h.nodup
    omega
  case lt => omega
  case below => exact fun j _ => h.mem j
  case above =>
    intro j hj x hx
    have := (List.getElem?_eq_some_iff.mp hx).1
    omega
  case count =>
    have hall : b.batchUpdateBuilder.removed.filter
        (· ≤ b.numReqs + b.batchUpdateBuilder.removed.length - 1) =
        b.batchUpdateBuilder.removed := by
      rw [List.filter_eq_self]
      intro e he
      have := (List.getElem?_eq_some_iff.mp ((h.mem e).mp he)).1
      simp only [decide_eq_true_eq]
      omega
    rw [hall]
    omega
  case pos => exact Nat.pos_of_ne_zero hpos
  case size => rfl

theorem ensureRemovedSorted_keeps (hholes : Holes b) (hlog : w.Logged requests b) :
    let u := b.batchUpdateBuilder.ensureRemovedSorted
    u.isRemovedSorted = true ∧ u.moved = b.batchUpdateBuilder.moved ∧
      u.added = b.batchUpdateBuilder.added ∧ Holes (b.withBuilder u) ∧ w.Logged requests (b.withBuilder u) := by
  intro u
  obtain ⟨removed, heq, hperm, hsorted⟩ :=
    BatchUpdateBuilder.ensureRemovedSorted_spec hholes.sorted
  rw [show u = _ from heq]
  refine ⟨rfl, rfl, rfl, ⟨?_, ?_, ?_, ?_⟩, ?_⟩
  · exact hperm.nodup_iff.mpr hholes.nodup
  · exact fun i => hperm.mem_iff.trans (hholes.mem i)
  · refine hholes.size.trans ?_
    rw [← hperm.length_eq]
    rfl
  · exact fun _ => hsorted
  · refine Eq.trans ?_ hlog
    have hsame : ∀ f, BatchReplay.removed w.zero f removed =
        BatchReplay.removed w.zero f b.batchUpdateBuilder.removed := by
      intro f
      funext j
      simp only [BatchReplay.removed_apply, hperm.mem_iff]
    simp only [Follower.after, BatchReplay.replay, InputBatch.withBuilder, hsame]

theorem condense_spec [Zero F] (hc : c.isPoolingModel = false) (hcore : Core c requests b)
    (hholes : Holes b) (hmoved : b.batchUpdateBuilder.moved = []) (hlog : w.Logged requests b)
    (hrec : b.batchUpdateBuilder.Records A) :
    ∃ b', b.condense c = .ok b' ∧ Core c requests b' ∧ Dense b' ∧ w.Logged requests b' ∧
      b'.batchUpdateBuilder.Records A ∧ b'.numReqs = b.numReqs := by
  obtain ⟨hsorted, hmoved', hadded', hholes, hlog⟩ := ensureRemovedSorted_keeps hholes hlog
  unfold condense
  generalize b.batchUpdateBuilder.ensureRemovedSorted = u at hsorted hmoved' hadded' hholes hlog
  have hrec : u.Records A := ⟨hadded' ▸ hrec.added, hmoved' ▸ hrec.moved⟩
  have hcore := hcore.withBuilder u
  by_cases hnil : u.removed = []
  · have hsize := hholes.size
    refine ⟨b.withBuilder u, ?_, hcore, ⟨?_, fun j hj => ?_⟩, hlog, hrec, rfl⟩
    · simp only [hnil, if_true]
      rfl
    · rw [hsize]
      simp [InputBatch.withBuilder, hnil]
    · have hlt : j < (b.withBuilder u).reqIds.length := by omega
      have hget := List.getElem?_eq_getElem hlt
      cases hx : (b.withBuilder u).reqIds[j] with
      | none =>
        rw [hx] at hget
        have hmem := (hholes.mem j).mpr hget
        simp [InputBatch.withBuilder, hnil] at hmem
      | some x =>
        rw [hx] at hget
        exact ⟨x, hget⟩
  · by_cases hzero : b.numReqs = 0
    · have hpacked : Packed (b.withBuilder u) 0 := by
        refine ⟨fun j hj => by omega, fun j _ x hx => ?_, fun _ _ => Nat.zero_le _, hzero⟩
        have hle := Dict.le_total (fun _ => 1) ((hcore.index x j).mpr hx)
        rw [← Dict.size_eq_total] at hle
        exact absurd hzero (Nat.ne_of_gt hle)
      refine ⟨(b.withBuilder u).trim 0, ?_, hcore.trim hpacked.rest, hpacked.dense,
        hlog.trim hpacked.rest, hrec, rfl⟩
      simp only [hnil, hzero, if_true, if_false]
      rfl
    · obtain ⟨b', hok, hcore, hpacked, hlog, hrec⟩ := condenseLoop_spec hc (Nat.le_refl _) hcore
        (hholes.sliding hsorted hzero) hlog (fun m hm => by
          rw [show (b.withBuilder u).batchUpdateBuilder = u from rfl, hmoved', hmoved] at hm
          cases hm) hrec
      refine ⟨b'.trim b.numReqs, ?_, hcore.trim hpacked.rest, hpacked.dense,
        hlog.trim hpacked.rest, hrec, hpacked.size⟩
      have hok : condenseLoop c u.removed.length (b.numReqs + u.removed.length - 1)
          (b.withBuilder u) = .ok b' := hok
      simp only [hnil, hzero, if_false, hok]
      rfl

end Condense

section Swap

variable {w : Follower F V} {requests : Dict ReqId (CachedRequestState F G E)}
variable {i1 i2 : Nat} {id1 id2 : ReqId} {A : SamplingParams F → Prop}

theorem Follower.Logged.swapped (h : w.Logged requests b) (hs : b.Swapped i1 i2 id1 id2 b') :
    w.Logged requests b' := by
  have hafter : w.after b.batchUpdateBuilder = w.slotValue requests b := h
  unfold Logged
  rw [hs.builder]
  funext j
  have hmove : w.after { b.batchUpdateBuilder with
      moved := b.batchUpdateBuilder.moved ++ [(i1, i2, .swap)] } j =
        w.after b.batchUpdateBuilder (Equiv.swap i1 i2 j) := by
    simp only [after, BatchReplay.replay, BatchReplay.moved_concat, BatchReplay.move]
    rfl
  exact hmove.trans ((congrFun hafter _).trans (slotValue_congr (hs.slots j)).symm)

theorem swapStates_keeps [Zero F] (hc : c.isPoolingModel = false) (hcore : Core c requests b)
    (hdense : Dense b) (hlog : w.Logged requests b) (hrec : b.batchUpdateBuilder.Records A)
    (h1 : i1 < b.numReqs) (h2 : i2 < b.numReqs) :
    ∃ b', b.swapStates c i1 i2 = .ok b' ∧ Core c requests b' ∧ Dense b' ∧ w.Logged requests b' ∧
      b'.batchUpdateBuilder.Records A ∧ b'.numReqs = b.numReqs := by
  obtain ⟨id1, hid1⟩ := hdense.full i1 h1
  obtain ⟨id2, hid2⟩ := hdense.full i2 h2
  have hx1 := (hcore.index _ _).mpr hid1
  have hx2 := (hcore.index _ _).mpr hid2
  obtain ⟨b', hok, hs⟩ := swapStates_spec hc hid1 hid2 hx1 hx2
  have hcore' := hcore.swapped hid1 hid2 hs
  have hsize : b'.numReqs = b.numReqs := by
    have hset := Dict.size_set b.reqIdToIndex id1 i2
    have hset' := Dict.size_set (b.reqIdToIndex.set id1 i2) id2 i1
    have hsome : ((b.reqIdToIndex.set id1 i2).get? id2).isSome = true := by
      rw [Dict.get?_set]
      split <;> simp [hx2]
    obtain ⟨k, hk⟩ := Option.isSome_iff_exists.mp hsome
    rw [hx1] at hset
    rw [hk] at hset'
    simp only [Option.map_some, Option.getD_some] at hset hset'
    rw [numReqs, hs.index]
    unfold numReqs
    omega
  refine ⟨b', hok, hcore', ⟨?_, fun j hj => ?_⟩, hlog.swapped hs, ?_, hsize⟩
  · rw [hs.length, hsize]
    exact hdense.length
  · rw [hs.slots]
    refine hdense.full _ ?_
    rw [hsize] at hj
    rw [Equiv.swap_apply_def]
    split_ifs <;> assumption
  · rw [hs.builder]
    exact ⟨hrec.added, hrec.moved.concat fun h => by cases h⟩

end Swap

end Vllm.Worker
