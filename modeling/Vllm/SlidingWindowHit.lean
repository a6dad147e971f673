import Vllm.HybridHit

namespace Vllm

namespace CacheHit

variable {q : Lookup} {rows : List HitRow} {r M L i n : Nat} {row : HitRow}

def Lookup.CachedAt (q : Lookup) (i : Nat) : Prop :=
  ∃ x, q.blockHashes[i]? = some x ∧
    ∀ g ∈ q.groupIds, (q.pool.getOneBlock (makeBlockHashWithGroupId x g)).isSome

/-- The last `r` of the first `L` blocks are cached, or all of them, and `L` is aligned. -/
structure Lookup.Hits (q : Lookup) (r L : Nat) : Prop where
  aligned : q.Aligned L
  cached : ∀ i, L - r ≤ i → i < L → q.CachedAt i

def windowBlocks (window blockSize : Nat) : Nat := max 1 (Py.cdiv ((window : Int) - 1) blockSize).toNat

structure Lookup.Longest (q : Lookup) (r M : Nat) (rows : List HitRow) : Prop where
  le : rows.length ≤ M
  hits : q.Hits r rows.length
  greatest : ∀ L ≤ M, q.Hits r L → L ≤ rows.length
  read : ∀ i row, rows[i]? = some row → rows.length - r ≤ i → q.HitAt i row
  before : ∀ i row, rows[i]? = some row → row = q.nullRow ∨ q.HitAt i row

theorem isSome_getCachedBlock (p : BlockPool) (x : BlockHash) (groupIds : List Nat) :
    (p.getCachedBlock x groupIds).isSome ↔
      ∀ g ∈ groupIds, (p.getOneBlock (makeBlockHashWithGroupId x g)).isSome := by
  induction groupIds with
  | nil => exact iff_of_true rfl nofun
  | cons g groupIds ih =>
    rw [List.forall_mem_cons, ← ih, BlockPool.getCachedBlock]
    cases p.getOneBlock (makeBlockHashWithGroupId x g) with
    | none => exact iff_of_false nofun fun h => nomatch h.1
    | some b =>
      cases p.getCachedBlock x groupIds with
      | none => exact iff_of_false nofun fun h => nomatch h.2
      | some bs => exact iff_of_true rfl ⟨rfl, rfl⟩

theorem length_getCachedBlock {p : BlockPool} {x : BlockHash} {groupIds : List Nat}
    (h : p.getCachedBlock x groupIds = some row) : row.length = groupIds.length := by
  induction groupIds generalizing row with
  | nil =>
    cases h
    rfl
  | cons g groupIds ih =>
    simp only [BlockPool.getCachedBlock, Option.bind_eq_bind, Option.bind_eq_some_iff] at h
    obtain ⟨b, -, bs, hbs, h⟩ := h
    cases h
    exact congrArg Nat.succ (ih hbs)

theorem Lookup.hit_eq_some {x : BlockHash} (h : q.hit x = some row) :
    q.pool.getCachedBlock x q.groupIds = some row := by
  unfold hit at h
  split at h
  · rename_i b bs hbs
    cases h
    exact hbs
  · cases h

theorem Lookup.hit_eq_getCachedBlock (hgroups : q.groupIds ≠ []) (x : BlockHash) :
    q.hit x = q.pool.getCachedBlock x q.groupIds := by
  unfold hit
  split
  · rename_i b bs hbs
    exact hbs.symm
  · rename_i hnone
    cases hrow : q.pool.getCachedBlock x q.groupIds with
    | none => rfl
    | some row =>
      cases row with
      | nil =>
        have hlen := length_getCachedBlock hrow
        exact absurd (List.eq_nil_of_length_eq_zero hlen.symm) hgroups
      | cons b bs => exact absurd hrow (hnone b bs)

theorem Lookup.HitAt.length (h : q.HitAt i row) : row.length = q.groupIds.length := by
  obtain ⟨x, -, hit⟩ := h
  exact length_getCachedBlock (q.hit_eq_some hit)

theorem Lookup.HitAt.cachedAt (h : q.HitAt i row) : q.CachedAt i := by
  obtain ⟨x, hx, hit⟩ := h
  refine ⟨x, hx, (isSome_getCachedBlock q.pool x q.groupIds).1 ?_⟩
  rw [q.hit_eq_some hit]
  rfl

theorem Lookup.not_cachedAt (hgroups : q.groupIds ≠ []) {x : BlockHash} (hx : q.blockHashes[i]? = some x)
    (hit : q.hit x = none) : ¬ q.CachedAt i := by
  rintro ⟨x', hx', hsome⟩
  obtain rfl := Option.some.inj (hx.symm.trans hx')
  have hcached := (isSome_getCachedBlock q.pool x q.groupIds).2 hsome
  rw [← q.hit_eq_getCachedBlock hgroups, hit] at hcached
  cases hcached

theorem Lookup.unaligned_iff : q.unaligned n = true ↔ ¬ q.Aligned n := by
  constructor
  · intro h haligned
    simp only [unaligned, decide_eq_true_eq] at h
    exact h.2 (Nat.mod_eq_zero_of_dvd haligned)
  · intro h
    by_contra hfalse
    exact h (aligned_of_not_unaligned (Bool.eq_false_iff.2 hfalse))

theorem Lookup.alignedLength_of_aligned (h : q.Aligned n) : q.alignedLength n = n := by
  cases n with
  | zero => rfl
  | succ n => rw [alignedLength, if_neg fun hun => unaligned_iff.1 hun h]

/-- What the scan keeps beside its run: it is too short, no row before it is filled, and a hit can only end
in the run or before it. -/
structure Scanned (q : Lookup) (r M : Nat) (rows : List HitRow) (i n : Nat) : Prop where
  run : Run q rows i n
  short : n < r
  length : rows.length = M
  before : ∀ j < i, ∀ row, rows[j]? = some row → row = q.nullRow
  last : ∀ L ≤ M, q.Hits r L → i < L → L ≤ i + n

theorem Scanned.miss (h : Scanned q r M rows (i + 1) n) (hmiss : ¬ q.CachedAt i) :
    Scanned q r M rows i 0 where
  run := h.run.miss
  short := Nat.lt_of_le_of_lt (Nat.zero_le n) h.short
  length := h.length
  before j hj := h.before j (Nat.lt_succ_of_lt hj)
  last L hL hits hlt := by
    -- the window of such a hit would reach over the block that is missing
    have hend : L ≤ i + 1 + n := by
      rcases Nat.eq_or_lt_of_le (Nat.succ_le_of_lt hlt) with heq | hlt
      · omega
      · exact h.last L hL hits hlt
    have hshort := h.short
    exact absurd (hits.cached i (by omega) hlt) hmiss

theorem Scanned.skip (h : Scanned q r M rows (i + 1) 0) (hun : q.unaligned (i + 1) = true) :
    Scanned q r M rows i 0 where
  run := h.run.skip
  short := h.short
  length := h.length
  before j hj := h.before j (Nat.lt_succ_of_lt hj)
  last L hL hits hlt := by
    rcases Nat.eq_or_lt_of_le (Nat.succ_le_of_lt hlt) with rfl | hlt
    · exact absurd hits.aligned (Lookup.unaligned_iff.1 hun)
    · have hend := h.last L hL hits hlt
      omega

theorem Scanned.set (h : Scanned q r M rows (i + 1) n) (hrow : q.HitAt i row)
    (haligned : ¬ (n = 0 ∧ q.unaligned (i + 1))) :
    Run q (rows.set i row) i (n + 1) ∧ (rows.set i row).length = M ∧
      (∀ j < i, ∀ row', (rows.set i row)[j]? = some row' → row' = q.nullRow) ∧
      ∀ L ≤ M, q.Hits r L → i < L → L ≤ i + (n + 1) := by
  refine ⟨h.run.hit hrow haligned, List.length_set.trans h.length, fun j hj row' hrow' => ?_,
    fun L hL hits hlt => ?_⟩
  · rw [List.getElem?_set_ne (Nat.ne_of_gt hj)] at hrow'
    exact h.before j (Nat.lt_succ_of_lt hj) row' hrow'
  · rcases Nat.eq_or_lt_of_le (Nat.succ_le_of_lt hlt) with heq | hlt
    · omega
    · have hend := h.last L hL hits hlt
      omega

theorem Run.longest {i : Nat} (hrun : Run q rows i r) (hpos : 0 < r) (hlen : rows.length = M)
    (hbefore : ∀ j < i, ∀ row, rows[j]? = some row → row = q.nullRow)
    (hlast : ∀ L ≤ M, q.Hits r L → i < L → L ≤ i + r) : q.Longest r M (rows.take (i + r)) := by
  have hle := hrun.le
  have htake : (rows.take (i + r)).length = i + r := by rw [List.length_take, Nat.min_eq_left hle]
  have hget : ∀ j row, (rows.take (i + r))[j]? = some row → j < i + r ∧ rows[j]? = some row := by
    intro j row hj
    rw [List.getElem?_take] at hj
    split at hj
    · exact ⟨‹_›, hj⟩
    · cases hj
  constructor
  case le => rw [htake, ← hlen]; exact hle
  case hits =>
    rw [htake]
    refine ⟨hrun.aligned.resolve_left (Nat.ne_of_gt hpos), fun j hlo hj => ?_⟩
    have hrow : rows[j]? = some rows[j] := List.getElem?_eq_getElem (Nat.lt_of_lt_of_le hj hle)
    exact (hrun.hits j _ hrow (by omega) hj).cachedAt
  case greatest =>
    intro L hL hits
    rw [htake]
    rcases Nat.lt_or_ge i L with hlt | hge
    · exact hlast L hL hits hlt
    · exact Nat.le_add_right_of_le hge
  case read =>
    intro j row hj hlo
    rw [htake, Nat.add_sub_cancel] at hlo
    obtain ⟨hlt, hrow⟩ := hget j row hj
    exact hrun.hits j row hrow hlo hlt
  case before =>
    intro j row hj
    obtain ⟨hlt, hrow⟩ := hget j row hj
    rcases Nat.lt_or_ge j i with hji | hij
    · exact .inl (hbefore j hji row hrow)
    · exact .inr (hrun.hits j row hrow hij hlt)

theorem slidingScan_longest {need : Int} (hr : r = max 1 need.toNat) (hgroups : q.groupIds ≠ [])
    (hhash : M ≤ q.blockHashes.length) (h : Scanned q r M rows i n) :
    ∃ rows' n' found, slidingScan q need i rows n = .ok (rows', n', found) ∧
      q.Longest r M (if found then rows' else q.popUnaligned (rows'.take n')) := by
  induction i generalizing rows n with
  | zero =>
    have hle := h.run.le
    have hshort := h.short
    have hrun : q.Aligned n := by
      rcases h.run.aligned with rfl | haligned
      · rw [Lookup.Aligned, Nat.zero_mul]
        exact Nat.dvd_zero _
      · rwa [Nat.zero_add] at haligned
    have hlen : (rows.take n).length = n := by
      rw [List.length_take]
      omega
    have hpop : q.popUnaligned (rows.take n) = rows.take n := by
      rw [Lookup.popUnaligned, hlen, Lookup.alignedLength_of_aligned hrun, List.take_take, Nat.min_self]
    have hfound : ∀ j row, (rows.take n)[j]? = some row → q.HitAt j row := by
      intro j row hj
      rw [List.getElem?_take] at hj
      split at hj
      · exact h.run.hits j row hj (Nat.zero_le j) (by omega)
      · cases hj
    refine ⟨rows, n, false, rfl, ?_⟩
    rw [if_neg Bool.false_ne_true, hpop]
    constructor
    case le =>
      rw [hlen, ← h.length]
      omega
    case hits =>
      rw [hlen]
      refine ⟨hrun, fun j _ hj => ?_⟩
      have hget : (rows.take n)[j]? = some rows[j] := by
        rw [List.getElem?_take, if_pos hj]
        exact List.getElem?_eq_getElem (by omega)
      exact (hfound j _ hget).cachedAt
    case greatest =>
      intro L hL hits
      rw [hlen]
      rcases Nat.eq_zero_or_pos L with rfl | hpos
      · exact Nat.zero_le n
      · have hend := h.last L hL hits hpos
        omega
    case read => exact fun j row hj _ => hfound j row hj
    case before => exact fun j row hj => .inr (hfound j row hj)
  | succ i ih =>
    have hle := h.run.le
    have hlen := h.length
    have hlt : i < q.blockHashes.length := by omega
    have hget : Result.getItem q.blockHashes i = .ok q.blockHashes[i] :=
      Result.getItem_eq_ok.mpr (List.getElem?_eq_getElem hlt)
    unfold slidingScan
    rw [hget, Result.ok_bind]
    split
    · rename_i row hrow
      have hat : q.HitAt i row := ⟨_, List.getElem?_eq_getElem hlt, hrow⟩
      split
      · rename_i hskip
        rw [hskip.1] at h ⊢
        exact ih (h.skip hskip.2)
      · rename_i hskip
        obtain ⟨hrun, hlen', hbefore, hlast⟩ := h.set hat hskip
        dsimp only
        split
        · rename_i hneed
          have heq : n + 1 = r := by
            have hshort := h.short
            omega
          subst heq
          refine ⟨_, _, true, rfl, ?_⟩
          rw [if_pos rfl]
          exact hrun.longest (Nat.succ_pos n) hlen' hbefore hlast
        · rename_i hneed
          exact ih ⟨hrun, by omega, hlen', hbefore, hlast⟩
    · rename_i hmiss
      exact ih (h.miss (q.not_cachedAt hgroups (List.getElem?_eq_getElem hlt) hmiss))

/-- The rows that a sliding window lookup returns are those of the longest hit, and no others are. -/
theorem slidingWindow_longest (q : Lookup) (window : Nat) (maxLength : Int) (hgroups : q.groupIds ≠ [])
    (hpos : 0 < q.blockSize) (heagle : q.useEagle = false)
    (hhash : (maxLength / q.blockSize).toNat ≤ q.blockHashes.length) :
    ∃ rows, slidingWindow q window maxLength = .ok rows ∧
      (∀ row ∈ rows, row.length = q.groupIds.length) ∧
      q.Hits (windowBlocks window q.blockSize) rows.length ∧
      (rows ≠ [] → (rows.length * q.blockSize : Int) ≤ maxLength) ∧
      (∀ L : Nat, (L * q.blockSize : Int) ≤ maxLength → q.Hits (windowBlocks window q.blockSize) L →
        L ≤ rows.length) ∧
      (∀ i row, rows[i]? = some row → rows.length - windowBlocks window q.blockSize ≤ i → q.HitAt i row) ∧
      ∀ i row, rows[i]? = some row → row = q.nullRow ∨ q.HitAt i row := by
  have hposInt : (0 : Int) < q.blockSize := Int.natCast_pos.2 hpos
  have hscanned : Scanned q (windowBlocks window q.blockSize) (maxLength / q.blockSize).toNat
      (List.replicate (maxLength / q.blockSize).toNat q.nullRow) (maxLength / q.blockSize).toNat 0 := by
    constructor
    case run =>
      refine ⟨?_, fun j row hj hlo hhi => ?_, .inl rfl⟩
      · rw [List.length_replicate, Nat.add_zero]
      · omega
    case short => exact Nat.lt_of_lt_of_le Nat.zero_lt_one (Nat.le_max_left 1 _)
    case length => exact List.length_replicate
    case before =>
      intro j hj row hrow
      exact List.eq_of_mem_replicate (List.mem_of_getElem? hrow)
    case last => exact fun L hL _ hlt => absurd hL (Nat.not_le_of_gt hlt)
  obtain ⟨rows, n, found, hscan, hlongest⟩ := slidingScan_longest rfl hgroups hhash hscanned
  obtain ⟨cut, hcut⟩ : ∃ cut, cut = if found then rows else q.popUnaligned (rows.take n) := ⟨_, rfl⟩
  rw [← hcut] at hlongest
  refine ⟨cut, ?_, ?_, hlongest.hits, ?_, ?_, hlongest.read, hlongest.before⟩
  · have hnot : ¬ (q.useEagle = true ∧ cut ≠ []) := by
      rw [heagle]
      exact fun h => Bool.noConfusion h.1
    simp only [slidingWindow, heagle, Bool.false_eq_true, if_false, Int.add_zero, hscan, Result.ok_bind,
      ← hcut, false_and]
    rfl
  · intro row hrow
    obtain ⟨i, hi⟩ := List.getElem?_of_mem hrow
    rcases hlongest.before i row hi with rfl | hat
    · exact List.length_map _
    · exact hat.length
  · intro hne
    have hle := hlongest.le
    have hlenPos : 0 < cut.length := List.length_pos_of_ne_nil hne
    have hdiv : ((cut.length : Int)) ≤ maxLength / q.blockSize := by omega
    exact (Int.mul_le_mul_of_nonneg_right hdiv (Int.le_of_lt hposInt)).trans
      (Int.ediv_mul_le _ (Int.ne_of_gt hposInt))
  · intro L hL hits
    refine hlongest.greatest L ?_ hits
    have hdiv : (L : Int) ≤ maxLength / q.blockSize := (Int.le_ediv_iff_mul_le hposInt).2 hL
    omega

def twoGroups : Lookup where
  pool := [([1], 0, 3), ([1], 1, 4), ([2], 0, 5), ([3], 0, 6), ([3], 1, 7)].foldl
    (fun p entry => p.insert (makeBlockHashWithGroupId entry.1 entry.2.1) entry.2.2)
    (BlockPool.init { numGpuBlocks := 8, enableCaching := true, hashBlockSize := 2 })
  groupIds := [0, 1]
  blockHashes := [[1], [2], [3]]
  blockSize := 2
  alignmentTokens := 2
  useEagle := false

theorem slidingWindow_longest_twoGroups :
    slidingWindow twoGroups 5 7 = .ok [[3, 4]] ∧
      ∀ L : Nat, (L * 2 : Int) ≤ 7 → twoGroups.Hits 2 L → L ≤ 1 := by
  obtain ⟨rows, hok, -, -, -, hgreatest, -⟩ := slidingWindow_longest twoGroups 5 7 (by decide) (by decide)
    rfl (by decide)
  have hrun : slidingWindow twoGroups 5 7 = .ok [[3, 4]] := by decide +kernel
  obtain rfl : [[3, 4]] = rows := Except.ok.inj (hrun.symm.trans hok)
  exact ⟨hrun, hgreatest⟩

end CacheHit

end Vllm
