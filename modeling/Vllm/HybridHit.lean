import Vllm.KVCacheManager

namespace Vllm

namespace CacheHit

variable {q : Lookup} {rows : List HitRow} {M n i : Nat}

/-- The row was found under the hash of its index. -/
def Lookup.HitAt (q : Lookup) (i : Nat) (row : HitRow) : Prop :=
  ∃ x, q.blockHashes[i]? = some x ∧ q.hit x = some row

def Lookup.HitsIn (q : Lookup) (rows : List HitRow) (lo hi : Nat) : Prop :=
  ∀ j row, rows[j]? = some row → lo ≤ j → j < hi → q.HitAt j row

def firstRead (spec : KVCacheSpec) (blockSize n : Nat) : Nat :=
  match spec with
  | .fullAttention .. | .mlaAttention .. => 0
  | .slidingWindow _ window => n - (Py.cdiv ((window : Int) - 1) blockSize).toNat
  | .chunkedLocalAttention _ attentionChunkSize =>
    n * blockSize / attentionChunkSize * attentionChunkSize / blockSize
  | .mamba _ => n - 1
  | .crossAttention _ => 0

def Valid (spec : KVCacheSpec) (q : Lookup) (rows : List HitRow) : Prop :=
  q.HitsIn rows (firstRead spec q.blockSize rows.length) rows.length

def Lookup.Aligned (q : Lookup) (n : Nat) : Prop := q.alignmentTokens ∣ n * q.blockSize

theorem Lookup.aligned_of_not_unaligned (h : q.unaligned n = false) : q.Aligned n := by
  simp only [Lookup.unaligned, decide_eq_false_iff_not, not_and, not_not] at h
  by_cases heq : q.blockSize = q.alignmentTokens
  · unfold Lookup.Aligned
    rw [heq]
    exact Nat.dvd_mul_left _ _
  · exact Nat.dvd_of_mod_eq_zero (h heq)

theorem Lookup.alignedLength_spec (n : Nat) :
    q.alignedLength n ≤ n ∧ q.Aligned (q.alignedLength n) := by
  induction n with
  | zero => exact ⟨Nat.le_refl 0, by simp [alignedLength, Aligned]⟩
  | succ n ih =>
    unfold alignedLength
    split
    · exact ⟨Nat.le_succ_of_le ih.1, ih.2⟩
    · rename_i h
      exact ⟨Nat.le_refl _, aligned_of_not_unaligned (by simpa using h)⟩

theorem Lookup.popUnaligned_spec (rows : List HitRow) :
    (q.popUnaligned rows).length ≤ rows.length ∧ q.Aligned (q.popUnaligned rows).length ∧
      ∀ (j : Nat) (row : HitRow), (q.popUnaligned rows)[j]? = some row → rows[j]? = some row := by
  obtain ⟨hle, haligned⟩ := q.alignedLength_spec rows.length
  have hlen : (q.popUnaligned rows).length = q.alignedLength rows.length := by
    rw [popUnaligned, List.length_take, Nat.min_eq_left hle]
  refine ⟨hlen ▸ hle, hlen ▸ haligned, fun j row hj => ?_⟩
  rw [popUnaligned, List.getElem?_take] at hj
  split at hj
  · exact hj
  · cases hj

theorem getElem?_of_dropLast {j : Nat} {row : HitRow} (h : rows.dropLast[j]? = some row) :
    rows[j]? = some row := by
  rw [List.dropLast_eq_take, List.getElem?_take] at h
  split at h
  · exact h
  · cases h

theorem Lookup.leadingHits_spec (hashes : List BlockHash) :
    (q.leadingHits hashes).length ≤ hashes.length ∧
      ∀ (j : Nat) (row : HitRow), (q.leadingHits hashes)[j]? = some row →
        ∃ x, hashes[j]? = some x ∧ q.hit x = some row := by
  induction hashes with
  | nil => exact ⟨Nat.le_refl 0, fun j row hj => by simp [leadingHits] at hj⟩
  | cons x hashes ih =>
    unfold leadingHits
    split
    · rename_i row₀ hrow₀
      refine ⟨Nat.succ_le_succ ih.1, fun j row hj => ?_⟩
      cases j with
      | zero =>
        rw [List.getElem?_cons_zero, Option.some_inj] at hj
        exact ⟨x, rfl, hj ▸ hrow₀⟩
      | succ j => exact ih.2 j row hj
    · exact ⟨Nat.zero_le _, fun j row hj => by simp at hj⟩

structure Finds (spec : KVCacheSpec) (q : Lookup) (L : Nat) (rows : List HitRow) : Prop where
  find : find spec q L = .ok rows
  le : rows.length * q.blockSize ≤ L
  aligned : q.Aligned rows.length
  hashed : rows.length ≤ q.blockHashes.length
  valid : Valid spec q rows

theorem fullAttention_spec (L : Nat) : ∃ rows, fullAttention q L = .ok rows ∧
    rows.length * q.blockSize ≤ L ∧ q.Aligned rows.length ∧ rows.length ≤ q.blockHashes.length ∧
    q.HitsIn rows 0 rows.length := by
  obtain ⟨hlen, hhits⟩ := q.leadingHits_spec (q.blockHashes.take (L / q.blockSize))
  rw [List.length_take] at hlen
  obtain ⟨rows₁, hrows₁⟩ : ∃ rows₁, rows₁ =
      if q.useEagle then (q.leadingHits (q.blockHashes.take (L / q.blockSize))).dropLast
      else q.leadingHits (q.blockHashes.take (L / q.blockSize)) := ⟨_, rfl⟩
  have hlen₁ : rows₁.length ≤ (q.leadingHits (q.blockHashes.take (L / q.blockSize))).length := by
    rw [hrows₁]
    split
    · rw [List.length_dropLast]
      exact Nat.sub_le _ _
    · exact Nat.le_refl _
  have hhits₁ : ∀ (j : Nat) (row : HitRow), rows₁[j]? = some row → q.HitAt j row := by
    intro j row hj
    have hj : (q.leadingHits (q.blockHashes.take (L / q.blockSize)))[j]? = some row := by
      rw [hrows₁] at hj
      split at hj
      · exact getElem?_of_dropLast hj
      · exact hj
    obtain ⟨x, hx, hit⟩ := hhits j row hj
    rw [List.getElem?_take] at hx
    split at hx
    · exact ⟨x, hx, hit⟩
    · cases hx
  obtain ⟨hpop, haligned, hsub⟩ := q.popUnaligned_spec rows₁
  have hle : (q.popUnaligned rows₁).length ≤ L / q.blockSize := by omega
  refine ⟨q.popUnaligned rows₁, ?_, ?_, haligned, by omega, fun j row hj _ _ => ?_⟩
  · have hnonneg : ¬ (L : Int) / (q.blockSize : Int) < 0 := by
      exact not_lt.mpr (Int.natCast_nonneg (L / q.blockSize))
    have hnat : ((L : Int) / (q.blockSize : Int)).toNat = L / q.blockSize := by
      exact Int.toNat_natCast (L / q.blockSize)
    simp only [fullAttention, if_neg hnonneg, hnat, ← hrows₁]
  · exact (Nat.mul_le_mul_right _ hle).trans (Nat.div_mul_le_self L q.blockSize)
  · exact hhits₁ j row (hsub j row hj)

/-- What the scan from right to left keeps: the run of `n` rows from `i` on was found, and it ends
at an aligned length. -/
structure Run (q : Lookup) (rows : List HitRow) (i n : Nat) : Prop where
  le : i + n ≤ rows.length
  hits : q.HitsIn rows i (i + n)
  aligned : n = 0 ∨ q.Aligned (i + n)

theorem Run.skip (h : Run q rows (i + 1) 0) : Run q rows i 0 :=
  ⟨by have := h.le; omega, fun _ _ _ _ _ => by omega, .inl rfl⟩

theorem Run.miss (h : Run q rows (i + 1) n) : Run q rows i 0 :=
  ⟨by have := h.le; omega, fun _ _ _ _ _ => by omega, .inl rfl⟩

theorem Run.hit (h : Run q rows (i + 1) n) {row : HitRow} (hrow : q.HitAt i row)
    (haligned : ¬ (n = 0 ∧ q.unaligned (i + 1))) : Run q (rows.set i row) i (n + 1) := by
  have hle := h.le
  refine ⟨by rw [List.length_set]; omega, fun j row' hj hlo hhi => ?_, .inr ?_⟩
  · rw [List.getElem?_set] at hj
    split at hj
    · rename_i hij
      subst hij
      rw [if_pos (by omega), Option.some_inj] at hj
      exact hj ▸ hrow
    · exact h.hits j row' hj (by omega) (by omega)
  · rw [show i + (n + 1) = i + 1 + n by omega]
    rcases h.aligned with rfl | hrun
    · exact Lookup.aligned_of_not_unaligned (by simpa using haligned)
    · exact hrun

theorem slidingScan_spec (need : Int) (h : Run q rows i n)
    (hhash : rows.length ≤ q.blockHashes.length) :
    ∃ rows' n' found, slidingScan q need i rows n = .ok (rows', n', found) ∧
      rows'.length ≤ rows.length ∧
      (found = true → need ≤ n' ∧ ∃ k, rows'.length = k + n' ∧ Run q rows' k n' ∧ 0 < n') ∧
      (found = false → Run q rows' 0 n') := by
  induction i generalizing rows n with
  | zero =>
    exact ⟨rows, n, false, rfl, Nat.le_refl _, nofun, fun _ => h⟩
  | succ i ih =>
    have hlt : i < q.blockHashes.length := by
      have := h.le
      omega
    have hget : Result.getItem q.blockHashes i = .ok q.blockHashes[i] :=
      Result.getItem_eq_ok.mpr (List.getElem?_eq_getElem hlt)
    unfold slidingScan
    rw [hget, Result.ok_bind]
    split
    · rename_i row hrow
      have hat : q.HitAt i row := ⟨_, List.getElem?_eq_getElem hlt, hrow⟩
      split
      · rename_i hskip
        rw [hskip.1] at h ⊢
        exact ih h.skip hhash
      · rename_i hskip
        have hrun := h.hit hat hskip
        have hlen : (rows.set i row).length = rows.length := List.length_set
        simp only
        split
        · rename_i hneed
          have hle := hrun.le
          have htake : ((rows.set i row).take (i + (n + 1))).length = i + (n + 1) := by
            rw [List.length_take, Nat.min_eq_left hle]
          refine ⟨_, _, true, rfl, by omega, fun _ => ⟨hneed, i, htake, ⟨by omega, ?_, hrun.aligned⟩,
            Nat.succ_pos n⟩, nofun⟩
          intro j row' hj hlo hhi
          rw [List.getElem?_take, if_pos hhi] at hj
          exact hrun.hits j row' hj hlo hhi
        · obtain ⟨rows', n', found, hok, hle, hfound, hnot⟩ := ih hrun (hlen ▸ hhash)
          exact ⟨rows', n', found, hok, hlen ▸ hle, hfound, hnot⟩
    · exact ih h.miss hhash

theorem slidingWindow_spec (window L : Nat) (hhash : L / q.blockSize ≤ q.blockHashes.length)
    (heagle : q.useEagle = true → q.blockSize = q.alignmentTokens) :
    ∃ rows, slidingWindow q window L = .ok rows ∧ rows.length * q.blockSize ≤ L ∧
      q.Aligned rows.length ∧ rows.length ≤ q.blockHashes.length ∧
      q.HitsIn rows (rows.length - (Py.cdiv ((window : Int) - 1) q.blockSize).toNat)
        rows.length := by
  have hmax : ((L : Int) / (q.blockSize : Int)).toNat = L / q.blockSize :=
    Int.toNat_natCast (L / q.blockSize)
  obtain ⟨need, hneed⟩ : ∃ need, need =
      Py.cdiv ((window : Int) - 1) q.blockSize + if q.useEagle then 1 else 0 := ⟨_, rfl⟩
  have hrun : Run q (List.replicate (L / q.blockSize) q.nullRow) (L / q.blockSize) 0 :=
    ⟨by rw [List.length_replicate]; omega, fun _ _ _ _ _ => by omega, .inl rfl⟩
  obtain ⟨rows₁, n₁, found, hscan, hlen₁, hfound, hnot⟩ :=
    slidingScan_spec need hrun (by rw [List.length_replicate]; exact hhash)
  rw [List.length_replicate] at hlen₁
  obtain ⟨cut, hcut⟩ : ∃ cut, cut =
      if found then rows₁ else q.popUnaligned (rows₁.take n₁) := ⟨_, rfl⟩
  have hspec : cut.length ≤ L / q.blockSize ∧ q.Aligned cut.length ∧
      q.HitsIn cut (cut.length - need.toNat) cut.length := by
    cases found with
    | true =>
      obtain ⟨hle, k, hk, hrun₁, hpos⟩ := hfound rfl
      have heq : cut = rows₁ := hcut
      rw [heq]
      refine ⟨hlen₁, ?_, fun j row hj hlo hhi => hrun₁.hits j row hj (by omega) (by omega)⟩
      rw [hk]
      exact hrun₁.aligned.resolve_left (Nat.ne_of_gt hpos)
    | false =>
      have hrun₁ := hnot rfl
      have heq : cut = q.popUnaligned (rows₁.take n₁) := hcut
      obtain ⟨hpop, haligned, hsub⟩ := q.popUnaligned_spec (rows₁.take n₁)
      rw [List.length_take] at hpop
      rw [heq]
      refine ⟨by omega, haligned, fun j row hj _ _ => ?_⟩
      have hj := hsub j row hj
      rw [List.getElem?_take] at hj
      split at hj
      · exact hrun₁.hits j row hj (Nat.zero_le _) (by omega)
      · cases hj
  obtain ⟨hle, haligned, hhits⟩ := hspec
  have hmul : cut.length * q.blockSize ≤ L :=
    (Nat.mul_le_mul_right _ hle).trans (Nat.div_mul_le_self L q.blockSize)
  have hok : slidingWindow q window L = (if q.useEagle ∧ cut ≠ [] then do
      Result.ensure (q.blockSize = q.alignmentTokens)
        "aligned_length is not compatible with eagle now"
      return cut.dropLast
    else return cut) := by
    simp only [slidingWindow, hmax, ← hneed, hscan, Result.ok_bind, ← hcut]
  by_cases heag : q.useEagle = true ∧ cut ≠ []
  · have hbs := heagle heag.1
    have hdrop : cut.dropLast.length = cut.length - 1 := List.length_dropLast
    refine ⟨cut.dropLast, ?_, ?_, ?_, by omega, fun j row hj hlo hhi => ?_⟩
    · rw [hok, if_pos heag]
      simp only [Result.ensure, hbs, if_true, Result.ok_bind]
      rfl
    · exact (Nat.mul_le_mul_right _ (by omega)).trans hmul
    · unfold Lookup.Aligned
      rw [hbs]
      exact Nat.dvd_mul_left _ _
    · rw [if_pos heag.1] at hneed
      exact hhits j row (getElem?_of_dropLast hj) (by omega) (by omega)
  · refine ⟨cut, by rw [hok, if_neg heag]; rfl, hmul, haligned, by omega,
      fun j row hj hlo hhi => ?_⟩
    by_cases huse : q.useEagle = true
    · have hnil : cut = [] := by
        by_contra hne
        exact heag ⟨huse, hne⟩
      rw [hnil] at hj
      cases hj
    · rw [if_neg huse] at hneed
      exact hhits j row hj (by omega) hhi

theorem chunkHits_spec {n i : Nat} (h : i + n ≤ q.blockHashes.length) :
    ∃ rows, chunkHits q n i = .ok rows ∧ rows.length ≤ n ∧
      ∀ (j : Nat) (row : HitRow), rows[j]? = some row → q.HitAt (i + j) row := by
  induction n generalizing i with
  | zero => exact ⟨[], rfl, Nat.le_refl 0, nofun⟩
  | succ n ih =>
    have hlt : i < q.blockHashes.length := by omega
    have hget : Result.getItem q.blockHashes i = .ok q.blockHashes[i] :=
      Result.getItem_eq_ok.mpr (List.getElem?_eq_getElem hlt)
    unfold chunkHits
    rw [hget, Result.ok_bind]
    split
    · rename_i row hrow
      obtain ⟨rows, hok, hlen, hhits⟩ := ih (i := i + 1) (by omega)
      refine ⟨row :: rows, by rw [hok]; rfl, Nat.succ_le_succ hlen, fun j row' hj => ?_⟩
      cases j with
      | zero =>
        rw [List.getElem?_cons_zero, Option.some_inj] at hj
        exact ⟨_, List.getElem?_eq_getElem hlt, hj ▸ hrow⟩
      | succ j =>
        rw [show i + (j + 1) = i + 1 + j by omega]
        exact hhits j row' hj
    · exact ⟨[], rfl, Nat.zero_le _, nofun⟩

theorem chunkedLocalAttention_spec {chunk : Nat} (L : Nat)
    (hhash : L / q.blockSize ≤ q.blockHashes.length) (heagle : q.useEagle = false)
    (hbs : q.blockSize = q.alignmentTokens) (hpos : 0 < q.blockSize) (hchunk : q.blockSize ∣ chunk) :
    ∃ rows, chunkedLocalAttention q chunk L = .ok rows ∧ rows.length * q.blockSize ≤ L ∧
      q.Aligned rows.length ∧ rows.length ≤ q.blockHashes.length ∧
      q.HitsIn rows (rows.length * q.blockSize / chunk * chunk / q.blockSize) rows.length := by
  have hmax : ((L : Int) / (q.blockSize : Int)).toNat = L / q.blockSize :=
    Int.toNat_natCast (L / q.blockSize)
  have hif : (if (L : Int) > 0 then (L : Int) / (chunk : Int) * (chunk : Int) else 0) =
      ((L / chunk * chunk : Nat) : Int) := by
    split
    · push_cast
      rfl
    · have hzero : L = 0 := by omega
      simp [hzero]
  have hstart : (((L / chunk * chunk : Nat) : Int) / (q.blockSize : Int)).toNat =
      L / chunk * chunk / q.blockSize := Int.toNat_natCast (L / chunk * chunk / q.blockSize)
  obtain ⟨start, hs⟩ : ∃ start, start = L / chunk * chunk / q.blockSize := ⟨_, rfl⟩
  have hdvd : start * q.blockSize = L / chunk * chunk := by
    rw [hs]
    exact Nat.div_mul_cancel (hchunk.trans (Nat.dvd_mul_left _ _))
  have hle : start ≤ L / q.blockSize := by
    rw [hs]
    exact Nat.div_le_div_right (Nat.div_mul_le_self L chunk)
  obtain ⟨rows, hok, hlen, hhits⟩ := chunkHits_spec (q := q) (n := L / q.blockSize - start)
    (i := start) (by omega)
  have hlength : (List.replicate start q.nullRow ++ rows).length = start + rows.length := by simp
  refine ⟨List.replicate start q.nullRow ++ rows, ?_, ?_, ?_, by omega, fun j row hj hlo _ => ?_⟩
  · simp only [chunkedLocalAttention, heagle, Result.ensure, hbs.symm, if_true, Result.ok_bind, hmax,
      hif, hstart, ← hs, hok]
    rfl
  · exact (Nat.mul_le_mul_right _ (by omega)).trans (Nat.div_mul_le_self L q.blockSize)
  · unfold Lookup.Aligned
    rw [hbs]
    exact Nat.dvd_mul_left _ _
  · -- the hit is at least as long as the chunks before the last one, which are whole blocks
    have hfirst : start ≤ (List.replicate start q.nullRow ++ rows).length * q.blockSize / chunk *
        chunk / q.blockSize := by
      rw [Nat.le_div_iff_mul_le hpos, hdvd, hlength, Nat.add_mul, hdvd]
      refine Nat.mul_le_mul_right _ ?_
      rcases Nat.eq_zero_or_pos chunk with rfl | hc
      · simp
      · rw [Nat.le_div_iff_mul_le hc]
        exact Nat.le_add_right _ _
    rw [List.getElem?_append_right (by simpa using hfirst.trans hlo), List.length_replicate] at hj
    have hat := hhits (j - start) row hj
    rwa [Nat.add_sub_cancel' (hfirst.trans hlo)] at hat

theorem mambaScan_spec (hi : i ≤ q.blockHashes.length) :
    ∃ rows, mambaScan q i = .ok rows ∧ rows.length ≤ i ∧ q.Aligned rows.length ∧
      q.HitsIn rows (rows.length - 1) rows.length := by
  induction i with
  | zero => exact ⟨[], rfl, Nat.le_refl 0, by simp [Lookup.Aligned], nofun⟩
  | succ i ih =>
    have hlt : i < q.blockHashes.length := by omega
    have hget : Result.getItem q.blockHashes i = .ok q.blockHashes[i] :=
      Result.getItem_eq_ok.mpr (List.getElem?_eq_getElem hlt)
    obtain ⟨rows, hok, hlen, haligned, hhits⟩ := ih (by omega)
    unfold mambaScan
    rw [hget, Result.ok_bind]
    split
    · rename_i row hrow
      split
      · exact ⟨rows, hok, by omega, haligned, hhits⟩
      · rename_i hunaligned
        have hlen : (List.replicate i q.nullRow ++ [row]).length = i + 1 := by simp
        refine ⟨_, rfl, by omega, ?_, fun j row' hj hlo hhi => ?_⟩
        · rw [hlen]
          exact Lookup.aligned_of_not_unaligned (by simpa using hunaligned)
        · have hji : j = i := by omega
          subst hji
          rw [List.getElem?_append_right (by simp), List.length_replicate, Nat.sub_self] at hj
          cases hj
          exact ⟨_, List.getElem?_eq_getElem hlt, hrow⟩
    · exact ⟨rows, hok, by omega, haligned, hhits⟩

structure Accepts (spec : KVCacheSpec) (q : Lookup) : Prop where
  pos : 0 < q.blockSize
  sliding : ∀ a w, spec = .slidingWindow a w → q.useEagle = true →
    q.blockSize = q.alignmentTokens
  chunked : ∀ a k, spec = .chunkedLocalAttention a k →
    q.useEagle = false ∧ q.blockSize = q.alignmentTokens ∧ q.blockSize ∣ k
  cross : spec.isCrossAttention = false

theorem find_spec {spec : KVCacheSpec} (hq : Accepts spec q) (L : Nat)
    (hhash : spec.isFullAttention = true ∨ L / q.blockSize ≤ q.blockHashes.length) :
    ∃ rows, Finds spec q L rows := by
  cases spec with
  | fullAttention a v w k =>
    obtain ⟨rows, hok, hle, haligned, hlen, hhits⟩ := fullAttention_spec (q := q) L
    exact ⟨rows, hok, hle, haligned, hlen, hhits⟩
  | mlaAttention a d =>
    obtain ⟨rows, hok, hle, haligned, hlen, hhits⟩ := fullAttention_spec (q := q) L
    exact ⟨rows, hok, hle, haligned, hlen, hhits⟩
  | slidingWindow a w =>
    obtain ⟨rows, hok, hle, haligned, hlen, hhits⟩ := slidingWindow_spec w L
      (hhash.resolve_left nofun) (hq.sliding a w rfl)
    exact ⟨rows, hok, hle, haligned, hlen, hhits⟩
  | chunkedLocalAttention a k =>
    obtain ⟨heagle, hbs, hdvd⟩ := hq.chunked a k rfl
    obtain ⟨rows, hok, hle, haligned, hlen, hhits⟩ := chunkedLocalAttention_spec L
      (hhash.resolve_left nofun) heagle hbs hq.pos hdvd
    exact ⟨rows, hok, hle, haligned, hlen, hhits⟩
  | mamba m =>
    have hhash := hhash.resolve_left nofun
    obtain ⟨rows, hok, hlen, haligned, hhits⟩ := mambaScan_spec hhash
    refine ⟨rows, ?_, ?_, haligned, hlen.trans hhash, hhits⟩
    · have hmax : ((L : Int) / (q.blockSize : Int)).toNat = L / q.blockSize :=
        Int.toNat_natCast (L / q.blockSize)
      simp only [CacheHit.find, hmax]
      exact hok
    · exact (Nat.mul_le_mul_right _ hlen).trans (Nat.div_mul_le_self L q.blockSize)
  | crossAttention a => cases hq.cross

end CacheHit

end Vllm
