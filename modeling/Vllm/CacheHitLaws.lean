import Vllm.BlockPoolLaws
import Vllm.CacheHit

namespace Vllm

open BlockPool

theorem makeBlockHashWithGroupId_inj {x y : BlockHash} {g : Nat}
    (h : makeBlockHashWithGroupId x g = makeBlockHashWithGroupId y g) : x = y :=
  List.append_cancel_right h

namespace CacheHit

def Lookup.RowOk (q : Lookup) (i : Nat) (row : HitRow) : Prop :=
  ∀ (g : Nat) (b : BlockId), row[g]? = some b → b = nullBlock ∨
    ∃ x gid, q.blockHashes[i]? = some x ∧ q.groupIds[g]? = some gid ∧
      q.pool.blockHash b = some (makeBlockHashWithGroupId x gid)

def Lookup.RowsOk (q : Lookup) (rows : List HitRow) : Prop :=
  ∀ i row, rows[i]? = some row → q.RowOk i row

variable {c : PoolConfig} {q : Lookup}

theorem Lookup.nullRow_ok (q : Lookup) (i : Nat) : q.RowOk i q.nullRow := by
  intro g b hb
  left
  have := List.mem_of_getElem? hb
  simp only [Lookup.nullRow, List.mem_map] at this
  obtain ⟨_, _, rfl⟩ := this
  rfl

theorem getCachedBlock_spec {p : BlockPool} (hp : p.HashOk c) {x : BlockHash} {gids : List Nat}
    {row : HitRow} (h : p.getCachedBlock x gids = some row) :
    ∀ (g : Nat) (b : BlockId), row[g]? = some b →
      ∃ gid, gids[g]? = some gid ∧ p.blockHash b = some (makeBlockHashWithGroupId x gid) := by
  induction gids generalizing row with
  | nil =>
    simp only [getCachedBlock, Option.some_inj] at h
    subst h
    simp
  | cons gid gids ih =>
    simp only [getCachedBlock, Option.pure_def, Option.bind_eq_bind, Option.bind_eq_some_iff,
      Option.some_inj] at h
    obtain ⟨b₀, hb₀, rest, hrest, rfl⟩ := h
    intro g b hb
    cases g with
    | zero =>
      rw [List.getElem?_cons_zero, Option.some_inj] at hb
      subst hb
      refine ⟨gid, rfl, (hp.stored b₀ _).mpr ?_⟩
      exact List.mem_of_mem_head? hb₀
    | succ g => exact ih hrest g b hb

theorem Lookup.hit_ok (hq : q.pool.HashOk c) {i : Nat} {x : BlockHash} {row : HitRow}
    (hx : q.blockHashes[i]? = some x) (h : q.hit x = some row) : q.RowOk i row := by
  unfold Lookup.hit at h
  split at h
  · rename_i b bs hc
    rw [Option.some_inj] at h
    subst h
    intro g b' hb'
    obtain ⟨gid, hgid, hash⟩ := getCachedBlock_spec hq hc g b' hb'
    exact Or.inr ⟨x, gid, hx, hgid, hash⟩
  · cases h

theorem Lookup.RowsOk.take {rows : List HitRow} (h : q.RowsOk rows) (n : Nat) :
    q.RowsOk (rows.take n) := by
  intro i row hi
  rw [List.getElem?_take] at hi
  split at hi
  · exact h i row hi
  · cases hi

theorem Lookup.RowsOk.dropLast {rows : List HitRow} (h : q.RowsOk rows) :
    q.RowsOk rows.dropLast := by
  rw [List.dropLast_eq_take]
  exact h.take _

theorem Lookup.RowsOk.set {rows : List HitRow} (h : q.RowsOk rows) {i : Nat} {row : HitRow}
    (hrow : q.RowOk i row) : q.RowsOk (rows.set i row) := by
  intro j row' hj
  rw [List.getElem?_set] at hj
  split at hj
  · rename_i hij
    subst hij
    split at hj
    · rw [Option.some_inj] at hj
      exact hj ▸ hrow
    · cases hj
  · exact h j row' hj

theorem Lookup.replicate_nullRow_ok (q : Lookup) (n : Nat) :
    q.RowsOk (List.replicate n q.nullRow) := by
  intro i row hi
  rw [List.getElem?_replicate] at hi
  split at hi
  · rw [Option.some_inj] at hi
    exact hi ▸ q.nullRow_ok i
  · cases hi

theorem Lookup.RowsOk.null_append {rows : List HitRow} {n : Nat}
    (h : ∀ i row, rows[i]? = some row → q.RowOk (n + i) row) :
    q.RowsOk (List.replicate n q.nullRow ++ rows) := by
  intro i row hi
  rw [List.getElem?_append] at hi
  split at hi
  · exact q.replicate_nullRow_ok n i row hi
  · rename_i hlt
    rw [List.length_replicate] at hi hlt
    have := h (i - n) row hi
    rwa [Nat.add_sub_cancel' (Nat.not_lt.mp hlt)] at this

theorem Lookup.leadingHits_ok (hq : q.pool.HashOk c) {hashes : List BlockHash} {n : Nat}
    (hsub : ∀ i x, hashes[i]? = some x → q.blockHashes[n + i]? = some x) :
    ∀ (i : Nat) (row : HitRow), (q.leadingHits hashes)[i]? = some row → q.RowOk (n + i) row := by
  induction hashes generalizing n with
  | nil =>
    intro i row hi
    simp [Lookup.leadingHits] at hi
  | cons x hashes ih =>
    intro i row hi
    unfold Lookup.leadingHits at hi
    split at hi
    · rename_i row₀ hrow₀
      cases i with
      | zero =>
        rw [List.getElem?_cons_zero, Option.some_inj] at hi
        subst hi
        exact Lookup.hit_ok hq (hsub 0 x rfl) hrow₀
      | succ i =>
        rw [List.getElem?_cons_succ] at hi
        have := ih (n := n + 1) (fun j y hj => by
          rw [Nat.add_assoc, Nat.add_comm 1 j]
          exact hsub (j + 1) y hj) i row hi
        rwa [Nat.add_assoc, Nat.add_comm 1 i] at this
    · simp at hi

theorem fullAttention_ok (hq : q.pool.HashOk c) {maxLength : Int} {rows : List HitRow}
    (h : fullAttention q maxLength = .ok rows) : q.RowsOk rows := by
  unfold fullAttention at h
  simp only at h
  split at h
  · cases h
  · cases h
    have hlead : q.RowsOk (q.leadingHits (q.blockHashes.take (maxLength / q.blockSize).toNat)) := by
      intro i row hi
      have := Lookup.leadingHits_ok hq (n := 0) (fun j x hj => by
        rw [List.getElem?_take] at hj
        split at hj
        · rwa [Nat.zero_add]
        · cases hj) i row hi
      rwa [Nat.zero_add] at this
    apply Lookup.RowsOk.take
    split
    · exact hlead.dropLast
    · exact hlead

theorem slidingScan_ok (hq : q.pool.HashOk c) {need : Int} {i : Nat} {rows : List HitRow}
    {n : Nat} {r : List HitRow × Nat × Bool} (hrows : q.RowsOk rows)
    (h : slidingScan q need i rows n = .ok r) : q.RowsOk r.1 := by
  induction i generalizing rows n with
  | zero =>
    cases h
    exact hrows
  | succ i ih =>
    simp only [slidingScan, Result.bind_eq_ok, Result.getItem_eq_ok] at h
    obtain ⟨x, hx, h⟩ := h
    split at h
    · rename_i row hrow
      have hset := hrows.set (Lookup.hit_ok hq hx hrow)
      split at h
      · exact ih hrows h
      · split at h
        · cases h
          exact hset.take _
        · exact ih hset h
    · exact ih hrows h

theorem slidingWindow_ok (hq : q.pool.HashOk c) {window : Nat} {maxLength : Int}
    {rows : List HitRow} (h : slidingWindow q window maxLength = .ok rows) : q.RowsOk rows := by
  simp only [slidingWindow, Result.bind_eq_ok, Prod.exists] at h
  obtain ⟨rows₀, n, found, hscan, h⟩ := h
  have hrows₀ : q.RowsOk rows₀ := slidingScan_ok hq (q.replicate_nullRow_ok _) hscan
  have hcut : q.RowsOk (if found then rows₀ else q.popUnaligned (rows₀.take n)) := by
    split
    · exact hrows₀
    · exact (hrows₀.take n).take _
  generalize (if found then rows₀ else q.popUnaligned (rows₀.take n)) = cut at h hcut
  split at h
  · simp only [Result.bind_eq_ok, Result.pure_eq_ok] at h
    obtain ⟨-, -, rfl⟩ := h
    exact hcut.dropLast
  · rw [Result.pure_eq_ok] at h
    exact h ▸ hcut

theorem chunkHits_ok (hq : q.pool.HashOk c) {n i : Nat} {rows : List HitRow}
    (h : chunkHits q n i = .ok rows) :
    ∀ (j : Nat) (row : HitRow), rows[j]? = some row → q.RowOk (i + j) row := by
  induction n generalizing i rows with
  | zero =>
    cases h
    simp
  | succ n ih =>
    simp only [chunkHits, Result.bind_eq_ok, Result.getItem_eq_ok] at h
    obtain ⟨x, hx, h⟩ := h
    split at h
    · rename_i row hrow
      simp only [Result.bind_eq_ok, Result.pure_eq_ok] at h
      obtain ⟨rest, hrest, rfl⟩ := h
      intro j row' hj
      cases j with
      | zero =>
        rw [List.getElem?_cons_zero, Option.some_inj] at hj
        exact hj ▸ Lookup.hit_ok hq hx hrow
      | succ j =>
        have := ih hrest j row' hj
        rwa [Nat.add_assoc, Nat.add_comm 1 j] at this
    · rw [Result.pure_eq_ok] at h
      subst h
      simp

theorem chunkedLocalAttention_ok (hq : q.pool.HashOk c) {chunk : Nat} {maxLength : Int}
    {rows : List HitRow} (h : chunkedLocalAttention q chunk maxLength = .ok rows) :
    q.RowsOk rows := by
  simp only [chunkedLocalAttention, Result.bind_eq_ok, Result.ensure_eq_ok, Result.pure_eq_ok] at h
  obtain ⟨-, -, -, -, hits, hhits, rfl⟩ := h
  exact Lookup.RowsOk.null_append (chunkHits_ok hq hhits)

theorem mambaScan_ok (hq : q.pool.HashOk c) {i : Nat} {rows : List HitRow}
    (h : mambaScan q i = .ok rows) : q.RowsOk rows := by
  induction i with
  | zero =>
    cases h
    intro i row hi
    simp at hi
  | succ i ih =>
    simp only [mambaScan, Result.bind_eq_ok, Result.getItem_eq_ok] at h
    obtain ⟨x, hx, h⟩ := h
    split at h
    · rename_i row hrow
      split at h
      · exact ih h
      · rw [Result.pure_eq_ok] at h
        subst h
        apply Lookup.RowsOk.null_append
        intro j row' hj
        cases j with
        | zero =>
          rw [List.getElem?_cons_zero, Option.some_inj] at hj
          exact hj ▸ Lookup.hit_ok hq hx hrow
        | succ j => simp at hj
    · exact ih h

theorem find_ok (hq : q.pool.HashOk c) {spec : KVCacheSpec} {maxLength : Int} {rows : List HitRow}
    (h : find spec q maxLength = .ok rows) : q.RowsOk rows := by
  cases spec with
  | fullAttention a v w k => exact fullAttention_ok hq h
  | mlaAttention a d => exact fullAttention_ok hq h
  | chunkedLocalAttention a k => exact chunkedLocalAttention_ok hq h
  | slidingWindow a w => exact slidingWindow_ok hq h
  | mamba m => exact mambaScan_ok hq h
  | crossAttention a => cases h

end CacheHit

def Distinct (l : List BlockId) : Prop := ∀ b ≠ nullBlock, l.count b ≤ 1

theorem distinct_iff_nodup_filter {l : List BlockId} :
    Distinct l ↔ (l.filter (· ≠ nullBlock)).Nodup := by
  rw [List.nodup_iff_count_le_one]
  constructor
  · intro h b
    by_cases hb : b = nullBlock
    · have hnot : b ∉ l.filter (· ≠ nullBlock) := by simp [hb]
      rw [List.count_eq_zero.mpr hnot]
      exact Nat.zero_le 1
    · rw [List.count_filter (by simpa using hb)]
      exact h b hb
  · intro h b hb
    have := h b
    rwa [List.count_filter (by simpa using hb)] at this

theorem count_le_one_of_index {l : List BlockId} {b : BlockId}
    (h : ∀ i j : Nat, l[i]? = some b → l[j]? = some b → i = j) : l.count b ≤ 1 := by
  induction l with
  | nil => simp
  | cons x l ih =>
    have hl := ih fun i j hi hj => by
      have := h (i + 1) (j + 1) (by simpa using hi) (by simpa using hj)
      omega
    rw [List.count_cons]
    by_cases hx : x = b
    · have hnot : b ∉ l := by
        intro hmem
        obtain ⟨j, hj⟩ := List.mem_iff_getElem?.mp hmem
        have := h 0 (j + 1) (by simp [hx]) (by simpa using hj)
        omega
      simp [hx, List.count_eq_zero.mpr hnot]
    · simpa [hx] using hl

structure HitOk (c : PoolConfig) (l : List BlockId) : Prop where
  valid : ∀ b ∈ l, b ≠ nullBlock → b < c.numGpuBlocks
  distinct : Distinct l

theorem HitOk.nil {c : PoolConfig} : HitOk c [] := ⟨by simp, by simp [Distinct]⟩

theorem HitOk.sublist {c : PoolConfig} {l l' : List BlockId} (h : HitOk c l) (hs : l'.Sublist l) :
    HitOk c l' :=
  ⟨fun b hb => h.valid b (hs.subset hb), fun b hb => (hs.count_le b).trans (h.distinct b hb)⟩

theorem CacheHit.column_ok {c : PoolConfig} {q : CacheHit.Lookup} (hq : q.pool.HashOk c)
    (hnd : q.blockHashes.Nodup) {rows : List HitRow} (hrows : q.RowsOk rows) (g : Nat) :
    HitOk c (CacheHit.column rows g) := by
  have hentry : ∀ (i : Nat) (b : BlockId), (CacheHit.column rows g)[i]? = some b →
      b ≠ nullBlock → ∃ x gid, q.blockHashes[i]? = some x ∧ q.groupIds[g]? = some gid ∧
        q.pool.blockHash b = some (makeBlockHashWithGroupId x gid) := by
    intro i b hi hb
    simp only [CacheHit.column, List.getElem?_map, Option.map_eq_some_iff] at hi
    obtain ⟨row, hrow, hget⟩ := hi
    have hsome : row[g]? = some b := by
      cases hg : row[g]? with
      | none =>
        rw [List.getD_eq_getElem?_getD, hg] at hget
        exact absurd hget.symm hb
      | some b' =>
        rw [List.getD_eq_getElem?_getD, hg] at hget
        rw [← hget]
        rfl
    exact (hrows i row hrow g b hsome).resolve_left hb
  constructor
  · intro b hmem hb
    obtain ⟨i, hi⟩ := List.mem_iff_getElem?.mp hmem
    obtain ⟨x, gid, -, -, hash⟩ := hentry i b hi hb
    exact (hq.valid b _ hash).2
  · intro b hb
    apply count_le_one_of_index
    intro i j hi hj
    obtain ⟨x, gid, hx, hgid, hash⟩ := hentry i b hi hb
    obtain ⟨y, gid', hy, hgid', hash'⟩ := hentry j b hj hb
    rw [hgid, Option.some_inj] at hgid'
    subst hgid'
    rw [hash, Option.some_inj] at hash'
    have hxy := makeBlockHashWithGroupId_inj hash'
    subst hxy
    obtain ⟨hi, hxi⟩ := List.getElem?_eq_some_iff.mp hx
    obtain ⟨hj, hxj⟩ := List.getElem?_eq_some_iff.mp hy
    exact (hnd.getElem_inj_iff).mp (hxi.trans hxj.symm)

end Vllm
