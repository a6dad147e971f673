import Mathlib.Data.List.Infix
import Vllm.CustomBlockAllocatorLaws
import Vllm.CustomCacheManager

namespace Vllm

namespace CustomBlockAllocator

variable {F : Type} {c : AllocatorConfig F} {s : CustomBlockAllocator} {seqId numTokens : Int}

def Exclusive (c : AllocatorConfig F) (s : CustomBlockAllocator) : Prop :=
  (s.freeBlocks ++ s.owned).Subperm (List.range c.numGpuBlocks)

theorem Exclusive.nodup (h : Exclusive c s) : (s.freeBlocks ++ s.owned).Nodup := by
  obtain ⟨l, hperm, hsub⟩ := h
  exact hperm.nodup_iff.mp (List.nodup_range.sublist hsub)

theorem Exclusive.mono {s' : CustomBlockAllocator} (h : Exclusive c s)
    (hsub : (s'.freeBlocks ++ s'.owned).Subperm (s.freeBlocks ++ s.owned)) : Exclusive c s' := hsub.trans h

theorem Exclusive.defragment (h : Exclusive c s) : Exclusive c (s.defragment c).2 :=
  (defragment_conserves h.nodup.of_append_right fun _ hb =>
    List.mem_range.mp (h.subset (List.mem_append_right _ hb))).subperm

theorem Exclusive.free (h : Exclusive c s) (seqId : Int) : Exclusive c (s.free seqId) := h.mono (perm_free s seqId).subperm

theorem allocContiguous_perm {n : Int} (hs : s.freeBlocks.Nodup) (hn : 0 ≤ n ∨ ¬ Ascending.HasRun s.freeBlocks (1 - n).toNat) :
    ∃ r rest, s.allocContiguous n = (r, { s with freeBlocks := rest }) ∧
      (r.collect id ++ rest).Perm s.freeBlocks := by
  rcases Int.lt_or_le 0 n with hpos | hnonpos
  · obtain ⟨blocks, rest, hfound, hperm, -⟩ := allocContiguous_of_pos hpos s
    exact ⟨_, rest, hfound, hperm⟩
  · rcases allocContiguous_of_nonpos hnonpos hs with ⟨hrun, rest, hfound, hzero⟩ | ⟨-, hfound⟩
    · exact ⟨_, rest, hfound, hzero (by have := hn.resolve_right (not_not.mpr hrun); omega)⟩
    · exact ⟨_, _, hfound, List.perm_insertionSort _ _⟩

theorem map_fst_of_mapM_withTier {tier : Option Tier} {blocks : List Nat} {entry : List (Nat × Tier)}
    (h : blocks.mapM (withTier tier) = .ok entry) : entry.map Prod.fst = blocks := by
  induction blocks generalizing entry with
  | nil =>
    cases h
    rfl
  | cons b blocks ih =>
    rw [List.mapM_cons, Result.bind_eq_ok] at h
    obtain ⟨p, hp, h⟩ := h
    rw [Result.bind_eq_ok] at h
    obtain ⟨rest, hrest, h⟩ := h
    cases h
    cases tier with
    | none => cases hp
    | some tier =>
      cases hp
      exact congrArg (b :: ·) (ih hrest)

variable [RatioArith F]

theorem allocate_exclusive (h : Exclusive c s) (seqId : Int)
    (hn : 0 ≤ numBlocks c numTokens ∨ ¬ Ascending.HasRun s.freeBlocks (1 - numBlocks c numTokens).toNat) :
    Exclusive c (s.allocate c seqId numTokens).2 ∧
      match (s.allocate c seqId numTokens).1 with
      | .ok blocks => blocks ⊆ s.freeBlocks ∧ ∃ entry, entry.map Prod.fst = blocks ∧
          (s.allocate c seqId numTokens).2.allocated = s.allocated.set seqId entry
      | .error _ => (s.allocate c seqId numTokens).2.allocated = s.allocated := by
  obtain ⟨r, rest, hfound, hperm⟩ := allocContiguous_perm h.nodup.of_append_left hn
  have hrest : Exclusive c { s with freeBlocks := rest } := by
    refine h.mono ?_
    show (rest ++ s.owned).Subperm _
    exact ((List.sublist_append_right _ _).subperm.trans hperm.subperm).append (List.Subperm.refl _)
  cases r with
  | error e =>
    rw [allocate_of_error hfound]
    exact ⟨hrest, rfl⟩
  | ok blocks =>
    have hperm : (blocks ++ rest).Perm s.freeBlocks := hperm
    cases hentry : blocks.mapM (withTier (tierOf c numTokens)) with
    | error e =>
      rw [allocate_of_lost hfound hentry]
      exact ⟨hrest, rfl⟩
    | ok entry =>
      have hfst := map_fst_of_mapM_withTier hentry
      have hassign : Exclusive c ⟨rest, s.allocated.set seqId entry⟩ :=
        h.mono ((List.sublist_append_left _ _).subperm.trans (perm_assign hperm hfst).subperm)
      have hsub : blocks ⊆ s.freeBlocks := fun b hb => hperm.subset (List.mem_append_left _ hb)
      rw [allocate_of_ok hfound hentry]
      dsimp only
      split
      · exact ⟨hassign.defragment, hsub, entry, hfst, rfl⟩
      · exact ⟨hassign, hsub, entry, hfst, rfl⟩

end CustomBlockAllocator

namespace CustomCacheManager

variable {F H : Type} {c : CacheManagerConfig F H} {tokenIds tokenIds' : List Int}

theorem prefixHash_eq (c : CacheManagerConfig F H) (tokenIds : List Int) :
    prefixHash c tokenIds = c.hash (tokenIds.take 256) := by
  rw [prefixHash, Nat.min_comm, ← List.take_eq_take_min]

theorem isPrefix_of_prefixHash (h : prefixHash c tokenIds = prefixHash c tokenIds')
    (hbehind : tokenIds.length ≤ 256 ∨ tokenIds.drop 256 <+: tokenIds'.drop 256) : tokenIds <+: tokenIds' := by
  rw [prefixHash_eq, prefixHash_eq] at h
  have htake := c.hash_injective h
  rcases hbehind with hshort | hdrop
  · rw [List.take_of_length_le hshort] at htake
    rw [htake]
    exact List.take_prefix _ _
  · rw [← List.take_append_drop 256 tokenIds, ← List.take_append_drop 256 tokenIds', htake]
    exact (List.prefix_append_right_inj _).mpr hdrop

theorem evictLru_inactive {m : CustomCacheManager H} (h : m.activeSequences = Dict.empty) (numBlocks : Int) :
    m.evictLru numBlocks = (0, m) := by
  rw [evictLru, h]
  rfl

variable [DecidableEq H]

theorem findPrefix_eq_some {m : CustomCacheManager H} {blocks : List Nat} (h : m.findPrefix c tokenIds = some blocks) :
    c.enablePrefixCache = true ∧ m.prefixCache.get? (prefixHash c tokenIds) = some blocks := by
  unfold findPrefix at h
  split at h
  · rename_i henable
    exact ⟨henable, h⟩
  · cases h

end CustomCacheManager

namespace PrefixReuse

open CustomCacheManager

variable {F H : Type} [DecidableEq H] {c : CacheManagerConfig F H} {s : PrefixReuse H}

structure Inv (c : CacheManagerConfig F H) (s : PrefixReuse H) : Prop where
  exclusive : s.manager.allocator.Exclusive c.allocator
  inactive : s.manager.activeSequences = Dict.empty
  last_lt : ∀ seqId allocation tokenIds, s.last.get? seqId = some (allocation, tokenIds) → allocation < s.allocations
  kv : ∀ seqId entry, s.manager.allocator.allocated.get? seqId = some entry →
    ∃ allocation tokenIds, s.last.get? seqId = some (allocation, tokenIds) ∧
      ∀ b ∈ entry.map Prod.fst, s.kv b ⊆ tokenIds.zipIdx
  cached : c.enablePrefixCache = true → ∀ key blocks, s.manager.prefixCache.get? key = some blocks →
    ∃ e, s.cached.get? key = some e ∧ key = prefixHash c e.tokens ∧ e.allocation < s.allocations ∧
      ∀ tokenIds entry, s.last.get? e.seqId = some (e.allocation, tokenIds) →
        s.manager.allocator.allocated.get? e.seqId = some entry → tokenIds = e.tokens ∧ entry.map Prod.fst = blocks

theorem inv_init (c : CacheManagerConfig F H) : Inv c (init c) where
  exclusive := (CustomBlockAllocator.conserves_init c.allocator).subperm
  inactive := rfl
  last_lt := nofun
  kv := nofun
  cached := nofun

theorem written_subset {blockSz : Nat} {tokenIds : List Int} {blocks : List Nat} {kv : Nat → List (Int × Nat)} {b : Nat}
    (hb : b ∈ blocks) : written blockSz tokenIds blocks kv b ⊆ tokenIds.zipIdx := by
  rw [written, if_pos hb]
  exact fun p hp => List.mem_of_mem_drop (List.mem_of_mem_take hp)

theorem Inv.find (h : Inv c s) {tokenIds : List Int} (hfresh : Fresh c s (.findPrefix tokenIds)) :
    Behaves c s (.findPrefix tokenIds) := by
  intro blocks hfind
  obtain ⟨henable, hget⟩ := findPrefix_eq_some hfind
  obtain ⟨e, hcached, hkey, -, hlive⟩ := h.cached henable _ _ hget
  obtain ⟨hstill, hbehind⟩ := hfresh blocks e hfind hcached
  have hcovers : e.tokens <+: tokenIds := isPrefix_of_prefixHash hkey.symm hbehind
  refine ⟨e, hcached, ?_⟩
  rcases hstill with rfl | hstill
  · exact ⟨nofun, hcovers, nofun⟩
  · obtain ⟨hlast, hsome⟩ := hstill
    obtain ⟨entry, hentry⟩ := Option.isSome_iff_exists.mp hsome
    obtain ⟨allocation, tokenIds', hlast', hkv⟩ := h.kv e.seqId entry hentry
    rw [hlast', Option.map_some, Option.some_inj] at hlast
    cases hlast
    obtain ⟨rfl, rfl⟩ := hlive tokenIds' entry hlast' hentry
    refine ⟨fun b hb => ⟨⟨by rw [hlast']; rfl, hsome⟩, _, by rw [CustomBlockAllocator.Owns, hentry]; rfl, hb⟩, hcovers, ?_⟩
    intro b hb token position hin
    have hplace := List.mem_zipIdx_iff_getElem?.mp (hkv b hb hin)
    obtain ⟨rest, rfl⟩ := hcovers
    exact List.getElem?_append_left (List.getElem?_eq_some_iff.mp hplace).1 ▸ hplace

theorem Inv.shrink (h : Inv c s) {allocator : CustomBlockAllocator} (hexclusive : allocator.Exclusive c.allocator)
    (hsub : ∀ seqId entry, allocator.allocated.get? seqId = some entry →
      s.manager.allocator.allocated.get? seqId = some entry) :
    Inv c { s with manager := { s.manager with allocator } } where
  exclusive := hexclusive
  inactive := h.inactive
  last_lt := h.last_lt
  kv seqId entry hentry := h.kv seqId entry (hsub seqId entry hentry)
  cached henable key blocks hget := by
    obtain ⟨e, hcached, hkey, hlt, hlive⟩ := h.cached henable key blocks hget
    exact ⟨e, hcached, hkey, hlt, fun tokenIds entry hlast hentry => hlive tokenIds entry hlast (hsub _ _ hentry)⟩

theorem Inv.free (h : Inv c s) (seqId : Int) :
    Inv c { s with manager := { s.manager with allocator := s.manager.allocator.free seqId } } := by
  refine h.shrink (h.exclusive.free seqId) fun seqId' entry hentry => ?_
  unfold CustomBlockAllocator.free at hentry
  split at hentry
  · exact Dict.get?_of_erase hentry
  · exact hentry

theorem Inv.allocate (h : Inv c s) {allocator : CustomBlockAllocator} {seqId : Int} {blocks : List Nat}
    {entry : List (Nat × Tier)} (hexclusive : allocator.Exclusive c.allocator)
    (hfree : blocks ⊆ s.manager.allocator.freeBlocks) (hfst : entry.map Prod.fst = blocks)
    (hset : allocator.allocated = s.manager.allocator.allocated.set seqId entry) (tokenIds : List Int) (blockSz : Nat) :
    Inv c { s with
      manager := { s.manager with allocator }
      allocations := s.allocations + 1
      last := s.last.set seqId (s.allocations, tokenIds)
      kv := written blockSz tokenIds blocks s.kv } where
  exclusive := hexclusive
  inactive := h.inactive
  last_lt seqId' allocation tokenIds' hlast := by
    rw [Dict.get?_set] at hlast
    split at hlast
    · cases hlast
      exact Nat.lt_succ_self _
    · exact Nat.lt_succ_of_lt (h.last_lt seqId' allocation tokenIds' hlast)
  kv seqId' entry' hentry := by
    dsimp only at hentry ⊢
    rw [hset, Dict.get?_set] at hentry
    rw [Dict.get?_set]
    split at hentry
    · rename_i hsame
      cases hentry
      rw [if_pos hsame]
      exact ⟨_, _, rfl, fun b hb => written_subset (hfst ▸ hb)⟩
    · rename_i hother
      rw [if_neg hother]
      obtain ⟨allocation, tokenIds', hlast, hkv⟩ := h.kv seqId' entry' hentry
      refine ⟨allocation, tokenIds', hlast, fun b hb => ?_⟩
      have howned : b ∈ s.manager.allocator.owned :=
        List.mem_flatMap.mpr ⟨entry', Dict.mem_values.mpr ⟨seqId', hentry⟩, hb⟩
      have hnot : b ∉ blocks := fun hin => (List.nodup_append.mp h.exclusive.nodup).2.2 b (hfree hin) b howned rfl
      rw [written, if_neg hnot]
      exact hkv b hb
  cached henable key blocks' hget := by
    obtain ⟨e, hcached, hkey, hlt, hlive⟩ := h.cached henable key blocks' hget
    refine ⟨e, hcached, hkey, Nat.lt_succ_of_lt hlt, fun tokenIds' entry' hlast hentry => ?_⟩
    dsimp only at hlast hentry
    rw [Dict.get?_set] at hlast
    rw [hset, Dict.get?_set] at hentry
    split at hlast
    · -- the new allocation is not the one cached
      have hnew : s.allocations = e.allocation := congrArg Prod.fst (Option.some_inj.mp hlast)
      omega
    · rename_i hother
      rw [if_neg hother] at hentry
      exact hlive tokenIds' entry' hlast hentry

theorem Inv.cachePrefix (h : Inv c s) {seqId : Int} {allocation : Nat} {tokenIds : List Int} {entry : List (Nat × Tier)}
    (hlast : s.last.get? seqId = some (allocation, tokenIds))
    (hentry : s.manager.allocator.allocated.get? seqId = some entry) :
    Inv c { s with
      manager := s.manager.cachePrefix c tokenIds (entry.map Prod.fst)
      cached := s.cached.set (prefixHash c tokenIds) ⟨seqId, allocation, tokenIds⟩ } := by
  have hkeeps : (s.manager.cachePrefix c tokenIds (entry.map Prod.fst)).allocator = s.manager.allocator ∧
      (s.manager.cachePrefix c tokenIds (entry.map Prod.fst)).activeSequences = s.manager.activeSequences := by
    unfold CustomCacheManager.cachePrefix
    split <;> exact ⟨rfl, rfl⟩
  obtain ⟨hallocator, hactive⟩ := hkeeps
  refine ⟨hallocator ▸ h.exclusive, hactive.trans h.inactive, h.last_lt, ?_, ?_⟩
  · dsimp only
    rw [hallocator]
    exact h.kv
  · intro henable key blocks hget
    dsimp only at hget ⊢
    rw [CustomCacheManager.cachePrefix, if_pos henable, Dict.get?_set] at hget
    rw [Dict.get?_set, hallocator]
    split at hget
    · rename_i hsame
      cases hget
      refine ⟨_, if_pos hsame, hsame.symm, h.last_lt _ _ _ hlast, fun tokenIds' entry' hlast' hentry' => ?_⟩
      cases hlast.symm.trans hlast'
      cases hentry.symm.trans hentry'
      exact ⟨rfl, rfl⟩
    · rename_i hother
      rw [if_neg hother]
      exact h.cached henable key blocks hget

theorem Inv.behaves (h : Inv c s) (call : Call) (hfresh : Fresh c s call) : Behaves c s call := by
  cases call with
  | findPrefix tokenIds => exact h.find hfresh
  | evictLru numBlocks =>
    unfold Behaves
    dsimp only
    rw [evictLru_inactive h.inactive, Int.add_zero]
  | allocate | free | cachePrefix => trivial

theorem Behaves.fresh {call : Call} (h : Behaves c s call) : Fresh c s call := by
  cases call with
  | findPrefix tokenIds =>
    intro blocks e hfind hcached
    obtain ⟨e', hcached', hreusable⟩ := h blocks hfind
    cases hcached.symm.trans hcached'
    refine ⟨?_, .inr (hreusable.covers.drop 256)⟩
    cases blocks with
    | nil => exact .inl rfl
    | cons b blocks => exact .inr (hreusable.allocated b List.mem_cons_self).1
  | allocate | free | cachePrefix | evictLru => trivial

variable [RatioArith F]

theorem Inv.run (h : Inv c s) (call : Call) (hundoubled : Undoubled c s call) : Inv c (s.run c call) := by
  cases call with
  | allocate seqId numTokens tokenIds =>
    obtain ⟨hexclusive, hentries⟩ := CustomBlockAllocator.allocate_exclusive h.exclusive seqId hundoubled
    unfold PrefixReuse.run
    dsimp only
    cases hresult : s.manager.allocator.allocate c.allocator seqId numTokens with
    | mk r allocator =>
      rw [hresult] at hexclusive hentries
      cases r with
      | ok blocks =>
        obtain ⟨hfree, entry, hfst, hset⟩ := hentries
        exact h.allocate hexclusive hfree hfst hset tokenIds _
      | error e => exact h.shrink hexclusive fun seqId' entry hentry => hentries ▸ hentry
  | free seqId => exact h.free seqId
  | cachePrefix seqId =>
    unfold PrefixReuse.run
    dsimp only
    split
    · rename_i hlast hentry
      exact h.cachePrefix hlast hentry
    · exact h
  | findPrefix tokenIds => exact h
  | evictLru numBlocks =>
    unfold PrefixReuse.run
    dsimp only
    rw [evictLru_inactive h.inactive]
    exact h

/-- Runs that ask only for fresh prefixes, and put no block on the free list twice, reuse blocks soundly; runs that do
reuse them soundly ask only for fresh prefixes. -/
theorem sound_of_fresh (c : CacheManagerConfig F H) (calls : List Call) :
    (Guarded (step c) (fun s call => Fresh c s call ∧ Undoubled c s call) (init c) calls → Sound c calls) ∧
      (Sound c calls → Guarded (step c) (Fresh c) (init c) calls) := by
  constructor
  · intro hguarded
    refine guarded_of_inv ?_ (fun s call (hs : Inv c s) hcall => hs.behaves call hcall.1) (inv_init c) hguarded
    intro s call s' hs hcall hstep
    cases hstep
    exact hs.run call hcall.2
  · exact fun hsound => Guarded.mono hsound fun s call hbehaves => hbehaves.fresh

def fourBlocks : CacheManagerConfig ℚ (List Int) where
  allocator := { CustomBlockAllocator.fourUntiered with enableTiered := true }
  hash := id
  hash_injective := Function.injective_id

/-- A prefix is found after its sequence was freed. -/
theorem not_sound_fourBlocks :
    ¬ Sound fourBlocks [.allocate 1 1 [7], .cachePrefix 1, .free 1, .findPrefix [7]] := by
  intro hsound
  have hfind := (((hsound.2 _ rfl).2 _ rfl).2 _ rfl).1
  obtain ⟨e, hcached, hreusable⟩ := hfind [0] (by decide +kernel)
  have hentry := (hreusable.allocated 0 List.mem_cons_self).1.2
  have he : e = ⟨1, 0, [7]⟩ := Option.some_inj.mp (hcached.symm.trans (by decide +kernel))
  rw [he] at hentry
  exact absurd hentry (by decide +kernel)

end PrefixReuse

end Vllm
