import Vllm.BlockPool
import Vllm.Session

namespace Vllm

open HashChain BlockPool

/-- What the cache relies on: no collisions, and digests of one length (of which only prefix
freeness matters). -/
structure BlockHasher.CollisionFree (h : BlockHasher) : Prop where
  injective : Function.Injective h.cachingHashFn
  ne_noneHash : ∀ x, h.cachingHashFn x ≠ h.noneHash
  prefixFree : ∀ x y, h.cachingHashFn x <+: h.cachingHashFn y → h.cachingHashFn x = h.cachingHashFn y

theorem BlockHasher.coded_collisionFree (blockSize : Nat) (hpos : 0 < blockSize) :
    (BlockHasher.coded blockSize hpos).CollisionFree where
  injective := BlockHasher.coded_injective blockSize hpos
  ne_noneHash := BlockHasher.coded_ne_noneHash blockSize hpos
  prefixFree x y hxy := by
    obtain ⟨s, hs⟩ := hxy
    have happ : hashInputCode.code x ++ s = hashInputCode.code y ++ [] := by
      rw [List.append_nil]
      exact hs
    rw [(hashInputCode.cancel happ).1]

namespace Request

variable {h : BlockHasher} {r : Request}

def Linked (h : BlockHasher) (r : Request) : Prop :=
  HashChain.Linked h.absorb h.noneHash r.blockHashes

theorem hashBlockTokens_eq_absorb (h : BlockHasher) {prev : Option BlockHash}
    (hprev : prev ≠ some []) (toks : List Token) (keys : ExtraKeys) :
    hashBlockTokens h prev toks keys = h.absorb (prev.getD h.noneHash) (toks, keys) := by
  cases prev with
  | none => rfl
  | some p =>
    have hp : p ≠ [] := fun hp => hprev (congrArg some hp)
    simp only [hashBlockTokens, if_neg hp]
    rfl

theorem hashBlocksFrom_linked (h : BlockHasher) (r : Request) (fuel start : Nat)
    {prev : Option BlockHash} (hprev : prev ≠ some []) (i : Int) :
    HashChain.Linked h.absorb (prev.getD h.noneHash) (hashBlocksFrom h r fuel start prev i) := by
  induction fuel generalizing start prev i with
  | zero => trivial
  | succ fuel ih =>
    simp only [hashBlocksFrom]
    split
    · trivial
    · have hnext : ∀ toks keys, some (hashBlockTokens h prev toks keys) ≠ some [] := by
        intro toks keys
        rw [Ne, Option.some_inj]
        exact h.digest_ne_nil _
      exact ⟨⟨_, hashBlockTokens_eq_absorb h hprev _ _⟩, ih (start + h.blockSize) (hnext _ _) _⟩

theorem Linked.updateBlockHashes (hr : r.Linked h) : (r.updateBlockHashes (some h)).Linked h := by
  refine HashChain.Linked.append hr ?_
  unfold requestBlockHasher
  simp only
  split
  · trivial
  · rw [List.getLastD_eq_getLast?]
    apply hashBlocksFrom_linked
    intro hnil
    obtain ⟨i, hi⟩ := List.mem_iff_getElem?.mp (List.mem_of_getLast? hnil)
    obtain ⟨p, m, -, hx⟩ := HashChain.Linked.parent hr hi
    exact h.absorb_ne_nil p m hx.symm

theorem linked_init (p : RequestParams) : (p.init (some h)).Linked h :=
  Linked.updateBlockHashes (r := p.blank) trivial

theorem Linked.appendOutputTokenIds (hr : r.Linked h) (tokenIds : List Token) :
    (r.appendOutputTokenIds (some h) tokenIds).Linked h :=
  Linked.updateBlockHashes
    (r := { r with
      outputTokenIds := r.outputTokenIds ++ tokenIds, allTokenIds := r.allTokenIds ++ tokenIds }) hr

theorem Linked.nodup (hcf : h.CollisionFree) (hr : r.Linked h) : r.blockHashes.Nodup :=
  (HashChain.Linked.nodup (h.absorb_injective2 hcf.injective) (fun _ _ => hcf.ne_noneHash _)
    hr).of_cons

theorem coarseBlockHashes_nodup {l : List BlockHash} (hl : l.Nodup)
    (hpre : ∀ x ∈ l, ∀ y ∈ l, x <+: y → x = y) (factor : Nat) :
    (coarseBlockHashes factor l).Nodup := by
  rcases Nat.eq_zero_or_pos factor with rfl | hpos
  · simp [coarseBlockHashes]
  -- a coarse hash starts with a fine one, and that one determines the index
  have hhead : ∀ i < l.length / factor, ∃ x, l[i * factor]? = some x ∧
      x <+: ((l.drop (i * factor)).take factor).flatten := by
    intro i hi
    have hlt : i * factor < l.length := by
      have := (Nat.le_div_iff_mul_le hpos).mp hi
      rw [Nat.succ_mul] at this
      omega
    obtain ⟨k, rfl⟩ : ∃ k, factor = k + 1 := ⟨factor - 1, by omega⟩
    refine ⟨l[i * (k + 1)], List.getElem?_eq_getElem hlt, ?_⟩
    rw [List.drop_eq_getElem_cons hlt, List.take_succ_cons, List.flatten_cons]
    exact List.prefix_append _ _
  refine List.Nodup.map_on ?_ List.nodup_range
  intro i hi j hj heq
  obtain ⟨x, hx, hxp⟩ := hhead i (List.mem_range.mp hi)
  obtain ⟨y, hy, hyp⟩ := hhead j (List.mem_range.mp hj)
  rw [← heq] at hyp
  have hxy : x = y := by
    rcases List.prefix_or_prefix_of_prefix hxp hyp with h | h
    · exact hpre x (List.mem_of_getElem? hx) y (List.mem_of_getElem? hy) h
    · exact (hpre y (List.mem_of_getElem? hy) x (List.mem_of_getElem? hx) h).symm
  subst hxy
  obtain ⟨hi', hxi⟩ := List.getElem?_eq_some_iff.mp hx
  obtain ⟨hj', hxj⟩ := List.getElem?_eq_some_iff.mp hy
  have := (hl.getElem_inj_iff).mp (hxi.trans hxj.symm)
  exact Nat.eq_of_mul_eq_mul_right hpos this

theorem Linked.blockHashesFor_nodup (hcf : h.CollisionFree) (hr : r.Linked h) (c : PoolConfig)
    (blockSize : Nat) : (blockHashesFor c blockSize r.blockHashes).Nodup := by
  unfold blockHashesFor
  split
  · exact hr.nodup hcf
  · refine coarseBlockHashes_nodup (hr.nodup hcf) ?_ _
    intro x hx y hy hxy
    obtain ⟨i, hi⟩ := List.mem_iff_getElem?.mp hx
    obtain ⟨j, hj⟩ := List.mem_iff_getElem?.mp hy
    obtain ⟨p, m, -, rfl⟩ := HashChain.Linked.parent hr hi
    obtain ⟨q, n, -, rfl⟩ := HashChain.Linked.parent hr hj
    exact hcf.prefixFree _ _ hxy

end Request

end Vllm
