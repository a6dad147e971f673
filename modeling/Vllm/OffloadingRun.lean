import Vllm.OffloadingLRU
import Vllm.OffloadingARC

namespace Vllm

inductive OffloadOp (κ : Type)
  | lookup (blockHashes : List κ)
  | touch (blockHashes : List κ)
  | prepareLoad (blockHashes : List κ)
  | completeLoad (blockHashes : List κ)
  | prepareStore (blockHashes : List κ)
  | completeStore (blockHashes : List κ) (success : Bool)

def OffloadOp.failed {κ : Type} : OffloadOp κ → List κ
  | .completeStore blockHashes false => blockHashes
  | _ => []

variable {F : Type} [TargetArith F] {κ : Type} [DecidableEq κ]

namespace LRUOffloadingManager

def step (m : LRUOffloadingManager κ) : OffloadOp κ → Result (LRUOffloadingManager κ)
  | .lookup _ => .ok m
  | .touch blockHashes => .ok (m.touch blockHashes)
  | .prepareLoad blockHashes => Prod.snd <$> m.prepareLoad blockHashes
  | .completeLoad blockHashes => m.completeLoad blockHashes
  | .prepareStore blockHashes => Prod.snd <$> m.prepareStore blockHashes
  | .completeStore blockHashes success => m.completeStore blockHashes success

/-- The hashes of a store are distinct. -/
def Allowed (_ : LRUOffloadingManager κ) : OffloadOp κ → Prop
  | .prepareStore blockHashes => blockHashes.Nodup
  | _ => True

instance (m : LRUOffloadingManager κ) : (op : OffloadOp κ) → Decidable (m.Allowed op)
  | .prepareStore blockHashes => inferInstanceAs (Decidable blockHashes.Nodup)
  | .lookup _ => isTrue trivial
  | .touch _ => isTrue trivial
  | .prepareLoad _ => isTrue trivial
  | .completeLoad _ => isTrue trivial
  | .completeStore _ _ => isTrue trivial

/-- `stays`: whatever comes next, a block that is stored or loaded leaves only with its own failed
store. -/
structure Safe (numBlocks : Nat) (m : LRUOffloadingManager κ) : Prop where
  conserved : Conserved numBlocks m.backend m.live
  kept : ∀ blockHashes : List κ, blockHashes.Nodup → ∀ out m',
    m.prepareStore blockHashes = .ok (out, m') → Kept m.live m'.live out
  stays : ∀ op m', m.Allowed op → m.step op = .ok m' → ∀ e ∈ m.live, e.2.refCnt ≠ 0 →
    (e.1 ∈ op.failed → e.2.isReady = true) → (e.1, e.2.blockId) ∈ owners m'.live
  found : ∀ blockHashes : List κ, ∀ k ∈ blockHashes.take (m.lookup blockHashes),
    ∃ block, (k, block) ∈ m.live ∧ block.isReady = true

variable {m m' : LRUOffloadingManager κ} {numBlocks : Nat}

theorem prepareStore_kept {blockHashes : List κ} {out : Option (PrepareStoreOutput κ)}
    (h : Inv numBlocks m) (hnodup : blockHashes.Nodup)
    (hok : m.prepareStore blockHashes = .ok (out, m')) : Kept m.live m'.live out := by
  cases out with
  | some out => exact (prepareStore_some h hnodup hok).2
  | none =>
    rw [(prepareStore_none.1 hok).2]
    exact ⟨nofun, fun e he _ => he, nofun⟩

theorem mem_owners_step {op : OffloadOp κ} {e : κ × BlockStatus} (h : Inv numBlocks m)
    (hop : m.Allowed op) (hok : m.step op = .ok m') (he : e ∈ m.live) (hbusy : e.2.refCnt ≠ 0)
    (hfailed : e.1 ∈ op.failed → e.2.isReady = true) : (e.1, e.2.blockId) ∈ owners m'.live := by
  have hsame : Same m m' → (e.1, e.2.blockId) ∈ owners m'.live := by
    intro hsame
    rw [hsame.2]
    exact List.mem_map_of_mem he
  cases op with
  | lookup hashes =>
    cases hok
    exact List.mem_map_of_mem he
  | touch hashes =>
    cases hok
    exact List.mem_map_of_mem ((perm_touch m hashes).mem_iff.2 he)
  | prepareLoad hashes =>
    obtain ⟨⟨spec, m''⟩, hload, rfl⟩ := Result.map_eq_ok.mp hok
    exact hsame (same_prepareLoad hload)
  | completeLoad hashes => exact hsame (same_completeLoad hok)
  | prepareStore hashes =>
    obtain ⟨⟨out, m''⟩, hstore, rfl⟩ := Result.map_eq_ok.mp hok
    exact List.mem_map_of_mem ((prepareStore_kept h hop hstore).busy e he hbusy)
  | completeStore hashes success =>
    cases success with
    | true =>
      obtain ⟨⟨stored, m''⟩, hstored, hend⟩ := Result.bind_eq_ok.1 hok
      cases hend
      have hrefs : Same m m'' := same_storeSuccess hstored
      exact hsame (hrefs.trans ⟨rfl, rfl⟩)
    | false => exact List.mem_map_of_mem (mem_storeFailure hok he hfailed)

theorem Inv.safe (h : Inv numBlocks m) : Safe numBlocks m where
  conserved := h.2 ▸ h.1.conserved
  kept := fun _ hnodup _ _ hok => prepareStore_kept h hnodup hok
  stays := fun _ _ hop hok _ he hbusy hfailed => mem_owners_step h hop hok he hbusy hfailed
  found := by
    intro blockHashes k hk
    obtain ⟨block, hblock, hready⟩ := ready_of_counted hk
    exact ⟨block, Dict.get?_eq_some.1 hblock, hready⟩

theorem Inv.step {op : OffloadOp κ} (h : Inv numBlocks m) (hop : m.Allowed op)
    (hok : m.step op = .ok m') : Inv numBlocks m' := by
  cases op with
  | lookup hashes =>
    cases hok
    exact h
  | touch hashes =>
    cases hok
    exact ⟨h.1.perm ((perm_touch m hashes).symm.map _), h.2⟩
  | prepareLoad hashes =>
    obtain ⟨⟨spec, m''⟩, hload, rfl⟩ := Result.map_eq_ok.mp hok
    exact (same_prepareLoad hload).inv h
  | completeLoad hashes => exact (same_completeLoad hok).inv h
  | prepareStore hashes =>
    obtain ⟨⟨r, m''⟩, hstore, rfl⟩ := Result.map_eq_ok.mp hok
    cases r with
    | none =>
      rw [(prepareStore_none.mp hstore).2]
      exact h
    | some out => exact (prepareStore_some h hop hstore).1
  | completeStore hashes success => exact inv_completeStore h hok

omit [DecidableEq κ] in
theorem Inv.init (blockSize numBlocks : Nat) (enableEvents : Bool) :
    Inv (κ := κ) numBlocks (LRUOffloadingManager.init (.init blockSize numBlocks) enableEvents) :=
  ⟨⟨List.nodup_nil, .refl _⟩, rfl⟩

end LRUOffloadingManager

namespace ARCOffloadingManager

def step (m : ARCOffloadingManager F κ) : OffloadOp κ → Result (ARCOffloadingManager F κ)
  | .lookup _ => .ok m
  | .touch blockHashes => .ok (m.touch blockHashes)
  | .prepareLoad blockHashes => Prod.snd <$> m.prepareLoad blockHashes
  | .completeLoad blockHashes => m.completeLoad blockHashes
  | .prepareStore blockHashes => Prod.snd <$> m.prepareStore blockHashes
  | .completeStore blockHashes success => .ok (m.completeStore blockHashes success)

/-- The hashes of a store are distinct, and a store that failed names no block that is ready. -/
def Allowed (m : ARCOffloadingManager F κ) : OffloadOp κ → Prop
  | .prepareStore blockHashes => blockHashes.Nodup
  | .completeStore blockHashes false =>
    ∀ k ∈ blockHashes, ∀ block ∈ m.get? k, block.isReady = false
  | _ => True

instance (m : ARCOffloadingManager F κ) : (op : OffloadOp κ) → Decidable (m.Allowed op)
  | .prepareStore blockHashes => inferInstanceAs (Decidable blockHashes.Nodup)
  | .completeStore blockHashes false => inferInstanceAs (Decidable
      (∀ k ∈ blockHashes, ∀ block ∈ m.get? k, block.isReady = false))
  | .completeStore _ true => isTrue trivial
  | .lookup _ => isTrue trivial
  | .touch _ => isTrue trivial
  | .prepareLoad _ => isTrue trivial
  | .completeLoad _ => isTrue trivial

structure Safe (numBlocks : Nat) (m : ARCOffloadingManager F κ) : Prop where
  conserved : Conserved numBlocks m.backend m.live
  kept : ∀ blockHashes : List κ, blockHashes.Nodup → ∀ out m',
    m.prepareStore blockHashes = .ok (out, m') → Kept m.live m'.live out
  stays : ∀ op m', m.Allowed op → m.step op = .ok m' → ∀ e ∈ m.live, e.2.refCnt ≠ 0 →
    e.1 ∉ op.failed → (e.1, e.2.blockId) ∈ owners m'.live
  found : ∀ blockHashes : List κ, ∀ k ∈ blockHashes.take (m.lookup blockHashes),
    ∃ block, (k, block) ∈ m.live ∧ block.isReady = true
  apart : m.Apart

variable {m m' : ARCOffloadingManager F κ} {numBlocks : Nat}

theorem mem_owners_step {op : OffloadOp κ} {e : κ × BlockStatus} (h : Inv numBlocks m)
    (hop : m.Allowed op) (hok : m.step op = .ok m') (he : e ∈ m.live) (hbusy : e.2.refCnt ≠ 0)
    (hfailed : e.1 ∉ op.failed) : (e.1, e.2.blockId) ∈ owners m'.live := by
  have hsame : Same m m' → (e.1, e.2.blockId) ∈ owners m'.live := by
    intro hsame
    rw [hsame.owners]
    exact List.mem_map_of_mem he
  cases op with
  | lookup hashes =>
    cases hok
    exact List.mem_map_of_mem he
  | touch hashes =>
    cases hok
    exact List.mem_map_of_mem ((inv_touch h hashes).2.mem_iff.1 he)
  | prepareLoad hashes =>
    obtain ⟨⟨spec, m''⟩, hload, rfl⟩ := Result.map_eq_ok.mp hok
    exact hsame (same_prepareLoad hload)
  | completeLoad hashes => exact hsame (same_completeLoad hok)
  | prepareStore hashes =>
    obtain ⟨⟨out, m''⟩, hstore, rfl⟩ := Result.map_eq_ok.mp hok
    exact List.mem_map_of_mem ((prepareStore_result h hop hstore).2.busy e he hbusy)
  | completeStore hashes success =>
    cases hok
    cases success with
    | true => exact hsame ((same_storeSuccess m hashes).trans ⟨rfl, rfl, rfl, rfl, rfl, rfl⟩)
    | false =>
      have hinv := inv_foldl_dropOne h hop
      refine List.mem_map_of_mem ((mem_live_iff hinv.apart).2 ?_)
      rw [get?_foldl_dropOne h hop hfailed]
      exact (mem_live_iff h.apart).1 he

theorem Inv.safe (h : Inv numBlocks m) : Safe numBlocks m where
  conserved := h.numBlocks ▸ h.owned.conserved
  kept := fun _ hnodup _ _ hok => (prepareStore_result h hnodup hok).2
  stays := fun _ _ hop hok _ he hbusy hfailed => mem_owners_step h hop hok he hbusy hfailed
  found := by
    intro blockHashes k hk
    obtain ⟨block, hblock, hready⟩ := ready_of_counted hk
    exact ⟨block, (mem_live_iff h.apart).2 hblock, hready⟩
  apart := h.apart

theorem Inv.step {op : OffloadOp κ} (h : Inv numBlocks m) (hop : m.Allowed op)
    (hok : m.step op = .ok m') : Inv numBlocks m' := by
  cases op with
  | lookup hashes =>
    cases hok
    exact h
  | touch hashes =>
    cases hok
    exact (inv_touch h hashes).1
  | prepareLoad hashes =>
    obtain ⟨⟨spec, m''⟩, hload, rfl⟩ := Result.map_eq_ok.mp hok
    exact (same_prepareLoad hload).inv h
  | completeLoad hashes => exact (same_completeLoad hok).inv h
  | prepareStore hashes =>
    obtain ⟨⟨r, m''⟩, hstore, rfl⟩ := Result.map_eq_ok.mp hok
    exact (prepareStore_result h hop hstore).1
  | completeStore hashes success =>
    cases hok
    refine inv_completeStore h success fun hfail k hk block hblock => ?_
    subst hfail
    exact hop k hk block hblock

omit [DecidableEq κ] in
theorem Inv.init (blockSize numBlocks : Nat) (enableEvents : Bool) :
    Inv numBlocks
      (ARCOffloadingManager.init (.init blockSize numBlocks) enableEvents :
        ARCOffloadingManager F κ) where
  owned := ⟨List.nodup_nil, .refl _⟩
  apart := apart_iff.mpr fun _ => ⟨nofun, nofun, nofun⟩
  numBlocks := rfl

end ARCOffloadingManager

section Runs

variable {blockSize numBlocks : Nat} {enableEvents : Bool}

/-- The blocks are conserved in every run of the LRU manager, and in every run of the ARC manager in
which no failed store names a ready block. -/
theorem offloading_conserved {lruOps arcOps : List (OffloadOp κ)}
    (hlru : Guarded LRUOffloadingManager.step LRUOffloadingManager.Allowed
      (.init (.init blockSize numBlocks) enableEvents) lruOps)
    (harc : Guarded (ARCOffloadingManager.step (F := F)) ARCOffloadingManager.Allowed
      (.init (.init blockSize numBlocks) enableEvents) arcOps) :
    Throughout LRUOffloadingManager.step (LRUOffloadingManager.Safe numBlocks)
        (.init (.init blockSize numBlocks) enableEvents) lruOps ∧
      Throughout (ARCOffloadingManager.step (F := F)) (ARCOffloadingManager.Safe numBlocks)
        (.init (.init blockSize numBlocks) enableEvents) arcOps := by
  constructor
  · exact throughout_of_inv (fun m op m' h hop hok => LRUOffloadingManager.Inv.step h hop hok)
      (fun m h => h.safe) (LRUOffloadingManager.Inv.init blockSize numBlocks enableEvents) hlru
  · exact throughout_of_inv (fun m op m' h hop hok => ARCOffloadingManager.Inv.step h hop hok)
      (fun m h => h.safe) (ARCOffloadingManager.Inv.init blockSize numBlocks enableEvents) harc

def storeAndLoad : List (OffloadOp Nat) :=
  [.prepareStore [1, 2], .completeStore [1, 2] true, .touch [1, 2], .prepareLoad [1],
   .prepareStore [3], .completeStore [3] false, .touch [2, 3], .completeLoad [1], .lookup [1]]

theorem offloading_conserved_storeAndLoad :
    Throughout LRUOffloadingManager.step (LRUOffloadingManager.Safe 2)
        (.init (.init 16 2) true) storeAndLoad ∧
      Throughout (ARCOffloadingManager.step (F := ℚ)) (ARCOffloadingManager.Safe 2)
        (.init (.init 16 2) true) storeAndLoad :=
  offloading_conserved (by decide +kernel) (by decide +kernel)

/-- The failed store of a block that is ready leaves its id with nobody. -/
theorem not_conserved_readyDropped : ∃ m,
    runSteps (ARCOffloadingManager.step (F := ℚ)) (.init (.init 16 1) false)
      [.prepareStore [1], .completeStore [1] true, .completeStore [1] false] = .ok m ∧
      ¬ ARCOffloadingManager.Safe 1 m := by
  refine ⟨_, rfl, fun h => ?_⟩
  exact absurd h.conserved.count (by decide +kernel)

end Runs

end Vllm
