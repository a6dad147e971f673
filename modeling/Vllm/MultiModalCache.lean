import Mathlib.Data.List.Sort
import Vllm.LRUCache
import Vllm.Lib.Run

/-! The multimodal caches of the front-end (P0) and of the engine (P1). P0 only keeps the sizes of the
items, and sends an item only if its own cache does not have it. -/

universe u

namespace Vllm

variable {κ Item Updates : Type u} [DecidableEq κ]

structure CacheItemMetadata (Updates : Type u) where
  itemSize : Nat
  promptUpdates : Updates

abbrev SenderCache (κ Updates : Type u) := LRUCache κ (CacheItemMetadata Updates)

abbrev ReceiverCache (κ Item : Type u) := LRUCache κ Item

namespace SenderCache

variable (getItemSize : Item → Nat)

def getAndUpdateItem (c : SenderCache κ Updates) (mmItem : Option (Item × Updates)) (mmHash : κ) :
    Result ((Option Item × Updates) × SenderCache κ Updates) :=
  match c.get mmHash with
  | (some cachedItem, c) => .ok ((none, cachedItem.promptUpdates), c)
  | (none, c) =>
    match mmItem with
    | none => .error (.assertionError "Expected a cached item for mm_hash")
    | some (item, updates) => do
      let c ← c.setItem CacheItemMetadata.itemSize mmHash ⟨getItemSize item, updates⟩
      return ((some item, updates), c)

end SenderCache

namespace ReceiverCache

variable (getItemSize : Item → Nat)

def getAndUpdateItem (c : ReceiverCache κ Item) (mmItem : Option Item) (mmHash : κ) :
    Result (Item × ReceiverCache κ Item) :=
  match c.get mmHash with
  | (some cachedItem, c) => .ok (cachedItem, c)
  | (none, c) =>
    match mmItem with
    | none => .error (.assertionError "Expected a cached item for mm_hash")
    | some item => do
      let c ← c.setItem getItemSize mmHash item
      return (item, c)

end ReceiverCache

structure MmItem (κ : Type u) where
  mmHash : κ
  offset : Nat

abbrev MmInputs (κ : Type u) := List (String × List (MmItem κ))

/-- `MultiModalFeatureSpec`, as far as the caches see it. -/
structure MmFeature (κ Item : Type u) where
  mmHash : κ
  data : Option Item

section Sender

variable (getItemSize : Item → Nat)

/-- The inner loop of `_merge_mm_kwargs`, over hashes with their `is_cached` flag; the items that
were missing are used up in order. -/
def mergeItems : SenderCache κ Updates → List (κ × Bool) → List (Item × Updates) →
    Result (List (Option Item × Updates) × SenderCache κ Updates)
  | c, [], _ => .ok ([], c)
  | c, (mmHash, true) :: hashes, missing => do
    let (out, c) ← c.getAndUpdateItem getItemSize none mmHash
    let (outs, c) ← mergeItems c hashes missing
    return (out :: outs, c)
  | c, (mmHash, false) :: hashes, item :: missing => do
    let (out, c) ← c.getAndUpdateItem getItemSize (some item) mmHash
    let (outs, c) ← mergeItems c hashes missing
    return (out :: outs, c)
  | _, (_, false) :: _, [] => .error .indexError

def mergeModalities : SenderCache κ Updates → List (List (κ × Bool) × List (Item × Updates)) →
    Result (List (List (Option Item × Updates)) × SenderCache κ Updates)
  | c, [] => .ok ([], c)
  | c, (hashes, missing) :: modalities => do
    let (outs, c) ← mergeItems getItemSize c hashes missing
    let (rest, c) ← mergeModalities c modalities
    return (outs :: rest, c)

def mergeMmKwargs (c : SenderCache κ Updates)
    (modalities : List (List (κ × Bool) × List (Item × Updates))) :
    Result (List (List (Option Item × Updates)) × SenderCache κ Updates) :=
  let c := (modalities.flatMap Prod.fst).foldl (fun c p => c.touch p.1) c
  mergeModalities getItemSize c modalities

/-- `_get_cache_missing_items` for one modality; `process` is what the HF processor makes of the item
that a hash names. -/
def missingItems (process : κ → Item × Updates) (c : SenderCache κ Updates)
    (items : List (MmItem κ)) : List (κ × Bool) × List (Item × Updates) :=
  (items.map fun i => (i.mmHash, c.contains i.mmHash),
    (items.filter fun i => !c.contains i.mmHash).map fun i => process i.mmHash)

/-- `_cached_apply_hf_processor`, and the features that `InputProcessor` makes of it, sorted by the
position of their placeholders. -/
def sendRequest (process : κ → Item × Updates) (c : SenderCache κ Updates) (inputs : MmInputs κ) :
    Result (List (MmFeature κ Item) × SenderCache κ Updates) := do
  let (kwargs, c) ← mergeMmKwargs getItemSize c (inputs.map fun m => missingItems process c m.2)
  let flat := (inputs.flatMap Prod.snd).zip (kwargs.flatten.map Prod.fst)
  let sorted := flat.insertionSort fun a b => a.1.offset ≤ b.1.offset
  return (sorted.map fun p => ⟨p.1.mmHash, p.2⟩, c)

end Sender

section Receiver

variable (getItemSize : Item → Nat)

/-- The second loop of `get_and_update_features`. -/
def updateFeatures : ReceiverCache κ Item → List (MmFeature κ Item) →
    Result (List (κ × Item) × ReceiverCache κ Item)
  | c, [] => .ok ([], c)
  | c, feature :: features => do
    let (item, c) ← c.getAndUpdateItem getItemSize feature.data feature.mmHash
    let (rest, c) ← updateFeatures c features
    return ((feature.mmHash, item) :: rest, c)

def getAndUpdateFeatures (c : ReceiverCache κ Item) (features : List (MmFeature κ Item)) :
    Result (List (κ × Item) × ReceiverCache κ Item) :=
  updateFeatures getItemSize (features.foldl (fun c f => c.touch f.mmHash) c) features

end Receiver

/-- The two caches, and what P1 returned for the features of the last request. -/
structure CachePair (κ Item Updates : Type u) where
  sender : SenderCache κ Updates
  receiver : ReceiverCache κ Item
  served : List (κ × Item)

namespace CachePair

def init (maxsize : Nat) : CachePair κ Item Updates where
  sender := .init maxsize
  receiver := .init maxsize
  served := []

def serve (getItemSize : Item → Nat) (process : κ → Item × Updates) (t : CachePair κ Item Updates)
    (inputs : MmInputs κ) : Result (CachePair κ Item Updates) := do
  let (features, sender) ← sendRequest getItemSize process t.sender inputs
  let (served, receiver) ← getAndUpdateFeatures getItemSize t.receiver features
  return { sender, receiver, served }

end CachePair

end Vllm
