import Mathlib.Algebra.BigOperators.Group.Finset.Basic
import Vllm.ShmObjectStorage
import Vllm.Lib.Run

/-! One sender and `n_readers` readers. The sender touches all hashes of a request and then stores or
looks up each item; every reader touches all references of a request and then gets each of them. -/

namespace Vllm

open ShmRingBuffer

variable {κ : Type} [DecidableEq κ]

/-- A reference in a request. `counted` says whether the sender's own touch of it counted. -/
structure SentRef where
  ref : ShmRef
  counted : Bool

/-- An item of the request that is being built; `cached` is what the sender found before it. -/
structure PendingItem (κ : Type) where
  key : κ
  value : Serialized
  cached : Bool

structure ShmReader where
  inbox : List (List SentRef)
  toTouch : List SentRef
  toGet : List SentRef

structure ShmSystem (κ : Type) where
  storage : ShmObjectStorage κ
  toTouch : List (PendingItem κ)
  toSend : List (PendingItem κ)
  built : List SentRef
  readers : Nat → ShmReader

namespace ShmSystem

inductive Op (κ : Type)
  | request (items : List (κ × Serialized))
  | senderTouch
  | senderItem
  | send
  | receive (r : Nat)
  | readerTouch (r : Nat)
  | readerGet (r : Nat)

def init (storage : ShmObjectStorage κ) : ShmSystem κ where
  storage
  toTouch := []
  toSend := []
  built := []
  readers := fun _ => ⟨[], [], []⟩

def setReader (s : ShmSystem κ) (r : Nat) (reader : ShmReader) : ShmSystem κ :=
  { s with readers := Function.update s.readers r reader }

def setRing (s : ShmSystem κ) (ringBuffer : ShmRingBuffer) : ShmSystem κ :=
  { s with storage := { s.storage with ringBuffer } }

/-- `_get_cache_missing_items`: the sender notes what it has. -/
def newRequest (s : ShmSystem κ) (items : List (κ × Serialized)) : ShmSystem κ :=
  let pending := items.map fun i => ⟨i.1, i.2, s.storage.isCached i.1⟩
  { s with toTouch := pending, toSend := pending }

def deliver (s : ShmSystem κ) : ShmSystem κ :=
  { s with
    built := []
    readers := fun r => { s.readers r with inbox := (s.readers r).inbox ++ [s.built] } }

def disabled : Result (ShmSystem κ) := .error (.runtimeError "not enabled")

def Op.step (s : ShmSystem κ) : Op κ → Result (ShmSystem κ)
  | .request items =>
    match s.toTouch, s.toSend, s.built with
    | [], [], [] => .ok (s.newRequest items)
    | _, _, _ => disabled
  | .senderTouch =>
    match s.toTouch with
    | p :: ps => .ok { s with storage := s.storage.touch p.key, toTouch := ps }
    | [] => disabled
  | .senderItem =>
    match s.toTouch, s.toSend with
    | [], p :: ps => do
      let (ref, storage) ←
        s.storage.getAndUpdateItem (if p.cached then none else some p.value) p.key
      let sent := match ref with
        | some ref => [⟨ref, p.cached⟩]
        | none => []
      return { s with storage, toSend := ps, built := s.built ++ sent }
    | _, _ => disabled
  | .send =>
    match s.toTouch, s.toSend with
    | [], [] => .ok s.deliver
    | _, _ => disabled
  | .receive r =>
    match s.readers r with
    | ⟨refs :: inbox, [], []⟩ => .ok (s.setReader r ⟨inbox, refs, refs⟩)
    | _ => disabled
  | .readerTouch r =>
    match s.readers r with
    | ⟨inbox, f :: toTouch, toGet⟩ => do
      let ring ← s.storage.ringBuffer.touchReader s.storage.nReaders f.ref
      return (s.setRing ring).setReader r ⟨inbox, toTouch, toGet⟩
    | _ => disabled
  | .readerGet r =>
    match s.readers r with
    | ⟨inbox, [], f :: toGet⟩ => do
      let (_, ring) ← s.storage.ringBuffer.get f.ref
      return (s.setRing ring).setReader r ⟨inbox, [], toGet⟩
    | _ => disabled

def touched (s : ShmSystem κ) : List (PendingItem κ) :=
  s.toSend.take (s.toSend.length - s.toTouch.length)

def Owed (s : ShmSystem κ) (id : Nat) : Prop :=
  (∃ r < s.storage.nReaders, ∃ f ∈ (s.readers r).inbox.flatten ++ (s.readers r).toGet,
    f.ref.monotonicId = id) ∨
  (∃ f ∈ s.built, f.ref.monotonicId = id) ∨
  ∃ p ∈ s.touched, p.cached = true ∧
    (s.storage.keyIndex.get? p.key).map ShmRef.monotonicId = some id

/-- The check says of every object whether a reader still has to get it, and every reference under
way leads to its object. -/
structure Exact (s : ShmSystem κ) : Prop where
  isFree : ∀ key ref, s.storage.keyIndex.get? key = some ref →
    (s.storage.defaultIsFreeCheck ref.monotonicId
      (s.storage.ringBuffer.accessBuf ref.address).1 = true ↔ ¬ s.Owed ref.monotonicId)
  held : ∀ r < s.storage.nReaders, ∀ f ∈ (s.readers r).inbox.flatten ++ (s.readers r).toGet,
    (∃ key, s.storage.keyIndex.get? key = some f.ref) ∧
    (s.storage.ringBuffer.accessBuf f.ref.address).2.1 = f.ref.monotonicId

end ShmSystem

end Vllm
