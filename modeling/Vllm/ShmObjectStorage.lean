import Vllm.ShmRingBuffer

/-! The object storage on top of the ring buffer, its use by the sender of multimodal items, and the
readers of the worker processes. -/

namespace Vllm

structure ShmRef where
  address : Int
  monotonicId : Nat
  deriving DecidableEq

structure ShmObjectStorage (κ : Type) where
  maxObjectSize : Nat
  nReaders : Nat
  ringBuffer : ShmRingBuffer
  keyIndex : Dict κ ShmRef
  idIndex : Dict Nat κ
  writerFlag : Dict Nat Nat

structure Serialized where
  metadata : List UInt8
  data : List UInt8

namespace ShmRingBuffer

def flagBytes : Nat := 4

/-- `data_view[offset : offset + len(bs)] = bs`, for the view of the chunk at `address`. -/
def writeView (s : ShmRingBuffer) (address : Int) (offset : Nat) (bs : List UInt8) :
    Result ShmRingBuffer :=
  if offset + bs.length ≤ (s.accessBuf address).1.length then do
    let buf ← writeBytes s.buf ((address % s.dataBufferSize).toNat + mdSize + offset) bs
    return { s with buf }
  else .error (.valueError
    "memoryview assignment: lvalue and rvalue have different structures")

def readerCount (s : ShmRingBuffer) (address : Int) : Int :=
  byte2int ((s.accessBuf address).1.take flagBytes)

def incrementReaderFlag (s : ShmRingBuffer) (address : Int) : Result ShmRingBuffer := do
  let bs ← int2byte (s.readerCount address + 1)
  s.writeView address 0 bs

def get (s : ShmRingBuffer) (ref : ShmRef) : Result (List UInt8 × ShmRingBuffer) :=
  let (dataView, id, _) := s.accessBuf ref.address
  if id ≠ ref.monotonicId then
    .error (.valueError "Data for address:id has been modified or is invalid.")
  else do
    let s ← s.incrementReaderFlag ref.address
    return (dataView.drop flagBytes, s)

/-- `touch` of a reader: the count only goes up on an object that is taken for an old one. -/
def touchReader (s : ShmRingBuffer) (nReaders : Nat) (ref : ShmRef) : Result ShmRingBuffer :=
  if s.readerCount ref.address ≥ nReaders then s.incrementReaderFlag ref.address else .ok s

end ShmRingBuffer

namespace ShmObjectStorage

open ShmRingBuffer

variable {κ : Type} [DecidableEq κ]

def init (maxObjectSize nReaders : Nat) (ringBuffer : ShmRingBuffer) : ShmObjectStorage κ where
  maxObjectSize
  nReaders
  ringBuffer
  keyIndex := .empty
  idIndex := .empty
  writerFlag := .empty

/-- Every chunk has a writer flag; without one the source raises. -/
def defaultIsFreeCheck (s : ShmObjectStorage κ) (id : Nat) (buf : List UInt8) : Bool :=
  match s.writerFlag.get? id with
  | some writerCount => byte2int (buf.take 4) ≥ writerCount * s.nReaders
  | none => false

def incrementWriterFlag (s : ShmObjectStorage κ) (id : Nat) : ShmObjectStorage κ :=
  { s with writerFlag := s.writerFlag.set id (s.writerFlag.getD id 0 + 1) }

def forget : ShmObjectStorage κ → List Nat → Result (ShmObjectStorage κ)
  | s, [] => .ok s
  | s, freedId :: freedIds =>
    match s.idIndex.get? freedId with
    | none => .error .keyError
    | some keyToFree =>
      forget
        { s with
          keyIndex := s.keyIndex.erase keyToFree
          idIndex := s.idIndex.erase freedId
          writerFlag := s.writerFlag.erase freedId } freedIds

def freeUnused (s : ShmObjectStorage κ) : Result (ShmObjectStorage κ) :=
  let (freedIds, ringBuffer) :=
    s.ringBuffer.freeBuf s.defaultIsFreeCheck (some (2 * s.maxObjectSize))
  forget { s with ringBuffer } freedIds

def isCached (s : ShmObjectStorage κ) (key : κ) : Bool := s.keyIndex.contains key

def getCached (s : ShmObjectStorage κ) (key : κ) : Result (ShmRef × ShmObjectStorage κ) :=
  match s.keyIndex.get? key with
  | none => .error .keyError
  | some ref => .ok (ref, s.incrementWriterFlag ref.monotonicId)

def store (s : ShmObjectStorage κ) (key : κ) (value : Serialized) (ref : ShmRef) :
    Result (ShmObjectStorage κ) := do
  let zero ← int2byte 0
  let ring ← s.ringBuffer.writeView ref.address 0 zero
  let ring ← ring.writeView ref.address flagBytes value.metadata
  let ring ← ring.writeView ref.address (flagBytes + value.metadata.length) value.data
  let s := { s with ringBuffer := ring }.incrementWriterFlag ref.monotonicId
  return { s with
    keyIndex := s.keyIndex.set key ref
    idIndex := s.idIndex.set ref.monotonicId key }

def put (s : ShmObjectStorage κ) (key : κ) (value : Serialized) :
    Result (Result ShmRef × ShmObjectStorage κ) :=
  if s.keyIndex.contains key then
    .ok (.error (.valueError "Key already exists in the storage."), s)
  else
    let bufferSize := flagBytes + value.data.length + value.metadata.length
    if bufferSize > s.maxObjectSize then
      .ok (.error (.valueError "Serialized object size exceeds max object size"), s)
    else
      match s.ringBuffer.allocateBuf bufferSize with
      | .ok ((address, monotonicId), ringBuffer) => do
        let s ← { s with ringBuffer }.store key value ⟨address, monotonicId⟩
        return (.ok ⟨address, monotonicId⟩, s)
      | .error (.memoryError _) => do
        let s ← s.freeUnused
        match s.ringBuffer.allocateBuf bufferSize with
        | .ok ((address, monotonicId), ringBuffer) => do
          let s ← { s with ringBuffer }.store key value ⟨address, monotonicId⟩
          return (.ok ⟨address, monotonicId⟩, s)
        | .error (.memoryError msg) => .ok (.error (.memoryError msg), s)
        | .error e => .error e
      | .error e => .error e

def touch (s : ShmObjectStorage κ) (key : κ) : ShmObjectStorage κ :=
  match s.keyIndex.get? key with
  | none => s
  | some ref => s.incrementWriterFlag ref.monotonicId

def getAndUpdateItem (s : ShmObjectStorage κ) (mmItem : Option Serialized) (mmHash : κ) :
    Result (Option ShmRef × ShmObjectStorage κ) :=
  if s.isCached mmHash then do
    let (ref, s) ← s.getCached mmHash
    return (some ref, s)
  else
    match mmItem with
    | none => .error (.assertionError "Expected a cached item for mm_hash")
    | some item => do
      let (ref, s) ← s.put mmHash item
      match ref with
      | .ok ref => return (some ref, s)
      | .error _ => return (none, s)

end ShmObjectStorage

end Vllm
