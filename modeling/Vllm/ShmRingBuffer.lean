import Vllm.Lib.Cyclic
import Vllm.Lib.Dict
import Vllm.Lib.Py
import Vllm.Lib.Run

/-! The ring buffer in shared memory. Addresses are virtual: they only grow between two rebases, and
their residues are the positions in the buffer. -/

namespace Vllm

structure ShmRingBuffer where
  dataBufferSize : Nat
  monotonicIdEnd : Nat
  monotonicIdStart : Nat
  dataBufferStart : Int
  dataBufferEnd : Int
  metadata : Dict Nat Int
  buf : List UInt8

namespace ShmRingBuffer

def idNbytes : Nat := 4

def idMax : Nat := 2 ^ 31

def mdSize : Nat := 8

/-- The buffer of a new writer; `buf` is the shared memory, which may be larger than requested. -/
def init (dataBufferSize : Nat) (buf : List UInt8) : ShmRingBuffer where
  dataBufferSize
  monotonicIdEnd := 0
  monotonicIdStart := 0
  dataBufferStart := 0
  dataBufferEnd := 0
  metadata := .empty
  buf

def int2byte (integer : Int) : Result (List UInt8) :=
  if -2 ^ 31 ≤ integer ∧ integer < 2 ^ 31 then
    .ok ((List.range idNbytes).map fun i => UInt8.ofNat (integer / 256 ^ i % 256).toNat)
  else .error (.overflowError "int too big to convert")

def byte2int (byteData : List UInt8) : Int :=
  let unsigned : Nat := byteData.foldr (fun b n => b.toNat + 256 * n) 0
  if 2 * unsigned < 256 ^ byteData.length then unsigned else unsigned - 256 ^ byteData.length

def writeBytes (buf : List UInt8) (i : Nat) (bs : List UInt8) : Result (List UInt8) :=
  if i + bs.length ≤ buf.length then .ok (buf.take i ++ bs ++ buf.drop (i + bs.length))
  else .error (.valueError
    "memoryview assignment: lvalue and rvalue have different structures")

/-- Where a chunk of `size` bytes is put: at the end, or at the next multiple of the buffer size if it
would cross that. -/
def bufferEndReset (s : ShmRingBuffer) (size : Int) : Int :=
  if s.dataBufferEnd % s.dataBufferSize + size > s.dataBufferSize then
    (s.dataBufferEnd / s.dataBufferSize + 1) * s.dataBufferSize
  else s.dataBufferEnd

def allocateBuf (s : ShmRingBuffer) (size : Int) : Result ((Int × Nat) × ShmRingBuffer) := do
  Result.ensure (size > 0) "Size must be greater than 0"
  let size := size + mdSize
  let bufferEndReset := s.bufferEndReset size
  if bufferEndReset + size - s.dataBufferStart > s.dataBufferSize then
    .error (.memoryError
      "Not enough space in the data buffer, try calling free_buf() to free up space")
  else
    let bufIdx := (bufferEndReset % s.dataBufferSize).toNat
    let idBytes ← int2byte s.monotonicIdEnd
    let buf ← writeBytes s.buf bufIdx idBytes
    let sizeBytes ← int2byte size
    let buf ← writeBytes buf (bufIdx + idNbytes) sizeBytes
    return ((bufferEndReset, s.monotonicIdEnd),
      { s with
        buf
        metadata := s.metadata.set (s.monotonicIdEnd % idMax) bufferEndReset
        dataBufferEnd := bufferEndReset + size
        monotonicIdEnd := (s.monotonicIdEnd + 1) % idMax })

def accessBuf (s : ShmRingBuffer) (address : Int) : List UInt8 × Int × Int :=
  let bufIdx := address % s.dataBufferSize
  let metadataBuff := Py.slice s.buf bufIdx (bufIdx + mdSize)
  let id := byte2int (Py.sliceTo metadataBuff idNbytes)
  let size := byte2int (Py.slice metadataBuff idNbytes mdSize)
  (Py.slice s.buf (bufIdx + mdSize) (bufIdx + size), id, size)

def freeFirst (s : ShmRingBuffer) : ShmRingBuffer :=
  let metadata := s.metadata.erase s.monotonicIdStart
  let monotonicIdStart := (s.monotonicIdStart + 1) % idMax
  match metadata.get? monotonicIdStart with
  | some next =>
    { s with
      metadata, monotonicIdStart
      dataBufferStart :=
        s.dataBufferStart + (next - s.dataBufferStart) % s.dataBufferSize }
  | none => { s with metadata, monotonicIdStart, dataBufferStart := 0, dataBufferEnd := 0 }

variable (isFreeFn : Nat → List UInt8 → Bool) (nbytes : Int)

/-- The `while` loop of `free_buf`, which removes a key in every round. -/
def freeLoop : Nat → ShmRingBuffer → Int → ShmRingBuffer
  | 0, s, _ => s
  | fuel + 1, s, freedBytes =>
    match s.metadata.get? s.monotonicIdStart with
    | none => s
    | some address =>
      if freedBytes < nbytes then
        let (dataBuff, _, size) := s.accessBuf address
        if isFreeFn s.monotonicIdStart dataBuff then
          freeLoop fuel s.freeFirst (freedBytes + size)
        else s
      else s

def rebase (s : ShmRingBuffer) : ShmRingBuffer :=
  if s.dataBufferStart ≥ s.dataBufferSize then
    { s with
      dataBufferStart := s.dataBufferStart - s.dataBufferSize
      dataBufferEnd := s.dataBufferEnd - s.dataBufferSize }
  else s

def freeBuf (s : ShmRingBuffer) (nbytes : Option Int) : List Nat × ShmRingBuffer :=
  let monotonicIdBefore := s.monotonicIdStart
  let s := (freeLoop isFreeFn (nbytes.getD s.dataBufferSize) s.metadata.size s 0).rebase
  let monotonicIdAfter := s.monotonicIdStart
  if monotonicIdAfter ≥ monotonicIdBefore then
    (List.range' monotonicIdBefore (monotonicIdAfter - monotonicIdBefore), s)
  else
    (List.range' monotonicIdBefore (idMax - monotonicIdBefore) ++ List.range monotonicIdAfter, s)

/-- A chunk that `allocate_buf` handed out, with its bytes right after the call. -/
structure Chunk where
  id : Nat
  address : Int
  size : Nat
  bytes : List UInt8
  deriving DecidableEq

def bytesAt (s : ShmRingBuffer) (address : Int) (size : Nat) : List UInt8 :=
  (s.buf.drop (address % s.dataBufferSize).toNat).take size

structure Tracked where
  ring : ShmRingBuffer
  live : List Chunk

inductive Op
  | allocateBuf (size : Int)
  | freeBuf (isFreeFn : Nat → List UInt8 → Bool) (nbytes : Option Int)

/-- A failed allocation raises before it writes anything, as long as its size fits the header. -/
def Op.step (s : Tracked) : Op → Tracked
  | .allocateBuf size =>
    match s.ring.allocateBuf size with
    | .ok ((address, id), ring) =>
      let size := (size + mdSize).toNat
      { ring, live := s.live ++ [{ id, address, size, bytes := ring.bytesAt address size }] }
    | .error _ => s
  | .freeBuf isFreeFn nbytes =>
    let (freedIds, ring) := s.ring.freeBuf isFreeFn nbytes
    { ring, live := s.live.filter (·.id ∉ freedIds) }

end ShmRingBuffer

end Vllm
