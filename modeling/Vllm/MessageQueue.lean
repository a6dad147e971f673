import Vllm.Lib.Cyclic
import Vllm.ShmRingBufferLaws
import Vllm.Lib.Run
import Vllm.Request

/-! The broadcast queue in shared memory: one writer, and local readers that take each read or write
of a flag and each access of a chunk as one step, in program order. -/

namespace Vllm

open ShmRingBuffer (writeBytes)

structure Pickle (α : Type) where
  dumps : α → Bytes × List Bytes
  loads : Bytes → List Bytes → Result α
  loads_dumps : ∀ obj, loads (dumps obj).1 (dumps obj).2 = .ok obj

namespace Pickle

variable {α : Type} (p : Pickle α)

def allBuffers (obj : α) : List Bytes := (p.dumps obj).1 :: (p.dumps obj).2

def load : List Bytes → Result α
  | [] => .error .indexError
  | buf :: oob => p.loads buf oob

@[simp] theorem load_allBuffers (obj : α) : p.load (p.allBuffers obj) = .ok obj := p.loads_dumps obj

end Pickle

namespace MessageQueue

/-- The buffer of a queue; shared memory of no chunks cannot be created. -/
structure Config where
  nReader : Nat
  maxChunkBytes : Nat
  maxChunks : Nat
  maxChunks_pos : 0 < maxChunks

def toBytesBig (value size : Nat) : Result Bytes :=
  if value < 256 ^ size then
    .ok ((List.range size).map fun i => UInt8.ofNat (value / 256 ^ (size - 1 - i) % 256))
  else .error (.overflowError "int too big to convert")

def fromBytesBig (bs : Bytes) : Nat := bs.foldl (fun n b => 256 * n + b.toNat) 0

def slice (buf : Bytes) (start stop : Nat) : Bytes := (buf.take stop).drop start

def slices (buf : Bytes) (spans : List (Nat × Nat)) : List Bytes :=
  spans.map fun b => slice buf b.1 (b.1 + b.2)

variable {α : Type} (c : Config) (p : Pickle α)

def overflows (obj : α) : Bool :=
  let totalBytes := 6 + ((p.dumps obj).2.map fun buf => buf.length + 4).sum
  totalBytes + (p.dumps obj).1.length ≥ c.maxChunkBytes

def bufferWrites : Nat → List Bytes → List (Nat × Result Bytes)
  | _, [] => []
  | offset, buffer :: buffers =>
    (offset, toBytesBig buffer.length 4) :: (offset + 4, .ok buffer) ::
      bufferWrites (offset + 4 + buffer.length) buffers

/-- The assignments to slices of the chunk in `enqueue`, with where they start. -/
def chunkWrites (obj : α) : List (Nat × Result Bytes) :=
  if overflows c p obj then [(0, .ok [1])]
  else
    (0, .ok [0]) :: (1, toBytesBig (p.allBuffers obj).length 2) :: bufferWrites 3 (p.allBuffers obj)

/-- Where the writer is in `enqueue`. -/
inductive Writer (α : Type)
  | idle
  | readFlags (obj : α) (i readCount : Nat)
  | clearWritten (obj : α)
  | fill (obj : α) (writes : List (Nat × Result Bytes))
  | clearFlags (obj : α) (i : Nat)
  | send (obj : α)

/-- What `pickle.loads` makes of slices of a chunk. The main buffer is parsed; a buffer out of band
stays the slice it is, given by its offset and its length. -/
structure View where
  main : Bytes
  buffers : List (Nat × Nat)

def View.value (view : View) (buf : Bytes) : Result α :=
  p.loads view.main (slices buf view.buffers)

inductive Dequeued
  | inline (chunk : Nat) (view : View)
  | received (message : List Bytes)

def Dequeued.value (data : Nat → Bytes) : Dequeued → Result α
  | .inline chunk view => view.value p (data chunk)
  | .received message => p.load message

/-- Where a reader is in `dequeue`. A flag is set after the object was read, or after the mark of an
overflow. -/
inductive Reader
  | idle
  | readFlag
  | readWritten (readFlag : Nat)
  | readOverflow
  | readCount
  | readLen (left offset : Nat) (allBuffers : List (Nat × Nat))
  | readBuffer (left offset bufLen : Nat) (allBuffers : List (Nat × Nat))
  | setFlag (obj : Option View)
  | recv

structure LocalReader where
  currentIdx : Nat
  pc : Reader
  localSocket : List (List Bytes)
  dequeued : List Dequeued

def LocalReader.objects (reader : LocalReader) (data : Nat → Bytes) : List (Result α) :=
  reader.dequeued.map (Dequeued.value p data)

/-- Byte `0` of the metadata of a chunk is the written flag, byte `r + 1` the flag of reader `r`. An
object counts as enqueued from when its chunk is marked as written. -/
structure System (α : Type) where
  metadata : Nat → Nat → Nat
  data : Nat → Bytes
  currentIdx : Nat
  writer : Writer α
  enqueued : List α
  readers : Nat → LocalReader

/-- `timedOut` says what the clock shows where the code looks at it. -/
inductive Op (α : Type)
  | enqueue (obj : α)
  | writer (timedOut : Bool)
  | dequeue (r : Nat)
  | reader (r : Nat) (timedOut : Bool)

def init : System α where
  metadata := fun _ _ => 0
  data := fun _ => List.replicate c.maxChunkBytes 0
  currentIdx := 0
  writer := .idle
  enqueued := []
  readers := fun _ => ⟨0, .idle, [], []⟩

def setByte (metadata : Nat → Nat → Nat) (j i v : Nat) : Nat → Nat → Nat :=
  fun j' i' => if j' = j ∧ i' = i then v else metadata j' i'

def disabled : Result (System α) := .error (.runtimeError "not enabled")

def nextBuffer (buf : Bytes) (left offset : Nat) (allBuffers : List (Nat × Nat)) : Reader :=
  match left, allBuffers with
  | left + 1, allBuffers => .readLen left offset allBuffers
  | 0, [] => .idle
  | 0, main :: buffers =>
    let view : View := ⟨slice buf main.1 (main.1 + main.2), buffers⟩
    match view.value p buf with
    | .ok _ => .setFlag (some view)
    | .error _ => .idle

def readChunk (buf : Bytes) : Reader → Reader
  | .readOverflow =>
    match buf[0]? with
    | some overflow => if overflow = 1 then .setFlag none else .readCount
    | none => .idle
  | .readCount => nextBuffer p buf (fromBytesBig (slice buf 1 3)) 3 []
  | .readLen left offset allBuffers =>
    .readBuffer left (offset + 4) (fromBytesBig (slice buf offset (offset + 4))) allBuffers
  | .readBuffer left offset bufLen allBuffers =>
    nextBuffer p buf left (offset + bufLen) (allBuffers ++ [(offset, bufLen)])
  | pc => pc

namespace System

variable (s : System α)

def setReader (r : Nat) (reader : LocalReader) : System α :=
  { s with readers := Function.update s.readers r reader }

/-- The last step of `acquire_write`, after which `enqueue` sends what did not fit. -/
def publish (obj : α) : System α :=
  { s with
    metadata := setByte s.metadata s.currentIdx 0 1
    currentIdx := (s.currentIdx + 1) % c.maxChunks
    enqueued := s.enqueued ++ [obj]
    writer := if overflows c p obj then .send obj else .idle }

def sendMultipart (obj : α) : System α :=
  { s with
    writer := .idle
    readers := fun r => { s.readers r with
      localSocket := (s.readers r).localSocket ++ [p.allBuffers obj] } }

def writerStep (timedOut : Bool) : Result (System α) :=
  match s.writer with
  | .idle => disabled
  | .readFlags obj i readCount =>
    if i < c.nReader then
      let flag := s.metadata s.currentIdx (i + 1)
      .ok { s with writer := .readFlags obj (i + 1) (readCount + flag) }
    else if s.metadata s.currentIdx 0 ≠ 0 ∧ readCount ≠ c.nReader then
      .ok { s with writer := if timedOut then .idle else .readFlags obj 0 0 }
    else .ok { s with writer := .clearWritten obj }
  | .clearWritten obj =>
    .ok { s with
      metadata := setByte s.metadata s.currentIdx 0 0
      writer := .fill obj (chunkWrites c p obj) }
  | .fill obj [] => .ok { s with writer := .clearFlags obj 0 }
  | .fill obj ((start, bytes) :: writes) =>
    match bytes >>= writeBytes (s.data s.currentIdx) start with
    | .ok buf =>
      .ok { s with
        data := Function.update s.data s.currentIdx buf
        writer := .fill obj writes }
    | .error _ => .ok { s with writer := .idle }
  | .clearFlags obj i =>
    if i < c.nReader then
      .ok { s with
        metadata := setByte s.metadata s.currentIdx (i + 1) 0
        writer := .clearFlags obj (i + 1) }
    else .ok (s.publish c p obj)
  | .send obj => .ok (s.sendMultipart p obj)

def setPc (r : Nat) (pc : Reader) : System α := s.setReader r { s.readers r with pc }

/-- The last step of `acquire_read`; an object that did not fit is still to be received. -/
def release (r : Nat) (obj : Option View) : System α :=
  let reader := s.readers r
  { s with metadata := setByte s.metadata reader.currentIdx (r + 1) 1 }.setReader r
    { reader with
      currentIdx := (reader.currentIdx + 1) % c.maxChunks
      pc := match obj with
        | some _ => .idle
        | none => .recv
      dequeued := reader.dequeued ++ (obj.map (Dequeued.inline reader.currentIdx)).toList }

def readerStep (r : Nat) (timedOut : Bool) : Result (System α) :=
  let reader := s.readers r
  match reader.pc with
  | .idle => disabled
  | .readFlag => .ok (s.setPc r (.readWritten (s.metadata reader.currentIdx (r + 1))))
  | .readWritten readFlag =>
    if s.metadata reader.currentIdx 0 = 0 ∨ readFlag ≠ 0 then
      .ok (s.setPc r (if timedOut then .idle else .readFlag))
    else .ok (s.setPc r .readOverflow)
  | .setFlag obj => .ok (s.release c r obj)
  | .recv =>
    match reader.localSocket with
    | [] => .ok (s.setPc r (if timedOut then .idle else .recv))
    | message :: localSocket =>
      match p.load message with
      | .ok _ =>
        let dequeued := reader.dequeued ++ [.received message]
        .ok (s.setReader r { reader with pc := .idle, localSocket, dequeued })
      | .error _ => .ok (s.setReader r { reader with pc := .idle, localSocket })
  | pc => .ok (s.setPc r (readChunk p (s.data reader.currentIdx) pc))

end System

def Op.step (s : System α) : Op α → Result (System α)
  | .enqueue obj =>
    match s.writer with
    | .idle => if 0 < c.nReader then .ok { s with writer := .readFlags obj 0 0 } else disabled
    | _ => disabled
  | .writer timedOut => s.writerStep c p timedOut
  | .dequeue r =>
    match (s.readers r).pc with
    | .idle => if r < c.nReader then .ok (s.setPc r .readFlag) else disabled
    | _ => disabled
  | .reader r timedOut => if r < c.nReader then s.readerStep c p r timedOut else disabled

def Reader.Inside : Reader → Prop
  | .readOverflow | .readCount | .readLen .. | .readBuffer .. | .setFlag _ => True
  | _ => False

def Writer.Inside : Writer α → Prop
  | .clearWritten _ | .fill .. | .clearFlags .. => True
  | _ => False

/-- Each reader has got the first of the enqueued objects and still finds them as they were, and none
is in the chunk that the writer changes. -/
structure Delivered (s : System α) : Prop where
  ordered : ∀ r < c.nReader, (s.readers r).objects p s.data <+: s.enqueued.map .ok
  apart : ∀ r < c.nReader, (s.readers r).pc.Inside → s.writer.Inside →
    (s.readers r).currentIdx ≠ s.currentIdx

/-- The reader is not in a call of `dequeue`, and the next one would have to wait. -/
def System.Drained (s : System α) (r : Nat) : Prop :=
  (s.readers r).pc = .idle ∧ (s.metadata (s.readers r).currentIdx 0 = 0 ∨
    s.metadata (s.readers r).currentIdx (r + 1) ≠ 0)

/-- Each reader has got the first of the enqueued objects, each once and in order, and all of them
if it finds nothing more to read. -/
structure Lossless (s : System α) : Prop where
  ordered : ∀ r < c.nReader, (s.readers r).objects p s.data <+: s.enqueued.map .ok
  complete : ∀ r < c.nReader, s.Drained r → (s.readers r).objects p s.data = s.enqueued.map .ok

/-- The step is not the end of the wait for an object that did not fit in its chunk. -/
def Op.patient (s : System α) : Op α → Bool
  | .reader r true =>
    match (s.readers r).pc, (s.readers r).localSocket with
    | .recv, [] => false
    | _, _ => true
  | _ => true

def Dequeued.restsOn (chunk start len : Nat) : Dequeued → Bool
  | .inline chunk' view => chunk' = chunk ∧ ∃ b ∈ view.buffers, start < b.1 + b.2 ∧ b.1 < start + len
  | .received _ => false

/-- The writer does not assign to bytes on which a dequeued object rests. -/
def Op.spares (s : System α) : Op α → Bool
  | .writer _ =>
    match s.writer with
    | .fill _ ((start, .ok bytes) :: _) =>
      ∀ r < c.nReader, ∀ obj ∈ (s.readers r).dequeued, !obj.restsOn s.currentIdx start bytes.length
    | _ => true
  | _ => true

end MessageQueue

end Vllm
