import Vllm.Lib.Links
import Vllm.Lib.Result

/-! The queue of free blocks, whose links are in the blocks, between a fake head and a fake tail. -/

universe u

namespace Vllm

inductive FreeNode (β : Type u)
  | fakeHead
  | fakeTail
  | block (b : β)
  deriving DecidableEq

structure FreeKVCacheBlockQueue (β : Type u) where
  links : Links (FreeNode β)
  numFreeBlocks : Int

namespace FreeKVCacheBlockQueue

open FreeNode

variable {β : Type u} [DecidableEq β]

/-- `if i > 0`, for the block before. -/
def linkPrev (previous : Option β) (b : β) (links : Links (FreeNode β)) : Links (FreeNode β) :=
  match previous with
  | some p => links.setPrev (block b) (some (block p))
  | none => links

/-- `if i < self.num_free_blocks - 1`, for the blocks behind. -/
def linkNext (rest : List β) (b : β) (links : Links (FreeNode β)) : Links (FreeNode β) :=
  match rest with
  | n :: _ => links.setNext (block b) (some (block n))
  | [] => links

def linkBlocks (previous : Option β) : List β → Links (FreeNode β) → Links (FreeNode β)
  | [], links => links
  | b :: rest, links => linkBlocks (some b) rest (linkNext rest b (linkPrev previous b links))

def init (links : Links (FreeNode β)) (blocks : List β) : FreeKVCacheBlockQueue β :=
  let links := ((linkBlocks none blocks links).clear fakeHead).clear fakeTail
  { numFreeBlocks := blocks.length
    links :=
      match blocks.head?, blocks.getLast? with
      | some first, some last =>
        let links := (links.setNext fakeHead (some (block first))).setPrev (block first) (some fakeHead)
        (links.setPrev fakeTail (some (block last))).setNext (block last) (some fakeTail)
      | _, _ => (links.setNext fakeHead (some fakeTail)).setPrev fakeTail (some fakeHead) }

variable (q : FreeKVCacheBlockQueue β)

def popleft : Result (FreeNode β × FreeKVCacheBlockQueue β) :=
  match q.links.next fakeHead with
  | none | some fakeTail => do
    Result.ensure (q.numFreeBlocks = 0)
      s!"num_free_blocks ({q.numFreeBlocks}) is out of sync with the free list."
    throw (.valueError "No free blocks available")
  | some firstBlock =>
    match q.links.next firstBlock with
    | none =>
      .error (.runtimeError
        "Invalid block found in popleft() which doesn't have a valid next_free_block")
    | some second =>
      let links := (q.links.setNext fakeHead (some second)).setPrev second (some fakeHead)
      .ok (firstBlock, { links := links.clear firstBlock, numFreeBlocks := q.numFreeBlocks - 1 })

/-- The loop of `popleft_n`. -/
def popLoop : Nat → Option (FreeNode β) → Links (FreeNode β) →
    Result (List (FreeNode β) × Option (FreeNode β) × Links (FreeNode β))
  | 0, currBlock, links => .ok ([], currBlock, links)
  | _ + 1, none, _ => .error (.assertionError "curr_block is not None")
  | n + 1, some lastBlock, links => do
    let (ret, currBlock, links) ← popLoop n (links.next lastBlock) (links.clear lastBlock)
    return (lastBlock :: ret, currBlock, links)

def popleftN (n : Nat) : Result (List (FreeNode β) × FreeKVCacheBlockQueue β) :=
  if n = 0 then .ok ([], q)
  else do
    Result.ensure (q.numFreeBlocks ≥ n) "self.num_free_blocks >= n"
    let (ret, currBlock, links) ← popLoop n (q.links.next fakeHead) q.links
    let links :=
      match currBlock with
      | some currBlock => (links.setNext fakeHead (some currBlock)).setPrev currBlock (some fakeHead)
      | none => links
    return (ret, { links, numFreeBlocks := q.numFreeBlocks - n })

def remove (b : β) : Result (FreeKVCacheBlockQueue β) :=
  match q.links.prev (block b), q.links.next (block b) with
  | some prevFreeBlock, some nextFreeBlock =>
    let links := (q.links.setNext prevFreeBlock (some nextFreeBlock)).setPrev nextFreeBlock
      (some prevFreeBlock)
    .ok { links := links.clear (block b), numFreeBlocks := q.numFreeBlocks - 1 }
  | _, _ => .error (.runtimeError "remove() called on an invalid block")

def append (b : β) : Result (FreeKVCacheBlockQueue β) :=
  match q.links.prev fakeTail with
  | none =>
    .error (.runtimeError "prev_free_block of fake_free_list_tail should always exist")
  | some lastBlock =>
    let links := (q.links.setNext lastBlock (some (block b))).setPrev (block b) (some lastBlock)
    let links := (links.setNext (block b) (some fakeTail)).setPrev fakeTail (some (block b))
    .ok { links, numFreeBlocks := q.numFreeBlocks + 1 }

def appendLoop : List β → FreeNode β × Links (FreeNode β) → FreeNode β × Links (FreeNode β)
  | [], st => st
  | b :: blocks, (lastBlock, links) =>
    appendLoop blocks
      (block b, (links.setPrev (block b) (some lastBlock)).setNext lastBlock (some (block b)))

def appendN (blocks : List β) : Result (FreeKVCacheBlockQueue β) :=
  if blocks.length = 0 then .ok q
  else
    match q.links.prev fakeTail with
    | none =>
      .error (.assertionError "prev_free_block of fake_free_list_tail should always exist")
    | some lastBlock =>
      let (lastBlock, links) := appendLoop blocks (lastBlock, q.links)
      let links := (links.setNext lastBlock (some fakeTail)).setPrev fakeTail (some lastBlock)
      .ok { links, numFreeBlocks := q.numFreeBlocks + blocks.length }

/-- `rounds` is for the loop. -/
def getAllFreeBlocks (rounds : Nat) : Result (List (FreeNode β)) :=
  match q.links.next fakeHead with
  | none =>
    .error (.runtimeError "next_free_block of fake_free_list_head should always exist")
  | some currBlock => .ok (Links.collect q.links.next rounds currBlock)

inductive Op (β : Type u)
  | popleft
  | popleftN (n : Nat)
  | remove (b : β)
  | append (b : β)
  | appendN (blocks : List β)

def Op.step : Op β → Result (List (FreeNode β) × FreeKVCacheBlockQueue β)
  | .popleft => q.popleft.map fun x => ([x.1], x.2)
  | .popleftN n => q.popleftN n
  | .remove b => (q.remove b).map fun q => ([], q)
  | .append b => (q.append b).map fun q => ([], q)
  | .appendN blocks => (q.appendN blocks).map fun q => ([], q)

def Op.apply (q : FreeKVCacheBlockQueue β) (op : Op β) : FreeKVCacheBlockQueue β :=
  match op.step q with
  | .ok (_, q') => q'
  | .error _ => q

def Op.plainStep (l : List β) : Op β → Option (List β × List β)
  | .popleft => if l = [] then none else some (l.take 1, l.drop 1)
  | .popleftN n => if n ≤ l.length then some (l.take n, l.drop n) else none
  | .remove b => some ([], l.erase b)
  | .append b => some ([], l ++ [b])
  | .appendN blocks => some ([], l ++ blocks)

def Op.plainApply (l : List β) (op : Op β) : List β := ((op.plainStep l).map Prod.snd).getD l

/-- Members are removed, and others are appended. -/
def Op.Allowed (l : List β) : Op β → Prop
  | .remove b => b ∈ l
  | .append b => b ∉ l
  | .appendN blocks => blocks.Nodup ∧ ∀ b ∈ blocks, b ∉ l
  | .popleft | .popleftN _ => True

def AllowedRun : List β → List (Op β) → Prop
  | _, [] => True
  | l, op :: ops => op.Allowed l ∧ AllowedRun (op.plainApply l) ops

def Op.entering : Op β → List β
  | .append b => [b]
  | .appendN blocks => blocks
  | .popleft | .popleftN _ | .remove _ => []

/-- Both traversals give the sequence, and the blocks of `seen` that are not in it have no links. -/
structure Refines (seen : List β) (q : FreeKVCacheBlockQueue β) (l : List β) : Prop where
  forward : ∀ rounds, l.length < rounds → q.getAllFreeBlocks rounds = .ok (l.map block)
  backward : ∀ rounds, l.length < rounds → ∃ last, q.links.prev fakeTail = some last ∧
    Links.collect q.links.prev rounds last = (l.map block).reverse
  nodup : l.Nodup
  count : q.numFreeBlocks = l.length
  cleared : ∀ b ∈ seen, b ∉ l → q.links.prev (block b) = none ∧ q.links.next (block b) = none

/-- The call returns what it does on the sequence, and raises where the sequence is too short. -/
def Op.Answers (seen : List β) (q : FreeKVCacheBlockQueue β) (l : List β) (op : Op β) : Prop :=
  match op.plainStep l with
  | some (ret, l') => ∃ q', op.step q = .ok (ret.map block, q') ∧ Refines (seen ++ op.entering) q' l'
  | none => ∃ e, op.step q = .error e

end FreeKVCacheBlockQueue

end Vllm
