import Mathlib.Data.List.Dedup
import Mathlib.Algebra.BigOperators.Group.Finset.Basic
import Vllm.Lib.Dict
import Vllm.Lib.Result

/-! The LRU cache of the multimodal processors: the one of cachetools, with a `touch` that also orders
keys which are not in the cache. Nothing is pinned in these caches. -/

universe u v

namespace Vllm

structure LRUCache (κ : Type u) (α : Type v) where
  maxsize : Nat
  currsize : Nat
  data : Dict κ α
  order : List κ

namespace LRUCache

variable {κ : Type u} {α : Type v} [DecidableEq κ] (getsizeof : α → Nat)

def init (maxsize : Nat) : LRUCache κ α where
  maxsize
  currsize := 0
  data := .empty
  order := []

def contains (c : LRUCache κ α) (key : κ) : Bool := c.data.contains key

/-- `move_to_end`, or a new last key; the data is not looked at. -/
def touch (c : LRUCache κ α) (key : κ) : LRUCache κ α :=
  { c with order := c.order.erase key ++ [key] }

def get (c : LRUCache κ α) (key : κ) : Option α × LRUCache κ α :=
  match c.data.get? key with
  | some value => (some value, c.touch key)
  | none => (none, c)

def pop (c : LRUCache κ α) (key : κ) : LRUCache κ α :=
  match c.data.get? key with
  | none => c
  | some value =>
    let c := c.touch key
    { c with
      currsize := c.currsize - getsizeof value
      data := c.data.erase key
      order := c.order.erase key }

def popitem (c : LRUCache κ α) : Result (LRUCache κ α) :=
  match c.order with
  | [] => .error (.runtimeError "All items are pinned, cannot remove oldest from the cache.")
  | lruKey :: _ => .ok (c.pop getsizeof lruKey)

/-- The `while` loop of `__setitem__`. It never ends if it meets a key that is only in the order. -/
def makeRoom (size : Nat) : Nat → LRUCache κ α → Result (LRUCache κ α)
  | 0, _ => .error (.runtimeError "out of fuel")
  | fuel + 1, c =>
    if c.currsize + size > c.maxsize then do
      let c ← c.popitem getsizeof
      makeRoom size fuel c
    else .ok c

/-- `self[key] = value`. Every round of the loop that makes progress removes a key. -/
def setItem (c : LRUCache κ α) (key : κ) (value : α) : Result (LRUCache κ α) :=
  let size := getsizeof value
  if size > c.maxsize then .error (.valueError "value too large")
  else do
    let c ← match c.data.get? key with
      | none => c.makeRoom getsizeof size (c.order.length + 1)
      | some old =>
        if getsizeof old < size then c.makeRoom getsizeof size (c.order.length + 1) else .ok c
    let oldSize := ((c.data.get? key).map getsizeof).getD 0
    let c := { c with currsize := c.currsize + size - oldSize, data := c.data.set key value }
    return c.touch key

variable {getsizeof} {c : LRUCache κ α} {key : κ}

theorem makeRoom_of_untracked {size : Nat} {rest : List κ} (horder : c.order = key :: rest)
    (hnone : c.data.get? key = none) (hfull : c.currsize + size > c.maxsize) (fuel : Nat) :
    c.makeRoom getsizeof size fuel = .error (.runtimeError "out of fuel") := by
  induction fuel with
  | zero => rfl
  | succ fuel ih =>
    have hpop : c.popitem getsizeof = .ok c := by
      simp only [popitem, horder, pop, hnone]
    rw [makeRoom, if_pos hfull, hpop, Result.ok_bind, ih]

theorem mem_touch_order {k : κ} : k ∈ (c.touch key).order ↔ k ∈ c.order.erase key ∨ k = key := by
  simp [touch]

theorem nodup_touch (hc : c.order.Nodup) : (c.touch key).order.Nodup := by
  refine List.nodup_append.mpr ⟨hc.erase key, List.nodup_singleton key, ?_⟩
  rintro a ha b hb rfl
  rw [List.mem_singleton] at hb
  subst hb
  exact hc.not_mem_erase ha

end LRUCache

end Vllm
