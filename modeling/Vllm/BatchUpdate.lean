import Mathlib.Data.List.Sort
import Vllm.Lib.Result
import Vllm.Request

universe u

namespace Vllm.Worker

inductive SamplingType
  | greedy
  | random
  | randomSeed
  deriving DecidableEq, Repr

/-- The sampling parameters the worker reads, over the type of Python's
floats. An empty list stands for `None` where the source tests for truth only. -/
structure SamplingParams (F : Type u) where
  samplingType : SamplingType
  temperature : F
  topP : F
  topK : Int
  minP : F
  frequencyPenalty : F
  presencePenalty : F
  repetitionPenalty : F
  logprobs : Option Int := none
  allowedTokenIds : List Nat := []
  badWordsTokenIds : List (List Token) := []
  logitBias : List (Nat × F) := []
  minTokens : Nat := 0
  allStopTokenIds : List Nat := []

inductive MoveDirectionality
  | unidirectional
  | swap
  deriving DecidableEq, Repr

structure AddedRequest (F : Type u) where
  index : Nat
  params : SamplingParams F
  promptTokIds : Option (List Token)
  outputTokIds : List Token

abbrev MovedRequest := Nat × Nat × MoveDirectionality

structure BatchUpdate (F : Type u) where
  batchSize : Nat
  removed : List Nat
  added : List (AddedRequest F)
  moved : List MovedRequest

structure BatchUpdateBuilder (F : Type u) where
  removed : List Nat
  isRemovedSorted : Bool
  added : List (AddedRequest F)
  moved : List MovedRequest
  batchChanged : Bool

/-- A request never moves one way onto its own index. -/
def OneWay (ms : List MovedRequest) : Prop := ∀ m ∈ ms, m.2.2 = .unidirectional → m.1 ≠ m.2.1

theorem OneWay.concat {ms : List MovedRequest} (h : OneWay ms) {m : MovedRequest}
    (hm : m.2.2 = .unidirectional → m.1 ≠ m.2.1) : OneWay (ms ++ [m]) := by
  intro x hx
  rcases List.mem_append.mp hx with hx | hx
  · exact h x hx
  · cases List.mem_singleton.mp hx
    exact hm

namespace BatchUpdateBuilder

variable {F : Type u}

def init : BatchUpdateBuilder F where
  removed := []
  isRemovedSorted := false
  added := []
  moved := []
  batchChanged := false

def ensureRemovedSorted (u : BatchUpdateBuilder F) : BatchUpdateBuilder F :=
  if u.isRemovedSorted then u
  else { u with removed := u.removed.insertionSort (· ≥ ·), isRemovedSorted := true }

def removedAppend (u : BatchUpdateBuilder F) (index : Nat) : Result (BatchUpdateBuilder F) :=
  if u.isRemovedSorted then
    .error (.runtimeError "Cannot register new removed request after self.removed has been read.")
  else .ok { u with removed := u.removed ++ [index], batchChanged := true }

def hasRemoved (u : BatchUpdateBuilder F) : Bool := !u.removed.isEmpty

def peekRemoved (u : BatchUpdateBuilder F) : Option Nat × BatchUpdateBuilder F :=
  if u.hasRemoved then
    let u := u.ensureRemovedSorted
    (u.removed.getLast?, u)
  else (none, u)

def popRemoved (u : BatchUpdateBuilder F) : Option Nat × BatchUpdateBuilder F :=
  if u.hasRemoved then
    let u := u.ensureRemovedSorted
    (u.removed.getLast?, { u with removed := u.removed.dropLast })
  else (none, u)

def reset (u : BatchUpdateBuilder F) : Bool × BatchUpdateBuilder F := (u.batchChanged, init)

def getAndReset (u : BatchUpdateBuilder F) (batchSize : Nat) :
    Option (BatchUpdate F) × BatchUpdateBuilder F :=
  if u.removed = [] ∧ u.moved.isEmpty ∧ u.added.isEmpty then
    (none, { u with isRemovedSorted := false, batchChanged := false })
  else
    (some { batchSize, removed := u.removed, added := u.added, moved := u.moved }, init)

def Sorted (u : BatchUpdateBuilder F) : Prop :=
  u.isRemovedSorted = true → u.removed.Pairwise (· ≥ ·)

variable {u : BatchUpdateBuilder F}

theorem ensureRemovedSorted_spec (h : u.Sorted) :
    ∃ removed, u.ensureRemovedSorted = { u with removed, isRemovedSorted := true } ∧
      removed.Perm u.removed ∧ removed.Pairwise (· ≥ ·) := by
  unfold ensureRemovedSorted
  split
  · rename_i hs
    exact ⟨u.removed, by rw [← hs], List.Perm.refl _, h hs⟩
  · exact ⟨_, rfl, List.perm_insertionSort _ _, List.pairwise_insertionSort _ _⟩

theorem popRemoved_of_nil (h : u.removed = []) : u.popRemoved = (none, u) := by
  simp [popRemoved, hasRemoved, h]

theorem popRemoved_same (u : BatchUpdateBuilder F) :
    u.popRemoved.2.moved = u.moved ∧ u.popRemoved.2.added = u.added := by
  unfold popRemoved ensureRemovedSorted
  split
  · split <;> exact ⟨rfl, rfl⟩
  · exact ⟨rfl, rfl⟩

structure Records (A : SamplingParams F → Prop) (u : BatchUpdateBuilder F) : Prop where
  added : ∀ a ∈ u.added, A a.params
  moved : OneWay u.moved

theorem popRemoved_spec (h : u.Sorted) (hne : u.removed ≠ []) :
    ∃ rest e, u.popRemoved = (some e, { u with removed := rest, isRemovedSorted := true }) ∧
      u.peekRemoved = (some e, { u with removed := rest ++ [e], isRemovedSorted := true }) ∧
      (rest ++ [e]).Perm u.removed ∧ (rest ++ [e]).Pairwise (· ≥ ·) := by
  obtain ⟨removed, heq, hperm, hsorted⟩ := ensureRemovedSorted_spec h
  have hne' : removed ≠ [] := fun hnil => hne (List.perm_nil.mp (hnil ▸ hperm.symm))
  have hhas : u.hasRemoved = true := by simpa [hasRemoved] using hne
  have hsplit := List.dropLast_append_getLast hne'
  refine ⟨removed.dropLast, removed.getLast hne', ?_, ?_, ?_, ?_⟩
  · simp only [popRemoved, hhas, heq, if_true, List.getLast?_eq_getLast_of_ne_nil hne']
  · simp only [peekRemoved, hhas, heq, if_true, List.getLast?_eq_getLast_of_ne_nil hne', hsplit]
  · rw [hsplit]
    exact hperm
  · rw [hsplit]
    exact hsorted

theorem removed_of_sorted {rest : List Nat} {e : Nat} (hs : u.isRemovedSorted = true)
    (hrest : u.removed = rest ++ [e]) :
    u.peekRemoved = (some e, u) ∧
      u.popRemoved.2 = { u with removed := rest, isRemovedSorted := true } := by
  have hensure : u.ensureRemovedSorted = u := if_pos hs
  have hhas : u.hasRemoved = true := by simp [hasRemoved, hrest]
  constructor
  · simp only [peekRemoved, hhas, if_true, hensure, hrest, List.getLast?_concat]
  · simp only [popRemoved, hhas, if_true, hensure, hrest, List.dropLast_concat, hs]

end BatchUpdateBuilder

end Vllm.Worker
