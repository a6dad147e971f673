import Vllm.Lib.Heapq
import Vllm.Request

/-! The queues of waiting requests: a deque, or a heap ordered by `Request.__lt__`. A queue is the
list of its requests (for a heap, the array), given by reference. -/

namespace Vllm

abbrev Ref := Nat

inductive SchedulingPolicy
  | fcfs
  | priority
  deriving DecidableEq, Repr

namespace RequestQueue

variable (policy : SchedulingPolicy) (lt : Ref → Ref → Bool)

def addRequest (q : List Ref) (request : Ref) : List Ref :=
  match policy with
  | .fcfs => q ++ [request]
  | .priority => Heapq.heappush lt q request

def popRequest (q : List Ref) : Option (Ref × List Ref) :=
  match policy with
  | .fcfs =>
    match q with
    | [] => none
    | request :: q => some (request, q)
  | .priority => Heapq.heappop lt q

def peekRequest (q : List Ref) : Option Ref := q.head?

def prependRequest (q : List Ref) (request : Ref) : List Ref :=
  match policy with
  | .fcfs => request :: q
  | .priority => addRequest .priority lt q request

def iter (q : List Ref) : List Ref :=
  match policy with
  | .fcfs => q
  | .priority => Heapq.drain lt q.length q

def prependRequests (q requests : List Ref) : List Ref :=
  match policy with
  | .fcfs => requests.reverse ++ q
  | .priority => (iter .priority lt requests).foldl (addRequest .priority lt) q

def removeRequests (q requests : List Ref) : List Ref :=
  match policy with
  | .fcfs => q.filter (· ∉ requests)
  | .priority => Heapq.heapify lt (q.filter (· ∉ requests))

variable {policy lt} {q : List Ref}

theorem addRequest_perm (q : List Ref) (r : Ref) : (addRequest policy lt q r).Perm (r :: q) := by
  cases policy with
  | fcfs => exact List.perm_append_singleton r q
  | priority => exact Heapq.heappush_perm q r

theorem prependRequest_perm (q : List Ref) (r : Ref) :
    (prependRequest policy lt q r).Perm (r :: q) := by
  cases policy with
  | fcfs => exact List.Perm.refl _
  | priority => exact Heapq.heappush_perm q r

theorem iter_perm (q : List Ref) : (iter policy lt q).Perm q := by
  cases policy with
  | fcfs => exact List.Perm.refl q
  | priority => exact Heapq.drain_perm rfl

theorem prependRequests_perm (q requests : List Ref) :
    (prependRequests policy lt q requests).Perm (requests ++ q) := by
  cases policy with
  | fcfs => exact (List.reverse_perm requests).append_right q
  | priority =>
    have hfold : ∀ (l q : List Ref),
        (l.foldl (addRequest .priority lt) q).Perm (l ++ q) := by
      intro l
      induction l with
      | nil => exact fun q => List.Perm.refl q
      | cons r l ih =>
        intro q
        refine (ih _).trans ?_
        exact ((addRequest_perm q r).append_left l).trans List.perm_middle
    exact (hfold _ q).trans ((iter_perm requests).append_right q)

theorem removeRequests_perm (q requests : List Ref) :
    (removeRequests policy lt q requests).Perm (q.filter (· ∉ requests)) := by
  cases policy with
  | fcfs => exact List.Perm.refl _
  | priority => exact Heapq.heapify_perm _

theorem mem_removeRequests {requests : List Ref} {r : Ref} :
    r ∈ removeRequests policy lt q requests ↔ r ∈ q ∧ r ∉ requests := by
  rw [(removeRequests_perm q requests).mem_iff, List.mem_filter, decide_eq_true_eq]

theorem popRequest_spec {rest : List Ref} {r : Ref} (h : popRequest policy lt q = some (r, rest)) :
    peekRequest q = some r ∧ q.Perm (r :: rest) := by
  cases policy with
  | fcfs =>
    cases q with
    | nil => cases h
    | cons x q =>
      cases h
      exact ⟨rfl, List.Perm.refl _⟩
  | priority => exact Heapq.heappop_spec h

end RequestQueue

end Vllm
