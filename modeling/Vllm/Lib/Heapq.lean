import Mathlib.Data.List.Perm.Basic
import Mathlib.Data.List.Nodup

/-! Python's `heapq` on lists. Moving an item along a path is written with swaps. Where the order is
not a linear one, or changes between two operations, the functions still only permute. -/

universe u

namespace Vllm.Heapq

variable {α : Type u} (lt : α → α → Bool)

def swap (l : List α) (i j : Nat) : List α :=
  match l[i]?, l[j]? with
  | some a, some b => (l.set i b).set j a
  | _, _ => l

def ltAt (l : List α) (i j : Nat) : Bool :=
  match l[i]?, l[j]? with
  | some a, some b => lt a b
  | _, _ => false

def siftdown (startpos : Nat) : Nat → Nat → List α → List α
  | 0, _, heap => heap
  | fuel + 1, pos, heap =>
    if pos > startpos then
      let parentpos := (pos - 1) / 2
      if ltAt lt heap pos parentpos then siftdown startpos fuel parentpos (swap heap pos parentpos)
      else heap
    else heap

/-- The first loop of `_siftup`: the smaller child moves up until a leaf is reached. -/
def sink : Nat → Nat → List α → Nat × List α
  | 0, pos, heap => (pos, heap)
  | fuel + 1, pos, heap =>
    let childpos := 2 * pos + 1
    if childpos < heap.length then
      let rightpos := childpos + 1
      let childpos :=
        if rightpos < heap.length ∧ ¬ ltAt lt heap childpos rightpos then rightpos else childpos
      sink fuel childpos (swap heap pos childpos)
    else (pos, heap)

def siftup (pos : Nat) (heap : List α) : List α :=
  let (leaf, heap) := sink lt heap.length pos heap
  siftdown lt pos leaf leaf heap

def heappush (heap : List α) (item : α) : List α :=
  siftdown lt 0 heap.length heap.length (heap ++ [item])

/-- The first item and the rest, with the last item sifted in; `none` on the empty heap. -/
def heappop : List α → Option (α × List α)
  | [] => none
  | top :: rest =>
    match rest.getLast? with
    | none => some (top, [])
    | some last => some (top, siftup lt 0 (last :: rest.dropLast))

def heapifyFrom : Nat → List α → List α
  | 0, heap => heap
  | i + 1, heap => heapifyFrom i (siftup lt i heap)

def heapify (heap : List α) : List α := heapifyFrom lt (heap.length / 2) heap

def drain : Nat → List α → List α
  | 0, _ => []
  | fuel + 1, heap =>
    match heappop lt heap with
    | none => []
    | some (top, heap) => top :: drain fuel heap

theorem swap_perm (l : List α) (i j : Nat) : (swap l i j).Perm l := by
  unfold swap
  split
  · rename_i a b ha hb
    obtain ⟨hi, rfl⟩ := List.getElem?_eq_some_iff.mp ha
    obtain ⟨hj, rfl⟩ := List.getElem?_eq_some_iff.mp hb
    have := (Array.swap_perm (i := i) (j := j) hi hj).toList
    simpa [Array.swap] using this
  · exact List.Perm.refl l

variable {lt}

theorem siftdown_perm (startpos fuel pos : Nat) (heap : List α) :
    (siftdown lt startpos fuel pos heap).Perm heap := by
  induction fuel generalizing pos heap with
  | zero => exact List.Perm.refl heap
  | succ fuel ih =>
    simp only [siftdown]
    split
    · split
      · exact (ih _ _).trans (swap_perm heap pos _)
      · exact List.Perm.refl heap
    · exact List.Perm.refl heap

theorem sink_perm (fuel pos : Nat) (heap : List α) : (sink lt fuel pos heap).2.Perm heap := by
  induction fuel generalizing pos heap with
  | zero => exact List.Perm.refl heap
  | succ fuel ih =>
    simp only [sink]
    split
    · exact (ih _ _).trans (swap_perm heap pos _)
    · exact List.Perm.refl heap

variable (lt) in
theorem siftup_perm (pos : Nat) (heap : List α) : (siftup lt pos heap).Perm heap :=
  (siftdown_perm _ _ _ _).trans (sink_perm _ _ _)

theorem heappush_perm (heap : List α) (item : α) : (heappush lt heap item).Perm (item :: heap) :=
  (siftdown_perm _ _ _ _).trans (List.perm_append_singleton item heap)

theorem heapify_perm (heap : List α) : (heapify lt heap).Perm heap := by
  unfold heapify
  generalize heap.length / 2 = n
  induction n generalizing heap with
  | zero => exact List.Perm.refl heap
  | succ n ih => exact (ih _).trans (siftup_perm lt n heap)

theorem getLast_cons_dropLast_perm {l : List α} {last : α} (h : l.getLast? = some last) :
    (last :: l.dropLast).Perm l := by
  have := List.dropLast_append_getLast? last h
  exact (List.perm_append_singleton last l.dropLast).symm.trans (List.Perm.of_eq this)

theorem heappop_spec {heap rest : List α} {top : α} (h : heappop lt heap = some (top, rest)) :
    heap.head? = some top ∧ heap.Perm (top :: rest) := by
  cases heap with
  | nil => cases h
  | cons x l =>
    simp only [heappop] at h
    split at h
    · rename_i hnone
      cases h
      rw [List.getLast?_eq_none_iff.mp hnone]
      exact ⟨rfl, List.Perm.refl _⟩
    · rename_i last hlast
      cases h
      have hrest := (siftup_perm lt 0 _).trans (getLast_cons_dropLast_perm hlast)
      exact ⟨rfl, hrest.symm.cons _⟩

variable (lt) in
theorem heappop_cons (x : α) (l : List α) : ∃ rest, heappop lt (x :: l) = some (x, rest) := by
  simp only [heappop]
  split <;> exact ⟨_, rfl⟩

theorem drain_perm {n : Nat} {heap : List α} (hn : heap.length = n) :
    (drain lt n heap).Perm heap := by
  induction n generalizing heap with
  | zero =>
    rw [List.length_eq_zero_iff.mp hn]
    exact List.Perm.refl _
  | succ n ih =>
    cases heap with
    | nil => cases hn
    | cons x l =>
      obtain ⟨rest, hrest⟩ := heappop_cons lt x l
      have hperm := (heappop_spec hrest).2
      have hlen : rest.length = n := by
        have := hperm.length_eq
        simp only [List.length_cons] at this hn
        omega
      simp only [drain, hrest]
      exact ((ih hlen).cons x).trans hperm.symm

end Vllm.Heapq
