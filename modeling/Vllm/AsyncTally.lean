import Mathlib.Algebra.GroupWithZero.Nat
import Mathlib.Algebra.Ring.Int.Defs
import Vllm.Request

namespace Vllm

structure Mark where
  expected : ReqId → Nat
  stale : List ReqId := []

namespace Mark

def markStale (ids : List ReqId) (k : Mark) : Mark := { k with stale := ids ++ k.stale }

def pending (ks : List Mark) (id : ReqId) : Nat :=
  (ks.map fun k => if id ∈ k.stale then 0 else k.expected id).sum

def yielding (ks : List Mark) (id : ReqId) : List Mark := ks.filter fun k => k.expected id ≠ 0

variable {k : Mark} {ks : List Mark} {id : ReqId}

@[simp] theorem pending_cons :
    pending (k :: ks) id = (if id ∈ k.stale then 0 else k.expected id) + pending ks id := by
  simp [pending]

@[simp] theorem pending_append (ks ks' : List Mark) (id : ReqId) :
    pending (ks ++ ks') id = pending ks id + pending ks' id := by
  simp [pending]

theorem yielding_cons_of_ne (h : k.expected id ≠ 0) :
    yielding (k :: ks) id = k :: yielding ks id :=
  List.filter_cons_of_pos (by simpa using h)

theorem yielding_cons_of_eq (h : k.expected id = 0) : yielding (k :: ks) id = yielding ks id :=
  List.filter_cons_of_neg (by simpa using h)

theorem yielding_append (ks ks' : List Mark) (id : ReqId) :
    yielding (ks ++ ks') id = yielding ks id ++ yielding ks' id :=
  List.filter_append ..

theorem yielding_markStale (ids : List ReqId) (ks : List Mark) (id : ReqId) :
    yielding (ks.map (markStale ids)) id = (yielding ks id).map (markStale ids) := by
  induction ks with
  | nil => rfl
  | cons k ks ih =>
    rw [List.map_cons]
    by_cases h : k.expected id = 0
    · rw [yielding_cons_of_eq h, yielding_cons_of_eq (k := k.markStale ids) h, ih]
    · rw [yielding_cons_of_ne h, yielding_cons_of_ne (k := k.markStale ids) h, ih, List.map_cons]

theorem mem_stale_markStale {ids : List ReqId} :
    id ∈ (k.markStale ids).stale ↔ id ∈ ids ∨ id ∈ k.stale :=
  List.mem_append

theorem pending_markStale_of_mem {ids : List ReqId} (h : id ∈ ids) :
    pending (ks.map (markStale ids)) id = 0 := by
  induction ks with
  | nil => rfl
  | cons k ks ih =>
    rw [List.map_cons, pending_cons, ih, if_pos (mem_stale_markStale.mpr (.inl h))]

theorem pending_markStale_of_not_mem {ids : List ReqId} (h : id ∉ ids) :
    pending (ks.map (markStale ids)) id = pending ks id := by
  induction ks with
  | nil => rfl
  | cons k ks ih =>
    have hstale : id ∈ (k.markStale ids).stale ↔ id ∈ k.stale := by
      rw [mem_stale_markStale]
      exact or_iff_right h
    simp only [List.map_cons, pending_cons, ih, hstale]
    rfl

end Mark

open Mark

structure Tally (ks : List Mark) (id : ReqId) (placeholders : Int) (discard : Bool) : Prop where
  pending : placeholders = pending ks id
  fresh : discard = false → ∀ k ∈ yielding ks id, id ∉ k.stale
  stale : discard = true → ∃ k rest, yielding ks id = k :: rest ∧ id ∈ k.stale ∧
    ∀ x ∈ rest, id ∉ x.stale

namespace Tally

variable {k : Mark} {ks : List Mark} {id : ReqId} {n : Int} {discard : Bool}

theorem idle_iff (h : k.expected id = 0) : Tally (k :: ks) id n discard ↔ Tally ks id n discard := by
  have hy : yielding (k :: ks) id = yielding ks id := yielding_cons_of_eq h
  have hp : Mark.pending (k :: ks) id = Mark.pending ks id := by simp [h]
  constructor
  · rintro ⟨hn, hfresh, hstale⟩
    rw [hy] at hfresh hstale
    rw [hp] at hn
    exact ⟨hn, hfresh, hstale⟩
  · rintro ⟨hn, hfresh, hstale⟩
    rw [← hy] at hfresh hstale
    rw [← hp] at hn
    exact ⟨hn, hfresh, hstale⟩

theorem drop (h : Tally (k :: ks) id n true) (hk : k.expected id ≠ 0) :
    id ∈ k.stale ∧ Tally ks id n false := by
  obtain ⟨k', rest, heq, hstale, hfresh⟩ := h.stale rfl
  rw [yielding_cons_of_ne hk, List.cons.injEq] at heq
  obtain ⟨rfl, rfl⟩ := heq
  have hn := h.pending
  rw [pending_cons, if_pos hstale, Nat.zero_add] at hn
  refine ⟨hstale, hn, fun _ => hfresh, fun hd => ?_⟩
  cases hd

theorem report (h : Tally (k :: ks) id n false) (hk : k.expected id ≠ 0) :
    id ∉ k.stale ∧ Tally ks id (n - k.expected id) false := by
  have hy := h.fresh rfl
  rw [yielding_cons_of_ne hk] at hy
  have hstale := hy k List.mem_cons_self
  have hn := h.pending
  rw [pending_cons, if_neg hstale] at hn
  refine ⟨hstale, ?_, fun _ x hx => hy x (List.mem_cons_of_mem k hx), fun hd => ?_⟩
  · rw [hn]
    push_cast
    omega
  · cases hd

theorem schedule (h : Tally ks id n discard) (hk : id ∉ k.stale) :
    Tally (ks ++ [k]) id (n + k.expected id) discard := by
  have hlast : ∀ x ∈ yielding [k] id, id ∉ x.stale := by
    intro x hx
    have hxk : x = k := List.mem_singleton.mp (List.mem_of_mem_filter hx)
    rw [hxk]
    exact hk
  refine ⟨?_, fun hd x hx => ?_, fun hd => ?_⟩
  · rw [h.pending, pending_append, pending_cons, if_neg hk]
    push_cast [Mark.pending]
    simp
  · rw [yielding_append, List.mem_append] at hx
    rcases hx with hx | hx
    · exact h.fresh hd x hx
    · exact hlast x hx
  · obtain ⟨k', rest, heq, hstale, hfresh⟩ := h.stale hd
    refine ⟨k', rest ++ yielding [k] id, ?_, hstale, fun x hx => ?_⟩
    · rw [yielding_append, heq, List.cons_append]
    · rcases List.mem_append.mp hx with hx | hx
      · exact hfresh x hx
      · exact hlast x hx

theorem reset {ids : List ReqId} (hid : id ∈ ids) (h : (yielding ks id).length = 1) :
    Tally (ks.map (markStale ids)) id 0 true := by
  obtain ⟨k, hk⟩ := List.length_eq_one_iff.mp h
  refine ⟨by rw [pending_markStale_of_mem hid]; rfl, fun hd => ?_, fun _ => ?_⟩
  · cases hd
  · refine ⟨k.markStale ids, [], ?_, mem_stale_markStale.mpr (.inl hid), fun x hx => ?_⟩
    · rw [yielding_markStale, hk]
      rfl
    · cases hx

theorem others {ids : List ReqId} (h : Tally ks id n discard) (hid : id ∉ ids) :
    Tally (ks.map (markStale ids)) id n discard := by
  have hstale : ∀ k : Mark, id ∉ k.stale → id ∉ (k.markStale ids).stale := by
    intro k hk hmem
    rcases mem_stale_markStale.mp hmem with hmem | hmem
    · exact hid hmem
    · exact hk hmem
  refine ⟨by rw [pending_markStale_of_not_mem hid]; exact h.pending, fun hd x hx => ?_, fun hd => ?_⟩
  · rw [yielding_markStale] at hx
    obtain ⟨k, hk, rfl⟩ := List.mem_map.mp hx
    exact hstale k (h.fresh hd k hk)
  · obtain ⟨k, rest, heq, hk, hfresh⟩ := h.stale hd
    refine ⟨k.markStale ids, rest.map (markStale ids), ?_, mem_stale_markStale.mpr (.inr hk), ?_⟩
    · rw [yielding_markStale, heq, List.map_cons]
    · intro x hx
      obtain ⟨y, hy, rfl⟩ := List.mem_map.mp hx
      exact hstale y (hfresh y hy)

theorem new (h : ∀ k ∈ ks, k.expected id = 0) : Tally ks id 0 false := by
  have hy : yielding ks id = [] := List.filter_eq_nil_iff.mpr fun k hk => by simp [h k hk]
  have hp : Mark.pending ks id = 0 := by
    induction ks with
    | nil => rfl
    | cons k ks ih =>
      have hks := ih (fun k hk => h k (List.mem_cons_of_mem _ hk))
        (List.filter_eq_nil_iff.mpr fun k hk => by simp [h k (List.mem_cons_of_mem _ hk)])
      simp [hks, h k List.mem_cons_self]
  refine ⟨by rw [hp]; rfl, fun _ x hx => ?_, fun hd => ?_⟩
  · rw [hy] at hx
    cases hx
  · cases hd

end Tally

end Vllm
