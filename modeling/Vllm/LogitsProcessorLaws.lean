import Vllm.BatchReplay

namespace Vllm.Worker

open BatchReplay

variable {F F32 T V : Type}

namespace BatchReplay

variable {z : V}

theorem removed_const (is : List Nat) : removed z (fun _ => z) is = fun _ => z := by
  funext j
  rw [removed_apply, ite_self]

theorem moved_const (ms : List MovedRequest) : moved z (fun _ => z) ms = fun _ => z := by
  induction ms with
  | nil => rfl
  | cons m ms ih =>
    have hmove : move z (fun _ => z) m = fun _ => z := by
      obtain ⟨a, b, d⟩ := m
      cases d with
      | unidirectional => simp [move]
      | swap => rfl
    show moved z (move z (fun _ => z) m) ms = _
    rw [hmove, ih]

end BatchReplay

section Dict

variable {newState : NewState F T}

theorem get?_dictAdded (entries : Dict Nat T) (a : AddedRequest F) :
    (dictAdded newState entries a).get? =
      Function.update entries.get? a.index (newState a.params a.promptTokIds a.outputTokIds) := by
  funext j
  unfold dictAdded
  rw [Function.update_apply]
  split
  · rename_i state hstate
    rw [Dict.get?_set, hstate]
    simp only [eq_comm]
  · rename_i hstate
    rw [Dict.get?_erase, hstate]
    simp only [eq_comm]

theorem get?_foldl_dictAdded (as : List (AddedRequest F)) (entries : Dict Nat T) :
    (as.foldl (dictAdded newState) entries).get? = added newState entries.get? as := by
  induction as generalizing entries with
  | nil => rfl
  | cons a as ih =>
    rw [List.foldl_cons, ih, get?_dictAdded]
    rfl

theorem get?_foldl_erase (is : List Nat) (entries : Dict Nat T) :
    (is.foldl Dict.erase entries).get? = removed none entries.get? is := by
  induction is generalizing entries with
  | nil => rfl
  | cons i is ih =>
    have herase : (entries.erase i).get? = Function.update entries.get? i none := by
      funext j
      rw [Dict.get?_erase, Function.update_apply]
      simp only [eq_comm]
    rw [List.foldl_cons, ih, herase]
    rfl

theorem get?_dictMoved (entries : Dict Nat T) {m : MovedRequest}
    (hm : m.2.2 = .unidirectional → m.1 ≠ m.2.1) :
    (dictMoved entries m).get? = move none entries.get? m := by
  obtain ⟨a, b, d⟩ := m
  funext j
  cases d with
  | unidirectional =>
    have hne : a ≠ b := hm rfl
    simp only [dictMoved, move, Function.update_apply, eq_comm (a := j)]
    by_cases hja : a = j
    · subst hja
      cases entries.get? a <;> simp [Ne.symm hne]
    · cases entries.get? a <;> by_cases hjb : b = j <;> simp [hja, hjb]
  | swap =>
    simp only [dictMoved, move, Function.comp_apply, Equiv.swap_apply_def, eq_comm (a := j)]
    by_cases hab : a = b
    · subst hab
      cases ha : entries.get? a <;> by_cases hja : a = j <;> simp_all
    · cases ha : entries.get? a <;> cases hb : entries.get? b <;> by_cases hja : a = j <;>
        by_cases hjb : b = j <;> simp_all

theorem get?_processDictUpdates (entries : Dict Nat T) (u : BatchUpdate F) (hu : OneWay u.moved) :
    (processDictUpdates newState entries (some u)).get? =
      replay none newState entries.get? u.added u.removed u.moved := by
  have hmoved : ∀ (ms : List MovedRequest) (entries : Dict Nat T), OneWay ms →
      (ms.foldl dictMoved entries).get? = moved none entries.get? ms := by
    intro ms
    induction ms with
    | nil => exact fun _ _ => rfl
    | cons m ms ih =>
      intro entries hms
      rw [List.foldl_cons, ih _ fun m' hm' => hms m' (List.mem_cons_of_mem m hm'),
        get?_dictMoved entries (hms m List.mem_cons_self)]
      rfl
  unfold processDictUpdates replay
  have hadded := @get?_foldl_dictAdded _ _ newState u.added entries
  simp only
  split
  · rename_i hsize
    -- with no entry left there is nothing to remove or to move
    have hnone : added newState entries.get? u.added = fun _ => none := by
      rw [← hadded]
      funext j
      rw [Dict.get?_eq_none, Dict.keys, List.length_eq_zero_iff.mp hsize]
      simp
    rw [hadded, hnone, removed_const, moved_const]
  · rw [hmoved _ _ hu, get?_foldl_erase, hadded]

end Dict

def Counts [Zero V] (f : Nat → V) (n : Int) : Prop :=
  ∃ s : Finset Nat, (∀ i, i ∈ s ↔ f i ≠ 0) ∧ n = s.card

namespace Counts

variable [Zero V] {f : Nat → V} {n : Int}

theorem zero : Counts (fun _ => (0 : V)) 0 := ⟨∅, by simp, by simp⟩

theorem eq_zero (h : Counts f 0) : f = fun _ => 0 := by
  obtain ⟨s, hs, hcard⟩ := h
  have hempty : s = ∅ := by
    rw [← Finset.card_eq_zero]
    exact_mod_cast hcard.symm
  funext i
  have := hs i
  rw [hempty] at this
  simpa using this

theorem card_eq (h : Counts f n) {s : Finset Nat} (hs : ∀ i, i ∈ s ↔ f i ≠ 0) : n = s.card := by
  obtain ⟨t, ht, hcard⟩ := h
  have hst : t = s := by
    ext i
    rw [ht, hs]
  rw [hcard, hst]

variable [DecidableEq V]

theorem update (h : Counts f n) (i : Nat) (v : V) :
    Counts (Function.update f i v)
      (n + (if v = 0 then 0 else 1) - (if f i = 0 then 0 else 1)) := by
  obtain ⟨s, hs, hcard⟩ := h
  have hmem : ∀ v j, Function.update f i v j ≠ 0 ↔ (j = i ∧ v ≠ 0) ∨ (j ≠ i ∧ f j ≠ 0) := by
    intro v j
    rw [Function.update_apply]
    by_cases hj : j = i <;> simp [hj]
  by_cases hv : v = 0
  · refine ⟨s.erase i, fun j => ?_, ?_⟩
    · rw [Finset.mem_erase, hs, hmem]
      simp [hv]
    · by_cases hf : f i = 0
      · have hi : i ∉ s := fun h => (hs i).mp h hf
        simp [hv, hf, hcard, Finset.erase_eq_of_notMem hi]
      · have hi := (hs i).mpr hf
        have := Finset.card_erase_add_one hi
        simp only [hv, hf, if_true, if_false]
        omega
  · refine ⟨insert i s, fun j => ?_, ?_⟩
    · rw [Finset.mem_insert, hs, hmem]
      by_cases hj : j = i <;> simp [hj, hv]
    · by_cases hf : f i = 0
      · have hi : i ∉ s := fun h => (hs i).mp h hf
        simp [hv, hf, hcard, Finset.card_insert_of_notMem hi]
      · have hi := (hs i).mpr hf
        simp [hv, hf, hcard, Finset.insert_eq_of_mem hi]

omit [DecidableEq V] in
theorem swap (h : Counts f n) (a b : Nat) : Counts (f ∘ Equiv.swap a b) n := by
  obtain ⟨s, hs, hcard⟩ := h
  refine ⟨s.map (Equiv.swap a b).toEmbedding, fun i => ?_, by rw [Finset.card_map, hcard]⟩
  rw [Finset.mem_map_equiv, Equiv.symm_swap, hs]
  rfl

end Counts

namespace MinPLogitsProcessor

variable [Zero F] [DecidableEq F] [Zero F32] [DecidableEq F32] {toFloat32 : F → F32}
variable {p : MinPLogitsProcessor F32}

/-- A `min_p` that is not zero does not become zero when it is stored. -/
def Exact (toFloat32 : F → F32) (params : SamplingParams F) : Prop :=
  params.minP = 0 ∨ toFloat32 params.minP ≠ 0

theorem processAdded_spec (h0 : toFloat32 0 = 0) (h : Counts p.minPCpu p.minPCount)
    {a : AddedRequest F} (ha : Exact toFloat32 a.params) :
    (processAdded toFloat32 p a).minPCpu =
        Function.update p.minPCpu a.index (toFloat32 a.params.minP) ∧
      Counts (processAdded toFloat32 p a).minPCpu (processAdded toFloat32 p a).minPCount := by
  have hzero : a.params.minP = 0 ↔ toFloat32 a.params.minP = 0 := by
    refine ⟨fun h => by rw [h, h0], fun h => ?_⟩
    exact ha.resolve_right fun hne => hne h
  have hcount := h.update a.index (toFloat32 a.params.minP)
  unfold processAdded
  simp only
  split
  · rename_i hne
    refine ⟨rfl, ?_⟩
    by_cases hv : a.params.minP = 0
    · have hbefore : p.minPCpu a.index ≠ 0 := fun hb => hne (by rw [hb, hv, h0])
      simpa [hv, h0, hbefore] using hcount
    · have hv' : toFloat32 a.params.minP ≠ 0 := fun h => hv (hzero.mpr h)
      by_cases hb : p.minPCpu a.index = 0
      · simpa [hv, hv', hb] using hcount
      · simpa [hv, hv', hb] using hcount
  · rename_i heq
    have heq := not_not.mp heq
    rw [← heq, Function.update_eq_self]
    exact ⟨rfl, h⟩

theorem processRemoved_spec (h : Counts p.minPCpu p.minPCount) (i : Nat) :
    (processRemoved p i).minPCpu = Function.update p.minPCpu i 0 ∧
      Counts (processRemoved p i).minPCpu (processRemoved p i).minPCount := by
  have hcount := h.update i 0
  unfold processRemoved
  split
  · rename_i hne
    refine ⟨rfl, ?_⟩
    simpa [hne] using hcount
  · rename_i heq
    have heq := not_not.mp heq
    refine ⟨?_, h⟩
    rw [← heq, Function.update_eq_self]

theorem processMoved_spec (h : Counts p.minPCpu p.minPCount) {m : MovedRequest}
    (hm : m.2.2 = .unidirectional → m.1 ≠ m.2.1) :
    (processMoved p m).minPCpu = move 0 p.minPCpu m ∧
      Counts (processMoved p m).minPCpu (processMoved p m).minPCount := by
  obtain ⟨a, b, d⟩ := m
  cases d with
  | unidirectional =>
    have hne : a ≠ b := hm rfl
    have hcpu : (processMoved p (a, b, .unidirectional)).minPCpu =
        move 0 p.minPCpu (a, b, .unidirectional) := by
      funext j
      simp only [processMoved, move]
      by_cases hab : p.minPCpu a = p.minPCpu b <;> by_cases ha : p.minPCpu a = 0 <;>
        by_cases hja : j = a <;> by_cases hjb : j = b <;>
        simp_all
    refine ⟨hcpu, ?_⟩
    have hcount := (h.update b (p.minPCpu a)).update a 0
    rw [hcpu]
    rw [Function.update_of_ne hne] at hcount
    have hsub : (processMoved p (a, b, .unidirectional)).minPCount =
        p.minPCount - if p.minPCpu b = 0 then 0 else 1 := by
      by_cases hb : p.minPCpu b = 0 <;> simp [processMoved, hb]
    have hnum : p.minPCount - (if p.minPCpu b = 0 then 0 else 1) =
        p.minPCount + (if p.minPCpu a = 0 then 0 else 1) - (if p.minPCpu b = 0 then 0 else 1) +
          (if (0 : F32) = 0 then 0 else 1) - (if p.minPCpu a = 0 then 0 else 1) := by
      rw [if_pos (rfl : (0 : F32) = 0)]
      omega
    rw [hsub, hnum]
    exact hcount
  | swap =>
    have hcpu : (processMoved p (a, b, .swap)).minPCpu = move 0 p.minPCpu (a, b, .swap) := by
      funext j
      simp only [processMoved, move, Function.comp_apply, Equiv.swap_apply_def]
      by_cases hab : p.minPCpu a = p.minPCpu b <;> by_cases hja : j = a <;>
        by_cases hjb : j = b <;> simp_all
    refine ⟨hcpu, ?_⟩
    rw [hcpu]
    exact h.swap a b

omit [Zero F] [DecidableEq F] [DecidableEq F32] in
theorem foldl_spec {A : Type} {f : MinPLogitsProcessor F32 → A → MinPLogitsProcessor F32}
    {g : (Nat → F32) → A → Nat → F32} {C : A → Prop}
    (hf : ∀ p a, Counts p.minPCpu p.minPCount → C a →
      (f p a).minPCpu = g p.minPCpu a ∧ Counts (f p a).minPCpu (f p a).minPCount)
    (h : Counts p.minPCpu p.minPCount) {l : List A} (hl : ∀ a ∈ l, C a) :
    (l.foldl f p).minPCpu = l.foldl g p.minPCpu ∧
      Counts (l.foldl f p).minPCpu (l.foldl f p).minPCount := by
  induction l generalizing p with
  | nil => exact ⟨rfl, h⟩
  | cons a l ih =>
    obtain ⟨hcpu, hcount⟩ := hf p a h (hl a List.mem_cons_self)
    obtain ⟨hcpu', hcount'⟩ := ih hcount fun a' ha' => hl a' (List.mem_cons_of_mem a ha')
    rw [hcpu] at hcpu'
    exact ⟨hcpu', hcount'⟩

theorem updateState_spec (h0 : toFloat32 0 = 0) (h : Counts p.minPCpu p.minPCount)
    (u : BatchUpdate F) (hu : OneWay u.moved) (hadded : ∀ a ∈ u.added, Exact toFloat32 a.params) :
    (p.updateState toFloat32 (some u)).minPCpu =
        replay 0 (fun params _ _ => toFloat32 params.minP) p.minPCpu u.added u.removed u.moved ∧
      Counts (p.updateState toFloat32 (some u)).minPCpu
        (p.updateState toFloat32 (some u)).minPCount := by
  obtain ⟨hcpu₁, h₁⟩ := foldl_spec (f := processAdded toFloat32)
    (g := fun f a => Function.update f a.index (toFloat32 a.params.minP))
    (fun p a h ha => processAdded_spec h0 h ha) h hadded
  simp only [updateState, replay]
  generalize u.added.foldl (processAdded toFloat32) p = p₁ at hcpu₁ h₁
  have hcpu₁ : p₁.minPCpu = added (fun params _ _ => toFloat32 params.minP) p.minPCpu u.added :=
    hcpu₁
  split
  · obtain ⟨hcpu₂, h₂⟩ := foldl_spec (f := processRemoved)
      (g := fun f i => Function.update f i 0) (C := fun _ => True) (l := u.removed)
      (fun p i h _ => processRemoved_spec h i) h₁ (fun _ _ => trivial)
    obtain ⟨hcpu₃, h₃⟩ := foldl_spec (f := processMoved) (g := move 0)
      (fun p m h hm => processMoved_spec h hm) h₂ hu
    refine ⟨?_, h₃⟩
    rw [hcpu₃, hcpu₂, hcpu₁]
    rfl
  · rename_i hzero
    -- with no entry left there is nothing to remove or to move
    rw [not_not.mp hzero] at h₁
    have hnone := h₁.eq_zero
    refine ⟨?_, by rw [not_not.mp hzero]; exact h₁⟩
    rw [← hcpu₁, hnone, removed_const, moved_const]

end MinPLogitsProcessor

end Vllm.Worker
