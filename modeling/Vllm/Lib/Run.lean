import Vllm.Lib.Result

/-! Runs of a step function that may fail; a run ends where a step fails. -/

universe u v

namespace Vllm

variable {S : Type u} {O : Type v}

def runSteps (step : S → O → Result S) : S → List O → Result S
  | s, [] => .ok s
  | s, o :: os => step s o >>= fun s' => runSteps step s' os

/-- Every step is taken from a state where `G` allows it. -/
def Guarded (step : S → O → Result S) (G : S → O → Prop) : S → List O → Prop
  | _, [] => True
  | s, o :: os => G s o ∧ ∀ s', step s o = .ok s' → Guarded step G s' os

/-- `P` holds in every state of the run. -/
def Throughout (step : S → O → Result S) (P : S → Prop) : S → List O → Prop
  | s, [] => P s
  | s, o :: os => P s ∧ ∀ s', step s o = .ok s' → Throughout step P s' os

variable {step : S → O → Result S} {G : S → O → Prop} {Inv P : S → Prop}

instance Guarded.decidable [∀ s o, Decidable (G s o)] :
    ∀ s os, Decidable (Guarded step G s os)
  | _, [] => isTrue trivial
  | s, o :: os =>
    match h : step s o with
    | .ok s' =>
      have := Guarded.decidable s' os
      decidable_of_iff (G s o ∧ Guarded step G s' os) (by simp [Guarded, h])
    | .error e => decidable_of_iff (G s o) (by simp [Guarded, h])

theorem throughout_of_inv (hstep : ∀ s o s', Inv s → G s o → step s o = .ok s' → Inv s')
    (hP : ∀ s, Inv s → P s) {s : S} (hs : Inv s) {os : List O} (hG : Guarded step G s os) :
    Throughout step P s os := by
  induction os generalizing s with
  | nil => exact hP s hs
  | cons o os ih => exact ⟨hP s hs, fun s' hs' => ih (hstep s o s' hs hG.1 hs') (hG.2 s' hs')⟩

theorem Throughout.head {s : S} {os : List O} (h : Throughout step P s os) : P s := by
  cases os with
  | nil => exact h
  | cons o os => exact h.1

theorem throughout_iff_guarded {K : S → O → Prop}
    (hstep : ∀ s o s', Inv s → G s o → step s o = .ok s' → Inv s' ∧ (P s → (P s' ↔ K s o)))
    {s : S} (hs : Inv s) (hP : P s) {os : List O} (hG : Guarded step G s os) :
    Throughout step P s os ↔
      Guarded step (fun s o => ∀ s', step s o = .ok s' → K s o) s os := by
  induction os generalizing s with
  | nil => exact iff_of_true hP trivial
  | cons o os ih =>
    have hrest : ∀ s', step s o = .ok s' → P s' → (Throughout step P s' os ↔
        Guarded step (fun s o => ∀ s', step s o = .ok s' → K s o) s' os) :=
      fun s' hs' hP' => ih (hstep s o s' hs hG.1 hs').1 hP' (hG.2 s' hs')
    constructor
    · rintro ⟨-, h⟩
      refine ⟨fun s' hs' => ((hstep s o s' hs hG.1 hs').2 hP).mp (h s' hs').head, ?_⟩
      intro s' hs'
      exact (hrest s' hs' (h s' hs').head).mp (h s' hs')
    · rintro ⟨hK, h⟩
      refine ⟨hP, fun s' hs' => ?_⟩
      have hP' := ((hstep s o s' hs hG.1 hs').2 hP).mpr (hK s' hs')
      exact (hrest s' hs' hP').mpr (h s' hs')

theorem guarded_true (s : S) (os : List O) : Guarded step (fun _ _ => True) s os := by
  induction os generalizing s with
  | nil => trivial
  | cons o os ih => exact ⟨trivial, fun s' _ => ih s'⟩

theorem throughout_iff_of_total {K : S → O → Prop}
    (hstep : ∀ s o, Inv s → ∃ s', step s o = .ok s' ∧ Inv s' ∧ (P s → (P s' ↔ K s o)))
    {s : S} (hs : Inv s) (hP : P s) (os : List O) :
    Throughout step P s os ↔ Guarded step K s os := by
  have htotal : ∀ s o s', Inv s → True → step s o = .ok s' → Inv s' ∧ (P s → (P s' ↔ K s o)) := by
    intro s o s' hs _ hok
    obtain ⟨s'', hok', hs'', hiff⟩ := hstep s o hs
    cases hok.symm.trans hok'
    exact ⟨hs'', hiff⟩
  rw [throughout_iff_guarded htotal hs hP (guarded_true s os)]
  clear hP
  induction os generalizing s with
  | nil => exact Iff.rfl
  | cons o os ih =>
    obtain ⟨s', hok, hs', -⟩ := hstep s o hs
    constructor
    · rintro ⟨hK, hrest⟩
      refine ⟨hK s' hok, fun t ht => ?_⟩
      cases hok.symm.trans ht
      exact (ih hs').1 (hrest s' hok)
    · rintro ⟨hK, hrest⟩
      refine ⟨fun _ _ => hK, fun t ht => ?_⟩
      cases hok.symm.trans ht
      exact (ih hs').2 (hrest s' hok)

theorem throughout_and_guarded_iff {Q K : S → O → Prop}
    (hstep : ∀ s o, P s → ∃ s', step s o = .ok s' ∧ (P s' ∧ Q s o ↔ K s o)) {s : S} (hP : P s) (os : List O) :
    Throughout step P s os ∧ Guarded step Q s os ↔ Guarded step K s os := by
  induction os generalizing s with
  | nil => exact iff_of_true ⟨hP, trivial⟩ trivial
  | cons o os ih =>
    obtain ⟨s', hok, hiff⟩ := hstep s o hP
    constructor
    · rintro ⟨⟨-, hthrough⟩, hQ, hguarded⟩
      have hP' := (hthrough s' hok).head
      refine ⟨hiff.mp ⟨hP', hQ⟩, fun t ht => ?_⟩
      cases hok.symm.trans ht
      exact (ih hP').mp ⟨hthrough s' hok, hguarded s' hok⟩
    · rintro ⟨hK, hrest⟩
      obtain ⟨hP', hQ⟩ := hiff.mpr hK
      obtain ⟨hthrough, hguarded⟩ := (ih hP').mpr (hrest s' hok)
      refine ⟨⟨hP, fun t ht => ?_⟩, hQ, fun t ht => ?_⟩ <;> cases hok.symm.trans ht <;> assumption

theorem run_ok_of_inv (hstep : ∀ s o, Inv s → G s o → ∃ s', step s o = .ok s' ∧ Inv s')
    {s : S} (hs : Inv s) {os : List O} (hG : Guarded step G s os) :
    ∃ s', runSteps step s os = .ok s' ∧ Inv s' := by
  induction os generalizing s with
  | nil => exact ⟨s, rfl, hs⟩
  | cons o os ih =>
    obtain ⟨s', hok, hs'⟩ := hstep s o hs hG.1
    obtain ⟨t, hrun, ht⟩ := ih hs' (hG.2 s' hok)
    refine ⟨t, ?_, ht⟩
    rw [runSteps, hok]
    exact hrun

theorem Guarded.last {s s' : S} {os : List O} {o : O} (h : Guarded step G s (os ++ [o]))
    (hrun : runSteps step s os = .ok s') : G s' o := by
  induction os generalizing s with
  | nil =>
    cases hrun
    exact h.1
  | cons o' os ih =>
    rw [runSteps, Result.bind_eq_ok] at hrun
    obtain ⟨t, ht, hrun⟩ := hrun
    exact ih (h.2 t ht) hrun

theorem guarded_of_inv {K : S → O → Prop}
    (hstep : ∀ s o s', Inv s → G s o → step s o = .ok s' → Inv s') (hK : ∀ s o, Inv s → G s o → K s o)
    {s : S} (hs : Inv s) {os : List O} (hG : Guarded step G s os) : Guarded step K s os := by
  induction os generalizing s with
  | nil => trivial
  | cons o os ih => exact ⟨hK s o hs hG.1, fun s' hs' => ih (hstep s o s' hs hG.1 hs') (hG.2 s' hs')⟩

theorem Guarded.mono {G' : S → O → Prop} {s : S} {os : List O} (h : Guarded step G s os)
    (hG : ∀ s o, G s o → G' s o) : Guarded step G' s os := by
  induction os generalizing s with
  | nil => trivial
  | cons o os ih => exact ⟨hG s o h.1, fun s' hs' => ih (h.2 s' hs')⟩

theorem Guarded.and {H : S → O → Prop} {s : S} {os : List O} (h : Guarded step G s os)
    (h' : Guarded step H s os) : Guarded step (fun s o => G s o ∧ H s o) s os := by
  induction os generalizing s with
  | nil => trivial
  | cons o os ih => exact ⟨⟨h.1, h'.1⟩, fun s' hs' => ih (h.2 s' hs') (h'.2 s' hs')⟩

theorem Guarded.and_mem {H : O → Prop} {s : S} {os : List O} (h : Guarded step G s os)
    (hH : ∀ o ∈ os, H o) : Guarded step (fun s o => H o ∧ G s o) s os := by
  induction os generalizing s with
  | nil => trivial
  | cons o os ih =>
    exact ⟨⟨hH o List.mem_cons_self, h.1⟩,
      fun s' hs' => ih (h.2 s' hs') fun o' ho' => hH o' (List.mem_cons_of_mem o ho')⟩

theorem Throughout.of_append {s : S} {os os' : List O} (h : Throughout step P s (os ++ os')) :
    Throughout step P s os := by
  induction os generalizing s with
  | nil =>
    cases os' with
    | nil => exact h
    | cons o os' => exact h.1
  | cons o os ih => exact ⟨h.1, fun s' hs' => ih (h.2 s' hs')⟩

theorem Throughout.last {s s' : S} {os : List O} (h : Throughout step P s os)
    (hrun : runSteps step s os = .ok s') : P s' := by
  induction os generalizing s with
  | nil =>
    cases hrun
    exact h
  | cons o os ih =>
    rw [runSteps, Result.bind_eq_ok] at hrun
    obtain ⟨t, ht, hrun⟩ := hrun
    exact ih (h.2 t ht) hrun

end Vllm
