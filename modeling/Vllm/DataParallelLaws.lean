import Vllm.DataParallel

namespace Vllm.DataParallel.System

variable {E F ReqId : Type}

section Views

variable {W N : Nat} {s s' : System E F ReqId} {e : E}

def Started (W : Nat) (s : System E F ReqId) : Prop :=
  s.coordinator.currentWave = W ∧ s.coordinator.enginesRunning = true

def Up (s : System E F ReqId) (e : E) : Prop :=
  (s.engines e).enginesRunning = true ∨ (s.engines e).unfinished.Nonempty ∨ ∃ f r w, .add r w ∈ s.inputs f e

def Wakes (W : Nat) (s : System E F ReqId) : Prop :=
  Started W s ∨ (∃ e, .startWave W ∈ s.outputs e) ∨ (∃ f e, (e, W) ∈ s.firstReqs f) ∨
    ∃ f, (s.frontEnds f).currentWave = W ∧ (s.frontEnds f).firstReqs ≠ []

/-- The engine is told, or need not be. -/
def Covered (W : Nat) (s : System E F ReqId) (e : E) : Prop := Up s e ∨ ∃ x, (W, x) ∈ s.startWaves e ∧ x ≠ some e

structure EngineOk (W N : Nat) (s : System E F ReqId) (engine : EngineCore ReqId) : Prop where
  wave : engine.currentWave = W
  counter : engine.stepCounter = N
  running : 0 < N → engine.enginesRunning = true
  started : engine.enginesRunning = true → N = 0 → Started W s
  wakes : engine.enginesRunning = false → engine.unfinished.Nonempty → Wakes W s

structure FrontEndOk (W N : Nat) (s : System E F ReqId) (frontEnd : FrontEnd E) : Prop where
  wave : frontEnd.currentWave ≤ s.coordinator.currentWave
  wakes : frontEnd.currentWave = W → frontEnd.enginesRunning = true → N = 0 → Wakes W s
  up : frontEnd.currentWave = W → N = 0 → ∀ e ∈ frontEnd.firstReqs, Up s e

def InputOk (W N : Nat) (s : System E F ReqId) (m : ClientRequest ReqId) : Prop :=
  ∀ r w, m = .add r w → w ≤ s.coordinator.currentWave ∧ (w = W → N = 0 → Wakes W s)

def StartOk (W : Nat) (s : System E F ReqId) (m : Nat × Option E) : Prop :=
  m.1 ≤ s.coordinator.currentWave ∧ (m.1 = W → Started W s)

def OutputOk (W N : Nat) (s : System E F ReqId) (e : E) (m : EngineOutput) : Prop :=
  (∀ w, m = .startWave w → w ≤ W ∧ (w = W → N = 0 → Up s e)) ∧ ∀ w, m = .waveComplete w → w < W

def FirstReqOk (W N : Nat) (s : System E F ReqId) (m : E × Nat) : Prop :=
  m.2 ≤ s.coordinator.currentWave ∧ (m.2 = W → N = 0 → Up s m.1)

def UpdateOk (W : Nat) (s : System E F ReqId) (m : Nat × Bool) : Prop :=
  m.1 ≤ s.coordinator.currentWave ∧ (m.1 = W → m.2 = true → Started W s)

structure Later (W : Nat) (s s' : System E F ReqId) : Prop where
  coordinator : s.coordinator.currentWave ≤ s'.coordinator.currentWave
  started : Started W s → Started W s'
  up : ∀ e, Up s e → Up s' e
  wakes : Wakes W s → Wakes W s'

theorem EngineOk.later {engine : EngineCore ReqId} (h : EngineOk W N s engine) (hl : Later W s s') :
    EngineOk W N s' engine :=
  ⟨h.wave, h.counter, h.running, fun hr hN => hl.started (h.started hr hN), fun hr hu => hl.wakes (h.wakes hr hu)⟩

theorem FrontEndOk.later {frontEnd : FrontEnd E} (h : FrontEndOk W N s frontEnd) (hl : Later W s s') :
    FrontEndOk W N s' frontEnd :=
  ⟨h.wave.trans hl.coordinator, fun hw hr hN => hl.wakes (h.wakes hw hr hN), fun hw hN e he => hl.up e (h.up hw hN e he)⟩

theorem InputOk.later {m : ClientRequest ReqId} (h : InputOk W N s m) (hl : Later W s s') : InputOk W N s' m :=
  fun r w hm => ⟨(h r w hm).1.trans hl.coordinator, fun hw hN => hl.wakes ((h r w hm).2 hw hN)⟩

theorem StartOk.later {m : Nat × Option E} (h : StartOk W s m) (hl : Later W s s') : StartOk W s' m :=
  ⟨h.1.trans hl.coordinator, fun hw => hl.started (h.2 hw)⟩

theorem OutputOk.later {m : EngineOutput} (h : OutputOk W N s e m) (hl : Later W s s') : OutputOk W N s' e m :=
  ⟨fun w hm => ⟨(h.1 w hm).1, fun hw hN => hl.up e ((h.1 w hm).2 hw hN)⟩, h.2⟩

theorem FirstReqOk.later {m : E × Nat} (h : FirstReqOk W N s m) (hl : Later W s s') : FirstReqOk W N s' m :=
  ⟨h.1.trans hl.coordinator, fun hw hN => hl.up m.1 (h.2 hw hN)⟩

theorem UpdateOk.later {m : Nat × Bool} (h : UpdateOk W s m) (hl : Later W s s') : UpdateOk W s' m :=
  ⟨h.1.trans hl.coordinator, fun hw hr => hl.started (h.2 hw hr)⟩

structure InvAt (rank0 : E) (W N : Nat) (s : System E F ReqId) : Prop where
  le : s.coordinator.currentWave ≤ W
  lag : s.coordinator.currentWave < W → ∃ w, w + 1 = W ∧ .waveComplete w ∈ s.outputs rank0
  covered : N = 0 → Started W s → ∀ e, Covered W s e
  engine : ∀ e, EngineOk W N s (s.engines e)
  frontEnd : ∀ f, FrontEndOk W N s (s.frontEnds f)
  input : ∀ f e, ∀ m ∈ s.inputs f e, InputOk W N s m
  startWave : ∀ e, ∀ m ∈ s.startWaves e, StartOk W s m
  output : ∀ e, ∀ m ∈ s.outputs e, OutputOk W N s e m
  firstReq : ∀ f, ∀ m ∈ s.firstReqs f, FirstReqOk W N s m
  update : ∀ f, ∀ m ∈ s.updates f, UpdateOk W s m

theorem InvAt.later {rank0 : E} (h : InvAt rank0 W N s) (hl : Later W s s') (hle : s'.coordinator.currentWave ≤ W)
    (hlag : s'.coordinator.currentWave < W → ∃ w, w + 1 = W ∧ .waveComplete w ∈ s'.outputs rank0)
    (hcovered : N = 0 → Started W s' → ∀ e, Covered W s' e)
    (hengine : ∀ e, s'.engines e = s.engines e ∨ EngineOk W N s' (s'.engines e))
    (hfrontEnd : ∀ f, s'.frontEnds f = s.frontEnds f ∨ FrontEndOk W N s' (s'.frontEnds f))
    (hinput : ∀ f e, ∀ m ∈ s'.inputs f e, m ∈ s.inputs f e ∨ InputOk W N s' m)
    (hstartWave : ∀ e, ∀ m ∈ s'.startWaves e, m ∈ s.startWaves e ∨ StartOk W s' m)
    (houtput : ∀ e, ∀ m ∈ s'.outputs e, m ∈ s.outputs e ∨ OutputOk W N s' e m)
    (hfirstReq : ∀ f, ∀ m ∈ s'.firstReqs f, m ∈ s.firstReqs f ∨ FirstReqOk W N s' m)
    (hupdate : ∀ f, ∀ m ∈ s'.updates f, m ∈ s.updates f ∨ UpdateOk W s' m) : InvAt rank0 W N s' where
  le := hle
  lag := hlag
  covered := hcovered
  engine e := (hengine e).elim (fun heq => heq ▸ (h.engine e).later hl) id
  frontEnd f := (hfrontEnd f).elim (fun heq => heq ▸ (h.frontEnd f).later hl) id
  input f e m hm := (hinput f e m hm).elim (fun hold => (h.input f e m hold).later hl) id
  startWave e m hm := (hstartWave e m hm).elim (fun hold => (h.startWave e m hold).later hl) id
  output e m hm := (houtput e m hm).elim (fun hold => (h.output e m hold).later hl) id
  firstReq f m hm := (hfirstReq f m hm).elim (fun hold => (h.firstReq f m hold).later hl) id
  update f m hm := (hupdate f m hm).elim (fun hold => (h.update f m hold).later hl) id

end Views

theorem mem_update {ι α : Type} [DecidableEq ι] {g : ι → List α} {i j : ι} {l : List α} {a : α}
    (h : a ∈ Function.update g i l j) : a ∈ g j ∨ j = i ∧ a ∈ l := by
  by_cases hj : j = i
  · subst hj
    rw [Function.update_self] at h
    exact .inr ⟨rfl, h⟩
  · rw [Function.update_of_ne hj] at h
    exact .inl h

theorem mem_update_append {ι α : Type} [DecidableEq ι] {g : ι → List α} {i j : ι} {l : List α} {a : α} (h : a ∈ g j) :
    a ∈ Function.update g i (g i ++ l) j := by
  by_cases hj : j = i
  · subst hj
    rw [Function.update_self]
    exact List.mem_append_left _ h
  · rwa [Function.update_of_ne hj]

theorem of_mem_append {ι α : Type} [DecidableEq ι] {g : ι → List α} {i j : ι} {l : List α} {a : α}
    (h : a ∈ Function.update g i (g i ++ l) j) : a ∈ g j ∨ j = i ∧ a ∈ l := by
  rcases mem_update h with hold | ⟨rfl, hin⟩
  · exact .inl hold
  · exact (List.mem_append.mp hin).imp_right fun hnew => ⟨rfl, hnew⟩

theorem same_or_new {ι α : Type} [DecidableEq ι] {g : ι → α} {i : ι} {a : α} {P : α → Prop} (h : a = g i ∨ P a) (j : ι) :
    Function.update g i a j = g j ∨ P (Function.update g i a j) := by
  by_cases hj : j = i
  · subst hj
    rwa [Function.update_self]
  · exact .inl (Function.update_of_ne hj ..)

section Tail

variable {ι α : Type} [DecidableEq ι] {g : ι → List α} {i j : ι} {l : List α} {a b : α}

theorem mem_of_mem_tail (hhead : g i = a :: l) (h : b ∈ Function.update g i l j) : b ∈ g j := by
  rcases mem_update h with hold | ⟨rfl, hin⟩
  · exact hold
  · exact hhead ▸ List.mem_cons_of_mem _ hin

theorem mem_tail (hhead : g i = a :: l) (h : b ∈ g j) : j = i ∧ b = a ∨ b ∈ Function.update g i l j := by
  by_cases hj : j = i
  · subst hj
    rw [Function.update_self]
    rw [hhead] at h
    exact (List.mem_cons.mp h).imp_left fun heq => ⟨rfl, heq⟩
  · rw [Function.update_of_ne hj]
    exact .inr h

end Tail

section FrontEnds

variable [DecidableEq F] {rank0 : E} {W N : Nat} {s s' : System E F ReqId} {f f' : F} {e e' : E}
  {m m' : ClientRequest ReqId}

theorem Wakes.update_frontEnd {frontEnd : FrontEnd E} (h : Wakes W s) (hstarted : Started W s → Started W s')
    (hout : s'.outputs = s.outputs) (hreqs : ∀ f m, m ∈ s.firstReqs f → m ∈ s'.firstReqs f)
    (hself : s'.frontEnds = Function.update s.frontEnds f frontEnd)
    (hf : (s.frontEnds f).currentWave = W → (s.frontEnds f).firstReqs ≠ [] → Wakes W s') : Wakes W s' := by
  rcases h with hs | hstart | ⟨f', e, hreq⟩ | ⟨f', hw, hne⟩
  · exact .inl (hstarted hs)
  · exact .inr (.inl (hout ▸ hstart))
  · exact .inr (.inr (.inl ⟨f', e, hreqs f' _ hreq⟩))
  · by_cases hff : f' = f
    · exact hf (hff ▸ hw) (hff ▸ hne)
    · exact .inr (.inr (.inr ⟨f', by rw [hself, Function.update_of_ne hff]; exact ⟨hw, hne⟩⟩))

theorem InvAt.sendFirstReq (h : InvAt rank0 W N s) : InvAt rank0 W N (s.sendFirstReq f) := by
  have hf := h.frontEnd f
  unfold System.sendFirstReq
  dsimp only
  cases hreqs : (s.frontEnds f).firstReqs with
  | nil => exact h
  | cons e firstReqs =>
    dsimp only
    set frontEnd : FrontEnd E := { s.frontEnds f with firstReqs := firstReqs, enginesRunning := true } with hfrontEnd
    set s' : System E F ReqId := { s with
      frontEnds := Function.update s.frontEnds f frontEnd
      firstReqs := Function.update s.firstReqs f (s.firstReqs f ++ [(e, (s.frontEnds f).currentWave)]) } with hs'
    have hsent : (s.frontEnds f).currentWave = W → Wakes W s' := by
      intro hw
      refine .inr (.inr (.inl ⟨f, e, ?_⟩))
      show (e, W) ∈ Function.update s.firstReqs f _ f
      rw [Function.update_self, ← hw]
      exact List.mem_append_right _ List.mem_cons_self
    have hl : Later W s s' := ⟨le_rfl, id, fun _ => id, fun hwakes =>
      hwakes.update_frontEnd id rfl (fun _ _ => mem_update_append) rfl fun hw _ => hsent hw⟩
    refine h.later hl h.le h.lag h.covered (fun _ => .inl rfl) (same_or_new (.inr ?_)) (fun _ _ _ => .inl)
      (fun _ _ => .inl) (fun _ _ => .inl) (fun f' m hm => (of_mem_append hm).imp_right fun hnew => ?_) fun _ _ => .inl
    · exact ⟨hf.wave, fun hw _ _ => hsent hw, fun hw hN e' he' =>
        hl.up e' (hf.up hw hN e' (hreqs ▸ List.mem_cons_of_mem _ he'))⟩
    · rw [List.mem_singleton.mp hnew.2]
      exact ⟨hf.wave, fun hw hN => hl.up e (hf.up hw hN e (hreqs ▸ List.mem_cons_self))⟩

theorem InvAt.update_frontEnd (h : InvAt rank0 W N s) (hallowed : (s.frontEnds f).firstReqs = []) :
    InvAt rank0 W N (s.update f) := by
  unfold System.update
  cases hupdates : s.updates f with
  | nil => exact h
  | cons m updates =>
    obtain ⟨wave, running⟩ := m
    dsimp only
    have hok := h.update f (wave, running) (hupdates ▸ List.mem_cons_self)
    set frontEnd : FrontEnd E := { s.frontEnds f with currentWave := wave, enginesRunning := running } with hfrontEnd
    set s' : System E F ReqId := { s with
      frontEnds := Function.update s.frontEnds f frontEnd
      updates := Function.update s.updates f updates } with hs'
    have hl : Later W s s' := ⟨le_rfl, id, fun _ => id, fun hwakes =>
      hwakes.update_frontEnd id rfl (fun _ _ => id) rfl fun _ hne => absurd hallowed hne⟩
    refine h.later hl h.le h.lag h.covered (fun _ => .inl rfl) (same_or_new (.inr ?_)) (fun _ _ _ => .inl)
      (fun _ _ => .inl) (fun _ _ => .inl) (fun _ _ => .inl) fun f' m hm => .inl (mem_of_mem_tail hupdates hm)
    refine ⟨hok.1, fun hw hr _ => .inl (hok.2 hw hr), fun _ _ e' he' => ?_⟩
    rw [hfrontEnd, hallowed] at he'
    cases he'

variable [DecidableEq E]

theorem mem_send : m' ∈ (s.send f e m).inputs f' e' ↔ m' ∈ s.inputs f' e' ∨ f' = f ∧ e' = e ∧ m' = m := by
  unfold send
  by_cases hf : f' = f
  · subst hf
    by_cases he : e' = e
    · subst he
      simp
    · simp [he]
  · simp [hf]

theorem Up.send (h : Up s e') : Up (s.send f e m) e' :=
  h.imp_right fun h => h.imp_right fun hadd => by
    obtain ⟨f', r, w, hmem⟩ := hadd
    exact ⟨f', r, w, mem_send.mpr (.inl hmem)⟩

theorem InvAt.send (h : InvAt rank0 W N s) (hm : InputOk W N s m) : InvAt rank0 W N (s.send f e m) := by
  have hl : Later W s (s.send f e m) := ⟨le_rfl, id, fun _ => Up.send, id⟩
  refine h.later hl h.le h.lag ?_ (fun _ => .inl rfl) (fun _ => .inl rfl) ?_ (fun _ _ => .inl) (fun _ _ => .inl)
    (fun _ _ => .inl) fun _ _ => .inl
  · exact fun hN hs e' => (h.covered hN hs e').imp_left Up.send
  · intro f' e' m' hm'
    rcases mem_send.mp hm' with hold | ⟨-, -, rfl⟩
    · exact .inl hold
    · exact .inr (hm.later hl)

theorem InvAt.addRequest (h : InvAt rank0 W N s) (r : ReqId) : InvAt rank0 W N (s.addRequest f e r) := by
  have hf := h.frontEnd f
  unfold System.addRequest
  dsimp only
  split
  · rename_i hrunning
    refine h.send fun r' w hm => ?_
    cases hm
    exact ⟨hf.wave, fun hw hN => hf.wakes hw hrunning hN⟩
  · rename_i hrunning
    set frontEnd : FrontEnd E := { s.frontEnds f with firstReqs := (s.frontEnds f).firstReqs ++ [e] } with hfrontEnd
    set s' : System E F ReqId := { s.send f e (.add r (s.frontEnds f).currentWave) with
      frontEnds := Function.update (s.send f e (.add r (s.frontEnds f).currentWave)).frontEnds f frontEnd } with hs'
    have hself : s'.frontEnds f = frontEnd := Function.update_self ..
    have hup : ∀ e', Up s e' → Up s' e' := fun e' hup => hup.send
    have hnew : Up s' e := .inr (.inr ⟨f, r, _, mem_send.mpr (.inr ⟨rfl, rfl, rfl⟩)⟩)
    have hpending : (s.frontEnds f).currentWave = W → Wakes W s' := fun hw =>
      .inr (.inr (.inr ⟨f, hself ▸ hw, by rw [hself]; exact List.append_ne_nil_of_right_ne_nil _ (List.cons_ne_nil _ _)⟩))
    have hl : Later W s s' := ⟨le_rfl, id, hup, fun hwakes =>
      hwakes.update_frontEnd id rfl (fun _ _ => id) rfl fun hw _ => hpending hw⟩
    refine h.later hl h.le h.lag (fun hN hs e' => (h.covered hN hs e').imp_left (hup e')) (fun _ => .inl rfl)
      (same_or_new (.inr ⟨hf.wave, fun _ hr => absurd hr hrunning, fun hw hN e' he' => ?_⟩)) ?_
      (fun _ _ => .inl) (fun _ _ => .inl) (fun _ _ => .inl) fun _ _ => .inl
    · rcases List.mem_append.mp he' with hold | hnew'
      · exact hup e' (hf.up hw hN e' hold)
      · rw [List.mem_singleton.mp hnew']
        exact hnew
    · intro f' e' m' hm'
      rcases mem_send.mp hm' with hold | ⟨-, -, rfl⟩
      · exact .inl hold
      · refine .inr fun r' w hm => ?_
        cases hm
        exact ⟨hf.wave, fun hw _ => hpending hw⟩

end FrontEnds

section Engines

variable [DecidableEq E] [DecidableEq F] {rank0 : E} {W N : Nat} {s s' : System E F ReqId} {f f' : F} {e e' : E}
  {request m : ClientRequest ReqId} {rest : List (ClientRequest ReqId)}

theorem mem_of_mem_pop (hhead : s.inputs f e = request :: rest)
    (hm : m ∈ Function.update s.inputs f (Function.update (s.inputs f) e rest) f' e') : m ∈ s.inputs f' e' := by
  by_cases hf : f' = f
  · subst hf
    rw [Function.update_self] at hm
    exact mem_of_mem_tail hhead hm
  · rwa [Function.update_of_ne hf] at hm

theorem mem_pop (hhead : s.inputs f e = request :: rest) (hm : m ∈ s.inputs f' e') :
    e' = e ∧ m = request ∨ m ∈ Function.update s.inputs f (Function.update (s.inputs f) e rest) f' e' := by
  by_cases hf : f' = f
  · subst hf
    rw [Function.update_self]
    exact mem_tail hhead hm
  · rw [Function.update_of_ne hf]
    exact .inr hm

def taken (f : F) (e : E) (rest : List (ClientRequest ReqId)) (engine : EngineCore ReqId) (outputs : List EngineOutput)
    (s : System E F ReqId) : System E F ReqId :=
  { s with
    engines := Function.update s.engines e engine
    outputs := Function.update s.outputs e (s.outputs e ++ outputs)
    inputs := Function.update s.inputs f (Function.update (s.inputs f) e rest) }

theorem taken_self (engine : EngineCore ReqId) (outputs : List EngineOutput) :
    (s.taken f e rest engine outputs).engines e = engine := Function.update_self ..

theorem taken_other (engine : EngineCore ReqId) (outputs : List EngineOutput) (h : e' ≠ e) :
    (s.taken f e rest engine outputs).engines e' = s.engines e' := Function.update_of_ne h ..

theorem InvAt.taken (h : InvAt rank0 W N s) (hhead : s.inputs f e = request :: rest) {engine : EngineCore ReqId}
    {outputs : List EngineOutput} (hup : Up s e → Up (s.taken f e rest engine outputs) e)
    (hengine : Later W s (s.taken f e rest engine outputs) → EngineOk W N (s.taken f e rest engine outputs) engine)
    (houtputs : ∀ m ∈ outputs, OutputOk W N (s.taken f e rest engine outputs) e m) :
    InvAt rank0 W N (s.taken f e rest engine outputs) := by
  have hupAll : ∀ e', Up s e' → Up (s.taken f e rest engine outputs) e' := by
    intro e' h
    by_cases he : e' = e
    · subst he
      exact hup h
    · rw [Up, taken_other engine outputs he]
      refine h.imp_right fun h => h.imp_right fun hadd => ?_
      obtain ⟨f', r, w, hmem⟩ := hadd
      exact ⟨f', r, w, (mem_pop hhead hmem).resolve_left fun h => he h.1⟩
  have hl : Later W s (s.taken f e rest engine outputs) := by
    refine ⟨le_rfl, id, hupAll, ?_⟩
    rintro (hs | ⟨e', hout⟩ | hrest)
    · exact .inl hs
    · exact .inr (.inl ⟨e', mem_update_append hout⟩)
    · exact .inr (.inr hrest)
  refine h.later hl h.le (fun hlt => ?_) (fun hN hs e' => (h.covered hN hs e').imp_left (hupAll e'))
    (same_or_new (.inr (hengine hl))) (fun _ => .inl rfl) (fun f' e' m hm => .inl (mem_of_mem_pop hhead hm))
    (fun _ _ => .inl) (fun e' m hm => (of_mem_append hm).imp_right fun hnew => ?_) (fun _ _ => .inl) fun _ _ => .inl
  · obtain ⟨w, hw, hmem⟩ := h.lag hlt
    exact ⟨w, hw, mem_update_append hmem⟩
  · rw [hnew.1]
    exact houtputs m hnew.2

variable [DecidableEq ReqId]

theorem addRequest_of_le {engine : EngineCore ReqId} (r : ReqId) {w : Nat} (hw : w ≤ engine.currentWave) :
    engine.addRequest r w = ({ engine with unfinished := insert r engine.unfinished },
      if w ≠ engine.currentWave ∧ engine.enginesRunning = false then [.startWave engine.currentWave] else []) := by
  unfold EngineCore.addRequest
  dsimp only
  rw [if_neg (Nat.not_lt.mpr hw)]
  split <;> rfl

theorem InvAt.handleClientRequest (h : InvAt rank0 W N s)
    (hallowed : ∀ request ∈ (s.inputs f e).head?, (s.engines e).Keeps request) :
    InvAt rank0 W N (s.handleClientRequest f e) := by
  have hok := h.engine e
  unfold System.handleClientRequest
  cases hhead : s.inputs f e with
  | nil => exact h
  | cons request rest =>
    cases request with
    | abort r =>
      have hcases : (s.engines e).Keeps (.abort r) := hallowed (.abort r) (by rw [hhead]; rfl)
      refine h.taken hhead (fun hup => ?_) (fun hl => ?_) (List.forall_mem_nil _)
      · rw [Up, taken_self]
        rcases hcases with hrun | hempty | hleft
        · exact .inl hrun
        · refine hup.imp_right fun h => .inr ?_
          rw [hempty] at h
          obtain ⟨f', r', w, hmem⟩ := h.resolve_left Finset.not_nonempty_empty
          exact ⟨f', r', w, (mem_pop hhead hmem).resolve_left fun h => by cases h.2⟩
        · exact .inr (.inl hleft)
      · exact ⟨hok.wave, hok.counter, hok.running, fun hr hN => hl.started (hok.started hr hN),
          fun hr hu => hl.wakes (hok.wakes hr (hu.mono (Finset.erase_subset _ _)))⟩
    | add r w =>
      obtain ⟨hle, hwakes⟩ := h.input f e _ (hhead ▸ List.mem_cons_self) r w rfl
      have hwave : w ≤ W := hle.trans h.le
      set engine : EngineCore ReqId := { s.engines e with unfinished := insert r (s.engines e).unfinished } with hengine
      have hN : engine.enginesRunning = false → N = 0 := fun hr => by
        by_contra hne
        exact Bool.false_ne_true (hr.symm.trans (hok.running (Nat.pos_of_ne_zero hne)))
      have hadd : (s.engines e).handleClientRequest (.add r w) =
          (engine, if w ≠ W ∧ engine.enginesRunning = false then [.startWave W] else []) := by
        rw [← hok.wave] at hwave ⊢
        exact addRequest_of_le r hwave
      have hupSelf : ∀ outputs, Up (s.taken f e rest engine outputs) e := fun outputs => by
        rw [Up, taken_self]
        exact .inr (.inl (Finset.insert_nonempty _ _))
      dsimp only
      rw [hadd]
      refine h.taken hhead (fun _ => hupSelf _) (fun hl => ?_) fun m hm => ?_
      · refine ⟨hok.wave, hok.counter, hok.running, fun hr hN => hl.started (hok.started hr hN), fun hr _ => ?_⟩
        by_cases hw : w = W
        · exact hl.wakes (hwakes hw (hN hr))
        · refine .inr (.inl ⟨e, ?_⟩)
          show _ ∈ Function.update s.outputs e _ e
          rw [Function.update_self, if_pos ⟨hw, hr⟩]
          exact List.mem_append_right _ List.mem_cons_self
      · split at hm
        · rw [List.mem_singleton.mp hm]
          refine ⟨fun w' hw' => ?_, fun w' hw' => by cases hw'⟩
          cases hw'
          exact ⟨le_rfl, fun _ _ => hupSelf _⟩
        · cases hm

end Engines

section Start

variable [DecidableEq E] {rank0 : E} {W N : Nat} {s s' : System E F ReqId} {e : E}

theorem InvAt.startDpWave (h : InvAt rank0 W N s) : InvAt rank0 W N (s.startDpWave e) := by
  have hok := h.engine e
  unfold System.startDpWave
  cases hhead : s.startWaves e with
  | nil => exact h
  | cons m rest =>
    obtain ⟨newWave, exclude⟩ := m
    dsimp only
    have hstart := h.startWave e (newWave, exclude) (hhead ▸ List.mem_cons_self)
    have hwave : newWave ≤ W := hstart.1.trans h.le
    set engine := (s.engines e).startDpWave e newWave exclude with hengine
    set s' : System E F ReqId := { s with
      engines := Function.update s.engines e engine
      startWaves := Function.update s.startWaves e rest } with hs'
    have hself : s'.engines e = engine := Function.update_self ..
    have hother : ∀ e' ≠ e, s'.engines e' = s.engines e' := fun e' hne => Function.update_of_ne hne ..
    have hcases : (exclude ≠ some e ∧ newWave = W ∧ engine = { s.engines e with enginesRunning := true }) ∨
        ((exclude = some e ∨ newWave ≠ W) ∧ engine = s.engines e) := by
      rw [hengine, EngineCore.startDpWave, hok.wave]
      by_cases hcond : exclude ≠ some e ∧ newWave ≥ W
      · obtain rfl : newWave = W := le_antisymm hwave hcond.2
        rw [if_pos hcond]
        refine .inl ⟨hcond.1, rfl, ?_⟩
        rw [← hok.wave]
      · rw [if_neg hcond]
        refine .inr ⟨?_, rfl⟩
        by_contra hboth
        rw [not_or, not_not] at hboth
        exact hcond ⟨hboth.1, hboth.2.ge⟩
    have hup : ∀ e', Up s e' → Up s' e' := by
      intro e' h
      by_cases he : e' = e
      · subst he
        rw [Up, hself]
        rcases hcases with ⟨-, -, hrun⟩ | ⟨-, hsame⟩
        · exact .inl (by rw [hrun])
        · rw [hsame]
          exact h
      · rw [Up, hother e' he]
        exact h
    have hl : Later W s s' := ⟨le_rfl, id, hup, id⟩
    refine h.later hl h.le h.lag ?_ ?_ (fun _ => .inl rfl) (fun _ _ _ => .inl) ?_ (fun _ _ => .inl) (fun _ _ => .inl)
      fun _ _ => .inl
    · intro hN hs e'
      rcases h.covered hN hs e' with hold | ⟨x, hmem, hx⟩
      · exact .inl (hup e' hold)
      · rcases mem_tail hhead hmem with ⟨rfl, heq⟩ | hrest
        · cases heq
          refine .inl ?_
          rw [Up, hself]
          rcases hcases with ⟨-, -, hrun⟩ | ⟨hnot, -⟩
          · exact .inl (by rw [hrun])
          · exact absurd rfl (hnot.resolve_left hx)
        · exact .inr ⟨x, hrest, hx⟩
    · refine same_or_new ?_
      rcases hcases with ⟨-, hw, hrun⟩ | ⟨-, hsame⟩
      · rw [hrun]
        exact .inr ⟨hok.wave, hok.counter, fun _ => rfl, fun _ _ => hstart.2 hw, fun hr => by cases hr⟩
      · exact .inl hsame
    · exact fun e' m hm => .inl (mem_of_mem_tail hhead hm)

end Start

section Coordinator

variable {rank0 : E} {W N : Nat} {s s' : System E F ReqId} {f : F} {e : E}

theorem InvAt.publish (h : InvAt rank0 W N s) : InvAt rank0 W N s.publish := by
  refine h.later ⟨le_rfl, id, fun _ => id, id⟩ h.le h.lag h.covered (fun _ => .inl rfl) (fun _ => .inl rfl) (fun _ _ _ => .inl)
    (fun _ _ => .inl) (fun _ _ => .inl) (fun _ _ => .inl) fun f m hm => ?_
  refine (List.mem_append.mp hm).imp_right fun hnew => ?_
  rw [List.mem_singleton.mp hnew]
  exact ⟨le_rfl, fun hw hr => ⟨hw, hr⟩⟩

theorem InvAt.sendStartWave (h : InvAt rank0 W N s) {wave : Nat} {exclude : Option E}
    (hge : s.coordinator.currentWave ≤ wave) (hle : wave ≤ W) (hnot : ¬ Started W s)
    (hup : wave = W → N = 0 → ∀ e, exclude = some e → Up s e) : InvAt rank0 W N (s.sendStartWave wave exclude) := by
  have hl : Later W s (s.sendStartWave wave exclude) := by
    refine ⟨hge, fun hs => absurd hs hnot, fun _ => id, ?_⟩
    rintro (hs | hrest)
    · exact absurd hs hnot
    · exact .inr hrest
  refine h.later hl hle (fun hlt => h.lag (lt_of_le_of_lt hge hlt)) ?_ (fun _ => .inl rfl) (fun _ => .inl rfl)
    (fun _ _ _ => .inl) ?_ (fun _ _ => .inl) (fun _ _ => .inl) fun _ _ => .inl
  · intro hN hs e
    obtain rfl : wave = W := hs.1
    by_cases he : exclude = some e
    · exact .inl (hup rfl hN e he)
    · exact .inr ⟨exclude, List.mem_append_right _ List.mem_cons_self, he⟩
  · intro e m hm
    refine (List.mem_append.mp hm).imp_right fun hnew => ?_
    rw [List.mem_singleton.mp hnew]
    exact ⟨le_rfl, fun hw => ⟨hw, rfl⟩⟩

theorem InvAt.popFirstReq [DecidableEq F] (h : InvAt rank0 W N s) {m : E × Nat} {rest : List (E × Nat)}
    (hhead : s.firstReqs f = m :: rest) (hwakes : m.2 = W → Wakes W { s with firstReqs := Function.update s.firstReqs f rest }) :
    InvAt rank0 W N { s with firstReqs := Function.update s.firstReqs f rest } := by
  have hl : Later W s { s with firstReqs := Function.update s.firstReqs f rest } := by
    refine ⟨le_rfl, id, fun _ => id, ?_⟩
    rintro (hs | hout | ⟨f', e, hreq⟩ | hpending)
    · exact .inl hs
    · exact .inr (.inl hout)
    · rcases mem_tail hhead hreq with ⟨-, heq⟩ | hin
      · exact hwakes (heq ▸ rfl)
      · exact .inr (.inr (.inl ⟨f', e, hin⟩))
    · exact .inr (.inr (.inr hpending))
  exact h.later hl h.le h.lag h.covered (fun _ => .inl rfl) (fun _ => .inl rfl) (fun _ _ _ => .inl)
    (fun _ _ => .inl) (fun _ _ => .inl) (fun f' m' hm' => .inl (mem_of_mem_tail hhead hm')) fun _ _ => .inl

theorem InvAt.popOutput [DecidableEq E] (h : InvAt rank0 W N s) {m : EngineOutput} {rest : List EngineOutput}
    (hhead : s.outputs e = m :: rest)
    (hwakes : m = .startWave W → Wakes W { s with outputs := Function.update s.outputs e rest })
    (hlag : ∀ w, m = .waveComplete w → w + 1 = W → W ≤ s.coordinator.currentWave) :
    InvAt rank0 W N { s with outputs := Function.update s.outputs e rest } := by
  have hl : Later W s { s with outputs := Function.update s.outputs e rest } := by
    refine ⟨le_rfl, id, fun _ => id, ?_⟩
    rintro (hs | ⟨e', hout⟩ | hrest)
    · exact .inl hs
    · rcases mem_tail hhead hout with ⟨-, heq⟩ | hin
      · exact hwakes heq.symm
      · exact .inr (.inl ⟨e', hin⟩)
    · exact .inr (.inr hrest)
  refine h.later hl h.le (fun hlt => ?_) h.covered (fun _ => .inl rfl) (fun _ => .inl rfl) (fun _ _ _ => .inl)
    (fun _ _ => .inl) (fun e' m' hm' => .inl (mem_of_mem_tail hhead hm')) (fun _ _ => .inl) fun _ _ => .inl
  obtain ⟨w, hw, hmem⟩ := h.lag hlt
  refine ⟨w, hw, (mem_tail hhead hmem).resolve_left fun heq => ?_⟩
  exact absurd hlt (Nat.not_lt.mpr (hlag w heq.2.symm hw))

theorem InvAt.coordinateFirstReq [DecidableEq F] (h : InvAt rank0 W N s) : InvAt rank0 W N (s.coordinateFirstReq f) := by
  unfold System.coordinateFirstReq
  cases hhead : s.firstReqs f with
  | nil => exact h
  | cons m rest =>
    obtain ⟨e, wave⟩ := m
    have hok := h.firstReq f (e, wave) (hhead ▸ List.mem_cons_self)
    have hcurrent : wave = W → s.coordinator.currentWave = W := fun hw => le_antisymm h.le (hw ▸ hok.1)
    dsimp only
    split
    · rename_i hrunning
      exact h.popFirstReq hhead fun hw => .inl ⟨hcurrent hw, hrunning⟩
    · rename_i hrunning
      have hsent : InvAt rank0 W N ((s.sendStartWave s.coordinator.currentWave
          (if wave < s.coordinator.currentWave then none else some e)).publish) := by
        refine (h.sendStartWave le_rfl h.le (fun hs => hrunning hs.2) fun hw hN e' he' => ?_).publish
        split at he'
        · cases he'
        · rename_i hge
          cases he'
          exact hok.2 (le_antisymm (hok.1.trans h.le) (hw ▸ Nat.not_lt.mp hge)) hN
      exact hsent.popFirstReq hhead fun hw => .inl ⟨hcurrent hw, rfl⟩

theorem InvAt.complete (h : InvAt rank0 W N s) {w : Nat} (hw : w < W) (hle : s.coordinator.currentWave ≤ w) :
    InvAt rank0 W N { s with coordinator := { currentWave := w + 1, enginesRunning := false } } := by
  have hnot : ¬ Started W s := fun hs => absurd (hs.1 ▸ hle) (Nat.not_le.mpr hw)
  have hl : Later W s { s with coordinator := { currentWave := w + 1, enginesRunning := false } } :=
    ⟨hle.trans (Nat.le_succ w), fun hs => absurd hs hnot, fun _ => id, fun hwakes => .inr (hwakes.resolve_left hnot)⟩
  exact h.later hl hw (fun hlt => h.lag (lt_of_le_of_lt (hle.trans (Nat.le_succ w)) hlt)) (fun _ hs => by cases hs.2)
    (fun _ => .inl rfl) (fun _ => .inl rfl) (fun _ _ _ => .inl) (fun _ _ => .inl) (fun _ _ => .inl) (fun _ _ => .inl)
    fun _ _ => .inl

theorem InvAt.coordinateOutput [DecidableEq E] (h : InvAt rank0 W N s) : InvAt rank0 W N (s.coordinateOutput e) := by
  unfold System.coordinateOutput
  cases hhead : s.outputs e with
  | nil => exact h
  | cons m rest =>
    have hok := h.output e m (hhead ▸ List.mem_cons_self)
    cases m with
    | waveComplete w =>
      have hw := hok.2 w rfl
      dsimp only
      split
      · rename_i hle
        refine (h.complete hw hle).publish.popOutput hhead (fun heq => by cases heq) fun w' heq hw' => ?_
        cases heq
        exact hw'.ge
      · rename_i hgt
        refine h.popOutput hhead (fun heq => by cases heq) fun w' heq hw' => ?_
        cases heq
        omega
    | startWave w =>
      obtain ⟨hle, hup⟩ := hok.1 w rfl
      dsimp only
      split
      · rename_i hstart
        have hsent : InvAt rank0 W N ((s.sendStartWave w (some e)).publish) := by
          refine (h.sendStartWave ?_ hle (fun hs => ?_) fun hw hN e' he' => ?_).publish
          · exact hstart.elim le_of_lt fun heq => heq.1.ge
          · rcases hstart with hgt | ⟨-, hpaused⟩
            · exact absurd (hs.1 ▸ hgt) (Nat.not_lt.mpr hle)
            · exact Bool.false_ne_true (hpaused.symm.trans hs.2)
          · cases he'
            exact hup hw hN
        refine hsent.popOutput hhead (fun heq => ?_) fun w' heq => by cases heq
        cases heq
        exact .inl ⟨rfl, rfl⟩
      · rename_i hstart
        refine h.popOutput hhead (fun heq => ?_) fun w' heq => by cases heq
        cases heq
        rw [not_or, not_and, Bool.not_eq_false] at hstart
        have hcurrent := le_antisymm h.le (Nat.not_lt.mp hstart.1)
        exact .inl ⟨hcurrent, hstart.2 hcurrent.symm⟩

end Coordinator

section Pass

variable [DecidableEq E] [DecidableEq ReqId] [Fintype E] {rank0 : E} {W N : Nat} {s : System E F ReqId}
  {finished : E → Finset ReqId}

omit [DecidableEq ReqId] in
theorem finishPass_running {engine : EngineCore ReqId} {b : Bool} (h : (engine.stepCounter + 1) % 32 ≠ 0 ∨ b = true) :
    engine.finishPass b = { engine with stepCounter := engine.stepCounter + 1, enginesRunning := true } := if_pos h

omit [DecidableEq ReqId] in
theorem finishPass_paused {engine : EngineCore ReqId} {b : Bool} (h : ¬ ((engine.stepCounter + 1) % 32 ≠ 0 ∨ b = true)) :
    engine.finishPass b = { engine with currentWave := engine.currentWave + 1, stepCounter := 0, enginesRunning := false } :=
  if_neg h

theorem InvAt.pass (h : InvAt rank0 W N s) : ∃ W N, InvAt rank0 W N (s.pass rank0 finished) := by
  unfold System.pass
  split
  swap
  · exact ⟨W, N, h⟩
  dsimp only
  set ran : E → EngineCore ReqId := fun e =>
    { s.engines e with unfinished := (s.engines e).unfinished \ finished e } with hran
  set unfinishedDp : Bool := decide (∃ e, (ran e).unfinished.Nonempty) with hdp
  have hcounter : ∀ e, (ran e).stepCounter = N := fun e => (h.engine e).counter
  by_cases hgo : (N + 1) % 32 ≠ 0 ∨ unfinishedDp = true
  · have hpass : ∀ e, (ran e).finishPass unfinishedDp = { ran e with stepCounter := N + 1, enginesRunning := true } := by
      intro e
      rw [finishPass_running (by rwa [hcounter e]), hcounter e]
    have hrun : ((ran rank0).finishPass unfinishedDp).enginesRunning = true := by rw [hpass rank0]
    refine ⟨W, N + 1, ?_⟩
    rw [if_pos hrun, List.append_nil, Function.update_eq_self]
    refine ⟨h.le, h.lag, fun hN => (by cases hN), fun e => ?_, fun f => ?_, fun f e m hm r w heq => ?_, h.startWave,
      fun e m hm => ⟨fun w heq => ?_, (h.output e m hm).2⟩, fun f m hm => ?_, h.update⟩
    · show EngineOk _ _ _ ((ran e).finishPass unfinishedDp)
      rw [hpass e]
      exact ⟨(h.engine e).wave, rfl, fun _ => rfl, fun _ hN => (by cases hN), fun hr => (by cases hr)⟩
    · exact ⟨(h.frontEnd f).wave, fun _ _ hN => (by cases hN), fun _ hN => (by cases hN)⟩
    · exact ⟨(h.input f e m hm r w heq).1, fun _ hN => (by cases hN)⟩
    · exact ⟨((h.output e m hm).1 w heq).1, fun _ hN => (by cases hN)⟩
    · exact ⟨(h.firstReq f m hm).1, fun _ hN => (by cases hN)⟩
  · have hpass : ∀ e, (ran e).finishPass unfinishedDp =
        { ran e with currentWave := W + 1, stepCounter := 0, enginesRunning := false } := by
      intro e
      rw [finishPass_paused (by rwa [hcounter e]), show (ran e).currentWave = W from (h.engine e).wave]
    have hempty : ∀ e, ¬ (ran e).unfinished.Nonempty := by
      intro e hne
      exact hgo (.inr (decide_eq_true ⟨e, hne⟩))
    have hpast : ∀ {w}, w ≤ s.coordinator.currentWave → w ≠ W + 1 := fun hw => by
      have := h.le
      omega
    have hpaused : ((ran rank0).finishPass unfinishedDp).enginesRunning ≠ true := by
      rw [hpass rank0]
      exact Bool.false_ne_true
    refine ⟨W + 1, 0, ?_⟩
    rw [if_neg hpaused, show (s.engines rank0).currentWave = W from (h.engine rank0).wave]
    refine ⟨h.le.trans (Nat.le_succ W), fun _ => ⟨W, rfl, ?_⟩, fun _ hs => absurd hs.1 (hpast le_rfl), fun e => ?_, fun f => ?_,
      fun f e m hm r w heq => ?_, fun e m hm => ?_, fun e m hm => ?_, fun f m hm => ?_, fun f m hm => ?_⟩
    · show _ ∈ Function.update s.outputs rank0 _ rank0
      rw [Function.update_self]
      exact List.mem_append_right _ List.mem_cons_self
    · show EngineOk _ _ _ ((ran e).finishPass unfinishedDp)
      rw [hpass e]
      exact ⟨rfl, rfl, fun hN => absurd hN (Nat.lt_irrefl 0), fun hr => (by cases hr), fun _ hne => absurd hne (hempty e)⟩
    · have hle := (h.frontEnd f).wave
      exact ⟨hle, fun hw => absurd hw (hpast hle), fun hw => absurd hw (hpast hle)⟩
    · have hle := (h.input f e m hm r w heq).1
      exact ⟨hle, fun hw => absurd hw (hpast hle)⟩
    · have hle := (h.startWave e m hm).1
      exact ⟨hle, fun hw => absurd hw (hpast hle)⟩
    · have hold : m ∈ s.outputs e → ∀ s' : System E F ReqId, OutputOk (W + 1) 0 s' e m := fun hm s' => by
        obtain ⟨hstart, hcomplete⟩ := h.output e m hm
        refine ⟨fun w heq => ⟨(hstart w heq).1.trans (Nat.le_succ W), fun hw => ?_⟩,
          fun w heq => (hcomplete w heq).trans (Nat.lt_succ_self W)⟩
        exact absurd ((hw ▸ (hstart w heq).1 : W + 1 ≤ W)) (Nat.not_succ_le_self W)
      rcases of_mem_append hm with hm | ⟨-, hnew⟩
      · exact hold hm _
      · rw [List.mem_singleton.mp hnew]
        exact ⟨fun w heq => (by cases heq), fun w heq => by cases heq; exact Nat.lt_succ_self W⟩
    · have hle := (h.firstReq f m hm).1
      exact ⟨hle, fun hw => absurd hw (hpast hle)⟩
    · have hle := (h.update f m hm).1
      exact ⟨hle, fun hw => absurd hw (hpast hle)⟩

end Pass

section Runs

variable [DecidableEq E] [DecidableEq F] [DecidableEq ReqId] [Fintype E] {rank0 : E} {W N : Nat} {s : System E F ReqId}

def Inv (rank0 : E) (s : System E F ReqId) : Prop := ∃ W N, InvAt rank0 W N s

omit [DecidableEq E] [DecidableEq F] [DecidableEq ReqId] [Fintype E] in
theorem inv_init (rank0 : E) : Inv rank0 (init : System E F ReqId) := by
  refine ⟨0, 0, le_rfl, fun h => absurd h (Nat.lt_irrefl 0), fun _ hs => (by cases hs.2), fun _ => ?_, fun _ => ?_,
    fun _ _ => List.forall_mem_nil _, fun _ => List.forall_mem_nil _, fun _ => List.forall_mem_nil _,
    fun _ => List.forall_mem_nil _, fun _ => List.forall_mem_nil _⟩
  · exact ⟨rfl, rfl, fun h => absurd h (Nat.lt_irrefl 0), fun hr => (by cases hr),
      fun _ hne => absurd hne Finset.not_nonempty_empty⟩
  · exact ⟨le_rfl, fun _ hr => (by cases hr), fun _ _ => List.forall_mem_nil _⟩

theorem Inv.run (h : Inv rank0 s) {event : Event E F ReqId} (hallowed : s.Allowed event) : Inv rank0 (s.run rank0 event) := by
  obtain ⟨W, N, h⟩ := h
  cases event with
  | addRequest f e r => exact ⟨W, N, h.addRequest r⟩
  | abortRequest f e r => exact ⟨W, N, h.send fun r' w heq => (by cases heq)⟩
  | sendFirstReq f => exact ⟨W, N, h.sendFirstReq⟩
  | update f => exact ⟨W, N, h.update_frontEnd hallowed⟩
  | handleClientRequest f e => exact ⟨W, N, h.handleClientRequest hallowed⟩
  | startDpWave e => exact ⟨W, N, h.startDpWave⟩
  | coordinateFirstReq f => exact ⟨W, N, h.coordinateFirstReq⟩
  | coordinateOutput e => exact ⟨W, N, h.coordinateOutput⟩
  | publish => exact ⟨W, N, h.publish⟩
  | pass finished => exact h.pass

omit [DecidableEq E] [DecidableEq F] [DecidableEq ReqId] [Fintype E] in
theorem InvAt.hasWork (h : InvAt rank0 W N s) (hq : s.Quiescent) {e : E} (he : (s.engines e).hasWork) (e' : E) :
    (s.engines e').hasWork := by
  rcases Nat.eq_zero_or_pos N with rfl | hN
  · have hstarted : Started W s := by
      cases hr : (s.engines e).enginesRunning with
      | true => exact (h.engine e).started hr rfl
      | false =>
        have hwakes := (h.engine e).wakes hr (he.resolve_left fun hrun => Bool.false_ne_true (hr.symm.trans hrun))
        rcases hwakes with hs | ⟨e, hout⟩ | ⟨f, e, hreq⟩ | ⟨f, -, hne⟩
        · exact hs
        · rw [hq.outputs e] at hout
          cases hout
        · rw [(hq.firstReqs f).1] at hreq
          cases hreq
        · exact absurd (hq.firstReqs f).2 hne
    rcases h.covered rfl hstarted e' with (hrun | hreq | ⟨f, r, w, hadd⟩) | ⟨x, hstart, -⟩
    · exact .inl hrun
    · exact .inr hreq
    · rw [hq.inputs f e'] at hadd
      cases hadd
    · rw [hq.startWaves e'] at hstart
      cases hstart
  · exact .inl ((h.engine e').running hN)

omit [DecidableEq E] [DecidableEq F] [DecidableEq ReqId] in
theorem Inv.agrees (h : Inv rank0 s) : s.Agrees := by
  obtain ⟨W, N, h⟩ := h
  refine ⟨fun e e' => (h.engine e).wave.trans (h.engine e').wave.symm,
    fun e e' => (h.engine e).counter.trans (h.engine e').counter.symm, fun hq e => ?_, fun hq => ?_⟩
  · rw [(h.engine e).wave]
    refine le_antisymm (Nat.not_lt.mp fun hlt => ?_) h.le
    obtain ⟨w, -, hmem⟩ := h.lag hlt
    rw [hq.outputs rank0] at hmem
    cases hmem
  · by_cases hsome : ∃ e, (s.engines e).hasWork
    · obtain ⟨e, he⟩ := hsome
      exact .inl fun e' => h.hasWork hq he e'
    · exact .inr fun e he => hsome ⟨e, he⟩

/-- In every run the engines agree on the wave, and where nothing is on the way they agree on the next pass. -/
theorem agrees_of_allowed (rank0 : E) {events : List (Event E F ReqId)} (h : Guarded (step rank0) Allowed init events) :
    Throughout (step rank0) Agrees init events := by
  refine throughout_of_inv ?_ (fun s (hs : Inv rank0 s) => hs.agrees) (inv_init rank0) h
  intro s event s' hs hallowed hstep
  cases hstep
  exact hs.run hallowed

def wakingRun : List (Event Bool Unit Nat) :=
  [.addRequest () true 7, .sendFirstReq (), .coordinateFirstReq (), .startDpWave true, .handleClientRequest () true,
    .abortRequest () true 7, .startDpWave false, .pass fun _ => ∅, .addRequest () true 8, .handleClientRequest () true,
    .update (), .startDpWave true, .handleClientRequest () true, .pass fun _ => {8}]

theorem agrees_wakingRun : Throughout (step false) Agrees init wakingRun :=
  agrees_of_allowed false (by decide)

def abortingRun : List (Event Bool Unit Nat) :=
  [.addRequest () true 7, .sendFirstReq (), .coordinateFirstReq (), .abortRequest () true 7, .handleClientRequest () true,
    .handleClientRequest () true, .startDpWave true, .startDpWave false]

example : ¬ Throughout (step false) Agrees init abortingRun := by
  intro h
  have hlast := ((((((((h.2 _ rfl).2 _ rfl).2 _ rfl).2 _ rfl).2 _ rfl).2 _ rfl).2 _ rfl).2 _ rfl).hasWork
    ⟨by decide, by decide, by decide, by decide⟩
  revert hlast
  decide

end Runs

end Vllm.DataParallel.System
