import Vllm.OnlineQuantLayer

namespace Vllm.Gfx936

section Install

variable {F T : Type} {torch : Torch F T} {l l' l₀ : Module T} {packed scale : T} {kind : QuantKind} {m k : Nat}
  {fault : InstallStep → Option (Exn × Bool)}

@[refl] theorem Same.refl (l : Module T) : Same l l := ⟨fun _ => rfl, fun _ => rfl, rfl, fun _ => rfl⟩

theorem Same.trans {l'' : Module T} (h : Same l l') (h' : Same l' l'') : Same l l'' :=
  ⟨fun name => (h'.parameters name).trans (h.parameters name), fun name => (h'.buffers name).trans (h.buffers name),
    h'.nonPersistent.trans h.nonPersistent, fun name => (h'.attributes name).trans (h.attributes name)⟩

theorem Same.getattr (h : Same l l') (name : String) : l'.getattr name = l.getattr name := by
  rw [Module.getattr, Module.getattr, h.attributes, h.parameters, h.buffers]

theorem Same.isGfx936QuantizedLayer (h : Same l l') : isGfx936QuantizedLayer l' = isGfx936QuantizedLayer l := by
  rw [Gfx936.isGfx936QuantizedLayer, Gfx936.isGfx936QuantizedLayer, h.attributes]

theorem Same.new (h : Same l l') (hnew : l.New) : l'.New where
  scale := by
    rw [h.buffers, h.nonPersistent]
    exact hnew.scale
  attributes name hname := (h.attributes name).trans (hnew.attributes name hname)
  weight hweight := by
    rw [h.parameters] at hweight
    rw [h.attributes, h.buffers, h.nonPersistent]
    exact hnew.weight hweight

theorem Quantized.of_same (hsame : Same l₀ l) (h : Quantized torch l l' m k kind) : Quantized torch l₀ l' m k kind where
  weight := by
    obtain ⟨weight, hget, hrest⟩ := h.weight
    exact ⟨weight, (hsame.parameters _).symm.trans hget, hrest⟩
  noParameter := h.noParameter
  flag := h.flag
  kind := h.kind
  m := h.m
  k := h.k
  parameters name hname := (h.parameters name hname).trans (hsame.parameters name)
  buffers name hname hname' := (h.buffers name hname hname').trans (hsame.buffers name)
  attributes name hname := (h.attributes name hname).trans (hsame.attributes name)

theorem Quantized.isGfx936QuantizedLayer (h : Quantized torch l l' m k kind) : isGfx936QuantizedLayer l' = true := by
  rw [Gfx936.isGfx936QuantizedLayer, h.flag]

theorem Module.New.isGfx936QuantizedLayer (h : l.New) : isGfx936QuantizedLayer l = false := by
  rw [Gfx936.isGfx936QuantizedLayer, h.attributes _ List.mem_cons_self]

structure Aside (l l' : Module T) : Prop where
  parameters : ∀ name ≠ "weight", l'.parameters.get? name = l.parameters.get? name
  buffers : ∀ name ≠ "weight", name ≠ "gfx936_scale" → l'.buffers.get? name = l.buffers.get? name
  nonPersistent : ∀ name ≠ "weight", name ≠ "gfx936_scale" →
    (name ∈ l'.nonPersistentBuffersSet ↔ name ∈ l.nonPersistentBuffersSet)
  attributes : ∀ name ∉ quantAttributes, l'.attributes.get? name = l.attributes.get? name

theorem Aside.registerBuffer {name : String} (h : Aside l l') (hname : name = "weight" ∨ name = "gfx936_scale") (t : T) :
    Aside l (l'.registerBuffer name t) where
  parameters := h.parameters
  buffers name' hweight hscale := by
    rw [Module.registerBuffer, Dict.get?_set, if_neg]
    · exact h.buffers name' hweight hscale
    · rintro rfl
      exact hname.elim hweight hscale
  nonPersistent name' hweight hscale := by
    rw [Module.registerBuffer, Finset.mem_insert, or_iff_right]
    · exact h.nonPersistent name' hweight hscale
    · rintro rfl
      exact hname.elim hweight hscale
  attributes := h.attributes

theorem Aside.setattr {name : String} (h : Aside l l') (hname : name ∈ quantAttributes) (value : Attr T) :
    Aside l (l'.setattr name value) where
  parameters := h.parameters
  buffers := h.buffers
  nonPersistent := h.nonPersistent
  attributes name' hname' := by
    rw [Module.setattr, Dict.get?_set, if_neg]
    · exact h.attributes name' hname'
    · rintro rfl
      exact hname' hname

theorem aside_installSteps (h : Aside l l') :
    ∀ step ∈ installSteps packed scale kind m k, Aside l (step.2 l') := by
  simp only [installSteps, List.forall_mem_cons]
  refine ⟨h.registerBuffer (.inl rfl) _, h.registerBuffer (.inr rfl) _, h.setattr ?_ _, h.setattr ?_ _, h.setattr ?_ _,
    h.setattr ?_ _, List.forall_mem_nil _⟩ <;> decide

theorem aside_runInstall {steps : List (InstallStep × (Module T → Module T))}
    (hsteps : ∀ step ∈ steps, ∀ l', Aside l l' → Aside l (step.2 l')) (h : Aside l l') :
    Aside l (runInstall fault steps l').2 := by
  induction steps generalizing l' with
  | nil => exact h
  | cons step steps ih =>
    obtain ⟨hstep, hsteps⟩ := List.forall_mem_cons.mp hsteps
    rw [runInstall]
    split
    · dsimp only
      split
      · exact hstep l' h
      · exact h
    · exact ih hsteps (hstep l' h)

theorem runInstall_ok {steps : List (InstallStep × (Module T → Module T))} (h : (runInstall fault steps l).1 = .ok ()) :
    (runInstall fault steps l).2 = steps.foldl (fun l step => step.2 l) l := by
  induction steps generalizing l with
  | nil => rfl
  | cons step steps ih =>
    rw [runInstall] at h ⊢
    split at h
    · cases h
    · exact ih h

theorem get?_eraseAll (d : Dict String (Attr T)) (names : List String) (name : String) :
    (names.foldl Dict.erase d).get? name = if name ∈ names then none else d.get? name := by
  induction names generalizing d with
  | nil => rfl
  | cons name' names ih =>
    rw [List.foldl_cons, ih, Dict.get?_erase]
    by_cases hin : name ∈ names
    · rw [if_pos hin, if_pos (List.mem_cons_of_mem _ hin)]
    · rw [if_neg hin]
      by_cases heq : name' = name
      · rw [if_pos heq, if_pos (heq ▸ List.mem_cons_self)]
      · rw [if_neg heq, if_neg]
        exact List.not_mem_cons_of_ne_of_not_mem (Ne.symm heq) hin

theorem same_rollback {originalParameter : Option T} (hnew : l.New)
    (hget : l.parameters.get? "weight" = some originalParameter) (h : Aside l l') :
    Same l (rollback originalParameter l') := by
  obtain ⟨-, hbuffer, hset⟩ := hnew.weight (by rw [hget]; exact Option.some_ne_none _)
  refine ⟨fun name => ?_, fun name => ?_, ?_, fun name => ?_⟩
  · rw [rollback, Dict.get?_set]
    split
    · rename_i heq
      rw [← heq, hget]
    · rename_i hne
      exact h.parameters name (Ne.symm hne)
  · rw [rollback, Dict.get?_erase, Dict.get?_erase]
    split
    · rename_i heq
      rw [← heq, hnew.scale.1]
    · rename_i hscale
      split
      · rename_i heq
        rw [← heq, hbuffer]
      · rename_i hweight
        exact h.buffers name (Ne.symm hweight) (Ne.symm hscale)
  · ext name
    rw [rollback, Finset.mem_erase, Finset.mem_erase]
    by_cases hscale : name = "gfx936_scale"
    · rw [hscale]
      exact iff_of_false (fun h => h.1 rfl) hnew.scale.2
    · by_cases hweight : name = "weight"
      · rw [hweight]
        exact iff_of_false (fun h => h.2.1 rfl) hset
      · rw [h.nonPersistent name hweight hscale]
        exact ⟨fun h => h.2.2, fun h => ⟨hscale, hweight, h⟩⟩
  · rw [rollback, get?_eraseAll]
    split
    · rename_i hin
      exact (hnew.attributes name hin).symm
    · rename_i hnot
      exact h.attributes name hnot

theorem quantized_installSteps {weight : T} (hget : l.parameters.get? "weight" = some (some weight))
    (hshape : torch.shape weight = [m, k]) (hpacked : torch.packWeight weight kind = (packed, scale))
    (haside : Aside l l') (hdone : l' = (installSteps packed scale kind m k).foldl (fun l step => step.2 l)
      { l with parameters := l.parameters.erase "weight" }) : Quantized torch l l' m k kind where
  weight := by
    refine ⟨weight, hget, hshape, ?_, ?_⟩ <;> rw [hdone, hpacked] <;>
      simp [installSteps, Module.registerBuffer, Module.setattr]
  noParameter := by
    rw [hdone]
    exact (Dict.get?_erase _ _ _).trans (if_pos rfl)
  flag := by rw [hdone]; simp [installSteps, Module.registerBuffer, Module.setattr]
  kind := by rw [hdone]; simp [installSteps, Module.registerBuffer, Module.setattr]
  m := by rw [hdone]; simp [installSteps, Module.registerBuffer, Module.setattr]
  k := by rw [hdone]; simp [installSteps, Module.registerBuffer, Module.setattr]
  parameters := haside.parameters
  buffers := haside.buffers
  attributes := haside.attributes

theorem installQuantizedWeight_cases {weight : T} (hnew : l.New) (hweight : l.getattr "weight" = some (.tensor weight))
    (hshape : torch.shape weight = [m, k]) (hpacked : torch.packWeight weight kind = (packed, scale)) :
    (∃ l', installQuantizedWeight fault packed scale kind m k l = (.ok (), l') ∧ Quantized torch l l' m k kind) ∨
      ∃ error l', installQuantizedWeight fault packed scale kind m k l = (.error error, l') ∧ Same l l' := by
  unfold installQuantizedWeight
  cases hget : l.parameters.get? "weight" with
  | none => exact .inr ⟨_, _, rfl, Same.refl l⟩
  | some originalParameter =>
    have hpop : Aside l { l with parameters := l.parameters.erase "weight" } :=
      ⟨fun name hname => (Dict.get?_erase _ _ _).trans (if_neg (Ne.symm hname)), fun _ _ _ => rfl,
        fun _ _ _ => Iff.rfl, fun _ _ => rfl⟩
    have haside : Aside l (runInstall fault (installSteps packed scale kind m k)
        { l with parameters := l.parameters.erase "weight" }).2 :=
      aside_runInstall (fun step hstep l' h => aside_installSteps h step hstep) hpop
    dsimp only
    cases hrun : runInstall fault (installSteps packed scale kind m k)
        { l with parameters := l.parameters.erase "weight" } with
    | mk r l' =>
      rw [hrun] at haside
      cases r with
      | error error => exact .inr ⟨_, _, rfl, same_rollback hnew hget haside⟩
      | ok =>
        have hdone := runInstall_ok (congrArg Prod.fst hrun)
        rw [hrun] at hdone
        obtain ⟨hattr, -, -⟩ := hnew.weight (by rw [hget]; exact Option.some_ne_none _)
        have hown : originalParameter = some weight := by
          rw [Module.getattr, hattr, hget, Option.none_or, Option.some_or, Option.map_some] at hweight
          cases originalParameter with
          | none => cases hweight
          | some t =>
            cases hweight
            rfl
        exact .inl ⟨l', rfl, quantized_installSteps (hown ▸ hget) hshape hpacked haside hdone⟩

end Install

section Loop

variable {F T : Type} {torch : Torch F T} {circumstances : Circumstances F} {weight : T} {kind : QuantKind} {m k : Nat}
  {w : Work F T}

def Kept (torch : Torch F T) (cache cache' : Dict (Nat × Nat × QuantKind) (AdmissionResult F)) : Prop :=
  ∀ key decision, cache.get? key = some decision → ∃ decision', cache'.get? key = some decision' ∧
    (decision' = decision ∨ ∃ error, decision' = conversionErrorResult torch error)

theorem Kept.refl (cache : Dict (Nat × Nat × QuantKind) (AdmissionResult F)) : Kept torch cache cache :=
  fun _ decision h => ⟨decision, h, .inl rfl⟩

theorem Kept.trans {cache cache' cache'' : Dict (Nat × Nat × QuantKind) (AdmissionResult F)} (h : Kept torch cache cache')
    (h' : Kept torch cache' cache'') : Kept torch cache cache'' := by
  intro key decision hget
  obtain ⟨decision', hget', hor⟩ := h key decision hget
  obtain ⟨decision'', hget'', rfl | herror⟩ := h' key decision' hget'
  · exact ⟨decision'', hget'', hor⟩
  · exact ⟨decision'', hget'', .inr herror⟩

theorem Kept.decided {cache cache' : Dict (Nat × Nat × QuantKind) (AdmissionResult F)} (h : Kept torch cache cache')
    {key : Nat × Nat × QuantKind} (hdecided : Session.Decided torch cache key) : Session.Decided torch cache' key := by
  obtain ⟨decision, hget, hor⟩ := hdecided
  obtain ⟨decision', hget', rfl | herror⟩ := h key decision hget
  · exact ⟨decision', hget', hor⟩
  · exact ⟨decision', hget', .inr herror⟩

theorem kept_reject (key : Nat × Nat × QuantKind) (error : Exn) :
    Kept torch w.admissionCache (w.reject torch key error).admissionCache := by
  intro key' decision hget
  by_cases hkey : key = key'
  · exact ⟨_, (Dict.get?_set _ _ _ _).trans (if_pos hkey), .inr ⟨error, rfl⟩⟩
  · exact ⟨decision, (Dict.get?_set _ _ _ _).trans ((if_neg hkey).trans hget), .inl rfl⟩

def Untouched (torch : Torch F T) (w w' : Work F T) : Prop :=
  Same w.layer w'.layer ∧ w'.activeLayerCount = w.activeLayerCount ∧ Kept torch w.admissionCache w'.admissionCache

def Installed (torch : Torch F T) (m k : Nat) (kind : QuantKind) (w w' : Work F T) : Prop :=
  Quantized torch w.layer w'.layer m k kind ∧ w'.activeLayerCount = w.activeLayerCount + 1 ∧
    Kept torch w.admissionCache w'.admissionCache ∧
    ∃ decision, w'.admissionCache.get? (m, k, kind) = some decision ∧ decision.accepted = true

theorem Untouched.refl (w : Work F T) : Untouched torch w w := ⟨Same.refl _, rfl, Kept.refl _⟩

theorem admissionDecision_spec {key : Nat × Nat × QuantKind} {decision : AdmissionResult F} {w' : Work F T}
    (h : admissionDecision circumstances key w = .ok (decision, w')) :
    w'.admissionCache.get? key = some decision ∧ w'.layer = w.layer ∧ w'.activeLayerCount = w.activeLayerCount ∧
      Kept torch w.admissionCache w'.admissionCache := by
  unfold admissionDecision at h
  split at h
  · rename_i hget
    cases h
    exact ⟨hget, rfl, rfl, Kept.refl _⟩
  · rename_i hnone
    split at h
    · cases h
      refine ⟨(Dict.get?_set _ _ _ _).trans (if_pos rfl), rfl, rfl, fun key' decision' hget => ?_⟩
      have hkey : key ≠ key' := by
        rintro rfl
        exact Option.some_ne_none _ (hget.symm.trans hnone)
      exact ⟨decision', (Dict.get?_set _ _ _ _).trans ((if_neg hkey).trans hget), .inl rfl⟩
    · cases h

theorem tryCandidate_spec (hnew : w.layer.New) (hweight : w.layer.getattr "weight" = some (.tensor weight))
    (hshape : torch.shape weight = [m, k]) :
    ((tryCandidate torch circumstances weight m k kind w).1 = false ∧
        Untouched torch w (tryCandidate torch circumstances weight m k kind w).2) ∨
      ((tryCandidate torch circumstances weight m k kind w).1 = true ∧
        Installed torch m k kind w (tryCandidate torch circumstances weight m k kind w).2) := by
  have hreject : ∀ error, Untouched torch w (w.reject torch (m, k, kind) error) :=
    fun error => ⟨Same.refl _, rfl, kept_reject _ error⟩
  unfold tryCandidate
  dsimp only
  split
  · exact .inl ⟨rfl, Untouched.refl w⟩
  · split
    · exact .inl ⟨rfl, hreject _⟩
    · split
      · exact .inl ⟨rfl, hreject _⟩
      · rename_i decision w' hdecision
        obtain ⟨hcache, hlayer, hcount, hkept⟩ := admissionDecision_spec hdecision
        split
        · exact .inl ⟨rfl, hlayer ▸ Same.refl _, hcount, hkept⟩
        · rename_i haccepted
          rw [hlayer]
          have hcases := @installQuantizedWeight_cases F T torch w.layer _ _ kind m k (circumstances.install kind)
            weight hnew hweight hshape rfl
          rcases hcases with ⟨l', hinstall, hquantized⟩ | ⟨error, l', hinstall, hsame⟩
          · rw [hinstall]
            refine .inr ⟨rfl, hquantized, congrArg (· + 1) hcount, hkept, decision, hcache, ?_⟩
            simpa using haccepted
          · rw [hinstall]
            exact .inl ⟨rfl, hsame, hcount, hkept.trans (kept_reject _ error)⟩

theorem tryCandidates_spec {kinds : List QuantKind} (hnew : w.layer.New)
    (hweight : w.layer.getattr "weight" = some (.tensor weight)) (hshape : torch.shape weight = [m, k]) :
    Untouched torch w (tryCandidates torch circumstances weight m k kinds w) ∨
      ∃ kind, Installed torch m k kind w (tryCandidates torch circumstances weight m k kinds w) := by
  induction kinds generalizing w with
  | nil => exact .inl (Untouched.refl w)
  | cons kind kinds ih =>
    have hround := @tryCandidate_spec F T torch circumstances weight kind m k w hnew hweight hshape
    rw [tryCandidates]
    cases hresult : tryCandidate torch circumstances weight m k kind w with
    | mk returned w' =>
      rw [hresult] at hround
      rcases hround with ⟨rfl, hsame, hcount, hkept⟩ | ⟨rfl, hinstalled⟩
      · rcases ih (hsame.new hnew) ((hsame.getattr _).trans hweight) with ⟨hsame', hcount', hkept'⟩ | ⟨kind', hrest⟩
        · exact .inl ⟨hsame.trans hsame', hcount'.trans hcount, hkept.trans hkept'⟩
        · obtain ⟨hquantized, hcount', hkept', hdecision⟩ := hrest
          exact .inr ⟨kind', hquantized.of_same hsame, hcount'.trans (congrArg (· + 1) hcount), hkept.trans hkept',
            hdecision⟩
      · exact .inr ⟨kind, hinstalled⟩

theorem eligible_eq_some {l : Module T} (h : eligible torch circumstances l = .ok (some (weight, m, k))) :
    l.getattr "weight" = some (.tensor weight) ∧ torch.shape weight = [m, k] := by
  unfold eligible at h
  cases hruntime : circumstances.isGfx936Runtime with
  | error error =>
    rw [hruntime] at h
    cases h
  | ok supported =>
    rw [hruntime] at h
    cases hload : circumstances.loadKernelLibrary with
    | error error =>
      rw [hload] at h
      cases supported <;> cases h
    | ok =>
      rw [hload] at h
      cases hinspect : circumstances.inspection with
      | error error =>
        rw [hinspect] at h
        cases supported <;> cases h
      | ok =>
        rw [hinspect] at h
        cases supported with
        | false => cases h
        | true =>
          simp only [bind, Except.bind, pure, Except.pure, Bool.not_true, Bool.false_eq_true, if_false] at h
          split at h
          · rename_i weight' hweight
            split at h
            · cases h
            · split at h
              · rename_i m' k' hshape
                split at h
                · cases h
                  exact ⟨hweight, hshape⟩
                · cases h
              · cases h
          · cases h

theorem maybeQuantizeGfx936Layer_spec (hnew : w.layer.New) :
    Untouched torch w (maybeQuantizeGfx936Layer torch circumstances w) ∨
      ∃ m k kind, Installed torch m k kind w (maybeQuantizeGfx936Layer torch circumstances w) := by
  have huntouched : Untouched torch w w := Untouched.refl w
  unfold maybeQuantizeGfx936Layer
  split
  · exact .inl huntouched
  · split
    · exact .inl huntouched
    · split
      · exact .inl huntouched
      · exact .inl huntouched
      · rename_i weight m k heligible
        obtain ⟨hweight, hshape⟩ := eligible_eq_some heligible
        exact (tryCandidates_spec hnew hweight hshape).imp_right fun h => ⟨m, k, h⟩

end Loop

namespace Session

variable {F T : Type} {torch : Torch F T} {s s₀ : Session F T} {layers : List { l : Module T // l.New }}

theorem countP_set {p : Module T → Bool} {l : List (Module T)} {i : Nat} {a a' : Module T} (h : l[i]? = some a) :
    (l.set i a').countP p + (if p a then 1 else 0) = l.countP p + (if p a' then 1 else 0) := by
  obtain ⟨hi, rfl⟩ := List.getElem?_eq_some_iff.mp h
  have hle := List.boole_getElem_le_countP (p := p) (l := l) hi
  rw [List.countP_set hi]
  omega

theorem init_new {i : Nat} {l : Module T} (h : (init F layers).layers[i]? = some l) : l.New := by
  obtain ⟨⟨l, hl⟩, -, rfl⟩ := List.mem_map.mp (List.mem_of_getElem? h)
  exact hl

theorem Books.set (h : Books torch s₀ s) {i : Nat} {l l' l₀ : Module T} {count : Nat}
    {cache : Dict (Nat × Nat × QuantKind) (AdmissionResult F)} (hget : s.layers[i]? = some l)
    (hfirst : s₀.layers[i]? = some l₀)
    (hlayer : (isGfx936QuantizedLayer l' = false ∧ Same l₀ l') ∨
      (isGfx936QuantizedLayer l' = true ∧ ∃ m k kind, Quantized torch l₀ l' m k kind ∧ Decided torch cache (m, k, kind)))
    (hkept : Kept torch s.admissionCache cache)
    (hcount : count + (if isGfx936QuantizedLayer l then 1 else 0) =
      s.activeLayerCount + (if isGfx936QuantizedLayer l' then 1 else 0)) :
    Books torch s₀ ⟨s.layers.set i l', cache, count⟩ where
  layers j l₁ l₂ hl₁ hl₂ := by
    by_cases hj : j = i
    · subst hj
      dsimp only at hl₂
      rw [List.getElem?_set_self (List.getElem?_eq_some_iff.mp hget).1] at hl₂
      cases hl₂
      cases hfirst.symm.trans hl₁
      exact hlayer
    · dsimp only at hl₂
      rw [List.getElem?_set_ne (Ne.symm hj)] at hl₂
      refine (h.layers j l₁ l₂ hl₁ hl₂).imp_right fun hquantized => ⟨hquantized.1, ?_⟩
      obtain ⟨m, k, kind, hfull, hdecided⟩ := hquantized.2
      exact ⟨m, k, kind, hfull, hkept.decided hdecided⟩
  count := by
    have hset := @countP_set T isGfx936QuantizedLayer s.layers i l l' hget
    have := h.count
    dsimp only
    omega
  length := by
    rw [List.length_set]
    exact h.length

theorem run_spec (h : Books torch (init F layers) s) (call : Call F) :
    Books torch (init F layers) (s.run torch call) ∧ Behaves torch s call := by
  unfold Behaves run
  cases hget : s.layers[call.layer]? with
  | none => exact ⟨h, fun _ _ => rfl, fun l l' hl => by cases hl⟩
  | some l =>
    have hi := (List.getElem?_eq_some_iff.mp hget).1
    obtain ⟨l₀, hfirst⟩ : ∃ l₀, (init F layers).layers[call.layer]? = some l₀ :=
      ⟨_, List.getElem?_eq_getElem (h.length ▸ hi)⟩
    have hother : ∀ l' : Module T, ∀ i ≠ call.layer, (s.layers.set call.layer l')[i]? = s.layers[i]? :=
      fun l' i hne => List.getElem?_set_ne (Ne.symm hne)
    have hself : ∀ l' : Module T, (s.layers.set call.layer l')[call.layer]? = some l' :=
      fun l' => List.getElem?_set_self hi
    dsimp only
    rcases h.layers _ l₀ l hfirst hget with ⟨hflag, hsame⟩ | ⟨hflag, hquantized⟩
    · have hnew := hsame.new (init_new hfirst)
      have hcall := @maybeQuantizeGfx936Layer_spec F T torch call.circumstances
        ⟨l, s.admissionCache, s.activeLayerCount⟩ hnew
      rcases hcall with ⟨hsame', hcount, hkept⟩ | ⟨m, k, kind, hinstalled⟩
      · have hflag' := hsame'.isGfx936QuantizedLayer.trans hflag
        refine ⟨h.set hget hfirst (.inl ⟨hflag', hsame.trans hsame'⟩) hkept (by rw [hflag, hflag', hcount]), hother _, ?_⟩
        intro l₁ l₂ hl₁ hl₂
        cases hl₁
        rw [hself] at hl₂
        cases hl₂
        exact .inl hsame'
      · obtain ⟨hquantized, hcount, hkept, decision, hdecision, haccepted⟩ := hinstalled
        have hflag' := hquantized.isGfx936QuantizedLayer
        have hdecided : Decided torch _ (m, k, kind) := ⟨decision, hdecision, .inl haccepted⟩
        refine ⟨h.set hget hfirst (.inr ⟨hflag', m, k, kind, hquantized.of_same hsame, hdecided⟩) hkept
          (by rw [hflag, hflag', hcount]; rfl), hother _, ?_⟩
        intro l₁ l₂ hl₁ hl₂
        cases hl₁
        rw [hself] at hl₂
        cases hl₂
        exact .inr ⟨m, k, kind, hquantized, decision, hdecision, haccepted⟩
    · have hunchanged : maybeQuantizeGfx936Layer torch call.circumstances ⟨l, s.admissionCache, s.activeLayerCount⟩ =
          ⟨l, s.admissionCache, s.activeLayerCount⟩ := if_pos hflag
      rw [hunchanged]
      refine ⟨h.set hget hfirst (.inr ⟨hflag, hquantized⟩) (Kept.refl _) rfl, hother _, ?_⟩
      intro l₁ l₂ hl₁ hl₂
      cases hl₁
      rw [hself] at hl₂
      cases hl₂
      exact .inl (Same.refl l)

theorem books_init (torch : Torch F T) (layers : List { l : Module T // l.New }) :
    Books torch (init F layers) (init F layers) where
  layers i l₀ l hl₀ hl := by
    cases hl₀.symm.trans hl
    exact .inl ⟨(init_new hl).isGfx936QuantizedLayer, Same.refl _⟩
  count := by
    refine (List.countP_eq_zero.mpr fun l hl => ?_).symm
    obtain ⟨⟨l, hnew⟩, -, rfl⟩ := List.mem_map.mp hl
    rw [hnew.isGfx936QuantizedLayer]
    exact Bool.false_ne_true
  length := rfl

/-- In every run of calls the layers are quantised in full or not at all, and the count tells how many are. -/
theorem books_throughout (torch : Torch F T) (layers : List { l : Module T // l.New }) (calls : List (Call F)) :
    Throughout (step torch) (Books torch (init F layers)) (init F layers) calls ∧
      Guarded (step torch) (Behaves torch) (init F layers) calls := by
  have hstep : ∀ s call, Books torch (init F layers) s → ∃ s', step torch s call = .ok s' ∧
      (Books torch (init F layers) s' ∧ Behaves torch s call ↔ True) :=
    fun s call h => ⟨s.run torch call, rfl, iff_true_intro (run_spec h call)⟩
  exact (throughout_and_guarded_iff hstep (books_init torch layers) calls).mpr (guarded_true _ _)

def oneShape : Torch (Option Nat) Nat where
  ndim _ := 2
  isContiguous _ := true
  isBfloat16 _ := true
  isCuda _ := true
  shape _ := [96, 5120]
  packWeight weight _ := (weight, 0)
  nan := none
  zero := some 0

def plainLayer : Module Nat where
  parameters := Dict.empty.set "weight" (some 0)
  buffers := Dict.empty
  nonPersistentBuffersSet := ∅
  attributes := Dict.empty

theorem plainLayer_new : plainLayer.New where
  scale := ⟨rfl, Finset.notMem_empty _⟩
  attributes _ _ := rfl
  weight _ := ⟨rfl, rfl, Finset.notMem_empty _⟩

def twoLayers : List { l : Module Nat // l.New } := [⟨plainLayer, plainLayer_new⟩, ⟨plainLayer, plainLayer_new⟩]

def w8Call (layer : Nat) (pack : Except Exn Unit) : Call (Option Nat) where
  layer := layer
  circumstances :=
    { mode := .w8
      isGfx936Runtime := .ok true
      loadKernelLibrary := .ok ()
      inspection := .ok ()
      pack := fun _ => pack
      benchmark := fun _ => .ok ⟨true, some 0, some 1, some 2, some 1, some 2, "accepted"⟩
      install := fun _ _ => none }

/-- A layer is quantised; the weight of another one of its shape cannot be packed. -/
theorem not_backed_twoLayers :
    ¬ Throughout (step oneShape) (Backed oneShape (init _ twoLayers)) (init _ twoLayers)
      [w8Call 0 (.ok ()), w8Call 1 (.error ⟨"RuntimeError", "out of memory"⟩)] := by
  intro hbacked
  have hend := (hbacked.2 _ rfl).2 _ rfl
  have hbooks := (run_spec (run_spec (books_init oneShape twoLayers) (w8Call 0 (.ok ()))).1
    (w8Call 1 (.error ⟨"RuntimeError", "out of memory"⟩))).1
  rcases hbooks.layers 0 _ _ rfl rfl with ⟨hflag, -⟩ | ⟨-, m, k, kind, hquantized, -⟩
  · exact absurd hflag (by decide +kernel)
  · obtain ⟨decision, hget, haccepted⟩ := hend 0 _ _ rfl rfl m k kind hquantized
    obtain ⟨_, -, hshape, -⟩ := hquantized.weight
    cases hshape
    have hcached : ∀ kind, ((((init _ twoLayers).run oneShape (w8Call 0 (.ok ()))).run oneShape
        (w8Call 1 (.error ⟨"RuntimeError", "out of memory"⟩))).admissionCache.get? (96, 5120, kind)).all
          (! ·.accepted) = true := by
      intro kind
      cases kind <;> decide +kernel
    have := hcached kind
    rw [hget, Option.all_some, haccepted] at this
    exact absurd this (by decide)

end Session

end Vllm.Gfx936
