import Mathlib.Algebra.GroupWithZero.Nat
import Mathlib.Data.Finset.Basic
import Vllm.Lib.Dict
import Vllm.Lib.Run

namespace Vllm.Gfx936

inductive QuantMode
  | off
  | w8
  | hybridW4
  deriving DecidableEq, Repr

inductive QuantKind
  | w8
  | w4
  deriving DecidableEq, Repr

def QuantKind.code : QuantKind → Nat
  | .w8 => 8
  | .w4 => 4

def quantShapes : List (Nat × Nat) :=
  [(16384, 5120), (96, 5120), (14336, 5120), (5120, 6144), (34816, 5120), (5120, 17408)]

def w4MlpShapes : List (Nat × Nat) := [(34816, 5120), (5120, 17408)]

def isQuantShape (m k : Nat) : Bool := (m, k) ∈ quantShapes

def candidateKinds (mode : QuantMode) (m k : Nat) : List QuantKind :=
  if mode = .off ∨ ¬ isQuantShape m k then []
  else if mode = .hybridW4 ∧ (m, k) ∈ w4MlpShapes then [.w4, .w8]
  else [.w8]

structure Exn where
  typeName : String
  message : String
  deriving DecidableEq, Repr

structure AdmissionResult (F : Type) where
  accepted : Bool
  nrmse : F
  cosine : F
  baselineMs : F
  candidateMs : F
  speedup : F
  reason : String

/-- What the layers' code uses of tensors, and two floats. -/
structure Torch (F T : Type) where
  ndim : T → Nat
  isContiguous : T → Bool
  isBfloat16 : T → Bool
  isCuda : T → Bool
  shape : T → List Nat
  packWeight : T → QuantKind → T × T
  nan : F
  zero : F

inductive Attr (T : Type)
  | none
  | bool (b : Bool)
  | int (n : Nat)
  | tensor (t : T)

def Attr.ofOption {T : Type} : Option T → Attr T
  | .none => .none
  | .some t => .tensor t

structure Module (T : Type) where
  parameters : Dict String (Option T)
  buffers : Dict String (Option T)
  nonPersistentBuffersSet : Finset String
  attributes : Dict String (Attr T)

namespace Module

variable {T : Type}

def getattr (l : Module T) (name : String) : Option (Attr T) :=
  (l.attributes.get? name).or (((l.parameters.get? name).or (l.buffers.get? name)).map Attr.ofOption)

def hasBias (l : Module T) : Bool :=
  match l.getattr "bias" with
  | none | some .none => false
  | some _ => true

def registerBuffer (name : String) (t : T) (l : Module T) : Module T :=
  { l with
    buffers := l.buffers.set name (some t)
    nonPersistentBuffersSet := insert name l.nonPersistentBuffersSet }

def setattr (name : String) (value : Attr T) (l : Module T) : Module T :=
  { l with attributes := l.attributes.set name value }

end Module

def quantAttributes : List String :=
  ["_fdu_gfx936_quantized", "_fdu_gfx936_quant_kind", "_fdu_gfx936_quant_m", "_fdu_gfx936_quant_k"]

section Code

variable {F T : Type}

def isGfx936QuantizedLayer (l : Module T) : Bool :=
  match l.attributes.get? "_fdu_gfx936_quantized" with
  | some (.bool b) => b
  | some (.int n) => n ≠ 0
  | _ => false

def conversionErrorResult (torch : Torch F T) (error : Exn) : AdmissionResult F where
  accepted := false
  nrmse := torch.nan
  cosine := torch.nan
  baselineMs := torch.zero
  candidateMs := torch.zero
  speedup := torch.zero
  reason := "rejected:error=" ++ error.typeName ++ ":" ++ error.message

inductive InstallStep
  | weightBuffer
  | scaleBuffer
  | quantizedFlag
  | kind
  | m
  | k
  deriving DecidableEq, Repr

structure Circumstances (F : Type) where
  mode : QuantMode
  isGfx936Runtime : Except Exn Bool
  loadKernelLibrary : Except Exn Unit
  inspection : Except Exn Unit
  pack : QuantKind → Except Exn Unit
  benchmark : QuantKind → Except Exn (AdmissionResult F)
  install : QuantKind → InstallStep → Option (Exn × Bool)

def installSteps (packed scale : T) (kind : QuantKind) (m k : Nat) : List (InstallStep × (Module T → Module T)) :=
  [(.weightBuffer, Module.registerBuffer "weight" packed),
    (.scaleBuffer, Module.registerBuffer "gfx936_scale" scale),
    (.quantizedFlag, Module.setattr "_fdu_gfx936_quantized" (.bool true)),
    (.kind, Module.setattr "_fdu_gfx936_quant_kind" (.int kind.code)),
    (.m, Module.setattr "_fdu_gfx936_quant_m" (.int m)),
    (.k, Module.setattr "_fdu_gfx936_quant_k" (.int k))]

def runInstall (fault : InstallStep → Option (Exn × Bool)) :
    List (InstallStep × (Module T → Module T)) → Module T → Except Exn Unit × Module T
  | [], l => (.ok (), l)
  | (step, effect) :: steps, l =>
    match fault step with
    | some (error, done) => (.error error, if done then effect l else l)
    | none => runInstall fault steps (effect l)

def rollback (originalParameter : Option T) (l : Module T) : Module T where
  parameters := l.parameters.set "weight" originalParameter
  buffers := (l.buffers.erase "weight").erase "gfx936_scale"
  nonPersistentBuffersSet := (l.nonPersistentBuffersSet.erase "weight").erase "gfx936_scale"
  attributes := quantAttributes.foldl Dict.erase l.attributes

def installQuantizedWeight (fault : InstallStep → Option (Exn × Bool)) (packed scale : T) (kind : QuantKind) (m k : Nat)
    (l : Module T) : Except Exn Unit × Module T :=
  match l.parameters.get? "weight" with
  | none => (.error ⟨"KeyError", "'weight'"⟩, l)
  | some originalParameter =>
    match runInstall fault (installSteps packed scale kind m k) { l with parameters := l.parameters.erase "weight" } with
    | (.ok (), l') => (.ok (), l')
    | (.error error, l') => (.error error, rollback originalParameter l')

structure Work (F T : Type) where
  layer : Module T
  admissionCache : Dict (Nat × Nat × QuantKind) (AdmissionResult F)
  activeLayerCount : Nat

def Work.reject (torch : Torch F T) (key : Nat × Nat × QuantKind) (error : Exn) (w : Work F T) : Work F T :=
  { w with admissionCache := w.admissionCache.set key (conversionErrorResult torch error) }

def admissionDecision (circumstances : Circumstances F) (key : Nat × Nat × QuantKind) (w : Work F T) :
    Except Exn (AdmissionResult F × Work F T) :=
  match w.admissionCache.get? key with
  | some decision => .ok (decision, w)
  | none =>
    match circumstances.benchmark key.2.2 with
    | .ok decision => .ok (decision, { w with admissionCache := w.admissionCache.set key decision })
    | .error error => .error error

def tryCandidate (torch : Torch F T) (circumstances : Circumstances F) (weight : T) (m k : Nat) (kind : QuantKind)
    (w : Work F T) : Bool × Work F T :=
  let key := (m, k, kind)
  if (w.admissionCache.get? key).any (! ·.accepted) then (false, w)
  else
    match circumstances.pack kind with
    | .error error => (false, w.reject torch key error)
    | .ok () =>
      let packed := (torch.packWeight weight kind).1
      let scale := (torch.packWeight weight kind).2
      match admissionDecision circumstances key w with
      | .error error => (false, w.reject torch key error)
      | .ok (decision, w) =>
        if ! decision.accepted then (false, w)
        else
          match installQuantizedWeight (circumstances.install kind) packed scale kind m k w.layer with
          | (.error error, layer) => (false, Work.reject torch key error { w with layer })
          | (.ok (), layer) => (true, { w with layer, activeLayerCount := w.activeLayerCount + 1 })

def tryCandidates (torch : Torch F T) (circumstances : Circumstances F) (weight : T) (m k : Nat) :
    List QuantKind → Work F T → Work F T
  | [], w => w
  | kind :: kinds, w =>
    match tryCandidate torch circumstances weight m k kind w with
    | (true, w) => w
    | (false, w) => tryCandidates torch circumstances weight m k kinds w

def eligible (torch : Torch F T) (circumstances : Circumstances F) (l : Module T) : Except Exn (Option (T × Nat × Nat)) := do
  if ! (← circumstances.isGfx936Runtime) then return none
  circumstances.loadKernelLibrary
  circumstances.inspection
  match l.getattr "weight" with
  | some (.tensor weight) =>
    if torch.ndim weight ≠ 2 ∨ ! torch.isContiguous weight ∨ ! torch.isBfloat16 weight ∨ ! torch.isCuda weight ∨ l.hasBias then
      return none
    match torch.shape weight with
    | [m, k] => return if isQuantShape m k then some (weight, m, k) else none
    | _ => throw ⟨"ValueError", "wrong number of values to unpack"⟩
  | _ => return none

def maybeQuantizeGfx936Layer (torch : Torch F T) (circumstances : Circumstances F) (w : Work F T) : Work F T :=
  if isGfx936QuantizedLayer w.layer then w
  else if circumstances.mode = .off then w
  else
    match eligible torch circumstances w.layer with
    | .error _ | .ok none => w
    | .ok (some (weight, m, k)) =>
      tryCandidates torch circumstances weight m k (candidateKinds circumstances.mode m k) w

end Code

/-- A layer as it is built: the names of the quantisation are not in use, and its weight is nothing but a parameter. -/
structure Module.New {T : Type} (l : Module T) : Prop where
  scale : l.buffers.get? "gfx936_scale" = none ∧ "gfx936_scale" ∉ l.nonPersistentBuffersSet
  attributes : ∀ name ∈ quantAttributes, l.attributes.get? name = none
  weight : l.parameters.get? "weight" ≠ none → l.attributes.get? "weight" = none ∧ l.buffers.get? "weight" = none ∧
    "weight" ∉ l.nonPersistentBuffersSet

structure Session (F T : Type) where
  layers : List (Module T)
  admissionCache : Dict (Nat × Nat × QuantKind) (AdmissionResult F)
  activeLayerCount : Nat

namespace Session

variable {F T : Type}

def init (F : Type) (layers : List { l : Module T // l.New }) : Session F T := ⟨layers.map Subtype.val, Dict.empty, 0⟩

/-- The `i`-th layer is offered. -/
structure Call (F : Type) where
  layer : Nat
  circumstances : Circumstances F

def run (torch : Torch F T) (s : Session F T) (call : Call F) : Session F T :=
  match s.layers[call.layer]? with
  | none => s
  | some l =>
    let w := maybeQuantizeGfx936Layer torch call.circumstances ⟨l, s.admissionCache, s.activeLayerCount⟩
    ⟨s.layers.set call.layer w.layer, w.admissionCache, w.activeLayerCount⟩

def step (torch : Torch F T) (s : Session F T) (call : Call F) : Result (Session F T) := .ok (s.run torch call)

end Session

structure Same {T : Type} (l l' : Module T) : Prop where
  parameters : ∀ name, l'.parameters.get? name = l.parameters.get? name
  buffers : ∀ name, l'.buffers.get? name = l.buffers.get? name
  nonPersistent : l'.nonPersistentBuffersSet = l.nonPersistentBuffersSet
  attributes : ∀ name, l'.attributes.get? name = l.attributes.get? name

structure Quantized {F T : Type} (torch : Torch F T) (l l' : Module T) (m k : Nat) (kind : QuantKind) : Prop where
  weight : ∃ weight, l.parameters.get? "weight" = some (some weight) ∧ torch.shape weight = [m, k] ∧
    l'.buffers.get? "weight" = some (some (torch.packWeight weight kind).1) ∧
    l'.buffers.get? "gfx936_scale" = some (some (torch.packWeight weight kind).2)
  noParameter : l'.parameters.get? "weight" = none
  flag : l'.attributes.get? "_fdu_gfx936_quantized" = some (.bool true)
  kind : l'.attributes.get? "_fdu_gfx936_quant_kind" = some (.int kind.code)
  m : l'.attributes.get? "_fdu_gfx936_quant_m" = some (.int m)
  k : l'.attributes.get? "_fdu_gfx936_quant_k" = some (.int k)
  parameters : ∀ name ≠ "weight", l'.parameters.get? name = l.parameters.get? name
  buffers : ∀ name ≠ "weight", name ≠ "gfx936_scale" → l'.buffers.get? name = l.buffers.get? name
  attributes : ∀ name ∉ quantAttributes, l'.attributes.get? name = l.attributes.get? name

namespace Session

variable {F T : Type} (torch : Torch F T)

def Decided (cache : Dict (Nat × Nat × QuantKind) (AdmissionResult F)) (key : Nat × Nat × QuantKind) : Prop :=
  ∃ decision, cache.get? key = some decision ∧
    (decision.accepted = true ∨ ∃ error, decision = conversionErrorResult torch error)

/-- Every layer is as it was built, or quantised in full with a kind decided on, and the count is of the latter. -/
structure Books (s₀ s : Session F T) : Prop where
  layers : ∀ (i : Nat) l₀ l, s₀.layers[i]? = some l₀ → s.layers[i]? = some l →
    (isGfx936QuantizedLayer l = false ∧ Same l₀ l) ∨
      (isGfx936QuantizedLayer l = true ∧
        ∃ m k kind, Quantized torch l₀ l m k kind ∧ Decided torch s.admissionCache (m, k, kind))
  count : s.activeLayerCount = s.layers.countP isGfx936QuantizedLayer
  length : s.layers.length = s₀.layers.length

/-- A call leaves its layer as it was, or quantises it with a kind that the cache holds an accepted decision for; it leaves
the other layers alone. -/
def Behaves (s : Session F T) (call : Call F) : Prop :=
  (∀ i ≠ call.layer, (s.run torch call).layers[i]? = s.layers[i]?) ∧
    ∀ l l', s.layers[call.layer]? = some l → (s.run torch call).layers[call.layer]? = some l' →
      Same l l' ∨ ∃ m k kind, Quantized torch l l' m k kind ∧
        ∃ decision, (s.run torch call).admissionCache.get? (m, k, kind) = some decision ∧ decision.accepted = true

/-- At all times, the cache holds an accepted decision for what is quantised. -/
def Backed (s₀ s : Session F T) : Prop :=
  ∀ (i : Nat) l₀ l, s₀.layers[i]? = some l₀ → s.layers[i]? = some l → ∀ m k kind, Quantized torch l₀ l m k kind →
    ∃ decision, s.admissionCache.get? (m, k, kind) = some decision ∧ decision.accepted = true

end Session

end Vllm.Gfx936
