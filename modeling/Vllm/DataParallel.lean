import Mathlib.Data.Fintype.Basic
import Mathlib.Data.Finset.SDiff
import Mathlib.Logic.Function.Basic
import Vllm.Lib.Run

/-! Data parallel engines, their coordinator and the front-ends. The engines run and pause together, in waves. -/

namespace Vllm.DataParallel

inductive EngineOutput
  | startWave (wave : Nat)
  | waveComplete (wave : Nat)
  deriving DecidableEq

inductive ClientRequest (ReqId : Type)
  | add (r : ReqId) (requestWave : Nat)
  | abort (r : ReqId)
  deriving DecidableEq

/-- `DPEngineCoreProc`, with the unfinished requests of its scheduler. -/
structure EngineCore (ReqId : Type) where
  currentWave : Nat := 0
  enginesRunning : Bool := false
  stepCounter : Nat := 0
  unfinished : Finset ReqId := ∅

namespace EngineCore

variable {E ReqId : Type} [DecidableEq E] [DecidableEq ReqId]

def hasWork (e : EngineCore ReqId) : Prop := e.enginesRunning = true ∨ e.unfinished.Nonempty

instance (e : EngineCore ReqId) : Decidable e.hasWork := inferInstanceAs (Decidable (_ ∨ _))

def addRequest (r : ReqId) (requestWave : Nat) (e : EngineCore ReqId) : EngineCore ReqId × List EngineOutput :=
  let e := { e with unfinished := insert r e.unfinished }
  if requestWave > e.currentWave then ({ e with currentWave := requestWave }, [])
  else if requestWave ≠ e.currentWave ∧ e.enginesRunning = false then (e, [.startWave e.currentWave])
  else (e, [])

def abortRequest (r : ReqId) (e : EngineCore ReqId) : EngineCore ReqId := { e with unfinished := e.unfinished.erase r }

def handleClientRequest (request : ClientRequest ReqId) (e : EngineCore ReqId) : EngineCore ReqId × List EngineOutput :=
  match request with
  | .add r requestWave => e.addRequest r requestWave
  | .abort r => (e.abortRequest r, [])

def Keeps (e : EngineCore ReqId) : ClientRequest ReqId → Prop
  | .add .. => True
  | .abort r => e.enginesRunning = true ∨ e.unfinished = ∅ ∨ (e.unfinished.erase r).Nonempty

instance (e : EngineCore ReqId) : (request : ClientRequest ReqId) → Decidable (e.Keeps request)
  | .add .. => isTrue trivial
  | .abort r => inferInstanceAs (Decidable (e.enginesRunning = true ∨ e.unfinished = ∅ ∨ (e.unfinished.erase r).Nonempty))

def startDpWave (engineIndex : E) (newWave : Nat) (excludeEngIndex : Option E) (e : EngineCore ReqId) : EngineCore ReqId :=
  if excludeEngIndex ≠ some engineIndex ∧ newWave ≥ e.currentWave then
    { e with currentWave := newWave, enginesRunning := true }
  else e

/-- The end of a pass of the busy loop. `unfinishedDp` is what the engines have agreed on, if they have to. -/
def finishPass (unfinishedDp : Bool) (e : EngineCore ReqId) : EngineCore ReqId :=
  let stepCounter := e.stepCounter + 1
  if stepCounter % 32 ≠ 0 ∨ unfinishedDp then { e with stepCounter, enginesRunning := true }
  else { e with currentWave := e.currentWave + 1, stepCounter := 0, enginesRunning := false }

end EngineCore

structure Coordinator where
  currentWave : Nat := 0
  enginesRunning : Bool := false

/-- `DPAsyncMPClient`: `firstReqs` are the engines it still has to notify the coordinator of. -/
structure FrontEnd (E : Type) where
  currentWave : Nat := 0
  enginesRunning : Bool := false
  firstReqs : List E := []

structure System (E F ReqId : Type) where
  engines : E → EngineCore ReqId
  coordinator : Coordinator
  frontEnds : F → FrontEnd E
  inputs : F → E → List (ClientRequest ReqId)
  startWaves : E → List (Nat × Option E)
  outputs : E → List EngineOutput
  firstReqs : F → List (E × Nat)
  updates : F → List (Nat × Bool)

inductive Event (E F ReqId : Type)
  | addRequest (f : F) (e : E) (r : ReqId)
  | abortRequest (f : F) (e : E) (r : ReqId)
  | sendFirstReq (f : F)
  | update (f : F)
  | handleClientRequest (f : F) (e : E)
  | startDpWave (e : E)
  | coordinateFirstReq (f : F)
  | coordinateOutput (e : E)
  | publish
  | pass (finished : E → Finset ReqId)

variable {E F ReqId : Type} [DecidableEq E] [DecidableEq F] [DecidableEq ReqId] [Fintype E]

namespace System

def init : System E F ReqId where
  engines _ := {}
  coordinator := {}
  frontEnds _ := {}
  inputs _ _ := []
  startWaves _ := []
  outputs _ := []
  firstReqs _ := []
  updates _ := []

def send (f : F) (e : E) (request : ClientRequest ReqId) (s : System E F ReqId) : System E F ReqId :=
  { s with inputs := Function.update s.inputs f (Function.update (s.inputs f) e (s.inputs f e ++ [request])) }

def addRequest (f : F) (e : E) (r : ReqId) (s : System E F ReqId) : System E F ReqId :=
  let frontEnd := s.frontEnds f
  let s := s.send f e (.add r frontEnd.currentWave)
  if frontEnd.enginesRunning then s
  else { s with frontEnds := Function.update s.frontEnds f { frontEnd with firstReqs := frontEnd.firstReqs ++ [e] } }

def sendFirstReq (f : F) (s : System E F ReqId) : System E F ReqId :=
  let frontEnd := s.frontEnds f
  match frontEnd.firstReqs with
  | [] => s
  | e :: firstReqs =>
    { s with
      frontEnds := Function.update s.frontEnds f { frontEnd with firstReqs, enginesRunning := true }
      firstReqs := Function.update s.firstReqs f (s.firstReqs f ++ [(e, frontEnd.currentWave)]) }

def update (f : F) (s : System E F ReqId) : System E F ReqId :=
  match s.updates f with
  | [] => s
  | (wave, running) :: updates =>
    { s with
      frontEnds := Function.update s.frontEnds f { s.frontEnds f with currentWave := wave, enginesRunning := running }
      updates := Function.update s.updates f updates }

def handleClientRequest (f : F) (e : E) (s : System E F ReqId) : System E F ReqId :=
  match s.inputs f e with
  | [] => s
  | request :: inputs =>
    let (engine, outputs) := (s.engines e).handleClientRequest request
    { s with
      engines := Function.update s.engines e engine
      outputs := Function.update s.outputs e (s.outputs e ++ outputs)
      inputs := Function.update s.inputs f (Function.update (s.inputs f) e inputs) }

def startDpWave (e : E) (s : System E F ReqId) : System E F ReqId :=
  match s.startWaves e with
  | [] => s
  | (newWave, excludeEngIndex) :: startWaves =>
    { s with
      engines := Function.update s.engines e ((s.engines e).startDpWave e newWave excludeEngIndex)
      startWaves := Function.update s.startWaves e startWaves }

def publish (s : System E F ReqId) : System E F ReqId :=
  { s with updates := fun f => s.updates f ++ [(s.coordinator.currentWave, s.coordinator.enginesRunning)] }

def sendStartWave (wave : Nat) (excludeEngineIndex : Option E) (s : System E F ReqId) : System E F ReqId :=
  { s with
    coordinator := { currentWave := wave, enginesRunning := true }
    startWaves := fun e => s.startWaves e ++ [(wave, excludeEngineIndex)] }

def coordinateFirstReq (f : F) (s : System E F ReqId) : System E F ReqId :=
  match s.firstReqs f with
  | [] => s
  | (engineToExclude, wave) :: firstReqs =>
    let s := { s with firstReqs := Function.update s.firstReqs f firstReqs }
    if s.coordinator.enginesRunning then s
    else
      let excluded := if wave < s.coordinator.currentWave then none else some engineToExclude
      (s.sendStartWave s.coordinator.currentWave excluded).publish

def coordinateOutput (e : E) (s : System E F ReqId) : System E F ReqId :=
  match s.outputs e with
  | [] => s
  | output :: outputs =>
    let s := { s with outputs := Function.update s.outputs e outputs }
    match output with
    | .waveComplete wave =>
      if s.coordinator.currentWave ≤ wave then
        publish { s with coordinator := { currentWave := wave + 1, enginesRunning := false } }
      else s
    | .startWave wave =>
      if wave > s.coordinator.currentWave ∨ wave = s.coordinator.currentWave ∧ s.coordinator.enginesRunning = false then
        (s.sendStartWave wave (some e)).publish
      else s

/-- A pass of the busy loops is one event of all engines, as their collectives make them wait for each other: it takes
place once all of them have work, and their step counters are equal by construction. -/
def pass (rank0 : E) (finished : E → Finset ReqId) (s : System E F ReqId) : System E F ReqId :=
  if ∀ e, (s.engines e).hasWork then
    let ran : E → EngineCore ReqId := fun e =>
      { s.engines e with unfinished := (s.engines e).unfinished \ finished e }
    let unfinishedDp : Bool := decide (∃ e, (ran e).unfinished.Nonempty)
    let engines := fun e => (ran e).finishPass unfinishedDp
    let completed := if (engines rank0).enginesRunning then [] else [EngineOutput.waveComplete (s.engines rank0).currentWave]
    { s with engines, outputs := Function.update s.outputs rank0 (s.outputs rank0 ++ completed) }
  else s

def run (rank0 : E) (s : System E F ReqId) : Event E F ReqId → System E F ReqId
  | .addRequest f e r => s.addRequest f e r
  | .abortRequest f e r => s.send f e (.abort r)
  | .sendFirstReq f => s.sendFirstReq f
  | .update f => s.update f
  | .handleClientRequest f e => s.handleClientRequest f e
  | .startDpWave e => s.startDpWave e
  | .coordinateFirstReq f => s.coordinateFirstReq f
  | .coordinateOutput e => s.coordinateOutput e
  | .publish => s.publish
  | .pass finished => s.pass rank0 finished

def step (rank0 : E) (s : System E F ReqId) (event : Event E F ReqId) : Result (System E F ReqId) := .ok (s.run rank0 event)

structure Quiescent (s : System E F ReqId) : Prop where
  inputs : ∀ f e, s.inputs f e = []
  startWaves : ∀ e, s.startWaves e = []
  outputs : ∀ e, s.outputs e = []
  firstReqs : ∀ f, s.firstReqs f = [] ∧ (s.frontEnds f).firstReqs = []

/-- The engines are in one wave, and look at what the others have in the same pass (a pass is a joint event). Where
nothing is on the way the coordinator is in this wave, too, and either all engines or none have work for the next pass. -/
structure Agrees (s : System E F ReqId) : Prop where
  wave : ∀ e e', (s.engines e).currentWave = (s.engines e').currentWave
  stepCounter : ∀ e e', (s.engines e).stepCounter = (s.engines e').stepCounter
  coordinator : s.Quiescent → ∀ e, (s.engines e).currentWave = s.coordinator.currentWave
  hasWork : s.Quiescent → (∀ e, (s.engines e).hasWork) ∨ ∀ e, ¬ (s.engines e).hasWork

/-- An abort does not take the last request from an engine that has not been started, and a front-end that has to notify the
coordinator does so in the wave of its request. -/
def Allowed (s : System E F ReqId) : Event E F ReqId → Prop
  | .handleClientRequest f e => ∀ request ∈ (s.inputs f e).head?, (s.engines e).Keeps request
  | .update f => (s.frontEnds f).firstReqs = []
  | _ => True

instance (s : System E F ReqId) : (event : Event E F ReqId) → Decidable (s.Allowed event)
  | .handleClientRequest f e => inferInstanceAs (Decidable (∀ request ∈ (s.inputs f e).head?, (s.engines e).Keeps request))
  | .update f => inferInstanceAs (Decidable ((s.frontEnds f).firstReqs = []))
  | .addRequest .. | .abortRequest .. | .sendFirstReq _ | .startDpWave _ | .coordinateFirstReq _ | .coordinateOutput _
  | .publish | .pass _ => isTrue trivial

end System

end Vllm.DataParallel
