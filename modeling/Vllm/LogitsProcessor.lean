import Vllm.BatchUpdate
import Vllm.Lib.Dict

/-! How the logits processors follow the persistent batch: a dictionary over the indices for the
sparse ones, an array with a count of its entries for `min_p`. -/

universe u

namespace Vllm.Worker

variable {F : Type} {T : Type}

/-- What a processor keeps for a request, `none` if it has nothing to do for it. -/
abbrev NewState (F T : Type) := SamplingParams F → Option (List Token) → List Token → Option T

def dictAdded (newState : NewState F T) (entries : Dict Nat T) (a : AddedRequest F) : Dict Nat T :=
  match newState a.params a.promptTokIds a.outputTokIds with
  | some state => entries.set a.index state
  | none => entries.erase a.index

def dictMoved (entries : Dict Nat T) (m : MovedRequest) : Dict Nat T :=
  let (aIndex, bIndex, direct) := m
  let aEntry := entries.get? aIndex
  let entries := entries.erase aIndex
  let bEntry := entries.get? bIndex
  let entries := entries.erase bIndex
  let entries := match aEntry with
    | some a => entries.set bIndex a
    | none => entries
  match bEntry, direct with
  | some b, .swap => entries.set aIndex b
  | _, _ => entries

def processDictUpdates (newState : NewState F T) (entries : Dict Nat T)
    (update : Option (BatchUpdate F)) : Dict Nat T :=
  match update with
  | none => entries
  | some update =>
    let entries := update.added.foldl (dictAdded newState) entries
    if entries.size = 0 then entries
    else update.moved.foldl dictMoved (update.removed.foldl Dict.erase entries)

def addedUpdates (newState : NewState F T) (st : Dict Nat T × Bool) (a : AddedRequest F) :
    Dict Nat T × Bool :=
  (dictAdded newState st.1 a,
    st.2 || (newState a.params a.promptTokIds a.outputTokIds).isSome || st.1.contains a.index)

def removedUpdates (st : Dict Nat T × Bool) (index : Nat) : Dict Nat T × Bool :=
  (st.1.erase index, st.2 || st.1.contains index)

def movedUpdates (st : Dict Nat T × Bool) (m : MovedRequest) : Dict Nat T × Bool :=
  (dictMoved st.1 m, st.2 || st.1.contains m.1 || (st.1.erase m.1).contains m.2.1)

/-- `process_dict_updates` with its result, whether anything has been updated. -/
def reportDictUpdates (newState : NewState F T) (entries : Dict Nat T)
    (update : Option (BatchUpdate F)) : Dict Nat T × Bool :=
  match update with
  | none => (entries, false)
  | some update =>
    let st := update.added.foldl (addedUpdates newState) (entries, false)
    if st.1.size = 0 then st
    else update.moved.foldl movedUpdates (update.removed.foldl removedUpdates st)

structure MinPLogitsProcessor (F32 : Type) where
  minPCount : Int
  minPCpu : Nat → F32

namespace MinPLogitsProcessor

variable {F32 : Type} [Zero F] [DecidableEq F] [Zero F32] [DecidableEq F32]

def init : MinPLogitsProcessor F32 := ⟨0, fun _ => 0⟩

/-- A stored value is compared with a Python float after the cast to `float32`, while the truth
value of the parameter is taken before it. -/
def processAdded (toFloat32 : F → F32) (p : MinPLogitsProcessor F32) (a : AddedRequest F) :
    MinPLogitsProcessor F32 :=
  let minP := a.params.minP
  let minPBefore := p.minPCpu a.index
  if minPBefore ≠ toFloat32 minP then
    { minPCpu := Function.update p.minPCpu a.index (toFloat32 minP)
      minPCount :=
        if minP ≠ 0 ∧ minPBefore = 0 then p.minPCount + 1
        else if minP = 0 ∧ minPBefore ≠ 0 then p.minPCount - 1
        else p.minPCount }
  else p

def processRemoved (p : MinPLogitsProcessor F32) (index : Nat) : MinPLogitsProcessor F32 :=
  if p.minPCpu index ≠ 0 then
    { minPCpu := Function.update p.minPCpu index 0, minPCount := p.minPCount - 1 }
  else p

def processMoved (p : MinPLogitsProcessor F32) (m : MovedRequest) : MinPLogitsProcessor F32 :=
  let (adx, bdx, direct) := m
  let minPA := p.minPCpu adx
  let minPB := p.minPCpu bdx
  let cpu :=
    if minPA ≠ minPB then
      let cpu := Function.update p.minPCpu bdx minPA
      match direct with
      | .swap => Function.update cpu adx minPB
      | .unidirectional => cpu
    else p.minPCpu
  match direct with
  | .swap => { p with minPCpu := cpu }
  | .unidirectional =>
    { minPCpu := if minPA ≠ 0 then Function.update cpu adx 0 else cpu
      minPCount := if minPB ≠ 0 then p.minPCount - 1 else p.minPCount }

def updateState (toFloat32 : F → F32) (p : MinPLogitsProcessor F32)
    (update : Option (BatchUpdate F)) : MinPLogitsProcessor F32 :=
  match update with
  | none => p
  | some update =>
    let p := update.added.foldl (processAdded toFloat32) p
    if p.minPCount ≠ 0 then update.moved.foldl processMoved (update.removed.foldl processRemoved p)
    else p

end MinPLogitsProcessor

end Vllm.Worker
