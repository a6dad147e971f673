import Mathlib.Data.List.Sort
import Vllm.Lib.Dict
import Vllm.Lib.Splice
import Vllm.Request

/-! Prompts with placeholders for multi-modal items: the updates that put them there are applied to the
tokens of a prompt, and the placeholders are found in what comes out. -/

namespace Vllm.MultiModal

inductive PromptSeq
  | text (s : String)
  | tokens (ids : List Token)

def seq2tokens (encode : String → List Token) : PromptSeq → List Token
  | .text s => encode s
  | .tokens ids => ids

inductive PromptIndex
  | atStart
  | afterPrefix (seq : PromptSeq)
  | atEnd

def PromptIndex.getMatchIndex (encode : String → List Token) (prompt : List Token) (startIdx : Nat) :
    PromptIndex → Option Nat
  | .atStart => some 0
  | .afterPrefix seq =>
    if startIdx ≠ 0 then none
    else if prompt.take (seq2tokens encode seq).length = seq2tokens encode seq then
      some (seq2tokens encode seq).length
    else none
  | .atEnd => some prompt.length

inductive UpdateTarget
  | seq (target : PromptSeq)
  | index (target : PromptIndex)

inductive UpdateMode
  | insert
  | replace
  deriving DecidableEq

/-- `isEmbed` is given the tokenizer already. -/
structure PromptUpdateDetails where
  full : PromptSeq
  isEmbed : Option (PromptSeq → List Bool)

structure ResolvedPromptUpdate where
  mode : UpdateMode
  target : UpdateTarget
  content : PromptUpdateDetails

structure PromptTargetMatch where
  startIdx : Nat
  endIdx : Nat
  deriving DecidableEq

/-- The loop of `iter_token_matches`; the number bounds its rounds. -/
def iterMatchesFrom (tokenIds matchIds : List Token) : Nat → Nat → List PromptTargetMatch
  | 0, _ => []
  | rounds + 1, startIdx =>
    if startIdx + matchIds.length ≤ tokenIds.length then
      if (tokenIds.take (startIdx + matchIds.length)).drop startIdx = matchIds then
        ⟨startIdx, startIdx + matchIds.length⟩ ::
          iterMatchesFrom tokenIds matchIds rounds (startIdx + matchIds.length)
      else iterMatchesFrom tokenIds matchIds rounds (startIdx + 1)
    else []

def iterTokenMatches (tokenIds matchIds : List Token) (startIdx : Nat) : List PromptTargetMatch :=
  if matchIds.length = 0 then []
  else iterMatchesFrom tokenIds matchIds (tokenIds.length + 1 - startIdx) startIdx

def ResolvedPromptUpdate.iterMatches (encode : String → List Token) (u : ResolvedPromptUpdate)
    (prompt : List Token) (startIdx : Nat) : List PromptTargetMatch :=
  match u.target with
  | .index target => (target.getMatchIndex encode prompt startIdx).toList.map fun i => ⟨i, i⟩
  | .seq target => iterTokenMatches prompt (seq2tokens encode target) startIdx

abbrev MultiModalPromptUpdates := Dict String (List (List ResolvedPromptUpdate))

abbrev MultiModalPromptUpdatesApplyResult := Dict String (List (Option Nat))

structure MatchToApply where
  modality : String
  itemIdx : Nat
  found : PromptTargetMatch
  updateIdx : Nat
  update : ResolvedPromptUpdate

def MultiModalPromptUpdates.itemUpdates (updates : MultiModalPromptUpdates) :
    List ((String × Nat) × List ResolvedPromptUpdate) :=
  updates.items.flatMap fun x => x.2.zipIdx.map fun y => ((x.1, y.2), y.1)

def resultOf (result : MultiModalPromptUpdatesApplyResult) (item : String × Nat) : Option Nat :=
  (result.getD item.1 []).getD item.2 none

section Apply

variable (encode : String → List Token) (prompt : List Token)

def findItem (prevEndIdx : Nat) (item : String × Nat) :
    Option UpdateMode → List (ResolvedPromptUpdate × Nat) → Option UpdateMode × Option MatchToApply
  | mode, [] => (mode, none)
  | mode, (u, updateIdx) :: rest =>
    match (u.iterMatches encode prompt prevEndIdx).head? with
    | none => findItem prevEndIdx item mode rest
    | some found =>
      if mode = none ∨ mode = some u.mode then
        (some u.mode, some ⟨item.1, item.2, found, updateIdx, u⟩)
      else findItem prevEndIdx item mode rest

def PromptTargetMatch.le (a b : PromptTargetMatch) : Prop :=
  a.startIdx < b.startIdx ∨ a.startIdx = b.startIdx ∧ a.endIdx ≤ b.endIdx

instance (a b : PromptTargetMatch) : Decidable (a.le b) := inferInstanceAs (Decidable (_ ∨ _))

def oneNonEmpty : Bool → List MatchToApply → List MatchToApply
  | _, [] => []
  | hasNonEmptyMatches, m :: ms =>
    if m.found.startIdx = m.found.endIdx then m :: oneNonEmpty hasNonEmptyMatches ms
    else if hasNonEmptyMatches then oneNonEmpty hasNonEmptyMatches ms
    else m :: oneNonEmpty true ms

/-- One item in the loops of `_find_matches`. -/
def collectItem (prevEndIdx : Nat) (currentResult : MultiModalPromptUpdatesApplyResult)
    (st : Option UpdateMode × List MatchToApply)
    (x : (String × Nat) × List ResolvedPromptUpdate) : Option UpdateMode × List MatchToApply :=
  if (resultOf currentResult x.1).isSome then st
  else
    let (mode, m) := findItem encode prompt prevEndIdx x.1 st.1 x.2.zipIdx
    (mode, st.2 ++ m.toList)

def collectMatches (items : List ((String × Nat) × List ResolvedPromptUpdate)) (prevEndIdx : Nat)
    (currentResult : MultiModalPromptUpdatesApplyResult) : Option UpdateMode × List MatchToApply :=
  items.foldl (collectItem encode prompt prevEndIdx currentResult) (none, [])

def findMatches (updates : MultiModalPromptUpdates) (prevEndIdx : Nat)
    (currentResult : MultiModalPromptUpdatesApplyResult) : Option UpdateMode × List MatchToApply :=
  let (mode, mmMatches) := collectMatches encode prompt updates.itemUpdates prevEndIdx currentResult
  let matchesToApply := mmMatches.insertionSort fun a b => a.found.le b.found
  (mode, if mode = some .replace then oneNonEmpty false matchesToApply else matchesToApply)

def allItemsFound (updates : MultiModalPromptUpdates) (result : MultiModalPromptUpdatesApplyResult) :
    Bool :=
  result.items.all fun x => (updates.getD x.1 []).length ≤ x.2.countP Option.isSome

structure ApplyState where
  outSeqs : List (List Token)
  outResult : MultiModalPromptUpdatesApplyResult
  prevEndIdx : Nat

def applyMatch (mode : UpdateMode) (st : ApplyState) (m : MatchToApply) : ApplyState :=
  let endIdxToInsert :=
    match mode with
    | .insert => m.found.endIdx
    | .replace => m.found.startIdx
  { outSeqs := st.outSeqs ++ [(prompt.take endIdxToInsert).drop st.prevEndIdx,
      seq2tokens encode m.update.content.full]
    outResult := st.outResult.set m.modality
      ((st.outResult.getD m.modality []).set m.itemIdx (some m.updateIdx))
    prevEndIdx := m.found.endIdx }

/-- The `while True`; the number bounds its rounds. -/
def applyLoop (updates : MultiModalPromptUpdates) : Nat → ApplyState → Option ApplyState
  | 0, _ => none
  | rounds + 1, st =>
    match findMatches encode prompt updates st.prevEndIdx st.outResult with
    | (none, _) => some st
    | (some mode, matchesToApply) =>
      let st := matchesToApply.foldl (applyMatch encode prompt mode) st
      if allItemsFound updates st.outResult then some st else applyLoop updates rounds st

def initialResult (updates : MultiModalPromptUpdates) : MultiModalPromptUpdatesApplyResult :=
  updates.mapVals fun _ items => List.replicate items.length none

/-- `rounds` is for the loop. -/
def applyTokenMatches (rounds : Nat) (updates : MultiModalPromptUpdates) :
    Option (List Token × MultiModalPromptUpdatesApplyResult) :=
  if allItemsFound updates (initialResult updates) then some (prompt, initialResult updates)
  else (applyLoop encode prompt updates rounds ⟨[], initialResult updates, 0⟩).map fun st =>
    ((st.outSeqs ++ [prompt.drop st.prevEndIdx]).flatten, st.outResult)

end Apply

structure PlaceholderFeaturesInfo where
  modality : String
  itemIdx : Nat
  startIdx : Nat
  tokens : List Token
  isEmbed : Option (List Bool)

section Placeholders

variable (encode : String → List Token) (prompt : List Token)

def findContent (startIdx : Nat) (updates : List ResolvedPromptUpdate) :
    Option ResolvedPromptUpdate :=
  updates.find? fun u =>
    let contentTokensFull := seq2tokens encode u.content.full
    decide (contentTokensFull.length ≠ 0 ∧ startIdx + contentTokensFull.length ≤ prompt.length ∧
      (prompt.take (startIdx + contentTokensFull.length)).drop startIdx = contentTokensFull)

def findPlaceholder (startIdx : Nat) (itemIdxByModality : Dict String Nat) :
    List (String × List (List ResolvedPromptUpdate)) → Option PlaceholderFeaturesInfo
  | [] => none
  | (modality, modalityUpdates) :: rest =>
    let itemIdx := itemIdxByModality.getD modality 0
    match modalityUpdates[itemIdx]? >>= findContent encode prompt startIdx with
    | some u =>
      some
        { modality
          itemIdx
          startIdx
          tokens := seq2tokens encode u.content.full
          isEmbed := u.content.isEmbed.map (· u.content.full) }
    | none => findPlaceholder startIdx itemIdxByModality rest

/-- `_all_items_found`, with the index of the next item of each modality. -/
def allItemsPassed (updates : MultiModalPromptUpdates) (itemIdxByModality : Dict String Nat) : Bool :=
  itemIdxByModality.items.all fun x => (updates.getD x.1 []).length ≤ x.2

/-- The loop of `_iter_placeholders`; the number bounds its rounds. -/
def iterPlaceholdersFrom (updates : MultiModalPromptUpdates) :
    Nat → Nat → Dict String Nat → List PlaceholderFeaturesInfo
  | 0, _, _ => []
  | rounds + 1, startIdx, itemIdxByModality =>
    if startIdx < prompt.length then
      match findPlaceholder encode prompt startIdx itemIdxByModality updates.items with
      | some p =>
        let itemIdxByModality := itemIdxByModality.set p.modality (p.itemIdx + 1)
        p :: if allItemsPassed updates itemIdxByModality then []
          else iterPlaceholdersFrom updates rounds (startIdx + p.tokens.length) itemIdxByModality
      | none => iterPlaceholdersFrom updates rounds (startIdx + 1) itemIdxByModality
    else []

def iterPlaceholders (updates : MultiModalPromptUpdates) : List PlaceholderFeaturesInfo :=
  let itemIdxByModality : Dict String Nat := updates.mapVals fun _ _ => 0
  if allItemsPassed updates itemIdxByModality then []
  else iterPlaceholdersFrom encode prompt updates prompt.length 0 itemIdxByModality

def fullGroupbyModality (placeholders : List PlaceholderFeaturesInfo) :
    Dict String (List PlaceholderFeaturesInfo) :=
  placeholders.foldl (fun groups p => groups.set p.modality (groups.getD p.modality [] ++ [p])) .empty

def findMmPlaceholders (updates : MultiModalPromptUpdates) :
    Dict String (List PlaceholderFeaturesInfo) :=
  fullGroupbyModality (iterPlaceholders encode prompt updates)

/-- One item in the loops of `_apply_prompt_updates` over the results. -/
def matchedUpdate (updates : MultiModalPromptUpdates) (modality : String)
    (matchedUpdates : MultiModalPromptUpdates) (y : Option Nat × Nat) : Option MultiModalPromptUpdates := do
  let updateIdx ← y.1
  let itemUpdates ← (updates.getD modality [])[y.2]?
  let u ← itemUpdates[updateIdx]?
  pure (matchedUpdates.set modality (matchedUpdates.getD modality [] ++ [[u]]))

def matchedUpdates (updates : MultiModalPromptUpdates) (matchResult : MultiModalPromptUpdatesApplyResult) :
    Option MultiModalPromptUpdates :=
  matchResult.items.foldlM (fun matched x => x.2.zipIdx.foldlM (matchedUpdate updates x.1) matched) .empty

/-- Where some item is not found, `applyText` applies the updates to the decoded text, and encodes it. -/
def applyPromptUpdates
    (applyText : List Token → MultiModalPromptUpdates →
      Option (List Token × MultiModalPromptUpdatesApplyResult))
    (rounds : Nat) (updates : MultiModalPromptUpdates) :
    Option (List Token × Dict String (List PlaceholderFeaturesInfo)) :=
  (applyTokenMatches encode prompt rounds updates).bind fun x =>
    (if x.2.items.all fun y => y.2.all Option.isSome then some x else applyText prompt updates).bind
      fun x => (matchedUpdates updates x.2).map fun matched => (x.1, findMmPlaceholders encode x.1 matched)

end Placeholders

end Vllm.MultiModal
