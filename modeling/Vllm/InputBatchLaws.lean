import Mathlib.Data.List.Forall2
import Vllm.InputBatch

namespace Vllm

theorem assignSlice_of_fits {α : Type} {width start : Nat} {row : Nat → α} {vals : List α}
    (h : start + vals.length ≤ width) :
    assignSlice width row start vals =
      .ok fun j => if start ≤ j then (vals[j - start]?).getD (row j) else row j :=
  if_pos h

structure TableRow where
  kernel : List Nat → List Nat
  width : Nat
  numBlocks : Nat
  cells : Nat → Int

/-- The row lists the kernel blocks of the given block ids. -/
structure TableRow.Holds (x : TableRow) (ids : List Nat) : Prop where
  numBlocks : x.numBlocks = (x.kernel ids).length
  fits : x.numBlocks ≤ x.width
  cells : ∀ j k : Nat, (x.kernel ids)[j]? = some k → x.cells j = k

namespace BlockTable

variable {t t' : BlockTable} {i j src tgt : Nat} {ids : List Nat}

def row (t : BlockTable) (i : Nat) : TableRow where
  kernel := t.kernelBlocks
  width := t.maxNumBlocksPerReq
  numBlocks := t.numBlocksPerRow i
  cells := t.cpu i

def Fits (t : BlockTable) (ids : List Nat) : Prop :=
  (t.kernelBlocks ids).length ≤ t.maxNumBlocksPerReq

theorem kernelBlocks_append (t : BlockTable) (ids ids' : List Nat) :
    t.kernelBlocks (ids ++ ids') = t.kernelBlocks ids ++ t.kernelBlocks ids' := by
  unfold kernelBlocks mapToKernelBlocks
  split
  · split
    · rfl
    · rw [List.flatMap_append]
  · rfl

theorem kernelBlocks_nil (t : BlockTable) : t.kernelBlocks [] = [] := by
  unfold kernelBlocks mapToKernelBlocks
  split
  · split <;> rfl
  · rfl

theorem appendRow_spec {old : List Nat} (h : (t.row i).Holds old) (hfits : t.Fits (old ++ ids)) :
    ∃ t', t.appendRow ids i = .ok t' ∧ (t'.row i).Holds (old ++ ids) ∧
      ∀ j ≠ i, t'.row j = t.row j := by
  unfold appendRow
  have hnum : t.numBlocksPerRow i = (t.kernelBlocks old).length := h.numBlocks
  unfold Fits at hfits
  rw [kernelBlocks_append, List.length_append] at hfits
  split
  · rename_i hnil
    subst hnil
    rw [List.append_nil]
    exact ⟨t, rfl, h, fun _ _ => rfl⟩
  · have hle : t.numBlocksPerRow i + ((t.kernelBlocks ids).map Int.ofNat).length ≤
        t.maxNumBlocksPerReq := by
      rw [List.length_map, hnum]
      exact hfits
    simp only [assignSlice_of_fits hle]
    refine ⟨_, rfl, ⟨?_, ?_, ?_⟩, ?_⟩
    · show Function.update t.numBlocksPerRow i _ i = (t.kernelBlocks (old ++ ids)).length
      rw [Function.update_self, kernelBlocks_append, List.length_append, hnum]
    · show Function.update t.numBlocksPerRow i _ i ≤ t.maxNumBlocksPerReq
      rw [Function.update_self, hnum]
      exact hfits
    · intro j k hjk
      change (t.kernelBlocks (old ++ ids))[j]? = some k at hjk
      show Function.update t.cpu i _ i j = (k : Int)
      rw [Function.update_self, hnum]
      rw [kernelBlocks_append, List.getElem?_append] at hjk
      split at hjk
      · rename_i hj
        rw [if_neg (Nat.not_le.mpr hj)]
        exact h.cells j k hjk
      · rename_i hj
        rw [if_pos (Nat.not_lt.mp hj), List.getElem?_map, hjk]
        rfl
    · intro j hj
      simp only [row, Function.update_of_ne hj]
      rfl

theorem addRow_spec (hfits : t.Fits ids) :
    ∃ t', t.addRow ids i = .ok t' ∧ (t'.row i).Holds ids ∧ ∀ j ≠ i, t'.row j = t.row j := by
  have hempty : (row { t with
      numBlocksPerRow := Function.update t.numBlocksPerRow i 0, dirty := true } i).Holds [] := by
    have hk : kernelBlocks { t with
        numBlocksPerRow := Function.update t.numBlocksPerRow i 0, dirty := true } [] = [] :=
      kernelBlocks_nil _
    refine ⟨?_, ?_, fun j k hjk => ?_⟩
    · simp only [row, Function.update_self, hk]
      rfl
    · simp [row]
    · simp only [row, hk] at hjk
      cases hjk
  obtain ⟨t', hok, hrow, hframe⟩ := appendRow_spec hempty hfits
  refine ⟨t', hok, hrow, fun j hj => ?_⟩
  rw [hframe j hj]
  simp only [row, Function.update_of_ne hj]
  rfl

theorem moveRow_self (h : (t.row src).Holds ids) : ((t.moveRow src tgt).row tgt).Holds ids := by
  have hnum : t.numBlocksPerRow src = (t.kernelBlocks ids).length := h.numBlocks
  refine ⟨?_, ?_, fun j k hjk => ?_⟩
  · show Function.update t.numBlocksPerRow tgt _ tgt = _
    rw [Function.update_self]
    exact hnum
  · show Function.update t.numBlocksPerRow tgt _ tgt ≤ _
    rw [Function.update_self]
    exact h.fits
  · have hj : j < t.numBlocksPerRow src := by
      rw [hnum]
      exact (List.getElem?_eq_some_iff.mp hjk).1
    show Function.update t.cpu tgt _ tgt j = (k : Int)
    rw [Function.update_self, if_pos ⟨hj, Nat.lt_of_lt_of_le hj h.fits⟩]
    exact h.cells j k hjk

theorem moveRow_of_ne (h : j ≠ tgt) : (t.moveRow src tgt).row j = t.row j := by
  simp only [moveRow, row, Function.update_of_ne h]
  rfl

end BlockTable

namespace MultiGroupBlockTable

variable {ts : MultiGroupBlockTable} {i j : Nat}

def rows (ts : MultiGroupBlockTable) (i : Nat) : List TableRow := ts.map fun t => t.row i

abbrev RowsHold (xs : List TableRow) (blockIds : List (List Nat)) : Prop :=
  List.Forall₂ TableRow.Holds xs blockIds

theorem forTables_spec {f : BlockTable → List Nat → Result BlockTable}
    {B : BlockTable → List Nat → Prop}
    (hf : ∀ t old ids, B t old → t.Fits (old ++ ids) → ∃ t', f t ids = .ok t' ∧
      (t'.row i).Holds (old ++ ids) ∧ ∀ j ≠ i, t'.row j = t.row j)
    {old blockIds : List (List Nat)} (hB : List.Forall₂ B ts old)
    (hlen : blockIds.length = old.length)
    (hfits : List.Forall₂ BlockTable.Fits ts (List.zipWith (· ++ ·) old blockIds)) :
    ∃ ts', forTables f blockIds ts = .ok ts' ∧
      RowsHold (rows ts' i) (List.zipWith (· ++ ·) old blockIds) ∧
      ∀ j ≠ i, rows ts' j = rows ts j := by
  induction hB generalizing blockIds with
  | nil =>
    rw [List.length_eq_zero_iff.mp hlen]
    exact ⟨[], rfl, .nil, fun _ _ => rfl⟩
  | cons hb _ ih =>
    cases blockIds with
    | nil => cases hlen
    | cons ids rest =>
      obtain ⟨hfit, hfits⟩ := List.forall₂_cons.mp hfits
      obtain ⟨t', ht', hrow, hframe⟩ := hf _ _ _ hb hfit
      obtain ⟨ts', hts', hrows, hframes⟩ := ih (Nat.succ_injective hlen) hfits
      refine ⟨t' :: ts', ?_, .cons hrow hrows, fun j hj => ?_⟩
      · simp only [forTables, ht', hts']
        rfl
      · show t'.row j :: rows ts' j = _
        rw [hframe j hj, hframes j hj]
        rfl

theorem appendRow_spec {old blockIds : List (List Nat)} (h : RowsHold (rows ts i) old)
    (hlen : blockIds.length = old.length)
    (hfits : List.Forall₂ BlockTable.Fits ts (List.zipWith (· ++ ·) old blockIds)) :
    ∃ ts', appendRow ts blockIds i = .ok ts' ∧
      RowsHold (rows ts' i) (List.zipWith (· ++ ·) old blockIds) ∧
      ∀ j ≠ i, rows ts' j = rows ts j :=
  forTables_spec (B := fun t old => (t.row i).Holds old)
    (fun _ _ _ hrow hfit => BlockTable.appendRow_spec hrow hfit)
    (List.forall₂_map_left_iff.mp h) hlen hfits

theorem addRow_spec {blockIds : List (List Nat)} (hfits : List.Forall₂ BlockTable.Fits ts blockIds) :
    ∃ ts', addRow ts blockIds i = .ok ts' ∧ RowsHold (rows ts' i) blockIds ∧
      ∀ j ≠ i, rows ts' j = rows ts j := by
  have hzip : List.zipWith (· ++ ·) (blockIds.map fun _ => ([] : List Nat)) blockIds = blockIds := by
    rw [List.zipWith_map_left, List.zipWith_self]
    exact List.map_id blockIds
  have hB : List.Forall₂ (fun _ (old : List Nat) => old = []) ts
      (blockIds.map fun _ => ([] : List Nat)) := by
    rw [List.forall₂_map_right_iff]
    exact hfits.imp fun _ _ _ => rfl
  have hspec := forTables_spec (f := fun t ids => t.addRow ids i) (i := i)
    (B := fun _ (old : List Nat) => old = [])
    (fun t old ids hold hfit => by
      subst hold
      exact BlockTable.addRow_spec hfit) hB
    (show blockIds.length = (blockIds.map fun _ => ([] : List Nat)).length by rw [List.length_map])
  rw [hzip] at hspec
  exact hspec hfits

theorem moveRow_self {blockIds : List (List Nat)} {src tgt : Nat} (h : RowsHold (rows ts src) blockIds) :
    RowsHold (rows (moveRow ts src tgt) tgt) blockIds := by
  unfold rows moveRow
  rw [List.map_map]
  rw [rows, RowsHold, List.forall₂_map_left_iff] at h
  rw [RowsHold, List.forall₂_map_left_iff]
  exact h.imp fun _ _ hrow => BlockTable.moveRow_self hrow

theorem moveRow_of_ne {src tgt : Nat} (h : j ≠ tgt) : rows (moveRow ts src tgt) j = rows ts j := by
  unfold rows moveRow
  rw [List.map_map]
  exact List.map_congr_left fun t _ => BlockTable.moveRow_of_ne h

theorem swapRow_rows {src tgt : Nat} :
    rows (swapRow ts src tgt) j = rows ts (Equiv.swap src tgt j) := by
  unfold rows swapRow
  rw [List.map_map]
  rfl

def Fits (ts : MultiGroupBlockTable) (blockIds : List (List Nat)) : Prop :=
  List.Forall₂ BlockTable.Fits ts blockIds

theorem fits_congr {ts' : MultiGroupBlockTable} (h : rows ts' j = rows ts j)
    (blockIds : List (List Nat)) : Fits ts' blockIds ↔ Fits ts blockIds := by
  have hrow : ∀ ts : MultiGroupBlockTable, Fits ts blockIds ↔
      List.Forall₂ (fun (x : TableRow) ids => (x.kernel ids).length ≤ x.width) (rows ts j)
        blockIds := fun ts => by
    rw [rows, List.forall₂_map_left_iff]
    rfl
  rw [hrow, hrow, h]

end MultiGroupBlockTable

namespace Worker

open MultiGroupBlockTable

structure Row (F32 G : Type) where
  tokens : Nat → Token
  isTokens : Nat → Bool
  numTokens : Nat
  numPromptTokens : Nat
  numComputedTokens : Nat
  tables : List TableRow
  temperature : F32
  topP : F32
  topK : Int
  frequencyPenalty : F32
  presencePenalty : F32
  repetitionPenalty : F32
  generator : Option G
  badWords : Option (List (List Token))
  loraId : Nat

variable {F F32 G E : Type}

namespace CachedRequestState

def tokenAt? (r : CachedRequestState F G E) (p : Nat) : Option Token :=
  if p < r.numPromptTokens then r.promptTokenIds.bind fun ids => ids[p]?
  else r.outputTokenIds[p - r.numPromptTokens]?

def loraId (r : CachedRequestState F G E) : Nat := (r.loraRequest.map LoRARequest.loraIntId).getD 0

theorem length_promptTokenIds (r : CachedRequestState F G E) {ids : List Token}
    (h : r.promptTokenIds = some ids) : ids.length = r.numPromptTokens := by
  have heq := r.numPromptTokens_eq
  rw [h] at heq
  cases hembeds : r.promptEmbeds with
  | none =>
    rw [hembeds] at heq
    exact Except.ok.inj heq
  | some embeds =>
    rw [hembeds] at heq
    simp only [lengthFromPromptTokenIdsOrEmbeds] at heq
    split at heq
    · cases heq
    · exact Except.ok.inj heq

end CachedRequestState

structure Row.Samples [Zero F] (c : InputBatchConfig F F32) (x : Row F32 G) (params : SamplingParams F) :
    Prop where
  temperature : x.temperature = InputBatch.storedTemperature c params
  topP : x.topP = c.toFloat32 params.topP
  topK : x.topK = InputBatch.storedTopK c params
  frequencyPenalty : x.frequencyPenalty = c.toFloat32 params.frequencyPenalty
  presencePenalty : x.presencePenalty = c.toFloat32 params.presencePenalty
  repetitionPenalty : x.repetitionPenalty = c.toFloat32 params.repetitionPenalty
  badWords : x.badWords =
    if params.badWordsTokenIds = [] then none else some params.badWordsTokenIds

/-- The data of an index are those of the request. -/
structure Row.Holds [Zero F] (c : InputBatchConfig F F32) (x : Row F32 G)
    (r : CachedRequestState F G E) : Prop where
  tokens : ∀ p < r.numTokens, x.isTokens p = (r.tokenAt? p).isSome ∧
    ∀ t ∈ r.tokenAt? p, x.tokens p = t
  numTokens : x.numTokens = r.numTokens
  numPromptTokens : x.numPromptTokens = r.numPromptTokens
  numComputedTokens : x.numComputedTokens = r.numComputedTokens
  tables : RowsHold x.tables r.blockIds
  sampling : ∃ params, r.samplingParams = some params ∧ x.Samples c params
  generator : x.generator = r.generator
  loraId : x.loraId = r.loraId

namespace InputBatch

variable {c : InputBatchConfig F F32} {b b' : InputBatch F F32 G E} {i j : Nat} {id : ReqId}

def row (b : InputBatch F F32 G E) (i : Nat) : Row F32 G where
  tokens := b.tokenIdsCpu i
  isTokens := b.isTokenIds i
  numTokens := b.numTokensNoSpec i
  numPromptTokens := b.numPromptTokens i
  numComputedTokens := b.numComputedTokensCpu i
  tables := rows b.blockTable i
  temperature := b.temperatureCpu i
  topP := b.topPCpu i
  topK := b.topKCpu i
  frequencyPenalty := b.frequencyPenaltiesCpu i
  presencePenalty := b.presencePenaltiesCpu i
  repetitionPenalty := b.repetitionPenaltiesCpu i
  generator := b.generators.get? i
  badWords := b.badWordsTokenIds.get? i
  loraId := b.requestLoraMapping i

def loraUsers (b : InputBatch F F32 G E) (l : Nat) : Finset ReqId :=
  (b.loraIdToRequestIds.get? l).getD ∅

def NoIdleLora (b : InputBatch F F32 G E) : Prop :=
  ∀ l ids, b.loraIdToRequestIds.get? l = some ids → ids ≠ ∅

structure Removed (b : InputBatch F F32 G E) (i : Nat) (id : ReqId) (b' : InputBatch F F32 G E) :
    Prop where
  reqIds : b'.reqIds = b.reqIds.set i none
  outputs : b'.reqOutputTokenIds.length = b.reqOutputTokenIds.length
  specs : b'.specTokenIds.length = b.specTokenIds.length
  index : b'.reqIdToIndex = b.reqIdToIndex.erase id
  builder : b'.batchUpdateBuilder = { b.batchUpdateBuilder with
    removed := b.batchUpdateBuilder.removed ++ [i], batchChanged := true }
  tables : b'.blockTable = b.blockTable
  row : ∀ j ≠ i, b'.row j = b.row j
  generator : (b'.row i).generator = none
  badWords : (b'.row i).badWords = none
  users : ∀ l x, x ∈ b'.loraUsers l ↔
    x ∈ b.loraUsers l ∧ ¬ (l = b.requestLoraMapping i ∧ l ≠ 0 ∧ x = id)
  idle : b.NoIdleLora → b'.NoIdleLora

theorem dropLora_spec (id : String)
    (hl : b.requestLoraMapping i ≠ 0 → b.loraUsers (b.requestLoraMapping i) ≠ ∅) :
    ∃ ids loras, b.dropLora i id =
        .ok (b.withLora (Function.update b.requestLoraMapping i 0) ids loras) ∧
      (∀ l x, x ∈ (ids.get? l).getD ∅ ↔
        x ∈ b.loraUsers l ∧ ¬ (l = b.requestLoraMapping i ∧ l ≠ 0 ∧ x = id)) ∧
      (b.NoIdleLora → ∀ l s, ids.get? l = some s → s ≠ ∅) := by
  unfold dropLora
  by_cases h0 : b.requestLoraMapping i = 0
  · refine ⟨b.loraIdToRequestIds, b.loraIdToLoraRequest, ?_, fun l x => ?_, fun h => h⟩
    · have hself : Function.update b.requestLoraMapping i 0 = b.requestLoraMapping := by
        rw [← h0, Function.update_eq_self]
      rw [if_pos h0, hself]
      rfl
    · simp only [h0]
      refine ⟨fun hx => ⟨hx, fun h => h.2.1 h.1⟩, fun h => h.1⟩
  · rw [if_neg h0]
    have hl := hl h0
    unfold loraUsers at hl
    cases hget : b.loraIdToRequestIds.get? (b.requestLoraMapping i) with
    | none =>
      rw [hget] at hl
      exact absurd rfl hl
    | some s =>
      simp only
      have husers : ∀ l x, x ∈ ((if b.requestLoraMapping i = l then
          (if s.erase id = ∅ then none else some (s.erase id)) else
            b.loraIdToRequestIds.get? l).getD ∅) ↔
          x ∈ b.loraUsers l ∧ ¬ (l = b.requestLoraMapping i ∧ l ≠ 0 ∧ x = id) := by
        intro l x
        by_cases hkl : b.requestLoraMapping i = l
        · subst hkl
          have hmem : x ∈ (if s.erase id = ∅ then none else some (s.erase id)).getD ∅ ↔
              x ∈ s.erase id := by
            split
            · rename_i hnil
              rw [hnil]
              rfl
            · rfl
          rw [if_pos rfl, hmem, loraUsers, hget, Option.getD_some, Finset.mem_erase]
          simp only [h0, not_false_eq_true, true_and, ne_eq]
          exact and_comm
        · rw [if_neg hkl]
          have hlk : ¬ l = b.requestLoraMapping i := fun h => hkl h.symm
          simp [loraUsers, hlk]
      split
      · rename_i hnil
        refine ⟨_, _, rfl, fun l x => ?_, fun hidle l t ht => ?_⟩
        · rw [← husers, Dict.get?_erase, if_pos hnil]
        · exact hidle l t (Dict.get?_of_erase ht)
      · rename_i hne
        refine ⟨_, _, rfl, fun l x => ?_, fun hidle l t ht => ?_⟩
        · rw [← husers, Dict.get?_set, if_neg hne]
        · rw [Dict.get?_set] at ht
          split at ht
          · cases ht
            exact hne
          · exact hidle l t ht

theorem removeRequest_spec (hc : c.isPoolingModel = false)
    (hi : b.reqIdToIndex.get? id = some i) (hs : b.batchUpdateBuilder.isRemovedSorted = false)
    (hl : b.requestLoraMapping i ≠ 0 → b.loraUsers (b.requestLoraMapping i) ≠ ∅) :
    ∃ b', b.removeRequest c id = .ok (some i, b') ∧ b.Removed i id b' := by
  generalize hu : { b.batchUpdateBuilder with
    removed := b.batchUpdateBuilder.removed ++ [i], batchChanged := true } = u
  have happend : b.batchUpdateBuilder.removedAppend i = .ok u := by
    rw [← hu]
    simp only [BatchUpdateBuilder.removedAppend, hs]
    rfl
  obtain ⟨ids, loras, hdrop, husers, hidle⟩ :=
    dropLora_spec (b := (b.withBuilder u).vacate i id) id hl
  refine ⟨(((b.withBuilder u).vacate i id).withLora
    (Function.update b.requestLoraMapping i 0) ids loras).dropSampling i id, ?_, ?_⟩
  · unfold removeRequest
    simp only [hi, happend, Result.ok_bind, hdrop, hc]
    rfl
  · constructor
    case reqIds => rfl
    case outputs => exact List.length_set
    case specs => exact List.length_set
    case index => rfl
    case builder => exact hu.symm
    case tables => rfl
    case row =>
      intro j hj
      simp only [row, withLora, dropSampling, vacate, withBuilder, Dict.get?_erase,
        if_neg hj.symm, Function.update_of_ne hj]
    case generator => simp [row, dropSampling]
    case badWords => simp [row, dropSampling]
    case users => exact husers
    case idle => exact hidle

section AddRequest

variable [Zero F] [One F] [LT F] [DecidableLT F] [DecidableEq F]
variable {r : CachedRequestState F G E} {params : SamplingParams F} {u : BatchUpdateBuilder F}

def TokensOf (r : CachedRequestState F G E) (row : Nat → Token) : Prop :=
  ∀ p < r.numTokens, ∀ t ∈ r.tokenAt? p, row p = t

omit [One F] [LT F] [DecidableLT F] [DecidableEq F] [Zero F] in
theorem tokenRow_spec (row : Nat → Token) (hfits : r.numTokens ≤ c.maxModelLen) :
    ∃ row', tokenRow c row r = .ok row' ∧ TokensOf r row' := by
  have hout : r.numPromptTokens + r.outputTokenIds.length ≤ c.maxModelLen := hfits
  unfold tokenRow
  cases hprompt : r.promptTokenIds with
  | none =>
    simp only [Result.ok_bind, assignSlice_of_fits hout]
    refine ⟨_, rfl, fun p hp t ht => ?_⟩
    unfold CachedRequestState.tokenAt? at ht
    split at ht
    · rw [hprompt] at ht
      cases ht
    · rename_i hle
      rw [if_pos (Nat.not_lt.mp hle), Option.mem_def.mp ht]
      rfl
  | some ids =>
    have hlen := r.length_promptTokenIds hprompt
    have hids : 0 + ids.length ≤ c.maxModelLen := by omega
    simp only [assignSlice_of_fits hids, Result.ok_bind, assignSlice_of_fits hout]
    refine ⟨_, rfl, fun p hp t ht => ?_⟩
    unfold CachedRequestState.tokenAt? at ht
    split at ht
    · rename_i hlt
      rw [hprompt] at ht
      rw [if_neg (Nat.not_le.mpr hlt), if_pos (Nat.zero_le p), Nat.sub_zero]
      rw [show ids[p]? = some t from ht]
      rfl
    · rename_i hle
      rw [if_pos (Nat.not_lt.mp hle), Option.mem_def.mp ht]
      rfl

omit [One F] [LT F] [DecidableLT F] [DecidableEq F] [Zero F] in
theorem isSome_tokenAt? {p : Nat} (hp : p < r.numTokens) :
    (r.tokenAt? p).isSome = if p < r.numPromptTokens then r.promptTokenIds.isSome else true := by
  unfold CachedRequestState.tokenAt?
  split
  · rename_i hlt
    cases hprompt : r.promptTokenIds with
    | none => rfl
    | some ids =>
      have hlen := r.length_promptTokenIds hprompt
      simp [hlen, hlt]
  · have : p - r.numPromptTokens < r.outputTokenIds.length := by
      unfold CachedRequestState.numTokens at hp
      omega
    simp [this]

omit [One F] [LT F] [DecidableLT F] [DecidableEq F] [Zero F] in
theorem row_withTables (ts : MultiGroupBlockTable) :
    (b.withTables ts).row i = { b.row i with tables := rows ts i } := rfl

omit [One F] [LT F] [DecidableLT F] [DecidableEq F] [Zero F] in
theorem row_storeTokens_self (row : Nat → Token) : (b.storeTokens i r row).row i =
    { b.row i with
      tokens := row
      isTokens := fun j =>
        if j < r.numPromptTokens then r.promptTokenIds.isSome
        else if j < r.numPromptTokens + r.outputTokenIds.length then true else b.isTokenIds i j
      numTokens := r.numTokens
      numPromptTokens := r.numPromptTokens
      numComputedTokens := r.numComputedTokens } := by
  simp only [InputBatch.row, storeTokens, Function.update_self]

omit [One F] [LT F] [DecidableLT F] [DecidableEq F] [Zero F] in
theorem row_storeTokens_of_ne (row : Nat → Token) (hj : j ≠ i) :
    (b.storeTokens i r row).row j = b.row j := by
  simp only [InputBatch.row, storeTokens, Function.update_of_ne hj]

theorem row_storeSampling_self (hg : b.generators.get? i = none)
    (hb : b.badWordsTokenIds.get? i = none) : (b.storeSampling c i r params).row i =
    { b.row i with
      temperature := storedTemperature c params
      topP := c.toFloat32 params.topP
      topK := storedTopK c params
      frequencyPenalty := c.toFloat32 params.frequencyPenalty
      presencePenalty := c.toFloat32 params.presencePenalty
      repetitionPenalty := c.toFloat32 params.repetitionPenalty
      generator := r.generator
      badWords := if params.badWordsTokenIds = [] then none else some params.badWordsTokenIds } := by
  have hgen : (setIfSome b.generators i r.generator).get? i = r.generator := by
    cases r.generator with
    | none => exact hg
    | some g => simp [setIfSome]
  have hbad : (if params.badWordsTokenIds ≠ [] then
      b.badWordsTokenIds.set i params.badWordsTokenIds else b.badWordsTokenIds).get? i =
      if params.badWordsTokenIds = [] then none else some params.badWordsTokenIds := by
    by_cases h : params.badWordsTokenIds = [] <;> simp [h, hb]
  simp only [InputBatch.row, storeSampling, Function.update_self, hgen, hbad]

theorem row_storeSampling_of_ne (hj : j ≠ i) :
    (b.storeSampling c i r params).row j = b.row j := by
  have hgen : (setIfSome b.generators i r.generator).get? j = b.generators.get? j := by
    cases r.generator with
    | none => rfl
    | some g => simp [setIfSome, hj.symm]
  have hbad : (if params.badWordsTokenIds ≠ [] then
      b.badWordsTokenIds.set i params.badWordsTokenIds else b.badWordsTokenIds).get? j =
      b.badWordsTokenIds.get? j := by
    by_cases h : params.badWordsTokenIds = [] <;> simp [h, hj.symm]
  simp only [InputBatch.row, storeSampling, Function.update_of_ne hj, hgen, hbad]

omit [One F] [LT F] [DecidableLT F] [DecidableEq F] [Zero F] in
theorem storeLora_eq : ∃ mapping ids loras, b.storeLora i r = b.withLora mapping ids loras := by
  unfold storeLora
  split <;> exact ⟨_, _, _, rfl⟩

omit [One F] [LT F] [DecidableLT F] [DecidableEq F] [Zero F] in
theorem row_storeLora_self : (b.storeLora i r).row i = { b.row i with loraId := r.loraId } := by
  unfold storeLora CachedRequestState.loraId
  split <;> simp [InputBatch.row, withLora, *]

omit [One F] [LT F] [DecidableLT F] [DecidableEq F] [Zero F] in
theorem row_storeLora_of_ne (hj : j ≠ i) : (b.storeLora i r).row j = b.row j := by
  unfold storeLora
  split <;> simp [InputBatch.row, withLora, hj]

omit [One F] [LT F] [DecidableLT F] [DecidableEq F] [Zero F] in
theorem mem_loraUsers_storeLora (l : Nat) (x : ReqId) : x ∈ (b.storeLora i r).loraUsers l ↔
    x ∈ b.loraUsers l ∨ (x = r.reqId ∧ l = r.loraId ∧ l ≠ 0) := by
  unfold storeLora loraUsers CachedRequestState.loraId
  split
  · rename_i lora hlora
    have hpos := r.loraIntId_pos lora hlora
    simp only [withLora, Dict.get?_set, hlora, Option.map_some, Option.getD_some]
    by_cases hl : lora.loraIntId = l
    · subst hl
      simp only [if_true, Option.getD_some, Finset.mem_insert, Dict.getD]
      constructor
      · rintro (rfl | h)
        · exact .inr ⟨rfl, trivial, by omega⟩
        · exact .inl h
      · rintro (h | ⟨rfl, -, -⟩)
        · exact .inr h
        · exact .inl rfl
    · have hl' : ¬ l = lora.loraIntId := fun h => hl h.symm
      simp [hl, hl']
  · rename_i hlora
    simp only [withLora, hlora, Option.map_none, Option.getD_none]
    constructor
    · exact .inl
    · rintro (h | ⟨-, rfl, h⟩)
      · exact h
      · exact absurd rfl h

omit [One F] [LT F] [DecidableLT F] [DecidableEq F] [Zero F] in
theorem noIdleLora_storeLora (h : b.NoIdleLora) : (b.storeLora i r).NoIdleLora := by
  intro l ids hget
  unfold storeLora at hget
  split at hget
  · simp only [withLora, Dict.get?_set] at hget
    split at hget
    · cases hget
      exact Finset.insert_ne_empty _ _
    · exact h l ids hget
  · exact h l ids hget

structure Lists (b : InputBatch F F32 G E) : Prop where
  outputs : b.reqOutputTokenIds.length = b.reqIds.length
  specs : b.reqIds.length ≤ b.specTokenIds.length

structure Added (c : InputBatchConfig F F32) (b : InputBatch F F32 G E) (i : Nat)
    (r : CachedRequestState F G E) (b' : InputBatch F F32 G E) : Prop where
  slots : ∀ j, b'.reqIds[j]? = if j = i then some (some r.reqId) else b.reqIds[j]?
  lists : b.Lists → b'.Lists
  index : b'.reqIdToIndex = b.reqIdToIndex.set r.reqId i
  builder : ∃ params, r.samplingParams = some params ∧
    b'.batchUpdateBuilder = { b.batchUpdateBuilder.popRemoved.2 with
      batchChanged := true
      added := b.batchUpdateBuilder.popRemoved.2.added ++
        [⟨i, params, r.promptTokenIds, r.outputTokenIds⟩] }
  row : ∀ j ≠ i, b'.row j = b.row j
  holds : (b.row i).generator = none → (b.row i).badWords = none → (b'.row i).Holds c r
  users : ∀ l x, x ∈ b'.loraUsers l ↔
    x ∈ b.loraUsers l ∨ (x = r.reqId ∧ l = r.loraId ∧ l ≠ 0)
  idle : b.NoIdleLora → b'.NoIdleLora

omit [One F] [LT F] [DecidableLT F] [DecidableEq F] [Zero F] in
theorem placeRequest_spec (hi : i ≤ b.reqIds.length) :
    ∃ ids outputs specs, b.placeRequest i r = .ok { b with
        reqIds := ids
        reqOutputTokenIds := outputs
        specTokenIds := specs
        reqIdToIndex := b.reqIdToIndex.set r.reqId i } ∧
      (∀ j, ids[j]? = if j = i then some (some r.reqId) else b.reqIds[j]?) ∧
      (b.Lists → outputs.length = ids.length ∧ ids.length ≤ specs.length) := by
  unfold placeRequest
  split
  · rename_i heq
    refine ⟨_, _, _, rfl, fun j => ?_, fun h => ?_⟩
    · subst heq
      rw [List.getElem?_append]
      split
      · rename_i hlt
        rw [if_neg (by omega)]
      · rename_i hge
        by_cases hj : j = b.reqIds.length
        · simp [hj]
        · rw [if_neg hj, List.getElem?_eq_none (by simp; omega), List.getElem?_eq_none (by omega)]
    · have := h.outputs
      have := h.specs
      simp only [List.length_append, List.length_singleton]
      omega
  · rename_i hne
    have hlt : i < b.reqIds.length := by omega
    rw [if_pos hlt]
    refine ⟨_, _, _, rfl, fun j => ?_, fun h => ?_⟩
    · rw [List.getElem?_set]
      by_cases hj : i = j
      · subst hj
        simp [hlt]
      · rw [if_neg hj, if_neg (Ne.symm hj)]
    · simp only [List.length_set]
      exact ⟨h.outputs, h.specs⟩

theorem addRequest_spec (hi : b.batchUpdateBuilder.popRemoved.1.getD b.numReqs = i)
    (hmax : i < c.maxNumReqs) (hle : i ≤ b.reqIds.length) (hp : r.samplingParams = some params)
    (htokens : r.numTokens ≤ c.maxModelLen)
    (hblocks : List.Forall₂ BlockTable.Fits b.blockTable r.blockIds) :
    ∃ b', b.addRequest c r = .ok (i, b') ∧ b.Added c i r b' := by
  obtain ⟨u, hu⟩ : ∃ u, ({ b.batchUpdateBuilder.popRemoved.2 with
      batchChanged := true
      added := b.batchUpdateBuilder.popRemoved.2.added ++
        [⟨i, params, r.promptTokenIds, r.outputTokenIds⟩] } : BatchUpdateBuilder F) = u := ⟨_, rfl⟩
  have hreg : b.registerAddRequest c r = .ok (i, b.withBuilder u) := by
    unfold registerAddRequest
    simp only [hi, Result.ensure, hmax, if_true, Result.ok_bind, hp, hu]
    rfl
  obtain ⟨ids, outputs, specs, hplace, hslots, hlists⟩ :=
    placeRequest_spec (b := b.withBuilder u) (r := r) hle
  obtain ⟨b₁, hb₁⟩ : ∃ b₁, ({ b.withBuilder u with
      reqIds := ids
      reqOutputTokenIds := outputs
      specTokenIds := specs
      reqIdToIndex := (b.withBuilder u).reqIdToIndex.set r.reqId i } : InputBatch F F32 G E) = b₁ :=
    ⟨_, rfl⟩
  rw [hb₁] at hplace
  obtain ⟨row, hrow, htok⟩ := tokenRow_spec (r := r) (b₁.tokenIdsCpu i) htokens
  have hblocks₁ : List.Forall₂ BlockTable.Fits (b₁.storeTokens i r row).blockTable r.blockIds := by
    rw [← hb₁]
    exact hblocks
  obtain ⟨ts, hts, hrows, hframe⟩ := MultiGroupBlockTable.addRow_spec (i := i) hblocks₁
  refine ⟨(((b₁.storeTokens i r row).withTables ts).storeSampling c i r params).storeLora i r,
    ?_, ?_⟩
  · unfold addRequest
    simp only [hreg, Result.ok_bind, hplace, hrow, hts, hp]
    rfl
  · have hrow₁ : ∀ j, b₁.row j = b.row j := by
      intro j
      rw [← hb₁]
      rfl
    obtain ⟨mapping, users, loras, hlora⟩ := storeLora_eq
      (b := ((b₁.storeTokens i r row).withTables ts).storeSampling c i r params) (i := i) (r := r)
    constructor
    case slots =>
      rw [hlora, ← hb₁]
      exact hslots
    case lists =>
      intro h
      obtain ⟨houtputs, hspecs⟩ := hlists ⟨h.outputs, h.specs⟩
      rw [hlora, ← hb₁]
      exact ⟨houtputs, hspecs⟩
    case index =>
      rw [hlora, ← hb₁]
      rfl
    case builder =>
      rw [hlora, ← hb₁]
      exact ⟨params, hp, hu.symm⟩
    case row =>
      intro j hj
      rw [row_storeLora_of_ne hj, row_storeSampling_of_ne hj, row_withTables, hframe j hj]
      exact (row_storeTokens_of_ne row hj).trans (hrow₁ j)
    case holds =>
      intro hgen hbad
      rw [← hrow₁] at hgen hbad
      have hgen₂ : ((b₁.storeTokens i r row).withTables ts).generators.get? i = none := hgen
      have hbad₂ : ((b₁.storeTokens i r row).withTables ts).badWordsTokenIds.get? i = none := hbad
      rw [row_storeLora_self, row_storeSampling_self hgen₂ hbad₂, row_withTables,
        row_storeTokens_self]
      constructor
      case tokens =>
        intro p hp
        have hlt : p < r.numPromptTokens + r.outputTokenIds.length := hp
        refine ⟨?_, htok p hp⟩
        rw [isSome_tokenAt? hp]
        simp only [hlt, if_true]
      case numTokens => rfl
      case numPromptTokens => rfl
      case numComputedTokens => rfl
      case tables => exact hrows
      case sampling => exact ⟨params, hp, rfl, rfl, rfl, rfl, rfl, rfl, rfl⟩
      case generator => rfl
      case loraId => rfl
    case users =>
      intro l x
      rw [mem_loraUsers_storeLora, ← hb₁]
      rfl
    case idle =>
      intro h
      refine noIdleLora_storeLora ?_
      rw [← hb₁]
      exact h

end AddRequest

section Move

variable {last empty : Nat}

theorem get?_moveEntry_src {α : Type} {d : Dict Nat α} (h : last ≠ empty) :
    (moveEntry d last empty).get? last = none := by
  unfold moveEntry
  split
  · simp [h.symm]
  · assumption

theorem get?_moveEntry_tgt {α : Type} {d : Dict Nat α} (h : d.get? empty = none) :
    (moveEntry d last empty).get? empty = d.get? last := by
  unfold moveEntry
  split
  · rename_i v hv
    simp [hv]
  · rename_i hv
    rw [h, hv]

theorem get?_moveEntry_of_ne {α : Type} {d : Dict Nat α} (hl : j ≠ last) (he : j ≠ empty) :
    (moveEntry d last empty).get? j = d.get? j := by
  unfold moveEntry
  split
  · simp [hl.symm, he.symm]
  · rfl

structure Moved [Zero F] (c : InputBatchConfig F F32) (b : InputBatch F F32 G E)
    (last empty : Nat) (id : ReqId) (b' : InputBatch F F32 G E) : Prop where
  reqIds : b'.reqIds = (b.reqIds.set empty (some id)).set last none
  lists : b.Lists → b'.Lists
  index : b'.reqIdToIndex = b.reqIdToIndex.set id empty
  builder : b'.batchUpdateBuilder = { b.batchUpdateBuilder with
    moved := b.batchUpdateBuilder.moved ++ [(last, empty, .unidirectional)] }
  row : ∀ j, j ≠ last → j ≠ empty → b'.row j = b.row j
  holds : ∀ r : CachedRequestState F G E, (b.row empty).generator = none →
    (b.row empty).badWords = none → (b.row last).Holds c r → (b'.row empty).Holds c r
  generator : (b'.row last).generator = none
  badWords : (b'.row last).badWords = none
  loraId : b'.requestLoraMapping empty = b.requestLoraMapping last
  users : b'.loraIdToRequestIds = b.loraIdToRequestIds

theorem moveRequest_spec [Zero F] (hc : c.isPoolingModel = false)
    (hid : b.reqIds[last]? = some (some id)) (hne : last ≠ empty) (hlists : b.Lists) :
    ∃ b', b.moveRequest c last empty = .ok b' ∧ b.Moved c last empty id b' := by
  have hlt : last < b.reqIds.length := (List.getElem?_eq_some_iff.mp hid).1
  obtain ⟨output, houtput⟩ : ∃ x, b.reqOutputTokenIds[last]? = some x :=
    ⟨_, List.getElem?_eq_getElem (by rw [hlists.outputs]; exact hlt)⟩
  obtain ⟨spec, hspec⟩ : ∃ x, b.specTokenIds[last]? = some x :=
    ⟨_, List.getElem?_eq_getElem (Nat.lt_of_lt_of_le hlt hlists.specs)⟩
  refine ⟨(b.moveCommon last empty id output spec).moveSampling last empty, ?_, ?_⟩
  · unfold moveRequest
    simp only [Result.getItem, hid, houtput, hspec, Result.ok_bind, hc]
    rfl
  · constructor
    case reqIds => rfl
    case lists =>
      intro h
      constructor
      · simp only [moveSampling, moveCommon, List.length_set]
        exact h.outputs
      · simp only [moveSampling, moveCommon, List.length_set]
        exact h.specs
    case index => rfl
    case builder => rfl
    case row =>
      intro j hl he
      simp only [InputBatch.row, moveSampling, moveCommon, Function.update_of_ne he,
        MultiGroupBlockTable.moveRow_of_ne he, get?_moveEntry_of_ne hl he]
    case holds =>
      intro r hgen hbad h
      constructor
      case tokens =>
        intro p hp
        have hlt : p < b.numTokensNoSpec last + spec.length := by
          have : b.numTokensNoSpec last = r.numTokens := h.numTokens
          omega
        simp only [InputBatch.row, moveSampling, moveCommon, Function.update_self, copyFirst, hlt,
          if_true]
        exact h.tokens p hp
      case numTokens => exact (Function.update_self ..).trans h.numTokens
      case numPromptTokens => exact (Function.update_self ..).trans h.numPromptTokens
      case numComputedTokens => exact (Function.update_self ..).trans h.numComputedTokens
      case tables => exact MultiGroupBlockTable.moveRow_self h.tables
      case sampling =>
        obtain ⟨params, hp, hs⟩ := h.sampling
        refine ⟨params, hp, ?_⟩
        exact {
          temperature := (Function.update_self ..).trans hs.temperature
          topP := (Function.update_self ..).trans hs.topP
          topK := (Function.update_self ..).trans hs.topK
          frequencyPenalty := (Function.update_self ..).trans hs.frequencyPenalty
          presencePenalty := (Function.update_self ..).trans hs.presencePenalty
          repetitionPenalty := (Function.update_self ..).trans hs.repetitionPenalty
          badWords := (get?_moveEntry_tgt hbad).trans hs.badWords }
      case generator => exact (get?_moveEntry_tgt hgen).trans h.generator
      case loraId => exact (Function.update_self ..).trans h.loraId
    case generator => exact get?_moveEntry_src hne
    case badWords => exact get?_moveEntry_src hne
    case loraId => exact Function.update_self ..
    case users => rfl

end Move

section Swap

variable {i1 i2 : Nat} {id1 id2 : ReqId}

theorem getElem?_swapItems {α : Type} {l : List α} (h1 : i1 < l.length) (h2 : i2 < l.length)
    (k : Nat) : (swapItems l i1 i2)[k]? = l[Equiv.swap i1 i2 k]? := by
  unfold swapItems
  rw [List.getElem?_eq_getElem h1, List.getElem?_eq_getElem h2]
  simp only [List.getElem?_set, List.length_set]
  by_cases hk2 : i2 = k
  · subst hk2
    simp [h1, h2]
  · by_cases hk1 : i1 = k
    · subst hk1
      simp [h1, h2, hk2]
    · rw [if_neg hk2, if_neg hk1, Equiv.swap_apply_of_ne_of_ne (Ne.symm hk1) (Ne.symm hk2)]

theorem length_swapItems {α : Type} (l : List α) : (swapItems l i1 i2).length = l.length := by
  unfold swapItems
  split
  · rw [List.length_set, List.length_set]
  · rfl

theorem get?_setOrPop {α : Type} (d : Dict Nat α) (key : Nat) (v : Option α) (k : Nat) :
    (setOrPop d key v).get? k = if key = k then v else d.get? k := by
  cases v with
  | none => exact Dict.get?_erase d key k
  | some v => exact Dict.get?_set d key k v

theorem get?_swapDictValues {α : Type} (d : Dict Nat α) (k : Nat) :
    (swapDictValues d i1 i2).get? k = d.get? (Equiv.swap i1 i2 k) := by
  unfold swapDictValues
  simp only [get?_setOrPop]
  by_cases h1 : i1 = k
  · subst h1
    simp
  · by_cases h2 : i2 = k
    · subst h2
      simp [h1]
    · rw [if_neg h1, if_neg h2, Equiv.swap_apply_of_ne_of_ne (Ne.symm h1) (Ne.symm h2)]

structure Swapped (b : InputBatch F F32 G E) (i1 i2 : Nat) (id1 id2 : ReqId)
    (b' : InputBatch F F32 G E) : Prop where
  slots : ∀ j, b'.reqIds[j]? = b.reqIds[Equiv.swap i1 i2 j]?
  length : b'.reqIds.length = b.reqIds.length
  lists : b.Lists → b'.Lists
  index : b'.reqIdToIndex = (b.reqIdToIndex.set id1 i2).set id2 i1
  builder : b'.batchUpdateBuilder = { b.batchUpdateBuilder with
    moved := b.batchUpdateBuilder.moved ++ [(i1, i2, .swap)] }
  row : ∀ j, b'.row j = b.row (Equiv.swap i1 i2 j)
  users : b'.loraIdToRequestIds = b.loraIdToRequestIds

theorem swapStates_spec (hc : c.isPoolingModel = false) (h1 : b.reqIds[i1]? = some (some id1))
    (h2 : b.reqIds[i2]? = some (some id2)) (hx1 : b.reqIdToIndex.get? id1 = some i1)
    (hx2 : b.reqIdToIndex.get? id2 = some i2) :
    ∃ b', b.swapStates c i1 i2 = .ok b' ∧ b.Swapped i1 i2 id1 id2 b' := by
  refine ⟨(b.swapCommon i1 i2 ((b.reqIdToIndex.set id1 i2).set id2 i1)).swapSampling i1 i2, ?_, ?_⟩
  · unfold swapStates
    simp only [Result.getItem, h1, h2, getIndex, hx1, hx2, Result.ok_bind, hc]
    rfl
  · constructor
    case slots =>
      exact getElem?_swapItems (List.getElem?_eq_some_iff.mp h1).1
        (List.getElem?_eq_some_iff.mp h2).1
    case length => exact length_swapItems _
    case lists =>
      intro h
      constructor
      · simp only [swapSampling, swapCommon, length_swapItems]
        exact h.outputs
      · simp only [swapSampling, swapCommon, length_swapItems]
        exact h.specs
    case index => rfl
    case builder => rfl
    case row =>
      intro j
      simp only [InputBatch.row, swapSampling, swapCommon, MultiGroupBlockTable.swapRow_rows,
        get?_swapDictValues, Function.comp_apply]
    case users => rfl

end Swap

section Update

variable {r r' : CachedRequestState F G E}

structure Updated [Zero F] (c : InputBatchConfig F F32) (b : InputBatch F F32 G E) (i : Nat)
    (r r' : CachedRequestState F G E) (b' : InputBatch F F32 G E) : Prop where
  reqIds : b'.reqIds = b.reqIds
  lists : b.Lists → b'.Lists
  index : b'.reqIdToIndex = b.reqIdToIndex
  builder : b'.batchUpdateBuilder = b.batchUpdateBuilder
  row : ∀ j ≠ i, b'.row j = b.row j
  holds : (b.row i).Holds c r → (b'.row i).Holds c r'
  loraId : (b'.row i).loraId = (b.row i).loraId
  users : b'.loraIdToRequestIds = b.loraIdToRequestIds

theorem Updated.trans [Zero F] {b'' : InputBatch F F32 G E} {r'' : CachedRequestState F G E}
    (h : b.Updated c i r r' b') (h' : b'.Updated c i r' r'' b'') : b.Updated c i r r'' b'' where
  reqIds := h'.reqIds.trans h.reqIds
  lists := fun hl => h'.lists (h.lists hl)
  index := h'.index.trans h.index
  builder := h'.builder.trans h.builder
  row := fun j hj => (h'.row j hj).trans (h.row j hj)
  holds := fun hr => h'.holds (h.holds hr)
  loraId := h'.loraId.trans h.loraId
  users := h'.users.trans h.users

theorem updateReqSpecTokenIds_spec [Zero F] {spec : List Token}
    (hi : b.reqIdToIndex.get? id = some i) (hnum : b.numTokensNoSpec i = r.numTokens)
    (hfits : r.numTokens + spec.length ≤ c.maxModelLen) :
    ∃ b', b.updateReqSpecTokenIds c id spec = .ok b' ∧ b.Updated c i r r b' := by
  obtain ⟨row, hrow, hkeep⟩ : ∃ row, (if spec = [] then .ok (b.tokenIdsCpu i)
      else assignSlice c.maxModelLen (b.tokenIdsCpu i) (b.numTokensNoSpec i) spec :
        Result (Nat → Token)) = .ok row ∧ ∀ p < r.numTokens, row p = b.tokenIdsCpu i p := by
    split
    · exact ⟨_, rfl, fun _ _ => rfl⟩
    · rw [hnum, assignSlice_of_fits hfits]
      refine ⟨_, rfl, fun p hp => ?_⟩
      rw [if_neg (Nat.not_le.mpr hp)]
  refine ⟨{ b with
    tokenIdsCpu := Function.update b.tokenIdsCpu i row
    specTokenIds := b.specTokenIds.set i spec }, ?_, ?_⟩
  · unfold updateReqSpecTokenIds getIndex
    simp only [hi, Result.ok_bind, hrow]
    rfl
  · constructor
    case reqIds => rfl
    case lists =>
      intro h
      refine ⟨h.outputs, ?_⟩
      simp only [List.length_set]
      exact h.specs
    case index => rfl
    case builder => rfl
    case row =>
      intro j hj
      simp only [InputBatch.row, Function.update_of_ne hj]
    case holds =>
      intro h
      obtain ⟨params, hp, hs⟩ := h.sampling
      refine { h with
        tokens := fun p hp => ⟨(h.tokens p hp).1, fun t ht => ?_⟩
        sampling := ⟨params, hp, { hs with }⟩ }
      show Function.update b.tokenIdsCpu i row i p = t
      rw [Function.update_self, hkeep p hp]
      exact (h.tokens p hp).2 t ht
    case loraId => rfl
    case users => rfl

theorem withRunning_spec [Zero F] {n : Nat} {blockIds : List (List Nat)}
    {ts : MultiGroupBlockTable} (hrows : RowsHold (rows ts i) blockIds)
    (hframe : ∀ j ≠ i, rows ts j = rows b.blockTable j) :
    b.Updated c i r { r with numComputedTokens := n, blockIds } (b.withRunning i n ts) where
  reqIds := rfl
  lists := fun h => ⟨h.outputs, h.specs⟩
  index := rfl
  builder := rfl
  row := fun j hj => by
    simp only [InputBatch.row, withRunning, Function.update_of_ne hj, hframe j hj]
  holds := fun h => by
    obtain ⟨params, hp, hs⟩ := h.sampling
    exact { h with
      numComputedTokens := Function.update_self ..
      tables := hrows
      sampling := ⟨params, hp, { hs with }⟩ }
  loraId := rfl
  users := rfl

end Update

end InputBatch

end Worker

end Vllm
