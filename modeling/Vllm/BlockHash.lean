import Vllm.Lib.HashChain
import Vllm.Request

/-! Block hashes of a request: the extra keys, the chained block hash and the hasher that extends
`request.block_hashes` by the full blocks that are new. -/

namespace Vllm

inductive ExtraKey
  | str (s : String)
  | bytes (b : Bytes)
  deriving DecidableEq, Repr

abbrev ExtraKeys := Option (List ExtraKey)

abbrev HashInput := BlockHash × List Token × ExtraKeys

/-- `get_request_block_hasher(block_size, caching_hash_fn)` with the module's `NONE_HASH`.
Digests are never empty, so the truth test on a parent hash only catches `None`. -/
structure BlockHasher where
  blockSize : Nat
  blockSize_pos : 0 < blockSize
  cachingHashFn : HashInput → Bytes
  digest_ne_nil : ∀ x, cachingHashFn x ≠ []
  noneHash : BlockHash
  sha256 : Bytes → Bytes

namespace MultiModalFeatureSpec

def offset (f : MultiModalFeatureSpec) : Nat := f.mmPosition.offset
def length (f : MultiModalFeatureSpec) : Nat := f.mmPosition.length
def stop (f : MultiModalFeatureSpec) : Nat := f.offset + f.length

end MultiModalFeatureSpec

/-- The `while` loop of `_gen_mm_extra_hash_keys` over the features from `curr_mm_idx` on. -/
def genMmKeysFrom (startTokenIdx endTokenIdx : Nat) :
    List MultiModalFeatureSpec → Nat → List ExtraKey × Nat
  | [], currMmIdx => ([], currMmIdx)
  | f :: fs, currMmIdx =>
    if endTokenIdx > f.offset then
      if startTokenIdx > f.offset + f.length then
        genMmKeysFrom startTokenIdx endTokenIdx fs (currMmIdx + 1)
      else if endTokenIdx ≥ f.offset + f.length then
        let (keys, idx) := genMmKeysFrom startTokenIdx endTokenIdx fs (currMmIdx + 1)
        (.str f.identifier :: keys, idx)
      else ([.str f.identifier], currMmIdx)
    else ([], currMmIdx)

/-- `start_mm_idx` is an index, or `-1` for the last item. -/
def genMmExtraHashKeys (r : Request) (startTokenIdx endTokenIdx : Nat) (startMmIdx : Int) :
    List ExtraKey × Int :=
  match r.mmFeatures.getLast? with
  | none => ([], startMmIdx)
  | some last =>
    if last.offset + last.length < startTokenIdx then ([], startMmIdx)
    else
      let idx : Nat :=
        if startMmIdx < 0 then (r.mmFeatures.length + startMmIdx).toNat else startMmIdx.toNat
      let (keys, idx') := genMmKeysFrom startTokenIdx endTokenIdx (r.mmFeatures.drop idx) idx
      (keys, idx')

def genLoraExtraHashKeys (r : Request) : List ExtraKey :=
  match r.loraRequest with
  | none => []
  | some lora => [.str lora.loraName]

def genPromptEmbedsExtraHashKeys (sha256 : Bytes → Bytes) (r : Request)
    (startTokenIdx endTokenIdx : Nat) : List ExtraKey :=
  match r.promptEmbeds with
  | none => []
  | some rows => [.bytes (sha256 ((rows.take endTokenIdx).drop startTokenIdx).flatten)]

def genCacheSaltKeys (r : Request) (startTokenIdx : Nat) : List ExtraKey :=
  match r.cacheSalt with
  | none => []
  | some salt => if startTokenIdx = 0 ∧ salt ≠ "" then [.str salt] else []

def generateBlockHashExtraKeys (sha256 : Bytes → Bytes) (r : Request)
    (startTokenIdx endTokenIdx : Nat) (startMmIdx : Int) : ExtraKeys × Int :=
  let (mmExtraKeys, newStartMmIdx) := genMmExtraHashKeys r startTokenIdx endTokenIdx startMmIdx
  let extraKeys := genLoraExtraHashKeys r ++ mmExtraKeys ++ genCacheSaltKeys r startTokenIdx ++
    genPromptEmbedsExtraHashKeys sha256 r startTokenIdx endTokenIdx
  (if extraKeys = [] then none else some extraKeys, newStartMmIdx)

def hashBlockTokens (h : BlockHasher) (parentBlockHash : Option BlockHash)
    (currBlockTokenIds : List Token) (extraKeys : ExtraKeys) : BlockHash :=
  let parent := match parentBlockHash with
    | none => h.noneHash
    | some p => if p = [] then h.noneHash else p
  h.cachingHashFn (parent, currBlockTokenIds, extraKeys)

/-- The `while True` loop of `request_block_hasher`; `fuel` bounds the blocks still to hash. -/
def hashBlocksFrom (h : BlockHasher) (r : Request) :
    Nat → Nat → Option BlockHash → Int → List BlockHash
  | 0, _, _, _ => []
  | fuel + 1, startTokenIdx, prevBlockHash, currMmIdx =>
    let endTokenIdx := startTokenIdx + h.blockSize
    if endTokenIdx > r.numTokens then []
    else
      let (extraKeys, currMmIdx) :=
        generateBlockHashExtraKeys h.sha256 r startTokenIdx endTokenIdx currMmIdx
      let blockTokens := (r.allTokenIds.take endTokenIdx).drop startTokenIdx
      let blockHash := hashBlockTokens h prevBlockHash blockTokens extraKeys
      blockHash :: hashBlocksFrom h r fuel endTokenIdx (some blockHash) currMmIdx

def requestBlockHasher (h : BlockHasher) (r : Request) : List BlockHash :=
  let startTokenIdx := r.blockHashes.length * h.blockSize
  if startTokenIdx + h.blockSize > r.numTokens then []
  else
    hashBlocksFrom h r r.numTokens startTokenIdx r.blockHashes.getLast?
      (if startTokenIdx > 0 then -1 else 0)

namespace Request

/-- `_block_hasher` is `None` when prefix caching is off. -/
def updateBlockHashes (hasher : Option BlockHasher) (r : Request) : Request :=
  match hasher with
  | none => r
  | some h => { r with blockHashes := r.blockHashes ++ requestBlockHasher h r }

def appendOutputTokenIds (hasher : Option BlockHasher) (r : Request) (tokenIds : List Token) :
    Request :=
  updateBlockHashes hasher
    { r with
      outputTokenIds := r.outputTokenIds ++ tokenIds
      allTokenIds := r.allTokenIds ++ tokenIds }

end Request

/-- The arguments of `Request.__init__` that are kept. -/
structure RequestParams where
  requestId : ReqId
  promptTokenIds : Option (List Token) := none
  samplingParams : Option SamplingParams := none
  poolingParams : Option PoolingParams := none
  arrivalTime : Int := 0
  promptEmbeds : Option (List Bytes) := none
  mmFeatures : List MultiModalFeatureSpec := []
  loraRequest : Option LoRARequest := none
  cacheSalt : Option String := none
  priority : Int := 0
  resumable : Bool := false
  deriving DecidableEq, Repr

/-- `length_from_prompt_token_ids_or_embeds`. -/
def RequestParams.numPromptTokens (p : RequestParams) : Nat :=
  match p.promptTokenIds, p.promptEmbeds with
  | some toks, _ => toks.length
  | none, some rows => rows.length
  | none, none => 0

def RequestParams.structured (p : RequestParams) : Bool :=
  match p.samplingParams with
  | some sp => sp.structuredOutputs
  | none => false

def RequestParams.skipReadingPrefixCache (p : RequestParams) : Bool :=
  match p.samplingParams, p.poolingParams with
  | some { skipReadingPrefixCache := some b, .. }, _ => b
  | _, some { skipReadingPrefixCache := some b, .. } => b
  | _, _ => false

def RequestParams.blank (p : RequestParams) : Request :=
  { requestId := p.requestId
    priority := p.priority
    arrivalTime := p.arrivalTime
    samplingParams := p.samplingParams
    poolingParams := p.poolingParams
    maxTokens := match p.poolingParams, p.samplingParams with
      | some _, _ => 1
      | none, some sp => sp.maxTokens
      | none, none => 0
    loraRequest := p.loraRequest
    useStructuredOutput := p.structured
    status := if p.poolingParams.isNone && p.structured then .waitingForFsm else .waiting
    promptTokenIds := p.promptTokenIds
    promptEmbeds := p.promptEmbeds
    numPromptTokens := p.numPromptTokens
    allTokenIds := p.promptTokenIds.getD (List.replicate p.numPromptTokens 0)
    cacheSalt := p.cacheSalt
    mmFeatures := p.mmFeatures
    skipReadingPrefixCache := p.skipReadingPrefixCache
    resumable := p.resumable }

def RequestParams.init (hasher : Option BlockHasher) (p : RequestParams) : Request :=
  p.blank.updateBlockHashes hasher

end Vllm
