import Mathlib.Data.List.Infix
import Vllm.IncrementalHash

namespace Vllm

open HashChain MultiModalFeatureSpec

def MultiModalFeatureSpec.shift (base : Nat) (f : MultiModalFeatureSpec) : MultiModalFeatureSpec :=
  { f with mmPosition := { f.mmPosition with offset := f.mmPosition.offset + base } }

def Request.extendSession (session : Request) (promptTokenIds : List Token)
    (update : StreamingUpdate) : Request :=
  let keptOutputTokens :=
    Py.slice session.allTokenIds session.numPromptTokens session.numComputedTokens
  let allTokenIds := Py.sliceTo session.allTokenIds session.numComputedTokens
  let newTokenIds := update.promptTokenIds.getD []
  { session with
    allTokenIds := allTokenIds ++ newTokenIds
    outputTokenIds := []
    promptTokenIds := some (promptTokenIds ++ keptOutputTokens ++ newTokenIds)
    mmFeatures :=
      session.mmFeatures ++ (update.mmFeatures.getD []).map (shift allTokenIds.length) }

/-- `_update_request_as_session` on the request; `none` is the failed assertion that the session
has prompt token ids. -/
def Request.updateAsSession (hasher : Option BlockHasher) (session : Request)
    (update : StreamingUpdate) : Option Request :=
  session.promptTokenIds.map fun promptTokenIds =>
    let session := (session.extendSession promptTokenIds update).updateBlockHashes hasher
    { session with
      numPromptTokens := (session.promptTokenIds.getD []).length
      arrivalTime := update.arrivalTime
      samplingParams := update.samplingParams
      status := .waiting }

/-- What happens to the request of a session: tokens are generated, the number of computed tokens
is set, an update is applied. -/
inductive SessionOp
  | append (tokenIds : List Token)
  | compute (numComputedTokens : Nat)
  | update (u : StreamingUpdate)

namespace SessionOp

def isUpdate : SessionOp → Bool
  | .update _ => true
  | _ => false

def TextOnly : SessionOp → Prop
  | .update u => u.mmFeatures.getD [] = []
  | _ => True

def KeepsBlocks (h : BlockHasher) (r : Request) : SessionOp → Prop
  | .update u => r.allTokenIds.take (r.blockHashes.length * h.blockSize) <+:
      Py.sliceTo r.allTokenIds r.numComputedTokens ++ u.promptTokenIds.getD []
  | _ => True

end SessionOp

namespace Request

def sessionStep (h : BlockHasher) (r : Request) : SessionOp → Option Request
  | .append tokenIds => some (r.appendOutputTokenIds (some h) tokenIds)
  | .compute n => if n ≤ r.numTokens then some { r with numComputedTokens := n } else none
  | .update u => r.updateAsSession (some h) u

def HashesTrue (h : BlockHasher) (r : Request) : Prop :=
  ∀ i < r.blockHashes.length, (i + 1) * h.blockSize ≤ r.numTokens ∧
    r.blockHashes[i]? = some (r.chain h (r.extraKeysAt h) i)

def TrueAfterUpdates (h : BlockHasher) : Request → List SessionOp → Prop
  | _, [] => True
  | r, op :: ops => ∀ r', r.sessionStep h op = some r' →
      (op.isUpdate → r'.HashesTrue h) ∧ TrueAfterUpdates h r' ops

def UpdatesKeepBlocks (h : BlockHasher) : Request → List SessionOp → Prop
  | _, [] => True
  | r, op :: ops => ∀ r', r.sessionStep h op = some r' →
      op.KeepsBlocks h r ∧ UpdatesKeepBlocks h r' ops

end Request

variable {h : BlockHasher}

theorem Request.Hashed.hashesTrue {r : Request} (hr : r.Hashed h (r.extraKeysAt h)) :
    r.HashesTrue h := by
  intro i hi
  rw [hr, List.length_map, List.length_range] at hi
  refine ⟨(Nat.le_div_iff_mul_le h.blockSize_pos).mp hi, ?_⟩
  rw [hr, List.getElem?_map, List.getElem?_range hi]
  rfl

theorem Request.Hashed.length {r : Request} {keys : Nat → ExtraKeys} (hr : r.Hashed h keys) :
    r.blockHashes.length = r.numTokens / h.blockSize := by
  rw [hr, List.length_map, List.length_range]

theorem Request.chain_congr_take {a b : Request} {keys : Nat → ExtraKeys} {n i : Nat} (hi : i < n)
    (htake : a.allTokenIds.take (n * h.blockSize) = b.allTokenIds.take (n * h.blockSize)) :
    a.chain h keys i = b.chain h keys i := by
  apply link_congr
  intro j hj
  obtain ⟨n, rfl⟩ := Nat.exists_eq_succ_of_ne_zero (Nat.ne_zero_of_lt hi)
  rw [Nat.succ_mul] at htake
  refine Prod.ext (Request.blockAt_of_take_eq (i := n) ?_ htake) rfl
  omega

theorem hashed_text_extend {r : Request} (hmm : r.mmFeatures = []) {b : Nat}
    (hb : b ≤ r.numTokens / h.blockSize)
    (hold : r.blockHashes = (List.range b).map (r.chain h (r.extraKeysAt h))) :
    (r.updateBlockHashes (some h)).Hashed h (r.extraKeysAt h) := by
  apply hashed_updateBlockHashes h r (r.extraKeysAt h) (fun _ => if b = 0 then 0 else -1) hb hold rfl
  intro j _ _
  have hnone : ∀ s e i, genMmExtraHashKeys r s e i = ([], i) :=
    fun s e i => genMmExtraHashKeys_last_lt (by simp [hmm])
  rw [generateBlockHashExtraKeys_eq, hnone, Request.extraKeysAt, Request.itemsIn, hmm]
  rfl

structure Request.TextHashed (h : BlockHasher) (r : Request) : Prop where
  text : r.mmFeatures = []
  hashed : r.Hashed h (r.extraKeysAt h)

theorem Request.TextHashed.append {r : Request} (hr : r.TextHashed h) (toks : List Token) :
    (r.appendOutputTokenIds (some h) toks).TextHashed h := by
  refine ⟨hr.text, ?_⟩
  let r₁ : Request := { r with
    outputTokenIds := r.outputTokenIds ++ toks
    allTokenIds := r.allTokenIds ++ toks }
  show (r₁.updateBlockHashes (some h)).Hashed h (r₁.extraKeysAt h)
  refine hashed_text_extend (r := r₁) (b := r.numTokens / h.blockSize) hr.text ?_ ?_
  · apply Nat.div_le_div_right
    simp [r₁, Request.numTokens]
  · rw [show r₁.blockHashes = r.blockHashes from rfl, hr.hashed]
    apply List.map_congr_left
    intro i hi
    exact (Request.chain_append rfl (List.mem_range.mp hi)).symm

theorem Request.updateAsSession_spec {r r' : Request} {u : StreamingUpdate}
    (hstep : r.updateAsSession (some h) u = some r') (hu : u.mmFeatures.getD [] = []) :
    ∃ r₁ : Request,
      r₁.SameKeys r ∧ r₁.blockHashes = r.blockHashes ∧
        r₁.allTokenIds = Py.sliceTo r.allTokenIds r.numComputedTokens ++ u.promptTokenIds.getD [] ∧
        r'.SameKeys r₁ ∧ r'.allTokenIds = r₁.allTokenIds ∧
        r'.blockHashes = (r₁.updateBlockHashes (some h)).blockHashes := by
  obtain ⟨promptTokenIds, -, rfl⟩ := Option.map_eq_some_iff.mp hstep
  refine ⟨r.extendSession promptTokenIds u, ⟨rfl, ?_, rfl, rfl⟩, rfl, rfl, ⟨rfl, rfl, rfl, rfl⟩,
    rfl, rfl⟩
  simp [Request.extendSession, hu]

theorem Request.Hashed.of_sameKeys {a b : Request} (hkeys : a.SameKeys b)
    (htoks : a.allTokenIds = b.allTokenIds) (hhashes : a.blockHashes = b.blockHashes)
    (hb : b.Hashed h (b.extraKeysAt h)) : a.Hashed h (a.extraKeysAt h) := by
  have hfun : a.extraKeysAt h = b.extraKeysAt h := funext fun j => hkeys.extraKeysAt h j
  unfold Request.Hashed Request.numTokens Request.chain Request.messages Request.blockAt at hb ⊢
  rw [hfun, htoks, hhashes, hb]

theorem Request.TextHashed.update {r r' : Request} {u : StreamingUpdate} (hr : r.TextHashed h)
    (hu : (SessionOp.update u).TextOnly) (hstep : r.updateAsSession (some h) u = some r')
    (hkeep : (SessionOp.update u).KeepsBlocks h r) : r'.TextHashed h := by
  obtain ⟨r₁, hsame, hhashes, htoks, hsame', htoks', hhashes'⟩ :=
    Request.updateAsSession_spec hstep hu
  have hkeep : r.allTokenIds.take (r.blockHashes.length * h.blockSize) <+: r₁.allTokenIds := by
    rw [htoks]
    exact hkeep
  have hpos := h.blockSize_pos
  have hm : r.blockHashes.length * h.blockSize ≤ r.numTokens := by
    rw [hr.hashed.length]
    exact Nat.div_mul_le_self _ _
  have hlen : (r.allTokenIds.take (r.blockHashes.length * h.blockSize)).length =
      r.blockHashes.length * h.blockSize := List.length_take_of_le hm
  have htake := List.prefix_iff_eq_take.mp hkeep
  rw [hlen] at htake
  have hb : r.blockHashes.length ≤ r₁.numTokens / h.blockSize := by
    rw [Nat.le_div_iff_mul_le hpos, ← hlen]
    exact hkeep.length_le
  have hmm : r₁.mmFeatures = [] := by rw [hsame.mm]; exact hr.text
  have hkeys : r₁.extraKeysAt h = r.extraKeysAt h := funext fun j => hsame.extraKeysAt h j
  have hnew : (r₁.updateBlockHashes (some h)).Hashed h (r₁.extraKeysAt h) := by
    apply hashed_text_extend hmm hb
    rw [hhashes, hkeys]
    conv_lhs => rw [hr.hashed, ← hr.hashed.length]
    apply List.map_congr_left
    intro i hi
    exact Request.chain_congr_take (List.mem_range.mp hi) htake
  refine ⟨by rw [hsame'.mm, hmm], ?_⟩
  refine Request.Hashed.of_sameKeys (b := r₁.updateBlockHashes (some h)) ?_ htoks' hhashes' hnew
  exact ⟨hsame'.lora, hsame'.mm, hsame'.salt, hsame'.embeds⟩

theorem SessionOp.keepsBlocks_of_hashesTrue (hinj : Function.Injective h.cachingHashFn)
    {r r' : Request} {u : StreamingUpdate} (hr : r.TextHashed h)
    (hu : (SessionOp.update u).TextOnly) (hstep : r.updateAsSession (some h) u = some r')
    (htrue : r'.HashesTrue h) : (SessionOp.update u).KeepsBlocks h r := by
  obtain ⟨r₁, hsame, hhashes, htoks, hsame', htoks', hhashes'⟩ :=
    Request.updateAsSession_spec hstep hu
  show _ <+: _
  rw [← htoks, ← htoks']
  have hold : r'.blockHashes = r.blockHashes ++ requestBlockHasher h r₁ := by
    rw [hhashes', Request.updateBlockHashes, hhashes]
  cases hm : r.blockHashes.length with
  | zero => simp
  | succ n =>
    have hn : n < r'.blockHashes.length := by
      rw [hold, List.length_append]
      omega
    obtain ⟨hlong, hat⟩ := htrue n hn
    have hat' := hr.hashed.hashesTrue n (by omega)
    rw [hold, List.getElem?_append_left (by omega), hat'.2, Option.some_inj] at hat
    have hmsg := link_inj (h.absorb_injective2 hinj) hat
    have htake := Request.take_eq_of_blockAt fun j hj => congrArg Prod.fst (hmsg j hj)
    rw [Nat.succ_mul, htake]
    exact List.take_prefix _ _

theorem sessionRun_iff {r : Request} (hr : r.TextHashed h) {ops : List SessionOp}
    (hops : ∀ op ∈ ops, op.TextOnly) :
    (r.UpdatesKeepBlocks h ops → r.TrueAfterUpdates h ops) ∧
      (Function.Injective h.cachingHashFn → r.TrueAfterUpdates h ops →
        r.UpdatesKeepBlocks h ops) := by
  induction ops generalizing r with
  | nil => exact ⟨fun _ => trivial, fun _ _ => trivial⟩
  | cons op ops ih =>
    have hop := hops op List.mem_cons_self
    have hops := fun o ho => hops o (List.mem_cons_of_mem op ho)
    -- the invariant passes one step as soon as that step keeps the hashed blocks
    have hnext : ∀ {r'}, r.sessionStep h op = some r' → op.KeepsBlocks h r → r'.TextHashed h := by
      intro r' hstep hkeep
      cases op with
      | append toks =>
        cases hstep
        exact hr.append toks
      | compute n =>
        simp only [Request.sessionStep] at hstep
        split at hstep
        · cases hstep
          exact ⟨hr.text, hr.hashed⟩
        · cases hstep
      | update u => exact hr.update hop hstep hkeep
    constructor
    · intro hkeep r' hstep
      obtain ⟨hnow, hlater⟩ := hkeep r' hstep
      have hr' := hnext hstep hnow
      exact ⟨fun _ => hr'.hashed.hashesTrue, (ih hr' hops).1 hlater⟩
    · intro hinj htrue r' hstep
      obtain ⟨hnow, hlater⟩ := htrue r' hstep
      have hkeep : op.KeepsBlocks h r := by
        cases op with
        | append toks => trivial
        | compute n => trivial
        | update u => exact SessionOp.keepsBlocks_of_hashesTrue hinj hr hop hstep (hnow rfl)
      exact ⟨hkeep, (ih (hnext hstep hkeep) hops).2 hinj hlater⟩

theorem RequestParams.textHashed_init {p : RequestParams} (hp : p.mmFeatures = []) :
    (p.init (some h)).TextHashed h :=
  ⟨hp, hashed_of_fresh h (r := p.blank) (by simp [RequestParams.blank, hp, NonOverlapping]) rfl⟩

/-- Along any run of a text session, the block hashes are true after every update exactly when
every update keeps the blocks hashed before it. -/
theorem session_hashesTrue_iff {p : RequestParams} (hp : p.mmFeatures = []) {ops : List SessionOp}
    (hops : ∀ op ∈ ops, op.TextOnly) :
    ((p.init (some h)).UpdatesKeepBlocks h ops → (p.init (some h)).TrueAfterUpdates h ops) ∧
      (Function.Injective h.cachingHashFn → (p.init (some h)).TrueAfterUpdates h ops →
        (p.init (some h)).UpdatesKeepBlocks h ops) :=
  sessionRun_iff (RequestParams.textHashed_init hp) hops

def chunkUpdate (tokenIds : List Token) : StreamingUpdate :=
  { mmFeatures := some [], promptTokenIds := some tokenIds, maxTokens := 1, arrivalTime := 0,
    samplingParams := none }

def threeTokenSession : RequestParams :=
  { requestId := "s", promptTokenIds := some [1, 2, 3], resumable := true }

theorem session_hashesTrue_discard_behind_block :
    (threeTokenSession.init (some fourTokenHasher)).TrueAfterUpdates fourTokenHasher
      [.append [4], .append [5], .compute 4, .update (chunkUpdate [6])] := by
  refine (session_hashesTrue_iff rfl ?_).1 ?_
  · simp [SessionOp.TextOnly, chunkUpdate]
  · intro _ hstep
    cases hstep
    refine ⟨trivial, fun _ hstep => ?_⟩
    cases hstep
    refine ⟨trivial, fun _ hstep => ?_⟩
    cases hstep
    refine ⟨trivial, fun _ hstep => ⟨?_, trivial⟩⟩
    show _ <+: _
    decide

/-- The discarded token `4` completes the hashed block, and its hash stays. -/
theorem session_hash_of_discarded_token :
    ¬ (threeTokenSession.init (some fourTokenHasher)).TrueAfterUpdates fourTokenHasher
      [.append [4], .compute 3, .update (chunkUpdate [9])] := by
  intro htrue
  have hrun := @sessionRun_iff _ _
    (RequestParams.textHashed_init (h := fourTokenHasher) (p := threeTokenSession) rfl)
    [.append [4], .compute 3, .update (chunkUpdate [9])]
    (by simp [SessionOp.TextOnly, chunkUpdate])
  have hkeep := hrun.2 (BlockHasher.coded_injective 4 (by decide)) htrue
  have hlast := (((hkeep _ rfl).2 _ rfl).2 _ rfl).1
  exact absurd (show _ <+: _ from hlast) (by decide)

end Vllm
