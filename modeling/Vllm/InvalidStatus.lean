import Vllm.QueueSchedule

namespace Vllm

open Result

def Own : PyError → Prop
  | .runtimeError msg => msg = "Invalid request status"
  | .assertionError msg => msg = "request.num_output_placeholders >= 0"
  | _ => False

/-- The assertions that stand in `schedule()` itself. -/
def scheduleAssertions : List String :=
  ["len(scheduled_loras) <= self.lora_config.max_loras", "request_queue is not None",
   "num_computed_tokens <= request.num_tokens", "num_external_computed_tokens > 0",
   "num_new_tokens > 0", "total_num_scheduled_tokens <= self.max_num_scheduled_tokens",
   "token_budget >= 0", "len(self.running) <= self.max_num_running_reqs",
   "len(scheduled_new_reqs)"]

def Raised (e : PyError) : Prop :=
  Own e ∨ ∃ msg ∈ scheduleAssertions, e = .assertionError msg

theorem own_of_raised {α : Type} {x : Result α} (h : Avoids Raised x) : Avoids Own x :=
  fun e he hown => h e he (.inl hown)

attribute [local simp] Own Raised scheduleAssertions

namespace BlockPool

variable {c : PoolConfig} {p : BlockPool}

@[simp] theorem cacheNewFullBlocks_avoids {g : Nat} {blocks : List BlockId}
    {hashes : List BlockHash} : Avoids Raised (cacheNewFullBlocks g p blocks hashes) := by
  induction blocks generalizing p hashes with
  | nil => simp [cacheNewFullBlocks]
  | cons b blocks ih => simp [cacheNewFullBlocks, ih]

@[simp] theorem extraKeysList_avoids {request : Request} {blocks : List BlockId}
    {blockSize n i : Nat} {mm : Int} :
    Avoids Raised (extraKeysList c request blocks blockSize n i mm) := by
  induction n generalizing i mm with
  | zero => simp [extraKeysList]
  | succ n ih => simp [extraKeysList, ih]

@[simp] theorem cacheFullBlocks_avoids {request : Request} {blocks : List BlockId}
    {i n blockSize g : Nat} :
    Avoids Raised (cacheFullBlocks c p request blocks i n blockSize g) := by
  simp [cacheFullBlocks, storedEvent]

@[simp] theorem getNewBlocks_avoids {n : Int} : Avoids Raised (getNewBlocks c p n) := by
  simp [getNewBlocks, popleftN, claimBlock, avoids_foldlM]

@[simp] theorem touch_avoids {blocks : List BlockId} :
    Avoids Raised (touch p blocks) := by
  simp [touch, touchBlock, avoids_foldlM]

end BlockPool

namespace SingleTypeKVCacheManager

variable {c : PoolConfig} {p : BlockPool} {m : SingleTypeKVCacheManager} {id : ReqId}

@[simp] theorem getNumBlocksToAllocate_avoids {blocks : List BlockId} {n t k : Int} :
    Avoids Raised (getNumBlocksToAllocate c p m id n blocks t k) := by
  unfold getNumBlocksToAllocate baseNumBlocksToAllocate
  split <;> simp

@[simp] theorem allocateNewComputedBlocks_avoids {blocks : List BlockId} {n k : Int} :
    Avoids Raised (allocateNewComputedBlocks c p m id blocks n k) := by
  simp [allocateNewComputedBlocks, touchComputedBlocks, allocateExternal]

@[simp] theorem reuseSpeculativeBlocks_avoids {n : Int} {is : List Int} {blocks : List BlockId} :
    Avoids Raised (reuseSpeculativeBlocks n is blocks) := by
  induction is generalizing blocks with
  | nil => simp [reuseSpeculativeBlocks]
  | cons i is ih =>
    unfold reuseSpeculativeBlocks
    split
    · split <;> simp [ih]
    · simp

@[simp] theorem allocateNewBlocks_avoids {n k : Int} :
    Avoids Raised (allocateNewBlocks c p m id n k) := by
  unfold allocateNewBlocks
  split <;> simp [baseAllocateNewBlocks, alignAllocateNewBlocks]

@[simp] theorem hashesOf_avoids {blocks : List BlockId} :
    Avoids Raised (hashesOf p blocks) := by
  induction blocks with
  | nil => simp [hashesOf]
  | cons b blocks ih =>
    unfold hashesOf
    split
    · exact ih
    · split <;> simp [ih]

@[simp] theorem cacheBlocks_avoids {request : Request} {n : Int} :
    Avoids Raised (cacheBlocks c p m request n) := by
  unfold cacheBlocks
  split <;> simp [baseCacheBlocks]

@[simp] theorem removeSkippedBlocks_avoids {n : Int} :
    Avoids Raised (removeSkippedBlocks p m id n) := by
  unfold removeSkippedBlocks
  split
  · dsimp only
    split
    · unfold freeLastState
      split
      · simp
      · split
        · dsimp only
          split <;> simp
        · simp
    · simp
  · simp

end SingleTypeKVCacheManager

namespace CacheHit

variable {q : Lookup}

@[simp] theorem slidingScan_avoids {k : Int} {n : Nat} {rows : List HitRow} {hits : Nat} :
    Avoids Raised (slidingScan q k n rows hits) := by
  induction n generalizing rows hits with
  | zero => simp [slidingScan]
  | succ n ih =>
    unfold slidingScan
    simp only [avoids_bind, avoids_getItem]
    refine ⟨by simp, fun h _ => ?_⟩
    split <;> simp [ih]

@[simp] theorem chunkHits_avoids {n i : Nat} : Avoids Raised (chunkHits q n i) := by
  induction n generalizing i with
  | zero => simp [chunkHits]
  | succ n ih =>
    unfold chunkHits
    simp only [avoids_bind, avoids_getItem]
    refine ⟨by simp, fun h _ => ?_⟩
    split <;> simp [ih]

@[simp] theorem mambaScan_avoids {n : Nat} : Avoids Raised (mambaScan q n) := by
  induction n with
  | zero => simp [mambaScan]
  | succ n ih =>
    unfold mambaScan
    simp only [avoids_bind, avoids_getItem]
    refine ⟨by simp, fun h _ => ?_⟩
    split <;> simp [ih]

@[simp] theorem find_avoids {spec : KVCacheSpec} {n : Int} :
    Avoids Raised (find spec q n) := by
  unfold find
  split <;> simp [fullAttention, slidingWindow, chunkedLocalAttention]

end CacheHit

namespace KVCacheManager

variable {c : KVCacheManagerConfig} {s : KVCacheManager} {request : Request}

@[simp] theorem hybridPass_avoids {pool : BlockPool} {hashes : List BlockHash}
    {groups : List AttentionGroup} {n : Int} {hits : HitBlocks} :
    Avoids Raised (hybridPass c pool hashes groups n hits) := by
  induction groups generalizing n hits with
  | nil => simp [hybridPass]
  | cons g groups ih => simp [hybridPass, ih]

@[simp] theorem hybridLoop_avoids {pool : BlockPool} {hashes : List BlockHash} {fuel : Nat}
    {n : Int} {hits : HitBlocks} :
    Avoids Raised (hybridLoop c pool hashes fuel n hits) := by
  induction fuel generalizing n hits with
  | zero => simp [hybridLoop]
  | succ fuel ih => simp [hybridLoop, ih]

@[simp] theorem getComputedBlocks_avoids : Avoids Raised (getComputedBlocks c s request) := by
  unfold getComputedBlocks findLongestCacheHit
  split
  · simp
  · split
    · split <;> simp [unitaryFind, hybridFind]
    · simp

@[simp] theorem coordinatorCacheBlocks_avoids {n : Int} :
    Avoids Raised (s.coordinatorCacheBlocks c request n) := by
  simp [coordinatorCacheBlocks, eachManager_avoids]

@[simp] theorem cacheBlocks_avoids {n : Int} :
    Avoids Raised (s.cacheBlocks c request n) := by
  simp [cacheBlocks]

@[simp] theorem takeSlots_avoids {args : SlotArgs} {n a b d : Int} :
    Avoids Raised (s.takeSlots c request n args a b d) := by
  simp [takeSlots, addComputedBlocks, allocateNewComputedBlocks, allocateNewBlocks,
    eachManager_avoids]

@[simp] theorem allocateSlots_avoids {args : SlotArgs} {n : Int} :
    Avoids Raised (s.allocateSlots c request n args) := by
  simp [allocateSlots, removeSkippedBlocks, getNumBlocksToAllocate, eachManager_avoids]

end KVCacheManager

namespace EncoderCacheManager

variable {e : EncoderCacheManager} {request : Request}

@[simp] theorem checkAndUpdateCache_avoids {mmHash : String} :
    Avoids Raised (e.checkAndUpdateCache request mmHash) := by
  unfold checkAndUpdateCache
  split
  · simp
  · split
    · simp
    · split <;> simp
    · simp

@[simp] theorem evict_avoids {n : Int} {entries : List (String × Int)} :
    Avoids Raised (evict n entries e) := by
  induction entries generalizing e with
  | nil => simp [evict]
  | cons entry entries ih => simp [evict, ih]

@[simp] theorem canAllocate_avoids {i : Nat} {budget n : Int} :
    Avoids Raised (e.canAllocate request i budget n) := by
  simp [canAllocate]

@[simp] theorem allocate_avoids {i : Nat} : Avoids Raised (e.allocate request i) := by
  simp [allocate, mmHash]

end EncoderCacheManager

namespace EncoderPlan

variable {c : SchedulerConfig} {hasCacheItem : String → Bool} {request : Request} {a b : Int}

@[simp] theorem addItem_avoids {f : MultiModalFeatureSpec} {i : Nat} {plan : EncoderPlan} :
    Avoids Raised (addItem c hasCacheItem request a b f i plan) := by
  unfold addItem
  dsimp only
  split
  · simp
  · simp only [avoids_bind, EncoderCacheManager.canAllocate_avoids, true_and]
    intro x _
    split
    · simp
    · split <;> simp

@[simp] theorem visitItems_avoids {items : List MultiModalFeatureSpec} {i : Nat}
    {plan : EncoderPlan} :
    Avoids Raised (visitItems c hasCacheItem request a b items i plan) := by
  induction items generalizing i plan with
  | nil => simp [visitItems]
  | cons f items ih => simp [visitItems, visitItem, ih]

end EncoderPlan

namespace Scheduler

variable {c : SchedulerConfig} {env : Outside} {s : Scheduler}

@[simp] theorem tryScheduleEncoderInputs_avoids {request : Request} {a n budget : Int} :
    Avoids Raised (tryScheduleEncoderInputs c env s request a n budget) := by
  simp [tryScheduleEncoderInputs]

@[simp] theorem alignedNewTokens_avoids {request : Request} {n a b : Int} :
    Avoids Raised (alignedNewTokens c request n a b) := by
  simp [alignedNewTokens, mambaBlockAlignedSplit]

@[simp] theorem preemptRequest_avoids {r : Ref} :
    Avoids Raised (preemptRequest c s r) := by
  simp [preemptRequest]

end Scheduler

namespace Step

open Scheduler

variable {c : SchedulerConfig} {env : Outside} {st : Step} {s : Scheduler}

@[simp] theorem takeVictim_avoids {i : Nat} : Avoids Raised (st.takeVictim c i) := by
  unfold takeVictim
  split
  · split
    · simp
    · have hun : ∀ (st : Step) (v : Ref), Avoids Raised (st.unschedule v) := by
        intro st v
        unfold unschedule
        dsimp only
        split <;> simp
      simp [hun]
  · split <;> simp

@[simp] theorem allocateOrPreempt_avoids {r : Ref} {n : Int} {fuel i : Nat} :
    Avoids Raised (allocateOrPreempt c r n fuel i st) := by
  induction fuel generalizing i st with
  | zero => simp [allocateOrPreempt]
  | succ fuel ih =>
    unfold allocateOrPreempt
    simp only [avoids_bind, KVCacheManager.allocateSlots_avoids, true_and]
    intro x _
    split
    · simp
    · simp [preempt, ih]

@[simp] theorem scheduleEncoder_avoids {request : Request} {plan : EncoderPlan} :
    Avoids Raised (st.scheduleEncoder request plan) := by
  have hall : ∀ (inputs : List Nat) (e : EncoderCacheManager),
      Avoids Raised (allocateEncoder request inputs e) := by
    intro inputs
    induction inputs with
    | nil => simp [allocateEncoder]
    | cons i inputs ih => simp [allocateEncoder, ih]
  simp [scheduleEncoder, hall]

@[simp] theorem visitRunning_avoids {r : Ref} {i : Nat} :
    Avoids Raised (st.visitRunning c env i r) := by
  unfold visitRunning
  dsimp only
  split
  · simp
  · simp only [avoids_bind, tryScheduleEncoderInputs_avoids, alignedNewTokens_avoids, true_and]
    intro plan _ n _
    split
    · simp
    · simp only [avoids_bind, allocateOrPreempt_avoids, true_and]
      intro x _
      split <;> simp [scheduleRunningRequest]

@[simp] theorem scheduleRunning_avoids {fuel i : Nat} :
    Avoids Raised (st.scheduleRunning c env fuel i) := by
  induction fuel generalizing i st with
  | zero => simp [scheduleRunning]
  | succ fuel ih =>
    unfold scheduleRunning
    split
    · split <;> simp [ih]
    · simp

@[simp] theorem popSelected_avoids {skipped : Bool} :
    Avoids Raised (popSelected c s skipped) := by
  unfold popSelected
  split <;> simp

@[simp] theorem skipSelected_avoids {skipped : Bool} :
    Avoids Raised (st.skipSelected c skipped) := by
  simp [skipSelected]

@[simp] theorem tryPromote_avoids {r : Ref} : Avoids Raised (tryPromote c env s r) := by
  unfold tryPromote
  dsimp only
  split <;> simp [updateWaitingForRemoteKv]

@[simp] theorem computedPrefix_avoids {r : Ref} :
    Avoids Own (computedPrefix c env s r) := by
  unfold computedPrefix
  dsimp only
  split
  · simp only [avoids_bind, own_of_raised KVCacheManager.getComputedBlocks_avoids, true_and]
    intro x _
    split
    · split <;> simp
    · simp
  · simp

@[simp] theorem planWaiting_avoids {request : Request} {pre : ComputedPrefix} :
    Avoids Own (planWaiting c env st request pre) := by
  simp [planWaiting, own_of_raised]

def Ready (s : Scheduler) (r : Ref) : Prop :=
  (s.objs r).status = .waiting ∨ (s.objs r).status = .preempted

theorem admit_avoids {r : Ref} {skipped : Bool} {n : Int} {pre : ComputedPrefix}
    {plan : EncoderPlan} (hsel : selected st.sched skipped = some r) (hr : Ready st.sched r) :
    Avoids Own (st.admitRequest c skipped n pre plan) := by
  unfold admitRequest
  simp only [avoids_bind, own_of_raised popSelected_avoids, true_and]
  intro x hx
  obtain ⟨hsel', -, waiting, skippedWaiting, hs⟩ := popSelected_eq_ok (r := x.1) hx
  have hxr : x.1 = r := Option.some.inj (hsel'.symm.trans hsel)
  have hst : (x.2.objs x.1).status = .waiting ∨ (x.2.objs x.1).status = .preempted := by
    rw [hs, hxr]
    exact hr
  refine ⟨?_, fun st' _ => own_of_raised scheduleEncoder_avoids⟩
  rcases hst with hst | hst <;> rw [hst] <;> simp

theorem placeWaiting_avoids {r : Ref} {skipped : Bool} {n : Int} {pre : ComputedPrefix}
    {plan : EncoderPlan} (hsel : selected st.sched skipped = some r) (hr : Ready st.sched r) :
    Avoids Own (st.placeWaiting c skipped r n pre plan) := by
  unfold placeWaiting
  simp only [avoids_bind, own_of_raised KVCacheManager.allocateSlots_avoids, true_and]
  intro x _
  split
  · simp
  · split
    · simp [startLoad, own_of_raised]
    · have hadm : Avoids Own ((st.withKv x.2).admitRequest c skipped n pre plan) :=
        admit_avoids hsel hr
      simp [hadm]

theorem tryWaiting_avoids {r : Ref} {skipped : Bool} (hsel : selected st.sched skipped = some r)
    (hr : Ready st.sched r) : Avoids Own (st.tryWaiting c env skipped r) := by
  unfold tryWaiting
  simp only [avoids_bind, computedPrefix_avoids, true_and]
  intro x hx
  have hframe : selected x.2 skipped = some r ∧ Ready x.2 r := by
    rcases computedPrefix_frame hx with h | ⟨-, ext, h⟩
    · rw [h]
      exact ⟨hsel, hr⟩
    · rw [h]
      refine ⟨hsel, ?_⟩
      simpa [Ready, Scheduler.modify] using hr
  split
  · simp [own_of_raised]
  · simp only [avoids_bind, planWaiting_avoids, true_and]
    intro plan _
    split
    · simp
    · rename_i _ pre _ _ plan _
      have hplace : ∀ n, Avoids Own
          ((withEncoder { st with sched := x.2 } plan.encoder).placeWaiting c skipped r n pre plan) :=
        fun n => placeWaiting_avoids hframe.1 hframe.2
      simp [hplace, own_of_raised]

theorem ready_of_live {r : Ref} (hblocked : ¬ isBlockedWaitingStatus (s.objs r).status = true)
    (hlive : (s.ledger.status r).isFinished = false) (hnot : s.ledger.status r ≠ .running) :
    Ready s r := by
  have hlive : (s.objs r).status.isFinished = false := hlive
  have hnot : (s.objs r).status ≠ .running := hnot
  unfold Ready
  cases hst : (s.objs r).status with
  | waiting => exact .inl rfl
  | preempted => exact .inr rfl
  | waitingForFsm => exact absurd (by rw [hst]; rfl) hblocked
  | waitingForRemoteKvs => exact absurd (by rw [hst]; rfl) hblocked
  | waitingForStreamingReq => exact absurd (by rw [hst]; rfl) hblocked
  | running => exact absurd hst hnot
  | finishedStopped => simp [hst, RequestStatus.isFinished, RequestStatus.value] at hlive
  | finishedLengthCapped => simp [hst, RequestStatus.isFinished, RequestStatus.value] at hlive
  | finishedAborted => simp [hst, RequestStatus.isFinished, RequestStatus.value] at hlive
  | finishedIgnored => simp [hst, RequestStatus.isFinished, RequestStatus.value] at hlive
  | finishedError => simp [hst, RequestStatus.isFinished, RequestStatus.value] at hlive
  | finishedRepetition => simp [hst, RequestStatus.isFinished, RequestStatus.value] at hlive

theorem visitWaiting_avoids (hexact : st.sched.ledger.Exact st.queued) :
    Avoids Own (st.visitWaiting c env) := by
  unfold visitWaiting
  dsimp only
  split
  · simp
  · rename_i r hr
    have hsel : selected st.sched (selectsSkipped c st.sched) = some r := hr
    obtain ⟨⟨-, hlive⟩, hnot⟩ := (hexact.mem_iff r).mp (mem_queued_of_selected hsel)
    simp only [avoids_bind, avoids_ite, own_of_raised tryPromote_avoids, avoids_ok, implies_true, true_and]
    intro x hx
    have hready : x.1 = true → selected x.2 (selectsSkipped c st.sched) = some r ∧ Ready x.2 r := by
      intro hx1
      split at hx
      · rcases tryPromote_cases hx with
          ⟨h, -⟩ | ⟨-, -, h⟩ | ⟨-, -, _, _, _, _, _, h⟩
        · rw [hx1] at h
          cases h
        · rw [h]
          refine ⟨hsel, .inl ?_⟩
          simp [Scheduler.modify]
        · rw [h]
          refine ⟨hsel, ?_⟩
          simp only [Ready, Function.update_self]
          split
          · exact .inr rfl
          · exact .inl rfl
      · rename_i hblocked
        cases hx
        exact ⟨hsel, ready_of_live hblocked hlive hnot⟩
    refine ⟨fun _ => ?_, fun hgo => ?_⟩
    · simp [own_of_raised]
    · rw [Bool.not_eq_true, Bool.or_eq_false_iff] at hgo
      obtain ⟨hsel', hr'⟩ := hready (by simpa using hgo.1)
      exact tryWaiting_avoids hsel' hr'

theorem scheduleWaiting_avoids {fuel : Nat} (hk : st.sched.ledger.Kept st.queued)
    (hexact : st.sched.ledger.Exact st.queued) :
    Avoids Own (st.scheduleWaiting c env fuel) := by
  induction fuel generalizing st with
  | zero => simp [scheduleWaiting]
  | succ fuel ih =>
    unfold scheduleWaiting
    split
    · simp only [avoids_bind]
      refine ⟨visitWaiting_avoids hexact, fun x hx => ?_⟩
      obtain ⟨goOn, st'⟩ := x
      have hfollows := (visitWaiting_moves hx).keepsBooks hk fun _ => hexact
      dsimp only
      split
      · exact ih hfollows.1 (hfollows.2 hexact)
      · simp
    · simp

end Step

namespace Scheduler

open Step

variable {c : SchedulerConfig} {env : Outside} {s : Scheduler}

@[simp] theorem makeOutput_avoids {st : Step} : Avoids Own (st.makeOutput c) := by
  have hblocks : ∀ (st : Step) (r : Ref), Avoids Own (st.newBlocksOf r) := by
    intro st r
    unfold newBlocksOf
    split <;> simp
  have hcached : ∀ (st : Step) (resumed : Bool) (data : CachedRequestData) (r : Ref),
      Avoids Own (st.addCachedRequest c resumed data r) := by
    intro st resumed data r
    simp [addCachedRequest, hblocks]
  have hnew : ∀ (st : Step) (r : Ref), Avoids Own (st.newRequestData c r) := by
    intro st r
    simp [newRequestData, hblocks]
  simp [makeOutput, checkConstraints, makeCachedRequestData, avoids_foldlM, avoids_mapM, hcached,
    hnew]

@[simp] theorem updateAfterSchedule_avoids {o : SchedulerOutput} :
    Avoids Raised (updateAfterSchedule c o s) := by
  have hadvance : ∀ (items : List (ReqId × Int)) (o : SchedulerOutput) (s : Scheduler),
      Avoids Raised (advanceRequests c o items s) := by
    intro items
    induction items with
    | nil => simp [advanceRequests]
    | cons item items ih =>
      intro o s
      unfold advanceRequests
      split <;> simp [ih]
  have hreserve : ∀ (ids : List ReqId) (o : SchedulerOutput) (s : Scheduler),
      Avoids Raised (reservePlaceholders c o ids s) := by
    intro ids
    induction ids with
    | nil => simp [reservePlaceholders]
    | cons id ids ih =>
      intro o s
      unfold reservePlaceholders
      split <;> simp [ih]
  simp [updateAfterSchedule, hadvance, hreserve]

theorem schedule_avoids (hk : s.ledger.Kept s.queued) (hexact : s.ledger.Exact s.queued) :
    Avoids Own (schedule c env s) := by
  have hstart : (start c s).queued = s.queued := Multiset.add_zero _
  have hrequests : Avoids Own (scheduleRequests c env s) := by
    unfold scheduleRequests
    simp only [avoids_bind]
    refine ⟨own_of_raised scheduleRunning_avoids, fun st₁ hst₁ => ⟨?_, fun st₂ hst₂ => ?_⟩⟩
    · unfold recordLoras
      split <;> simp
    · have hvis : Visited 0 (start c s) :=
        ⟨rfl, Multiset.coe_nodup.mp hk.nodup, List.nodup_nil, fun x hx => absurd hx List.not_mem_nil⟩
      have hmoves : Moves c env (start c s) st₂ :=
        (scheduleRunning_moves hvis hst₁).tail (.loras hst₂)
      have hkeeps := hmoves.keepsBooks (by rw [hstart]; exact hk) fun _ => by
        rw [hstart]
        exact hexact
      have hexact₂ := hkeeps.2 (by rw [hstart]; exact hexact)
      split
      · simp [scheduleWaiting_avoids hkeeps.1 hexact₂]
      · simp
  simp [schedule, hrequests, own_of_raised]

end Scheduler

end Vllm
