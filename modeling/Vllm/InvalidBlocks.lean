import Vllm.UpdateMoves

namespace Vllm

namespace Scheduler

variable {c : SchedulerConfig} {s s' : Scheduler} {r : Ref}

def reqBlockIds (s : Scheduler) (r : Ref) : List BlockId :=
  match s.kvCacheManager.getBlockIds (s.objs r).requestId with
  | [blockIds] => blockIds
  | _ => []

def numComputedBlocks (c : SchedulerConfig) (n : Int) : Nat :=
  ((n + c.kv.hashBlockSize - 1) / (c.kv.hashBlockSize : Int)).toNat

def Recomputes (c : SchedulerConfig) (s : Scheduler) (r : Ref) (b : BlockId) : Prop :=
  ∃ idx : Nat, (s.reqBlockIds r)[idx]? = some b ∧
    (s.objs r).numComputedTokens ≤ idx * c.kv.hashBlockSize

section Blocks

variable {invalid reqBlockIds : List BlockId} {evict : Bool} {n : Int} {scan scan' : InvalidScan}
  {affected marked affected' marked' : Bool}

inductive Truncation (c : SchedulerConfig) (invalid : List BlockId) (r : Ref) (n : Int)
    (blocks : List BlockId) (k : Nat) (scan scan' : InvalidScan) : Bool → Bool → Prop
  | none {marked : Bool} : scan'.sched = scan.sched →
      (marked = true ∨ ∀ b ∈ blocks, b ∈ invalid → b ∈ scan.markedInvalidBlockIds) →
      Truncation c invalid r n blocks k scan scan' marked marked
  | first (j : Nat) : (∃ b ∈ blocks, b ∈ invalid) →
      scan'.sched = scan.sched.modify r (truncateComputed c.kv.hashBlockSize (k + j) n) →
      (∀ i b, blocks[i]? = some b → b ∈ invalid → b ∉ scan.markedInvalidBlockIds → j ≤ i) →
      Truncation c invalid r n blocks k scan scan' false true

theorem Truncation.cons {blocks : List BlockId} {k : Nat} {b : BlockId}
    (h : Truncation c invalid r n blocks (k + 1) scan scan' marked marked')
    (hb : b ∈ invalid → b ∈ scan.markedInvalidBlockIds) :
    Truncation c invalid r n (b :: blocks) k scan scan' marked marked' := by
  cases h with
  | none hsame hall =>
    exact .none hsame (hall.imp_right fun hall => List.forall_mem_cons.2 ⟨hb, hall⟩)
  | first j hex hmod hfirst =>
    obtain ⟨x, hx, hin⟩ := hex
    refine .first (j + 1) ⟨x, List.mem_cons_of_mem b hx, hin⟩ (by rw [hmod, Nat.add_assoc, Nat.add_comm 1 j]) ?_
    intro i x hx hin hnew
    cases i with
    | zero =>
      cases hx
      exact absurd (hb hin) hnew
    | succ i => exact Nat.succ_le_succ (hfirst i x hx hin hnew)

theorem scanBlocks_spec {blocks : List BlockId} {k : Nat}
    (h : scanBlocks c invalid evict r n reqBlockIds (blocks.zipIdx k) affected marked scan =
      (affected', marked', scan')) :
    (affected' = true ↔ affected = true ∨ ∃ b ∈ blocks, b ∈ invalid) ∧
      (∀ b, b ∈ scan'.markedInvalidBlockIds ↔
        b ∈ scan.markedInvalidBlockIds ∨ b ∈ blocks ∧ b ∈ invalid) ∧
      scan'.affectedReqIds = scan.affectedReqIds ∧
      Truncation c invalid r n blocks k scan scan' marked marked' := by
  induction blocks generalizing k affected marked scan with
  | nil =>
    cases h
    exact ⟨by simp, by simp, rfl, .none rfl (.inr nofun)⟩
  | cons b blocks ih =>
    rw [List.zipIdx_cons, scanBlocks] at h
    split at h
    · rename_i hb
      obtain ⟨haff, hmark, hids, htrunc⟩ := ih h
      refine ⟨?_, fun x => ?_, hids, htrunc.cons fun hin => absurd hin hb⟩
      · rw [haff]
        simp [hb]
      · rw [hmark, List.mem_cons]
        refine or_congr_right (and_congr_left fun hin => (or_iff_right ?_).symm)
        rintro rfl
        exact hb hin
    · rename_i hb
      rw [not_not] at hb
      split at h
      · rename_i hold
        obtain ⟨haff, hmark, hids, htrunc⟩ := ih h
        refine ⟨?_, fun x => ?_, hids, htrunc.cons fun _ => hold⟩
        · rw [haff]
          simp [hb]
        · rw [hmark, List.mem_cons]
          constructor
          · exact Or.imp_right fun hx => ⟨.inr hx.1, hx.2⟩
          · rintro (hx | ⟨rfl | hx, hin⟩)
            · exact .inl hx
            · exact .inl hold
            · exact .inr ⟨hx, hin⟩
      · rename_i hnew
        obtain ⟨haff, hmark, hids, htrunc⟩ := ih h
        refine ⟨?_, fun x => ?_, ?_, ?_⟩
        · rw [haff]
          simp [hb]
        · rw [hmark, List.mem_cons]
          have hfirst : ∀ m : Bool, ∀ sched evicted,
              (if m = true then { scan with markedInvalidBlockIds := b :: scan.markedInvalidBlockIds }
                else { scan with
                  markedInvalidBlockIds := b :: scan.markedInvalidBlockIds
                  sched := sched
                  blocksToEvict := evicted }).markedInvalidBlockIds =
                b :: scan.markedInvalidBlockIds := by
            intro m _ _
            cases m <;> rfl
          rw [hfirst, List.mem_cons]
          constructor
          · rintro ((rfl | hx) | hx)
            · exact .inr ⟨.inl rfl, hb⟩
            · exact .inl hx
            · exact .inr ⟨.inr hx.1, hx.2⟩
          · rintro (hx | ⟨rfl | hx, hin⟩)
            · exact .inl (.inr hx)
            · exact .inl (.inl rfl)
            · exact .inr ⟨hx, hin⟩
        · rw [hids]
          split <;> rfl
        · cases htrunc with
          | none hsame hall =>
            cases marked with
            | true => exact .none hsame (.inl rfl)
            | false => exact .first 0 ⟨b, List.mem_cons_self, hb⟩ hsame fun i x _ _ _ => Nat.zero_le i

end Blocks

def checkedTokens (q : Request) : Int :=
  if q.status = .waitingForRemoteKvs then q.numComputedTokens else q.numCachedTokens

def checkedBlocks (c : SchedulerConfig) (s : Scheduler) (r : Ref) : List BlockId :=
  (s.reqBlockIds r).take (numComputedBlocks c (checkedTokens (s.objs r)))

def SameButComputed (q q' : Request) : Prop :=
  ∃ computed external,
    q' = { q with numComputedTokens := computed, numExternalComputedTokens := external }

theorem SameButComputed.refl (q : Request) : SameButComputed q q :=
  ⟨q.numComputedTokens, q.numExternalComputedTokens, rfl⟩

theorem SameButComputed.trans {q q₁ q' : Request} (h : SameButComputed q q₁)
    (h' : SameButComputed q₁ q') : SameButComputed q q' := by
  obtain ⟨a, b, rfl⟩ := h
  obtain ⟨a', b', rfl⟩ := h'
  exact ⟨a', b', rfl⟩

section Request

variable {invalid : List BlockId} {evict : Bool} {scan scan' : InvalidScan}

structure ScansRequest (c : SchedulerConfig) (invalid : List BlockId) (r : Ref)
    (scan scan' : InvalidScan) : Prop where
  sched : ∃ f, scan'.sched = scan.sched.modify r f ∧
    SameButComputed (scan.sched.objs r) (f (scan.sched.objs r))
  affected : ∀ id, id ∈ scan'.affectedReqIds ↔ id ∈ scan.affectedReqIds ∨
    id = (scan.sched.objs r).requestId ∧ ∃ b ∈ checkedBlocks c scan.sched r, b ∈ invalid
  marked : ∀ b, b ∈ scan'.markedInvalidBlockIds ↔
    b ∈ scan.markedInvalidBlockIds ∨ b ∈ checkedBlocks c scan.sched r ∧ b ∈ invalid
  truncated : ∀ (i : Nat) b, (checkedBlocks c scan.sched r)[i]? = some b → b ∈ invalid →
    b ∉ scan.markedInvalidBlockIds →
    (scan'.sched.objs r).numComputedTokens ≤ i * c.kv.hashBlockSize

theorem take_zipIdx {α : Type} (l : List α) (k m : Nat) :
    (l.zipIdx k).take m = (l.take m).zipIdx k := by
  induction m generalizing l k with
  | zero => simp
  | succ m ih =>
    cases l with
    | nil => simp
    | cons a l => simp [ih]

theorem modify_id (s : Scheduler) (r : Ref) : s.modify r id = s := by
  simp [Scheduler.modify]

theorem scanRequest_scans (h : scanRequest c invalid evict scan r = .ok scan') :
    ScansRequest c invalid r scan scan' := by
  unfold scanRequest at h
  dsimp only at h
  split at h
  · rename_i blockIds hblocks
    have hchecked : checkedBlocks c scan.sched r = blockIds.take
        (numComputedBlocks c (checkedTokens (scan.sched.objs r))) := by
      rw [checkedBlocks, reqBlockIds, hblocks]
    rw [take_zipIdx] at h
    generalize hscan : scanBlocks c invalid evict r _ blockIds _ false false scan = res at h
    obtain ⟨affected, marked, scan₁⟩ := res
    obtain ⟨haff, hmark, hids, htrunc⟩ :
        (affected = true ↔ false = true ∨ ∃ b ∈ checkedBlocks c scan.sched r, b ∈ invalid) ∧
        (∀ b, b ∈ scan₁.markedInvalidBlockIds ↔
          b ∈ scan.markedInvalidBlockIds ∨ b ∈ checkedBlocks c scan.sched r ∧ b ∈ invalid) ∧
        scan₁.affectedReqIds = scan.affectedReqIds ∧
        Truncation c invalid r (checkedTokens (scan.sched.objs r)) (checkedBlocks c scan.sched r) 0
          scan scan₁ false marked := by
      rw [hchecked]
      exact scanBlocks_spec hscan
    simp only [Bool.false_eq_true, false_or] at haff
    dsimp only at h
    split at h
    · rename_i hany
      cases h
      have hsome := haff.1 hany
      have hinsert : ∀ id, id ∈ scan₁.affectedReqIds.insert (scan.sched.objs r).requestId ↔
          id ∈ scan.affectedReqIds ∨
            id = (scan.sched.objs r).requestId ∧ ∃ b ∈ checkedBlocks c scan.sched r, b ∈ invalid := by
        intro id
        rw [List.mem_insert_iff, hids, or_comm, and_iff_left hsome]
      cases htrunc with
      | none hsame hall =>
        refine ⟨⟨fun q => { q with numComputedTokens := q.numCachedTokens }, by simp [hsame],
          (scan.sched.objs r).numCachedTokens, _, rfl⟩, hinsert, hmark, fun i b hi hb hnew => ?_⟩
        exact absurd (hall.resolve_left (by simp) b (List.mem_of_getElem? hi) hb) hnew
      | first j hex hmod hfirst =>
        refine ⟨⟨truncateComputed c.kv.hashBlockSize (0 + j) (checkedTokens (scan.sched.objs r)),
          by simp [hmod], _, _, rfl⟩, hinsert, hmark, fun i b hi hb hnew => ?_⟩
        have hle := hfirst i b hi hb hnew
        simp only [if_true, hmod, Scheduler.modify, Function.update_self, truncateComputed,
          Nat.zero_add]
        exact_mod_cast Nat.mul_le_mul_right _ hle
    · rename_i hany
      cases h
      have hnone := mt haff.2 hany
      refine ⟨⟨id, ?_, .refl _⟩, fun id => ?_, hmark, fun i b hi hb _ => ?_⟩
      · rw [modify_id]
        cases htrunc with
        | none hsame => exact hsame
        | first j hex => exact absurd hex hnone
      · rw [hids, or_iff_left fun h => hnone h.2]
      · exact absurd ⟨b, List.mem_of_getElem? hi, hb⟩ hnone
  · cases h

end Request

section Requests

variable {invalid : List BlockId} {evict : Bool} {scan scan' : InvalidScan} {done : List Ref}

/-- What the scan of a list of requests keeps, with the requests done so far. -/
structure Scanned (c : SchedulerConfig) (invalid : List BlockId) (s : Scheduler) (done : List Ref)
    (scan : InvalidScan) : Prop where
  objs : ∃ objs, scan.sched = { s with objs := objs }
  same : ∀ x, SameButComputed (s.objs x) (scan.sched.objs x)
  other : ∀ x, x ∉ done → scan.sched.objs x = s.objs x
  marked : ∀ b ∈ scan.markedInvalidBlockIds, ∃ x ∈ done,
    (s.objs x).requestId ∈ scan.affectedReqIds ∧ Recomputes c scan.sched x b
  found : ∀ x ∈ done, ∀ (i : Nat) b, (checkedBlocks c s x)[i]? = some b → b ∈ invalid →
    (s.objs x).requestId ∈ scan.affectedReqIds ∧ b ∈ scan.markedInvalidBlockIds ∧
      ((scan.sched.objs x).numComputedTokens ≤ i * c.kv.hashBlockSize ∨
        ∃ y ∈ done, y ≠ x ∧ (s.objs y).requestId ∈ scan.affectedReqIds ∧
          Recomputes c scan.sched y b)

theorem scanned_nil (s : Scheduler) : Scanned c invalid s [] { sched := s } :=
  ⟨⟨s.objs, rfl⟩, fun _ => .refl _, fun _ _ => rfl, nofun, nofun⟩

theorem reqBlockIds_congr (hkv : s'.kvCacheManager = s.kvCacheManager)
    (hid : (s'.objs r).requestId = (s.objs r).requestId) : s'.reqBlockIds r = s.reqBlockIds r := by
  rw [reqBlockIds, reqBlockIds, hkv, hid]

theorem SameButComputed.requestId {q q' : Request} (h : SameButComputed q q') :
    q'.requestId = q.requestId := by
  obtain ⟨a, b, rfl⟩ := h
  rfl

theorem Scanned.reqBlockIds (h : Scanned c invalid s done scan) (x : Ref) :
    scan.sched.reqBlockIds x = s.reqBlockIds x := by
  obtain ⟨objs, hobjs⟩ := h.objs
  exact reqBlockIds_congr (by rw [hobjs]) (h.same x).requestId

theorem ScansRequest.recomputes (h : ScansRequest c invalid r scan scan') {x : Ref} (hx : x ≠ r)
    {b : BlockId} (hb : Recomputes c scan.sched x b) : Recomputes c scan'.sched x b := by
  obtain ⟨f, hf, -⟩ := h.sched
  have hobj : scan'.sched.objs x = scan.sched.objs x := by
    rw [hf]
    exact Function.update_of_ne hx _ _
  obtain ⟨i, hi, hle⟩ := hb
  refine ⟨i, ?_, hobj ▸ hle⟩
  rw [reqBlockIds_congr (s := scan.sched) (by rw [hf]; rfl) (by rw [hobj])]
  exact hi

theorem ScansRequest.recomputes_self (h : ScansRequest c invalid r scan scan') {i : Nat}
    {b : BlockId} (hi : (checkedBlocks c scan.sched r)[i]? = some b) (hb : b ∈ invalid)
    (hnew : b ∉ scan.markedInvalidBlockIds) : Recomputes c scan'.sched r b := by
  obtain ⟨f, hf, hsame⟩ := h.sched
  have hobjs : scan'.sched.objs = Function.update scan.sched.objs r (f (scan.sched.objs r)) := by
    rw [hf]
    rfl
  refine ⟨i, ?_, h.truncated i b hi hb hnew⟩
  rw [reqBlockIds_congr (s := scan.sched) (by rw [hf]; rfl)]
  · rw [checkedBlocks, List.getElem?_take] at hi
    split at hi
    · exact hi
    · cases hi
  · rw [hobjs, Function.update_self]
    exact hsame.requestId

theorem Scanned.step (h : Scanned c invalid s done scan) (hr : r ∉ done)
    (hs : ScansRequest c invalid r scan scan') : Scanned c invalid s (done ++ [r]) scan' := by
  obtain ⟨f, hf, hsame⟩ := hs.sched
  have hobjs : scan'.sched.objs = Function.update scan.sched.objs r (f (scan.sched.objs r)) := by
    rw [hf]
    rfl
  have hself := h.other r hr
  have hchecked : checkedBlocks c scan.sched r = checkedBlocks c s r := by
    rw [checkedBlocks, h.reqBlockIds, hself, checkedBlocks]
  have hmono : ∀ {id}, id ∈ scan.affectedReqIds → id ∈ scan'.affectedReqIds :=
    fun hid => (hs.affected _).2 (.inl hid)
  have hkeep : ∀ {x b}, x ∈ done → Recomputes c scan.sched x b → Recomputes c scan'.sched x b :=
    fun hx hb => hs.recomputes (fun heq => hr (heq ▸ hx)) hb
  have hnew : ∀ (i : Nat) b, (checkedBlocks c s r)[i]? = some b → b ∈ invalid →
      (s.objs r).requestId ∈ scan'.affectedReqIds := by
    intro i b hi hb
    refine (hs.affected _).2 (.inr ⟨by rw [hself], b, ?_, hb⟩)
    rw [hchecked]
    exact List.mem_of_getElem? hi
  refine ⟨?_, fun x => ?_, fun x hx => ?_, fun b hb => ?_, fun x hx i b hi hb => ?_⟩
  · obtain ⟨objs, hobjs⟩ := h.objs
    exact ⟨Function.update objs r (f (objs r)), by rw [hf, hobjs]; rfl⟩
  · rw [hobjs]
    by_cases hxr : x = r
    · subst hxr
      rw [Function.update_self]
      exact (h.same x).trans hsame
    · rw [Function.update_of_ne hxr]
      exact h.same x
  · rw [List.mem_append, List.mem_singleton, not_or] at hx
    rw [hobjs, Function.update_of_ne hx.2]
    exact h.other x hx.1
  · by_cases hold : b ∈ scan.markedInvalidBlockIds
    · obtain ⟨x, hx, haff, hrec⟩ := h.marked b hold
      exact ⟨x, List.mem_append_left _ hx, hmono haff, hkeep hx hrec⟩
    · obtain ⟨hmem, hinv⟩ := ((hs.marked b).1 hb).resolve_left hold
      obtain ⟨i, hi⟩ := List.mem_iff_getElem?.1 hmem
      exact ⟨r, by simp, hnew i b (hchecked ▸ hi) hinv, hs.recomputes_self hi hinv hold⟩
  · rcases List.mem_append.1 hx with hx | hx
    · obtain ⟨haff, hmark, hcase⟩ := h.found x hx i b hi hb
      refine ⟨hmono haff, (hs.marked b).2 (.inl hmark), hcase.imp (fun hle => ?_) ?_⟩
      · have hne : x ≠ r := fun heq => hr (heq ▸ hx)
        rw [hobjs, Function.update_of_ne hne]
        exact hle
      · rintro ⟨y, hy, hne, hyaff, hrec⟩
        exact ⟨y, List.mem_append_left _ hy, hne, hmono hyaff, hkeep hy hrec⟩
    · rw [List.mem_singleton] at hx
      subst hx
      rw [← hchecked] at hi
      refine ⟨hnew i b (hchecked ▸ hi) hb, (hs.marked b).2 (.inr ⟨List.mem_of_getElem? hi, hb⟩), ?_⟩
      by_cases hold : b ∈ scan.markedInvalidBlockIds
      · obtain ⟨y, hy, haff, hrec⟩ := h.marked b hold
        exact .inr ⟨y, List.mem_append_left _ hy, fun heq => hr (heq ▸ hy), hmono haff,
          hkeep hy hrec⟩
      · exact .inl (hs.truncated i b hi hb hold)

theorem scanRequests_scanned {refs : List Ref} (hrefs : refs.Nodup)
    (h : refs.foldlM (scanRequest c invalid evict) { sched := s } = .ok scan') :
    Scanned c invalid s refs scan' :=
  Result.foldlM_inv_of_ok
    (fun _ _ _ _ _ hl hinv hstep =>
      hinv.step (Result.notMem_done hl hrefs) (scanRequest_scans hstep))
    (scanned_nil s) h

end Requests

def Loads (s : Scheduler) (r : Ref) : Prop :=
  r ∈ s.running ∨ r ∈ s.skippedWaiting ∧ (s.objs r).status = .waitingForRemoteKvs

/-- The loaded prefix of a request; `loaded` has the computed tokens that a running request started
with. -/
def loadedBlocks (c : SchedulerConfig) (loaded : Ref → Int) (s : Scheduler) (r : Ref) :
    List BlockId :=
  (s.reqBlockIds r).take (numComputedBlocks c
    (if (s.objs r).status = .waitingForRemoteKvs then (s.objs r).numComputedTokens else loaded r))

/-- The requests that `_handle_invalid_blocks` affects: the running ones are left out of the update,
the others are marked for a retry. -/
def Affected (s : Scheduler) (failed : List ReqId) (s' : Scheduler) (r : Ref) : Prop :=
  r ∈ s.running ∧ (s.objs r).requestId ∈ failed ∨
    r ∉ s.running ∧ (s.objs r).requestId ∈ s'.failedRecvingKvReqIds

structure LoadsHandled (c : SchedulerConfig) (loaded : Ref → Int) (s : Scheduler)
    (invalid : List BlockId) (failed : List ReqId) (s' : Scheduler) : Prop where
  affected : ∀ r, s.Loads r → ∀ b ∈ loadedBlocks c loaded s r, b ∈ invalid → Affected s failed s' r
  truncated : ∀ r, s.Loads r → ∀ (i : Nat) b, (loadedBlocks c loaded s r)[i]? = some b →
    b ∈ invalid → (∀ y, y ≠ r → s.Loads y → Affected s failed s' y → ¬ Recomputes c s' y b) →
    (s'.objs r).numComputedTokens ≤ i * c.kv.hashBlockSize
  recomputed : ∀ b ∈ invalid, (∃ r, s.Loads r ∧ b ∈ loadedBlocks c loaded s r) →
    ∃ y, s.Loads y ∧ Affected s failed s' y ∧ Recomputes c s' y b

section Handled

variable {invalid : List BlockId} {failed : List ReqId} {loaded : Ref → Int}

theorem handleInvalidBlocks_eq_ok (hrecompute : c.recomputeKvLoadFailures = true)
    (h : handleInvalidBlocks c s invalid = .ok (failed, s')) :
    ∃ asyncScan syncScan,
      ((RequestQueue.iter c.policy s.lt s.skippedWaiting).filter fun r =>
        (s.objs r).status = .waitingForRemoteKvs).foldlM (scanRequest c invalid false)
          { sched := s } = .ok asyncScan ∧
      asyncScan.sched.running.foldlM (scanRequest c invalid true) { sched := asyncScan.sched } =
        .ok syncScan ∧
      failed = syncScan.affectedReqIds ∧ s'.objs = syncScan.sched.objs ∧
      s'.kvCacheManager = syncScan.sched.kvCacheManager ∧
      ∀ id ∈ asyncScan.affectedReqIds, id ∈ s'.failedRecvingKvReqIds := by
  simp only [handleInvalidBlocks, Result.bind_eq_ok, hrecompute, if_true] at h
  obtain ⟨asyncScan, hasync, syncScan, hsync, h⟩ := h
  refine ⟨asyncScan, syncScan, hasync, hsync, ?_⟩
  split at h
  · rename_i hnone
    cases h
    exact ⟨hnone.2.symm, rfl, rfl, by simp [hnone.1]⟩
  · cases h
    exact ⟨rfl, rfl, rfl, fun id hid => List.mem_union_iff.2 (.inr hid)⟩

theorem Recomputes.congr {b : BlockId} (h : Recomputes c s r b)
    (hkv : s'.kvCacheManager = s.kvCacheManager) (hobj : s'.objs r = s.objs r) :
    Recomputes c s' r b := by
  obtain ⟨i, hi, hle⟩ := h
  exact ⟨i, by rw [reqBlockIds_congr hkv (by rw [hobj])]; exact hi, hobj ▸ hle⟩

theorem Scanned.kvCacheManager {done : List Ref} {scan : InvalidScan}
    (h : Scanned c invalid s done scan) : scan.sched.kvCacheManager = s.kvCacheManager := by
  obtain ⟨objs, hobjs⟩ := h.objs
  rw [hobjs]

theorem Scanned.resolves {done : List Ref} {scan : InvalidScan} (h : Scanned c invalid s done scan)
    (hkv : s'.kvCacheManager = s.kvCacheManager)
    (hobjs : ∀ x ∈ done, s'.objs x = scan.sched.objs x) (hr : r ∈ done) {i : Nat} {b : BlockId}
    (hi : (checkedBlocks c s r)[i]? = some b) (hb : b ∈ invalid) :
    (s.objs r).requestId ∈ scan.affectedReqIds ∧
      ((s'.objs r).numComputedTokens ≤ i * c.kv.hashBlockSize ∨
        ∃ y ∈ done, y ≠ r ∧ (s.objs y).requestId ∈ scan.affectedReqIds ∧ Recomputes c s' y b) ∧
      ∃ y ∈ done, (s.objs y).requestId ∈ scan.affectedReqIds ∧ Recomputes c s' y b := by
  obtain ⟨haff, hmark, hcase⟩ := h.found r hr i b hi hb
  have hkv' : s'.kvCacheManager = scan.sched.kvCacheManager := hkv.trans h.kvCacheManager.symm
  refine ⟨haff, hcase.imp (fun hle => hobjs r hr ▸ hle) ?_, ?_⟩
  · rintro ⟨y, hy, hne, hyaff, hrec⟩
    exact ⟨y, hy, hne, hyaff, hrec.congr hkv' (hobjs y hy)⟩
  · obtain ⟨y, hy, hyaff, hrec⟩ := h.marked b hmark
    exact ⟨y, hy, hyaff, hrec.congr hkv' (hobjs y hy)⟩

/-- Where the recorded prefixes of the running requests cover what was loaded, every load that failed
is handled. -/
theorem handleInvalidBlocks_handled (hrecompute : c.recomputeKvLoadFailures = true)
    (hrunning : s.running.Nodup) (hskipped : s.skippedWaiting.Nodup)
    (hstatus : ∀ r ∈ s.running, (s.objs r).status = .running)
    (hloaded : ∀ r ∈ s.running,
      numComputedBlocks c (loaded r) ≤ numComputedBlocks c (s.objs r).numCachedTokens)
    (h : handleInvalidBlocks c s invalid = .ok (failed, s')) :
    LoadsHandled c loaded s invalid failed s' := by
  obtain ⟨asyncScan, syncScan, hasync, hsync, rfl, hobjs, hkv, hfailed⟩ :=
    handleInvalidBlocks_eq_ok hrecompute h
  generalize hloads : (RequestQueue.iter c.policy s.lt s.skippedWaiting).filter _ = refs at hasync
  have hmem : ∀ r, r ∈ refs ↔ r ∈ s.skippedWaiting ∧ (s.objs r).status = .waitingForRemoteKvs := by
    intro r
    rw [← hloads, List.mem_filter, (RequestQueue.iter_perm s.skippedWaiting).mem_iff,
      decide_eq_true_eq]
  have hapart : ∀ r ∈ s.running, r ∉ refs := by
    intro r hr hin
    have hwait := ((hmem r).1 hin).2
    rw [hstatus r hr] at hwait
    cases hwait
  have hscan : Scanned c invalid s refs asyncScan := by
    refine scanRequests_scanned ?_ hasync
    rw [← hloads]
    exact ((RequestQueue.iter_perm s.skippedWaiting).nodup_iff.2 hskipped).filter _
  have hrun : asyncScan.sched.running = s.running := by
    obtain ⟨objs, hobjs⟩ := hscan.objs
    rw [hobjs]
  have hscan' : Scanned c invalid asyncScan.sched s.running syncScan :=
    scanRequests_scanned hrunning (hrun ▸ hsync)
  have hkv₁ : s'.kvCacheManager = asyncScan.sched.kvCacheManager := hkv.trans hscan'.kvCacheManager
  have hkv₀ : s'.kvCacheManager = s.kvCacheManager := hkv₁.trans hscan.kvCacheManager
  -- what the second scan does not touch is as the first one left it
  have hfirst : ∀ x ∈ refs, s'.objs x = asyncScan.sched.objs x := by
    intro x hx
    rw [hobjs]
    exact hscan'.other x fun hr => hapart x hr hx
  have hsecond : ∀ x ∈ s.running, s'.objs x = syncScan.sched.objs x := fun x _ => by rw [hobjs]
  have hsame : ∀ x ∈ s.running, asyncScan.sched.objs x = s.objs x :=
    fun x hx => hscan.other x (hapart x hx)
  have haff₁ : ∀ {x}, x ∈ refs → (s.objs x).requestId ∈ asyncScan.affectedReqIds →
      s.Loads x ∧ Affected s syncScan.affectedReqIds s' x := by
    intro x hx hid
    exact ⟨.inr ((hmem x).1 hx), .inr ⟨fun hr => hapart x hr hx, hfailed _ hid⟩⟩
  have haff₂ : ∀ {x}, x ∈ s.running →
      (asyncScan.sched.objs x).requestId ∈ syncScan.affectedReqIds →
      s.Loads x ∧ Affected s syncScan.affectedReqIds s' x := by
    intro x hx hid
    rw [hsame x hx] at hid
    exact ⟨.inl hx, .inl ⟨hx, hid⟩⟩
  have hall : ∀ r, s.Loads r → ∀ (i : Nat) b, (loadedBlocks c loaded s r)[i]? = some b →
      b ∈ invalid → Affected s syncScan.affectedReqIds s' r ∧
        ((s'.objs r).numComputedTokens ≤ i * c.kv.hashBlockSize ∨
          ∃ y, y ≠ r ∧ s.Loads y ∧ Affected s syncScan.affectedReqIds s' y ∧ Recomputes c s' y b) ∧
        ∃ y, s.Loads y ∧ Affected s syncScan.affectedReqIds s' y ∧ Recomputes c s' y b := by
    intro r hr i b hi hb
    rcases hr with hr | hr
    · have hchecked : (checkedBlocks c asyncScan.sched r)[i]? = some b := by
        have hst := hstatus r hr
        rw [loadedBlocks, if_neg (by rw [hst]; decide), List.getElem?_take] at hi
        rw [checkedBlocks, hscan.reqBlockIds, hsame r hr, checkedTokens,
          if_neg (by rw [hst]; decide), List.getElem?_take]
        split at hi
        · rename_i hlt
          rw [if_pos (Nat.lt_of_lt_of_le hlt (hloaded r hr))]
          exact hi
        · cases hi
      obtain ⟨haff, hcase, y, hy, hyaff, hrec⟩ := hscan'.resolves hkv₁ hsecond hr hchecked hb
      refine ⟨(haff₂ hr haff).2, hcase.imp_right ?_, y, (haff₂ hy hyaff).1, (haff₂ hy hyaff).2, hrec⟩
      rintro ⟨y, hy, hne, hyaff, hrec⟩
      exact ⟨y, hne, (haff₂ hy hyaff).1, (haff₂ hy hyaff).2, hrec⟩
    · have hchecked : (checkedBlocks c s r)[i]? = some b := by
        rw [checkedBlocks, checkedTokens, if_pos hr.2]
        rwa [loadedBlocks, if_pos hr.2] at hi
      have hr' := (hmem r).2 hr
      obtain ⟨haff, hcase, y, hy, hyaff, hrec⟩ := hscan.resolves hkv₀ hfirst hr' hchecked hb
      refine ⟨(haff₁ hr' haff).2, hcase.imp_right ?_, y, (haff₁ hy hyaff).1, (haff₁ hy hyaff).2, hrec⟩
      rintro ⟨y, hy, hne, hyaff, hrec⟩
      exact ⟨y, hne, (haff₁ hy hyaff).1, (haff₁ hy hyaff).2, hrec⟩
  refine ⟨fun r hr b hmem hb => ?_, fun r hr i b hi hb hnone => ?_, fun b hb hex => ?_⟩
  · obtain ⟨i, hi⟩ := List.mem_iff_getElem?.1 hmem
    exact (hall r hr i b hi hb).1
  · refine (hall r hr i b hi hb).2.1.resolve_right ?_
    rintro ⟨y, hne, hy, haff, hrec⟩
    exact hnone y hne hy haff hrec
  · obtain ⟨r, hr, hmem⟩ := hex
    obtain ⟨i, hi⟩ := List.mem_iff_getElem?.1 hmem
    exact (hall r hr i b hi hb).2.2

end Handled

end Scheduler

end Vllm
