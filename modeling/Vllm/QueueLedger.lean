import Mathlib.Data.Multiset.Filter
import Vllm.ScheduleMoves
import Vllm.SchedulerUpdate

namespace Vllm

structure Ledger where
  nextRef : Ref
  requests : Dict ReqId Ref
  requestId : Ref → ReqId
  status : Ref → RequestStatus
  running : Multiset Ref

namespace Ledger

def Live (l : Ledger) (r : Ref) : Prop := r < l.nextRef ∧ (l.status r).isFinished = false

structure Ok (l : Ledger) : Prop where
  nodup : l.running.Nodup
  running_iff : ∀ r, r ∈ l.running ↔ r < l.nextRef ∧ l.status r = .running
  registered : ∀ r, l.Live r → l.requests.get? (l.requestId r) = some r
  known : ∀ id r, l.requests.get? id = some r → r < l.nextRef ∧ l.requestId r = id

/-- The queues hold the live requests that do not run, each once. -/
structure Exact (l : Ledger) (q : Multiset Ref) : Prop where
  nodup : q.Nodup
  mem_iff : ∀ r, r ∈ q ↔ l.Live r ∧ l.status r ≠ .running

def admitRequest (l : Ledger) (r : Ref) : Ledger :=
  { l with status := Function.update l.status r .running, running := r ::ₘ l.running }

def park (l : Ledger) (r : Ref) (status : RequestStatus) : Ledger :=
  { l with status := Function.update l.status r status, running := l.running.erase r }

def register (l : Ledger) (requestId : ReqId) (status : RequestStatus) : Ledger where
  nextRef := l.nextRef + 1
  requests := l.requests.set requestId l.nextRef
  requestId := Function.update l.requestId l.nextRef requestId
  status := Function.update l.status l.nextRef status
  running := l.running

def forget (l : Ledger) (requestId : ReqId) : Ledger :=
  { l with requests := l.requests.erase requestId }

variable {l : Ledger} {q : Multiset Ref} {r : Ref} {x : RequestStatus}

theorem not_finished_of_running (h : l.status r = .running) : (l.status r).isFinished = false := by
  rw [h]
  rfl

theorem Ok.live (hl : l.Ok) (hr : r ∈ l.running) : l.Live r := by
  obtain ⟨hlt, hst⟩ := (hl.running_iff r).mp hr
  exact ⟨hlt, not_finished_of_running hst⟩

theorem Ok.live_of_get? (hl : l.Ok) {id : ReqId} (hr : l.requests.get? id = some r)
    (hf : (l.status r).isFinished = false) : l.Live r :=
  ⟨(hl.known id r hr).1, hf⟩

theorem Ok.admitRequest (hl : l.Ok) (hr : l.Live r) (hst : l.status r ≠ .running) : (l.admitRequest r).Ok where
  nodup := Multiset.nodup_cons.mpr ⟨fun h => hst ((hl.running_iff r).mp h).2, hl.nodup⟩
  running_iff y := by
    by_cases hy : y = r
    · subst hy
      simp [Ledger.admitRequest, hr.1]
    · simp [Ledger.admitRequest, hy, hl.running_iff y]
  registered y hy := by
    by_cases hyr : y = r
    · subst hyr
      exact hl.registered y hr
    · refine hl.registered y ⟨hy.1, ?_⟩
      simpa [Ledger.admitRequest, hyr] using hy.2
  known := hl.known

theorem Exact.admitRequest (hq : l.Exact q) (hr : r ∈ q) : (l.admitRequest r).Exact (q.erase r) where
  nodup := hq.nodup.erase r
  mem_iff y := by
    rw [hq.nodup.mem_erase_iff, hq.mem_iff y]
    by_cases hy : y = r
    · subst hy
      simp [Ledger.admitRequest]
    · simp [Ledger.admitRequest, Live, hy]

theorem Ok.park (hl : l.Ok) (hr : l.Live r) (hx : x ≠ .running) : (l.park r x).Ok where
  nodup := hl.nodup.erase r
  running_iff y := by
    show y ∈ l.running.erase r ↔ _
    rw [hl.nodup.mem_erase_iff, hl.running_iff y]
    by_cases hy : y = r
    · subst hy
      simp [Ledger.park, hx]
    · simp [Ledger.park, hy]
  registered y hy := by
    by_cases hyr : y = r
    · subst hyr
      exact hl.registered y hr
    · refine hl.registered y ⟨hy.1, ?_⟩
      simpa [Ledger.park, hyr] using hy.2
  known := hl.known

theorem Exact.park_finished (hq : l.Exact q) (hx : x.isFinished = true) :
    (l.park r x).Exact (q.erase r) where
  nodup := hq.nodup.erase r
  mem_iff y := by
    rw [hq.nodup.mem_erase_iff, hq.mem_iff y]
    by_cases hy : y = r
    · subst hy
      simp [Ledger.park, Live, hx]
    · simp [Ledger.park, Live, hy]

theorem Exact.park_queued (hq : l.Exact q) (hr : r ∈ q) (hx : x ≠ .running)
    (hf : x.isFinished = false) : (l.park r x).Exact q where
  nodup := hq.nodup
  mem_iff y := by
    rw [hq.mem_iff y]
    by_cases hy : y = r
    · subst hy
      have := (hq.mem_iff y).mp hr
      simp [Ledger.park, Live, hx, hf, this.1.1, this.1.2, this.2]
    · simp [Ledger.park, Live, hy]

theorem Exact.park_running (hq : l.Exact q) (hr : r < l.nextRef) (hst : l.status r = .running)
    (hx : x ≠ .running) (hf : x.isFinished = false) : (l.park r x).Exact (r ::ₘ q) where
  nodup := Multiset.nodup_cons.mpr ⟨fun h => ((hq.mem_iff r).mp h).2 hst, hq.nodup⟩
  mem_iff y := by
    rw [Multiset.mem_cons, hq.mem_iff y]
    by_cases hy : y = r
    · subst hy
      simp [Ledger.park, Live, hx, hf, hr]
    · simp [Ledger.park, Live, hy]

theorem lt_succ_iff_of_ne {m n : Nat} (h : m ≠ n) : m < n + 1 ↔ m < n := by omega

theorem Ok.register (hl : l.Ok) {id : ReqId} (hid : l.requests.get? id = none)
    (hx : x ≠ .running) : (l.register id x).Ok where
  nodup := hl.nodup
  running_iff y := by
    show y ∈ l.running ↔ _
    rw [hl.running_iff y]
    by_cases hy : y = l.nextRef
    · subst hy
      simp [Ledger.register, hx]
    · simp only [Ledger.register, Function.update_of_ne hy, lt_succ_iff_of_ne hy]
  registered y hy := by
    by_cases hyr : y = l.nextRef
    · subst hyr
      simp [Ledger.register]
    · have hlt : y < l.nextRef := (lt_succ_iff_of_ne hyr).mp hy.1
      have hget := hl.registered y ⟨hlt, by simpa [Ledger.register, hyr] using hy.2⟩
      have hne : id ≠ l.requestId y := by
        intro h
        rw [← h, hid] at hget
        cases hget
      simp [Ledger.register, hyr, hne, hget]
  known id' r' h := by
    simp only [Ledger.register, Dict.get?_set] at h ⊢
    split at h
    · rename_i hid'
      cases h
      simp [hid']
    · obtain ⟨hlt, hid'⟩ := hl.known id' r' h
      rw [Function.update_of_ne (Nat.ne_of_lt hlt)]
      exact ⟨Nat.lt_succ_of_lt hlt, hid'⟩

theorem Exact.register (hq : l.Exact q) {id : ReqId} (hx : x ≠ .running)
    (hf : x.isFinished = false) : (l.register id x).Exact (l.nextRef ::ₘ q) where
  nodup := Multiset.nodup_cons.mpr
    ⟨fun h => Nat.lt_irrefl _ ((hq.mem_iff l.nextRef).mp h).1.1, hq.nodup⟩
  mem_iff y := by
    rw [Multiset.mem_cons, hq.mem_iff y]
    by_cases hy : y = l.nextRef
    · subst hy
      simp [Ledger.register, Live, hx, hf]
    · simp only [Ledger.register, Live, hy, false_or, Function.update_of_ne hy,
        lt_succ_iff_of_ne hy]

theorem Ok.forget (hl : l.Ok) {id : ReqId}
    (hid : ∀ r, l.requests.get? id = some r → (l.status r).isFinished = true) :
    (l.forget id).Ok where
  nodup := hl.nodup
  running_iff := hl.running_iff
  registered y hy := by
    have hget := hl.registered y hy
    have hne : id ≠ l.requestId y := by
      intro h
      rw [← h] at hget
      have hfin := hid y hget
      have hlive : (l.status y).isFinished = false := hy.2
      rw [hfin] at hlive
      cases hlive
    simpa [Ledger.forget, hne] using hget
  known id' r' h := hl.known id' r' (Dict.get?_of_erase h)

theorem Exact.forget (hq : l.Exact q) (id : ReqId) : (l.forget id).Exact q :=
  ⟨hq.nodup, hq.mem_iff⟩

end Ledger

end Vllm
