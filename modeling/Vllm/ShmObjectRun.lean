import Mathlib.Algebra.BigOperators.Group.Finset.Basic
import Mathlib.Algebra.Group.Action.Defs
import Mathlib.Algebra.Order.BigOperators.Group.Finset
import Mathlib.Tactic.Ring
import Vllm.ShmObjectLaws

namespace Vllm

open ShmRingBuffer ShmObjectStorage

def SentRef.touchDebt (id : Nat) (f : SentRef) : Nat :=
  if f.counted = true ∧ id = f.ref.monotonicId then 1 else 0

def SentRef.getDebt (id : Nat) (f : SentRef) : Nat :=
  if id = f.ref.monotonicId then 1 else 0

def SentRef.debt (id : Nat) (f : SentRef) : Nat := f.touchDebt id + f.getDebt id

def ShmReader.debt (id : Nat) (reader : ShmReader) : Nat :=
  (reader.inbox.flatten.map (SentRef.debt id)).sum + (reader.toTouch.map (SentRef.touchDebt id)).sum +
    (reader.toGet.map (SentRef.getDebt id)).sum

namespace ShmSystem

variable {κ : Type} [DecidableEq κ] {s s' : ShmSystem κ} {live : List Chunk} {id : Nat}

def announced (keyIndex : Dict κ ShmRef) (id : Nat) (items : List (PendingItem κ)) : Nat :=
  (items.map fun p => if p.cached = true ∧
    (keyIndex.get? p.key).map ShmRef.monotonicId = some id then 1 else 0).sum

def debt (s : ShmSystem κ) (id : Nat) : Nat :=
  ∑ r ∈ Finset.range s.storage.nReaders, (s.readers r).debt id +
    s.storage.nReaders *
      (announced s.storage.keyIndex id s.touched + (s.built.map (SentRef.debt id)).sum)

def Underway (s : ShmSystem κ) (f : SentRef) : Prop :=
  (∃ r < s.storage.nReaders, f ∈ (s.readers r).inbox.flatten ++ (s.readers r).toGet) ∨ f ∈ s.built

structure Inv (s : ShmSystem κ) (live : List Chunk) : Prop where
  stored : Stored s.storage live
  balanced : Balanced s.storage live s.debt
  held : ∀ f, s.Underway f → ∃ key, s.storage.keyIndex.get? key = some f.ref
  touches : ∀ r < s.storage.nReaders, (s.readers r).toTouch ⊆ (s.readers r).toGet
  cached : ∀ p ∈ s.toSend, p.cached = true → s.storage.isCached p.key = true
  found : ∀ p ∈ s.toTouch, p.cached = s.storage.isCached p.key
  suffix : s.toTouch <:+ s.toSend
  positive : 0 < s.storage.nReaders
  small : s.storage.maxObjectSize + mdSize < 2 ^ 31

section Debt

theorem sum_ne_zero {α : Type} {l : List α} {f : α → Nat} :
    (l.map f).sum ≠ 0 ↔ ∃ a ∈ l, f a ≠ 0 := by
  simp [List.sum_eq_zero_iff]

theorem debt_ne_zero {f : SentRef} : f.debt id ≠ 0 ↔ f.ref.monotonicId = id := by
  unfold SentRef.debt SentRef.touchDebt SentRef.getDebt
  by_cases h : id = f.ref.monotonicId
  · simp [h]
  · simp [h, Ne.symm h]

theorem getDebt_ne_zero {f : SentRef} : f.getDebt id ≠ 0 ↔ f.ref.monotonicId = id := by
  unfold SentRef.getDebt
  by_cases h : id = f.ref.monotonicId
  · simp [h]
  · simp [h, Ne.symm h]

theorem touchDebt_ne_zero {f : SentRef} (h : f.touchDebt id ≠ 0) : f.ref.monotonicId = id := by
  unfold SentRef.touchDebt at h
  split at h
  · rename_i heq
    exact heq.2.symm
  · exact absurd rfl h

theorem readerDebt_ne_zero {reader : ShmReader} (htouch : reader.toTouch ⊆ reader.toGet) :
    reader.debt id ≠ 0 ↔
      ∃ f ∈ reader.inbox.flatten ++ reader.toGet, f.ref.monotonicId = id := by
  unfold ShmReader.debt
  constructor
  · intro h
    by_cases hinbox : (reader.inbox.flatten.map (SentRef.debt id)).sum = 0
    · by_cases htouch' : (reader.toTouch.map (SentRef.touchDebt id)).sum = 0
      · obtain ⟨f, hf, hid⟩ := sum_ne_zero.mp
          (show (reader.toGet.map (SentRef.getDebt id)).sum ≠ 0 by omega)
        exact ⟨f, List.mem_append_right _ hf, getDebt_ne_zero.mp hid⟩
      · obtain ⟨f, hf, hid⟩ := sum_ne_zero.mp htouch'
        exact ⟨f, List.mem_append_right _ (htouch hf), touchDebt_ne_zero hid⟩
    · obtain ⟨f, hf, hid⟩ := sum_ne_zero.mp hinbox
      exact ⟨f, List.mem_append_left _ hf, debt_ne_zero.mp hid⟩
  · rintro ⟨f, hf, hid⟩
    rcases List.mem_append.mp hf with hf | hf
    · have := sum_ne_zero.mpr ⟨f, hf, debt_ne_zero.mpr hid⟩
      omega
    · have := sum_ne_zero.mpr ⟨f, hf, getDebt_ne_zero.mpr hid⟩
      omega

theorem Inv.owed_iff (h : Inv s live) : s.Owed id ↔ s.debt id ≠ 0 := by
  have hn := h.positive
  have hreaders : (∃ r < s.storage.nReaders, ∃ f ∈ (s.readers r).inbox.flatten ++ (s.readers r).toGet,
      f.ref.monotonicId = id) ↔
      ∑ r ∈ Finset.range s.storage.nReaders, (s.readers r).debt id ≠ 0 := by
    rw [ne_eq, Finset.sum_eq_zero_iff]
    simp only [Finset.mem_range, not_forall]
    constructor
    · rintro ⟨r, hr, hf⟩
      exact ⟨r, hr, (readerDebt_ne_zero (h.touches r hr)).mpr hf⟩
    · rintro ⟨r, hr, hf⟩
      exact ⟨r, hr, (readerDebt_ne_zero (h.touches r hr)).mp hf⟩
  have hbuilt : (∃ f ∈ s.built, f.ref.monotonicId = id) ↔
      (s.built.map (SentRef.debt id)).sum ≠ 0 := by
    rw [sum_ne_zero]
    simp only [debt_ne_zero]
  have htouched : (∃ p ∈ s.touched, p.cached = true ∧
      (s.storage.keyIndex.get? p.key).map ShmRef.monotonicId = some id) ↔
      announced s.storage.keyIndex id s.touched ≠ 0 := by
    rw [announced, sum_ne_zero]
    simp only [ne_eq, ite_eq_right_iff, Nat.one_ne_zero, imp_false, not_not]
  rw [Owed, hreaders, hbuilt, htouched, debt]
  have hmul : s.storage.nReaders * (announced s.storage.keyIndex id s.touched +
      (s.built.map (SentRef.debt id)).sum) ≠ 0 ↔
      announced s.storage.keyIndex id s.touched ≠ 0 ∨
        (s.built.map (SentRef.debt id)).sum ≠ 0 := by
    rw [Nat.mul_ne_zero_iff]
    omega
  omega

end Debt

theorem Inv.closed (h : Inv s live) : Closed live s.debt := by
  intro i hi
  rcases h.owed_iff.mpr hi with ⟨r, hr, f, hf, hid⟩ | ⟨f, hf, hid⟩ | ⟨p, -, -, hid⟩
  · obtain ⟨key, hkey⟩ := h.held f (.inl ⟨r, hr, hf⟩)
    obtain ⟨c, hc, hcid, -⟩ := h.stored.chunk hkey
    exact ⟨c, hc, hcid.trans hid⟩
  · obtain ⟨key, hkey⟩ := h.held f (.inr hf)
    obtain ⟨c, hc, hcid, -⟩ := h.stored.chunk hkey
    exact ⟨c, hc, hcid.trans hid⟩
  · obtain ⟨ref, hkey, hid⟩ := Option.map_eq_some_iff.mp hid
    obtain ⟨c, hc, hcid, -⟩ := h.stored.chunk hkey
    exact ⟨c, hc, hcid.trans hid⟩

theorem Inv.exact (h : Inv s live) : Exact s where
  isFree := by
    intro key ref hkey
    obtain ⟨c, hc, hid, haddr⟩ := h.stored.chunk hkey
    have hfree := h.balanced.isFree_iff hc
    rw [h.owed_iff, not_not, ← haddr, h.stored.core.accessBuf hc, ← hid]
    exact hfree
  held := by
    intro r hr f hf
    obtain ⟨key, hkey⟩ := h.held f (.inl ⟨r, hr, hf⟩)
    obtain ⟨c, hc, hid, haddr⟩ := h.stored.chunk hkey
    refine ⟨⟨key, hkey⟩, ?_⟩
    rw [← haddr, h.stored.core.accessBuf hc, ← hid]

section Sender

theorem Inv.request (h : Inv s live) (items : List (κ × Serialized)) (hsend : s.toSend = []) :
    Inv (s.newRequest items) live := by
  have hold : s.touched = [] := by rw [touched, hsend, List.take_nil]
  have hnew : (s.newRequest items).touched = [] := by
    simp only [touched, newRequest, Nat.sub_self, List.take_zero]
  have hdebt : (s.newRequest items).debt = s.debt := by
    funext i
    rw [debt, debt, hnew, hold]
    rfl
  exact {
    stored := h.stored
    balanced := hdebt ▸ h.balanced
    held := h.held
    touches := h.touches
    cached := by
      intro p hp hcached
      obtain ⟨i, hi, rfl⟩ := List.mem_map.mp hp
      exact hcached
    found := by
      intro p hp
      obtain ⟨i, hi, rfl⟩ := List.mem_map.mp hp
      rfl
    suffix := List.suffix_rfl
    positive := h.positive
    small := h.small }

theorem announced_append (keyIndex : Dict κ ShmRef) (id : Nat) (items items' : List (PendingItem κ)) :
    announced keyIndex id (items ++ items') =
      announced keyIndex id items + announced keyIndex id items' := by
  rw [announced, List.map_append, List.sum_append]
  rfl

theorem announced_cached {keyIndex : Dict κ ShmRef} {p : PendingItem κ} {ref : ShmRef}
    (hcached : p.cached = true) (hkey : keyIndex.get? p.key = some ref) (id : Nat) :
    announced keyIndex id [p] = if id = ref.monotonicId then 1 else 0 := by
  by_cases hid : id = ref.monotonicId
  · simp [announced, hcached, hkey, hid]
  · simp [announced, hkey, hid, Ne.symm hid]

theorem announced_new {keyIndex : Dict κ ShmRef} {p : PendingItem κ} (hcached : p.cached = false)
    (id : Nat) : announced keyIndex id [p] = 0 := by
  simp [announced, hcached]

theorem Inv.senderTouch (h : Inv s live) {p : PendingItem κ} {ps : List (PendingItem κ)}
    (htouch : s.toTouch = p :: ps) :
    Inv { s with storage := s.storage.touch p.key, toTouch := ps } live := by
  obtain ⟨pre, hpre⟩ := h.suffix
  rw [htouch] at hpre
  have hold : s.touched = pre := by
    rw [touched, htouch, ← hpre, List.length_append, Nat.add_sub_cancel, List.take_left]
  have hnew : ({ s with storage := s.storage.touch p.key, toTouch := ps } : ShmSystem κ).touched =
      pre ++ [p] := by
    have hsplit : s.toSend = (pre ++ [p]) ++ ps := by simp [← hpre]
    simp only [touched]
    rw [hsplit, List.length_append, Nat.add_sub_cancel, List.take_left]
  have hfound := h.found p (htouch ▸ List.mem_cons_self)
  obtain ⟨hstored, hbalanced, hkeys, hn, hmax⟩ := h.stored.touch h.balanced p.key
  have hcached : ∀ q : PendingItem κ, (s.storage.touch p.key).isCached q.key =
      s.storage.isCached q.key := by
    intro q
    rw [isCached, isCached, hkeys]
  have hdebt : ({ s with storage := s.storage.touch p.key, toTouch := ps } : ShmSystem κ).debt =
      owing s.storage.nReaders s.debt (s.storage.keyIndex.get? p.key) := by
    funext i
    rw [debt, hnew]
    simp only [hkeys, hn, announced_append]
    rw [isCached, Dict.contains] at hfound
    cases hkey : s.storage.keyIndex.get? p.key with
    | none =>
      rw [hkey] at hfound
      simp only [announced_new hfound, owing, debt, hold, Nat.add_zero]
    | some ref =>
      rw [hkey] at hfound
      simp only [announced_cached hfound hkey, owing, debt, hold]
      split
      · ring
      · ring
  exact {
    stored := hstored
    balanced := hdebt ▸ hbalanced
    held := by
      intro f hf
      rw [hkeys]
      rcases hf with ⟨r, hr, hf⟩ | hf
      · exact h.held f (.inl ⟨r, hn ▸ hr, hf⟩)
      · exact h.held f (.inr hf)
    touches := fun r hr => h.touches r (hn ▸ hr)
    cached := fun q hq hc => (hcached q).trans (h.cached q hq hc)
    found := fun q hq => (h.found q (htouch ▸ List.mem_cons_of_mem p hq)).trans (hcached q).symm
    suffix := ⟨pre ++ [p], by rw [← hpre, List.append_assoc]; rfl⟩
    positive := hn ▸ h.positive
    small := hmax ▸ h.small }

theorem announced_congr {keyIndex keyIndex' : Dict κ ShmRef} {items : List (PendingItem κ)}
    (h : ∀ p ∈ items, p.cached = true → keyIndex'.get? p.key = keyIndex.get? p.key) (id : Nat) :
    announced keyIndex' id items = announced keyIndex id items := by
  unfold announced
  congr 1
  refine List.map_congr_left fun p hp => ?_
  by_cases hcached : p.cached = true
  · rw [h p hp hcached]
  · simp [hcached]

theorem Inv.kept {storage : ShmObjectStorage κ} {live' : List Chunk} (h : Inv s live)
    (hkeeps : KeepsOwed s.debt s.storage storage live') {f : SentRef} (hf : s.Underway f) :
    ∃ key, storage.keyIndex.get? key = some f.ref := by
  obtain ⟨key, hkey⟩ := h.held f hf
  refine ⟨key, hkeeps.keys key f.ref hkey (h.owed_iff.mp ?_)⟩
  rcases hf with ⟨r, hr, hf⟩ | hf
  · exact .inl ⟨r, hr, f, hf, rfl⟩
  · exact .inr (.inl ⟨f, hf, rfl⟩)

theorem Inv.keptItem {storage : ShmObjectStorage κ} {live' : List Chunk} (h : Inv s live)
    (htouch : s.toTouch = []) (hkeeps : KeepsOwed s.debt s.storage storage live') {p : PendingItem κ}
    (hp : p ∈ s.toSend) (hcached : p.cached = true) : ∃ ref,
      s.storage.keyIndex.get? p.key = some ref ∧ storage.keyIndex.get? p.key = some ref := by
  obtain ⟨ref, hkey⟩ := Option.isSome_iff_exists.mp (h.cached p hp hcached)
  have hmem : p ∈ s.touched := by
    rw [touched, htouch, List.length_nil, Nat.sub_zero, List.take_length]
    exact hp
  refine ⟨ref, hkey, hkeeps.keys p.key ref hkey (h.owed_iff.mp ?_)⟩
  exact .inr (.inr ⟨p, hmem, hcached, by rw [hkey]; rfl⟩)

def sentFor (p : PendingItem κ) : Option ShmRef → List SentRef
  | some ref => [⟨ref, p.cached⟩]
  | none => []

theorem Inv.debt_senderItem {storage : ShmObjectStorage κ} {live' : List Chunk}
    {p : PendingItem κ} {ps : List (PendingItem κ)} {ref : Option ShmRef} (h : Inv s live)
    (htouch : s.toTouch = []) (hsend : s.toSend = p :: ps)
    (hands : Hands s.debt s.storage p.key ref storage live') :
    ({ s with storage, toSend := ps, built := s.built ++ sentFor p ref } : ShmSystem κ).debt =
      owing s.storage.nReaders s.debt ref := by
  have hold : s.touched = [p] ++ ps := by
    rw [touched, htouch, List.length_nil, Nat.sub_zero, List.take_length, hsend]
    rfl
  have hnew : ({ s with storage, toSend := ps, built := s.built ++ sentFor p ref } :
      ShmSystem κ).touched = ps := by
    simp only [touched, htouch, List.length_nil, Nat.sub_zero, List.take_length]
  have hrest : ∀ i, announced storage.keyIndex i ps = announced s.storage.keyIndex i ps := by
    refine announced_congr fun q hq hcached => ?_
    obtain ⟨r, hr, hr'⟩ := h.keptItem htouch hands.toKeepsOwed
      (hsend ▸ List.mem_cons_of_mem p hq) hcached
    rw [hr, hr']
  funext i
  rw [debt, hnew]
  simp only [hrest, hands.nReaders, List.map_append, List.sum_append]
  by_cases hcached : p.cached = true
  · -- found before: the reference is counted for its touch and for the get
    obtain ⟨r, hr, -⟩ := h.keptItem htouch hands.toKeepsOwed (hsend ▸ List.mem_cons_self) hcached
    rw [hands.same r hr]
    simp only [owing, debt, hold, announced_append, announced_cached hcached hr, sentFor, hcached,
      SentRef.debt, SentRef.touchDebt, SentRef.getDebt, List.map_cons, List.map_nil, true_and,
      List.sum_singleton]
    split
    · ring
    · ring
  · have hnot := Bool.eq_false_iff.mpr hcached
    cases ref with
    | none =>
      simp only [owing, debt, hold, announced_append, announced_new hnot, sentFor, List.map_nil,
        List.sum_nil, Nat.zero_add, Nat.add_zero]
    | some r =>
      simp only [owing, debt, hold, announced_append, announced_new hnot, sentFor, hnot,
        SentRef.debt, SentRef.touchDebt, SentRef.getDebt, List.map_cons, List.map_nil,
        List.sum_singleton, Bool.false_eq_true, false_and, if_false]
      split
      · ring
      · ring

theorem Inv.senderItem {p : PendingItem κ} {ps : List (PendingItem κ)} (h : Inv s live)
    (htouch : s.toTouch = []) (hsend : s.toSend = p :: ps)
    (hfew : s.storage.ringBuffer.metadata.size + 1 < idMax) :
    ∃ s' live', Op.step s .senderItem = .ok s' ∧ Inv s' live' := by
  have hitem : (if p.cached then none else some p.value) = none →
      s.storage.isCached p.key = true := by
    intro hnone
    split at hnone
    · rename_i hcached
      exact h.cached p (hsend ▸ List.mem_cons_self) hcached
    · cases hnone
  obtain ⟨ref, storage, live', hok, hands⟩ := h.stored.getAndUpdateItem h.balanced h.closed hitem
    h.small (h.stored.core.size ▸ hfew)
  refine ⟨{ s with storage, toSend := ps, built := s.built ++ sentFor p ref }, live', ?_, ?_⟩
  · simp only [Op.step, htouch, hsend, hok, Result.ok_bind]
    cases ref <;> rfl
  exact {
    stored := hands.stored
    balanced := h.debt_senderItem htouch hsend hands ▸ hands.balanced
    held := by
      intro f hf
      rcases hf with ⟨r, hr, hf⟩ | hf
      · exact h.kept hands.toKeepsOwed (.inl ⟨r, hands.nReaders ▸ hr, hf⟩)
      · rcases List.mem_append.mp hf with hf | hf
        · exact h.kept hands.toKeepsOwed (.inr hf)
        · cases ref with
          | none => cases hf
          | some r =>
            rw [List.mem_singleton.mp hf]
            exact ⟨p.key, hands.indexed r rfl⟩
    touches := fun r hr => h.touches r (hands.nReaders ▸ hr)
    cached := by
      intro q hq hcached
      obtain ⟨r, -, hr⟩ := h.keptItem htouch hands.toKeepsOwed
        (hsend ▸ List.mem_cons_of_mem p hq) hcached
      rw [isCached, Dict.contains, hr]
      rfl
    found := by
      intro q hq
      simp only [htouch] at hq
      cases hq
    suffix := by
      simp only [htouch]
      exact List.nil_suffix
    positive := hands.nReaders ▸ h.positive
    small := hands.maxObjectSize ▸ h.small }

theorem Inv.send (h : Inv s live) (hsend : s.toSend = []) : Inv s.deliver live := by
  have hold : s.touched = [] := by rw [touched, hsend, List.take_nil]
  have hnew : s.deliver.touched = [] := by rw [touched, deliver, hsend, List.take_nil]
  have hdebt : s.deliver.debt = s.debt := by
    funext i
    have hreader : ∀ r, (s.deliver.readers r).debt i =
        (s.readers r).debt i + (s.built.map (SentRef.debt i)).sum := by
      intro r
      simp only [deliver, ShmReader.debt, List.flatten_append, List.flatten_singleton,
        List.map_append, List.sum_append]
      omega
    have hsum : ∑ r ∈ Finset.range s.storage.nReaders, (s.deliver.readers r).debt i =
        ∑ r ∈ Finset.range s.storage.nReaders, (s.readers r).debt i +
          s.storage.nReaders * (s.built.map (SentRef.debt i)).sum := by
      rw [Finset.sum_congr rfl fun r _ => hreader r, Finset.sum_add_distrib, Finset.sum_const,
        Finset.card_range, smul_eq_mul]
    rw [debt, debt, hnew, hold]
    refine (congrArg (· + _) hsum).trans ?_
    simp only [announced, deliver, List.map_nil, List.sum_nil]
    ring
  exact {
    stored := h.stored
    balanced := hdebt ▸ h.balanced
    held := by
      intro f hf
      rcases hf with ⟨r, hr, hf⟩ | hf
      · simp only [deliver, List.flatten_append, List.flatten_singleton, List.mem_append] at hf
        rcases hf with (hf | hf) | hf
        · exact h.held f (.inl ⟨r, hr, List.mem_append_left _ hf⟩)
        · exact h.held f (.inr hf)
        · exact h.held f (.inl ⟨r, hr, List.mem_append_right _ hf⟩)
      · cases hf
    touches := h.touches
    cached := h.cached
    found := h.found
    suffix := h.suffix
    positive := h.positive
    small := h.small }

end Sender

section Readers

variable {r : Nat} {reader : ShmReader} {ring : ShmRingBuffer}

theorem debt_setReader (id : Nat) (reader : ShmReader) (ring : ShmRingBuffer) (hr : r < s.storage.nReaders) {k : Nat}
    (h : (s.readers r).debt id = reader.debt id + k) :
    s.debt id = ((s.setRing ring).setReader r reader).debt id + k := by
  have hmem : r ∈ Finset.range s.storage.nReaders := Finset.mem_range.mpr hr
  have hother : ∑ r' ∈ (Finset.range s.storage.nReaders).erase r,
      (Function.update s.readers r reader r').debt id =
        ∑ r' ∈ (Finset.range s.storage.nReaders).erase r, (s.readers r').debt id := by
    refine Finset.sum_congr rfl fun r' hr' => ?_
    rw [Function.update_of_ne (Finset.ne_of_mem_erase hr')]
  have hsum : ∑ r' ∈ Finset.range s.storage.nReaders, (s.readers r').debt id =
      ∑ r' ∈ Finset.range s.storage.nReaders,
        (Function.update s.readers r reader r').debt id + k := by
    rw [← Finset.add_sum_erase _ _ hmem, ← Finset.add_sum_erase _ _ hmem, hother, h,
      Function.update_self]
    omega
  rw [debt, debt, hsum]
  simp only [setReader, setRing, touched]
  omega

omit [DecidableEq κ] in
theorem readers_setReader (s : ShmSystem κ) (r r' : Nat) (reader : ShmReader) :
    (s.setReader r reader).readers r' = if r' = r then reader else s.readers r' := by
  simp only [setReader, Function.update_apply]

theorem Inv.setReader {live' : List Chunk} (h : Inv s live) (ring : ShmRingBuffer)
    (hstored : Stored { s.storage with ringBuffer := ring } live')
    (hbalanced : Balanced { s.storage with ringBuffer := ring } live'
      ((s.setRing ring).setReader r reader).debt)
    (hsub : reader.inbox.flatten ++ reader.toGet ⊆
      (s.readers r).inbox.flatten ++ (s.readers r).toGet)
    (htouch : reader.toTouch ⊆ reader.toGet) :
    Inv ((s.setRing ring).setReader r reader) live' where
  stored := hstored
  balanced := hbalanced
  held := by
    intro f hf
    rcases hf with ⟨r', hr', hf⟩ | hf
    · refine h.held f (.inl ⟨r', hr', ?_⟩)
      rw [readers_setReader] at hf
      split at hf
      · rename_i heq
        exact heq ▸ hsub hf
      · exact hf
    · exact h.held f (.inr hf)
  touches := by
    intro r' hr'
    rw [readers_setReader]
    split
    · exact htouch
    · exact h.touches r' hr'
  cached := h.cached
  found := h.found
  suffix := h.suffix
  positive := h.positive
  small := h.small

theorem Inv.receive {refs : List SentRef} {inbox : List (List SentRef)} (h : Inv s live)
    (hr : r < s.storage.nReaders) (hreader : s.readers r = ⟨refs :: inbox, [], []⟩) :
    Inv (s.setReader r ⟨inbox, refs, refs⟩) live := by
  have hdebt : (s.setReader r ⟨inbox, refs, refs⟩).debt = s.debt := by
    funext i
    have hsplit : (refs.map (SentRef.debt i)).sum =
        (refs.map (SentRef.touchDebt i)).sum + (refs.map (SentRef.getDebt i)).sum :=
      List.sum_map_add
    refine (debt_setReader (k := 0) i _ s.storage.ringBuffer hr ?_).symm
    rw [hreader]
    simp only [ShmReader.debt, List.flatten_cons, List.map_append, List.sum_append, List.map_nil,
      List.sum_nil]
    omega
  refine h.setReader s.storage.ringBuffer h.stored ?_ ?_ (List.Subset.refl _)
  · exact hdebt ▸ h.balanced
  · rw [hreader]
    intro f hf
    simp only [List.flatten_cons, List.mem_append, List.append_nil] at hf ⊢
    exact hf.symm

variable {f : SentRef} {inbox : List (List SentRef)} {toTouch toGet : List SentRef}

theorem Inv.readerTouch (h : Inv s live) (hr : r < s.storage.nReaders)
    (hreader : s.readers r = ⟨inbox, f :: toTouch, toGet⟩)
    (hagree : s.storage.ringBuffer.readerCount f.ref.address ≥ s.storage.nReaders ↔
      f.counted = true)
    (hmax : s.storage.ringBuffer.readerCount f.ref.address + 1 < 2 ^ 31) :
    ∃ s' live', Op.step s (.readerTouch r) = .ok s' ∧ Inv s' live' := by
  have htouches := h.touches r hr
  rw [hreader] at htouches
  have hget : f ∈ toGet := htouches List.mem_cons_self
  have hunder : f ∈ (s.readers r).inbox.flatten ++ (s.readers r).toGet := by
    rw [hreader]
    exact List.mem_append_right _ hget
  obtain ⟨key, hkey⟩ := h.held f (.inl ⟨r, hr, hunder⟩)
  have howed : 0 < s.debt f.ref.monotonicId :=
    Nat.pos_of_ne_zero (h.owed_iff.mp (.inl ⟨r, hr, f, hunder, rfl⟩))
  obtain ⟨ring, live', hok, hstored, hbalanced⟩ := h.stored.touchReader h.balanced hkey hmax
    fun _ => howed
  have hdebt : ((s.setRing ring).setReader r ⟨inbox, toTouch, toGet⟩).debt = fun i =>
      s.debt i - if s.storage.ringBuffer.readerCount f.ref.address ≥ s.storage.nReaders ∧
        i = f.ref.monotonicId then 1 else 0 := by
    funext i
    have hpay := debt_setReader (k := f.touchDebt i) i
      ⟨inbox, toTouch, toGet⟩ ring hr (by
        rw [hreader]
        simp only [ShmReader.debt, List.map_cons, List.sum_cons]
        omega)
    simp only [hagree]
    rw [SentRef.touchDebt] at hpay
    omega
  refine ⟨(s.setRing ring).setReader r ⟨inbox, toTouch, toGet⟩, live', ?_,
    h.setReader ring hstored (hdebt ▸ hbalanced) ?_ ?_⟩
  · simp only [Op.step, hreader, hok, Result.ok_bind]
    rfl
  · rw [hreader]
    exact List.Subset.refl _
  · exact fun g hg => htouches (List.mem_cons_of_mem f hg)

theorem Inv.readerGet (h : Inv s live) (hr : r < s.storage.nReaders)
    (hreader : s.readers r = ⟨inbox, [], f :: toGet⟩)
    (hmax : s.storage.ringBuffer.readerCount f.ref.address + 1 < 2 ^ 31) :
    ∃ s' live', Op.step s (.readerGet r) = .ok s' ∧ Inv s' live' := by
  have hunder : f ∈ (s.readers r).inbox.flatten ++ (s.readers r).toGet := by
    rw [hreader]
    exact List.mem_append_right _ List.mem_cons_self
  obtain ⟨key, hkey⟩ := h.held f (.inl ⟨r, hr, hunder⟩)
  have howed : 0 < s.debt f.ref.monotonicId :=
    Nat.pos_of_ne_zero (h.owed_iff.mp (.inl ⟨r, hr, f, hunder, rfl⟩))
  obtain ⟨data, ring, live', hok, hstored, hbalanced⟩ := h.stored.get h.balanced hkey hmax howed
  have hdebt : ((s.setRing ring).setReader r ⟨inbox, [], toGet⟩).debt = fun i =>
      s.debt i - if i = f.ref.monotonicId then 1 else 0 := by
    funext i
    have hpay := debt_setReader (k := f.getDebt i) i
      ⟨inbox, [], toGet⟩ ring hr (by
        rw [hreader]
        simp only [ShmReader.debt, List.map_cons, List.sum_cons]
        omega)
    rw [SentRef.getDebt] at hpay
    omega
  refine ⟨(s.setRing ring).setReader r ⟨inbox, [], toGet⟩, live', ?_,
    h.setReader ring hstored (hdebt ▸ hbalanced) ?_ nofun⟩
  · simp only [Op.step, hreader, hok, Result.ok_bind]
    rfl
  · rw [hreader]
    intro g hg
    rcases List.mem_append.mp hg with hg | hg
    · exact List.mem_append_left _ hg
    · exact List.mem_append_right _ (List.mem_cons_of_mem f hg)

end Readers

/-- The next step of a party is this one. -/
def Op.Enabled (s : ShmSystem κ) : Op κ → Prop
  | .request _ => s.toTouch = [] ∧ s.toSend = [] ∧ s.built = []
  | .senderTouch => s.toTouch ≠ []
  | .senderItem => s.toTouch = [] ∧ s.toSend ≠ []
  | .send => s.toTouch = [] ∧ s.toSend = []
  | .receive r => r < s.storage.nReaders ∧ (s.readers r).inbox ≠ [] ∧
      (s.readers r).toTouch = [] ∧ (s.readers r).toGet = []
  | .readerTouch r => r < s.storage.nReaders ∧ (s.readers r).toTouch ≠ []
  | .readerGet r => r < s.storage.nReaders ∧ (s.readers r).toTouch = [] ∧
      (s.readers r).toGet ≠ []

/-- A reader's touch counts exactly if the sender's touch of the same reference did, and neither the
ids nor the counts of the four header bytes run out. -/
def Op.Agrees (s : ShmSystem κ) : Op κ → Prop
  | .senderItem => s.storage.ringBuffer.metadata.size + 1 < idMax
  | .readerTouch r => ∀ f ∈ (s.readers r).toTouch.head?,
      (s.storage.ringBuffer.readerCount f.ref.address ≥ s.storage.nReaders ↔ f.counted = true) ∧
      s.storage.ringBuffer.readerCount f.ref.address + 1 < 2 ^ 31
  | .readerGet r => ∀ f ∈ (s.readers r).toGet.head?,
      s.storage.ringBuffer.readerCount f.ref.address + 1 < 2 ^ 31
  | _ => True

def Op.Allowed (s : ShmSystem κ) (op : Op κ) : Prop := op.Enabled s ∧ op.Agrees s

instance (s : ShmSystem κ) : (op : Op κ) → Decidable (op.Enabled s)
  | .request _ => decidable_of_iff (s.toTouch.isEmpty ∧ s.toSend.isEmpty ∧ s.built.isEmpty)
      (by simp [Op.Enabled])
  | .senderTouch => decidable_of_iff (¬ s.toTouch.isEmpty) (by simp [Op.Enabled])
  | .senderItem => decidable_of_iff (s.toTouch.isEmpty ∧ ¬ s.toSend.isEmpty)
      (by simp [Op.Enabled])
  | .send => decidable_of_iff (s.toTouch.isEmpty ∧ s.toSend.isEmpty) (by simp [Op.Enabled])
  | .receive r => decidable_of_iff (r < s.storage.nReaders ∧ ¬ (s.readers r).inbox.isEmpty ∧
      (s.readers r).toTouch.isEmpty ∧ (s.readers r).toGet.isEmpty) (by simp [Op.Enabled])
  | .readerTouch r => decidable_of_iff (r < s.storage.nReaders ∧ ¬ (s.readers r).toTouch.isEmpty)
      (by simp [Op.Enabled])
  | .readerGet r => decidable_of_iff (r < s.storage.nReaders ∧ (s.readers r).toTouch.isEmpty ∧
      ¬ (s.readers r).toGet.isEmpty) (by simp [Op.Enabled])

instance (s : ShmSystem κ) : (op : Op κ) → Decidable (op.Agrees s)
  | .senderItem => inferInstanceAs (Decidable (_ < _))
  | .readerTouch r => inferInstanceAs (Decidable (∀ f ∈ (s.readers r).toTouch.head?,
      (s.storage.ringBuffer.readerCount f.ref.address ≥ s.storage.nReaders ↔ f.counted = true) ∧
      s.storage.ringBuffer.readerCount f.ref.address + 1 < 2 ^ 31))
  | .readerGet r => inferInstanceAs (Decidable (∀ f ∈ (s.readers r).toGet.head?,
      s.storage.ringBuffer.readerCount f.ref.address + 1 < 2 ^ 31))
  | .request _ => isTrue trivial
  | .senderTouch => isTrue trivial
  | .send => isTrue trivial
  | .receive _ => isTrue trivial

instance (s : ShmSystem κ) (op : Op κ) : Decidable (op.Allowed s) :=
  inferInstanceAs (Decidable (_ ∧ _))

theorem Inv.step (h : Inv s live) {op : Op κ} (hop : op.Allowed s) :
    ∃ s' live', op.step s = .ok s' ∧ Inv s' live' := by
  obtain ⟨henabled, hagrees⟩ := hop
  cases op with
  | request items =>
    obtain ⟨htouch, hsend, hbuilt⟩ := henabled
    refine ⟨s.newRequest items, live, ?_, h.request items hsend⟩
    simp only [Op.step, htouch, hsend, hbuilt]
  | senderTouch =>
    obtain ⟨p, ps, htouch⟩ := List.exists_cons_of_ne_nil henabled
    refine ⟨{ s with storage := s.storage.touch p.key, toTouch := ps }, live, ?_,
      h.senderTouch htouch⟩
    simp only [Op.step, htouch]
  | senderItem =>
    obtain ⟨p, ps, hsend⟩ := List.exists_cons_of_ne_nil henabled.2
    exact h.senderItem henabled.1 hsend hagrees
  | send =>
    refine ⟨s.deliver, live, ?_, h.send henabled.2⟩
    simp only [Op.step, henabled.1, henabled.2]
  | receive r =>
    obtain ⟨hr, hinbox, htouch, hget⟩ := henabled
    obtain ⟨refs, inbox, hinbox⟩ := List.exists_cons_of_ne_nil hinbox
    have hreader : s.readers r = ⟨refs :: inbox, [], []⟩ := calc
      s.readers r = ⟨(s.readers r).inbox, (s.readers r).toTouch, (s.readers r).toGet⟩ := rfl
      _ = ⟨refs :: inbox, [], []⟩ := by rw [hinbox, htouch, hget]
    refine ⟨s.setReader r ⟨inbox, refs, refs⟩, live, ?_, h.receive hr hreader⟩
    simp only [Op.step, hreader]
  | readerTouch r =>
    obtain ⟨hr, htouch⟩ := henabled
    obtain ⟨f, toTouch, htouch⟩ := List.exists_cons_of_ne_nil htouch
    obtain ⟨hagree, hmax⟩ := hagrees f (by rw [htouch]; rfl)
    exact h.readerTouch hr (by rw [← htouch]) hagree hmax
  | readerGet r =>
    obtain ⟨hr, htouch, hget⟩ := henabled
    obtain ⟨f, toGet, hget⟩ := List.exists_cons_of_ne_nil hget
    exact h.readerGet hr (by rw [← htouch, ← hget]) (hagrees f (by rw [hget]; rfl))

variable {maxObjectSize nReaders size : Nat} {buf : List UInt8}

def start (maxObjectSize nReaders size : Nat) (buf : List UInt8) : ShmSystem κ :=
  init (ShmObjectStorage.init maxObjectSize nReaders (ShmRingBuffer.init size buf))

theorem Inv.start (hn : 0 < nReaders) (hmax : maxObjectSize + mdSize < 2 ^ 31) (hsize : 0 < size)
    (hbuf : size ≤ buf.length) :
    Inv (κ := κ) (ShmSystem.start maxObjectSize nReaders size buf) [] where
  stored := by
    refine ⟨ShmRingBuffer.Inv.init hsize hbuf, ⟨fun key ref => ?_, fun id => ?_, fun id => ?_⟩, nofun⟩
    · exact iff_of_false nofun fun h => by cases h.1
    · exact iff_of_false (by rintro ⟨_, h⟩; cases h) (by rintro ⟨_, h, -⟩; cases h)
    · exact iff_of_false (by rintro ⟨_, h⟩; cases h) (by rintro ⟨_, h, -⟩; cases h)
  balanced := nofun
  held := by
    rintro f (⟨r, hr, hf⟩ | hf)
    · cases hf
    · cases hf
  touches := fun r _ => List.Subset.refl _
  cached := nofun
  found := nofun
  suffix := List.suffix_rfl
  positive := hn
  small := hmax

/-- If no reader's touch counts differently from the sender's, the check is exact in every state. -/
theorem exact_of_allowed (hn : 0 < nReaders) (hmax : maxObjectSize + mdSize < 2 ^ 31)
    (hsize : 0 < size) (hbuf : size ≤ buf.length) {ops : List (Op κ)}
    (hops : Guarded Op.step (fun s op => op.Allowed s) (start maxObjectSize nReaders size buf) ops) :
    (∃ s, runSteps Op.step (start maxObjectSize nReaders size buf) ops = .ok s) ∧
      Throughout Op.step Exact (start maxObjectSize nReaders size buf) ops := by
  have hstart : ∃ live, Inv (κ := κ) (start maxObjectSize nReaders size buf) live :=
    ⟨[], Inv.start hn hmax hsize hbuf⟩
  have hstep : ∀ (s : ShmSystem κ) (op : Op κ), (∃ live, Inv s live) → op.Allowed s →
      ∃ s', op.step s = .ok s' ∧ ∃ live, Inv s' live := by
    rintro s op ⟨live, h⟩ hop
    obtain ⟨s', live', hok, h'⟩ := h.step hop
    exact ⟨s', hok, live', h'⟩
  constructor
  · obtain ⟨s, hrun, -⟩ := run_ok_of_inv hstep hstart hops
    exact ⟨s, hrun⟩
  · refine throughout_of_inv (fun s op s' (h : ∃ live, Inv s live) hop hok => ?_)
      (fun s h => ?_) hstart hops
    · obtain ⟨s'', hok', h'⟩ := hstep s op h hop
      rw [hok] at hok'
      cases hok'
      exact h'
    · obtain ⟨live, h⟩ := h
      exact h.exact

/-- Two readers and a buffer for two objects; the item of the second request is found by the
sender's touch after both readers got it. -/
def twice : List (Op Nat) :=
  let item : Nat × Serialized := (7, ⟨[1], [2, 3]⟩)
  [.request [item], .senderTouch, .senderItem, .send, .receive 0, .readerTouch 0, .receive 1,
    .readerTouch 1, .readerGet 1, .readerGet 0, .request [item], .senderTouch, .senderItem, .send,
    .receive 1, .readerTouch 1, .readerGet 1, .receive 0, .readerTouch 0, .readerGet 0]

theorem exact_twice : (∃ s, runSteps Op.step (start 16 2 48 (List.replicate 48 0)) twice = .ok s) ∧
    Throughout Op.step Exact (start 16 2 48 (List.replicate 48 0)) twice :=
  exact_of_allowed (by decide) (by decide) (by decide) (by decide) (by decide +kernel)

/-- The same new item twice in one request. The gets of reader 0 bring the count to `n_readers`, and
the touches of reader 1 count although the sender's did not. -/
def sameItemTwice : List (Op Nat) :=
  let item : Nat × Serialized := (7, ⟨[1], [2, 3]⟩)
  [.request [item, item], .senderTouch, .senderTouch, .senderItem, .senderItem, .send, .receive 0,
    .readerTouch 0, .readerTouch 0, .readerGet 0, .readerGet 0, .receive 1, .readerTouch 1,
    .readerTouch 1]

def freedEarly (s : ShmSystem Nat) : Bool :=
  s.storage.keyIndex.get? 7 = some ⟨0, 0⟩ ∧
    s.storage.defaultIsFreeCheck 0 (s.storage.ringBuffer.accessBuf 0).1 = true ∧
    s.storage.nReaders = 2 ∧ ((s.readers 1).toGet.map (·.ref.monotonicId)) = [0, 0]

theorem not_exact_sameItemTwice : ∃ s,
    runSteps Op.step (start 16 2 48 (List.replicate 48 0)) sameItemTwice = .ok s ∧ ¬ Exact s ∧
      Guarded Op.step (fun s op => op.Enabled s) (start 16 2 48 (List.replicate 48 0))
        sameItemTwice := by
  obtain ⟨s, hrun, hfreed⟩ := Result.exists_of_holds
    (show (runSteps Op.step (start 16 2 48 (List.replicate 48 0)) sameItemTwice).holds freedEarly
      = true by decide +kernel)
  obtain ⟨hkey, hfree, hn, hget⟩ := of_decide_eq_true hfreed
  refine ⟨s, hrun, fun hexact => ?_, by decide +kernel⟩
  refine (hexact.isFree 7 ⟨0, 0⟩ hkey).mp hfree (.inl ⟨1, by omega, ?_⟩)
  have hmem : 0 ∈ (s.readers 1).toGet.map (·.ref.monotonicId) := by
    rw [hget]
    exact List.mem_cons_self
  obtain ⟨f, hf, hid⟩ := List.mem_map.mp hmem
  exact ⟨f, List.mem_append_right _ hf, hid⟩

end ShmSystem

end Vllm
