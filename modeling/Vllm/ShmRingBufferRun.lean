import Vllm.ShmRingBufferLaws

namespace Vllm

namespace ShmRingBuffer

variable {s s' : ShmRingBuffer} {live : List Chunk}

theorem Core.bufferEndReset (h : Core s live) {size : Int} (hsize : 0 < size)
    (hspace : s.bufferEndReset size + size - s.dataBufferStart ≤ s.dataBufferSize) :
    s.dataBufferEnd ≤ s.bufferEndReset size ∧
      s.bufferEndReset size % s.dataBufferSize + size ≤ s.dataBufferSize ∧
      (live = [] → s.bufferEndReset size = s.dataBufferEnd) := by
  have hpos : (0 : Int) < s.dataBufferSize := by exact_mod_cast h.pos
  have hle := h.laid.le
  unfold ShmRingBuffer.bufferEndReset at hspace ⊢
  split
  · rename_i hcross
    rw [if_pos hcross] at hspace
    have hlt := Int.lt_ediv_add_one_mul_self s.dataBufferEnd hpos
    refine ⟨Int.le_of_lt hlt, ?_, fun hnil => ?_⟩
    · rw [Int.mul_emod_left]
      omega
    · -- an empty buffer starts at zero, where a chunk only crosses the end if it is too long
      have hstart := h.empty hnil
      have hend : s.dataBufferStart = s.dataBufferEnd := by
        have := h.laid
        rw [hnil] at this
        exact this
      rw [← hend, hstart, Int.zero_ediv] at hspace
      omega
  · rename_i hfit
    exact ⟨Int.le_refl _, by omega, fun _ => rfl⟩

def newChunk (s : ShmRingBuffer) (id : Nat) (address size : Int) : Chunk where
  id
  address
  size := size.toNat
  bytes := s.bytesAt address size.toNat

theorem take_header {l : List UInt8} {n : Nat} (hn : mdSize ≤ n) :
    l.take n = l.take idNbytes ++ (l.drop idNbytes).take idNbytes ++
      (l.drop mdSize).take (n - mdSize) := by
  have hmd : mdSize = idNbytes + idNbytes := rfl
  rw [show n = idNbytes + idNbytes + (n - mdSize) by omega, List.take_add, List.take_add,
    show idNbytes + idNbytes + (n - mdSize) - mdSize = n - mdSize by omega, hmd]

theorem header_spec (buf : List UInt8) {idBytes sizeBytes : List UInt8} {i : Nat}
    (hid : idBytes.length = idNbytes)
    (hsz : sizeBytes.length = idNbytes) (h : i + mdSize ≤ buf.length) :
    ∃ buf₁ buf₂, writeBytes buf i idBytes = .ok buf₁ ∧
      writeBytes buf₁ (i + idNbytes) sizeBytes = .ok buf₂ ∧ buf₂.length = buf.length ∧
      (∀ n, mdSize ≤ n → ∃ data, (buf₂.drop i).take n = idBytes ++ sizeBytes ++ data) ∧
      ∀ j n, j + n ≤ i ∨ i + mdSize ≤ j → (buf₂.drop j).take n = (buf.drop j).take n := by
  have hmd : mdSize = 8 := rfl
  have hnb : idNbytes = 4 := rfl
  obtain ⟨buf₁, hok₁, hlen₁, hread₁, hframe₁⟩ := writeBytes_spec buf idBytes (i := i)
    (by omega)
  obtain ⟨buf₂, hok₂, hlen₂, hread₂, hframe₂⟩ := writeBytes_spec buf₁ sizeBytes
    (i := i + idNbytes) (by omega)
  rw [hid] at hread₁
  rw [hsz] at hread₂
  refine ⟨buf₁, buf₂, hok₁, hok₂, by omega, fun n hn =>
    ⟨((buf₂.drop i).drop mdSize).take (n - mdSize), (take_header hn).trans ?_⟩, fun j n hj => ?_⟩
  · rw [hframe₂ i idNbytes (.inl (Nat.le_refl _)), hread₁, List.drop_drop, hread₂]
  · rw [hframe₂ j n (by omega), hframe₁ j n (by omega)]

def allocated (s : ShmRingBuffer) (buf : List UInt8) (size : Int) : ShmRingBuffer :=
  { s with
    buf
    metadata := s.metadata.set (s.monotonicIdEnd % idMax) (s.bufferEndReset size)
    dataBufferEnd := s.bufferEndReset size + size
    monotonicIdEnd := (s.monotonicIdEnd + 1) % idMax }

/-- Between the two buffers the header of the chunk `c` was written, and nothing outside of `c`. -/
structure Wrote (s s' : ShmRingBuffer) (c : Chunk) : Prop where
  length : s'.buf.length = s.buf.length
  headed : c.Headed
  frame : ∀ d : Chunk, Apart s.dataBufferSize d c → s'.bytesAt d.address d.size = s.bytesAt d.address d.size

theorem allocateBuf_wrote {size : Int} (hB : 0 < s.dataBufferSize) (hbuf : s.dataBufferSize ≤ s.buf.length)
    (hidlt : s.monotonicIdEnd < idMax) (hpos : 0 < size) (hsize : size + mdSize < 2 ^ 31)
    (hspace : s.bufferEndReset (size + mdSize) + (size + mdSize) - s.dataBufferStart ≤ s.dataBufferSize)
    (hfit : s.bufferEndReset (size + mdSize) % s.dataBufferSize + (size + mdSize) ≤ s.dataBufferSize) :
    ∃ s' buf, s' = s.allocated buf (size + mdSize) ∧
      s.allocateBuf size = .ok ((s.bufferEndReset (size + mdSize), s.monotonicIdEnd), s') ∧
      Wrote s s' (s'.newChunk s.monotonicIdEnd (s.bufferEndReset (size + mdSize)) (size + mdSize)) := by
  have hmd : mdSize = 8 := rfl
  obtain ⟨idBytes, hidok, hidlen, hid⟩ := int2byte_spec (n := s.monotonicIdEnd) (by omega)
    (by exact_mod_cast hidlt)
  obtain ⟨sizeBytes, hszok, hszlen, hsz⟩ := int2byte_spec (n := size + mdSize) (by omega) hsize
  have hnonneg := Int.emod_nonneg (s.bufferEndReset (size + mdSize))
    (show (s.dataBufferSize : Int) ≠ 0 by omega)
  obtain ⟨i, hi⟩ : ∃ i : Nat, s.bufferEndReset (size + mdSize) % s.dataBufferSize = i :=
    ⟨_, (Int.toNat_of_nonneg hnonneg).symm⟩
  obtain ⟨buf₁, buf₂, hok₁, hok₂, hlen, hread, hframe⟩ := header_spec s.buf (i := i) hidlen
    hszlen (by omega)
  refine ⟨_, buf₂, rfl, ?_, hlen, ?_, fun d hd => ?_⟩
  · unfold ShmRingBuffer.allocateBuf
    rw [Result.ensure, if_pos hpos, Result.ok_bind]
    simp only [if_neg (Int.not_lt.mpr hspace), hidok, hi, Int.toNat_natCast, hok₁, hszok, hok₂,
      Result.ok_bind]
    rfl
  · obtain ⟨data, hdata⟩ := hread (size + mdSize).toNat (by omega)
    refine ⟨idBytes, sizeBytes, data, ?_, hidlen, hid, hszlen, ?_⟩
    · rw [← hdata]
      simp only [newChunk, bytesAt, allocated, hi, Int.toNat_natCast]
    · rw [hsz]
      exact (Int.toNat_of_nonneg (by omega)).symm
  · obtain ⟨j, hj⟩ : ∃ j : Nat, d.address % s.dataBufferSize = j :=
      ⟨_, (Int.toNat_of_nonneg (Int.emod_nonneg _ (by omega))).symm⟩
    simp only [Apart, newChunk, hi, hj, Int.toNat_of_nonneg (show 0 ≤ size + mdSize by omega)] at hd
    simp only [allocated, bytesAt, hj, Int.toNat_natCast]
    exact hframe j d.size (by omega)

theorem Core.ids_append (h : Core s live) (c : Chunk) (hid : c.id = s.monotonicIdEnd) :
    (live ++ [c]).map Chunk.id = Cyclic.interval idMax s.monotonicIdStart (live.length + 1) := by
  rw [List.map_append, h.ids, Cyclic.interval_succ, ← h.idEnd, ← hid]
  rfl

theorem Core.new_id (h : Core s live) (hfew : live.length + 1 < idMax) : s.monotonicIdEnd ∉ live.map Chunk.id := by
  have hnodup := Cyclic.nodup_interval (s := s.monotonicIdStart) hfew.le
  rw [Cyclic.interval_succ, ← h.ids, ← h.idEnd, List.nodup_append] at hnodup
  exact fun hmem => hnodup.2.2 _ hmem _ List.mem_cons_self rfl

theorem Core.metadata_set {c : Chunk} (h : Core s live) (hnew : c.id ∉ live.map Chunk.id) (k : Nat)
    (a : Int) : (s.metadata.set c.id c.address).get? k = some a ↔
      ∃ d ∈ live ++ [c], d.id = k ∧ d.address = a := by
  simp only [Dict.get?_set, List.mem_append, List.mem_singleton]
  split
  · rename_i hk
    rw [Option.some_inj]
    constructor
    · exact fun ha => ⟨c, .inr rfl, hk, ha⟩
    · rintro ⟨d, hd | rfl, hdid, hda⟩
      · exact absurd (hdid.trans hk.symm ▸ List.mem_map_of_mem hd) hnew
      · exact hda
  · rename_i hk
    rw [h.metadata]
    constructor
    · rintro ⟨d, hd, hrest⟩
      exact ⟨d, .inl hd, hrest⟩
    · rintro ⟨d, hd | rfl, hdid, hda⟩
      · exact ⟨d, hd, hdid, hda⟩
      · exact absurd hdid hk

theorem Core.allocateBuf (h : Core s live) {size : Int} (hpos : 0 < size)
    (hsize : size + mdSize < 2 ^ 31) (hfew : live.length + 1 < idMax)
    (hspace : s.bufferEndReset (size + mdSize) + (size + mdSize) - s.dataBufferStart ≤
      s.dataBufferSize) :
    ∃ s', s.allocateBuf size = .ok ((s.bufferEndReset (size + mdSize), s.monotonicIdEnd), s') ∧
      Core s' (live ++
        [s'.newChunk s.monotonicIdEnd (s.bufferEndReset (size + mdSize)) (size + mdSize)]) ∧
      s'.dataBufferStart = s.dataBufferStart ∧ s'.dataBufferSize = s.dataBufferSize := by
  obtain ⟨he, hfit, hfirst⟩ := h.bufferEndReset (by omega) hspace
  have hB := h.pos
  have hmd : mdSize = 8 := rfl
  have hidlt : s.monotonicIdEnd < idMax := by
    rw [h.idEnd]
    exact Nat.mod_lt _ (by decide)
  obtain ⟨s', buf, hs', hok, hwrote⟩ := allocateBuf_wrote hB h.buf hidlt hpos hsize hspace hfit
  refine ⟨s', hok, ?_, by rw [hs']; rfl, by rw [hs']; rfl⟩
  obtain ⟨c, hc⟩ : ∃ c, c =
      s'.newChunk s.monotonicIdEnd (s.bufferEndReset (size + mdSize)) (size + mdSize) := ⟨_, rfl⟩
  rw [← hc] at hwrote ⊢
  have hid : c.id = s.monotonicIdEnd := by rw [hc]; rfl
  have haddr : c.address = s.bufferEndReset (size + mdSize) := by rw [hc]; rfl
  have hcsize : (c.size : Int) = size + mdSize := by
    rw [hc]
    exact Int.toNat_of_nonneg (by omega)
  have hlaid : Laid s.dataBufferSize s.dataBufferStart (live ++ [c])
      (s.bufferEndReset (size + mdSize) + c.size) :=
    h.laid.append hfirst he (by rw [haddr]) (by omega) (by omega)
  have hapart := hlaid.pairwise (by omega)
  constructor
  case pos => rwa [hs']
  case buf =>
    rw [hwrote.length, hs']
    exact h.buf
  case laid =>
    rw [hcsize] at hlaid
    rwa [hs']
  case start =>
    rw [hs']
    exact h.start
  case window => rwa [hs']
  case empty => exact fun hnil => absurd hnil (by simp)
  case ids =>
    rw [h.ids_append c hid, hs', List.length_append, List.length_singleton]
    rfl
  case idStart =>
    rw [hs']
    exact h.idStart
  case idEnd =>
    rw [hs', List.length_append, List.length_singleton]
    simp only [allocated]
    rw [h.idEnd, Nat.mod_add_mod, Nat.add_assoc]
  case few =>
    rw [List.length_append, List.length_singleton]
    exact hfew
  case metadata =>
    have hset := h.metadata_set (c := c) (hid ▸ h.new_id hfew)
    rw [hid, haddr] at hset
    rw [hs']
    simp only [allocated, Nat.mod_eq_of_lt hidlt]
    exact hset
  case intact =>
    intro d hd
    rcases List.mem_append.mp hd with hd | hd
    · have hd' := (List.pairwise_append.mp hapart).2.2 d hd c List.mem_cons_self
      rw [hwrote.frame d hd', h.intact d hd]
    · rw [List.mem_singleton.mp hd, hc]
      rfl
  case headed =>
    intro d hd
    rcases List.mem_append.mp hd with hd | hd
    · exact h.headed d hd
    · rw [List.mem_singleton.mp hd]
      exact hwrote.headed

theorem Core.rebase (h : Core s live) : Core s.rebase live ∧
    s.rebase.dataBufferSize = s.dataBufferSize ∧
    s.rebase.monotonicIdStart = s.monotonicIdStart := by
  unfold ShmRingBuffer.rebase
  split
  · rename_i hge
    refine ⟨?_, rfl, rfl⟩
    exact { h with
      laid := h.laid.shift
      start := by simp only; omega
      window := by
        have := h.window
        simp only
        omega
      empty := fun hnil => by
        have := h.empty hnil
        have := h.pos
        omega }
  · exact ⟨h, rfl, rfl⟩

structure Inv (s : Tracked) : Prop where
  core : Core s.ring s.live
  start_lt : s.ring.dataBufferStart < s.ring.dataBufferSize

theorem freeCount_le (isFreeFn : Nat → List UInt8 → Bool) (nbytes : Int) (live : List Chunk)
    (freedBytes : Int) : freeCount isFreeFn nbytes live freedBytes ≤ live.length := by
  induction live generalizing freedBytes with
  | nil => exact Nat.le_refl 0
  | cons c live ih =>
    unfold freeCount
    split
    · exact Nat.succ_le_succ (ih _)
    · exact Nat.zero_le _

theorem Inv.freeBuf {t : Tracked} (h : Inv t) (isFreeFn : Nat → List UInt8 → Bool)
    (nbytes : Option Int) {k : Nat}
    (hk : k = freeCount isFreeFn (nbytes.getD t.ring.dataBufferSize) t.live 0) :
    ∃ s', t.ring.freeBuf isFreeFn nbytes = ((t.live.take k).map Chunk.id, s') ∧
      s'.dataBufferSize = t.ring.dataBufferSize ∧ Inv ⟨s', t.live.drop k⟩ := by
  obtain ⟨s₁, hs₁⟩ : ∃ s₁, s₁ = freeLoop isFreeFn (nbytes.getD t.ring.dataBufferSize)
      t.ring.metadata.size t.ring 0 := ⟨_, rfl⟩
  have hloop : Frees t.ring s₁ t.live k := by
    rw [hs₁, hk]
    exact h.core.freeLoop h.core.size.ge 0
  obtain ⟨hcore, hsize, hids⟩ := hloop.core.rebase
  have hkn : k ≤ t.live.length := hk ▸ freeCount_le _ _ _ _
  have hlt : s₁.rebase.dataBufferStart < s₁.rebase.dataBufferSize := by
    have hle := hloop.core.laid.le
    have hwindow := h.core.window
    have hstart := h.start_lt
    have hstop := hloop.stop
    have hsame := hloop.size
    unfold ShmRingBuffer.rebase
    split
    · simp only
      omega
    · omega
  refine ⟨s₁.rebase, ?_, hsize.trans hloop.size, hcore, hlt⟩
  have hfreed : (t.live.take k).map Chunk.id =
      Cyclic.interval idMax t.ring.monotonicIdStart k := by
    rw [List.map_take, h.core.ids, Cyclic.take_interval hkn]
  rw [hfreed, Cyclic.interval_eq_range h.core.idStart (hkn.trans_lt h.core.few), ← hloop.idStart,
    ← hids]
  simp only [ShmRingBuffer.freeBuf, ← hs₁]
  split <;> rfl

theorem filter_eq_drop {ids : List Nat} {k : Nat} (hnodup : (live.map Chunk.id).Nodup)
    (hids : ids = (live.take k).map Chunk.id) : live.filter (·.id ∉ ids) = live.drop k := by
  have hsplit := List.take_append_drop k live
  rw [← hsplit, List.map_append, List.nodup_append] at hnodup
  conv_lhs => rw [← hsplit]
  rw [List.filter_append, List.filter_eq_nil_iff.mpr, List.nil_append, List.filter_eq_self.mpr]
  · intro c hc
    rw [decide_eq_true_eq, hids]
    exact fun hmem => hnodup.2.2 c.id hmem c.id (List.mem_map_of_mem hc) rfl
  · intro c hc
    rw [decide_eq_true_eq, not_not, hids]
    exact List.mem_map_of_mem hc

/-- What callers of `allocate_buf` may ask for: the size fits the header, and the ids do not run
out. -/
def Op.Allowed (s : Tracked) : Op → Prop
  | .allocateBuf size => size + mdSize < 2 ^ 31 ∧ s.live.length + 1 < idMax
  | .freeBuf _ _ => True

instance (t : Tracked) : (op : Op) → Decidable (op.Allowed t)
  | .allocateBuf _ => inferInstanceAs (Decidable (_ ∧ _))
  | .freeBuf _ _ => inferInstanceAs (Decidable True)

theorem allocateBuf_nonpos {size : Int} (hsize : size ≤ 0) :
    s.allocateBuf size = .error (.assertionError "Size must be greater than 0") := by
  unfold ShmRingBuffer.allocateBuf
  rw [Result.ensure, if_neg (Int.not_lt.mpr hsize)]
  rfl

theorem allocateBuf_full {size : Int} (hpos : 0 < size)
    (hfull : s.dataBufferSize < s.bufferEndReset (size + mdSize) + (size + mdSize) -
      s.dataBufferStart) :
    s.allocateBuf size = .error (.memoryError
      "Not enough space in the data buffer, try calling free_buf() to free up space") := by
  unfold ShmRingBuffer.allocateBuf
  rw [Result.ensure, if_pos hpos, Result.ok_bind]
  exact if_pos hfull

theorem Inv.step {t : Tracked} (h : Inv t) {op : Op} (hop : op.Allowed t) : Inv (op.step t) := by
  cases op with
  | allocateBuf size =>
    by_cases hpos : 0 < size
    · by_cases hspace : t.ring.bufferEndReset (size + mdSize) + (size + mdSize) -
          t.ring.dataBufferStart ≤ t.ring.dataBufferSize
      · obtain ⟨s', hok, hcore, hstart, hsize⟩ := h.core.allocateBuf hpos hop.1 hop.2 hspace
        simp only [Op.step, hok]
        refine ⟨hcore, ?_⟩
        simp only [hstart, hsize]
        exact h.start_lt
      · simp only [Op.step, allocateBuf_full hpos (Int.not_le.mp hspace)]
        exact h
    · simp only [Op.step, allocateBuf_nonpos (Int.not_lt.mp hpos)]
      exact h
  | freeBuf isFreeFn nbytes =>
    obtain ⟨s', hok, -, hinv⟩ := h.freeBuf isFreeFn nbytes rfl
    simp only [Op.step, hok]
    rw [filter_eq_drop h.core.nodup rfl]
    exact hinv

/-- What the ring buffer promises about the chunks that are allocated and not freed. -/
structure Safe (t : Tracked) : Prop where
  inside : ∀ c ∈ t.live, 0 ≤ c.address % t.ring.dataBufferSize ∧
    c.address % t.ring.dataBufferSize + c.size ≤ t.ring.dataBufferSize
  disjoint : t.live.Pairwise (Apart t.ring.dataBufferSize)
  unchanged : ∀ c ∈ t.live, t.ring.bytesAt c.address c.size = c.bytes
  header : ∀ c ∈ t.live, t.ring.accessBuf c.address =
    (c.bytes.drop mdSize, (c.id : Int), (c.size : Int))
  ids : t.live.map Chunk.id = Cyclic.interval idMax t.ring.monotonicIdStart t.live.length ∧
    t.ring.monotonicIdEnd = (t.ring.monotonicIdStart + t.live.length) % idMax
  metadata : ∀ i a, t.ring.metadata.get? i = some a ↔ ∃ c ∈ t.live, c.id = i ∧ c.address = a
  window : t.ring.dataBufferEnd - t.ring.dataBufferStart ≤ t.ring.dataBufferSize
  freed : ∀ isFreeFn nbytes, ∃ k s', k = freeCount isFreeFn (nbytes.getD t.ring.dataBufferSize) t.live 0 ∧
    t.ring.freeBuf isFreeFn nbytes = ((t.live.take k).map Chunk.id, s') ∧
    ((Op.freeBuf isFreeFn nbytes).step t).live = t.live.drop k ∧
    0 ≤ s'.dataBufferStart ∧ s'.dataBufferStart < s'.dataBufferSize

theorem Inv.safe {t : Tracked} (h : Inv t) : Safe t where
  inside := by
    intro c hc
    obtain ⟨u, -, -, haddr, hfit, -⟩ := h.core.laid.mem hc
    have hpos := h.core.pos
    exact ⟨Int.emod_nonneg _ (by omega), haddr ▸ hfit⟩
  disjoint := h.core.laid.pairwise (by have := h.core.window; omega)
  unchanged := h.core.intact
  header := fun _ hc => h.core.accessBuf hc
  ids := ⟨h.core.ids, h.core.idEnd⟩
  metadata := h.core.metadata
  window := h.core.window
  freed := by
    intro isFreeFn nbytes
    obtain ⟨s', hok, -, hinv⟩ := h.freeBuf isFreeFn nbytes rfl
    refine ⟨_, s', rfl, hok, ?_, hinv.core.start, hinv.start_lt⟩
    simp only [Op.step, hok]
    exact filter_eq_drop h.core.nodup rfl

theorem Inv.init {size : Nat} {buf : List UInt8} (hsize : 0 < size) (hbuf : size ≤ buf.length) :
    Inv ⟨ShmRingBuffer.init size buf, []⟩ where
  core :=
    { pos := hsize
      buf := hbuf
      laid := rfl
      start := Int.le_refl 0
      window := Int.natCast_nonneg size
      empty := fun _ => rfl
      ids := rfl
      idStart := show 0 < idMax by decide
      idEnd := rfl
      few := show 0 < idMax by decide
      metadata := fun i a => iff_of_false nofun (by rintro ⟨c, hc, -⟩; cases hc)
      intact := nofun
      headed := nofun }
  start_lt := Int.natCast_pos.mpr hsize

/-- In every state of every run the live chunks do not overlap and are as they were allocated. -/
theorem safe_of_allowed {size : Nat} {buf : List UInt8} (hsize : 0 < size)
    (hbuf : size ≤ buf.length) {ops : List Op}
    (hops : Guarded (fun t op => .ok (op.step t)) (fun t op => op.Allowed t)
      ⟨init size buf, []⟩ ops) :
    Throughout (fun t op => .ok (op.step t)) Safe ⟨init size buf, []⟩ ops := by
  refine throughout_of_inv (fun t op t' (h : Inv t) hop hok => ?_) (fun t h => h.safe)
    (Inv.init hsize hbuf) hops
  cases hok
  exact h.step hop

/-- A buffer of 40 bytes in which the third chunk wraps around. -/
def wrapAround : List Op :=
  [.allocateBuf 8, .allocateBuf 8, .freeBuf (fun id _ => id = 0) none, .allocateBuf 8,
   .freeBuf (fun _ _ => true) (some 1)]

/-- The third chunk begins at the first byte, in front of the second one. -/
theorem safe_wrapAround : Throughout (fun t op => .ok (op.step t)) Safe
    ⟨init 40 (List.replicate 40 0), []⟩ wrapAround ∧
    ((wrapAround.take 4).foldl (fun t op => Op.step t op) ⟨init 40 (List.replicate 40 0), []⟩).live.map
      (fun c => (c.id, c.address % 40)) = [(1, 16), (2, 0)] :=
  ⟨safe_of_allowed (by decide) (by decide) (by decide +kernel), by decide +kernel⟩

end ShmRingBuffer

end Vllm
