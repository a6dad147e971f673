import Vllm.MessageQueue

namespace Vllm.MessageQueue

open ShmRingBuffer (writeBytes writeBytes_spec)

section Chunk

variable {α : Type} {c : Config} {p : Pickle α} {obj : α} {buf buf' : Bytes}

theorem fromBytesBig_digits {value size : Nat} (h : value < 256 ^ size) {k : Nat} (hk : k ≤ size) :
    fromBytesBig ((List.range k).map fun i => UInt8.ofNat (value / 256 ^ (size - 1 - i) % 256)) =
      value / 256 ^ (size - k) := by
  induction k with
  | zero => exact (Nat.div_eq_of_lt h).symm
  | succ k ih =>
    have hexp : size - k = size - (k + 1) + 1 := by omega
    have hlast : size - 1 - k = size - (k + 1) := by omega
    rw [List.range_succ, List.map_append, fromBytesBig, List.foldl_append, ← fromBytesBig,
      ih (by omega), hexp, Nat.pow_succ, ← Nat.div_div_eq_div_mul]
    simp only [List.map_cons, List.map_nil, List.foldl_cons, List.foldl_nil, UInt8.toNat_ofNat', hlast]
    rw [Nat.mod_eq_of_lt (Nat.mod_lt _ (by decide : 0 < 256)), Nat.div_add_mod]

theorem toBytesBig_spec {value size : Nat} {bs : Bytes} (h : toBytesBig value size = .ok bs) :
    bs.length = size ∧ fromBytesBig bs = value := by
  unfold toBytesBig at h
  split at h
  · rename_i hlt
    cases h
    refine ⟨by simp, ?_⟩
    rw [fromBytesBig_digits hlt (Nat.le_refl size), Nat.sub_self, Nat.pow_zero, Nat.div_one]
  · cases h

theorem slice_eq (buf : Bytes) (start len : Nat) :
    slice buf start (start + len) = (buf.drop start).take len := by
  rw [slice, List.drop_take, Nat.add_sub_cancel_left]

def applyWrites (buf : Bytes) (writes : List (Nat × Result Bytes)) : Result Bytes :=
  writes.foldlM (fun buf w => w.2 >>= writeBytes buf w.1) buf

theorem write_ok {start : Nat} {bytes : Result Bytes} (h : (bytes >>= writeBytes buf start) = .ok buf') :
    ∃ bs, bytes = .ok bs ∧ slice buf' start (start + bs.length) = bs ∧
      ∀ j n, j + n ≤ start ∨ start + bs.length ≤ j →
        (buf'.drop j).take n = (buf.drop j).take n := by
  obtain ⟨bs, hbs, hwrite⟩ := Result.bind_eq_ok.mp h
  have hle : start + bs.length ≤ buf.length := by
    unfold writeBytes at hwrite
    split at hwrite
    · assumption
    · cases hwrite
  obtain ⟨buf₁, hok, -, hread, hframe⟩ := writeBytes_spec buf bs hle
  rw [hok] at hwrite
  cases hwrite
  exact ⟨bs, hbs, (slice_eq _ _ _).trans hread, hframe⟩

def Laid (buf : Bytes) : Nat → List Bytes → Prop
  | _, [] => True
  | offset, b :: bs =>
    fromBytesBig (slice buf offset (offset + 4)) = b.length ∧
    slice buf (offset + 4) (offset + 4 + b.length) = b ∧ Laid buf (offset + 4 + b.length) bs

/-- What a reader finds in the chunk of an object. -/
def Holds (c : Config) (p : Pickle α) (obj : α) (buf : Bytes) : Prop :=
  if overflows c p obj then buf[0]? = some 1
  else buf[0]? = some 0 ∧ fromBytesBig (slice buf 1 3) = (p.allBuffers obj).length ∧
    Laid buf 3 (p.allBuffers obj)

theorem laid_bufferWrites {offset : Nat} {bs : List Bytes}
    (h : applyWrites buf (bufferWrites offset bs) = .ok buf') :
    Laid buf' offset bs ∧
      ∀ j n, j + n ≤ offset → (buf'.drop j).take n = (buf.drop j).take n := by
  induction bs generalizing buf offset with
  | nil =>
    cases h
    exact ⟨trivial, fun j n _ => rfl⟩
  | cons b bs ih =>
    simp only [applyWrites, bufferWrites, List.foldlM_cons, Result.bind_eq_ok (b := buf')] at h
    obtain ⟨buf₁, hlen, buf₂, hbuffer, h⟩ := h
    obtain ⟨lenBytes, hbytes, hlenRead, hframe₁⟩ := write_ok hlen
    obtain ⟨b', hb', hread, hframe₂⟩ := write_ok hbuffer
    cases hb'
    obtain ⟨hfour, hvalue⟩ := toBytesBig_spec hbytes
    obtain ⟨hlaid, hframe⟩ := ih h
    rw [hfour] at hlenRead hframe₁
    refine ⟨⟨?_, ?_, hlaid⟩, fun j n hj => ?_⟩
    · have hkeep : slice buf' offset (offset + 4) = slice buf₁ offset (offset + 4) := by
        rw [slice_eq, slice_eq, hframe offset 4 (by omega), hframe₂ offset 4 (.inl (by omega))]
      rw [hkeep, hlenRead, hvalue]
    · rw [slice_eq, hframe (offset + 4) b.length (Nat.le_refl _), ← slice_eq, hread]
    · rw [hframe j n (by omega), hframe₂ j n (.inl (by omega)), hframe₁ j n (.inl (by omega))]

theorem getElem?_zero_of_slice {b : UInt8} {n : Nat} (h : (buf.drop 0).take (n + 1) = [b]) :
    buf[0]? = some b := by
  cases buf with
  | nil => cases h
  | cons x xs =>
    rw [List.drop_zero, List.take_succ_cons, List.cons.injEq] at h
    rw [← h.1]
    rfl

theorem holds_chunkWrites (h : applyWrites buf (chunkWrites c p obj) = .ok buf') :
    Holds c p obj buf' := by
  unfold chunkWrites at h
  unfold Holds
  split at h
  · rename_i hover
    rw [if_pos hover]
    simp only [applyWrites, List.foldlM_cons, List.foldlM_nil, Result.bind_eq_ok (b := buf'),
      Result.pure_eq_ok] at h
    obtain ⟨buf₁, hmark, rfl⟩ := h
    obtain ⟨b, hb, hread, -⟩ := write_ok hmark
    cases hb
    exact getElem?_zero_of_slice ((slice_eq _ _ _).symm.trans hread)
  · rename_i hover
    rw [if_neg hover]
    simp only [applyWrites, List.foldlM_cons, Result.bind_eq_ok (b := buf')] at h
    obtain ⟨buf₁, hmark, buf₂, hcount, h⟩ := h
    obtain ⟨b, hb, hread, -⟩ := write_ok hmark
    cases hb
    obtain ⟨countBytes, hbytes, hcountRead, hframe₂⟩ := write_ok hcount
    obtain ⟨htwo, hvalue⟩ := toBytesBig_spec hbytes
    obtain ⟨hlaid, hframe⟩ := laid_bufferWrites h
    rw [htwo] at hcountRead hframe₂
    refine ⟨getElem?_zero_of_slice (n := 0) ?_, ?_, hlaid⟩
    · rw [hframe 0 1 (by omega), hframe₂ 0 1 (.inl (by omega))]
      exact (slice_eq _ _ _).symm.trans hread
    · have hkeep : slice buf' 1 3 = slice buf₂ 1 3 := by
        rw [slice_eq buf' 1 2, slice_eq buf₂ 1 2, hframe 1 2 (by omega)]
      rw [hkeep, ← hvalue]
      exact congrArg fromBytesBig hcountRead

end Chunk

section Invariant

variable {α : Type} (c : Config) (p : Pickle α)

def Reader.pending : Reader → Nat
  | .recv => 1
  | _ => 0

def LocalReader.taken (reader : LocalReader) : Nat := reader.dequeued.length + reader.pc.pending

def System.taken (s : System α) (r : Nat) : Nat := (s.readers r).taken

def Writer.pending : Writer α → List (List Bytes)
  | .send obj => [p.allBuffers obj]
  | _ => []

section Memory

variable (metadata : Nat → Nat → Nat) (data : Nat → Bytes) (enqueued : List α) (taken : Nat → Nat)

structure Published (i : Nat) : Prop where
  written : metadata (i % c.maxChunks) 0 = 1
  holds : ∀ obj ∈ enqueued[i]?, Holds c p obj (data (i % c.maxChunks))
  flag : ∀ r < c.nReader, metadata (i % c.maxChunks) (r + 1) = if i < taken r then 1 else 0

def Behind : Prop := ∀ r < c.nReader, enqueued.length < taken r + c.maxChunks

def Cleared : Prop := metadata (enqueued.length % c.maxChunks) 0 = 0 ∧ Behind c enqueued taken

structure Memory : Prop where
  taken_le : ∀ r < c.nReader, taken r ≤ enqueued.length
  le_taken : ∀ r < c.nReader, enqueued.length ≤ taken r + c.maxChunks
  window : ∀ i < enqueued.length, enqueued.length < i + c.maxChunks →
    Published c p metadata data enqueued taken i
  next : (c.maxChunks ≤ enqueued.length ∧
      Published c p metadata data enqueued taken (enqueued.length - c.maxChunks)) ∨
    Cleared c metadata enqueued taken
  fresh : ∀ j < c.maxChunks, enqueued.length < j → metadata j 0 = 0
  bit : ∀ j r, metadata j (r + 1) ≤ 1

def WriterOk : Writer α → Prop
  | .idle | .send _ => True
  | .readFlags _ i readCount => i ≤ c.nReader ∧ readCount ≤ i ∧
    (readCount = i → ∀ r < i, metadata (enqueued.length % c.maxChunks) (r + 1) = 1)
  | .clearWritten _ => Behind c enqueued taken
  | .fill obj writes => Cleared c metadata enqueued taken ∧
    ∀ buf, applyWrites (data (enqueued.length % c.maxChunks)) writes = .ok buf → Holds c p obj buf
  | .clearFlags obj i => Cleared c metadata enqueued taken ∧ i ≤ c.nReader ∧
    Holds c p obj (data (enqueued.length % c.maxChunks)) ∧
    ∀ r < i, metadata (enqueued.length % c.maxChunks) (r + 1) = 0

def Fits (buf : Bytes) (obj : α) : Reader → Prop
  | .readCount => overflows c p obj = false
  | .readLen left offset allBuffers => overflows c p obj = false ∧
    ∃ b rest, p.allBuffers obj = slices buf allBuffers ++ b :: rest ∧ rest.length = left ∧
      Laid buf offset (b :: rest)
  | .readBuffer left offset bufLen allBuffers => overflows c p obj = false ∧
    ∃ b rest, p.allBuffers obj = slices buf allBuffers ++ b :: rest ∧ rest.length = left ∧
      bufLen = b.length ∧ slice buf offset (offset + bufLen) = b ∧ Laid buf (offset + bufLen) rest
  | .setFlag none => overflows c p obj = true
  | .setFlag (some view) => overflows c p obj = false ∧ view.value p buf = .ok obj
  | _ => True

def ReaderOk (taken : Nat) : Reader → Prop
  | .idle | .readFlag => True
  | .readWritten readFlag => readFlag = 0 →
    taken < enqueued.length ∨ metadata (taken % c.maxChunks) 0 = 0
  | .recv => ∃ obj, enqueued[taken - 1]? = some obj ∧ overflows c p obj = true
  | pc => ∃ obj, enqueued[taken]? = some obj ∧ Fits c p (data (taken % c.maxChunks)) obj pc

end Memory

structure Inv (s : System α) : Prop where
  idx : s.currentIdx = s.enqueued.length % c.maxChunks
  memory : Memory c p s.metadata s.data s.enqueued s.taken
  writer : WriterOk c p s.metadata s.data s.enqueued s.taken s.writer
  readerIdx : ∀ r < c.nReader, (s.readers r).currentIdx = (s.readers r).taken % c.maxChunks
  reader : ∀ r < c.nReader,
    ReaderOk c p s.metadata s.data s.enqueued (s.readers r).taken (s.readers r).pc
  ordered : ∀ r < c.nReader, (s.readers r).objects p s.data <+: s.enqueued.map .ok
  socket : ∀ r < c.nReader, (s.readers r).localSocket ++ s.writer.pending p =
    ((s.enqueued.drop (s.readers r).dequeued.length).filter (overflows c p)).map p.allBuffers

end Invariant

section Keeps

variable {α : Type} {c : Config} {p : Pickle α} {s : System α} {r : Nat}

theorem inv_init : Inv c p (init c : System α) where
  idx := (Nat.zero_mod _).symm
  memory :=
    ⟨fun _ _ => Nat.le_refl 0, fun _ _ => Nat.zero_le _, fun i hi => absurd hi (Nat.not_lt_zero i),
      .inr ⟨rfl, fun _ _ => Nat.lt_of_lt_of_le c.maxChunks_pos (Nat.le_add_left _ _)⟩,
      fun _ _ _ => rfl, fun _ _ => Nat.zero_le 1⟩
  writer := trivial
  readerIdx := fun _ _ => (Nat.zero_mod _).symm
  reader := fun _ _ => trivial
  ordered := fun _ _ => List.nil_prefix
  socket := fun _ _ => rfl

theorem ReaderOk.lt {metadata : Nat → Nat → Nat} {data : Nat → Bytes} {enqueued : List α} {t : Nat}
    {pc : Reader} (h : ReaderOk c p metadata data enqueued t pc) (hin : pc.Inside) :
    t < enqueued.length := by
  have hsome : ∃ obj, enqueued[t]? = some obj := by
    cases pc with
    | idle | readFlag | readWritten | recv => exact hin.elim
    | readOverflow | readCount | readLen | readBuffer | setFlag =>
      obtain ⟨obj, hobj, -⟩ := h
      exact ⟨obj, hobj⟩
  obtain ⟨obj, hobj⟩ := hsome
  exact (List.getElem?_eq_some_iff.mp hobj).1

theorem Inv.behind (h : Inv c p s) (hin : s.writer.Inside) : Behind c s.enqueued s.taken := by
  have hw := h.writer
  revert hw hin
  cases s.writer with
  | idle | readFlags | send => exact fun hin => hin.elim
  | clearWritten => exact fun _ hw => hw
  | fill => exact fun _ hw => hw.1.2
  | clearFlags => exact fun _ hw => hw.1.2

theorem Inv.published (h : Inv c p s) {r : Nat} (hr : r < c.nReader)
    (hlt : (s.readers r).taken < s.enqueued.length) :
    Published c p s.metadata s.data s.enqueued s.taken (s.readers r).taken := by
  have hle : s.enqueued.length ≤ (s.readers r).taken + c.maxChunks := h.memory.le_taken r hr
  rcases Nat.lt_or_eq_of_le hle with hwindow | heq
  · exact h.memory.window _ hlt hwindow
  · rcases h.memory.next with ⟨-, hold⟩ | hcleared
    · rwa [heq, Nat.add_sub_cancel] at hold
    · exact absurd heq (Nat.ne_of_lt (hcleared.2 r hr))

theorem Inv.unread (h : Inv c p s) {r : Nat} (hr : r < c.nReader)
    (hlt : (s.readers r).taken < s.enqueued.length) :
    s.metadata (s.readers r).currentIdx 0 = 1 ∧ s.metadata (s.readers r).currentIdx (r + 1) = 0 := by
  have hnext := h.published hr hlt
  rw [h.readerIdx r hr]
  refine ⟨hnext.written, ?_⟩
  rw [hnext.flag r hr]
  exact if_neg (Nat.lt_irrefl _)

theorem length_objects (reader : LocalReader) (data : Nat → Bytes) :
    (reader.objects p data).length = reader.dequeued.length := List.length_map _

theorem Inv.length_le (h : Inv c p s) (hr : r < c.nReader) :
    (s.readers r).dequeued.length ≤ s.enqueued.length := by
  have hle := (h.ordered r hr).length_le
  rwa [length_objects, List.length_map] at hle

theorem Inv.lossless (h : Inv c p s) : Lossless c p s where
  ordered := h.ordered
  complete := by
    rintro r hr ⟨hidle, hempty⟩
    have htaken : (s.readers r).taken = (s.readers r).dequeued.length := by
      rw [LocalReader.taken, hidle]
      rfl
    refine (h.ordered r hr).eq_of_length ?_
    rw [length_objects, List.length_map]
    refine Nat.le_antisymm (h.length_le hr) ?_
    by_contra hlt
    obtain ⟨hwritten, hunread⟩ := h.unread hr (htaken.symm ▸ Nat.not_le.1 hlt)
    rcases hempty with hzero | hread
    · rw [hwritten] at hzero
      cases hzero
    · exact hread hunread

theorem Inv.delivered (h : Inv c p s) : Delivered c p s where
  ordered := h.ordered
  apart := by
    intro r hr hin hwriter
    rw [h.readerIdx r hr, h.idx]
    exact Cyclic.mod_ne ((h.reader r hr).lt hin) (h.behind hwriter r hr)

section Writer

variable {metadata : Nat → Nat → Nat} {data : Nat → Bytes} {w : Writer α}

theorem Inv.setWriter (h : Inv c p s) (hw : WriterOk c p s.metadata s.data s.enqueued s.taken w)
    (hpending : w.pending p = s.writer.pending p) : Inv c p { s with writer := w } where
  idx := h.idx
  memory := h.memory
  writer := hw
  readerIdx := h.readerIdx
  reader := h.reader
  ordered := h.ordered
  socket := by
    intro r hr
    rw [hpending]
    exact h.socket r hr

theorem Memory.overwrite {enqueued : List α} {taken : Nat → Nat}
    (h : Memory c p s.metadata s.data enqueued taken)
    (hcleared : Cleared c metadata enqueued taken)
    (hm : ∀ j ≠ enqueued.length % c.maxChunks, metadata j = s.metadata j)
    (hd : ∀ j ≠ enqueued.length % c.maxChunks, data j = s.data j)
    (hbit : ∀ i, metadata (enqueued.length % c.maxChunks) (i + 1) ≤ 1) :
    Memory c p metadata data enqueued taken where
  taken_le := h.taken_le
  le_taken := h.le_taken
  window := by
    intro i hi hwindow
    have hne := Cyclic.mod_ne hi hwindow
    have hold := h.window i hi hwindow
    refine ⟨?_, ?_, ?_⟩
    · rw [hm _ hne]
      exact hold.written
    · rw [hd _ hne]
      exact hold.holds
    · rw [hm _ hne]
      exact hold.flag
  next := .inr hcleared
  fresh := by
    intro j hj hlt
    by_cases heq : j = enqueued.length % c.maxChunks
    · rw [heq]
      exact hcleared.1
    · rw [hm j heq]
      exact h.fresh j hj hlt
  bit := by
    intro j i
    by_cases heq : j = enqueued.length % c.maxChunks
    · rw [heq]
      exact hbit i
    · rw [hm j heq]
      exact h.bit j i

theorem ReaderOk.overwrite {enqueued : List α} {taken : Nat → Nat} (hr : r < c.nReader)
    {pc : Reader} (h : ReaderOk c p s.metadata s.data enqueued (taken r) pc)
    (hcleared : Cleared c metadata enqueued taken) (htaken : taken r ≤ enqueued.length)
    (hd : ∀ j ≠ enqueued.length % c.maxChunks, data j = s.data j) :
    ReaderOk c p metadata data enqueued (taken r) pc := by
  have hdata : pc.Inside → data (taken r % c.maxChunks) = s.data (taken r % c.maxChunks) :=
    fun hin => hd _ (Cyclic.mod_ne (h.lt hin) (hcleared.2 r hr))
  cases pc with
  | idle | readFlag => trivial
  | readWritten readFlag =>
    intro _
    rcases Nat.lt_or_eq_of_le htaken with hlt | heq
    · exact .inl hlt
    · rw [heq]
      exact .inr hcleared.1
  | recv => exact h
  | readOverflow | readCount | readLen | readBuffer | setFlag =>
    unfold ReaderOk
    rw [hdata trivial]
    exact h

theorem Inv.overwrite (h : Inv c p s) (hcleared : Cleared c metadata s.enqueued s.taken)
    (hm : ∀ j ≠ s.enqueued.length % c.maxChunks, metadata j = s.metadata j)
    (hd : ∀ j ≠ s.enqueued.length % c.maxChunks, data j = s.data j)
    (hbit : ∀ i, metadata (s.enqueued.length % c.maxChunks) (i + 1) ≤ 1)
    (hvalues : ∀ r < c.nReader, (s.readers r).objects p data = (s.readers r).objects p s.data)
    (hw : WriterOk c p metadata data s.enqueued s.taken w)
    (hpending : w.pending p = s.writer.pending p) :
    Inv c p { s with metadata, data, writer := w } where
  idx := h.idx
  memory := h.memory.overwrite hcleared hm hd hbit
  writer := hw
  readerIdx := h.readerIdx
  reader := fun r hr => (h.reader r hr).overwrite hr hcleared (h.memory.taken_le r hr) hd
  ordered := by
    intro r hr
    show (s.readers r).objects p data <+: _
    rw [hvalues r hr]
    exact h.ordered r hr
  socket := by
    intro r hr
    rw [hpending]
    exact h.socket r hr

theorem setByte_ne {j j' : Nat} (h : j' ≠ j) (metadata : Nat → Nat → Nat) (i v : Nat) :
    setByte metadata j i v j' = metadata j' := by
  funext i'
  exact if_neg fun heq => h heq.1

theorem setByte_same (metadata : Nat → Nat → Nat) (j i v i' : Nat) :
    setByte metadata j i v j i' = if i' = i then v else metadata j i' := by
  simp [setByte]

end Writer

end Keeps

end Vllm.MessageQueue
