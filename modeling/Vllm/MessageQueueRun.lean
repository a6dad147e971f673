import Vllm.MessageQueueLaws

namespace Vllm.MessageQueue

variable {α : Type} {c : Config} {p : Pickle α} {s s' : System α} {r : Nat} {obj : α}

section Writer

theorem Inv.readFlag (h : Inv c p s) {i readCount : Nat} (hpc : s.writer = .readFlags obj i readCount)
    (hi : i < c.nReader) :
    Inv c p { s with
      writer := .readFlags obj (i + 1) (readCount + s.metadata s.currentIdx (i + 1)) } := by
  have hw := h.writer
  rw [hpc] at hw
  obtain ⟨-, hle, hall⟩ := hw
  have hbit := h.memory.bit s.currentIdx i
  refine h.setWriter ⟨hi, by omega, fun hcount r hr => ?_⟩ (by rw [hpc]; rfl)
  rcases Nat.lt_succ_iff_lt_or_eq.mp hr with hlt | rfl
  · exact hall (by omega) r hlt
  · rw [← h.idx]
    omega

theorem Inv.found (h : Inv c p s) {readCount : Nat}
    (hpc : s.writer = .readFlags obj c.nReader readCount)
    (hfree : s.metadata s.currentIdx 0 = 0 ∨ readCount = c.nReader) :
    Behind c s.enqueued s.taken := by
  rcases h.memory.next with ⟨hle, hold⟩ | hcleared
  · have hidx : (s.enqueued.length - c.maxChunks) % c.maxChunks = s.currentIdx := by
      rw [h.idx, ← Nat.mod_eq_sub_mod hle]
    have hcount : readCount = c.nReader := by
      refine hfree.resolve_left fun hzero => ?_
      have hone := hold.written
      rw [hidx, hzero] at hone
      cases hone
    have hw := h.writer
    rw [hpc] at hw
    intro r hr
    have hflag := hold.flag r hr
    rw [hidx, h.idx, hw.2.2 hcount r hr] at hflag
    have : s.enqueued.length - c.maxChunks < s.taken r := by
      by_contra hge
      rw [if_neg hge] at hflag
      cases hflag
    omega
  · exact hcleared.2

theorem Inv.clearWritten (h : Inv c p s) (hpc : s.writer = .clearWritten obj) :
    Inv c p { s with
      metadata := setByte s.metadata s.currentIdx 0 0
      writer := .fill obj (chunkWrites c p obj) } := by
  have hbehind : Behind c s.enqueued s.taken := h.behind (by rw [hpc]; trivial)
  have hcleared : Cleared c (setByte s.metadata s.currentIdx 0 0) s.enqueued s.taken := by
    refine ⟨?_, hbehind⟩
    rw [← h.idx, setByte_same, if_pos rfl]
  refine h.overwrite hcleared (fun j hj => ?_) (fun _ _ => rfl) (fun i => ?_)
    (fun _ _ => rfl) ⟨hcleared, fun buf hbuf => holds_chunkWrites hbuf⟩ (by rw [hpc]; rfl)
  · rw [← h.idx] at hj
    exact setByte_ne hj _ _ _
  · rw [← h.idx, setByte_same, if_neg (Nat.succ_ne_zero i)]
    exact h.memory.bit _ i

theorem Dequeued.value_of_spared {data : Nat → Bytes} {chunk start : Nat} {bytes buf : Bytes}
    {obj : Dequeued} (hbuf : ShmRingBuffer.writeBytes (data chunk) start bytes = .ok buf)
    (hspared : obj.restsOn chunk start bytes.length = false) :
    obj.value p (Function.update data chunk buf) = obj.value p data := by
  cases obj with
  | received message => rfl
  | inline chunk' view =>
    rw [restsOn, decide_eq_false_iff_not] at hspared
    rw [Dequeued.value, Dequeued.value]
    by_cases hchunk : chunk' = chunk
    · subst hchunk
      rw [Function.update_self, View.value, View.value]
      have hwritten : ((.ok bytes : Result Bytes) >>= ShmRingBuffer.writeBytes (data chunk') start) = .ok buf := hbuf
      obtain ⟨bs, hbs, -, hframe⟩ := write_ok hwritten
      cases hbs
      have hsame : slices buf view.buffers = slices (data chunk') view.buffers := by
        refine List.map_congr_left fun b hb => ?_
        have hapart : b.1 + b.2 ≤ start ∨ start + bytes.length ≤ b.1 := by
          by_contra hmeet
          exact hspared ⟨rfl, b, hb, by omega⟩
        rw [slice_eq, slice_eq, hframe b.1 b.2 hapart]
      rw [hsame]
    · rw [Function.update_of_ne hchunk]

theorem Inv.fill (h : Inv c p s) {timedOut : Bool}
    (hspares : Op.spares c s (.writer timedOut) = true) {start : Nat} {bytes : Result Bytes}
    {writes : List (Nat × Result Bytes)} {buf : Bytes}
    (hpc : s.writer = .fill obj ((start, bytes) :: writes))
    (hbuf : (bytes >>= ShmRingBuffer.writeBytes (s.data s.currentIdx) start) = .ok buf) :
    Inv c p { s with
      data := Function.update s.data s.currentIdx buf
      writer := .fill obj writes } := by
  have hw := h.writer
  rw [hpc] at hw
  obtain ⟨hcleared, hholds⟩ := hw
  refine h.overwrite hcleared (fun _ _ => rfl) (fun j hj => ?_) (fun i => h.memory.bit _ i)
    (fun r hr => List.map_congr_left fun obj' hobj' => ?_)
    ⟨hcleared, fun buf' hbuf' => hholds buf' ?_⟩ (by rw [hpc]; rfl)
  · rw [← h.idx] at hj
    exact Function.update_of_ne hj _ _
  · obtain ⟨bs, rfl, hwrite⟩ := Result.bind_eq_ok.mp hbuf
    simp only [Op.spares, hpc, decide_eq_true_eq, Bool.not_eq_true'] at hspares
    exact Dequeued.value_of_spared hwrite (hspares r hr obj' hobj')
  · rw [← h.idx, Function.update_self] at hbuf'
    rw [applyWrites, List.foldlM_cons, ← h.idx, hbuf]
    exact hbuf'

theorem Inv.filled (h : Inv c p s) (hpc : s.writer = .fill obj []) :
    Inv c p { s with writer := .clearFlags obj 0 } := by
  have hw := h.writer
  rw [hpc] at hw
  exact h.setWriter ⟨hw.1, Nat.zero_le _, hw.2 _ rfl, fun r hr => absurd hr (Nat.not_lt_zero r)⟩
    (by rw [hpc]; rfl)

theorem Inv.clearFlag (h : Inv c p s) {i : Nat} (hpc : s.writer = .clearFlags obj i)
    (hi : i < c.nReader) :
    Inv c p { s with
      metadata := setByte s.metadata s.currentIdx (i + 1) 0
      writer := .clearFlags obj (i + 1) } := by
  have hw := h.writer
  rw [hpc] at hw
  obtain ⟨⟨hzero, hbehind⟩, -, hholds, hflags⟩ := hw
  have hcleared : Cleared c (setByte s.metadata s.currentIdx (i + 1) 0) s.enqueued s.taken := by
    refine ⟨?_, hbehind⟩
    rw [← h.idx, setByte_same, if_neg (Nat.succ_ne_zero i).symm, h.idx]
    exact hzero
  refine h.overwrite hcleared (fun j hj => ?_) (fun _ _ => rfl) (fun i' => ?_)
    (fun _ _ => rfl) ⟨hcleared, hi, hholds, fun r hr => ?_⟩ (by rw [hpc]; rfl)
  · rw [← h.idx] at hj
    exact setByte_ne hj _ _ _
  · rw [← h.idx, setByte_same]
    split
    · exact Nat.zero_le 1
    · exact h.memory.bit _ i'
  · rw [← h.idx, setByte_same]
    split
    · rfl
    · rw [h.idx]
      exact hflags r (by omega)

theorem Memory.publish (h : Memory c p s.metadata s.data s.enqueued s.taken)
    (hbehind : Behind c s.enqueued s.taken)
    (hholds : Holds c p obj (s.data (s.enqueued.length % c.maxChunks)))
    (hflags : ∀ r < c.nReader, s.metadata (s.enqueued.length % c.maxChunks) (r + 1) = 0) :
    Memory c p (setByte s.metadata (s.enqueued.length % c.maxChunks) 0 1) s.data
      (s.enqueued ++ [obj]) s.taken := by
  have hlen : (s.enqueued ++ [obj]).length = s.enqueued.length + 1 := by simp
  -- the chunks of the last objects, the new one included
  have hlive : ∀ i ≤ s.enqueued.length, s.enqueued.length < i + c.maxChunks →
      Published c p (setByte s.metadata (s.enqueued.length % c.maxChunks) 0 1) s.data
        (s.enqueued ++ [obj]) s.taken i := by
    intro i hi hwindow
    rcases Nat.lt_or_eq_of_le hi with hlt | rfl
    · have hold := h.window i hlt hwindow
      have hne := Cyclic.mod_ne hlt hwindow
      refine ⟨?_, ?_, ?_⟩
      · rw [setByte_ne hne]
        exact hold.written
      · rw [List.getElem?_append_left hlt]
        exact hold.holds
      · rw [setByte_ne hne]
        exact hold.flag
    · refine ⟨?_, ?_, fun r hr => ?_⟩
      · rw [setByte_same, if_pos rfl]
      · rw [List.getElem?_concat_length]
        intro obj' hobj'
        cases hobj'
        exact hholds
      · rw [setByte_same, if_neg (Nat.succ_ne_zero r), hflags r hr,
          if_neg (Nat.not_lt.mpr (h.taken_le r hr))]
  refine ⟨fun r hr => ?_, fun r hr => ?_, fun i hi hwindow => ?_, ?_, fun j hj hlt => ?_,
    fun j i => ?_⟩
  · rw [hlen]
    exact Nat.le_succ_of_le (h.taken_le r hr)
  · rw [hlen]
    exact hbehind r hr
  · rw [hlen] at hi hwindow
    exact hlive i (by omega) (by omega)
  · rw [hlen]
    by_cases hle : c.maxChunks ≤ s.enqueued.length + 1
    · exact .inl ⟨hle, hlive _ (by have := c.maxChunks_pos; omega) (by omega)⟩
    · have hne : s.enqueued.length + 1 ≠ s.enqueued.length := Nat.succ_ne_self _
      refine .inr ⟨?_, fun r hr => ?_⟩
      · rw [hlen, Nat.mod_eq_of_lt (by omega), Nat.mod_eq_of_lt (by omega), setByte_ne hne]
        exact h.fresh _ (by omega) (Nat.lt_succ_self _)
      · rw [hlen]
        exact Nat.lt_of_not_le fun hge => hle (by omega)
  · rw [hlen] at hlt
    have hne : j ≠ s.enqueued.length % c.maxChunks := by
      rw [Nat.mod_eq_of_lt (by omega)]
      omega
    rw [setByte_ne hne]
    exact h.fresh j hj (by omega)
  · unfold setByte
    split
    · exact Nat.le_refl 1
    · exact h.bit j i

theorem ReaderOk.publish {t j v : Nat} {pc : Reader}
    (h : ReaderOk c p s.metadata s.data s.enqueued t pc) (ht : t ≤ s.enqueued.length) :
    ReaderOk c p (setByte s.metadata j 0 v) s.data (s.enqueued ++ [obj]) t pc := by
  have hmore : ∀ {i : Nat} {m : α}, s.enqueued[i]? = some m → (s.enqueued ++ [obj])[i]? = some m := by
    intro i m hm
    rw [List.getElem?_append_left (List.getElem?_eq_some_iff.mp hm).1, hm]
  cases pc with
  | idle | readFlag => trivial
  | readWritten readFlag =>
    intro _
    rw [List.length_append]
    exact .inl (Nat.lt_succ_of_le ht)
  | recv | readOverflow | readCount | readLen | readBuffer | setFlag =>
    obtain ⟨m, hm, hfits⟩ := h
    exact ⟨m, hmore hm, hfits⟩

theorem Inv.publish (h : Inv c p s) (hpc : s.writer = .clearFlags obj c.nReader) :
    Inv c p (s.publish c p obj) := by
  have hw := h.writer
  rw [hpc] at hw
  obtain ⟨⟨-, hbehind⟩, -, hholds, hflags⟩ := hw
  have hlen : (s.enqueued ++ [obj]).length = s.enqueued.length + 1 := by simp
  refine ⟨?_, ?_, ?_, h.readerIdx, fun r hr => ?_, fun r hr => ?_, fun r hr => ?_⟩
  · show (s.currentIdx + 1) % c.maxChunks = (s.enqueued ++ [obj]).length % c.maxChunks
    rw [hlen, h.idx, Nat.mod_add_mod]
  · have := h.memory.publish hbehind hholds hflags
    rw [← h.idx] at this
    exact this
  · show WriterOk c p _ _ _ _ (if overflows c p obj then .send obj else .idle)
    split <;> trivial
  · exact (h.reader r hr).publish (h.memory.taken_le r hr)
  · show _ <+: (s.enqueued ++ [obj]).map Except.ok
    rw [List.map_append]
    exact (h.ordered r hr).trans (List.prefix_append _ _)
  · have hsocket := h.socket r hr
    rw [hpc] at hsocket
    have hle := h.length_le hr
    show (s.readers r).localSocket ++
        (if overflows c p obj then Writer.send obj else .idle).pending p =
      (((s.enqueued ++ [obj]).drop (s.readers r).dequeued.length).filter _).map _
    rw [List.drop_append_of_le_length hle, List.filter_append, List.map_append, ← hsocket]
    cases hover : overflows c p obj <;> simp [hover, Writer.pending]

theorem Inv.sendMultipart (h : Inv c p s) (hpc : s.writer = .send obj) :
    Inv c p (s.sendMultipart p obj) where
  idx := h.idx
  memory := h.memory
  writer := trivial
  readerIdx := h.readerIdx
  reader := h.reader
  ordered := h.ordered
  socket := by
    intro r hr
    have hsocket := h.socket r hr
    rw [hpc] at hsocket
    exact (List.append_nil _).trans hsocket

theorem Inv.writerStep (h : Inv c p s) {timedOut : Bool}
    (hspares : Op.spares c s (.writer timedOut) = true)
    (hok : s.writerStep c p timedOut = .ok s') : Inv c p s' := by
  unfold System.writerStep at hok
  split at hok
  · cases hok
  · rename_i obj i readCount hpc
    split at hok
    · rename_i hi
      cases hok
      exact h.readFlag hpc hi
    · rename_i hi
      have hw := h.writer
      rw [hpc] at hw
      obtain rfl : i = c.nReader := Nat.le_antisymm hw.1 (Nat.le_of_not_lt hi)
      split at hok
      · cases hok
        cases timedOut with
        | false =>
          exact h.setWriter
            ⟨Nat.zero_le _, Nat.le_refl 0, fun _ r hr => absurd hr (Nat.not_lt_zero r)⟩
            (by rw [hpc]; rfl)
        | true => exact h.setWriter trivial (by rw [hpc]; rfl)
      · rename_i hfree
        cases hok
        exact h.setWriter (h.found hpc (by omega)) (by rw [hpc]; rfl)
  · rename_i obj hpc
    cases hok
    exact h.clearWritten hpc
  · rename_i obj hpc
    cases hok
    exact h.filled hpc
  · rename_i obj start bytes writes hpc
    split at hok
    · rename_i buf hbuf
      cases hok
      exact h.fill hspares hpc hbuf
    · cases hok
      exact h.setWriter trivial (by rw [hpc]; rfl)
  · rename_i obj i hpc
    split at hok
    · rename_i hi
      cases hok
      exact h.clearFlag hpc hi
    · rename_i hi
      have hw := h.writer
      rw [hpc] at hw
      obtain rfl : i = c.nReader := Nat.le_antisymm hw.2.1 (Nat.le_of_not_lt hi)
      cases hok
      exact h.publish hpc
  · rename_i obj hpc
    cases hok
    exact h.sendMultipart hpc

end Writer

section Reader

variable {reader : LocalReader} {pc : Reader}

theorem setReader_readers (r' : Nat) :
    (s.setReader r reader).readers r' = if r' = r then reader else s.readers r' :=
  Function.update_apply _ _ _ _

theorem forall_setReader {P : Nat → LocalReader → Prop} (hnew : P r reader)
    (hold : ∀ r' < c.nReader, P r' (s.readers r')) :
    ∀ r' < c.nReader, P r' ((s.setReader r reader).readers r') := by
  intro r' hr'
  rw [setReader_readers]
  split
  · rename_i heq
    rw [heq]
    exact hnew
  · exact hold r' hr'

theorem Inv.setReader (h : Inv c p s) (hr : r < c.nReader)
    (htaken : reader.taken = (s.readers r).taken)
    (hidx : reader.currentIdx = (s.readers r).currentIdx)
    (hpc : ReaderOk c p s.metadata s.data s.enqueued reader.taken reader.pc)
    (hordered : reader.objects p s.data <+: s.enqueued.map .ok)
    (hsocket : reader.localSocket ++ s.writer.pending p =
      ((s.enqueued.drop reader.dequeued.length).filter (overflows c p)).map p.allBuffers) :
    Inv c p (s.setReader r reader) := by
  have hsame : (s.setReader r reader).taken = s.taken := by
    funext r'
    rw [System.taken, setReader_readers]
    split
    · rename_i heq
      rw [htaken, heq]
      rfl
    · rfl
  refine ⟨h.idx, ?_, ?_, ?_, ?_, ?_, ?_⟩
  · rw [hsame]
    exact h.memory
  · rw [hsame]
    exact h.writer
  · refine forall_setReader (P := fun _ rd => rd.currentIdx = rd.taken % c.maxChunks) ?_ h.readerIdx
    rw [hidx, htaken]
    exact h.readerIdx r hr
  · exact forall_setReader (P := fun _ rd =>
      ReaderOk c p s.metadata s.data s.enqueued rd.taken rd.pc) hpc h.reader
  · exact forall_setReader (P := fun _ rd => rd.objects p s.data <+: s.enqueued.map .ok) hordered
      h.ordered
  · exact forall_setReader (P := fun _ rd => rd.localSocket ++ s.writer.pending p =
      ((s.enqueued.drop rd.dequeued.length).filter (overflows c p)).map p.allBuffers) hsocket h.socket

theorem Inv.setPc (h : Inv c p s) (hr : r < c.nReader)
    (hpending : pc.pending = (s.readers r).pc.pending)
    (hpc : ReaderOk c p s.metadata s.data s.enqueued (s.readers r).taken pc) :
    Inv c p (s.setPc r pc) := by
  have htaken : ({ s.readers r with pc } : LocalReader).taken = (s.readers r).taken := by
    rw [LocalReader.taken, LocalReader.taken, hpending]
  refine h.setReader hr htaken rfl ?_ (h.ordered r hr) (h.socket r hr)
  rw [htaken]
  exact hpc

theorem Inv.readFlag_zero (h : Inv c p s) (hr : r < c.nReader)
    (hzero : s.metadata (s.readers r).currentIdx (r + 1) = 0) :
    (s.readers r).taken < s.enqueued.length ∨
      s.metadata ((s.readers r).taken % c.maxChunks) 0 = 0 := by
  rcases Nat.lt_or_eq_of_le (h.memory.taken_le r hr) with hlt | heq
  · exact .inl hlt
  · have heq : (s.readers r).taken = s.enqueued.length := heq
    rw [heq]
    rcases h.memory.next with ⟨hle, hold⟩ | hcleared
    · have hflag := hold.flag r hr
      rw [← Nat.mod_eq_sub_mod hle, ← heq, ← h.readerIdx r hr, hzero] at hflag
      have hread : s.enqueued.length - c.maxChunks < s.taken r := by
        show _ < (s.readers r).taken
        have := c.maxChunks_pos
        omega
      rw [heq, if_pos hread] at hflag
      cases hflag
    · exact .inr hcleared.1

theorem Inv.holds (h : Inv c p s) (hr : r < c.nReader)
    (hobj : s.enqueued[(s.readers r).taken]? = some obj) :
    Holds c p obj (s.data ((s.readers r).taken % c.maxChunks)) :=
  (h.published hr (List.getElem?_eq_some_iff.mp hobj).1).holds obj hobj

theorem nextBuffer_end {buf : Bytes} {offset : Nat} {allBuffers : List (Nat × Nat)}
    (hall : p.allBuffers obj = slices buf allBuffers) :
    ∃ view, nextBuffer p buf 0 offset allBuffers = .setFlag (some view) ∧
      view.value p buf = .ok obj := by
  cases allBuffers with
  | nil => cases hall
  | cons main buffers =>
    obtain ⟨(hmain : (p.dumps obj).1 = slice buf main.1 (main.1 + main.2)), hbuffers⟩ :=
      List.cons_eq_cons.1 hall
    have hvalue : View.value p ⟨slice buf main.1 (main.1 + main.2), buffers⟩ buf = .ok obj := by
      rw [View.value, slices, ← hbuffers]
      dsimp only
      rw [← hmain]
      exact p.loads_dumps obj
    refine ⟨_, ?_, hvalue⟩
    rw [nextBuffer, hvalue]

theorem fits_nextBuffer {buf : Bytes} {left offset : Nat} {allBuffers : List (Nat × Nat)}
    {rest : List Bytes} (hover : overflows c p obj = false)
    (hall : p.allBuffers obj = slices buf allBuffers ++ rest) (hleft : rest.length = left)
    (hlaid : Laid buf offset rest) :
    (nextBuffer p buf left offset allBuffers).Inside ∧
      Fits c p buf obj (nextBuffer p buf left offset allBuffers) := by
  cases rest with
  | nil =>
    obtain rfl : left = 0 := hleft.symm
    rw [List.append_nil] at hall
    obtain ⟨view, hnext, hvalue⟩ := @nextBuffer_end _ _ _ buf offset _ hall
    rw [hnext]
    exact ⟨trivial, hover, hvalue⟩
  | cons b rest =>
    obtain rfl : left = rest.length + 1 := hleft.symm
    exact ⟨trivial, hover, b, rest, hall, rfl, hlaid⟩

theorem fits_readChunk {buf : Bytes} (hholds : Holds c p obj buf) (hin : pc.Inside)
    (hfits : Fits c p buf obj pc) :
    (readChunk p buf pc).Inside ∧ Fits c p buf obj (readChunk p buf pc) := by
  unfold Holds at hholds
  cases pc with
  | idle | readFlag | readWritten | recv => exact hin.elim
  | readOverflow =>
    unfold readChunk
    split at hholds
    · rename_i hover
      rw [hholds]
      exact ⟨trivial, hover⟩
    · rename_i hover
      rw [hholds.1]
      exact ⟨trivial, eq_false_of_ne_true hover⟩
  | readCount =>
    have hover : overflows c p obj = false := hfits
    rw [hover, if_neg Bool.false_ne_true] at hholds
    have hall : p.allBuffers obj = slices buf [] ++ p.allBuffers obj := rfl
    exact fits_nextBuffer hover hall hholds.2.1.symm hholds.2.2
  | readLen left offset allBuffers =>
    obtain ⟨hover, b, rest, hall, hleft, hlen, hread, hlaid⟩ := hfits
    exact ⟨trivial, hover, b, rest, hall, hleft, hlen, by rw [hlen]; exact hread,
      by rw [hlen]; exact hlaid⟩
  | readBuffer left offset bufLen allBuffers =>
    obtain ⟨hover, b, rest, hall, hleft, rfl, hread, hlaid⟩ := hfits
    refine fits_nextBuffer hover ?_ hleft hlaid
    rw [slices, List.map_append, List.append_assoc, List.map_singleton, hread]
    exact hall
  | setFlag obj' => exact ⟨trivial, hfits⟩

theorem ReaderOk.of_fits {metadata : Nat → Nat → Nat} {data : Nat → Bytes} {enqueued : List α}
    {t : Nat} (hin : pc.Inside) (hobj : enqueued[t]? = some obj)
    (hfits : Fits c p (data (t % c.maxChunks)) obj pc) :
    ReaderOk c p metadata data enqueued t pc := by
  cases pc with
  | idle | readFlag | readWritten | recv => exact hin.elim
  | readOverflow | readCount | readLen | readBuffer | setFlag => exact ⟨obj, hobj, hfits⟩

theorem Inv.ordered_concat (h : Inv c p s) (hr : r < c.nReader)
    (hobj : s.enqueued[(s.readers r).dequeued.length]? = some obj) {d : Dequeued}
    (hvalue : d.value p s.data = .ok obj) (hreader : reader.dequeued = (s.readers r).dequeued ++ [d]) :
    reader.objects p s.data <+: s.enqueued.map .ok := by
  obtain ⟨rest, hrest⟩ := h.ordered r hr
  have hnext : (s.enqueued.map Except.ok)[((s.readers r).objects p s.data).length]? =
      some (.ok obj : Result α) := by
    rw [length_objects, List.getElem?_map, hobj]
    rfl
  rw [← hrest, List.getElem?_append_right (Nat.le_refl _), Nat.sub_self] at hnext
  obtain ⟨rest', rfl⟩ := List.head?_eq_some_iff.1 (List.head?_eq_getElem?.trans hnext)
  refine ⟨rest', ?_⟩
  rw [LocalReader.objects, hreader, List.map_append, List.append_assoc, ← hrest]
  simp [LocalReader.objects, hvalue]

theorem drop_of_getElem? {l : List α} {n : Nat} (h : l[n]? = some obj) :
    l.drop n = obj :: l.drop (n + 1) := by
  obtain ⟨hn, rfl⟩ := List.getElem?_eq_some_iff.1 h
  exact List.drop_eq_getElem_cons hn

theorem setByte_written (metadata : Nat → Nat → Nat) (j i v j' : Nat) :
    setByte metadata j (i + 1) v j' 0 = metadata j' 0 :=
  if_neg fun h => Nat.succ_ne_zero i h.2.symm

theorem Published.release {metadata : Nat → Nat → Nat} {data : Nat → Bytes} {enqueued : List α}
    {taken : Nat → Nat} {i : Nat} (h : Published c p metadata data enqueued taken i)
    (hi : i < enqueued.length) (hwindow : enqueued.length ≤ i + c.maxChunks)
    (hlt : taken r < enqueued.length) (hle : enqueued.length ≤ taken r + c.maxChunks) :
    Published c p (setByte metadata (taken r % c.maxChunks) (r + 1) 1) data enqueued
      (Function.update taken r (taken r + 1)) i where
  written := by
    rw [setByte_written]
    exact h.written
  holds := h.holds
  flag := by
    intro r' hr'
    have hold := h.flag r' hr'
    unfold setByte
    by_cases hr : r' = r
    · subst hr
      rw [Function.update_self]
      rcases Nat.lt_trichotomy i (taken r') with hlt' | heq | hgt
      · have hne := Cyclic.mod_ne (M := c.maxChunks) hlt' (by omega)
        rw [if_neg fun h => hne h.1, hold, if_pos hlt', if_pos (by omega)]
      · rw [heq, if_pos ⟨rfl, rfl⟩, if_pos (Nat.lt_succ_self _)]
      · have hne := Cyclic.mod_ne (M := c.maxChunks) hgt (by omega)
        rw [if_neg fun h => hne h.1.symm, hold, if_neg (by omega), if_neg (by omega)]
    · rw [Function.update_of_ne hr, if_neg fun h => hr (Nat.succ.inj h.2), hold]

theorem Behind.mono {enqueued : List α} {taken taken' : Nat → Nat} (h : Behind c enqueued taken)
    (hle : ∀ r, taken r ≤ taken' r) : Behind c enqueued taken' :=
  fun r hr => Nat.lt_of_lt_of_le (h r hr) (Nat.add_le_add_right (hle r) _)

theorem Memory.release {metadata : Nat → Nat → Nat} {data : Nat → Bytes} {enqueued : List α}
    {taken : Nat → Nat} (h : Memory c p metadata data enqueued taken) (hr : r < c.nReader)
    (hlt : taken r < enqueued.length) :
    Memory c p (setByte metadata (taken r % c.maxChunks) (r + 1) 1) data enqueued
      (Function.update taken r (taken r + 1)) := by
  have hmono : ∀ r', taken r' ≤ Function.update taken r (taken r + 1) r' := by
    intro r'
    rw [Function.update_apply]
    split
    · rename_i heq
      rw [heq]
      exact Nat.le_succ _
    · exact Nat.le_refl _
  have hle := h.le_taken r hr
  refine ⟨fun r' hr' => ?_, fun r' hr' => ?_, fun i hi hwindow => ?_, ?_, fun j hj hlt' => ?_,
    fun j i => ?_⟩
  · rw [Function.update_apply]
    split
    · exact hlt
    · exact h.taken_le r' hr'
  · exact Nat.le_trans (h.le_taken r' hr') (Nat.add_le_add_right (hmono r') _)
  · exact (h.window i hi hwindow).release hi (Nat.le_of_lt hwindow) hlt hle
  · rcases h.next with ⟨hge, hold⟩ | hcleared
    · have := c.maxChunks_pos
      exact .inl ⟨hge, hold.release (by omega) (by omega) hlt hle⟩
    · refine .inr ⟨?_, hcleared.2.mono hmono⟩
      rw [setByte_written]
      exact hcleared.1
  · rw [setByte_written]
    exact h.fresh j hj hlt'
  · unfold setByte
    split
    · exact Nat.le_refl 1
    · exact h.bit j i

theorem ReaderOk.setFlag {metadata : Nat → Nat → Nat} {data : Nat → Bytes} {enqueued : List α}
    {t j i v : Nat} (h : ReaderOk c p metadata data enqueued t pc) :
    ReaderOk c p (setByte metadata j (i + 1) v) data enqueued t pc := by
  cases pc with
  | readWritten readFlag =>
    intro hzero
    rw [setByte_written]
    exact h hzero
  | idle | readFlag | recv | readOverflow | readCount | readLen | readBuffer | setFlag => exact h

theorem WriterOk.release {metadata : Nat → Nat → Nat} {data : Nat → Bytes} {enqueued : List α}
    {taken : Nat → Nat} {w : Writer α} (h : WriterOk c p metadata data enqueued taken w)
    (hr : r < c.nReader) (hlt : taken r < enqueued.length) :
    WriterOk c p (setByte metadata (taken r % c.maxChunks) (r + 1) 1) data enqueued
      (Function.update taken r (taken r + 1)) w := by
  have hmono : ∀ r', taken r' ≤ Function.update taken r (taken r + 1) r' := by
    intro r'
    rw [Function.update_apply]
    split
    · rename_i heq
      rw [heq]
      exact Nat.le_succ _
    · exact Nat.le_refl _
  have hcleared : Cleared c metadata enqueued taken →
      Cleared c (setByte metadata (taken r % c.maxChunks) (r + 1) 1) enqueued
        (Function.update taken r (taken r + 1)) := by
    intro hcleared
    refine ⟨?_, hcleared.2.mono hmono⟩
    rw [setByte_written]
    exact hcleared.1
  cases w with
  | idle | send => trivial
  | readFlags obj i readCount =>
    refine ⟨h.1, h.2.1, fun hcount r' hr' => ?_⟩
    unfold setByte
    split
    · rfl
    · exact h.2.2 hcount r' hr'
  | clearWritten obj => exact Behind.mono h hmono
  | fill obj writes => exact ⟨hcleared h.1, h.2⟩
  | clearFlags obj i =>
    obtain ⟨hold, hi, hholds, hflags⟩ := h
    refine ⟨hcleared hold, hi, hholds, fun r' hr' => ?_⟩
    have hne := Cyclic.mod_ne hlt (hold.2 r hr)
    rw [setByte_ne hne.symm]
    exact hflags r' hr'

theorem Inv.release (h : Inv c p s) (hr : r < c.nReader) {read : Option View}
    (hpc : (s.readers r).pc = .setFlag read) : Inv c p (s.release c r read) := by
  have hreader := h.reader r hr
  rw [hpc] at hreader
  obtain ⟨obj, hobj, hfits⟩ := hreader
  have htaken : (s.readers r).taken = (s.readers r).dequeued.length := by
    rw [LocalReader.taken, hpc]
    rfl
  have hlt : s.taken r < s.enqueued.length := (List.getElem?_eq_some_iff.mp hobj).1
  have hidx := h.readerIdx r hr
  rw [← hidx] at hfits
  rw [htaken] at hobj
  have hdrop := drop_of_getElem? hobj
  obtain ⟨reader, hnew⟩ : ∃ reader, reader = { s.readers r with
      currentIdx := ((s.readers r).currentIdx + 1) % c.maxChunks
      pc := if read.isSome then .idle else .recv
      dequeued := (s.readers r).dequeued ++
        (read.map (Dequeued.inline (s.readers r).currentIdx)).toList } := ⟨_, rfl⟩
  have hnext : reader.taken = (s.readers r).taken + 1 := by
    rw [htaken, hnew]
    cases read <;> simp [LocalReader.taken, Reader.pending]
  have hreaders : (s.release c r read).readers = Function.update s.readers r reader := by
    rw [hnew]
    cases read <;> rfl
  have hnow : (s.release c r read).taken = Function.update s.taken r (s.taken r + 1) := by
    funext r'
    rw [System.taken, hreaders, Function.update_apply, Function.update_apply]
    split
    · exact hnext
    · rfl
  have hbyte : setByte s.metadata (s.readers r).currentIdx (r + 1) 1 =
      setByte s.metadata (s.taken r % c.maxChunks) (r + 1) 1 := by
    rw [h.readerIdx r hr]
    rfl
  have hforall : ∀ {P : Nat → LocalReader → Prop}, P r reader →
      (∀ r' < c.nReader, P r' (s.readers r')) →
      ∀ r' < c.nReader, P r' ((s.release c r read).readers r') := by
    intro P hone hall r' hr'
    rw [hreaders]
    exact forall_setReader (s := s) hone hall r' hr'
  refine ⟨h.idx, ?_, ?_, ?_, ?_, ?_, ?_⟩
  · rw [hnow]
    show Memory c p (setByte s.metadata (s.readers r).currentIdx (r + 1) 1) _ _ _
    rw [hbyte]
    exact h.memory.release hr hlt
  · rw [hnow]
    show WriterOk c p (setByte s.metadata (s.readers r).currentIdx (r + 1) 1) _ _ _ _
    rw [hbyte]
    exact h.writer.release hr hlt
  · refine hforall (P := fun _ rd => rd.currentIdx = rd.taken % c.maxChunks) ?_ h.readerIdx
    rw [hnext, hnew]
    show ((s.readers r).currentIdx + 1) % c.maxChunks = _
    rw [h.readerIdx r hr, Nat.mod_add_mod]
  · refine hforall (P := fun _ rd => ReaderOk c p _ s.data s.enqueued rd.taken rd.pc) ?_
      fun r' hr' => (h.reader r' hr').setFlag
    rw [hnext, hnew]
    cases read with
    | some _ => trivial
    | none =>
      refine ⟨obj, ?_, hfits⟩
      rw [Nat.add_sub_cancel, htaken]
      exact hobj
  · refine hforall (P := fun _ rd => rd.objects p s.data <+: s.enqueued.map .ok) ?_ h.ordered
    cases read with
    | some view =>
      exact h.ordered_concat (d := .inline (s.readers r).currentIdx view) hr hobj hfits.2
        (by rw [hnew]; rfl)
    | none =>
      rw [hnew, LocalReader.objects, Option.map_none, Option.toList_none, List.append_nil]
      exact h.ordered r hr
  · refine hforall (P := fun _ rd => rd.localSocket ++ s.writer.pending p =
      ((s.enqueued.drop rd.dequeued.length).filter (overflows c p)).map p.allBuffers) ?_ h.socket
    have hsocket := h.socket r hr
    rw [hnew]
    cases read with
    | some view =>
      rw [hdrop, List.filter_cons_of_neg (by rw [hfits.1]; exact Bool.false_ne_true)] at hsocket
      rw [Option.map_some, Option.toList_some, List.length_append]
      exact hsocket
    | none =>
      rw [Option.map_none, Option.toList_none, List.append_nil]
      exact hsocket

theorem Inv.recv (h : Inv c p s) (hr : r < c.nReader) (hpc : (s.readers r).pc = .recv)
    {message : List Bytes} {localSocket : List (List Bytes)}
    (hsocket : (s.readers r).localSocket = message :: localSocket) :
    ∃ obj, p.load message = .ok obj ∧
      Inv c p (s.setReader r { s.readers r with
        pc := .idle, localSocket
        dequeued := (s.readers r).dequeued ++ [.received message] }) := by
  have hreader := h.reader r hr
  rw [hpc] at hreader
  obtain ⟨obj, hobj, hover⟩ := hreader
  have htaken : (s.readers r).taken = (s.readers r).dequeued.length + 1 := by
    rw [LocalReader.taken, hpc]
    rfl
  rw [htaken, Nat.add_sub_cancel] at hobj
  have hall := h.socket r hr
  rw [drop_of_getElem? hobj, List.filter_cons_of_pos hover, hsocket, List.map_cons, List.cons_append,
    List.cons.injEq] at hall
  obtain ⟨rfl, hrest⟩ := hall
  have hload := Pickle.load_allBuffers p obj
  refine ⟨obj, hload, h.setReader hr ?_ rfl trivial
    (h.ordered_concat (d := .received (p.allBuffers obj)) hr hobj hload rfl) ?_⟩
  · rw [htaken]
    simp [LocalReader.taken, Reader.pending]
  · rw [List.length_append]
    exact hrest

theorem Reader.Inside.pending (h : pc.Inside) : pc.pending = 0 := by
  cases pc with
  | recv => exact h.elim
  | idle | readFlag | readWritten | readOverflow | readCount | readLen | readBuffer | setFlag => rfl

theorem Inv.readChunk (h : Inv c p s) (hr : r < c.nReader) (hpc : (s.readers r).pc = pc)
    (hin : pc.Inside) :
    Inv c p (s.setPc r (readChunk p (s.data (s.readers r).currentIdx) pc)) := by
  have hreader := h.reader r hr
  have hobj : ∃ obj, s.enqueued[(s.readers r).taken]? = some obj ∧
      Fits c p (s.data ((s.readers r).taken % c.maxChunks)) obj pc := by
    rw [hpc] at hreader
    cases pc with
    | idle | readFlag | readWritten | recv => exact hin.elim
    | readOverflow | readCount | readLen | readBuffer | setFlag => exact hreader
  obtain ⟨obj, hobj, hfits⟩ := hobj
  obtain ⟨hin', hfits'⟩ := fits_readChunk (h.holds hr hobj) hin hfits
  rw [h.readerIdx r hr]
  refine h.setPc hr ?_ (.of_fits hin' hobj hfits')
  rw [hpc, hin.pending, hin'.pending]

theorem Inv.readerStep (h : Inv c p s) (hr : r < c.nReader) {timedOut : Bool}
    (hpatient : Op.patient s (.reader r timedOut) = true) (hok : s.readerStep c p r timedOut = .ok s') :
    Inv c p s' := by
  unfold System.readerStep at hok
  dsimp only at hok
  cases hpc : (s.readers r).pc with
  | idle =>
    rw [hpc] at hok
    cases hok
  | readFlag =>
    rw [hpc] at hok
    cases hok
    exact h.setPc hr (by rw [hpc]; rfl) (h.readFlag_zero hr)
  | readWritten readFlag =>
    simp only [hpc] at hok
    split at hok
    · cases hok
      refine h.setPc hr ?_ ?_
      · rw [hpc]
        cases timedOut <;> rfl
      · cases timedOut <;> trivial
    · rename_i hready
      rw [not_or, not_not] at hready
      cases hok
      have hreader := h.reader r hr
      rw [hpc] at hreader
      have hlt := (hreader hready.2).resolve_right (h.readerIdx r hr ▸ hready.1)
      exact h.setPc hr (by rw [hpc]; rfl) ⟨_, List.getElem?_eq_getElem hlt, trivial⟩
  | setFlag read =>
    simp only [hpc] at hok
    cases hok
    exact h.release hr hpc
  | recv =>
    simp only [hpc] at hok
    split at hok
    · rename_i hempty
      cases timedOut with
      | false =>
        cases hok
        have hreader := h.reader r hr
        rw [hpc] at hreader
        exact h.setPc hr (by rw [hpc]; rfl) hreader
      | true =>
        simp only [Op.patient, hpc, hempty] at hpatient
        cases hpatient
    · rename_i message localSocket hsocket
      obtain ⟨obj, hload, hinv⟩ := h.recv hr hpc hsocket
      rw [hload] at hok
      cases hok
      exact hinv
  | readOverflow | readCount | readLen | readBuffer =>
    simp only [hpc] at hok
    cases hok
    exact h.readChunk hr hpc trivial

end Reader

theorem Inv.step (h : Inv c p s) {op : Op α} (hop : (op.patient s && op.spares c s) = true)
    (hok : op.step c p s = .ok s') : Inv c p s' := by
  obtain ⟨hpatient, hspares⟩ := Bool.and_eq_true_iff.1 hop
  cases op with
  | enqueue obj =>
    simp only [Op.step] at hok
    split at hok
    · rename_i hpc
      split at hok
      · cases hok
        exact h.setWriter ⟨Nat.zero_le _, Nat.le_refl 0, fun _ r hr => absurd hr (Nat.not_lt_zero r)⟩
          (by rw [hpc]; rfl)
      · cases hok
    · cases hok
  | writer timedOut => exact h.writerStep hspares hok
  | dequeue r =>
    simp only [Op.step] at hok
    split at hok
    · rename_i hpc
      split at hok
      · rename_i hr
        cases hok
        exact h.setPc hr (by rw [hpc]; rfl) trivial
      · cases hok
    · cases hok
  | reader r timedOut =>
    simp only [Op.step] at hok
    split at hok
    · rename_i hr
      exact h.readerStep hr hpatient hok
    · cases hok

/-- Every reader gets the objects in order as long as it does not give up on one that did not fit, and
keeps them as long as nothing is written over their buffers. -/
theorem delivered_of_patient (c : Config) (p : Pickle α) {ops : List (Op α)}
    (hops : Guarded (Op.step c p) (fun s op => op.patient s && op.spares c s) (init c) ops) :
    Throughout (Op.step c p) (Delivered c p) (init c) ops :=
  throughout_of_inv (fun _ _ _ (h : Inv c p _) hop hok => h.step hop hok) (fun _ h => h.delivered)
    inv_init hops

/-- A dequeue that times out loses nothing, as long as its reader has not released the chunk of an
object that did not fit, and nothing is written over the buffers of an object. -/
theorem lossless_of_patient (c : Config) (p : Pickle α) {ops : List (Op α)}
    (hops : Guarded (Op.step c p) (fun s op => op.patient s && op.spares c s) (init c) ops) :
    Throughout (Op.step c p) (Lossless c p) (init c) ops :=
  throughout_of_inv (fun _ _ _ (h : Inv c p _) hop hok => h.step hop hok) (fun _ h => h.lossless)
    inv_init hops

def rawBytes : Pickle Bytes where
  dumps obj := (obj, [])
  loads buf _ := .ok buf
  loads_dumps _ := rfl

theorem twoChunks_pos : 0 < 2 := by decide

def twoChunks : Config where
  nReader := 1
  maxChunkBytes := 12
  maxChunks := 2
  maxChunks_pos := twoChunks_pos

def writerSteps (n : Nat) : List (Op Bytes) := List.replicate n (.writer false)

def readerSteps (n : Nat) : List (Op Bytes) := List.replicate n (.reader 0 false)

def largeAndSmall : List (Op Bytes) :=
  .enqueue [1, 2, 3, 4, 5, 6] :: writerSteps 7 ++ .dequeue 0 :: readerSteps 4 ++ writerSteps 1 ++
    readerSteps 1 ++ .enqueue [7] :: writerSteps 10 ++ .dequeue 0 :: readerSteps 7

theorem delivered_largeAndSmall :
    Throughout (Op.step twoChunks rawBytes) (Delivered twoChunks rawBytes) (init twoChunks) largeAndSmall :=
  delivered_of_patient twoChunks rawBytes (by decide +kernel)

/-- The reader gives up before the writer has sent what did not fit, and takes the next object. -/
def lateSocket : List (Op Bytes) :=
  .enqueue [1, 2, 3, 4, 5, 6] :: writerSteps 7 ++ .dequeue 0 :: readerSteps 4 ++
    .reader 0 true :: writerSteps 1 ++ .enqueue [7] :: writerSteps 10 ++ .dequeue 0 :: readerSteps 7

theorem not_delivered_lateSocket : ∃ s,
    runSteps (Op.step twoChunks rawBytes) (init twoChunks) lateSocket = .ok s ∧
      (s.readers 0).objects rawBytes s.data = [.ok [7]] ∧ s.enqueued = [[1, 2, 3, 4, 5, 6], [7]] ∧
      ¬ Delivered twoChunks rawBytes s := by
  refine ⟨_, rfl, rfl, rfl, fun h => ?_⟩
  exact absurd (h.ordered 0 Nat.one_pos) (by decide +kernel)

def outOfBand : Pickle Bytes where
  dumps obj := ([], [obj])
  loads _ buffers := .ok buffers.flatten
  loads_dumps _ := by rw [List.flatten_singleton]

def oneChunk : Config := { twoChunks with maxChunks := 1, maxChunks_pos := Nat.one_pos }

/-- The writer comes back to the chunk after the reader has released it. -/
def reusedChunk : List (Op Bytes) :=
  .enqueue [1] :: writerSteps 12 ++ .dequeue 0 :: readerSteps 9 ++ .enqueue [2] :: writerSteps 9

/-- An object that was read from a chunk with a buffer out of band changes with the chunk. -/
theorem not_delivered_reusedChunk : ∃ s,
    runSteps (Op.step oneChunk outOfBand) (init oneChunk) reusedChunk = .ok s ∧
      (s.readers 0).objects outOfBand s.data = [.ok [2]] ∧ s.enqueued = [[1]] ∧
      ¬ Delivered oneChunk outOfBand s := by
  have hrun : (fun s : System Bytes => ((s.readers 0).objects outOfBand s.data, s.enqueued)) <$>
      runSteps (Op.step oneChunk outOfBand) (init oneChunk) reusedChunk =
        .ok ([.ok [2]], [[1]]) := by decide +kernel
  obtain ⟨s, hs, hnow⟩ := Result.map_eq_ok.1 hrun
  obtain ⟨hobjects, henqueued⟩ := Prod.mk.inj hnow
  refine ⟨s, hs, hobjects, henqueued, fun h => ?_⟩
  have hordered := h.ordered 0 Nat.one_pos
  rw [hobjects, henqueued] at hordered
  exact absurd hordered (by decide)

def earlyTimeout : List (Op Bytes) :=
  .dequeue 0 :: readerSteps 1 ++ .reader 0 true :: .enqueue [7] :: writerSteps 10 ++
    .dequeue 0 :: readerSteps 7

theorem lossless_earlyTimeout :
    Throughout (Op.step twoChunks rawBytes) (Lossless twoChunks rawBytes) (init twoChunks) earlyTimeout :=
  lossless_of_patient twoChunks rawBytes (by decide +kernel)

/-- Where the reader gives up after it has released the chunk, the object comes too late or never. -/
theorem not_lossless_lateSocket : ∃ s,
    runSteps (Op.step twoChunks rawBytes) (init twoChunks) lateSocket = .ok s ∧
      (s.readers 0).objects rawBytes s.data = [.ok [7]] ∧ s.enqueued = [[1, 2, 3, 4, 5, 6], [7]] ∧
      ¬ Lossless twoChunks rawBytes s := by
  refine ⟨_, rfl, rfl, rfl, fun h => ?_⟩
  exact absurd (h.ordered 0 Nat.one_pos) (by decide +kernel)

end Vllm.MessageQueue
