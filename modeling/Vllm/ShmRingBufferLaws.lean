import Vllm.ShmRingBuffer

namespace Vllm

namespace ShmRingBuffer

section Bytes

theorem int2byte_spec {n : Int} (h₀ : 0 ≤ n) (h : n < 2 ^ 31) :
    ∃ bs, int2byte n = .ok bs ∧ bs.length = idNbytes ∧ byte2int bs = n := by
  have hrange : List.range idNbytes = [0, 1, 2, 3] := rfl
  refine ⟨_, if_pos ⟨by omega, h⟩, by simp, ?_⟩
  have hbyte : ∀ k : Int, (UInt8.ofNat (k % 256).toNat).toNat = (k % 256).toNat := by
    intro k
    rw [UInt8.toNat_ofNat']
    omega
  simp only [hrange, List.map_cons, List.map_nil, byte2int, List.foldr_cons, List.foldr_nil, hbyte,
    List.length_cons, List.length_nil]
  norm_num
  split <;> omega

variable {buf bs : List UInt8} {i : Nat}

theorem writeBytes_spec (buf bs : List UInt8) (h : i + bs.length ≤ buf.length) :
    ∃ buf', writeBytes buf i bs = .ok buf' ∧ buf'.length = buf.length ∧
      (buf'.drop i).take bs.length = bs ∧
      ∀ j n, j + n ≤ i ∨ i + bs.length ≤ j →
        (buf'.drop j).take n = (buf.drop j).take n := by
  have hi : (buf.take i).length = i := by
    rw [List.length_take]
    omega
  refine ⟨_, if_pos h, by simp; omega, ?_, fun j n hj => List.ext_getElem? fun k => ?_⟩
  · rw [List.append_assoc, List.drop_left' hi, List.take_left]
  · rw [List.getElem?_take, List.getElem?_take]
    split
    · rename_i hk
      rw [List.getElem?_drop, List.getElem?_drop, List.append_assoc]
      rcases hj with hj | hj
      · rw [List.getElem?_append_left (by omega), List.getElem?_take, if_pos (by omega)]
      · rw [List.getElem?_append_right (by omega), List.getElem?_append_right (by omega),
          List.getElem?_drop, hi]
        congr 1
        omega
    · rfl

end Bytes

def Apart (B : Int) (c c' : Chunk) : Prop :=
  c.address % B + c.size ≤ c'.address % B ∨ c'.address % B + c'.size ≤ c.address % B

/-- The chunks stand in this order between the virtual addresses `v` and `e`, none of them across a
multiple of the buffer size, with gaps where the end of the buffer was skipped. -/
def Laid (B : Int) : Int → List Chunk → Int → Prop
  | v, [], e => v = e
  | v, c :: cs, e => c.address % B = v % B ∧ v % B + c.size ≤ B ∧ (mdSize : Int) ≤ c.size ∧
    ∃ v', v + c.size ≤ v' ∧ Laid B v' cs e

section Layout

variable {B v e e' : Int} {c : Chunk} {cs : List Chunk}

theorem Laid.le (h : Laid B v cs e) : v ≤ e := by
  induction cs generalizing v with
  | nil => exact Int.le_of_eq h
  | cons c cs ih =>
    obtain ⟨-, -, hsize, v', hv', hcs⟩ := h
    have := ih hcs
    omega

theorem Laid.append (h : Laid B v cs e) (hfirst : cs = [] → e' = e) (he : e ≤ e')
    (haddr : c.address % B = e' % B) (hfit : e' % B + c.size ≤ B) (hsize : (mdSize : Int) ≤ c.size) :
    Laid B v (cs ++ [c]) (e' + c.size) := by
  induction cs generalizing v with
  | nil =>
    have hv : v = e' := (show v = e from h).trans (hfirst rfl).symm
    rw [hv]
    exact ⟨haddr, hfit, hsize, _, Int.le_refl _, rfl⟩
  | cons d cs ih =>
    obtain ⟨hd, hdfit, hdsize, v', hv', hcs⟩ := h
    refine ⟨hd, hdfit, hdsize, ?_⟩
    cases cs with
    | nil =>
      have hv : v' = e := hcs
      exact ⟨e', by omega, haddr, hfit, hsize, _, Int.le_refl _, rfl⟩
    | cons d' cs => exact ⟨v', hv', ih hcs nofun⟩

theorem Laid.shift (h : Laid B v cs e) : Laid B (v - B) cs (e - B) := by
  induction cs generalizing v with
  | nil =>
    show v - B = e - B
    rw [show v = e from h]
  | cons c cs ih =>
    obtain ⟨hc, hfit, hsize, v', hv', hcs⟩ := h
    refine ⟨?_, ?_, hsize, v' - B, by omega, ih hcs⟩
    · rw [Int.sub_emod_right, hc]
    · rw [Int.sub_emod_right]
      exact hfit

theorem Laid.mem (h : Laid B v cs e) (hc : c ∈ cs) : ∃ u, v ≤ u ∧ u + c.size ≤ e ∧
    c.address % B = u % B ∧ u % B + c.size ≤ B ∧ (mdSize : Int) ≤ c.size := by
  induction cs generalizing v with
  | nil => cases hc
  | cons d cs ih =>
    obtain ⟨hd, hfit, hsize, v', hv', hcs⟩ := h
    rcases List.mem_cons.mp hc with rfl | hc
    · have := hcs.le
      exact ⟨v, Int.le_refl v, by omega, hd, hfit, hsize⟩
    · obtain ⟨u, hu, hrest⟩ := ih hcs hc
      exact ⟨u, by omega, hrest⟩

theorem Laid.pairwise (h : Laid B v cs e) (hwindow : e ≤ v + B) : cs.Pairwise (Apart B) := by
  induction cs generalizing v with
  | nil => exact List.Pairwise.nil
  | cons c cs ih =>
    obtain ⟨hc, hfit, hsize, v', hv', hcs⟩ := h
    have hmd : (mdSize : Int) = 8 := rfl
    refine List.Pairwise.cons (fun d hd => ?_) (ih hcs (by omega))
    obtain ⟨u, hu, hue, hd, -, hdsize⟩ := hcs.mem hd
    unfold Apart
    rw [hc, hd]
    exact Cyclic.disjoint_of_window (by omega) (by omega) (by omega) (by omega)

end Layout

def Chunk.Headed (c : Chunk) : Prop :=
  ∃ idBytes sizeBytes data, c.bytes = idBytes ++ sizeBytes ++ data ∧
    idBytes.length = idNbytes ∧ byte2int idBytes = c.id ∧
    sizeBytes.length = idNbytes ∧ byte2int sizeBytes = c.size

structure Core (s : ShmRingBuffer) (live : List Chunk) : Prop where
  pos : 0 < s.dataBufferSize
  buf : s.dataBufferSize ≤ s.buf.length
  laid : Laid s.dataBufferSize s.dataBufferStart live s.dataBufferEnd
  start : 0 ≤ s.dataBufferStart
  window : s.dataBufferEnd - s.dataBufferStart ≤ s.dataBufferSize
  empty : live = [] → s.dataBufferStart = 0
  ids : live.map Chunk.id = Cyclic.interval idMax s.monotonicIdStart live.length
  idStart : s.monotonicIdStart < idMax
  idEnd : s.monotonicIdEnd = (s.monotonicIdStart + live.length) % idMax
  few : live.length < idMax
  metadata : ∀ i a, s.metadata.get? i = some a ↔ ∃ c ∈ live, c.id = i ∧ c.address = a
  intact : ∀ c ∈ live, s.bytesAt c.address c.size = c.bytes
  headed : ∀ c ∈ live, c.Headed

section Free

variable {s : ShmRingBuffer} {c : Chunk} {live : List Chunk}

theorem Core.nodup (h : Core s live) : (live.map Chunk.id).Nodup := by
  rw [h.ids]
  exact Cyclic.nodup_interval h.few.le

theorem Core.size (h : Core s live) : s.metadata.size = live.length := by
  rw [← List.length_map (f := Chunk.id)]
  refine Dict.size_of_keys h.nodup fun i => ?_
  rw [Dict.mem_keys, List.mem_map]
  constructor
  · rintro ⟨a, ha⟩
    obtain ⟨c, hc, hid, -⟩ := (h.metadata i a).mp ha
    exact ⟨c, hc, hid⟩
  · rintro ⟨c, hc, hid⟩
    exact ⟨c.address, (h.metadata i c.address).mpr ⟨c, hc, hid, rfl⟩⟩

theorem Core.head (h : Core s (c :: live)) : c.id = s.monotonicIdStart ∧
    live.map Chunk.id = Cyclic.interval idMax ((s.monotonicIdStart + 1) % idMax) live.length := by
  have hids := h.ids
  rw [List.map_cons, List.length_cons, Cyclic.interval_cons h.idStart] at hids
  exact List.cons.inj hids

theorem Core.next {d : Chunk} (h : Core s (c :: d :: live)) :
    ∃ v, s.dataBufferStart + (d.address - s.dataBufferStart) % s.dataBufferSize = v ∧
      s.dataBufferStart ≤ v ∧ Laid s.dataBufferSize v (d :: live) s.dataBufferEnd := by
  obtain ⟨-, -, hsize, v, hv, hlaid⟩ := h.laid
  have hwindow := h.window
  have hlaid' := hlaid
  obtain ⟨haddr, -, hdsize, v', hv', hrest⟩ := hlaid'
  have hle := hrest.le
  have hmd : (mdSize : Int) = 8 := rfl
  refine ⟨v, ?_, by omega, hlaid⟩
  rw [Int.sub_emod, haddr, ← Int.sub_emod, Int.emod_eq_of_lt (by omega) (by omega)]
  omega

theorem Core.metadata_erase (h : Core s (c :: live)) (i : Nat) (a : Int) :
    (s.metadata.erase s.monotonicIdStart).get? i = some a ↔
      ∃ d ∈ live, d.id = i ∧ d.address = a := by
  obtain ⟨hid, -⟩ := h.head
  have hnodup := h.nodup
  rw [List.map_cons, List.nodup_cons, hid] at hnodup
  rw [Dict.get?_erase]
  split
  · rename_i heq
    subst heq
    refine iff_of_false nofun ?_
    rintro ⟨d, hd, hdid, -⟩
    exact hnodup.1 (hdid ▸ List.mem_map_of_mem hd)
  · rename_i hne
    rw [h.metadata]
    constructor
    · rintro ⟨d, hd, hdid, hda⟩
      rcases List.mem_cons.mp hd with rfl | hd
      · exact absurd (hid.symm.trans hdid) hne
      · exact ⟨d, hd, hdid, hda⟩
    · rintro ⟨d, hd, hrest⟩
      exact ⟨d, List.mem_cons_of_mem c hd, hrest⟩

theorem Core.freeFirst_eq (h : Core s (c :: live)) : ∃ start stop, s.freeFirst =
      { s with
        metadata := s.metadata.erase s.monotonicIdStart
        monotonicIdStart := (s.monotonicIdStart + 1) % idMax
        dataBufferStart := start
        dataBufferEnd := stop } ∧
    Laid s.dataBufferSize start live stop ∧ 0 ≤ start ∧ stop - start ≤ s.dataBufferSize ∧
    (live = [] → start = 0) ∧ stop ≤ s.dataBufferEnd := by
  have hstart := h.start
  have hwindow := h.window
  have hle := h.laid.le
  cases live with
  | nil =>
    have hnone : (s.metadata.erase s.monotonicIdStart).get? ((s.monotonicIdStart + 1) % idMax) =
        none := by
      refine Option.eq_none_iff_forall_ne_some.mpr fun a ha => ?_
      obtain ⟨d, hd, -⟩ := (h.metadata_erase _ a).mp ha
      cases hd
    refine ⟨0, 0, ?_, rfl, Int.le_refl 0, by omega, fun _ => rfl, by omega⟩
    simp only [ShmRingBuffer.freeFirst, hnone]
  | cons d live =>
    obtain ⟨-, hids⟩ := h.head
    rw [List.length_cons, Cyclic.interval_cons (Nat.mod_lt _ (by decide)), List.map_cons] at hids
    have hsome : (s.metadata.erase s.monotonicIdStart).get? ((s.monotonicIdStart + 1) % idMax) =
        some d.address :=
      (h.metadata_erase _ _).mpr ⟨d, List.mem_cons_self, (List.cons.inj hids).1, rfl⟩
    obtain ⟨v, hv, hsv, hlaid⟩ := h.next
    refine ⟨v, s.dataBufferEnd, ?_, hlaid, by omega, by omega, nofun, Int.le_refl _⟩
    simp only [ShmRingBuffer.freeFirst, hsome, hv]

theorem Core.freeFirst (h : Core s (c :: live)) : Core s.freeFirst live ∧
    s.freeFirst.dataBufferEnd ≤ s.dataBufferEnd ∧
    s.freeFirst.dataBufferSize = s.dataBufferSize ∧
    s.freeFirst.monotonicIdStart = (s.monotonicIdStart + 1) % idMax := by
  obtain ⟨start, stop, heq, hlaid, hstart, hwindow, hempty, hle⟩ := h.freeFirst_eq
  have hend : s.monotonicIdEnd =
      ((s.monotonicIdStart + 1) % idMax + live.length) % idMax := by
    rw [h.idEnd, List.length_cons, Nat.mod_add_mod]
    congr 1
    omega
  rw [heq]
  refine ⟨?_, hle, rfl, rfl⟩
  exact {
    pos := h.pos
    buf := h.buf
    laid := hlaid
    start := hstart
    window := hwindow
    empty := hempty
    ids := h.head.2
    idStart := Nat.mod_lt _ (by decide)
    idEnd := hend
    few := Nat.lt_of_succ_lt h.few
    metadata := h.metadata_erase
    intact := fun d hd => h.intact d (List.mem_cons_of_mem c hd)
    headed := fun d hd => h.headed d (List.mem_cons_of_mem c hd) }

theorem Core.accessBuf (h : Core s live) (hc : c ∈ live) :
    s.accessBuf c.address = (c.bytes.drop mdSize, (c.id : Int), (c.size : Int)) := by
  have hpos := h.pos
  have hbuf := h.buf
  obtain ⟨u, -, -, haddr, hfit, hsize⟩ := h.laid.mem hc
  rw [← haddr] at hfit
  have hnonneg := Int.emod_nonneg c.address (show (s.dataBufferSize : Int) ≠ 0 by omega)
  obtain ⟨i, hi⟩ : ∃ i : Nat, c.address % s.dataBufferSize = i := ⟨_, (Int.toNat_of_nonneg hnonneg).symm⟩
  obtain ⟨idBytes, sizeBytes, data, hbytes, hidlen, hid, hsizelen, hsz⟩ := h.headed c hc
  have hread := h.intact c hc
  rw [bytesAt, hi, Int.toNat_natCast] at hread
  have hmd : mdSize = 8 := rfl
  have hnb : idNbytes = 4 := rfl
  have hheader : (s.buf.drop i).take mdSize = idBytes ++ sizeBytes := by
    rw [← Nat.min_eq_left (show mdSize ≤ c.size by omega), ← List.take_take, hread, hbytes,
      List.take_left' (by simp [hidlen, hsizelen, hmd, hnb])]
  have hslice : Py.slice s.buf (i : Int) ((i : Int) + (mdSize : Int)) = idBytes ++ sizeBytes := by
    rw [← Nat.cast_add, Py.slice_natCast _ (by omega), Nat.add_sub_cancel_left, hheader]
  have hfirst : Py.sliceTo (idBytes ++ sizeBytes) (idNbytes : Int) = idBytes := by
    rw [Py.sliceTo_natCast, List.take_left' hidlen]
  have hsecond : Py.slice (idBytes ++ sizeBytes) (idNbytes : Int) (mdSize : Int) = sizeBytes := by
    rw [Py.slice_natCast _ (by simp [hidlen]), List.drop_left' hidlen, List.take_of_length_le]
    omega
  have hdata : Py.slice s.buf ((i : Int) + (mdSize : Int)) ((i : Int) + (c.size : Int)) =
      c.bytes.drop mdSize := by
    rw [← Nat.cast_add, ← Nat.cast_add, Py.slice_natCast _ (by omega), ← hread, List.drop_take,
      List.drop_drop]
    congr 1
    omega
  simp only [ShmRingBuffer.accessBuf, hi, hslice, hfirst, hsecond, hid, hsz, hdata]

variable (isFreeFn : Nat → List UInt8 → Bool) (nbytes : Int)

/-- How many of the live chunks `free_buf` frees. -/
def freeCount : List Chunk → Int → Nat
  | [], _ => 0
  | c :: cs, freedBytes =>
    if freedBytes < nbytes ∧ isFreeFn c.id (c.bytes.drop mdSize) then
      freeCount cs (freedBytes + c.size) + 1
    else 0

structure Frees (s s' : ShmRingBuffer) (live : List Chunk) (k : Nat) : Prop where
  core : Core s' (live.drop k)
  stop : s'.dataBufferEnd ≤ s.dataBufferEnd
  size : s'.dataBufferSize = s.dataBufferSize
  idStart : s'.monotonicIdStart = (s.monotonicIdStart + k) % idMax

variable {isFreeFn nbytes}

theorem Frees.refl (h : Core s live) : Frees s s live 0 :=
  ⟨h, Int.le_refl _, rfl, (Nat.mod_eq_of_lt h.idStart).symm⟩

theorem Frees.cons {s' : ShmRingBuffer} {k : Nat} (h : Core s (c :: live))
    (hrest : Frees s.freeFirst s' live k) : Frees s s' (c :: live) (k + 1) := by
  obtain ⟨-, hstop, hsize, hids⟩ := h.freeFirst
  refine ⟨hrest.core, hrest.stop.trans hstop, hrest.size.trans hsize, ?_⟩
  rw [hrest.idStart, hids, Nat.mod_add_mod]
  congr 1
  omega

theorem Core.freeLoop {fuel : Nat} (h : Core s live) (hfuel : live.length ≤ fuel)
    (freedBytes : Int) : Frees s (freeLoop isFreeFn nbytes fuel s freedBytes) live
      (freeCount isFreeFn nbytes live freedBytes) := by
  induction fuel generalizing s live freedBytes with
  | zero =>
    rw [List.eq_nil_of_length_eq_zero (Nat.le_zero.mp hfuel)] at h ⊢
    exact .refl h
  | succ fuel ih =>
    unfold ShmRingBuffer.freeLoop
    cases live with
    | nil =>
      have hnone : s.metadata.get? s.monotonicIdStart = none := by
        refine Option.eq_none_iff_forall_ne_some.mpr fun a ha => ?_
        obtain ⟨d, hd, -⟩ := (h.metadata _ a).mp ha
        cases hd
      rw [hnone]
      exact .refl h
    | cons c live =>
      have hsome : s.metadata.get? s.monotonicIdStart = some c.address :=
        (h.metadata _ _).mpr ⟨c, List.mem_cons_self, h.head.1, rfl⟩
      rw [hsome]
      simp only [h.accessBuf List.mem_cons_self, freeCount, h.head.1]
      rw [← h.head.1]
      by_cases hlt : freedBytes < nbytes
      · by_cases hfree : isFreeFn c.id (c.bytes.drop mdSize) = true
        · rw [if_pos hlt, if_pos hfree, if_pos ⟨hlt, hfree⟩]
          exact .cons h (ih h.freeFirst.1 (Nat.le_of_succ_le_succ hfuel) _)
        · rw [if_pos hlt, if_neg hfree, if_neg fun hand => hfree hand.2]
          exact .refl h
      · rw [if_neg hlt, if_neg fun hand => hlt hand.1]
        exact .refl h

end Free

end ShmRingBuffer

end Vllm
