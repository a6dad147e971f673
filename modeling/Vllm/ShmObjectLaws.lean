import Vllm.ShmRingBufferRun
import Vllm.ShmObjectSystem

namespace Vllm

namespace ShmRingBuffer

variable {s : ShmRingBuffer} {live : List Chunk} {c d : Chunk} {off : Nat} {bs : List UInt8}

section Write

def Chunk.write (c : Chunk) (off : Nat) (bs : List UInt8) : Chunk :=
  { c with
    bytes := c.bytes.take (mdSize + off) ++ bs ++ c.bytes.drop (mdSize + off + bs.length) }

def writeAt (live : List Chunk) (id off : Nat) (bs : List UInt8) : List Chunk :=
  live.map fun d => if d.id = id then d.write off bs else d

theorem Core.unique (h : Core s live) (hc : c ∈ live) (hd : d ∈ live) (heq : d.id = c.id) : d = c :=
  List.inj_on_of_nodup_map h.nodup hd hc heq

instance (B : Int) : Std.Symm (Apart B) := ⟨fun _ _ h => Or.symm h⟩

theorem Core.apart (h : Core s live) (hc : c ∈ live) (hd : d ∈ live) (hne : d.id ≠ c.id) :
    Apart s.dataBufferSize d c := by
  have hwindow := h.window
  refine (h.laid.pairwise (by omega)).forall hd hc ?_
  rintro rfl
  exact hne rfl

theorem Core.position (h : Core s live) (hc : c ∈ live) : ∃ i : Nat,
    c.address % s.dataBufferSize = i ∧ i + c.size ≤ s.dataBufferSize ∧ mdSize ≤ c.size := by
  obtain ⟨u, -, -, haddr, hfit, hsize⟩ := h.laid.mem hc
  have hpos := h.pos
  rw [← haddr] at hfit
  have hnonneg := Int.emod_nonneg c.address (show (s.dataBufferSize : Int) ≠ 0 by omega)
  refine ⟨_, (Int.toNat_of_nonneg hnonneg).symm, by omega, by omega⟩

theorem Core.length_bytes (h : Core s live) (hc : c ∈ live) : c.bytes.length = c.size := by
  obtain ⟨i, hi, hfit, -⟩ := h.position hc
  have hbuf := h.buf
  rw [← h.intact c hc, bytesAt, hi, Int.toNat_natCast, List.length_take, List.length_drop]
  omega

theorem take_three {l : List UInt8} {a b n : Nat} (h : a + b ≤ n) :
    l.take n = l.take a ++ (l.drop a).take b ++ (l.drop (a + b)).take (n - (a + b)) := by
  conv_lhs => rw [show n = a + b + (n - (a + b)) by omega]
  rw [List.take_add, List.take_add]

theorem Laid.map {B v e : Int} {g : Chunk → Chunk} (h : Laid B v live e)
    (haddr : ∀ d, (g d).address = d.address) (hsize : ∀ d, (g d).size = d.size) :
    Laid B v (live.map g) e := by
  induction live generalizing v with
  | nil => exact h
  | cons d live ih =>
    obtain ⟨hd, hfit, hsz, v', hv', hrest⟩ := h
    refine ⟨?_, ?_, ?_, v', ?_, ih hrest⟩
    · rw [haddr, hd]
    · rw [hsize]
      exact hfit
    · rw [hsize]
      exact hsz
    · rw [hsize]
      exact hv'

theorem Chunk.Headed.write (h : c.Headed) (off : Nat) (bs : List UInt8) : (c.write off bs).Headed := by
  obtain ⟨idBytes, sizeBytes, data, hbytes, hidlen, hid, hszlen, hsz⟩ := h
  refine ⟨idBytes, sizeBytes, data.take off ++ bs ++ c.bytes.drop (mdSize + off + bs.length), ?_,
    hidlen, hid, hszlen, hsz⟩
  have hlen : (idBytes ++ sizeBytes).length = mdSize := by
    rw [List.length_append, hidlen, hszlen]
    rfl
  simp only [Chunk.write]
  rw [hbytes, ← hlen, List.take_length_add_append, ← hbytes]
  simp only [List.append_assoc]

theorem Core.writeView (h : Core s live) (hc : c ∈ live) (hfit : mdSize + off + bs.length ≤ c.size) :
    ∃ buf, s.writeView c.address off bs = .ok { s with buf } ∧
      Core { s with buf } (writeAt live c.id off bs) := by
  obtain ⟨i, hi, hsize, hmd⟩ := h.position hc
  have hbuf := h.buf
  have hlen := h.length_bytes hc
  obtain ⟨buf, hok, hlength, hread, hframe⟩ := writeBytes_spec s.buf bs
    (i := i + mdSize + off) (by omega)
  have hview : off + bs.length ≤ (s.accessBuf c.address).1.length := by
    rw [h.accessBuf hc, List.length_drop]
    omega
  refine ⟨buf, ?_, ?_⟩
  · rw [ShmRingBuffer.writeView, if_pos hview, hi, Int.toNat_natCast, hok, Result.ok_bind]
    rfl
  have hmem : ∀ d ∈ writeAt live c.id off bs, (d.id ≠ c.id ∧ d ∈ live) ∨ d = c.write off bs := by
    intro d hd
    obtain ⟨d', hd', rfl⟩ := List.mem_map.mp hd
    split
    · rename_i heq
      rw [h.unique hc hd' heq]
      exact .inr rfl
    · rename_i hne
      exact .inl ⟨hne, hd'⟩
  have hid : ∀ d : Chunk, (if d.id = c.id then d.write off bs else d).id = d.id := by
    intro d
    split <;> rfl
  have haddr : ∀ d : Chunk, (if d.id = c.id then d.write off bs else d).address = d.address := by
    intro d
    split <;> rfl
  have hsz : ∀ d : Chunk, (if d.id = c.id then d.write off bs else d).size = d.size := by
    intro d
    split <;> rfl
  have hids : (writeAt live c.id off bs).map Chunk.id = live.map Chunk.id := by
    rw [writeAt, List.map_map]
    exact List.map_congr_left fun d _ => hid d
  have hlive : (writeAt live c.id off bs).length = live.length := List.length_map _
  constructor
  case pos => exact h.pos
  case buf => exact hlength.symm ▸ hbuf
  case laid => exact h.laid.map haddr hsz
  case start => exact h.start
  case window => exact h.window
  case empty => exact fun hnil => h.empty (List.map_eq_nil_iff.mp hnil)
  case ids =>
    rw [hids, hlive]
    exact h.ids
  case idStart => exact h.idStart
  case idEnd =>
    rw [hlive]
    exact h.idEnd
  case few =>
    rw [hlive]
    exact h.few
  case metadata =>
    intro k a
    rw [show ({ s with buf } : ShmRingBuffer).metadata = s.metadata from rfl, h.metadata]
    constructor
    · rintro ⟨d, hd, hdid, hda⟩
      exact ⟨_, List.mem_map_of_mem hd, (hid d).trans hdid, (haddr d).trans hda⟩
    · rintro ⟨d, hd, hdid, hda⟩
      obtain ⟨d', hd', rfl⟩ := List.mem_map.mp hd
      exact ⟨d', hd', (hid d').symm.trans hdid, (haddr d').symm.trans hda⟩
  case intact =>
    intro d hd
    rcases hmem d hd with ⟨hne, hd⟩ | rfl
    · obtain ⟨j, hj, -, -⟩ := h.position hd
      have hapart := h.apart hc hd hne
      rw [Apart, hi, hj] at hapart
      rw [← h.intact d hd]
      simp only [bytesAt, hj, Int.toNat_natCast]
      exact hframe j d.size (by omega)
    · have hold := h.intact c hc
      simp only [bytesAt, hi, Int.toNat_natCast] at hold
      simp only [Chunk.write, bytesAt, hi, Int.toNat_natCast]
      -- before, inside and behind the write
      rw [take_three hfit, hframe i (mdSize + off) (.inl (by omega)), List.drop_drop,
        show i + (mdSize + off) = i + mdSize + off by omega, hread, List.drop_drop,
        hframe (i + (mdSize + off + bs.length)) _ (.inr (by omega)), ← hold, List.take_take,
        Nat.min_eq_left (by omega), List.drop_take, List.drop_drop]
  case headed =>
    intro d hd
    rcases hmem d hd with ⟨-, hd⟩ | rfl
    · exact h.headed d hd
    · exact (h.headed c hc).write off bs

end Write

section Count

def Chunk.count (c : Chunk) : Int := byte2int ((c.bytes.drop mdSize).take flagBytes)

theorem Core.readerCount (h : Core s live) (hc : c ∈ live) : s.readerCount c.address = c.count := by
  rw [ShmRingBuffer.readerCount, h.accessBuf hc, Chunk.count]

theorem count_write_zero (hlen : mdSize ≤ c.bytes.length) (hbs : bs.length = flagBytes) :
    (c.write 0 bs).count = byte2int bs := by
  have htake : (c.bytes.take mdSize).length = mdSize := by
    rw [List.length_take]
    omega
  simp only [Chunk.count, Chunk.write, Nat.add_zero]
  rw [List.append_assoc, List.drop_left' htake, List.take_left' hbs]

theorem count_write_of_le (hoff : flagBytes ≤ off) (hlen : mdSize + off ≤ c.bytes.length) :
    (c.write off bs).count = c.count := by
  simp only [Chunk.count, Chunk.write]
  rw [List.append_assoc, List.drop_append_of_le_length (by rw [List.length_take]; omega),
    List.take_append_of_le_length (by rw [List.length_drop, List.length_take]; omega), List.drop_take,
    List.take_take, Nat.min_eq_left (by omega)]

theorem mem_writeAt (h : Core s live) (hc : c ∈ live) (hd : d ∈ writeAt live c.id off bs) :
    (d.id ≠ c.id ∧ d ∈ live) ∨ d = c.write off bs := by
  obtain ⟨d', hd', rfl⟩ := List.mem_map.mp hd
  split
  · rename_i heq
    rw [h.unique hc hd' heq]
    exact .inr rfl
  · rename_i hne
    exact .inl ⟨hne, hd'⟩

theorem exists_mem_writeAt {id : Nat} {p : Nat → Int → Nat → Prop} :
    (∃ d ∈ writeAt live id off bs, p d.id d.address d.size) ↔
      ∃ d ∈ live, p d.id d.address d.size := by
  have hsame : ∀ d : Chunk, p (if d.id = id then d.write off bs else d).id
      (if d.id = id then d.write off bs else d).address
      (if d.id = id then d.write off bs else d).size ↔ p d.id d.address d.size := by
    intro d
    split <;> rfl
  constructor
  · rintro ⟨d, hd, hp⟩
    obtain ⟨d', hd', rfl⟩ := List.mem_map.mp hd
    exact ⟨d', hd', (hsame d').mp hp⟩
  · rintro ⟨d, hd, hp⟩
    exact ⟨_, List.mem_map_of_mem hd, (hsame d).mpr hp⟩

theorem writeAt_last (hnew : c.id ∉ live.map Chunk.id) :
    writeAt (live ++ [c]) c.id off bs = live ++ [c.write off bs] := by
  have hsame : writeAt live c.id off bs = live := by
    rw [writeAt]
    refine (List.map_congr_left fun d hd => ?_).trans (List.map_id live)
    have hne : d.id ≠ c.id := fun heq => hnew (heq ▸ List.mem_map_of_mem hd)
    rw [if_neg hne, id]
  rw [writeAt, List.map_append, List.map_singleton, if_pos rfl]
  exact congrArg (· ++ [c.write off bs]) hsame

theorem Core.new (h : Core s (live ++ [c])) : c.id ∉ live.map Chunk.id := by
  have hnodup := h.nodup
  rw [List.map_append, List.nodup_append] at hnodup
  exact fun hmem => hnodup.2.2 c.id hmem c.id List.mem_cons_self rfl

theorem Core.writeLast (h : Core s (live ++ [c])) (off : Nat) (bs : List UInt8)
    (hfit : mdSize + off + bs.length ≤ c.size) :
    ∃ buf, s.writeView c.address off bs = .ok { s with buf } ∧
      Core { s with buf } (live ++ [c.write off bs]) := by
  obtain ⟨buf, hok, hcore⟩ := h.writeView (List.mem_append_right live List.mem_cons_self) hfit
  rw [writeAt_last h.new] at hcore
  exact ⟨buf, hok, hcore⟩

end Count

end ShmRingBuffer

namespace ShmObjectStorage

open ShmRingBuffer

variable {κ : Type} [DecidableEq κ] {s s' : ShmObjectStorage κ} {live : List Chunk} {c : Chunk}
variable {D : Nat → Nat} {key : κ} {ref : ShmRef}

structure Indexed (s : ShmObjectStorage κ) (live : List Chunk) : Prop where
  keys : ∀ key ref, s.keyIndex.get? key = some ref ↔
    s.idIndex.get? ref.monotonicId = some key ∧
      ∃ c ∈ live, c.id = ref.monotonicId ∧ c.address = ref.address
  ids : ∀ id, (∃ key, s.idIndex.get? id = some key) ↔ ∃ c ∈ live, c.id = id
  flags : ∀ id, (∃ w, s.writerFlag.get? id = some w) ↔ ∃ c ∈ live, c.id = id

structure Stored (s : ShmObjectStorage κ) (live : List Chunk) : Prop where
  inv : Inv ⟨s.ringBuffer, live⟩
  indexed : Indexed s live
  room : ∀ c ∈ live, mdSize + flagBytes ≤ c.size

/-- The writer's count, taken once for every reader, is the readers' count and what they owe. -/
def Balanced (s : ShmObjectStorage κ) (live : List Chunk) (D : Nat → Nat) : Prop :=
  ∀ c ∈ live, ∃ w k : Nat, s.writerFlag.get? c.id = some w ∧ c.count = k ∧
    w * s.nReaders = k + D c.id

theorem Stored.core (h : Stored s live) : Core s.ringBuffer live := h.inv.core

omit [DecidableEq κ] in
theorem Balanced.isFree_iff (hD : Balanced s live D) (hc : c ∈ live) :
    s.defaultIsFreeCheck c.id (c.bytes.drop mdSize) = true ↔ D c.id = 0 := by
  obtain ⟨w, k, hw, hk, hbal⟩ := hD c hc
  have hcount : byte2int ((c.bytes.drop mdSize).take 4) = k := hk
  simp only [defaultIsFreeCheck, hw, decide_eq_true_eq, ge_iff_le, hcount]
  rw [← Nat.cast_mul, hbal]
  omega

theorem Stored.chunk (h : Stored s live) (hkey : s.keyIndex.get? key = some ref) :
    ∃ c ∈ live, c.id = ref.monotonicId ∧ c.address = ref.address :=
  ((h.indexed.keys key ref).mp hkey).2

theorem Stored.incrementWriterFlag (h : Stored s live) {id : Nat} (hid : ∃ c ∈ live, c.id = id) :
    Stored (s.incrementWriterFlag id) live := by
  refine ⟨h.inv, ⟨h.indexed.keys, h.indexed.ids, fun i => ?_⟩, h.room⟩
  rw [← h.indexed.flags i]
  simp only [ShmObjectStorage.incrementWriterFlag, Dict.get?_set]
  split
  · rename_i heq
    subst heq
    exact iff_of_true ⟨_, rfl⟩ ((h.indexed.flags id).mpr hid)
  · rfl

omit [DecidableEq κ] in
theorem Balanced.incrementWriterFlag (hD : Balanced s live D) (id : Nat) :
    Balanced (s.incrementWriterFlag id) live
      (fun i => D i + if i = id then s.nReaders else 0) := by
  intro c hc
  obtain ⟨w, k, hw, hk, hbal⟩ := hD c hc
  by_cases heq : c.id = id
  · refine ⟨w + 1, k, ?_, hk, ?_⟩
    · simp only [ShmObjectStorage.incrementWriterFlag, Dict.get?_set, Dict.getD, ← heq, hw,
        Option.getD_some, if_true]
    · simp only [ShmObjectStorage.incrementWriterFlag, if_pos heq]
      rw [Nat.add_mul, hbal]
      omega
  · refine ⟨w, k, ?_, hk, ?_⟩
    · simp only [ShmObjectStorage.incrementWriterFlag, Dict.get?_set, if_neg (Ne.symm heq), hw]
    · simp only [ShmObjectStorage.incrementWriterFlag, if_neg heq]
      omega

theorem Stored.writeView (h : Stored s live) (hc : c ∈ live) (off : Nat) (bs : List UInt8)
    (hfit : mdSize + off + bs.length ≤ c.size) : ∃ ring,
      s.ringBuffer.writeView c.address off bs = .ok ring ∧
      Stored { s with ringBuffer := ring } (writeAt live c.id off bs) := by
  obtain ⟨buf, hok, hcore⟩ := h.core.writeView hc hfit
  refine ⟨_, hok, ⟨hcore, h.inv.start_lt⟩, ⟨fun key ref => ?_, fun id => ?_, fun id => ?_⟩, ?_⟩
  · rw [exists_mem_writeAt (p := fun i a _ => i = ref.monotonicId ∧ a = ref.address)]
    exact h.indexed.keys key ref
  · rw [exists_mem_writeAt (p := fun i _ _ => i = id)]
    exact h.indexed.ids id
  · rw [exists_mem_writeAt (p := fun i _ _ => i = id)]
    exact h.indexed.flags id
  · intro d hd
    rcases mem_writeAt h.core hc hd with ⟨-, hd⟩ | rfl
    · exact h.room d hd
    · exact h.room c hc

theorem Stored.incrementReaderFlag (h : Stored s live) (hD : Balanced s live D) (hc : c ∈ live)
    (hmax : c.count + 1 < 2 ^ 31) (hdebt : 0 < D c.id) : ∃ ring live',
      s.ringBuffer.incrementReaderFlag c.address = .ok ring ∧
      Stored { s with ringBuffer := ring } live' ∧
      Balanced { s with ringBuffer := ring } live' (fun i => D i - if i = c.id then 1 else 0) := by
  obtain ⟨w, k, hw, hk, hbal⟩ := hD c hc
  obtain ⟨bs, hbs, hlen, hval⟩ := int2byte_spec (n := c.count + 1) (by omega) hmax
  have hroom := h.room c hc
  have hflag : flagBytes = idNbytes := rfl
  obtain ⟨ring, hok, hstored⟩ := h.writeView hc 0 bs (by omega)
  refine ⟨ring, writeAt live c.id 0 bs, ?_, hstored, fun d hd => ?_⟩
  · rw [ShmRingBuffer.incrementReaderFlag, h.core.readerCount hc, hbs, Result.ok_bind, hok]
  · rcases mem_writeAt h.core hc hd with ⟨hne, hd⟩ | rfl
    · obtain ⟨w', k', hw', hk', hbal'⟩ := hD d hd
      exact ⟨w', k', hw', hk', by simp only [if_neg hne]; omega⟩
    · refine ⟨w, k + 1, hw, ?_, ?_⟩
      · rw [count_write_zero (by rw [h.core.length_bytes hc]; omega) hlen, hval, hk]
        push_cast
        rfl
      · have hid : (c.write 0 bs).id = c.id := rfl
        simp only [hid, if_true]
        omega

theorem Indexed.forgetOne (h : Indexed s (c :: live)) (hnodup : ((c :: live).map Chunk.id).Nodup)
    (hkey : s.idIndex.get? c.id = some key) :
    Indexed
      { s with
        keyIndex := s.keyIndex.erase key
        idIndex := s.idIndex.erase c.id
        writerFlag := s.writerFlag.erase c.id } live := by
  have hnot : ∀ d ∈ live, d.id ≠ c.id := by
    intro d hd heq
    rw [List.map_cons, List.nodup_cons] at hnodup
    exact hnodup.1 (heq ▸ List.mem_map_of_mem hd)
  -- without the first chunk, whose id no other chunk has
  have hrest : ∀ (i : Nat) (p : Chunk → Prop), i ≠ c.id →
      ((∃ d ∈ c :: live, d.id = i ∧ p d) ↔ ∃ d ∈ live, d.id = i ∧ p d) := by
    intro i p hi
    constructor
    · rintro ⟨d, hd, hdi, hp⟩
      rcases List.mem_cons.mp hd with rfl | hd
      · exact absurd hdi.symm hi
      · exact ⟨d, hd, hdi, hp⟩
    · rintro ⟨d, hd, hdi, hp⟩
      exact ⟨d, List.mem_cons_of_mem c hd, hdi, hp⟩
  have hids : ∀ {α : Type} (D : Dict Nat α) (i : Nat),
      ((∃ v, D.get? i = some v) ↔ ∃ d ∈ c :: live, d.id = i) →
      ((∃ v, (D.erase c.id).get? i = some v) ↔ ∃ d ∈ live, d.id = i) := by
    intro α D i hiff
    rw [Dict.get?_erase]
    split
    · rename_i heq
      refine iff_of_false (by rintro ⟨_, hv⟩; cases hv) ?_
      rintro ⟨d, hd, hdi⟩
      exact hnot d hd (hdi.trans heq.symm)
    · rename_i hne
      rw [hiff]
      have := hrest i (fun _ => True) (Ne.symm hne)
      simpa using this
  refine ⟨fun k ref => ?_, fun i => hids s.idIndex i (h.ids i), fun i => hids s.writerFlag i (h.flags i)⟩
  have howner : s.keyIndex.get? key = some ⟨c.address, c.id⟩ :=
    (h.keys key ⟨c.address, c.id⟩).mpr ⟨hkey, c, List.mem_cons_self, rfl, rfl⟩
  simp only [Dict.get?_erase]
  by_cases hc : c.id = ref.monotonicId
  · -- the freed chunk is under its own key only
    rw [if_pos hc]
    refine iff_of_false (fun hk => ?_) (by rintro ⟨hk, -⟩; cases hk)
    split at hk
    · cases hk
    · rename_i hne
      have := ((h.keys k ref).mp hk).1
      rw [← hc, hkey, Option.some_inj] at this
      exact hne this
  · rw [if_neg hc]
    by_cases hk : key = k
    · rw [if_pos hk]
      refine iff_of_false nofun ?_
      rintro ⟨hid, d, hd, hdi, hda⟩
      have hk' := (h.keys k ref).mpr ⟨hid, d, List.mem_cons_of_mem c hd, hdi, hda⟩
      rw [← hk, howner, Option.some_inj] at hk'
      exact hc (congrArg ShmRef.monotonicId hk')
    · rw [if_neg hk, h.keys k ref, hrest ref.monotonicId (fun d => d.address = ref.address) (Ne.symm hc)]

theorem Indexed.forget {freed : List Chunk} (h : Indexed s (freed ++ live))
    (hnodup : ((freed ++ live).map Chunk.id).Nodup) : ∃ s', s.forget (freed.map Chunk.id) = .ok s' ∧
      Indexed s' live ∧ s'.ringBuffer = s.ringBuffer ∧ s'.nReaders = s.nReaders ∧
      s'.maxObjectSize = s.maxObjectSize ∧
      (∀ c ∈ live, s'.writerFlag.get? c.id = s.writerFlag.get? c.id) ∧
      (∀ key ref, s.keyIndex.get? key = some ref → (∃ c ∈ live, c.id = ref.monotonicId) →
        s'.keyIndex.get? key = some ref) ∧
      ∀ key, s.keyIndex.get? key = none → s'.keyIndex.get? key = none := by
  induction freed generalizing s with
  | nil => exact ⟨s, rfl, h, rfl, rfl, rfl, fun _ _ => rfl, fun _ _ hk _ => hk, fun _ hk => hk⟩
  | cons c freed ih =>
    obtain ⟨key, hkey⟩ := (h.ids c.id).mpr ⟨c, List.mem_cons_self, rfl⟩
    have hnodup' := hnodup
    rw [List.cons_append, List.map_cons, List.nodup_cons] at hnodup'
    have hone := h.forgetOne hnodup hkey
    obtain ⟨s', hok, hs', hring, hn, hmax, hflags, hkeys, hmissing⟩ := ih hone hnodup'.2
    have hne : ∀ d ∈ live, c.id ≠ d.id := fun d hd heq =>
      hnodup'.1 (heq ▸ List.mem_map_of_mem (List.mem_append_right _ hd))
    refine ⟨s', ?_, hs', hring, hn, hmax, fun d hd => ?_, fun k ref hk hlive => ?_, fun k hk => ?_⟩
    · simp only [List.map_cons, ShmObjectStorage.forget, hkey]
      exact hok
    · rw [hflags d hd]
      simp only [Dict.get?_erase]
      rw [if_neg (hne d hd)]
    · obtain ⟨d, hd, hid⟩ := hlive
      obtain ⟨hid', d', hd', hd'id, hd'a⟩ := (h.keys k ref).mp hk
      have hcid : c.id ≠ ref.monotonicId := hid ▸ hne d hd
      refine hkeys k ref ((hone.keys k ref).mpr ⟨?_, d', ?_, hd'id, hd'a⟩) ⟨d, hd, hid⟩
      · simp only [Dict.get?_erase]
        rw [if_neg hcid, hid']
      · rcases List.mem_cons.mp hd' with rfl | hd'
        · exact absurd hd'id hcid
        · exact hd'
    · refine hmissing k ?_
      simp only [Dict.get?_erase]
      rw [hk, ite_self]

omit [DecidableEq κ] in
theorem freeCount_isFree {isFreeFn : Nat → List UInt8 → Bool} {nbytes freedBytes : Int}
    (hc : c ∈ live.take (freeCount isFreeFn nbytes live freedBytes)) :
    isFreeFn c.id (c.bytes.drop mdSize) = true := by
  induction live generalizing freedBytes with
  | nil => cases hc
  | cons d live ih =>
    unfold freeCount at hc
    split at hc
    · rename_i hfree
      rw [List.take_succ_cons] at hc
      rcases List.mem_cons.mp hc with rfl | hc
      · exact hfree.2
      · exact ih hc
    · cases hc

structure KeepsOwed (D : Nat → Nat) (s s' : ShmObjectStorage κ) (live' : List Chunk) : Prop where
  stored : Stored s' live'
  nReaders : s'.nReaders = s.nReaders
  maxObjectSize : s'.maxObjectSize = s.maxObjectSize
  keys : ∀ key ref, s.keyIndex.get? key = some ref → D ref.monotonicId ≠ 0 →
    s'.keyIndex.get? key = some ref

theorem KeepsOwed.trans {t : ShmObjectStorage κ} {live' : List Chunk} (h : KeepsOwed D s t live)
    (h' : KeepsOwed D t s' live') : KeepsOwed D s s' live' :=
  ⟨h'.stored, h'.nReaders.trans h.nReaders, h'.maxObjectSize.trans h.maxObjectSize,
    fun key ref hkey hne => h'.keys key ref (h.keys key ref hkey hne) hne⟩

def Closed (live : List Chunk) (D : Nat → Nat) : Prop := ∀ i, D i ≠ 0 → ∃ c ∈ live, c.id = i

theorem Stored.freeUnused (h : Stored s live) (hD : Balanced s live D) : ∃ s' k,
    s.freeUnused = .ok s' ∧ KeepsOwed D s s' (live.drop k) ∧ Balanced s' (live.drop k) D ∧
      (∀ c ∈ live, D c.id ≠ 0 → c ∈ live.drop k) ∧
      ∀ key, s.keyIndex.get? key = none → s'.keyIndex.get? key = none := by
  obtain ⟨ring, hok, -, hinv⟩ := h.inv.freeBuf s.defaultIsFreeCheck
    (some (2 * s.maxObjectSize)) rfl
  simp only at hok hinv
  obtain ⟨k, hk⟩ : ∃ k, k = freeCount s.defaultIsFreeCheck
      ((some (2 * (s.maxObjectSize : Int))).getD s.ringBuffer.dataBufferSize) live 0 := ⟨_, rfl⟩
  rw [← hk] at hok hinv
  have hsplit := List.take_append_drop k live
  have hindexed : Indexed { s with ringBuffer := ring } (live.take k ++ live.drop k) := by
    rw [hsplit]
    exact ⟨h.indexed.keys, h.indexed.ids, h.indexed.flags⟩
  obtain ⟨s', hforget, hs', hring, hn, hmax, hflags, hkeys, hmissing⟩ := hindexed.forget
    (by rw [hsplit]; exact h.core.nodup)
  have hfree : ∀ c ∈ live.take k, D c.id = 0 := by
    intro c hc
    have hmem := List.mem_of_mem_take hc
    rw [hk] at hc
    exact (hD.isFree_iff hmem).mp (freeCount_isFree hc)
  have hkept : ∀ c ∈ live, D c.id ≠ 0 → c ∈ live.drop k := by
    intro c hc hne
    rw [← hsplit, List.mem_append] at hc
    exact hc.resolve_left fun hc => hne (hfree c hc)
  refine ⟨s', k, ?_, ⟨?_, hn, hmax, fun key ref hkey hne => ?_⟩, fun c hc => ?_, hkept,
    hmissing⟩
  · rw [ShmObjectStorage.freeUnused, hok]
    exact hforget
  · refine ⟨?_, hs', fun c hc => h.room c (List.mem_of_mem_drop hc)⟩
    rw [hring]
    exact hinv
  · obtain ⟨c, hc, hid, -⟩ := h.chunk hkey
    exact hkeys key ref hkey ⟨c, hkept c hc (hid ▸ hne), hid⟩
  · obtain ⟨w, n, hw, hcount, hbal⟩ := hD c (List.mem_of_mem_drop hc)
    refine ⟨w, n, ?_, hcount, ?_⟩
    · rw [hflags c hc]
      exact hw
    · rw [hn]
      exact hbal

theorem Indexed.add (h : Indexed s live) (hnew : c.id ∉ live.map Chunk.id)
    (hkey : s.keyIndex.get? key = none) {w : Nat}
    (hkeys : s'.keyIndex = s.keyIndex.set key ⟨c.address, c.id⟩)
    (hids : s'.idIndex = s.idIndex.set c.id key)
    (hflags : s'.writerFlag = s.writerFlag.set c.id w) : Indexed s' (live ++ [c]) := by
  have hne : ∀ d ∈ live, d.id ≠ c.id := fun d hd heq => hnew (heq ▸ List.mem_map_of_mem hd)
  -- with one more chunk, whose id no other chunk has
  have hmore : ∀ (i : Nat) (p : Chunk → Prop), i ≠ c.id →
      ((∃ d ∈ live ++ [c], d.id = i ∧ p d) ↔ ∃ d ∈ live, d.id = i ∧ p d) := by
    intro i p hi
    constructor
    · rintro ⟨d, hd, hdi, hp⟩
      rcases List.mem_append.mp hd with hd | hd
      · exact ⟨d, hd, hdi, hp⟩
      · rw [List.mem_singleton.mp hd] at hdi
        exact absurd hdi.symm hi
    · rintro ⟨d, hd, hdi, hp⟩
      exact ⟨d, List.mem_append_left _ hd, hdi, hp⟩
  have hset : ∀ {α : Type} (D : Dict Nat α) (v : α) (i : Nat),
      ((∃ v, D.get? i = some v) ↔ ∃ d ∈ live, d.id = i) →
      ((∃ v', (D.set c.id v).get? i = some v') ↔ ∃ d ∈ live ++ [c], d.id = i) := by
    intro α D v i hiff
    rw [Dict.get?_set]
    split
    · rename_i heq
      exact iff_of_true ⟨v, rfl⟩ ⟨c, List.mem_append_right _ List.mem_cons_self, heq⟩
    · rename_i hne'
      have := hmore i (fun _ => True) (Ne.symm hne')
      rw [hiff]
      simpa using this.symm
  refine ⟨fun k ref => ?_, fun i => hids ▸ hset _ _ i (h.ids i),
    fun i => hflags ▸ hset _ _ i (h.flags i)⟩
  rw [hkeys, hids]
  simp only [Dict.get?_set]
  by_cases hc : c.id = ref.monotonicId
  · rw [if_pos hc]
    constructor
    · intro hk
      split at hk
      · rename_i heq
        rw [Option.some_inj] at hk
        exact ⟨congrArg some heq, c, List.mem_append_right _ List.mem_cons_self, hc, by rw [← hk]⟩
      · obtain ⟨d, hd, hdi, -⟩ := ((h.keys k ref).mp hk).2
        exact absurd (hdi.trans hc.symm) (hne d hd)
    · rintro ⟨hk, d, hd, hdi, hda⟩
      rw [if_pos (Option.some_inj.mp hk)]
      rcases List.mem_append.mp hd with hd | hd
      · exact absurd (hdi.trans hc.symm) (hne d hd)
      · rw [List.mem_singleton.mp hd] at hda
        rw [hda, hc]
  · rw [if_neg hc, hmore ref.monotonicId (fun d => d.address = ref.address) (Ne.symm hc),
      ← h.keys k ref]
    by_cases hk : key = k
    · rw [if_pos hk, ← hk, hkey]
      refine iff_of_false (fun hsome => ?_) nofun
      exact hc (congrArg ShmRef.monotonicId (Option.some_inj.mp hsome))
    · rw [if_neg hk]

theorem Stored.store {ring : ShmRingBuffer} (value : Serialized) (h : Stored s live)
    (hD : Balanced s live D) (hclosed : Closed live D) (hcore : Core ring (live ++ [c]))
    (hstart : ring.dataBufferStart < ring.dataBufferSize) (hkey : s.keyIndex.get? key = none)
    (hsize : c.size = mdSize + flagBytes + value.data.length + value.metadata.length) :
    ∃ s' live', { s with ringBuffer := ring }.store key value ⟨c.address, c.id⟩ = .ok s' ∧
      KeepsOwed D s s' live' ∧
      Balanced s' live' (fun i => D i + if i = c.id then s.nReaders else 0) ∧
      s'.keyIndex.get? key = some ⟨c.address, c.id⟩ := by
  obtain ⟨zero, hzero, hzlen, hzval⟩ := int2byte_spec (n := 0) (by omega) (by omega)
  have hflag : flagBytes = idNbytes := rfl
  have hlen := hcore.length_bytes (List.mem_append_right live List.mem_cons_self)
  have hnew := hcore.new
  obtain ⟨buf₁, hok₁, hcore₁⟩ := hcore.writeLast 0 zero (by omega)
  obtain ⟨buf₂, hok₂, hcore₂⟩ := hcore₁.writeLast flagBytes value.metadata
    (by simp only [Chunk.write]; omega)
  obtain ⟨buf₃, hok₃, hcore₃⟩ := hcore₂.writeLast (flagBytes + value.metadata.length)
    value.data (by simp only [Chunk.write]; omega)
  obtain ⟨c', hc'⟩ : ∃ c', c' = ((c.write 0 zero).write flagBytes value.metadata).write
      (flagBytes + value.metadata.length) value.data := ⟨_, rfl⟩
  have hlen₁ := hcore₁.length_bytes (List.mem_append_right live List.mem_cons_self)
  have hlen₂ := hcore₂.length_bytes (List.mem_append_right live List.mem_cons_self)
  have hcount : c'.count = 0 := by
    simp only [Chunk.write] at hlen₁ hlen₂
    rw [hc', count_write_of_le (by omega) (by simp only [Chunk.write]; omega),
      count_write_of_le (by omega) (by simp only [Chunk.write]; omega),
      count_write_zero (by omega) hzlen, hzval]
  have hid : c'.id = c.id := by rw [hc']; rfl
  have haddr : c'.address = c.address := by rw [hc']; rfl
  have hcsize : c'.size = c.size := by rw [hc']; rfl
  rw [← hc'] at hcore₃
  have hfresh : s.writerFlag.get? c.id = none := by
    refine Option.eq_none_iff_forall_ne_some.mpr fun w hw => hnew ?_
    obtain ⟨d, hd, hdid⟩ := (h.indexed.flags c.id).mp ⟨w, hw⟩
    exact hdid ▸ List.mem_map_of_mem hd
  have hdebt : D c.id = 0 := by
    by_contra hne
    obtain ⟨d, hd, hdid⟩ := hclosed c.id hne
    exact hnew (hdid ▸ List.mem_map_of_mem hd)
  refine ⟨{ s with
      ringBuffer := { ring with buf := buf₃ }
      keyIndex := s.keyIndex.set key ⟨c.address, c.id⟩
      idIndex := s.idIndex.set c.id key
      writerFlag := s.writerFlag.set c.id 1 }, live ++ [c'], ?_,
    ⟨⟨⟨hcore₃, hstart⟩, ?_, fun d hd => ?_⟩, rfl, rfl, fun k ref hk hne => ?_⟩, fun d hd => ?_, ?_⟩
  · have haddr₁ : (c.write 0 zero).address = c.address := rfl
    have haddr₂ : ((c.write 0 zero).write flagBytes value.metadata).address = c.address := rfl
    rw [haddr₁] at hok₂
    rw [haddr₂] at hok₃
    simp only [ShmObjectStorage.store, hzero, Result.ok_bind, hok₁, hok₂, hok₃,
      ShmObjectStorage.incrementWriterFlag, Dict.getD, hfresh]
    rfl
  · refine h.indexed.add (w := 1) (hid ▸ hnew) hkey ?_ ?_ ?_
    · rw [haddr, hid]
    · rw [hid]
    · rw [hid]
  · rcases List.mem_append.mp hd with hd | hd
    · exact h.room d hd
    · rw [List.mem_singleton.mp hd, hcsize]
      omega
  · simp only [Dict.get?_set]
    rw [if_neg, hk]
    rintro rfl
    rw [hkey] at hk
    cases hk
  · rcases List.mem_append.mp hd with hd | hd
    · obtain ⟨w, k, hw, hk, hbal⟩ := hD d hd
      have hne : d.id ≠ c.id := fun heq => hnew (heq ▸ List.mem_map_of_mem hd)
      refine ⟨w, k, ?_, hk, ?_⟩
      · simp only [Dict.get?_set]
        rw [if_neg (Ne.symm hne), hw]
      · simp only [if_neg hne]
        omega
    · rw [List.mem_singleton.mp hd, hid]
      refine ⟨1, 0, ?_, hcount, ?_⟩
      · simp only [Dict.get?_set, if_true]
      · simp only [if_true, hdebt]
        omega
  · simp only [Dict.get?_set, if_true]

theorem Stored.allocateBuf (h : Stored s live) (size : Int) (hpos : 0 < size)
    (hsize : size + mdSize < 2 ^ 31) (hfew : live.length + 1 < idMax) :
    (∃ msg, s.ringBuffer.allocateBuf size = .error (.memoryError msg)) ∨
      ∃ ring c, s.ringBuffer.allocateBuf size = .ok ((c.address, c.id), ring) ∧
        Core ring (live ++ [c]) ∧ ring.dataBufferStart < ring.dataBufferSize ∧
        (c.size : Int) = size + mdSize := by
  by_cases hspace : s.ringBuffer.bufferEndReset (size + mdSize) + (size + mdSize) -
      s.ringBuffer.dataBufferStart ≤ s.ringBuffer.dataBufferSize
  · obtain ⟨ring, hok, hcore, hstart, hbuf⟩ := h.core.allocateBuf hpos hsize hfew hspace
    refine .inr ⟨ring, _, hok, hcore, ?_, Int.toNat_of_nonneg (by omega)⟩
    rw [hstart, hbuf]
    exact h.inv.start_lt
  · exact .inl ⟨_, allocateBuf_full hpos (Int.not_le.mp hspace)⟩

def owing (n : Nat) (D : Nat → Nat) : Option ShmRef → Nat → Nat
  | some ref => fun i => D i + if i = ref.monotonicId then n else 0
  | none => D

structure Hands (D : Nat → Nat) (s : ShmObjectStorage κ) (key : κ) (ref : Option ShmRef)
    (s' : ShmObjectStorage κ) (live' : List Chunk) : Prop extends KeepsOwed D s s' live' where
  balanced : Balanced s' live' (owing s.nReaders D ref)
  indexed : ∀ r, ref = some r → s'.keyIndex.get? key = some r
  same : ∀ r, s.keyIndex.get? key = some r → ref = some r

theorem Stored.handsNew {value : Serialized} {ring : ShmRingBuffer} (h : Stored s live)
    (hD : Balanced s live D) (hclosed : Closed live D) (hkey : s.keyIndex.get? key = none)
    (hcore : Core ring (live ++ [c])) (hstart : ring.dataBufferStart < ring.dataBufferSize)
    (hsize : (c.size : Int) =
      ((flagBytes + value.data.length + value.metadata.length : Nat) : Int) + mdSize) :
    ∃ s' live', { s with ringBuffer := ring }.store key value ⟨c.address, c.id⟩ = .ok s' ∧
      Hands D s key (some ⟨c.address, c.id⟩) s' live' := by
  obtain ⟨s', live', hok, hkeeps, hbalanced, hnew⟩ := h.store value hD hclosed hcore
    hstart hkey (by omega)
  refine ⟨s', live', hok, hkeeps, hbalanced, fun r hr => hr ▸ hnew, fun r hr => ?_⟩
  rw [hkey] at hr
  cases hr

theorem Stored.put (value : Serialized) (h : Stored s live) (hD : Balanced s live D)
    (hclosed : Closed live D) (hkey : s.keyIndex.get? key = none)
    (hmax : s.maxObjectSize + mdSize < 2 ^ 31) (hfew : live.length + 1 < idMax) :
    ∃ r s' live', s.put key value = .ok (r, s') ∧ Hands D s key r.toOption s' live' := by
  have hsame : KeepsOwed D s s live := ⟨h, rfl, rfl, fun _ _ hk _ => hk⟩
  have habsent : ∀ {ref : Option ShmRef} r, s.keyIndex.get? key = some r → ref = some r := by
    intro ref r hr
    rw [hkey] at hr
    cases hr
  have hcontains : s.keyIndex.contains key = false := by rw [Dict.contains, hkey]; rfl
  simp only [ShmObjectStorage.put, hcontains]
  obtain ⟨size, hsize⟩ : ∃ size, size = flagBytes + value.data.length + value.metadata.length :=
    ⟨_, rfl⟩
  rw [← hsize]
  have hflag : flagBytes = 4 := rfl
  by_cases hlarge : size > s.maxObjectSize
  · exact ⟨.error (.valueError "Serialized object size exceeds max object size"), s, live,
      by simp [hlarge], hsame, hD, (fun _ h => by cases h), habsent⟩
  simp only [if_neg hlarge]
  have hsize' : (size : Int) + mdSize < 2 ^ 31 := by omega
  rcases h.allocateBuf size (by omega) hsize' hfew with
    ⟨msg, hfull⟩ | ⟨ring, c, hok, hcore, hstart, hcsize⟩
  · simp only [hfull]
    obtain ⟨t, k, hfree, hkeeps, hbalanced, hkept, hmissing⟩ := h.freeUnused hD
    have hclosed' : Closed (live.drop k) D := by
      intro i hi
      obtain ⟨c, hc, hid⟩ := hclosed i hi
      exact ⟨c, hkept c hc (hid ▸ hi), hid⟩
    have hfew' : (live.drop k).length + 1 < idMax := by
      rw [List.length_drop]
      omega
    simp only [hfree, Result.ok_bind]
    rcases hkeeps.stored.allocateBuf size (by omega) hsize' hfew' with
      ⟨msg, hfull⟩ | ⟨ring, c, hok, hcore, hstart, hcsize⟩
    · simp only [hfull]
      exact ⟨_, t, live.drop k, rfl, hkeeps, hbalanced, (fun _ h => by cases h), habsent⟩
    · obtain ⟨s', live', hstore, hands⟩ := hkeeps.stored.handsNew hbalanced hclosed'
        (hmissing key hkey) hcore hstart (hsize ▸ hcsize)
      simp only [hok, hstore, Result.ok_bind]
      refine ⟨_, s', live', rfl, hkeeps.trans hands.toKeepsOwed, ?_, hands.indexed, habsent⟩
      rw [← hkeeps.nReaders]
      exact hands.balanced
  · obtain ⟨s', live', hstore, hands⟩ := h.handsNew hD hclosed hkey hcore hstart (hsize ▸ hcsize)
    simp only [hok, hstore, Result.ok_bind]
    exact ⟨_, s', live', rfl, hands⟩

theorem Stored.touch (h : Stored s live) (hD : Balanced s live D) (key : κ) :
    Stored (s.touch key) live ∧
      Balanced (s.touch key) live (owing s.nReaders D (s.keyIndex.get? key)) ∧
      (s.touch key).keyIndex = s.keyIndex ∧ (s.touch key).nReaders = s.nReaders ∧
      (s.touch key).maxObjectSize = s.maxObjectSize := by
  unfold ShmObjectStorage.touch
  cases hkey : s.keyIndex.get? key with
  | none => exact ⟨h, hD, rfl, rfl, rfl⟩
  | some ref =>
    obtain ⟨c, hc, hid, -⟩ := h.chunk hkey
    exact ⟨h.incrementWriterFlag ⟨c, hc, hid⟩, hD.incrementWriterFlag ref.monotonicId, rfl, rfl, rfl⟩

theorem Stored.getAndUpdateItem {item : Option Serialized} (h : Stored s live)
    (hD : Balanced s live D) (hclosed : Closed live D)
    (hitem : item = none → s.isCached key = true) (hmax : s.maxObjectSize + mdSize < 2 ^ 31)
    (hfew : live.length + 1 < idMax) : ∃ ref s' live',
      s.getAndUpdateItem item key = .ok (ref, s') ∧ Hands D s key ref s' live' := by
  by_cases hcached : s.isCached key = true
  · obtain ⟨ref, hkey⟩ := Option.isSome_iff_exists.mp hcached
    obtain ⟨c, hc, hid, -⟩ := h.chunk hkey
    refine ⟨some ref, s.incrementWriterFlag ref.monotonicId, live, ?_,
      ⟨h.incrementWriterFlag ⟨c, hc, hid⟩, rfl, rfl, fun _ _ hk _ => hk⟩,
      hD.incrementWriterFlag ref.monotonicId, fun r hr => hkey.trans hr, fun r hr => ?_⟩
    · simp only [ShmObjectStorage.getAndUpdateItem, if_pos hcached, getCached, hkey]
      rfl
    · rw [← hkey, hr]
  · have hkey : s.keyIndex.get? key = none := by
      rw [isCached, Dict.contains, Bool.not_eq_true, Option.isSome_eq_false_iff,
        Option.isNone_iff_eq_none] at hcached
      exact hcached
    cases item with
    | none => exact absurd (hitem rfl) hcached
    | some value =>
      obtain ⟨r, s', live', hput, hands⟩ := h.put value hD hclosed hkey hmax hfew
      refine ⟨r.toOption, s', live', ?_, hands⟩
      simp only [ShmObjectStorage.getAndUpdateItem, if_neg hcached, hput, Result.ok_bind]
      cases r <;> rfl

theorem Stored.touchReader (h : Stored s live) (hD : Balanced s live D)
    (hkey : s.keyIndex.get? key = some ref)
    (hmax : s.ringBuffer.readerCount ref.address + 1 < 2 ^ 31)
    (hdebt : s.ringBuffer.readerCount ref.address ≥ s.nReaders → 0 < D ref.monotonicId) :
    ∃ ring live', s.ringBuffer.touchReader s.nReaders ref = .ok ring ∧
      Stored { s with ringBuffer := ring } live' ∧
      Balanced { s with ringBuffer := ring } live' (fun i => D i -
        if s.ringBuffer.readerCount ref.address ≥ s.nReaders ∧ i = ref.monotonicId then 1
        else 0) := by
  obtain ⟨c, hc, hid, haddr⟩ := h.chunk hkey
  by_cases hcount : s.ringBuffer.readerCount ref.address ≥ s.nReaders
  · simp only [ShmRingBuffer.touchReader, hcount, if_true, true_and]
    rw [← haddr, h.core.readerCount hc] at hmax
    obtain ⟨ring, live', hok, hstored, hbal⟩ := h.incrementReaderFlag hD hc hmax
      (hid ▸ hdebt hcount)
    rw [haddr] at hok
    rw [hid] at hbal
    exact ⟨ring, live', hok, hstored, hbal⟩
  · simp only [ShmRingBuffer.touchReader, hcount, if_false, false_and]
    exact ⟨_, live, rfl, h, hD⟩

theorem Stored.get (h : Stored s live) (hD : Balanced s live D)
    (hkey : s.keyIndex.get? key = some ref)
    (hmax : s.ringBuffer.readerCount ref.address + 1 < 2 ^ 31) (hdebt : 0 < D ref.monotonicId) :
    ∃ data ring live', s.ringBuffer.get ref = .ok (data, ring) ∧
      Stored { s with ringBuffer := ring } live' ∧
      Balanced { s with ringBuffer := ring } live'
        (fun i => D i - if i = ref.monotonicId then 1 else 0) := by
  obtain ⟨c, hc, hid, haddr⟩ := h.chunk hkey
  rw [← haddr, h.core.readerCount hc] at hmax
  obtain ⟨ring, live', hok, hstored, hbal⟩ := h.incrementReaderFlag hD hc hmax (hid ▸ hdebt)
  rw [haddr] at hok
  rw [hid] at hbal
  have haccess := h.core.accessBuf hc
  rw [haddr, hid] at haccess
  refine ⟨(c.bytes.drop mdSize).drop flagBytes, ring, live', ?_, hstored, hbal⟩
  simp only [ShmRingBuffer.get, haccess, ne_eq, not_true, if_false, hok, Result.ok_bind]
  rfl

end ShmObjectStorage

end Vllm
