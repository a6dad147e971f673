import Vllm.MessageQueueRun

namespace Vllm.MessageQueue

open ShmRingBuffer (writeBytes writeBytes_spec)

def readBuffers (buf : Bytes) : Nat → Nat → List Bytes
  | 0, _ => []
  | left + 1, offset =>
    let bufLen := fromBytesBig (slice buf offset (offset + 4))
    slice buf (offset + 4) (offset + 4 + bufLen) :: readBuffers buf left (offset + 4 + bufLen)

def readChunkBuffers (buf : Bytes) : Option (List Bytes) :=
  if buf[0]? = some 1 then none else some (readBuffers buf (fromBytesBig (slice buf 1 3)) 3)

section Chunk

variable {α : Type} {c : Config} {p : Pickle α} {obj : α} {buf buf' : Bytes} {offset : Nat}
  {bs : List Bytes}

theorem readBuffers_of_laid (h : Laid buf offset bs) : readBuffers buf bs.length offset = bs := by
  induction bs generalizing offset with
  | nil => rfl
  | cons b bs ih =>
    obtain ⟨hlen, hbuffer, hrest⟩ := h
    rw [List.length_cons, readBuffers, hlen, hbuffer, ih hrest]

theorem readChunkBuffers_of_holds (hfits : overflows c p obj = false) (h : Holds c p obj buf) :
    readChunkBuffers buf = some (p.allBuffers obj) := by
  rw [Holds, hfits, if_neg Bool.false_ne_true] at h
  obtain ⟨hmark, hcount, hlaid⟩ := h
  rw [readChunkBuffers, hmark, if_neg (by decide), hcount, readBuffers_of_laid hlaid]

theorem iterate_readChunk (left : Nat) (allBuffers : List (Nat × Nat)) :
    ∃ n offset' spans, slices buf spans = readBuffers buf left offset ∧
      (readChunk p buf)^[n] (nextBuffer p buf left offset allBuffers) =
        nextBuffer p buf 0 offset' (allBuffers ++ spans) := by
  induction left generalizing offset allBuffers with
  | zero => exact ⟨0, offset, [], rfl, by rw [List.append_nil]; rfl⟩
  | succ left ih =>
    obtain ⟨n, offset', spans, hspans, hn⟩ := @ih
      (offset + 4 + fromBytesBig (slice buf offset (offset + 4)))
      (allBuffers ++ [(offset + 4, fromBytesBig (slice buf offset (offset + 4)))])
    rw [List.append_assoc] at hn
    refine ⟨n + 2, offset', _, ?_, hn⟩
    rw [readBuffers, ← hspans]
    rfl

def layoutEnd (offset : Nat) (bs : List Bytes) : Nat :=
  offset + (bs.map fun b => b.length + 4).sum

theorem toBytesBig_ok {value size : Nat} (h : value < 256 ^ size) :
    ∃ bs, toBytesBig value size = .ok bs ∧ bs.length = size := by
  have hok : toBytesBig value size = .ok _ := if_pos h
  exact ⟨_, hok, (toBytesBig_spec hok).1⟩

def Before (stop : Nat) (w : Nat × Result Bytes) : Prop := ∃ bs, w.2 = .ok bs ∧ w.1 + bs.length ≤ stop

theorem bufferWrites_before (hlen : ∀ b ∈ bs, b.length < 2 ^ 32) {stop : Nat}
    (hstop : layoutEnd offset bs ≤ stop) : ∀ w ∈ bufferWrites offset bs, Before stop w := by
  induction bs generalizing offset with
  | nil => nofun
  | cons b bs ih =>
    obtain ⟨hb, hbs⟩ := List.forall_mem_cons.1 hlen
    rw [layoutEnd, List.map_cons, List.sum_cons] at hstop
    obtain ⟨bytes, hbytes, hfour⟩ := @toBytesBig_ok b.length 4 hb
    refine List.forall_mem_cons.2 ⟨⟨bytes, hbytes, ?_⟩, List.forall_mem_cons.2 ⟨⟨b, rfl, ?_⟩, ih hbs ?_⟩⟩
    · dsimp only
      omega
    · dsimp only
      omega
    · rw [layoutEnd]
      omega

theorem applyWrites_ok {writes : List (Nat × Result Bytes)} (h : ∀ w ∈ writes, Before buf.length w) :
    ∃ buf', applyWrites buf writes = .ok buf' ∧ buf'.length = buf.length := by
  induction writes generalizing buf with
  | nil => exact ⟨buf, rfl, rfl⟩
  | cons w writes ih =>
    obtain ⟨⟨bs, hbs, hle⟩, hrest⟩ := List.forall_mem_cons.1 h
    obtain ⟨buf₁, hwrite, hlen, -, -⟩ := writeBytes_spec buf bs hle
    obtain ⟨buf', happly, hlen'⟩ := @ih buf₁ (by rwa [hlen])
    refine ⟨buf', ?_, hlen'.trans hlen⟩
    rw [applyWrites, List.foldlM_cons, hbs]
    show writeBytes buf w.1 bs >>= _ = _
    rw [hwrite]
    exact happly

theorem chunkWrites_before (hcount : (p.allBuffers obj).length < 2 ^ 16)
    (hlen : ∀ b ∈ p.allBuffers obj, b.length < 2 ^ 32) (hfits : overflows c p obj = false) :
    ∀ w ∈ chunkWrites c p obj, Before c.maxChunkBytes w := by
  have hend : layoutEnd 3 (p.allBuffers obj) ≤ c.maxChunkBytes := by
    rw [overflows, decide_eq_false_iff_not] at hfits
    rw [layoutEnd, Pickle.allBuffers, List.map_cons, List.sum_cons]
    omega
  obtain ⟨bytes, hbytes, htwo⟩ := @toBytesBig_ok (p.allBuffers obj).length 2 hcount
  have hthree : 3 ≤ c.maxChunkBytes := Nat.le_trans (Nat.le_add_right _ _) hend
  rw [chunkWrites, hfits, if_neg Bool.false_ne_true]
  refine List.forall_mem_cons.2 ⟨⟨[0], rfl, ?_⟩, List.forall_mem_cons.2 ⟨⟨bytes, hbytes, ?_⟩, ?_⟩⟩
  · exact Nat.le_trans (by decide) hthree
  · rw [htwo]
    exact hthree
  · exact bufferWrites_before hlen hend

end Chunk

/-- An object that fits is written inside its chunk, over whatever was there, and the reader finds its
buffers. -/
theorem chunk_roundTrip {α : Type} (c : Config) (p : Pickle α) (obj : α) {buf : Bytes}
    (hbuf : buf.length = c.maxChunkBytes) (hcount : (p.allBuffers obj).length < 2 ^ 16)
    (hlen : ∀ b ∈ p.allBuffers obj, b.length < 2 ^ 32) (hfits : overflows c p obj = false) :
    (∀ w ∈ chunkWrites c p obj, ∃ bs, w.2 = .ok bs ∧ w.1 + bs.length ≤ c.maxChunkBytes) ∧
      ∃ buf', applyWrites buf (chunkWrites c p obj) = .ok buf' ∧ buf'.length = c.maxChunkBytes ∧
        readChunkBuffers buf' = some (p.allBuffers obj) ∧
        ∃ n view, (readChunk p buf')^[n] .readOverflow = .setFlag (some view) ∧
          view.value p buf' = .ok obj := by
  have hbefore := chunkWrites_before hcount hlen hfits
  obtain ⟨buf', happly, hlen'⟩ := @applyWrites_ok buf _ (by rwa [hbuf])
  have hholds := holds_chunkWrites happly
  refine ⟨hbefore, buf', happly, hlen'.trans hbuf, readChunkBuffers_of_holds hfits hholds, ?_⟩
  rw [Holds, hfits, if_neg Bool.false_ne_true] at hholds
  obtain ⟨hmark, hfound, hlaid⟩ := hholds
  obtain ⟨n, offset, spans, hspans, hn⟩ :=
    @iterate_readChunk α p buf' 3 (p.allBuffers obj).length []
  rw [readBuffers_of_laid hlaid] at hspans
  obtain ⟨view, hend, hvalue⟩ := @nextBuffer_end α p obj buf' offset spans hspans.symm
  have hcounted : readChunk p buf' (readChunk p buf' .readOverflow) =
      nextBuffer p buf' (p.allBuffers obj).length 3 [] := by
    rw [readChunk, hmark]
    dsimp only
    rw [if_neg (by decide), readChunk, hfound]
  refine ⟨n + 2, view, ?_, hvalue⟩
  show (readChunk p buf')^[n] (readChunk p buf' (readChunk p buf' .readOverflow)) = _
  rw [hcounted, hn, List.nil_append, hend]

def pairPickle : Pickle Unit where
  dumps _ := ([1, 2], [[3]])
  loads _ _ := .ok ()
  loads_dumps _ := rfl

theorem chunk_roundTrip_full : ∃ buf',
    applyWrites (List.replicate 14 255) (chunkWrites ⟨1, 14, 1, by decide⟩ pairPickle ()) = .ok buf' ∧
      buf'.length = 14 ∧ readChunkBuffers buf' = some [[1, 2], [3]] := by
  obtain ⟨-, buf', happly, hlen, hread, -⟩ := chunk_roundTrip ⟨1, 14, 1, by decide⟩ pairPickle ()
    (List.length_replicate (n := 14) (a := 255)) (by decide) (by decide) (by decide)
  exact ⟨buf', happly, hlen, hread⟩

end Vllm.MessageQueue
