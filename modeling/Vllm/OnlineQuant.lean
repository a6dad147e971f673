import Vllm.QuantGemv
import Vllm.QuantReference
import Mathlib.Algebra.Order.Ring.Star
import Vllm.Lib.Chunks
import Vllm.Lib.Segments
import Vllm.QuantGemvLaws

/-! Packing of weights in `gfx936_online_quant.py`. A tensor of two dimensions is a list of rows;
its memory, when contiguous, is their concatenation. -/

namespace Vllm.Gfx936

open Stores WaveSums

structure Tensor (α : Type) (m k : Nat) where
  rows : List (List α)
  length_rows : rows.length = m
  length_row : ∀ row ∈ rows, row.length = k

def iterRowChunks (rows columns byteLimit : Int) : Result (List (Nat × Nat)) :=
  if rows ≤ 0 ∨ columns ≤ 0 ∨ byteLimit ≤ 0 then
    .error (.valueError "rows, columns, and byte_limit must be positive")
  else
    let rowsPerChunk := max 1 (byteLimit / (columns * 2)).toNat
    .ok ((strided 0 rows.toNat rowsPerChunk).map fun start => (start, min rows.toNat (start + rowsPerChunk)))

section Pack

variable {W S O : Type}

/-- The quantiser of a group of 32 values, in floating point: `torch.round(source / scale)`, clamped
to seven and converted to `int8`, and the scale converted to `float16`. -/
structure GroupQuantizer (W S : Type) where
  quantized : List W → List Int8
  scale : List W → S
  length_quantized : ∀ group, (quantized group).length = group.length
  clamped : ∀ group, ∀ q ∈ quantized group, -7 ≤ q.toInt ∧ q.toInt ≤ 7

def reshapeRow {α : Type} (count size : Nat) (row : List α) : List (List α) :=
  (List.range count).map fun i => (row.drop (i * size)).take size

def packPair (low high : Int8) : UInt8 :=
  ((low &&& (0x0F : Int8)) ||| ((high &&& (0x0F : Int8)) <<< (4 : Int8))).toUInt8

def packRow (quantizer : GroupQuantizer W S) (k : Nat) (row : List W) : List UInt8 × List S :=
  let source := reshapeRow (k / 32) 32 row
  let quantized := source.map quantizer.quantized
  let pairs := reshapeRow (k / 2) 2 quantized.flatten
  (pairs.map fun pair => packPair (pair.getD 0 0) (pair.getD 1 0), source.map quantizer.scale)

def sliceRows {α : Type} (rows : List α) (chunk : Nat × Nat) : List α :=
  (rows.drop chunk.1).take (chunk.2 - chunk.1)

def copyRows {α : Type} (buffer : List α) (start : Nat) (rows : List α) : Result (List α) :=
  (rows.zipIdx start).foldlM (fun buffer (row, i) => store buffer i row) buffer

/-- The tensors that `torch.empty` returns may hold anything. -/
def packW4 {m k : Nat} (quantizer : GroupQuantizer W S) (weight : Tensor W m k) (byteLimit : Int)
    (packed : Tensor UInt8 m (k / 2)) (scales : Tensor S m (k / 32)) :
    Result (List (List UInt8) × List (List S)) :=
  if k % 32 ≠ 0 then .error (.valueError s!"W4 requires K divisible by 32, got {k}")
  else do
    let chunks ← iterRowChunks m k byteLimit
    chunks.foldlM (fun (packed, scales) chunk => do
      let rows := (sliceRows weight.rows chunk).map (packRow quantizer k)
      return (← copyRows packed chunk.1 (rows.map Prod.fst), ← copyRows scales chunk.1 (rows.map Prod.snd)))
      (packed.rows, scales.rows)

/-- What `_dequantize_weight_reference` is given for each kind. -/
inductive Packed (S : Type)
  | w8 (packed : List (List Int8)) (scale : List S)
  | w4 (packed : List (List UInt8)) (scale : List (List S))

/-- `mul` is the product of a number and a scale, converted to the type of the output. -/
def dequantizeRowW4 (mul : Int → S → O) (packed : List UInt8) (scale : List S) : List O :=
  let values := packed.flatMap fun (byte : UInt8) =>
    [signed (byte &&& (0x0F : UInt8)).toNat, signed (byte >>> (4 : UInt8)).toNat]
  let expandedScale := scale.flatMap (List.replicate 32)
  List.zipWith mul values expandedScale

def dequantizeWeightReference (mul : Int → S → O) (packed : Packed S) (byteLimit : Int) {m k : Nat}
    (output : Tensor O m k) : Result (List (List O)) := do
  let chunks ← iterRowChunks m k byteLimit
  chunks.foldlM (fun output chunk =>
    match packed with
    | .w8 packed scale => copyRows output chunk.1
        (List.zipWith (fun row scale => row.map fun q => mul q.toInt scale) (sliceRows packed chunk)
          (sliceRows scale chunk))
    | .w4 packed scale => copyRows output chunk.1
        (List.zipWith (dequantizeRowW4 mul) (sliceRows packed chunk) (sliceRows scale chunk))) output.rows

end Pack

end Vllm.Gfx936

/-! The layout of packed four-bit weights: what stores it, and what reads it. -/

namespace Vllm.Gfx936

open Chunks Segments Stores WaveSums

def nibbleAt (byte : UInt8) (i : Nat) : Nat := byte.toNat / 16 ^ i % 16

/-- The number in row `r` and column `c` is nibble `c % 2` of byte `r * (k / 2) + c / 2`, and its scale
has the index `r * (k / 32) + c / 32`. -/
structure W4Layout {S : Type} (m k : Nat) (quant : Nat → Nat → Int) (scaleAt : Nat → Nat → S)
    (packed : List UInt8) (scales : List S) : Prop where
  length_packed : packed.length = m * (k / 2)
  length_scales : scales.length = m * (k / 32)
  nibble : ∀ r < m, ∀ c < k, ∃ byte, packed[r * (k / 2) + c / 2]? = some byte ∧
    nibbleAt byte (c % 2) = nibble (quant r c)
  scale : ∀ r < m, ∀ c < k, scales[r * (k / 32) + c / 32]? = some (scaleAt r c)

section Nibbles

theorem nibbleAt_packPair {low high : Int8} (hlow : -7 ≤ low.toInt ∧ low.toInt ≤ 7)
    (hhigh : -7 ≤ high.toInt ∧ high.toInt ≤ 7) :
    nibbleAt (packPair low high) 0 = nibble low.toInt ∧ nibbleAt (packPair low high) 1 = nibble high.toInt := by
  have hall : ∀ i j : Fin 15,
      nibbleAt (packPair (Int8.ofInt ((i.val : Int) - 7)) (Int8.ofInt ((j.val : Int) - 7))) 0 =
        nibble ((i.val : Int) - 7) ∧
      nibbleAt (packPair (Int8.ofInt ((i.val : Int) - 7)) (Int8.ofInt ((j.val : Int) - 7))) 1 =
        nibble ((j.val : Int) - 7) := by decide +kernel
  have h := hall ⟨(low.toInt + 7).toNat, by omega⟩ ⟨(high.toInt + 7).toNat, by omega⟩
  have hlow' : (((low.toInt + 7).toNat : Nat) : Int) - 7 = low.toInt := by omega
  have hhigh' : (((high.toInt + 7).toNat : Nat) : Int) - 7 = high.toInt := by omega
  rwa [hlow', hhigh', Int8.ofInt_toInt, Int8.ofInt_toInt] at h

theorem signed_nibbleAt_zero (byte : UInt8) : signed (byte &&& (0x0F : UInt8)).toNat = signed (nibbleAt byte 0) := by
  have h : (byte &&& (0x0F : UInt8)).toNat = byte.toNat % 16 := Nat.and_two_pow_sub_one_eq_mod byte.toNat 4
  rw [h, nibbleAt, pow_zero, Nat.div_one]

theorem signed_nibbleAt_one (byte : UInt8) : signed (byte >>> (4 : UInt8)).toNat = signed (nibbleAt byte 1) := by
  have h : (byte >>> (4 : UInt8)).toNat = byte.toNat / 16 := Nat.shiftRight_eq_div_pow byte.toNat 4
  have hlt : byte.toNat / 16 < 16 := Nat.div_lt_of_lt_mul byte.toNat_lt
  rw [h, nibbleAt, pow_one, Nat.mod_eq_of_lt hlt]

theorem signed_eq (n : Nat) : (if (n : Int) ≥ 8 then (n : Int) - 16 else n) = signed n := by
  unfold signed
  split <;> split <;> omega

theorem decodeInt4_eq_signed (byte : UInt8) (c : Nat) :
    decodeInt4 byte (c % 2 = 1) = signed (nibbleAt byte (c % 2)) := by
  rcases Nat.mod_two_eq_zero_or_one c with h | h
  · rw [h, ← signed_nibbleAt_zero]
    exact signed_eq _
  · rw [h, ← signed_nibbleAt_one]
    exact signed_eq _

end Nibbles

section Chunks

variable {rows columns size : Nat}

theorem iterRowChunks_eq (hrows : 0 < rows) (hcolumns : 0 < columns) {limit : Int} (hlimit : 0 < limit) :
    ∃ size, 0 < size ∧ iterRowChunks rows columns limit =
      .ok ((strided 0 rows size).map fun start => (start, min rows (start + size))) := by
  refine ⟨max 1 (limit / ((columns : Int) * 2)).toNat, by omega, ?_⟩
  rw [iterRowChunks, if_neg (by omega), Int.toNat_natCast]

theorem strided_zero (rows size : Nat) :
    strided 0 rows size = (List.range ((rows + size - 1) / size)).map (· * size) := by
  apply List.ext_getElem?
  intro i
  rw [strided, List.getElem?_map, Nat.sub_zero]
  rcases Nat.lt_or_ge i ((rows + size - 1) / size) with hi | hi
  · rw [List.getElem?_range' hi, List.getElem?_range hi, Nat.zero_add, Nat.mul_comm]
    rfl
  · rw [List.getElem?_eq_none (by simpa using hi), List.getElem?_eq_none (by simpa using hi)]
    rfl

theorem flatMap_chunks (hsize : 0 < size) :
    (((strided 0 rows size).map fun start => (start, min rows (start + size))).flatMap fun chunk =>
      List.range' chunk.1 (chunk.2 - chunk.1)) = List.range rows := by
  have hmono : Monotone fun j => min rows (j * size) :=
    fun _ _ h => min_le_min_left _ (Nat.mul_le_mul_right size h)
  have hlast : rows ≤ (rows + size - 1) / size * size := by
    have := Nat.div_add_mod (rows + size - 1) size
    have := Nat.mod_lt (rows + size - 1) hsize
    rw [Nat.mul_comm]
    omega
  have hcut := Chunks.flatMap_range' hmono ((rows + size - 1) / size)
  rw [Nat.zero_mul, Nat.min_zero, min_eq_left hlast, Nat.sub_zero, ← List.range_eq_range'] at hcut
  rw [← hcut, strided_zero, List.map_map, List.flatMap_map]
  refine List.flatMap_congr fun j hj => ?_
  have hstart : j * size < rows := by
    have hj : (j + 1) * size ≤ rows + size - 1 := (Nat.le_div_iff_mul_le hsize).mp (List.mem_range.mp hj)
    rw [Nat.succ_mul] at hj
    omega
  show List.range' (j * size) (min rows (j * size + size) - j * size) = _
  rw [min_eq_right (Nat.le_of_lt hstart), Nat.succ_mul]

theorem chunk_lt (hsize : 0 < size) {chunk : Nat × Nat}
    (h : chunk ∈ (strided 0 rows size).map fun start => (start, min rows (start + size))) :
    chunk.1 < chunk.2 ∧ chunk.2 ≤ rows := by
  obtain ⟨start, hstart, rfl⟩ := List.mem_map.mp h
  obtain ⟨n, -, hlt⟩ := (mem_strided hsize).mp hstart
  exact ⟨by show start < min rows (start + size); omega, min_le_left _ _⟩

end Chunks

/-! Copying the rows of all chunks makes up the whole tensor. -/

section Copy

variable {α β : Type}

theorem copyRows_stored {buffer rows : List α} {start : Nat} {v : Nat → α} (hle : start + rows.length ≤ buffer.length)
    (hv : ∀ i row, rows[i]? = some row → row = v (start + i)) :
    ∃ buffer', copyRows buffer start rows = .ok buffer' ∧
      Stored (List.range' start rows.length) v buffer buffer' := by
  induction rows generalizing buffer start with
  | nil => exact ⟨buffer, rfl, .refl buffer⟩
  | cons row rows ih =>
    rw [List.length_cons] at hle
    have hrow : row = v start := hv 0 row rfl
    obtain ⟨next, hnext, hstored⟩ := @store_stored α v buffer start (by omega)
    have hlen := hstored.length
    obtain ⟨last, hlast, hstored'⟩ := @ih next (start + 1) (by omega) fun i x hx => by
      rw [Nat.add_right_comm]
      exact hv (i + 1) x hx
    refine ⟨last, ?_, hstored.trans hstored'⟩
    show ((row, start) :: rows.zipIdx (start + 1)).foldlM _ buffer = _
    rw [List.foldlM_cons, hrow]
    show (store buffer start (v start) >>= _) = _
    rw [hnext]
    exact hlast

theorem getElem?_sliceRows {rows : List α} {chunk : Nat × Nat} {i : Nat} :
    (sliceRows rows chunk)[i]? = if i < chunk.2 - chunk.1 then rows[chunk.1 + i]? else none := by
  rw [sliceRows, List.getElem?_take]
  split
  · rw [List.getElem?_drop]
  · rfl

theorem length_sliceRows {rows : List α} {chunk : Nat × Nat} (hlt : chunk.1 < chunk.2) (hle : chunk.2 ≤ rows.length) :
    (sliceRows rows chunk).length = chunk.2 - chunk.1 := by
  rw [sliceRows, List.length_take, List.length_drop]
  omega

end Copy

section Row

variable {W S O : Type} {quantizer : GroupQuantizer W S} {k : Nat} {row : List W}

structure RowLayout (k : Nat) (quant : Nat → Int) (scaleAt : Nat → S) (packed : List UInt8) (scale : List S) :
    Prop where
  length_packed : packed.length = k / 2
  length_scale : scale.length = k / 32
  nibble : ∀ c < k, ∃ byte, packed[c / 2]? = some byte ∧ nibbleAt byte (c % 2) = nibble (quant c)
  scale : ∀ c < k, scale[c / 32]? = some (scaleAt c)

def groupOf (row : List W) (c : Nat) : List W := (row.drop (c / 32 * 32)).take 32

def quantAt (quantizer : GroupQuantizer W S) (row : List W) (c : Nat) : Int8 :=
  (quantizer.quantized (groupOf row c)).getD (c % 32) 0

theorem getElem?_reshapeRow {α : Type} {count size i : Nat} {row : List α} (hi : i < count) :
    (reshapeRow count size row)[i]? = some ((row.drop (i * size)).take size) := by
  rw [reshapeRow, List.getElem?_map, List.getElem?_range hi]
  rfl

theorem length_of_mem_reshapeRow {α : Type} {count size : Nat} {row group : List α}
    (hlen : row.length = count * size) (h : group ∈ reshapeRow count size row) : group.length = size := by
  obtain ⟨i, hi, rfl⟩ := List.mem_map.mp h
  have hle : (i + 1) * size ≤ count * size := Nat.mul_le_mul_right size (List.mem_range.mp hi)
  rw [Nat.succ_mul] at hle
  rw [List.length_take, List.length_drop]
  omega

theorem quantAt_clamped (c : Nat) : -7 ≤ (quantAt quantizer row c).toInt ∧ (quantAt quantizer row c).toInt ≤ 7 := by
  rw [quantAt, List.getD_eq_getElem?_getD]
  cases h : (quantizer.quantized (groupOf row c))[c % 32]? with
  | none => decide
  | some q => exact quantizer.clamped _ q (List.mem_of_getElem? h)

theorem getElem?_quantized (hk : k % 32 = 0) (hrow : row.length = k) {c : Nat} (hc : c < k) :
    ((reshapeRow (k / 32) 32 row).map quantizer.quantized).flatten[c]? = some (quantAt quantizer row c) := by
  have hlen : row.length = k / 32 * 32 := by omega
  have hgroup : ∀ group ∈ reshapeRow (k / 32) 32 row, (quantizer.quantized group).length = 32 :=
    fun group h => (quantizer.length_quantized group).trans (length_of_mem_reshapeRow hlen h)
  have hmem : groupOf row c ∈ reshapeRow (k / 32) 32 row :=
    List.mem_map_of_mem (List.mem_range.mpr (by omega))
  have hsplit : c = c / 32 * 32 + c % 32 := by omega
  have hmod : c % 32 < 32 := by omega
  have hplace : ((reshapeRow (k / 32) 32 row).flatMap quantizer.quantized)[c / 32 * 32 + c % 32]? =
      (quantizer.quantized (groupOf row c))[c % 32]? := by
    rw [getElem?_flatMap_const hgroup hmod, getElem?_reshapeRow (by omega)]
    rfl
  rw [← List.flatMap_def, hsplit, hplace, ← hsplit, quantAt,
    List.getElem?_eq_getElem (by rw [hgroup _ hmem]; omega), List.getD_eq_getElem?_getD,
    List.getElem?_eq_getElem (by rw [hgroup _ hmem]; omega)]
  rfl

theorem packRow_layout (hk : k % 32 = 0) (hrow : row.length = k) :
    RowLayout k (fun c => (quantAt quantizer row c).toInt) (fun c => quantizer.scale (groupOf row c))
      (packRow quantizer k row).1 (packRow quantizer k row).2 where
  length_packed := by simp [packRow, reshapeRow]
  length_scale := by simp [packRow, reshapeRow]
  nibble c hc := by
    obtain ⟨hlow, hhigh⟩ := nibbleAt_packPair (@quantAt_clamped W S quantizer row (c / 2 * 2))
      (@quantAt_clamped W S quantizer row (c / 2 * 2 + 1))
    refine ⟨packPair (quantAt quantizer row (c / 2 * 2)) (quantAt quantizer row (c / 2 * 2 + 1)), ?_, ?_⟩
    · have hread : ∀ j < 2, ((((reshapeRow (k / 32) 32 row).map quantizer.quantized).flatten.drop
          (c / 2 * 2)).take 2).getD j 0 = quantAt quantizer row (c / 2 * 2 + j) := by
        intro j hj
        rw [List.getD_eq_getElem?_getD, List.getElem?_take, if_pos hj, List.getElem?_drop,
          getElem?_quantized hk hrow (by omega)]
        rfl
      show ((reshapeRow (k / 2) 2 _).map _)[c / 2]? = _
      rw [List.getElem?_map, getElem?_reshapeRow (by omega), Option.map_some, hread 0 (by decide),
        hread 1 (by decide)]
      rfl
    · rcases Nat.mod_two_eq_zero_or_one c with h | h
      · have hc2 : c / 2 * 2 = c := by omega
        rw [h, hlow, hc2]
      · have hc2 : c / 2 * 2 + 1 = c := by omega
        rw [h, hhigh, hc2]
  scale c hc := by
    show ((reshapeRow (k / 32) 32 row).map quantizer.scale)[c / 32]? = _
    rw [List.getElem?_map, getElem?_reshapeRow (by omega)]
    rfl

theorem RowLayout.dequantizeRow {quant : Nat → Int} {scaleAt : Nat → S} {packed : List UInt8} {scale : List S}
    (h : RowLayout k quant scaleAt packed scale) (hquant : ∀ c < k, |quant c| ≤ 7) (mul : Int → S → O) {c : Nat}
    (hc : c < k) : (dequantizeRowW4 mul packed scale)[c]? = some (mul (quant c) (scaleAt c)) := by
  obtain ⟨byte, hbyte, hnibble⟩ := h.nibble c hc
  have hvalue : (packed.flatMap fun (byte : UInt8) => [signed (byte &&& (0x0F : UInt8)).toNat,
      signed (byte >>> (4 : UInt8)).toNat])[c / 2 * 2 + c % 2]? = some (quant c) := by
    have hpairs : ∀ byte ∈ packed, [signed (byte &&& (0x0F : UInt8)).toNat,
        signed (byte >>> (4 : UInt8)).toNat].length = 2 := fun _ _ => rfl
    have hmod : c % 2 < 2 := by omega
    rw [getElem?_flatMap_const hpairs hmod, hbyte]
    show [signed (byte &&& (0x0F : UInt8)).toNat, signed (byte >>> (4 : UInt8)).toNat][c % 2]? = _
    rw [signed_nibbleAt_zero, signed_nibbleAt_one, ← signed_nibble (hquant c hc), ← hnibble]
    rcases Nat.mod_two_eq_zero_or_one c with hmod | hmod <;> rw [hmod] <;> rfl
  have hscale : (scale.flatMap (List.replicate 32))[c / 32 * 32 + c % 32]? = some (scaleAt c) := by
    rw [getElem?_flatMap_const (fun _ _ => List.length_replicate) (Nat.mod_lt c (by decide)), h.scale c hc]
    exact List.getElem?_replicate_of_lt (Nat.mod_lt c (by decide))
  rw [Nat.div_add_mod'] at hvalue hscale
  rw [dequantizeRowW4, List.getElem?_zipWith, hvalue, hscale]

end Row

section Matrix

variable {W S O : Type} {m k : Nat} {quantizer : GroupQuantizer W S} {weight : Tensor W m k}

def quantisedAt (quantizer : GroupQuantizer W S) (weight : Tensor W m k) (r c : Nat) : Int :=
  (quantAt quantizer (weight.rows.getD r []) c).toInt

def scaleAt (quantizer : GroupQuantizer W S) (weight : Tensor W m k) (r c : Nat) : S :=
  quantizer.scale (groupOf (weight.rows.getD r []) c)

theorem foldlM_chunks {α : Type} {body : List α → Nat × Nat → Result (List α)} {v : Nat → α} {size : Nat}
    (hsize : 0 < size) {buffer : List α} (hlen : buffer.length = m)
    (hbody : ∀ chunk buffer, chunk.1 < chunk.2 → chunk.2 ≤ m → buffer.length = m →
      ∃ rows, body buffer chunk = copyRows buffer chunk.1 rows ∧ rows.length = chunk.2 - chunk.1 ∧
        ∀ i row, rows[i]? = some row → row = v (chunk.1 + i)) :
    ((strided 0 m size).map fun start => (start, min m (start + size))).foldlM body buffer =
      .ok ((List.range m).map v) := by
  obtain ⟨last, hlast, hstored⟩ := @foldlM_stored α (Nat × Nat) v body
    (fun chunk => List.range' chunk.1 (chunk.2 - chunk.1)) m _ (fun chunk hchunk buffer hbuffer => by
      obtain ⟨hlt, hle⟩ := chunk_lt hsize hchunk
      obtain ⟨rows, hrows, hcount, hv⟩ := hbody chunk buffer hlt hle hbuffer
      rw [hrows, ← hcount]
      exact copyRows_stored (by omega) hv) buffer hlen
  rw [hlast, hstored.eq_map, hlen]
  intro j hj
  rw [flatMap_chunks hsize]
  exact List.mem_range.mpr (hlen ▸ hj)

theorem foldlM_prod {α β γ : Type} {f : α → γ → Result α} {g : β → γ → Result β} {l : List γ} {a a' : α} {b b' : β}
    (hf : l.foldlM f a = .ok a') (hg : l.foldlM g b = .ok b') :
    l.foldlM (fun (a, b) x => do return (← f a x, ← g b x)) (a, b) = .ok (a', b') := by
  induction l generalizing a b with
  | nil =>
    cases hf
    cases hg
    rfl
  | cons x l ih =>
    rw [List.foldlM_cons, Result.bind_eq_ok] at hf hg
    obtain ⟨a₁, ha, hf⟩ := hf
    obtain ⟨b₁, hb, hg⟩ := hg
    rw [List.foldlM_cons]
    have hstep : (do return (← f a x, ← g b x) : Result (α × β)) = .ok (a₁, b₁) := by
      rw [ha, hb]
      rfl
    exact (congrArg (· >>= _) hstep).trans (ih hf hg)

theorem of_map_sliceRows {α β : Type} {rows : List α} {chunk : Nat × Nat} {f : α → β} {d : α} {i : Nat} {b : β}
    (h : ((sliceRows rows chunk).map f)[i]? = some b) : b = f (rows.getD (chunk.1 + i) d) := by
  rw [List.getElem?_map, getElem?_sliceRows] at h
  split at h
  · obtain ⟨a, ha, rfl⟩ := Option.map_eq_some_iff.mp h
    rw [List.getD_eq_getElem?_getD, ha]
    rfl
  · cases h

theorem packW4_ok (hk : k % 32 = 0) (hm : 0 < m) (hpos : 0 < k) {byteLimit : Int} (hlimit : 0 < byteLimit)
    (packed : Tensor UInt8 m (k / 2)) (scales : Tensor S m (k / 32)) :
    packW4 quantizer weight byteLimit packed scales =
      .ok ((List.range m).map fun r => (packRow quantizer k (weight.rows.getD r [])).1,
        (List.range m).map fun r => (packRow quantizer k (weight.rows.getD r [])).2) := by
  obtain ⟨size, hsize, hchunks⟩ := iterRowChunks_eq hm hpos hlimit
  have hcopy : ∀ {α : Type} (f : List W → α) {buffer : List α}, buffer.length = m →
      ((strided 0 m size).map fun start => (start, min m (start + size))).foldlM
        (fun buffer chunk => copyRows buffer chunk.1 ((sliceRows weight.rows chunk).map f)) buffer =
      .ok ((List.range m).map fun r => f (weight.rows.getD r [])) := by
    intro α f buffer hbuffer
    refine foldlM_chunks hsize hbuffer fun chunk buffer hlt hle _ => ⟨_, rfl, ?_, fun i row h => of_map_sliceRows h⟩
    rw [List.length_map, length_sliceRows hlt (hle.trans weight.length_rows.ge)]
  have h := foldlM_prod (hcopy (fun row => (packRow quantizer k row).1) packed.length_rows)
    (hcopy (fun row => (packRow quantizer k row).2) scales.length_rows)
  rw [packW4, if_neg (by omega), hchunks, Result.ok_bind]
  refine Eq.trans (congrArg (fun body => List.foldlM body _ _) ?_) h
  funext buffers chunk
  obtain ⟨packed, scales⟩ := buffers
  simp only [List.map_map]
  rfl

theorem W4Layout.of_rows {quant : Nat → Nat → Int} {scaleAt : Nat → Nat → S} {packed : Nat → List UInt8}
    {scales : Nat → List S} (hk : k % 32 = 0)
    (h : ∀ r < m, RowLayout k (quant r) (scaleAt r) (packed r) (scales r)) :
    W4Layout m k quant scaleAt ((List.range m).map packed).flatten ((List.range m).map scales).flatten := by
  have hpacked : ∀ r ∈ List.range m, (packed r).length = k / 2 := fun r hr => (h r (List.mem_range.mp hr)).length_packed
  have hscales : ∀ r ∈ List.range m, (scales r).length = k / 32 := fun r hr => (h r (List.mem_range.mp hr)).length_scale
  refine ⟨?_, ?_, fun r hr c hc => ?_, fun r hr c hc => ?_⟩
  · rw [← List.flatMap_def, List.length_flatMap, List.map_congr_left hpacked]
    simp
  · rw [← List.flatMap_def, List.length_flatMap, List.map_congr_left hscales]
    simp
  · obtain ⟨byte, hbyte, hnibble⟩ := (h r hr).nibble c hc
    refine ⟨byte, ?_, hnibble⟩
    have hpair : c / 2 < k / 2 := by omega
    rw [← List.flatMap_def, getElem?_flatMap_const hpacked hpair, List.getElem?_range hr]
    exact hbyte
  · have hgroup : c / 32 < k / 32 := by omega
    rw [← List.flatMap_def, getElem?_flatMap_const hscales hgroup, List.getElem?_range hr]
    exact (h r hr).scale c hc

theorem dequantizeWeightReference_ok {quant : Nat → Nat → Int} {scaleAt : Nat → Nat → S} {packed : Nat → List UInt8}
    {scales : Nat → List S} (hk : k % 32 = 0) (hm : 0 < m) (hpos : 0 < k)
    (h : ∀ r < m, RowLayout k (quant r) (scaleAt r) (packed r) (scales r)) (hquant : ∀ r < m, ∀ c < k, |quant r c| ≤ 7)
    (mul : Int → S → O) {byteLimit : Int} (hlimit : 0 < byteLimit) (output : Tensor O m k) :
    ∃ out, dequantizeWeightReference mul (.w4 ((List.range m).map packed) ((List.range m).map scales)) byteLimit
      output = .ok out ∧
      ∀ r < m, ∀ c < k, out.flatten[r * k + c]? = some (mul (quant r c) (scaleAt r c)) := by
  obtain ⟨size, hsize, hchunks⟩ := iterRowChunks_eq hm hpos hlimit
  have hloop := @foldlM_chunks m (List O) (fun output chunk => copyRows output chunk.1
    (List.zipWith (dequantizeRowW4 mul) (sliceRows ((List.range m).map packed) chunk)
      (sliceRows ((List.range m).map scales) chunk))) (fun r => dequantizeRowW4 mul (packed r) (scales r)) size
    hsize output.rows output.length_rows fun chunk buffer hlt hle _ => by
      refine ⟨_, rfl, ?_, fun i row hrow => ?_⟩
      · rw [List.length_zipWith, length_sliceRows hlt (by simpa using hle), length_sliceRows hlt (by simpa using hle),
          Nat.min_self]
      · rw [List.getElem?_zipWith, getElem?_sliceRows, getElem?_sliceRows] at hrow
        by_cases hi : i < chunk.2 - chunk.1
        · have hrange : chunk.1 + i < m := by omega
          rw [if_pos hi, if_pos hi, List.getElem?_map, List.getElem?_map, List.getElem?_range hrange] at hrow
          exact (Option.some_inj.mp hrow).symm
        · rw [if_neg hi] at hrow
          cases hrow
  refine ⟨_, by rw [dequantizeWeightReference, hchunks, Result.ok_bind]; exact hloop, fun r hr c hc => ?_⟩
  have hwidth : ∀ r ∈ List.range m, (dequantizeRowW4 mul (packed r) (scales r)).length = k := by
    intro r hr
    have hrow := h r (List.mem_range.mp hr)
    have hpair : ∀ byte ∈ packed r, [signed (byte &&& (0x0F : UInt8)).toNat,
        signed (byte >>> (4 : UInt8)).toNat].length = 2 := fun _ _ => rfl
    have hgroup : ∀ s ∈ scales r, (List.replicate 32 s).length = 32 := fun _ _ => List.length_replicate
    rw [dequantizeRowW4, List.length_zipWith, List.length_flatMap, List.length_flatMap, List.map_congr_left hpair,
      List.map_congr_left hgroup]
    simp [hrow.length_packed, hrow.length_scale]
    omega
  rw [← List.flatMap_def, getElem?_flatMap_const hwidth hc, List.getElem?_range hr]
  exact (h r hr).dequantizeRow (hquant r hr) mul hc

variable {quant : Nat → Nat → Int} {scaleAt : Nat → Nat → S} {packed : List UInt8} {scales : List S}

theorem W4Layout.decode (h : W4Layout m k quant scaleAt packed scales) (hquant : ∀ r < m, ∀ c < k, |quant r c| ≤ 7)
    {r c : Nat} (hr : r < m) (hc : c < k) : ∃ byte, Result.getItem packed (r * (k / 2) + c / 2) = .ok byte ∧
      decodeInt4 byte (c % 2 = 1) = quant r c := by
  obtain ⟨byte, hbyte, hnibble⟩ := h.nibble r hr c hc
  refine ⟨byte, Result.getItem_eq_ok.mpr hbyte, ?_⟩
  rw [decodeInt4_eq_signed, hnibble, signed_nibble (hquant r hr c hc)]

theorem W4Layout.w4DequantKernel (h : W4Layout m k quant scaleAt packed scales)
    (hquant : ∀ r < m, ∀ c < k, |quant r c| ≤ 7) (mul : Int → S → O) {output : List O}
    (hlen : output.length = m * k) (blockIdx threadIdx : Nat) :
    ∃ output', Gfx936.w4DequantKernel mul packed scales (m * k) k output blockIdx threadIdx = .ok output' ∧
      Stored (if blockIdx * blockThreads + threadIdx < m * k then [blockIdx * blockThreads + threadIdx] else [])
        (fun index => mul (quant (index / k) (index % k)) (scaleAt (index / k) (index % k))) output output' := by
  obtain ⟨index, hindex⟩ : ∃ index, index = blockIdx * blockThreads + threadIdx := ⟨_, rfl⟩
  unfold Gfx936.w4DequantKernel
  rw [← hindex]
  by_cases hlt : index < m * k
  · have hk : 0 < k := by
      rcases Nat.eq_zero_or_pos k with rfl | hk
      · omega
      · exact hk
    have hr : index / k < m := Nat.div_lt_of_lt_mul (by rwa [Nat.mul_comm])
    have hc : index % k < k := Nat.mod_lt index hk
    obtain ⟨byte, hbyte, hdecode⟩ := h.decode hquant hr hc
    rw [if_pos hlt, if_pos hlt]
    simp only [hbyte, Result.getItem_eq_ok.mpr (h.scale _ hr _ hc), Result.ok_bind, hdecode]
    exact @store_stored O (fun index => mul (quant (index / k) (index % k)) (scaleAt (index / k) (index % k)))
      output index (hlen ▸ hlt)
  · rw [if_neg hlt, if_neg hlt]
    exact ⟨output, rfl, .refl output⟩

theorem W4Layout.w4Dequant (h : W4Layout m k quant scaleAt packed scales)
    (hquant : ∀ r < m, ∀ c < k, |quant r c| ≤ 7) (hk : k % 32 = 0) (hm : 0 < m) (hpos : 0 < k)
    (mul : Int → S → O) {output : List O} (hlen : output.length = m * k) :
    ∃ out, Gfx936.w4Dequant mul packed scales output m k = .ok (0, out) ∧
      ∀ r < m, ∀ c < k, out[r * k + c]? = some (mul (quant r c) (scaleAt r c)) := by
  obtain ⟨out, hout, hstored⟩ := @foldlM_stored O Nat
    (fun index => mul (quant (index / k) (index % k)) (scaleAt (index / k) (index % k)))
    (fun output blockIdx => (List.range blockThreads).foldlM (fun output threadIdx =>
      Gfx936.w4DequantKernel mul packed scales (m * k) k output blockIdx threadIdx) output)
    (fun blockIdx => (List.range blockThreads).flatMap fun threadIdx =>
      if blockIdx * blockThreads + threadIdx < m * k then [blockIdx * blockThreads + threadIdx] else []) (m * k)
    (List.range (ceilDiv (m * k) blockThreads)) (fun blockIdx _ memory hmemory =>
      foldlM_stored (fun threadIdx _ memory hmemory => h.w4DequantKernel hquant mul hmemory blockIdx threadIdx)
        hmemory) output hlen
  refine ⟨out, ?_, fun r hr c hc => ?_⟩
  · unfold Gfx936.w4Dequant
    rw [if_neg (by omega)]
    show (do let output ← (List.range (ceilDiv (m * k) blockThreads)).foldlM _ output; return ((0 : Int), output)) = _
    rw [hout]
    rfl
  · have hindex : r * k + c < m * k := cell_lt hr hc
    have hthreads : 0 < blockThreads := by decide
    have hdiv : (r * k + c) / k = r := by
      rw [Nat.mul_comm, Nat.mul_add_div hpos, Nat.div_eq_of_lt hc, Nat.add_zero]
    have hmod : (r * k + c) % k = c := by
      rw [Nat.mul_comm, Nat.mul_add_mod, Nat.mod_eq_of_lt hc]
    have hblock : (r * k + c) / blockThreads < ceilDiv (m * k) blockThreads := by
      rw [ceilDiv, Nat.div_lt_iff_lt_mul hthreads]
      have := Nat.div_add_mod (m * k + blockThreads - 1) blockThreads
      have := Nat.mod_lt (m * k + blockThreads - 1) hthreads
      rw [Nat.mul_comm ((m * k + blockThreads - 1) / blockThreads)]
      omega
    rw [hstored.getElem?, if_pos, hdiv, hmod]
    -- entry `index` is written by thread `index % 256` of block `index / 256`
    refine List.mem_flatMap.mpr ⟨(r * k + c) / blockThreads, List.mem_range.mpr hblock, List.mem_flatMap.mpr
      ⟨(r * k + c) % blockThreads, List.mem_range.mpr (Nat.mod_lt _ hthreads), ?_⟩⟩
    rw [Nat.div_add_mod', if_pos hindex]
    exact List.mem_singleton_self _

theorem W4Layout.w4Entry [One S] (h : W4Layout m k quant scaleAt packed scales)
    (hquant : ∀ r < m, ∀ c < k, |quant r c| ≤ 7) (hk : k % 32 = 0) {input smem : List S} (hinput : input.length = k)
    (hsmem : smem.length * 2 = sharedBytes k) {r c : Nat} (hr : r < m) (hc : c < k) :
    ∃ smem', (List.range blockThreads).foldlM (loadShared k m scales input (r / rowsPerBlock)) smem = .ok smem' ∧
      Gfx936.w4Entry k packed smem' r (r % rowsPerBlock) c = .ok (quant r c, scaleAt r c) := by
  rw [sharedBytes] at hsmem
  have hrow : r / rowsPerBlock * rowsPerBlock + r % rowsPerBlock = r := Nat.div_add_mod' r rowsPerBlock
  refine ⟨_, loadShared_ok (d := 1) hinput h.length_scales (by omega), ?_⟩
  have hentry := @w4Entry_ok S 1 _ k m (r / rowsPerBlock) scales input packed (r % rowsPerBlock) c hk hc
    (Nat.mod_lt r (by decide)) (hrow.symm ▸ hr) h.length_packed
  rw [hrow] at hentry
  obtain ⟨byte, hbyte, hdecode⟩ := h.decode hquant hr hc
  rw [Result.getItem_eq_ok] at hbyte
  rw [hentry, List.getD_eq_getElem?_getD, hbyte, Option.getD_some, hdecode, List.getD_eq_getElem?_getD,
    h.scale r hr c hc, Option.getD_some]

end Matrix

section Packing

variable {W S : Type} {m k : Nat}

theorem abs_quantisedAt_le (quantizer : GroupQuantizer W S) (weight : Tensor W m k) (r c : Nat) :
    |quantisedAt quantizer weight r c| ≤ 7 := abs_le.mpr (quantAt_clamped c)

theorem packRow_layout_of_lt (quantizer : GroupQuantizer W S) (weight : Tensor W m k) (hk : k % 32 = 0) {r : Nat}
    (hr : r < m) : RowLayout k (quantisedAt quantizer weight r) (scaleAt quantizer weight r)
      (packRow quantizer k (weight.rows.getD r [])).1 (packRow quantizer k (weight.rows.getD r [])).2 := by
  refine packRow_layout hk (weight.length_row _ ?_)
  have hlt : r < weight.rows.length := weight.length_rows.symm ▸ hr
  rw [List.getD_eq_getElem?_getD, List.getElem?_eq_getElem hlt]
  exact List.getElem_mem hlt

/-- Whatever the chunks, the contents of the buffers, the weight and its quantiser, there is one layout:
`pack_w4` stores it, and the reference, the dequantising kernel and the matrix-vector kernel read
the same number and the same scale for every entry. An empty matrix is refused. -/
theorem packW4_layout (quantizer : GroupQuantizer W S) (weight : Tensor W m k) (hk : k % 32 = 0) (byteLimit : Int)
    (packedBuffer : Tensor UInt8 m (k / 2)) (scalesBuffer : Tensor S m (k / 32)) :
    (m = 0 ∨ k = 0 ∨ byteLimit ≤ 0 → packW4 quantizer weight byteLimit packedBuffer scalesBuffer =
      .error (.valueError "rows, columns, and byte_limit must be positive")) ∧
    (0 < m → 0 < k → 0 < byteLimit →
      (∃ chunks, iterRowChunks m k byteLimit = .ok chunks ∧ (∀ chunk ∈ chunks, chunk.1 < chunk.2) ∧
        (chunks.flatMap fun chunk => List.range' chunk.1 (chunk.2 - chunk.1)) = List.range m) ∧
      ∃ packed scales, packW4 quantizer weight byteLimit packedBuffer scalesBuffer = .ok (packed, scales) ∧
        W4Layout m k (quantisedAt quantizer weight) (scaleAt quantizer weight) packed.flatten scales.flatten ∧
        (∀ {O : Type} (mul : Int → S → O) {byteLimit : Int}, 0 < byteLimit → ∀ output : Tensor O m k, ∃ out,
          dequantizeWeightReference mul (.w4 packed scales) byteLimit output = .ok out ∧
          ∀ r < m, ∀ c < k, out.flatten[r * k + c]? =
            some (mul (quantisedAt quantizer weight r c) (scaleAt quantizer weight r c))) ∧
        (∀ {O : Type} (mul : Int → S → O) {output : List O}, output.length = m * k → ∃ out,
          w4Dequant mul packed.flatten scales.flatten output m k = .ok (0, out) ∧
          ∀ r < m, ∀ c < k, out[r * k + c]? =
            some (mul (quantisedAt quantizer weight r c) (scaleAt quantizer weight r c))) ∧
        ∀ [One S] {input smem : List S}, input.length = k → smem.length * 2 = sharedBytes k →
          ∀ r < m, ∀ c < k, ∃ smem',
            (List.range blockThreads).foldlM (loadShared k m scales.flatten input (r / rowsPerBlock)) smem =
              .ok smem' ∧
            w4Entry k packed.flatten smem' r (r % rowsPerBlock) c =
              .ok (quantisedAt quantizer weight r c, scaleAt quantizer weight r c)) := by
  constructor
  · intro hempty
    rw [packW4, if_neg (by omega), iterRowChunks, if_pos (by omega)]
    rfl
  · intro hm hpos hlimit
    obtain ⟨size, hsize, hchunks⟩ := iterRowChunks_eq hm hpos hlimit
    have hrows := fun r (hr : r < m) => packRow_layout_of_lt quantizer weight hk hr
    have hbound := fun r (_ : r < m) c (_ : c < k) => abs_quantisedAt_le quantizer weight r c
    have hlayout := W4Layout.of_rows hk hrows
    refine ⟨⟨_, hchunks, fun chunk h => (chunk_lt hsize h).1, flatMap_chunks hsize⟩, _, _,
      packW4_ok hk hm hpos hlimit packedBuffer scalesBuffer, hlayout, ?_, ?_, ?_⟩
    · intro O mul byteLimit hlimit output
      exact dequantizeWeightReference_ok hk hm hpos hrows hbound mul hlimit output
    · intro O mul output hlen
      exact hlayout.w4Dequant hbound hk hm hpos mul hlen
    · intro _ input smem hinput hsmem r hr c hc
      exact hlayout.w4Entry hbound hk hinput hsmem hr hc

def rationalQuantizer : GroupQuantizer Rat Rat where
  quantized group := (symmetricQuantize group 7).1.map Int8.ofInt
  scale group := (symmetricQuantize group 7).2
  length_quantized group := by rw [List.length_map, symmetricQuantize, List.length_map]
  clamped group q hq := by
    rw [symmetricQuantize_eq (by decide)] at hq
    obtain ⟨n, hn, rfl⟩ := List.mem_map.mp hq
    obtain ⟨x, hx, rfl⟩ := List.mem_map.mp hn
    obtain ⟨hlow, hhigh⟩ := abs_le.mp (quantizedTo_spec (by decide : (0 : Int) < 7) hx).1
    rw [Int8.toInt_ofInt_of_le (by omega) (by omega)]
    exact ⟨hlow, hhigh⟩

theorem packW4_layout_ones : ∃ packed scales,
    packW4 rationalQuantizer (⟨[.replicate 32 1], rfl, by simp⟩ : Tensor Rat 1 32) 1
      ⟨[.replicate 16 0], rfl, by simp⟩ ⟨[[0]], rfl, by simp⟩ = .ok (packed, scales) ∧
    W4Layout 1 32 (quantisedAt rationalQuantizer (⟨[.replicate 32 1], rfl, by simp⟩ : Tensor Rat 1 32))
      (scaleAt rationalQuantizer (⟨[.replicate 32 1], rfl, by simp⟩ : Tensor Rat 1 32)) packed.flatten
      scales.flatten := by
  obtain ⟨-, packed, scales, hok, hlayout, -⟩ := (packW4_layout rationalQuantizer
    (⟨[.replicate 32 1], rfl, by simp⟩ : Tensor Rat 1 32) rfl 1 ⟨[.replicate 16 0], rfl, by simp⟩
    ⟨[[0]], rfl, by simp⟩).2 (by decide) (by decide) (by decide)
  exact ⟨packed, scales, hok, hlayout⟩

end Packing

end Vllm.Gfx936
