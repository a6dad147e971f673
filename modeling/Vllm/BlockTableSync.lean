import Vllm.InputBatchRun

namespace Vllm

namespace BlockTable

variable {t t' : BlockTable} {n : Nat}

def Synced (n : Nat) (t : BlockTable) : Prop := t.dirty = true ∨ ∀ i < n, t.gpu i = t.cpu i

theorem Synced.mono {m : Nat} (h : Synced n t) (hm : m ≤ n) : Synced m t :=
  h.imp_right fun h i hi => h i (Nat.lt_of_lt_of_le hi hm)

theorem appendRow_synced {ids : List Nat} {i : Nat} (h : Synced n t)
    (hok : t.appendRow ids i = .ok t') : Synced n t' := by
  unfold appendRow at hok
  split at hok
  · cases hok
    exact h
  · simp only [Result.bind_eq_ok, Result.pure_eq_ok] at hok
    obtain ⟨row, -, rfl⟩ := hok
    exact .inl rfl

theorem addRow_dirty {ids : List Nat} {i : Nat} (hok : t.addRow ids i = .ok t') :
    t'.dirty = true := by
  unfold addRow appendRow at hok
  split at hok
  · cases hok
    rfl
  · simp only [Result.bind_eq_ok, Result.pure_eq_ok] at hok
    obtain ⟨row, -, rfl⟩ := hok
    rfl

theorem commitBlockTable_gpu (h : Synced n t) {i : Nat} (hi : i < n) :
    (t.commitBlockTable n).gpu i = t.cpu i := by
  unfold commitBlockTable
  split
  · exact if_pos hi
  · rename_i hdirty
    exact h.resolve_left hdirty i hi

theorem commitBlockTable_cpu : (t.commitBlockTable n).cpu = t.cpu := by
  unfold commitBlockTable
  split <;> rfl

end BlockTable

namespace MultiGroupBlockTable

variable {ts ts' : MultiGroupBlockTable} {n : Nat}

def Synced (n : Nat) (ts : MultiGroupBlockTable) : Prop := ∀ t ∈ ts, t.Synced n

theorem forTables_synced {f : BlockTable → List Nat → Result BlockTable} {P Q : BlockTable → Prop}
    (hf : ∀ t ids t', P t → f t ids = .ok t' → Q t') {blockIds : List (List Nat)}
    (h : ∀ t ∈ ts, P t) (hok : forTables f blockIds ts = .ok ts') : ∀ t ∈ ts', Q t := by
  induction ts generalizing blockIds ts' with
  | nil =>
    unfold forTables at hok
    cases hok
    exact fun _ h => absurd h List.not_mem_nil
  | cons t ts ih =>
    cases blockIds with
    | nil => cases hok
    | cons ids rest =>
      simp only [forTables, Result.bind_eq_ok, Result.pure_eq_ok] at hok
      obtain ⟨t', ht', us, hus, rfl⟩ := hok
      intro u hu
      rcases List.mem_cons.mp hu with rfl | hu
      · exact hf t ids u (h t List.mem_cons_self) ht'
      · exact ih (fun t ht => h t (List.mem_cons_of_mem _ ht)) hus u hu

theorem appendRow_synced {blockIds : List (List Nat)} {i : Nat} (h : Synced n ts)
    (hok : appendRow ts blockIds i = .ok ts') : Synced n ts' :=
  forTables_synced (fun _ _ _ ht hok => BlockTable.appendRow_synced ht hok) h hok

theorem addRow_synced {blockIds : List (List Nat)} {i : Nat}
    (hok : addRow ts blockIds i = .ok ts') : Synced n ts' :=
  forTables_synced (P := fun _ => True) (fun _ _ _ _ hok => .inl (BlockTable.addRow_dirty hok))
    (fun _ _ => trivial) hok

theorem moveRow_synced {src tgt : Nat} : Synced n (moveRow ts src tgt) := by
  intro t ht
  obtain ⟨t, -, rfl⟩ := List.mem_map.mp ht
  exact .inl rfl

theorem swapRow_synced {src tgt : Nat} : Synced n (swapRow ts src tgt) := by
  intro t ht
  obtain ⟨t, -, rfl⟩ := List.mem_map.mp ht
  exact .inl rfl

end MultiGroupBlockTable

namespace Worker

open MultiGroupBlockTable InputBatch

variable {F F32 G E : Type}

namespace InputBatch

variable {c : InputBatchConfig F F32} {b b' : InputBatch F F32 G E} {id : ReqId}

def Synced (b : InputBatch F F32 G E) : Prop := MultiGroupBlockTable.Synced b.numReqs b.blockTable

theorem dropLora_same {i : Nat} (hok : b.dropLora i id = .ok b') :
    b'.blockTable = b.blockTable ∧ b'.reqIdToIndex = b.reqIdToIndex := by
  unfold dropLora at hok
  simp only at hok
  split at hok
  · cases hok
    exact ⟨rfl, rfl⟩
  · split at hok
    · cases hok
    · split at hok
      · cases hok
        exact ⟨rfl, rfl⟩
      · cases hok
        exact ⟨rfl, rfl⟩

theorem removeRequest_synced {i : Option Nat} (h : b.Synced)
    (hok : b.removeRequest c id = .ok (i, b')) : b'.Synced := by
  unfold removeRequest at hok
  split at hok
  · cases hok
    exact h
  · rename_i j hj
    simp only [Result.bind_eq_ok] at hok
    obtain ⟨u, -, b₁, hdrop, hok⟩ := hok
    obtain ⟨htables, hindex⟩ := dropLora_same hdrop
    have hsame : b'.blockTable = b₁.blockTable ∧ b'.reqIdToIndex = b₁.reqIdToIndex := by
      split at hok
      · cases hok
        exact ⟨rfl, rfl⟩
      · cases hok
        exact ⟨rfl, rfl⟩
    have hle : b'.numReqs ≤ b.numReqs := by
      have herase := Dict.size_erase b.reqIdToIndex id
      have hnum : b'.numReqs = (b.reqIdToIndex.erase id).size := by
        rw [numReqs, hsame.2, hindex]
        rfl
      unfold numReqs at hnum ⊢
      omega
    intro t ht
    rw [hsame.1, htables] at ht
    exact (h t ht).mono hle

theorem updateReqSpecTokenIds_synced {spec : List Token} (h : b.Synced)
    (hok : b.updateReqSpecTokenIds c id spec = .ok b') : b'.Synced := by
  simp only [updateReqSpecTokenIds, Result.bind_eq_ok, Result.pure_eq_ok] at hok
  obtain ⟨i, -, row, -, rfl⟩ := hok
  exact h

theorem swapStates_synced {i1 i2 : Nat} (hok : b.swapStates c i1 i2 = .ok b') : b'.Synced := by
  simp only [swapStates, Result.bind_eq_ok] at hok
  obtain ⟨x, -, y, -, hok⟩ := hok
  split at hok
  · simp only [Result.bind_eq_ok, Result.pure_eq_ok] at hok
    obtain ⟨j1, -, j2, -, rfl⟩ := hok
    split <;> exact swapRow_synced
  · cases hok

theorem moveRequest_synced {last empty : Nat} (hok : b.moveRequest c last empty = .ok b') :
    b'.Synced := by
  simp only [moveRequest, Result.bind_eq_ok] at hok
  obtain ⟨x, -, y, -, hok⟩ := hok
  split at hok
  · cases hok
  · simp only [Result.bind_eq_ok, Result.pure_eq_ok] at hok
    obtain ⟨spec, -, rfl⟩ := hok
    split <;> exact moveRow_synced

theorem condenseLoop_synced {fuel last : Nat} (h : b.Synced)
    (hok : condenseLoop c fuel last b = .ok b') : b'.Synced := by
  induction fuel generalizing last b with
  | zero =>
    cases hok
    exact h
  | succ fuel ih =>
    unfold condenseLoop at hok
    split at hok
    · cases hok
      exact h
    · simp only at hok
      split at hok
      · cases hok
      · split at hok
        · cases hok
          exact h
        · rw [Result.bind_eq_ok] at hok
          obtain ⟨b₁, hmove, hok⟩ := hok
          exact ih (moveRequest_synced hmove) hok

theorem condense_synced (h : b.Synced) (hok : b.condense c = .ok b') : b'.Synced := by
  unfold condense at hok
  simp only at hok
  split at hok
  · cases hok
    exact h
  · split at hok
    · cases hok
      exact h
    · simp only [Result.bind_eq_ok, Result.pure_eq_ok] at hok
      obtain ⟨b₁, hloop, rfl⟩ := hok
      have hb₁ : b₁.Synced :=
        condenseLoop_synced (b := b.withBuilder b.batchUpdateBuilder.ensureRemovedSorted) h hloop
      exact hb₁

theorem addRequest_synced [Zero F] [One F] [LT F] [DecidableLT F] [DecidableEq F] {i : Nat}
    {r : CachedRequestState F G E} (hok : b.addRequest c r = .ok (i, b')) : b'.Synced := by
  simp only [addRequest, Result.bind_eq_ok] at hok
  obtain ⟨⟨j, b₁⟩, -, b₂, -, row, -, ts, hts, hok⟩ := hok
  have hsynced : ∀ n, MultiGroupBlockTable.Synced n ts := fun n => addRow_synced hts
  have hlora : ∀ (b : InputBatch F F32 G E), (b.storeLora j r).blockTable = b.blockTable := by
    intro b
    unfold storeLora
    split <;> rfl
  split at hok
  · cases hok
    unfold Synced
    rw [hlora]
    exact hsynced _
  · cases hok
    unfold Synced
    rw [hlora]
    exact hsynced _
  · cases hok

end InputBatch

namespace ModelRunner

variable {c : InputBatchConfig F F32} {st st' : ModelRunner F F32 G E}

theorem removeRequest_synced {id : ReqId} (h : st.batch.Synced)
    (hok : removeRequest c st id = .ok st') : st'.batch.Synced := by
  simp only [removeRequest, Result.bind_eq_ok, Result.pure_eq_ok] at hok
  obtain ⟨⟨i, b⟩, hb, rfl⟩ := hok
  exact InputBatch.removeRequest_synced h hb

theorem updateRequest_synced {u : RowUpdate} (h : st.batch.Synced)
    (hok : updateRequest c st u = .ok st') : st'.batch.Synced := by
  unfold updateRequest at hok
  split at hok
  · cases hok
  · simp only [Result.bind_eq_ok, Result.pure_eq_ok] at hok
    obtain ⟨i, -, ts, hts, b, hb, rfl⟩ := hok
    refine updateReqSpecTokenIds_synced ?_ hb
    exact appendRow_synced h hts

section

variable [Zero F] [One F] [LT F] [DecidableLT F] [DecidableEq F]

theorem addRequest_synced {a : CachedRequestState F G E × List Token}
    (hok : addRequest c st a = .ok st') : st'.batch.Synced := by
  simp only [addRequest, Result.bind_eq_ok, Result.pure_eq_ok] at hok
  obtain ⟨⟨i, b₁⟩, hb₁, b₂, hb₂, rfl⟩ := hok
  exact updateReqSpecTokenIds_synced (InputBatch.addRequest_synced hb₁) hb₂

theorem updateStates_synced {s : BatchStep F G E} {u : Option (BatchUpdate F)}
    (h : st.batch.Synced) (hok : st.updateStates c s = .ok (u, st')) : st'.batch.Synced := by
  simp only [updateStates, condenseStates, Result.bind_eq_ok, Result.pure_eq_ok] at hok
  obtain ⟨st₄, ⟨st₁, hst₁, st₂, hst₂, st₃, hst₃, b, hb, rfl⟩, b', hb', hok⟩ := hok
  have h₁ : st₁.batch.Synced := Result.foldlM_keeps
    (P := fun st : ModelRunner F F32 G E => st.batch.Synced)
    (fun _ _ _ h => removeRequest_synced h) h hst₁
  have h₂ : st₂.batch.Synced := Result.foldlM_keeps
    (P := fun st : ModelRunner F F32 G E => st.batch.Synced)
    (fun _ _ _ h => updateRequest_synced h) h₁ hst₂
  have h₃ : st₃.batch.Synced := Result.foldlM_keeps
    (P := fun st : ModelRunner F F32 G E => st.batch.Synced)
    (fun _ _ _ _ => addRequest_synced) h₂ hst₃
  have h₅ : b'.Synced := Result.foldlM_keeps (fun _ _ _ _ => swapStates_synced)
    (condense_synced h₃ hb) hb'
  cases hok
  unfold refreshMetadata
  split <;> exact h₅

/-- What follows an update of the batch: every table copies its rows if it is dirty, and the rows
behind them may be filled up for a padded batch. -/
def commitBlockTable (st : ModelRunner F F32 G E) (padded : Option Nat) : ModelRunner F F32 G E :=
  let n := st.batch.numReqs
  let ts := st.batch.blockTable.commitBlockTable n
  match padded with
  | some padded => st.withBatch (st.batch.withTables (ts.fillPadding n padded))
  | none => st.withBatch (st.batch.withTables ts)

/-- A step of the model runner with its upload, or a reset of the tables. -/
inductive TableStep (F G E : Type)
  | execute (s : BatchStep F G E) (padded : Option Nat)
  | clear

def tableStep (c : InputBatchConfig F F32) (st : ModelRunner F F32 G E) :
    TableStep F G E → Result (ModelRunner F F32 G E)
  | .execute s padded => do
    let (_, st) ← st.updateStates c s
    return st.commitBlockTable padded
  | .clear => .ok (st.withBatch (st.batch.withTables st.batch.blockTable.clear))

def Uploaded (st : ModelRunner F F32 G E) : Prop :=
  ∀ t ∈ st.batch.blockTable, ∀ i < st.batch.numReqs, t.gpu i = t.cpu i

omit [Zero F] [One F] [LT F] [DecidableLT F] [DecidableEq F] in
theorem commitBlockTable_uploaded (h : st.batch.Synced) (padded : Option Nat) :
    (st.commitBlockTable padded).Uploaded := by
  have hcommit : ∀ t ∈ st.batch.blockTable, ∀ i < st.batch.numReqs,
      (t.commitBlockTable st.batch.numReqs).gpu i = (t.commitBlockTable st.batch.numReqs).cpu i := by
    intro t ht i hi
    rw [BlockTable.commitBlockTable_gpu (h t ht) hi, BlockTable.commitBlockTable_cpu]
  cases padded with
  | none =>
    intro t' ht'
    obtain ⟨t, ht, rfl⟩ := List.mem_map.mp ht'
    exact hcommit t ht
  | some padded =>
    intro t' ht' i hi
    obtain ⟨t₁, ht₁, rfl⟩ := List.mem_map.mp ht'
    obtain ⟨t, ht, rfl⟩ := List.mem_map.mp ht₁
    have hi : i < st.batch.numReqs := hi
    show (if st.batch.numReqs ≤ i ∧ i < padded then _ else _) = _
    rw [if_neg fun hle => Nat.not_le.mpr hi hle.1]
    exact hcommit t ht i hi

theorem tableStep_uploaded (h : st.Uploaded) {s : TableStep F G E}
    (hok : st.tableStep c s = .ok st') : st'.Uploaded := by
  cases s with
  | execute s padded =>
    simp only [tableStep, Result.bind_eq_ok, Result.pure_eq_ok] at hok
    obtain ⟨⟨u, st₁⟩, hst₁, rfl⟩ := hok
    have hsynced : st.batch.Synced := fun t ht => .inr (h t ht)
    exact commitBlockTable_uploaded (updateStates_synced hsynced hst₁) padded
  | clear =>
    cases hok
    intro t ht i _
    obtain ⟨t, -, rfl⟩ := List.mem_map.mp ht
    rfl

/-- Along every run the rows of the batch are on the GPU after each upload, and every upload leaves
what copying them unconditionally would. -/
theorem uploaded_of_run (c : InputBatchConfig F F32) (blockTable : MultiGroupBlockTable)
    (ss : List (TableStep F G E)) :
    Throughout (tableStep c) (fun st => st.Uploaded ∧
      ∀ s u st', st.updateStates c s = .ok (u, st') → ∀ t ∈ st'.batch.blockTable,
        ∀ i < st'.batch.numReqs, (t.commitBlockTable st'.batch.numReqs).gpu i =
          (t.copyToGpu st'.batch.numReqs).gpu i)
      (ModelRunner.init c blockTable) ss := by
  have hinit : (ModelRunner.init c blockTable : ModelRunner F F32 G E).Uploaded :=
    fun t _ i hi => absurd hi (Nat.not_lt_zero i)
  refine throughout_of_inv (fun st s st' h _ hok => tableStep_uploaded h hok) ?_ hinit
    (guarded_true _ ss)
  intro st h
  refine ⟨h, fun s u st' hok t ht i hi => ?_⟩
  have hsynced : st.batch.Synced := fun t ht => .inr (h t ht)
  rw [BlockTable.commitBlockTable_gpu (updateStates_synced hsynced hok t ht) hi]
  exact (if_pos hi).symm

end

end ModelRunner

end Worker

end Vllm
