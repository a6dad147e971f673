import Vllm.GrammarBitmask

namespace Vllm.StructuredOutput

variable {σ L : Type}

section Rows

variable {vocabSize : Nat}

@[simp] theorem allows_fullRow (token : Nat) :
    MaskRow.allows (fullRow vocabSize) token = true := by
  rw [MaskRow.allows, fullRow]
  by_cases h : token / 32 < numWords vocabSize
  · rw [List.getElem?_replicate, if_pos h]
    show (-1 : BitVec 32).getLsbD (token % 32) = true
    rw [show (-1 : BitVec 32) = BitVec.allOnes 32 by decide, BitVec.getLsbD_allOnes]
    exact decide_eq_true (Nat.mod_lt _ (by decide))
  · rw [List.getElem?_replicate, if_neg h]

theorem allows_packRow (allowed : Nat → Bool) {token : Nat} (h : token < vocabSize) :
    MaskRow.allows (packRow vocabSize allowed) token = allowed token := by
  have hword : token / 32 < numWords vocabSize := by
    rw [numWords]
    omega
  have hbit : token % 32 < 32 := Nat.mod_lt _ (by decide)
  rw [MaskRow.allows, packRow, List.getElem?_map, List.getElem?_range hword]
  show ((BitVec.ofBoolListLE _).cast _).getLsbD (token % 32) = _
  rw [BitVec.getLsbD_cast, BitVec.getLsbD_ofBoolListLE, List.getD_eq_getElem?_getD,
    List.getElem?_map, List.getElem?_range hbit]
  show allowed (32 * (token / 32) + token % 32) = allowed token
  rw [Nat.div_add_mod]

def restrict (negInf : L) (allowed : Nat → Bool) (logits : List L) : List L :=
  logits.mapIdx fun token x => if allowed token then x else negInf

theorem maskLogits_fullRow (negInf : L) (logits : List L) :
    maskLogits negInf (fullRow vocabSize) logits = logits := by
  refine List.ext_getElem? fun i => ?_
  rw [maskLogits, List.getElem?_mapIdx]
  simp

theorem maskLogits_packRow (negInf : L) (allowed : Nat → Bool) {logits : List L}
    (h : logits.length ≤ vocabSize) :
    maskLogits negInf (packRow vocabSize allowed) logits = restrict negInf allowed logits := by
  refine List.ext_getElem? fun i => ?_
  rw [maskLogits, restrict, List.getElem?_mapIdx, List.getElem?_mapIdx]
  by_cases hi : i < logits.length
  · rw [allows_packRow allowed (Nat.lt_of_lt_of_le hi h)]
  · rw [List.getElem?_eq_none (by omega)]
    rfl

end Rows

section Positions

variable {a : Automaton σ} {m : StructuredOutputManager}

def afterDrafts (a : Automaton σ) (s : σ) : List Int → Option σ
  | [] => some s
  | d :: ds => if a.terminated s then some s else (a.accept s d).bind (afterDrafts a · ds)

def constraint (a : Automaton σ) (s : σ) (drafts : List Int) (i : Nat) : Option σ :=
  if -1 ∈ drafts.take i then none
  else (afterDrafts a s (drafts.take i)).filter (!a.terminated ·)

def positionRow (m : StructuredOutputManager) (a : Automaton σ) (applyBitmask : Bool) (s : σ)
    (drafts : List Int) (i : Nat) : MaskRow :=
  match if applyBitmask then constraint a s drafts i else none with
  | some s' => packRow m.vocabSize (a.allowed s')
  | none => fullRow m.vocabSize

def positionRows (m : StructuredOutputManager) (a : Automaton σ) (applyBitmask : Bool) (s : σ)
    (drafts : List Int) : List MaskRow :=
  (List.range (drafts.length + 1)).map (positionRow m a applyBitmask s drafts)

def Acceptable (a : Automaton σ) (s : σ) : List Int → Prop
  | [] => True
  | d :: ds => d = -1 ∨ a.terminated s = true ∨ ∃ s', a.accept s d = some s' ∧ Acceptable a s' ds

@[simp] theorem length_positionRows (applyBitmask : Bool) (s : σ) (drafts : List Int) :
    (positionRows m a applyBitmask s drafts).length = drafts.length + 1 := by
  simp [positionRows]

theorem positionRow_zero (applyBitmask : Bool) (s : σ) (drafts : List Int) :
    positionRow m a applyBitmask s drafts 0 =
      if applyBitmask && !a.terminated s then packRow m.vocabSize (a.allowed s)
      else fullRow m.vocabSize := by
  cases applyBitmask with
  | false => rfl
  | true =>
    cases hterm : a.terminated s <;>
      simp [positionRow, constraint, afterDrafts, Option.filter, hterm]

theorem positionRow_succ_stopped {applyBitmask : Bool} {s : σ} {d : Int} (ds : List Int) (i : Nat)
    (h : (if d = -1 then false else applyBitmask) = false ∨ a.terminated s = true) :
    positionRow m a applyBitmask s (d :: ds) (i + 1) = fullRow m.vocabSize := by
  cases applyBitmask with
  | false => rfl
  | true =>
    have hnone : constraint a s (d :: ds) (i + 1) = none := by
      rw [constraint, List.take_succ_cons]
      split
      · rfl
      · rename_i hpad
        have hd : d ≠ -1 := fun hd => hpad (hd ▸ List.mem_cons_self)
        rw [if_neg hd] at h
        have hterm := h.resolve_left (by simp)
        rw [afterDrafts, if_pos hterm]
        simp [hterm]
    rw [positionRow, if_pos rfl, hnone]

theorem positionRow_succ_accepted {s s' : σ} {d : Int} (ds : List Int) (i : Nat) (hd : d ≠ -1)
    (hterm : a.terminated s = false) (haccept : a.accept s d = some s') :
    positionRow m a true s (d :: ds) (i + 1) = positionRow m a true s' ds i := by
  have hsame : constraint a s (d :: ds) (i + 1) = constraint a s' ds i := by
    rw [constraint, constraint, List.take_succ_cons, afterDrafts, haccept, hterm]
    have hmem : -1 ∈ d :: ds.take i ↔ -1 ∈ ds.take i := by
      rw [List.mem_cons]
      exact or_iff_right (Ne.symm hd)
    simp only [hmem]
    rfl
  rw [positionRow, positionRow, if_pos rfl, if_pos rfl, hsame]

theorem positionRows_cons (applyBitmask : Bool) (s : σ) (d : Int) (ds : List Int) :
    positionRows m a applyBitmask s (d :: ds) =
      positionRow m a applyBitmask s (d :: ds) 0 ::
        (List.range (ds.length + 1)).map
          (fun i => positionRow m a applyBitmask s (d :: ds) (i + 1)) := by
  rw [positionRows, List.length_cons, List.range_succ_eq_map, List.map_cons, List.map_map]
  rfl

structure Filled (m : StructuredOutputManager) (a : Automaton σ) (drafts : List Int)
    (st st' : FillState σ) : Prop where
  length : st'.bitmask.length = st.bitmask.length
  rows : st'.bitmask.take st'.cumulativeIndex = st.bitmask.take st.cumulativeIndex ++
    positionRows m a st.applyBitmask st.grammar.state drafts
  cumulativeIndex : st'.cumulativeIndex = st.cumulativeIndex + (drafts.length + 1)
  advanced : ∃ n, st'.stateAdvancements = st.stateAdvancements + n ∧
    (st'.grammar.state :: st'.grammar.past).drop n = st.grammar.state :: st.grammar.past

theorem Filled.rollback {drafts : List Int} {st st' : FillState σ} (h : Filled m a drafts st st')
    (hzero : st.stateAdvancements = 0) : st'.rollback = .ok st.grammar := by
  obtain ⟨n, hadv, hpast⟩ := h.advanced
  rw [hzero, Nat.zero_add] at hadv
  rw [← hadv] at hpast
  unfold FillState.rollback
  split
  · rw [Grammar.rollback, hpast]
  · rename_i hn
    rw [Nat.eq_zero_of_not_pos hn, List.drop_zero, List.cons.injEq] at hpast
    exact congrArg Except.ok (congrArg₂ Grammar.mk hpast.1 hpast.2)

theorem take_set_succ {α : Type} {l : List α} {k : Nat} (x : α) (h : k < l.length) :
    (l.set k x).take (k + 1) = l.take k ++ [x] := by
  rw [List.take_add_one, List.take_set_of_le (Nat.le_refl k), List.getElem?_set_self h]
  rfl

theorem fillPosition_spec {st st' : FillState σ} {d : Int}
    (hok : m.fillPosition a st d = .ok st') :
    st.cumulativeIndex < st.bitmask.length ∧
      st'.bitmask = st.bitmask.set st.cumulativeIndex
        (positionRow m a st.applyBitmask st.grammar.state [] 0) ∧
      st'.cumulativeIndex = st.cumulativeIndex + 1 ∧
      st'.applyBitmask = (if d = -1 then false else st.applyBitmask) ∧
      ((st'.applyBitmask = false ∨ a.terminated st.grammar.state = true) ∧
          st'.grammar = st.grammar ∧ st'.stateAdvancements = st.stateAdvancements ∨
        st'.applyBitmask = true ∧ a.terminated st.grammar.state = false ∧
          a.accept st.grammar.state d = some st'.grammar.state ∧
          st'.grammar.past = st.grammar.state :: st.grammar.past ∧
          st'.stateAdvancements = st.stateAdvancements + 1) := by
  unfold StructuredOutputManager.fillPosition at hok
  rw [Result.bind_eq_ok] at hok
  obtain ⟨bitmask, hfill, hok⟩ := hok
  have hfill : st.cumulativeIndex < st.bitmask.length ∧
      bitmask = st.bitmask.set st.cumulativeIndex
        (positionRow m a st.applyBitmask st.grammar.state [] 0) := by
    unfold StructuredOutputManager.fillBitmask at hfill
    dsimp only at hfill
    split at hfill
    · rename_i hlt
      cases hfill
      exact ⟨hlt, by rw [positionRow_zero]⟩
    · cases hfill
  obtain ⟨hlt, rfl⟩ := hfill
  dsimp only at hok
  generalize happly : (if d = -1 then false else st.applyBitmask) = apply at hok
  split at hok
  · rename_i hgo
    rw [Bool.and_eq_true, Bool.not_eq_true'] at hgo
    rw [Result.bind_eq_ok] at hok
    obtain ⟨_, haccepted, hok⟩ := hok
    rw [Result.ensure_eq_ok] at haccepted
    cases hok
    refine ⟨hlt, rfl, rfl, happly.symm ▸ rfl, .inr ⟨hgo.1, hgo.2, ?_⟩⟩
    rw [Grammar.acceptTokens] at haccepted ⊢
    cases haccept : a.accept st.grammar.state d with
    | none => simp [haccept] at haccepted
    | some s => exact ⟨rfl, rfl, rfl⟩
  · rename_i hstop
    cases hok
    refine ⟨hlt, rfl, rfl, happly.symm ▸ rfl, .inl ⟨?_, rfl, rfl⟩⟩
    rw [Bool.and_eq_true, Bool.not_eq_true', not_and_or, Bool.not_eq_true, Bool.not_eq_false] at hstop
    exact hstop

theorem positionRow_stopped {applyBitmask : Bool} {s : σ} (drafts : List Int) (i : Nat)
    (h : applyBitmask = false ∨ a.terminated s = true) :
    positionRow m a applyBitmask s drafts i = fullRow m.vocabSize := by
  cases i with
  | zero =>
    rw [positionRow_zero, if_neg]
    rcases h with h | h <;> simp [h]
  | succ i =>
    cases drafts with
    | nil =>
      have hzero : positionRow m a applyBitmask s [] (i + 1) =
          positionRow m a applyBitmask s [] 0 := by
        simp only [positionRow, constraint, List.take_nil]
      rw [hzero, positionRow_zero, if_neg]
      rcases h with h | h <;> simp [h]
    | cons d ds =>
      refine positionRow_succ_stopped ds i (h.imp_left fun h => ?_)
      rw [h, ite_self]

theorem fillDrafts_spec {drafts : List Int} {st st' : FillState σ}
    (hok : (drafts ++ [-1]).foldlM (m.fillPosition a) st = .ok st') :
    Filled m a drafts st st' := by
  induction drafts generalizing st with
  | nil =>
    rw [List.nil_append, List.foldlM_cons, Result.bind_eq_ok] at hok
    obtain ⟨st₁, hone, hnil⟩ := hok
    cases hnil
    obtain ⟨hlt, hmask, hindex, happly, hgrammar⟩ := fillPosition_spec hone
    rw [if_pos rfl] at happly
    rcases hgrammar with ⟨-, hgrammar, hadv⟩ | ⟨happly', -⟩
    · refine ⟨?_, ?_, hindex, 0, hadv, by rw [hgrammar]; rfl⟩
      · rw [hmask, List.length_set]
      · rw [hmask, hindex, take_set_succ _ hlt]
        rfl
    · rw [happly] at happly'
      cases happly'
  | cons d ds ih =>
    rw [List.cons_append, List.foldlM_cons, Result.bind_eq_ok] at hok
    obtain ⟨st₁, hone, hrest⟩ := hok
    obtain ⟨hlt, hmask, hindex, happly, hgrammar⟩ := fillPosition_spec hone
    obtain ⟨hlen, hrows, hcum, n, hadv, hpast⟩ := ih hrest
    have hfirst : positionRow m a st.applyBitmask st.grammar.state [] 0 =
        positionRow m a st.applyBitmask st.grammar.state (d :: ds) 0 := by
      rw [positionRow_zero, positionRow_zero]
    -- the rows that follow are those of the state behind this draft
    have hfollow : positionRows m a st₁.applyBitmask st₁.grammar.state ds =
        (List.range (ds.length + 1)).map
          (fun i => positionRow m a st.applyBitmask st.grammar.state (d :: ds) (i + 1)) := by
      refine List.map_congr_left fun i _ => ?_
      rcases hgrammar with ⟨hstop, hsame, -⟩ | ⟨hgo, hterm, haccept, -, -⟩
      · rw [hsame, positionRow_stopped ds i hstop]
        rw [happly] at hstop
        exact (positionRow_succ_stopped ds i hstop).symm
      · rw [happly] at hgo
        split at hgo
        · cases hgo
        · rename_i hd
          rw [happly, if_neg hd, hgo]
          exact (positionRow_succ_accepted ds i hd hterm haccept).symm
    refine ⟨?_, ?_, ?_, ?_⟩
    · rw [hlen, hmask, List.length_set]
    · rw [hrows, hindex, hmask, take_set_succ _ hlt, hfollow, positionRows_cons, hfirst,
        List.append_assoc, List.singleton_append]
    · rw [hcum, hindex, List.length_cons]
      omega
    · rcases hgrammar with ⟨-, hsame, hadv₁⟩ | ⟨-, -, -, hpast₁, hadv₁⟩
      · exact ⟨n, by rw [hadv, hadv₁], by rw [hpast, hsame]⟩
      · refine ⟨n + 1, by rw [hadv, hadv₁]; omega, ?_⟩
        rw [← List.drop_drop, hpast, hpast₁]
        rfl

theorem fillPosition_ok {st : FillState σ} {d : Int}
    (hroom : st.cumulativeIndex < st.bitmask.length)
    (haccept : (if d = -1 then false else st.applyBitmask) = true →
      a.terminated st.grammar.state = true ∨ ∃ s, a.accept st.grammar.state d = some s) :
    ∃ st', m.fillPosition a st d = .ok st' := by
  unfold StructuredOutputManager.fillPosition StructuredOutputManager.fillBitmask
  dsimp only
  rw [if_pos hroom, Result.ok_bind]
  generalize (if d = -1 then false else st.applyBitmask) = apply at haccept ⊢
  split
  · rename_i hgo
    rw [Bool.and_eq_true, Bool.not_eq_true'] at hgo
    obtain ⟨s, hs⟩ := (haccept hgo.1).resolve_left (by simp [hgo.2])
    rw [Grammar.acceptTokens, hs]
    exact ⟨_, rfl⟩
  · exact ⟨_, rfl⟩

theorem fillDrafts_ok {drafts : List Int} {st : FillState σ}
    (hroom : st.cumulativeIndex + (drafts.length + 1) ≤ st.bitmask.length)
    (haccept : st.applyBitmask = true → Acceptable a st.grammar.state drafts) :
    ∃ st', (drafts ++ [-1]).foldlM (m.fillPosition a) st = .ok st' := by
  induction drafts generalizing st with
  | nil =>
    obtain ⟨st', hok⟩ := fillPosition_ok (m := m) (a := a) (d := -1)
      (show st.cumulativeIndex < st.bitmask.length by simp only [List.length_nil] at hroom; omega)
      nofun
    exact ⟨st', by rw [List.nil_append, List.foldlM_cons, hok]; rfl⟩
  | cons d ds ih =>
    rw [List.length_cons] at hroom
    have hacc : (if d = -1 then false else st.applyBitmask) = true →
        a.terminated st.grammar.state = true ∨ ∃ s, a.accept st.grammar.state d = some s ∧
          Acceptable a s ds := by
      intro happly
      split at happly
      · cases happly
      · rename_i hd
        exact (haccept happly).resolve_left hd
    obtain ⟨st₁, hone⟩ := fillPosition_ok (m := m) (a := a) (d := d)
      (show st.cumulativeIndex < st.bitmask.length by omega)
      fun happly => (hacc happly).imp_right fun ⟨s, hs, _⟩ => ⟨s, hs⟩
    obtain ⟨-, hmask, hindex, happly, hgrammar⟩ := fillPosition_spec hone
    have hrest : st₁.applyBitmask = true → Acceptable a st₁.grammar.state ds := by
      intro hgo
      rcases hgrammar with ⟨hstop, hsame, -⟩ | ⟨-, hterm, haccepted, -⟩
      · rw [hsame]
        have hterm := hstop.resolve_left (by simp [hgo])
        cases ds with
        | nil => trivial
        | cons d' ds => exact .inr (.inl hterm)
      · rw [happly] at hgo
        obtain ⟨s, hs, hrest⟩ := (hacc hgo).resolve_left (by simp [hterm])
        obtain rfl : s = st₁.grammar.state := Option.some.inj (hs.symm.trans haccepted)
        exact hrest
    obtain ⟨st', hok⟩ := ih
      (show st₁.cumulativeIndex + (ds.length + 1) ≤ st₁.bitmask.length by
        rw [hmask, List.length_set, hindex]
        omega) hrest
    exact ⟨st', by rw [List.cons_append, List.foldlM_cons, hone]; exact hok⟩

end Positions

end Vllm.StructuredOutput
