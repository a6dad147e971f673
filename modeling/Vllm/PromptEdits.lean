import Mathlib.Data.List.Pairwise
import Vllm.PromptUpdateLaws

namespace Vllm.MultiModal

namespace MatchToApply

def range (m : MatchToApply) : Nat × Nat :=
  match m.update.mode with
  | .insert => (m.found.endIdx, m.found.endIdx)
  | .replace => (m.found.startIdx, m.found.endIdx)

def edit (encode : String → List Token) (m : MatchToApply) : Edit Token :=
  ⟨m.range.1, m.range.2, seq2tokens encode m.update.content.full⟩

def cut (prompt : List Token) (m : MatchToApply) : Edit Token :=
  ⟨m.range.1, m.range.2, (prompt.take m.range.2).drop m.range.1⟩

/-- The target of the update is where it was found. -/
def Occurs (encode : String → List Token) (prompt : List Token) (m : MatchToApply) : Prop :=
  match m.update.target with
  | .seq target =>
    OccursAt prompt (seq2tokens encode target) m.found.startIdx ∧
      m.found.endIdx = m.found.startIdx + (seq2tokens encode target).length
  | .index .atStart => m.found = ⟨0, 0⟩
  | .index (.afterPrefix seq) =>
    m.found = ⟨(seq2tokens encode seq).length, (seq2tokens encode seq).length⟩ ∧
      prompt.take (seq2tokens encode seq).length = seq2tokens encode seq
  | .index .atEnd => m.found = ⟨prompt.length, prompt.length⟩

def Disjoint (a b : MatchToApply) : Prop := a.found.endIdx ≤ b.found.startIdx

/-- Insertions may be after one occurrence, or after occurrences that overlap. -/
def InOrder (a b : MatchToApply) : Prop :=
  a.Disjoint b ∨
    a.update.mode = .insert ∧ b.update.mode = .insert ∧ a.found.endIdx ≤ b.found.endIdx

end MatchToApply

section Property

variable (encode : String → List Token) (prompt : List Token) (updates : MultiModalPromptUpdates)

/-- The output is the prompt with these matches applied, which are those of the items with a result. -/
structure Applied (apart : MatchToApply → MatchToApply → Prop) (output : List Token)
    (result : MultiModalPromptUpdatesApplyResult) (applied : List MatchToApply) : Prop where
  source : prompt = Edit.splice prompt 0 (applied.map (·.cut prompt))
  output : output = Edit.splice prompt 0 (applied.map (·.edit encode))
  inOrder : Edit.InOrder prompt 0 (applied.map (·.edit encode))
  results : ∀ item i, resultOf result item = some i ↔
    ∃ m ∈ applied, m.item = item ∧ m.updateIdx = i
  once : (applied.map MatchToApply.item).Nodup
  update : ∀ m ∈ applied, ∃ us, (updates.getD m.modality [])[m.itemIdx]? = some us ∧
    us[m.updateIdx]? = some m.update
  occurs : ∀ m ∈ applied, m.Occurs encode prompt
  apart : applied.Pairwise apart

def PromptTargetMatch.Inside (a b : PromptTargetMatch) : Prop :=
  b.startIdx < a.startIdx ∧ a.endIdx < b.endIdx

instance (a b : PromptTargetMatch) : Decidable (a.Inside b) := inferInstanceAs (Decidable (_ ∧ _))

def Compatible (prevEndIdx : Nat) (ms : List MatchToApply) : Prop :=
  ∀ m ∈ ms, prevEndIdx ≤ m.found.startIdx ∧ ∀ m' ∈ ms, ¬ m.found.Inside m'.found

instance (prevEndIdx : Nat) (ms : List MatchToApply) : Decidable (Compatible prevEndIdx ms) :=
  inferInstanceAs (Decidable (∀ m ∈ ms, _ ∧ ∀ m' ∈ ms, ¬ m.found.Inside m'.found))

/-- In every pass the matches are compatible, in whatever order. -/
def compatiblePasses : Nat → ApplyState → Bool
  | 0, _ => true
  | rounds + 1, st =>
    match findMatches encode prompt updates st.prevEndIdx st.outResult with
    | (none, _) => true
    | (some mode, matchesToApply) =>
      decide (Compatible st.prevEndIdx matchesToApply) &&
        compatiblePasses rounds (matchesToApply.foldl (applyMatch encode prompt mode) st)

end Property

section Results

variable {updates : MultiModalPromptUpdates} {result : MultiModalPromptUpdatesApplyResult}

def Shaped (updates : MultiModalPromptUpdates) (result : MultiModalPromptUpdatesApplyResult) : Prop :=
  ∀ modality, (result.getD modality []).length = (updates.getD modality []).length

theorem getD_set (result : MultiModalPromptUpdatesApplyResult) (modality : String)
    (l : List (Option Nat)) (modality' : String) :
    (result.set modality l).getD modality' [] =
      if modality = modality' then l else result.getD modality' [] := by
  rw [Dict.getD, Dict.get?_set]
  split <;> rfl

theorem Shaped.set (h : Shaped updates result) (modality : String) (i : Nat) (x : Option Nat) :
    Shaped updates (result.set modality ((result.getD modality []).set i x)) := by
  intro modality'
  rw [getD_set]
  split
  · rename_i heq
    subst heq
    rw [List.length_set]
    exact h modality
  · exact h modality'

theorem resultOf_set (item : String × Nat) {item' : String × Nat}
    (h : item.2 < (result.getD item.1 []).length) (i : Nat) :
    resultOf (result.set item.1 ((result.getD item.1 []).set item.2 (some i))) item' =
      if item = item' then some i else resultOf result item' := by
  obtain ⟨modality, idx⟩ := item
  obtain ⟨modality', idx'⟩ := item'
  rw [resultOf, getD_set]
  dsimp only at h ⊢
  by_cases hm : modality = modality'
  · subst hm
    rw [if_pos rfl, List.getD_eq_getElem?_getD, List.getElem?_set, if_pos h]
    by_cases hi : idx = idx'
    · rw [if_pos hi, if_pos (by rw [hi])]
      rfl
    · rw [if_neg hi, if_neg (by simpa using hi), ← List.getD_eq_getElem?_getD]
      rfl
  · rw [if_neg hm, if_neg (by simp [hm])]
    rfl

theorem getD_initialResult (updates : MultiModalPromptUpdates) (modality : String) :
    (initialResult updates).getD modality [] =
      List.replicate (updates.getD modality []).length none := by
  rw [initialResult, Dict.getD, Dict.get?_mapVals, Dict.getD]
  cases updates.get? modality <;> rfl

theorem resultOf_initialResult (updates : MultiModalPromptUpdates) (item : String × Nat) :
    resultOf (initialResult updates) item = none := by
  rw [resultOf, getD_initialResult, List.getD_eq_getElem?_getD, List.getElem?_replicate]
  split <;> rfl

end Results

section Run

variable {encode : String → List Token} {prompt : List Token} {updates : MultiModalPromptUpdates}
  {st : ApplyState} {applied ms : List MatchToApply} {mode : UpdateMode} {m : MatchToApply}

structure Reached (encode : String → List Token) (prompt : List Token)
    (updates : MultiModalPromptUpdates) (st : ApplyState) (applied : List MatchToApply) : Prop where
  shaped : Shaped updates st.outResult
  output : ∀ more, st.outSeqs.flatten ++ Edit.splice prompt st.prevEndIdx more =
    Edit.splice prompt 0 (applied.map (·.edit encode) ++ more)
  ended : st.prevEndIdx = Edit.endOf 0 (applied.map (·.edit encode))
  results : ∀ item i, resultOf st.outResult item = some i ↔
    ∃ m ∈ applied, m.item = item ∧ m.updateIdx = i
  once : (applied.map MatchToApply.item).Nodup
  update : ∀ m ∈ applied, ∃ us, (updates.getD m.modality [])[m.itemIdx]? = some us ∧
    us[m.updateIdx]? = some m.update
  occurs : ∀ m ∈ applied, m.Occurs encode prompt

theorem reached_init (encode : String → List Token) (prompt : List Token)
    (updates : MultiModalPromptUpdates) :
    Reached encode prompt updates ⟨[], initialResult updates, 0⟩ [] where
  shaped modality := by rw [getD_initialResult, List.length_replicate]
  output _ := rfl
  ended := rfl
  results item i := by
    rw [resultOf_initialResult]
    exact iff_of_false nofun nofun
  once := List.nodup_nil
  update := nofun
  occurs := nofun

theorem MatchToApply.Occurs.bounds (h : m.Occurs encode prompt) :
    m.found.startIdx ≤ m.found.endIdx ∧ m.found.endIdx ≤ prompt.length := by
  unfold MatchToApply.Occurs at h
  split at h
  · obtain ⟨⟨hle, -⟩, hend⟩ := h
    omega
  · rw [h]
    exact ⟨Nat.le_refl 0, Nat.zero_le _⟩
  · rename_i seq _
    obtain ⟨hfound, hprefix⟩ := h
    have hlen := congrArg List.length hprefix
    rw [List.length_take] at hlen
    rw [hfound]
    exact ⟨Nat.le_refl _, by dsimp only; omega⟩
  · rw [h]
    exact ⟨Nat.le_refl _, Nat.le_refl _⟩

theorem MatchOf.occurs {prevEndIdx : Nat} (h : MatchOf encode prompt updates prevEndIdx m) :
    m.Occurs encode prompt := by
  have hfound := h.found
  unfold ResolvedPromptUpdate.iterMatches at hfound
  unfold MatchToApply.Occurs
  cases htarget : m.update.target with
  | seq target =>
    rw [htarget] at hfound
    dsimp only at hfound ⊢
    obtain ⟨ms, hms⟩ := List.head?_eq_some_iff.1 hfound
    have ht : 0 < (seq2tokens encode target).length := by
      refine Nat.pos_of_ne_zero fun hzero => ?_
      rw [iterTokenMatches, if_pos hzero] at hms
      cases hms
    obtain ⟨-, hocc, hend, -, -⟩ := iterTokenMatches_cons ht hms
    exact ⟨hocc, hend⟩
  | index target =>
    rw [htarget] at hfound
    dsimp only at hfound ⊢
    cases hi : target.getMatchIndex encode prompt prevEndIdx with
    | none =>
      rw [hi] at hfound
      cases hfound
    | some i =>
    rw [hi] at hfound
    have hfound : ⟨i, i⟩ = m.found := Option.some.inj hfound
    cases target with
    | atStart =>
      cases hi
      exact hfound.symm
    | afterPrefix seq =>
      unfold PromptIndex.getMatchIndex at hi
      dsimp only at hi ⊢
      split at hi
      · cases hi
      · split at hi
        · rename_i hprompt
          cases hi
          exact ⟨hfound.symm, hprompt⟩
        · cases hi
    | atEnd =>
      cases hi
      exact hfound.symm

theorem Reached.match {prevEndIdx : Nat} (h : Reached encode prompt updates st applied)
    (hm : MatchOf encode prompt updates prevEndIdx m) (hmode : m.update.mode = mode)
    (hnew : m.item ∉ applied.map MatchToApply.item) :
    Reached encode prompt updates (applyMatch encode prompt mode st m) (applied ++ [m]) := by
  obtain ⟨us, hus, hget⟩ := hm.update
  have hlt : m.itemIdx < (st.outResult.getD m.modality []).length := by
    rw [h.shaped]
    exact (List.getElem?_eq_some_iff.1 hus).1
  have hset : ∀ item, resultOf (applyMatch encode prompt mode st m).outResult item =
      if m.item = item then some m.updateIdx else resultOf st.outResult item :=
    fun _ => resultOf_set m.item hlt m.updateIdx
  constructor
  case shaped => exact h.shaped.set m.modality m.itemIdx _
  case output =>
    intro more
    have hstep := h.output (m.edit encode :: more)
    rw [List.map_append, List.append_assoc]
    refine Eq.trans ?_ hstep
    show (st.outSeqs ++ [_, _]).flatten ++ _ = _
    rw [List.flatten_append, List.append_assoc]
    refine congrArg (st.outSeqs.flatten ++ ·) ?_
    show ([_, _] : List (List Token)).flatten ++ Edit.splice prompt m.found.endIdx more = _
    rw [MatchToApply.edit, MatchToApply.range, hmode, Edit.splice]
    cases mode <;> simp
  case ended =>
    rw [List.map_append, Edit.endOf_append]
    show m.found.endIdx = m.range.2
    rw [MatchToApply.range]
    split <;> rfl
  case results =>
    intro item i
    rw [hset]
    constructor
    · intro hresult
      split at hresult
      · rename_i heq
        exact ⟨m, List.mem_append_right _ (List.mem_singleton_self m), heq, Option.some.inj hresult⟩
      · obtain ⟨m', hm', hitem, hidx⟩ := (h.results item i).1 hresult
        exact ⟨m', List.mem_append_left _ hm', hitem, hidx⟩
    · rintro ⟨m', hm', rfl, rfl⟩
      rcases List.mem_append.1 hm' with hm' | hm'
      · have hne : m.item ≠ m'.item := fun heq => hnew (heq ▸ List.mem_map_of_mem hm')
        rw [if_neg hne]
        exact (h.results _ _).2 ⟨m', hm', rfl, rfl⟩
      · cases List.mem_singleton.1 hm'
        exact if_pos rfl
  case once =>
    rw [List.map_append, List.nodup_append_comm]
    exact List.nodup_cons.2 ⟨hnew, h.once⟩
  case update =>
    intro m' hm'
    rcases List.mem_append.1 hm' with hm' | hm'
    · exact h.update m' hm'
    · cases List.mem_singleton.1 hm'
      exact ⟨us, hus, hget⟩
  case occurs =>
    intro m' hm'
    rcases List.mem_append.1 hm' with hm' | hm'
    · exact h.occurs m' hm'
    · cases List.mem_singleton.1 hm'
      exact hm.occurs

theorem Reached.pass {prevEndIdx : Nat} (h : Reached encode prompt updates st applied)
    (hms : ∀ m ∈ ms, MatchOf encode prompt updates prevEndIdx m) (hmode : ∀ m ∈ ms, m.update.mode = mode)
    (hnodup : (ms.map MatchToApply.item).Nodup)
    (hnew : ∀ m ∈ ms, m.item ∉ applied.map MatchToApply.item) :
    Reached encode prompt updates (ms.foldl (applyMatch encode prompt mode) st) (applied ++ ms) := by
  induction ms generalizing st applied with
  | nil =>
    rw [List.append_nil]
    exact h
  | cons m ms ih =>
    obtain ⟨hm, hms⟩ := List.forall_mem_cons.1 hms
    obtain ⟨hmode, hmodes⟩ := List.forall_mem_cons.1 hmode
    obtain ⟨hfirst, hnew⟩ := List.forall_mem_cons.1 hnew
    obtain ⟨hnot, hnodup⟩ := List.nodup_cons.1 hnodup
    have hrest := ih (h.match hm hmode hfirst) hms hmodes hnodup fun m' hm' hmem => by
      rw [List.map_append, List.mem_append, List.map_singleton, List.mem_singleton] at hmem
      rcases hmem with hmem | hmem
      · exact hnew m' hm' hmem
      · exact hnot (hmem ▸ List.mem_map_of_mem hm')
    rwa [List.append_assoc] at hrest

theorem Reached.length_le (h : Reached encode prompt updates st applied) :
    applied.length ≤ updates.itemUpdates.length := by
  have hsub : applied.map MatchToApply.item ⊆ updates.itemUpdates.map Prod.fst := by
    intro item hitem
    obtain ⟨m, hm, rfl⟩ := List.mem_map.1 hitem
    obtain ⟨us, hus, -⟩ := h.update m hm
    exact List.mem_map_of_mem (f := Prod.fst) (mem_itemUpdates (x := (m.item, us)).2 hus)
  have hlen := (List.subperm_of_subset h.once hsub).length_le
  rwa [List.length_map, List.length_map] at hlen

structure Forward (encode : String → List Token) (prompt : List Token) (st : ApplyState)
    (applied : List MatchToApply) : Prop where
  inOrder : Edit.InOrder prompt 0 (applied.map (·.edit encode))
  apart : applied.Pairwise MatchToApply.InOrder

theorem range_fst (m : MatchToApply) :
    m.range.1 = if m.update.mode = .insert then m.found.endIdx else m.found.startIdx := by
  rw [MatchToApply.range]
  split <;> rename_i hmode <;> rw [hmode] <;> rfl

theorem range_snd (m : MatchToApply) : m.range.2 = m.found.endIdx := by
  rw [MatchToApply.range]
  split <;> rfl

/-- The matches of a pass are in order, since they are sorted, and one at most of those that are
replaced is not empty. -/
theorem Found.inOrder {prevEndIdx : Nat} {result : MultiModalPromptUpdatesApplyResult}
    (h : Found encode prompt updates prevEndIdx result mode ms) (hok : Compatible prevEndIdx ms) :
    ms.Pairwise MatchToApply.InOrder := by
  have hbounds : ∀ m ∈ ms, m.found.startIdx ≤ m.found.endIdx :=
    fun m hm => (h.matchOf m hm).occurs.bounds.1
  cases mode with
  | insert =>
    refine h.sorted.imp_of_mem fun {a b} ha hb hle => ?_
    refine .inr ⟨h.sameMode a ha, h.sameMode b hb, ?_⟩
    rcases hle with hlt | ⟨-, hle⟩
    · exact Nat.le_of_not_lt fun hend => (hok b hb).2 a ha ⟨hlt, hend⟩
    · exact hle
  | replace =>
    refine (h.sorted.and (h.oneNonEmpty rfl)).imp_of_mem fun {a b} ha hb hab => .inl ?_
    obtain ⟨hle, hempty⟩ := hab
    have hstart : a.found.startIdx ≤ b.found.startIdx := by
      rcases hle with hlt | ⟨heq, -⟩
      · exact Nat.le_of_lt hlt
      · exact Nat.le_of_eq heq
    rcases hempty with hempty | hempty
    · rw [MatchToApply.Disjoint, ← hempty]
      exact hstart
    · -- an empty match comes first at its place, so this one is behind the start of the other
      rw [MatchToApply.Disjoint, hempty]
      rcases hle with hlt | ⟨-, hle⟩
      · exact Nat.le_of_not_lt fun hend => (hok b hb).2 a ha ⟨hlt, hend⟩
      · exact hle

theorem Forward.pass {result : MultiModalPromptUpdatesApplyResult}
    (h : Forward encode prompt st applied)
    (hended : st.prevEndIdx = Edit.endOf 0 (applied.map (·.edit encode)))
    (hfound : Found encode prompt updates st.prevEndIdx result mode ms)
    (hok : Compatible st.prevEndIdx ms) (st' : ApplyState) :
    Forward encode prompt st' (applied ++ ms) := by
  have hpair := hfound.inOrder hok
  constructor
  case inOrder =>
    rw [List.map_append]
    refine h.inOrder.append (hended ▸ .of_pairwise ?_ ?_ ?_)
    · rw [hended]
      exact h.inOrder.endOf_le
    · intro e he
      obtain ⟨m, hm, rfl⟩ := List.mem_map.1 he
      obtain ⟨hle, hlen⟩ := (hfound.matchOf m hm).occurs.bounds
      have hstart := (hok m hm).1
      show st.prevEndIdx ≤ m.range.1 ∧ m.range.1 ≤ m.range.2 ∧ m.range.2 ≤ prompt.length
      rw [range_fst, range_snd]
      split <;> omega
    · refine List.pairwise_map.2 (hpair.imp_of_mem fun {a b} _ hb hab => ?_)
      show a.range.2 ≤ b.range.1
      rw [range_fst, range_snd]
      have hle := (hfound.matchOf b hb).occurs.bounds.1
      rcases hab with hab | ⟨-, hinsert, hab⟩
      · rw [MatchToApply.Disjoint] at hab
        split <;> omega
      · rw [if_pos hinsert]
        exact hab
  case apart =>
    refine List.pairwise_append.2 ⟨h.apart, hpair, fun a ha b hb => .inl ?_⟩
    have hbefore : a.found.endIdx ≤ st.prevEndIdx := by
      rw [hended, ← range_snd]
      exact h.inOrder.stop_le_endOf (a.edit encode) (List.mem_map_of_mem ha)
    exact Nat.le_trans hbefore (hok b hb).1

theorem applyLoop_spec (h : Reached encode prompt updates st applied) {rounds : Nat}
    (hrounds : updates.itemUpdates.length < rounds + applied.length) :
    ∃ st' applied', applyLoop encode prompt updates rounds st = some st' ∧
      Reached encode prompt updates st' applied' ∧
      (compatiblePasses encode prompt updates rounds st = true → Forward encode prompt st applied →
        Forward encode prompt st' applied') := by
  induction rounds generalizing st applied with
  | zero =>
    have hlen := h.length_le
    omega
  | succ rounds ih =>
    rw [applyLoop, compatiblePasses]
    rcases hfind : findMatches encode prompt updates st.prevEndIdx st.outResult with ⟨_ | mode, ms⟩
    · exact ⟨st, applied, rfl, h, fun _ hforward => hforward⟩
    · have hfound := findMatches_spec hfind
      have hnew : ∀ m ∈ ms, m.item ∉ applied.map MatchToApply.item := by
        intro m hm hmem
        obtain ⟨m', hm', heq⟩ := List.mem_map.1 hmem
        have hresult := (h.results m.item m'.updateIdx).2 ⟨m', hm', heq, rfl⟩
        rw [hfound.unapplied m hm] at hresult
        cases hresult
      have hpass := h.pass hfound.matchOf hfound.sameMode hfound.nodup hnew
      have hforward : ∀ {c : Bool}, (decide (Compatible st.prevEndIdx ms) && c) = true →
          Forward encode prompt st applied →
            Forward encode prompt (ms.foldl (applyMatch encode prompt mode) st) (applied ++ ms) := by
        intro c hok hforward
        rw [Bool.and_eq_true, decide_eq_true_iff] at hok
        exact hforward.pass h.ended hfound hok.1 _
      dsimp only
      split
      · exact ⟨_, _, rfl, hpass, hforward⟩
      · have hpos := List.length_pos_iff.2 hfound.nonempty
        obtain ⟨st', applied', hloop, hreached, hrest⟩ := ih hpass (by
          rw [List.length_append]
          omega)
        refine ⟨st', applied', hloop, hreached, fun hok hf => hrest ?_ (hforward hok hf)⟩
        rw [Bool.and_eq_true] at hok
        exact hok.2

theorem inOrder_cut {prev : Nat} (h : Edit.InOrder prompt prev (applied.map (·.edit encode))) :
    Edit.InOrder prompt prev (applied.map (·.cut prompt)) := by
  induction applied generalizing prev with
  | nil => exact h
  | cons m applied ih => exact ⟨h.1, h.2.1, ih h.2.2⟩

theorem Reached.toApplied (h : Reached encode prompt updates st applied)
    (hforward : Forward encode prompt st applied) :
    Applied encode prompt updates MatchToApply.InOrder
      (st.outSeqs ++ [prompt.drop st.prevEndIdx]).flatten st.outResult applied where
  source := by
    refine (Edit.splice_self (inOrder_cut hforward.inOrder) fun e he => ?_).symm
    obtain ⟨m, -, rfl⟩ := List.mem_map.1 he
    rfl
  output := by
    have hout := h.output []
    rw [List.append_nil] at hout
    rw [← hout, List.flatten_append, List.flatten_singleton]
    rfl
  inOrder := hforward.inOrder
  results := h.results
  once := h.once
  update := h.update
  occurs := h.occurs
  apart := hforward.apart

/-- The updates come to an end, and where the matches of each pass are compatible, what comes out is the
prompt with the matches of the items that have a result. -/
theorem applyTokenMatches_applied (encode : String → List Token) (prompt : List Token)
    (updates : MultiModalPromptUpdates) {rounds : Nat}
    (hrounds : updates.itemUpdates.length < rounds) :
    ∃ output result, applyTokenMatches encode prompt rounds updates = some (output, result) ∧
      (compatiblePasses encode prompt updates rounds ⟨[], initialResult updates, 0⟩ = true →
        ∃ applied, Applied encode prompt updates MatchToApply.InOrder output result applied) := by
  have hinit := reached_init encode prompt updates
  have hstart : Forward encode prompt ⟨[], initialResult updates, 0⟩ [] := ⟨Nat.zero_le _, .nil⟩
  unfold applyTokenMatches
  split
  · exact ⟨_, _, rfl, fun _ => ⟨[], by simpa using hinit.toApplied hstart⟩⟩
  · obtain ⟨st, applied, hloop, hreached, hforward⟩ := applyLoop_spec hinit hrounds
    rw [hloop]
    exact ⟨_, _, rfl, fun hok => ⟨applied, hreached.toApplied (hforward hok hstart)⟩⟩

def tokenUpdate (mode : UpdateMode) (target content : List Token) : ResolvedPromptUpdate :=
  ⟨mode, .seq (.tokens target), ⟨.tokens content, none⟩⟩

def mixedUpdates : MultiModalPromptUpdates :=
  (Dict.empty.set "image" [[tokenUpdate .insert [1] [7, 7]], [tokenUpdate .insert [1] [7]],
    [tokenUpdate .replace [2, 3] [8, 8, 8]]]).set "audio"
      [[⟨.insert, .index .atEnd, ⟨.tokens [9], none⟩⟩]]

theorem applyTokenMatches_applied_mixed : ∃ output result,
    applyTokenMatches (fun _ => []) [1, 2, 3, 4] 5 mixedUpdates = some (output, result) ∧
      ∃ applied, Applied (fun _ => []) [1, 2, 3, 4] mixedUpdates MatchToApply.InOrder output result
        applied := by
  have hrounds : mixedUpdates.itemUpdates.length < 5 := by decide +kernel
  obtain ⟨output, result, hok, happlied⟩ :=
    applyTokenMatches_applied (fun _ => []) [1, 2, 3, 4] mixedUpdates hrounds
  exact ⟨output, result, hok, happlied (by decide +kernel)⟩

def twoInsertions : MultiModalPromptUpdates :=
  Dict.empty.set "image" [[tokenUpdate .insert [1] [8]], [tokenUpdate .insert [1] [9]]]

theorem found_of_first {m : MatchToApply} (htarget : m.update.target = .seq (.tokens [1]))
    (h : m.Occurs (fun _ => []) [1, 2]) : m.found = ⟨0, 1⟩ := by
  rw [MatchToApply.Occurs, htarget] at h
  obtain ⟨⟨hle, hocc⟩, hend⟩ := h
  obtain ⟨modality, itemIdx, ⟨startIdx, endIdx⟩, updateIdx, update⟩ := m
  dsimp only at hle hocc hend ⊢
  subst hend
  match startIdx, hle, hocc with
  | 0, _, _ => rfl
  | 1, _, hocc => cases hocc

/-- Both images go after the one occurrence that there is. -/
theorem not_disjoint_twoInsertions : ∃ output result,
    applyTokenMatches (fun _ => []) [1, 2] 3 twoInsertions = some (output, result) ∧
      output = [1, 8, 9, 2] ∧
      ¬ ∃ applied, Applied (fun _ => []) [1, 2] twoInsertions MatchToApply.Disjoint output result
        applied := by
  have hrun : (applyTokenMatches (fun _ => []) [1, 2] 3 twoInsertions).any (fun x =>
      x.1 = [1, 8, 9, 2] ∧ ∀ i < 2, resultOf x.2 ("image", i) = some 0) = true := by decide +kernel
  obtain ⟨⟨output, result⟩, hok, hends⟩ := (Option.any_eq_true _ _).1 hrun
  obtain ⟨houtput, hresults⟩ := of_decide_eq_true hends
  refine ⟨output, result, hok, houtput, ?_⟩
  rintro ⟨applied, h⟩
  have himage : ∀ i < 2, ∃ m ∈ applied, m.itemIdx = i ∧ m.found = ⟨0, 1⟩ := by
    intro i hi
    obtain ⟨m, hm, hitem, hidx⟩ := (h.results ("image", i) 0).1 (hresults i hi)
    obtain ⟨hmodality, hitemIdx⟩ := Prod.mk.inj hitem
    obtain ⟨us, hus, hget⟩ := h.update m hm
    refine ⟨m, hm, hitemIdx, found_of_first ?_ (h.occurs m hm)⟩
    rw [hmodality, hitemIdx] at hus
    rw [hidx] at hget
    match i, hi, hus with
    | 0, _, hus | 1, _, hus =>
      cases Option.some.inj hus
      rw [← Option.some.inj hget]
      rfl
  obtain ⟨a, ha, haidx, hafound⟩ := himage 0 (by decide)
  obtain ⟨b, hb, hbidx, hbfound⟩ := himage 1 (by decide)
  have hne : a ≠ b := by
    rintro rfl
    omega
  have hpair : applied.Pairwise fun x y => x.Disjoint y ∨ y.Disjoint x := h.apart.imp .inl
  have : Std.Symm fun x y : MatchToApply => x.Disjoint y ∨ y.Disjoint x := ⟨fun _ _ => Or.symm⟩
  rcases hpair.forall ha hb hne with hle | hle
  · rw [MatchToApply.Disjoint, hafound, hbfound] at hle
    exact absurd hle (by decide)
  · rw [MatchToApply.Disjoint, hafound, hbfound] at hle
    exact absurd hle (by decide)

end Run

end Vllm.MultiModal
