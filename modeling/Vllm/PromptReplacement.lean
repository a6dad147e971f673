import Vllm.PromptEdits

namespace Vllm.MultiModal

inductive Scanned (l t : List Token) : Nat → List PromptTargetMatch → Prop
  | none {s : Nat} : (∀ i, s ≤ i → ¬ OccursAt l t i) → Scanned l t s []
  | next {s i : Nat} {ms : List PromptTargetMatch} : s ≤ i → OccursAt l t i →
      (∀ j, s ≤ j → j < i → ¬ OccursAt l t j) → Scanned l t (i + t.length) ms →
      Scanned l t s (⟨i, i + t.length⟩ :: ms)

theorem iterTokenMatches_nil {l t : List Token} {s : Nat} (ht : 0 < t.length)
    (h : iterTokenMatches l t s = []) : ∀ i, s ≤ i → ¬ OccursAt l t i := by
  generalize hn : l.length - s = n
  induction n generalizing s with
  | zero =>
    intro i hi hocc
    have hle := hocc.1
    omega
  | succ n ih =>
    have hocc : ¬ OccursAt l t s := by
      intro hocc
      rw [iterTokenMatches_of_occurs ht hocc] at h
      cases h
    rw [iterTokenMatches_of_not_occurs ht hocc] at h
    intro i hi
    rcases Nat.eq_or_lt_of_le hi with rfl | hi
    · exact hocc
    · split at h
      · exact ih h (by omega) i hi
      · exact fun hocc => by
          have hle := hocc.1
          omega

theorem iterTokenMatches_scanned {l t : List Token} (ht : 0 < t.length) (s : Nat) :
    Scanned l t s (iterTokenMatches l t s) := by
  generalize hms : iterTokenMatches l t s = ms
  induction ms generalizing s with
  | nil => exact .none (iterTokenMatches_nil ht hms)
  | cons m ms ih =>
    obtain ⟨hle, hocc, hend, hrest, hfirst⟩ := iterTokenMatches_cons ht hms
    obtain ⟨startIdx, endIdx⟩ := m
    dsimp only at hend hle hocc hrest hfirst
    subst hend
    exact .next hle hocc hfirst (ih _ hrest.symm)

theorem Scanned.eq_iterTokenMatches {l t : List Token} {s : Nat} {ms : List PromptTargetMatch}
    (ht : 0 < t.length) (h : Scanned l t s ms) : ms = iterTokenMatches l t s := by
  induction h with
  | @none s hnone =>
    cases hms : iterTokenMatches l t s with
    | nil => rfl
    | cons m ms =>
      obtain ⟨hle, hocc, -, -, -⟩ := iterTokenMatches_cons ht hms
      exact absurd hocc (hnone m.startIdx hle)
  | @next s i ms hle hocc hfirst _ ih =>
    cases hms : iterTokenMatches l t s with
    | nil => exact absurd hocc (iterTokenMatches_nil ht hms i hle)
    | cons m ms' =>
      obtain ⟨hle', hocc', hend, hrest, hfirst'⟩ := iterTokenMatches_cons ht hms
      have hstart : m.startIdx = i := by
        rcases Nat.lt_trichotomy m.startIdx i with hlt | heq | hlt
        · exact absurd hocc' (hfirst _ hle' hlt)
        · exact heq
        · exact absurd hocc (hfirst' i hle hlt)
      obtain ⟨startIdx, endIdx⟩ := m
      dsimp only at hstart hend hrest
      subst hstart hend
      rw [ih, hrest]

def single (modality : String) (us : List ResolvedPromptUpdate) : MultiModalPromptUpdates :=
  Dict.empty.set modality (us.map fun u => [u])

section Apply

variable {encode : String → List Token} {prompt : List Token} {modality : String}
  {us : List ResolvedPromptUpdate} {target : PromptSeq}

def matchFor (modality : String) (m : PromptTargetMatch) (y : ResolvedPromptUpdate × Nat) : MatchToApply :=
  ⟨modality, y.2, m, 0, y.1⟩

theorem itemUpdates_single (modality : String) (us : List ResolvedPromptUpdate) :
    (single modality us).itemUpdates = us.zipIdx.map fun y => ((modality, y.2), [y.1]) := by
  show List.flatMap _ [(modality, us.map fun u => [u])] = _
  rw [List.flatMap_singleton, List.zipIdx_map, List.map_map]
  rfl

structure Replaces (target : PromptSeq) (u : ResolvedPromptUpdate) : Prop where
  mode : u.mode = .replace
  target : u.target = .seq target

variable {result : MultiModalPromptUpdatesApplyResult} {prevEndIdx : Nat}
  {ys : List (ResolvedPromptUpdate × Nat)} {m : PromptTargetMatch} {ms : List PromptTargetMatch}

theorem collect_resolved (h : ∀ y ∈ ys, (resultOf result (modality, y.2)).isSome)
    (st : Option UpdateMode × List MatchToApply) :
    (ys.map fun y => ((modality, y.2), [y.1])).foldl (collectItem encode prompt prevEndIdx result) st =
      st := by
  induction ys with
  | nil => rfl
  | cons y ys ih =>
    obtain ⟨hy, hys⟩ := List.forall_mem_cons.1 h
    rw [List.map_cons, List.foldl_cons, collectItem, if_pos hy]
    exact ih hys

theorem iterMatches_of_replaces {u : ResolvedPromptUpdate} (h : Replaces target u) :
    u.iterMatches encode prompt prevEndIdx =
      iterTokenMatches prompt (seq2tokens encode target) prevEndIdx := by
  rw [ResolvedPromptUpdate.iterMatches, h.target]

theorem collect_none (hys : ∀ y ∈ ys, Replaces target y.1)
    (hocc : iterTokenMatches prompt (seq2tokens encode target) prevEndIdx = [])
    (st : Option UpdateMode × List MatchToApply) :
    (ys.map fun y => ((modality, y.2), [y.1])).foldl (collectItem encode prompt prevEndIdx result) st =
      st := by
  induction ys with
  | nil => rfl
  | cons y ys ih =>
    obtain ⟨hy, hys⟩ := List.forall_mem_cons.1 hys
    have hitem : collectItem encode prompt prevEndIdx result st ((modality, y.2), [y.1]) = st := by
      unfold collectItem
      split
      · rfl
      · show ((findItem encode prompt prevEndIdx (modality, y.2) st.1 [(y.1, 0)]).1, _) = st
        rw [findItem, iterMatches_of_replaces hy, hocc]
        show (st.1, st.2 ++ []) = st
        rw [List.append_nil]
    rw [List.map_cons, List.foldl_cons, hitem]
    exact ih hys

theorem collect_unresolved (hys : ∀ y ∈ ys, Replaces target y.1)
    (hresult : ∀ y ∈ ys, resultOf result (modality, y.2) = none)
    (hocc : iterTokenMatches prompt (seq2tokens encode target) prevEndIdx = m :: ms)
    {mode : Option UpdateMode} (hmode : mode = none ∨ mode = some .replace)
    (acc : List MatchToApply) :
    (ys.map fun y => ((modality, y.2), [y.1])).foldl (collectItem encode prompt prevEndIdx result)
        (mode, acc) =
      (if ys = [] then mode else some .replace, acc ++ ys.map (matchFor modality m)) := by
  induction ys generalizing mode acc with
  | nil =>
    rw [if_pos rfl]
    show (mode, acc) = (mode, acc ++ [])
    rw [List.append_nil]
  | cons y ys ih =>
    obtain ⟨hy, hys⟩ := List.forall_mem_cons.1 hys
    obtain ⟨hnone, hresult⟩ := List.forall_mem_cons.1 hresult
    have hitem : collectItem encode prompt prevEndIdx result (mode, acc) ((modality, y.2), [y.1]) =
        (some .replace, acc ++ [matchFor modality m y]) := by
      have hunresolved : ¬ (resultOf result (modality, y.2)).isSome := by
        rw [hnone]
        exact Bool.false_ne_true
      have hmode' : mode = none ∨ mode = some y.1.mode := by
        rw [hy.mode]
        exact hmode
      rw [collectItem, if_neg hunresolved]
      show ((findItem encode prompt prevEndIdx (modality, y.2) mode [(y.1, 0)]).1, acc ++ Option.toList
        (findItem encode prompt prevEndIdx (modality, y.2) mode [(y.1, 0)]).2) = _
      rw [findItem, iterMatches_of_replaces hy, hocc, List.head?_cons]
      dsimp only
      rw [if_pos hmode', hy.mode]
      rfl
    rw [List.map_cons, List.foldl_cons, hitem, ih hys hresult (.inr rfl), if_neg (List.cons_ne_nil _ _),
      List.append_assoc]
    split <;> rfl

theorem oneNonEmpty_true {ms : List MatchToApply} (h : ∀ a ∈ ms, a.found.startIdx ≠ a.found.endIdx) :
    oneNonEmpty true ms = [] := by
  induction ms with
  | nil => rfl
  | cons a ms ih =>
    obtain ⟨ha, hms⟩ := List.forall_mem_cons.1 h
    rw [oneNonEmpty, if_neg ha, if_pos rfl, ih hms]

theorem findMatches_next (ht : 0 < (seq2tokens encode target).length)
    {done rest : List (ResolvedPromptUpdate × Nat)} {y : ResolvedPromptUpdate × Nat}
    (hsplit : us.zipIdx = done ++ y :: rest) (hus : ∀ u ∈ us, Replaces target u)
    (hdone : ∀ y ∈ done, (resultOf result (modality, y.2)).isSome)
    (hrest : ∀ y' ∈ y :: rest, resultOf result (modality, y'.2) = none)
    (hocc : iterTokenMatches prompt (seq2tokens encode target) prevEndIdx = m :: ms) :
    findMatches encode prompt (single modality us) prevEndIdx result =
      (some .replace, [matchFor modality m y]) := by
  have hreplaces : ∀ y' ∈ y :: rest, Replaces target y'.1 := by
    intro y' hy'
    have hmem : y' ∈ us.zipIdx := hsplit ▸ List.mem_append_right _ hy'
    exact hus y'.1 (List.fst_mem_of_mem_zipIdx hmem)
  have hne : m.startIdx ≠ m.endIdx := by
    obtain ⟨-, -, hend, -, -⟩ := iterTokenMatches_cons ht hocc
    omega
  have hne' : (matchFor modality m y).found.startIdx ≠ (matchFor modality m y).found.endIdx := hne
  have hsorted : ((y :: rest).map (matchFor modality m)).insertionSort
      (fun a b => a.found.le b.found) = (y :: rest).map (matchFor modality m) := by
    refine List.Pairwise.insertionSort_eq ?_
    refine List.pairwise_map.2 (List.pairwise_of_forall fun _ _ => ?_)
    exact .inr ⟨rfl, Nat.le_refl _⟩
  rw [findMatches, collectMatches, itemUpdates_single, hsplit, List.map_append, List.foldl_append,
    collect_resolved hdone, collect_unresolved hreplaces hrest hocc (.inl rfl),
    if_neg (List.cons_ne_nil _ _), List.nil_append]
  dsimp only
  rw [hsorted, if_pos rfl, List.map_cons, oneNonEmpty, if_neg hne', if_neg Bool.false_ne_true,
    oneNonEmpty_true]
  intro a ha
  obtain ⟨y', -, rfl⟩ := List.mem_map.1 ha
  exact hne

theorem findMatches_none {done rest : List (ResolvedPromptUpdate × Nat)}
    (hsplit : us.zipIdx = done ++ rest) (hus : ∀ u ∈ us, Replaces target u)
    (hdone : ∀ y ∈ done, (resultOf result (modality, y.2)).isSome)
    (hend : rest = [] ∨ iterTokenMatches prompt (seq2tokens encode target) prevEndIdx = []) :
    findMatches encode prompt (single modality us) prevEndIdx result = (none, []) := by
  have hreplaces : ∀ y ∈ rest, Replaces target y.1 := by
    intro y hy
    have hmem : y ∈ us.zipIdx := hsplit ▸ List.mem_append_right _ hy
    exact hus y.1 (List.fst_mem_of_mem_zipIdx hmem)
  have hcollect : collectMatches encode prompt (single modality us).itemUpdates prevEndIdx result =
      (none, []) := by
    rw [collectMatches, itemUpdates_single, hsplit, List.map_append, List.foldl_append,
      collect_resolved hdone]
    rcases hend with rfl | hocc
    · rfl
    · exact collect_none hreplaces hocc _
  rw [findMatches, hcollect]
  rfl

section Loop

variable {st : ApplyState} {applied : List MatchToApply} {done rest : List (ResolvedPromptUpdate × Nat)}

theorem Reached.isSome_iff {updates : MultiModalPromptUpdates}
    (h : Reached encode prompt updates st applied) (item : String × Nat) :
    (resultOf st.outResult item).isSome ↔ item ∈ applied.map MatchToApply.item := by
  rw [Option.isSome_iff_exists, List.mem_map]
  constructor
  · rintro ⟨i, hi⟩
    obtain ⟨m, hm, hitem, -⟩ := (h.results item i).1 hi
    exact ⟨m, hm, hitem⟩
  · rintro ⟨m, hm, hitem⟩
    exact ⟨m.updateIdx, (h.results item m.updateIdx).2 ⟨m, hm, hitem, rfl⟩⟩

theorem resultOf_of_allItemsFound {updates : MultiModalPromptUpdates} (hshaped : Shaped updates result)
    (h : allItemsFound updates result = true) {item : String × Nat}
    (hitem : item.2 < (updates.getD item.1 []).length) : (resultOf result item).isSome := by
  have hlen := hshaped item.1
  rw [resultOf]
  cases hget : result.get? item.1 with
  | none =>
    rw [Dict.getD, hget] at hlen
    exact absurd (hlen ▸ hitem) (Nat.not_lt_zero _)
  | some l =>
    rw [Dict.getD, hget] at hlen ⊢
    have hlen : l.length = (updates.getD item.1 []).length := hlen
    have hcount := List.all_eq_true.1 h (item.1, l) (Dict.get?_eq_some.1 hget)
    have hcount := of_decide_eq_true hcount
    have hall : l.countP Option.isSome = l.length :=
      Nat.le_antisymm List.countP_le_length (hlen ▸ hcount)
    have hidx : item.2 < l.length := hlen ▸ hitem
    show (l.getD item.2 none).isSome
    rw [List.getD_eq_getElem?_getD, List.getElem?_eq_getElem hidx]
    exact List.countP_eq_length.1 hall _ (List.getElem_mem hidx)

structure Resolved (encode : String → List Token) (prompt : List Token) (modality : String)
    (us : List ResolvedPromptUpdate) (st : ApplyState) (applied : List MatchToApply)
    (done : List (ResolvedPromptUpdate × Nat)) : Prop where
  reached : Reached encode prompt (single modality us) st applied
  items : applied.map MatchToApply.item = done.map fun y => (modality, y.2)
  keys : st.outResult.keys = [modality]

theorem Resolved.isSome_iff (h : Resolved encode prompt modality us st applied done)
    (y : ResolvedPromptUpdate × Nat) :
    (resultOf st.outResult (modality, y.2)).isSome ↔ y.2 ∈ done.map Prod.snd := by
  rw [h.reached.isSome_iff, h.items, List.mem_map, List.mem_map]
  exact exists_congr fun y' => and_congr_right fun _ => Prod.mk_right_inj

theorem Resolved.isSome (h : Resolved encode prompt modality us st applied done) :
    ∀ y ∈ done, (resultOf st.outResult (modality, y.2)).isSome :=
  fun y hy => (h.isSome_iff y).2 (List.mem_map_of_mem hy)

theorem Resolved.eq_none (h : Resolved encode prompt modality us st applied done)
    (hsplit : us.zipIdx = done ++ rest) : ∀ y ∈ rest, resultOf st.outResult (modality, y.2) = none := by
  intro y hy
  refine Option.not_isSome_iff_eq_none.1 fun hsome => ?_
  have hnodup : ((done ++ rest).map Prod.snd).Nodup := by
    rw [← hsplit, List.zipIdx_map_snd]
    exact List.nodup_range'
  rw [List.map_append] at hnodup
  exact List.disjoint_of_nodup_append hnodup ((h.isSome_iff y).1 hsome) (List.mem_map_of_mem hy)

theorem getD_single (modality : String) (us : List ResolvedPromptUpdate) (modality' : String) :
    (single modality us).getD modality' [] = if modality = modality' then us.map fun u => [u] else [] := by
  rw [single, Dict.getD, Dict.get?_set]
  split <;> rfl

theorem Resolved.next (h : Resolved encode prompt modality us st applied done)
    {y : ResolvedPromptUpdate × Nat} (hsplit : us.zipIdx = done ++ y :: rest) (hy : Replaces target y.1)
    (hocc : iterTokenMatches prompt (seq2tokens encode target) st.prevEndIdx = m :: ms) :
    Resolved encode prompt modality us (applyMatch encode prompt .replace st (matchFor modality m y))
      (applied ++ [matchFor modality m y]) (done ++ [y]) where
  reached := by
    have hmem : y ∈ us.zipIdx := hsplit ▸ List.mem_append_right _ List.mem_cons_self
    have hof : MatchOf encode prompt (single modality us) st.prevEndIdx (matchFor modality m y) := by
      refine ⟨⟨[y.1], ?_, rfl⟩, ?_⟩
      · show ((single modality us).getD modality [])[y.2]? = some [y.1]
        rw [getD_single, if_pos rfl, List.getElem?_map, List.mem_zipIdx_iff_getElem?.1 hmem]
        rfl
      · show (y.1.iterMatches encode prompt st.prevEndIdx).head? = some m
        rw [iterMatches_of_replaces hy, hocc]
        rfl
    refine h.reached.match hof hy.mode fun hold => ?_
    have hsome := (h.reached.isSome_iff (modality, y.2)).2 hold
    rw [h.eq_none hsplit y List.mem_cons_self] at hsome
    cases hsome
  items := by
    rw [List.map_append, List.map_append, h.items]
    rfl
  keys := by
    have hkey : modality ∈ st.outResult.keys := by
      rw [h.keys]
      exact List.mem_singleton_self modality
    rw [← h.keys]
    exact (Dict.keys_setIn _ _ _).trans (if_pos hkey)

theorem applyLoop_single (ht : 0 < (seq2tokens encode target).length) (hus : ∀ u ∈ us, Replaces target u)
    {rounds : Nat} (hsplit : us.zipIdx = done ++ rest)
    (h : Resolved encode prompt modality us st applied done) (hrounds : rest.length < rounds) :
    ∃ st' done', applyLoop encode prompt (single modality us) rounds st = some st' ∧
      Resolved encode prompt modality us st' (applied ++ List.zipWith (matchFor modality)
        (iterTokenMatches prompt (seq2tokens encode target) st.prevEndIdx) rest) done' := by
  induction rest generalizing done applied st rounds with
  | nil =>
    obtain ⟨rounds, rfl⟩ := Nat.exists_eq_succ_of_ne_zero (Nat.ne_of_gt hrounds)
    rw [applyLoop, findMatches_none hsplit hus h.isSome (.inl rfl), List.zipWith_nil_right, List.append_nil]
    exact ⟨st, done, rfl, h⟩
  | cons y rest ih =>
    obtain ⟨rounds, rfl⟩ := Nat.exists_eq_succ_of_ne_zero (Nat.ne_of_gt (Nat.lt_of_le_of_lt
      (Nat.zero_le _) hrounds))
    rw [applyLoop]
    cases hocc : iterTokenMatches prompt (seq2tokens encode target) st.prevEndIdx with
    | nil =>
      rw [findMatches_none hsplit hus h.isSome (.inr hocc), List.zipWith_nil_left, List.append_nil]
      exact ⟨st, done, rfl, h⟩
    | cons m ms =>
      have hmem : y ∈ us.zipIdx := hsplit ▸ List.mem_append_right _ List.mem_cons_self
      have hnext := h.next hsplit (hus y.1 (List.fst_mem_of_mem_zipIdx hmem)) hocc
      obtain ⟨-, -, -, hms, -⟩ := iterTokenMatches_cons ht hocc
      have hsplit' : us.zipIdx = (done ++ [y]) ++ rest := by
        rw [hsplit, List.append_assoc]
        rfl
      rw [findMatches_next ht hsplit hus h.isSome (h.eq_none hsplit) hocc, List.zipWith_cons_cons]
      dsimp only
      split
      · rename_i hall
        have hrest : rest = [] := by
          refine List.eq_nil_iff_forall_not_mem.2 fun y' hy' => ?_
          have hmem' : y' ∈ us.zipIdx := hsplit' ▸ List.mem_append_right _ hy'
          have hidx : (modality, y'.2).2 < ((single modality us).getD modality []).length := by
            rw [getD_single, if_pos rfl, List.length_map]
            exact (List.getElem?_eq_some_iff.1 (List.mem_zipIdx_iff_getElem?.1 hmem')).1
          have hsome := resultOf_of_allItemsFound hnext.reached.shaped hall hidx
          rw [hnext.eq_none hsplit' y' hy'] at hsome
          cases hsome
        rw [hrest, List.zipWith_nil_right]
        exact ⟨_, _, rfl, hnext⟩
      · rw [hms]
        obtain ⟨st', done', hloop, hresolved⟩ := ih hsplit' hnext (Nat.lt_of_succ_lt_succ hrounds)
        rw [List.append_assoc] at hresolved
        exact ⟨st', done', hloop, hresolved⟩

end Loop

def replacements (encode : String → List Token) (ms : List PromptTargetMatch)
    (us : List ResolvedPromptUpdate) : List (Edit Token) :=
  List.zipWith (fun m u => ⟨m.startIdx, m.endIdx, seq2tokens encode u.content.full⟩) ms us

theorem edit_matchFor {y : ResolvedPromptUpdate × Nat} (h : Replaces target y.1) :
    (matchFor modality m y).edit encode =
      ⟨m.startIdx, m.endIdx, seq2tokens encode y.1.content.full⟩ := by
  have hrange : (matchFor modality m y).range = (m.startIdx, m.endIdx) := by
    rw [MatchToApply.range]
    simp only [matchFor, h.mode]
  rw [MatchToApply.edit, hrange]
  rfl

theorem map_edit_taken (hus : ∀ u ∈ us, Replaces target u) (k : Nat) (ms : List PromptTargetMatch) :
    (List.zipWith (matchFor modality) ms (us.zipIdx k)).map (·.edit encode) =
      replacements encode ms us := by
  induction us generalizing k ms with
  | nil => cases ms <;> rfl
  | cons u us ih =>
    obtain ⟨hu, hus⟩ := List.forall_mem_cons.1 hus
    cases ms with
    | nil => rfl
    | cons m ms =>
      rw [List.zipIdx_cons, List.zipWith_cons_cons, List.map_cons, edit_matchFor hu, ih hus]
      rfl

theorem inOrder_replacements {s : Nat} {t : List Token} (ht : 0 < t.length) (hs : s ≤ prompt.length)
    (us : List ResolvedPromptUpdate) :
    Edit.InOrder prompt s (replacements encode (iterTokenMatches prompt t s) us) := by
  induction us generalizing s with
  | nil =>
    rw [replacements, List.zipWith_nil_right]
    exact hs
  | cons u us ih =>
    cases hocc : iterTokenMatches prompt t s with
    | nil => exact hs
    | cons m ms =>
      obtain ⟨hle, hm, hend, rfl, -⟩ := iterTokenMatches_cons ht hocc
      have hstop : m.endIdx ≤ prompt.length := by
        rw [hend]
        exact hm.1
      refine ⟨hle, ?_, ih hstop⟩
      show m.startIdx ≤ m.endIdx
      omega

end Apply

end Vllm.MultiModal
