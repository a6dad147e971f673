import Vllm.PromptReplacement

namespace Vllm.MultiModal

variable {encode : String → List Token} {prompt output : List Token} {modality : String}
  {us rest : List ResolvedPromptUpdate} {u : ResolvedPromptUpdate} {i s : Nat}

theorem occursAt_append {before l t : List Token} : OccursAt (before ++ l) t before.length ↔ t <+: l := by
  have hcut : ((before ++ l).take (before.length + t.length)).drop before.length = l.take t.length := by
    rw [List.take_length_add_append, List.drop_left]
  rw [OccursAt, hcut, List.length_append, Nat.add_le_add_iff_left]
  constructor
  · exact fun h => List.prefix_iff_eq_take.2 h.2.symm
  · exact fun h => ⟨h.length_le, (List.prefix_iff_eq_take.1 h).symm⟩

theorem findContent_of_occurs (hne : seq2tokens encode u.content.full ≠ [])
    (h : OccursAt prompt (seq2tokens encode u.content.full) s) : findContent encode prompt s [u] = some u := by
  refine List.find?_cons_of_pos (decide_eq_true ⟨fun hlen => ?_, h⟩)
  exact hne (List.eq_nil_of_length_eq_zero hlen)

theorem findContent_of_not_occurs (h : ¬ OccursAt prompt (seq2tokens encode u.content.full) s) :
    findContent encode prompt s [u] = none :=
  List.find?_cons_of_neg fun hcontent => h (of_decide_eq_true hcontent).2

def placeholderAt (encode : String → List Token) (modality : String) (y : ResolvedPromptUpdate × Nat)
    (startIdx : Nat) : PlaceholderFeaturesInfo where
  modality
  itemIdx := y.2
  startIdx
  tokens := seq2tokens encode y.1.content.full
  isEmbed := y.1.content.isEmbed.map (· y.1.content.full)

theorem findPlaceholder_single (hu : us[i]? = some u) (s : Nat) :
    findPlaceholder encode prompt s (Dict.empty.set modality i) (single modality us).items =
      (findContent encode prompt s [u]).map fun u => placeholderAt encode modality (u, i) s := by
  show findPlaceholder encode prompt s _ [(modality, us.map fun u => [u])] = _
  have hidx : ((Dict.empty : Dict String Nat).set modality i).getD modality 0 = i := by
    rw [Dict.getD, Dict.get?_set, if_pos rfl]
    rfl
  have hitem : (us.map fun u => [u])[i]? = some [u] := by
    rw [List.getElem?_map, hu]
    rfl
  rw [findPlaceholder, hidx, hitem, Option.bind_eq_bind, Option.bind_some]
  cases findContent encode prompt s [u] <;> rfl

theorem allItemsPassed_single (modality : String) (us : List ResolvedPromptUpdate) (i : Nat) :
    allItemsPassed (single modality us) (Dict.empty.set modality i) = decide (us.length ≤ i) := by
  show (decide (((single modality us).getD modality []).length ≤ i) && true) = _
  rw [getD_single, if_pos rfl, List.length_map, Bool.and_true]

/-- The first token of the content is not in the prompt. -/
def FirstTokenFresh (encode : String → List Token) (prompt : List Token) (u : ResolvedPromptUpdate) :
    Prop :=
  ∃ c cs, seq2tokens encode u.content.full = c :: cs ∧ c ∉ prompt

theorem iterPlaceholdersFrom_skip (hu : us[i]? = some u) (hfresh : FirstTokenFresh encode prompt u)
    {gap : List Token} (hgap : ∀ t ∈ gap, t ∈ prompt) {before after : List Token} {rounds : Nat}
    (houtput : output = before ++ (gap ++ after)) (hrounds : output.length ≤ rounds + before.length) :
    ∃ rounds', output.length ≤ rounds' + (before ++ gap).length ∧
      iterPlaceholdersFrom encode output (single modality us) rounds before.length
          (Dict.empty.set modality i) =
        iterPlaceholdersFrom encode output (single modality us) rounds' (before ++ gap).length
          (Dict.empty.set modality i) := by
  induction gap generalizing before rounds with
  | nil =>
    rw [List.append_nil]
    exact ⟨rounds, hrounds, rfl⟩
  | cons t gap ih =>
    obtain ⟨ht, hgap⟩ := List.forall_mem_cons.1 hgap
    have hlt : before.length < output.length := by
      rw [houtput, List.length_append, List.length_append, List.length_cons]
      omega
    obtain ⟨rounds, rfl⟩ := Nat.exists_eq_succ_of_ne_zero (n := rounds) (by omega)
    have hnot : ¬ OccursAt output (seq2tokens encode u.content.full) before.length := by
      obtain ⟨c, cs, hcontent, hc⟩ := hfresh
      rw [houtput, occursAt_append, hcontent, List.cons_append, List.cons_prefix_cons]
      rintro ⟨rfl, -⟩
      exact hc ht
    have hbefore : (before ++ [t]).length = before.length + 1 := by
      rw [List.length_append, List.length_singleton]
    have hnext := @ih hgap (before ++ [t]) rounds (by rw [houtput, List.append_assoc]; rfl) (by omega)
    rw [List.append_assoc, List.singleton_append, hbefore] at hnext
    obtain ⟨rounds', hrounds', hscan⟩ := hnext
    refine ⟨rounds', hrounds', ?_⟩
    rw [iterPlaceholdersFrom, if_pos hlt, findPlaceholder_single hu, findContent_of_not_occurs hnot]
    exact hscan

theorem iterPlaceholdersFrom_found (hu : us[i]? = some u) (hcontent : seq2tokens encode u.content.full ≠ [])
    {before after : List Token} (houtput : output = before ++ (seq2tokens encode u.content.full ++ after))
    (rounds : Nat) :
    iterPlaceholdersFrom encode output (single modality us) (rounds + 1) before.length
        (Dict.empty.set modality i) =
      placeholderAt encode modality (u, i) before.length ::
        if us.length ≤ i + 1 then []
        else iterPlaceholdersFrom encode output (single modality us) rounds
          (before ++ seq2tokens encode u.content.full).length (Dict.empty.set modality (i + 1)) := by
  have hocc : OccursAt output (seq2tokens encode u.content.full) before.length := by
    rw [houtput, occursAt_append]
    exact List.prefix_append _ _
  have hpos := List.length_pos_iff.2 hcontent
  have hlt : before.length < output.length := by
    rw [houtput, List.length_append, List.length_append]
    omega
  rw [iterPlaceholdersFrom, if_pos hlt, findPlaceholder_single hu, findContent_of_occurs hcontent hocc,
    Option.map_some, List.length_append]
  dsimp only [placeholderAt]
  rw [Dict.set_set, allItemsPassed_single]
  refine congrArg (List.cons _) ?_
  by_cases hlast : us.length ≤ i + 1
  · rw [if_pos (decide_eq_true hlast), if_pos hlast]
  · rw [if_neg fun hpassed => hlast (of_decide_eq_true hpassed), if_neg hlast]

theorem iterPlaceholdersFrom_places (hfresh : ∀ u ∈ us, FirstTokenFresh encode prompt u)
    (hrest : us.drop i = rest) (hne : rest ≠ []) {ms : List PromptTargetMatch}
    (hms : rest.length ≤ ms.length) {prev rounds : Nat} {before : List Token}
    (horder : Edit.InOrder prompt prev (replacements encode ms rest))
    (houtput : output = before ++ Edit.splice prompt prev (replacements encode ms rest))
    (hrounds : output.length ≤ rounds + before.length) :
    iterPlaceholdersFrom encode output (single modality us) rounds before.length
        (Dict.empty.set modality i) =
      List.zipWith (placeholderAt encode modality) (rest.zipIdx i)
        (Edit.places prev before.length (replacements encode ms rest)) := by
  induction rest generalizing i ms prev before rounds with
  | nil => exact absurd rfl hne
  | cons u rest ih =>
    cases ms with
    | nil => exact absurd hms (Nat.not_succ_le_zero _)
    | cons m ms =>
    have hu : us[i]? = some u := by
      rw [← List.head?_drop, hrest]
      rfl
    have hdrop : us.drop (i + 1) = rest := by
      rw [← List.drop_drop, hrest]
      rfl
    have hlen : us.length = i + 1 + rest.length := by
      have hlen := congrArg List.length hrest
      rw [List.length_drop, List.length_cons] at hlen
      omega
    have hfreshU := hfresh u (List.mem_of_getElem? hu)
    have hcontent : seq2tokens encode u.content.full ≠ [] := by
      obtain ⟨c, cs, hcons, -⟩ := hfreshU
      rw [hcons]
      exact List.cons_ne_nil c cs
    generalize hgap : (prompt.take m.startIdx).drop prev = gap
    have hgapLen : gap.length = m.startIdx - prev := hgap ▸ horder.length_kept
    have hgapMem : ∀ t ∈ gap, t ∈ prompt := by
      intro t ht
      rw [← hgap] at ht
      exact List.mem_of_mem_take (List.mem_of_mem_drop ht)
    have hsplit : output = before ++ (gap ++ (seq2tokens encode u.content.full ++
        Edit.splice prompt m.endIdx (replacements encode ms rest))) := by
      rw [houtput, replacements, List.zipWith_cons_cons, Edit.splice, hgap, List.append_assoc]
      rfl
    obtain ⟨rounds', hrounds', hscan⟩ := iterPlaceholdersFrom_skip hu hfreshU hgapMem hsplit hrounds
    obtain ⟨rounds', rfl⟩ := Nat.exists_eq_succ_of_ne_zero (n := rounds') fun hzero => by
      have hpos := List.length_pos_iff.2 hcontent
      rw [hzero, hsplit] at hrounds'
      simp only [List.length_append] at hrounds'
      omega
    have hplace : before.length + (m.startIdx - prev) = (before ++ gap).length := by
      rw [List.length_append, hgapLen]
    have hend : (before ++ gap ++ seq2tokens encode u.content.full).length =
        (before ++ gap).length + (seq2tokens encode u.content.full).length := List.length_append
    rw [← List.append_assoc] at hsplit
    rw [hscan, iterPlaceholdersFrom_found hu hcontent hsplit, List.zipIdx_cons, replacements,
      List.zipWith_cons_cons, Edit.places, hplace, List.zipWith_cons_cons]
    refine congrArg (List.cons _) ?_
    by_cases hnil : rest = []
    · rw [if_pos (by rw [hlen, hnil]; exact Nat.le_refl _), hnil]
      rfl
    · have hrestPos := List.length_pos_iff.2 hnil
      rw [← List.append_assoc] at hsplit
      have hpos := List.length_pos_iff.2 hcontent
      rw [if_neg (by omega), ih hdrop hnil (Nat.le_of_succ_le_succ hms) horder.2.2 hsplit (by omega), hend]
      rfl

theorem getD_fullGroupbyModality (ps : List PlaceholderFeaturesInfo) (m : String) :
    (fullGroupbyModality ps).getD m [] = ps.filter (·.modality = m) := by
  unfold fullGroupbyModality
  induction ps using List.reverseRecOn with
  | nil => rfl
  | append_singleton ps p ih =>
    rw [List.foldl_append, List.foldl_cons, List.foldl_nil, List.filter_append, ← ih]
    generalize List.foldl _ Dict.empty ps = groups
    rw [Dict.getD, Dict.get?_set]
    split
    · rename_i hm
      have hkept : [p].filter (·.modality = m) = [p] := List.filter_cons_of_pos (decide_eq_true hm)
      rw [hkept, hm]
      rfl
    · rename_i hm
      have hdropped : [p].filter (·.modality = m) = [] :=
        List.filter_cons_of_neg fun h => hm (of_decide_eq_true h)
      rw [hdropped, List.append_nil]
      rfl

/-- The placeholders of the items, where their contents were put. -/
def placed (encode : String → List Token) (modality : String) (us : List ResolvedPromptUpdate)
    (ms : List PromptTargetMatch) : List PlaceholderFeaturesInfo :=
  List.zipWith (placeholderAt encode modality) us.zipIdx (Edit.places 0 0 (replacements encode ms us))

theorem modality_placed {ms : List PromptTargetMatch} :
    ∀ p ∈ placed encode modality us ms, p.modality = modality := by
  intro p hp
  rw [placed, ← List.map_uncurry_zip_eq_zipWith] at hp
  obtain ⟨x, -, rfl⟩ := List.mem_map.1 hp
  rfl

theorem iterPlaceholders_single (hfresh : ∀ u ∈ us, FirstTokenFresh encode prompt u)
    {ms : List PromptTargetMatch} (hms : us.length ≤ ms.length)
    (horder : Edit.InOrder prompt 0 (replacements encode ms us))
    (houtput : output = Edit.splice prompt 0 (replacements encode ms us)) :
    iterPlaceholders encode output (single modality us) = placed encode modality us ms := by
  show (if allItemsPassed (single modality us) (Dict.empty.set modality 0) then _ else
    iterPlaceholdersFrom encode output (single modality us) output.length 0 (Dict.empty.set modality 0)) = _
  rw [allItemsPassed_single]
  by_cases hnil : us = []
  · rw [hnil]
    rfl
  · have hpos := List.length_pos_iff.2 hnil
    rw [if_neg fun hpassed => absurd (of_decide_eq_true hpassed) (Nat.not_le.2 hpos)]
    have hbefore : output = [] ++ Edit.splice prompt 0 (replacements encode ms us) := houtput
    exact iterPlaceholdersFrom_places hfresh List.drop_zero hnil hms horder hbefore (Nat.le_refl _)

theorem getD_findMmPlaceholders_single (hfresh : ∀ u ∈ us, FirstTokenFresh encode prompt u)
    {ms : List PromptTargetMatch} (hms : us.length ≤ ms.length)
    (horder : Edit.InOrder prompt 0 (replacements encode ms us))
    (houtput : output = Edit.splice prompt 0 (replacements encode ms us)) (m : String) :
    (findMmPlaceholders encode output (single modality us)).getD m [] =
      if modality = m then placed encode modality us ms else [] := by
  rw [findMmPlaceholders, getD_fullGroupbyModality, iterPlaceholders_single hfresh hms horder houtput]
  split
  · rename_i hm
    exact List.filter_eq_self.2 fun p hp => decide_eq_true ((modality_placed p hp).trans hm)
  · rename_i hm
    refine List.filter_eq_nil_iff.2 fun p hp h => hm ?_
    rw [← modality_placed p hp]
    exact of_decide_eq_true h

/-! The updates that the results keep are those of the table. -/

def matchedSoFar (modality : String) (us : List ResolvedPromptUpdate) : MultiModalPromptUpdates :=
  if us = [] then .empty else single modality us

theorem getD_matchedSoFar (modality : String) (us : List ResolvedPromptUpdate) :
    (matchedSoFar modality us).getD modality [] = us.map fun u => [u] := by
  rw [matchedSoFar]
  split
  · rename_i hnil
    rw [hnil]
    rfl
  · rw [getD_single, if_pos rfl]

theorem matchedSoFar_concat (modality : String) (us : List ResolvedPromptUpdate) (u : ResolvedPromptUpdate) :
    (matchedSoFar modality us).set modality ((matchedSoFar modality us).getD modality [] ++ [[u]]) =
      matchedSoFar modality (us ++ [u]) := by
  have hne : us ++ [u] ≠ [] := List.append_ne_nil_of_right_ne_nil _ (List.cons_ne_nil u [])
  have hmap : (us ++ [u]).map (fun u => [u]) = us.map (fun u => [u]) ++ [[u]] := List.map_append
  rw [getD_matchedSoFar, matchedSoFar, matchedSoFar, if_neg hne, single, single, hmap]
  split
  · rfl
  · exact Dict.set_set _ _ _ _

theorem matchedUpdate_single {done : List ResolvedPromptUpdate} (hsplit : us = done ++ u :: rest) :
    matchedUpdate (single modality us) modality (matchedSoFar modality done) (some 0, done.length) =
      some (matchedSoFar modality (done ++ [u])) := by
  have hitem : ((single modality us).getD modality [])[done.length]? = some [u] := by
    rw [getD_single, if_pos rfl, List.getElem?_map, hsplit, List.getElem?_append_right (Nat.le_refl _),
      Nat.sub_self]
    rfl
  rw [matchedUpdate]
  dsimp only
  rw [hitem, ← matchedSoFar_concat]
  rfl

theorem foldlM_matchedUpdate_single {done : List ResolvedPromptUpdate} (hsplit : us = done ++ rest) :
    ((List.replicate rest.length (some 0)).zipIdx done.length).foldlM
        (matchedUpdate (single modality us) modality) (matchedSoFar modality done) =
      some (matchedSoFar modality us) := by
  induction rest generalizing done with
  | nil =>
    rw [hsplit, List.append_nil]
    rfl
  | cons u rest ih =>
    have hsplit' : us = (done ++ [u]) ++ rest := by
      rw [hsplit, List.append_assoc]
      rfl
    have hnext := ih hsplit'
    rw [List.length_append, List.length_singleton] at hnext
    rw [List.length_cons, List.replicate_succ, List.zipIdx_cons, List.foldlM_cons,
      matchedUpdate_single hsplit]
    exact hnext

theorem matchedUpdates_single {result : MultiModalPromptUpdatesApplyResult}
    (hitems : result.items = [(modality, List.replicate us.length (some 0))]) :
    matchedUpdates (single modality us) result = some (matchedSoFar modality us) := by
  have hfold := @foldlM_matchedUpdate_single modality us us [] (List.nil_append us).symm
  rw [matchedUpdates, hitems, List.foldlM_cons]
  show Option.bind (List.foldlM (matchedUpdate (single modality us) modality) (matchedSoFar modality [])
    ((List.replicate us.length (some 0)).zipIdx ([] : List ResolvedPromptUpdate).length)) _ = _
  rw [hfold]
  rfl

theorem findMmPlaceholders_matchedSoFar (encode : String → List Token) (output : List Token)
    (modality : String) (us : List ResolvedPromptUpdate) :
    findMmPlaceholders encode output (matchedSoFar modality us) =
      findMmPlaceholders encode output (single modality us) := by
  rw [matchedSoFar]
  split
  · rename_i hnil
    have hnone : iterPlaceholders encode output (single modality []) = [] := by
      show (if allItemsPassed (single modality []) (Dict.empty.set modality 0) then _ else _) = _
      rw [allItemsPassed_single]
      rfl
    rw [hnil, findMmPlaceholders, findMmPlaceholders, hnone]
    rfl
  · rfl

theorem applyTokenMatches_single {target : PromptSeq} (ht : 0 < (seq2tokens encode target).length)
    (hus : ∀ u ∈ us, Replaces target u) {rounds : Nat} (hrounds : us.length < rounds) :
    ∃ st done, applyTokenMatches encode prompt rounds (single modality us) =
        some ((st.outSeqs ++ [prompt.drop st.prevEndIdx]).flatten, st.outResult) ∧
      Resolved encode prompt modality us st (List.zipWith (matchFor modality)
        (iterTokenMatches prompt (seq2tokens encode target) 0) us.zipIdx) done := by
  have hinit : Resolved encode prompt modality us ⟨[], initialResult (single modality us), 0⟩ [] [] :=
    ⟨reached_init encode prompt (single modality us), rfl, rfl⟩
  unfold applyTokenMatches
  split
  · rename_i hall
    have hnil : us = [] := by
      refine List.eq_nil_iff_forall_not_mem.2 fun u hu => ?_
      have hidx : (modality, 0).2 < ((single modality us).getD (modality, 0).1 []).length := by
        rw [getD_single, if_pos rfl, List.length_map]
        exact List.length_pos_of_mem hu
      have hsome := resultOf_of_allItemsFound hinit.reached.shaped hall hidx
      rw [resultOf_initialResult] at hsome
      cases hsome
    refine ⟨⟨[], initialResult (single modality us), 0⟩, [], ?_, ?_⟩
    · rw [List.nil_append, List.flatten_singleton, List.drop_zero]
    · rw [hnil, List.zipIdx_nil, List.zipWith_nil_right]
      exact hnil ▸ hinit
  · obtain ⟨st, done, hloop, hresolved⟩ := applyLoop_single ht hus (List.nil_append us.zipIdx).symm hinit
      (by rwa [List.length_zipIdx])
    rw [hloop]
    exact ⟨st, done, rfl, hresolved⟩

section Results

variable {st : ApplyState} {done : List (ResolvedPromptUpdate × Nat)} {ms : List PromptTargetMatch}

theorem mem_taken {m : MatchToApply} :
    m ∈ List.zipWith (matchFor modality) ms us.zipIdx ↔
      ∃ k found u, ms[k]? = some found ∧ us[k]? = some u ∧ m = matchFor modality found (u, k) := by
  rw [List.mem_iff_getElem?]
  refine exists_congr fun k => ?_
  rw [List.getElem?_zipWith_eq_some]
  constructor
  · rintro ⟨found, y, hfound, hy, rfl⟩
    rw [List.getElem?_zipIdx, Option.map_eq_some_iff] at hy
    obtain ⟨u, hu, rfl⟩ := hy
    rw [Nat.zero_add]
    exact ⟨found, u, hfound, hu, rfl⟩
  · rintro ⟨found, u, hfound, hu, rfl⟩
    refine ⟨found, (u, k), hfound, ?_, rfl⟩
    rw [List.getElem?_zipIdx, hu, Nat.zero_add]
    rfl

theorem Resolved.resultOf_eq (h : Resolved encode prompt modality us st
    (List.zipWith (matchFor modality) ms us.zipIdx) done) (hi : i < us.length) :
    resultOf st.outResult (modality, i) = if i < ms.length then some 0 else none := by
  split
  · rename_i hlt
    refine (h.reached.results _ 0).2 ⟨matchFor modality ms[i] (us[i], i), mem_taken.2 ?_, rfl, rfl⟩
    exact ⟨i, ms[i], us[i], List.getElem?_eq_getElem hlt, List.getElem?_eq_getElem hi, rfl⟩
  · rename_i hle
    refine Option.eq_none_iff_forall_ne_some.2 fun j hj => hle ?_
    obtain ⟨m, hm, hitem, -⟩ := (h.reached.results _ j).1 hj
    obtain ⟨k, found, u, hfound, -, rfl⟩ := mem_taken.1 hm
    obtain ⟨-, rfl⟩ := Prod.mk.inj hitem
    exact (List.getElem?_eq_some_iff.1 hfound).1

theorem Resolved.items_eq (h : Resolved encode prompt modality us st
    (List.zipWith (matchFor modality) ms us.zipIdx) done) (hms : us.length ≤ ms.length) :
    st.outResult.items = [(modality, List.replicate us.length (some 0))] := by
  obtain ⟨⟨modality', l⟩, hitems, rfl⟩ := List.map_eq_singleton_iff.1 h.keys
  have hget : st.outResult.getD modality' [] = l := by
    have hmem : (modality', l) ∈ st.outResult.items := by
      rw [hitems]
      exact List.mem_singleton_self _
    rw [Dict.getD, Dict.get?_eq_some.2 hmem]
    rfl
  have hlen : l.length = us.length := by
    have hshaped := h.reached.shaped modality'
    rwa [hget, getD_single, if_pos rfl, List.length_map] at hshaped
  have hall : l = List.replicate us.length (some 0) := by
    refine List.eq_replicate_iff.2 ⟨hlen, fun x hx => ?_⟩
    obtain ⟨i, hi, rfl⟩ := List.mem_iff_getElem.1 hx
    have hresult := h.resultOf_eq (hlen ▸ hi : i < us.length)
    rw [if_pos (Nat.lt_of_lt_of_le (hlen ▸ hi) hms), resultOf, hget, List.getD_eq_getElem?_getD,
      List.getElem?_eq_getElem hi] at hresult
    exact hresult
  rw [hitems, hall]

theorem length_placed (hms : us.length ≤ ms.length) : (placed encode modality us ms).length = us.length := by
  rw [placed, List.length_zipWith, List.length_zipIdx, Edit.length_places, replacements,
    List.length_zipWith, Nat.min_eq_right hms, Nat.min_self]

end Results

/-- Item after item takes an occurrence of the target, and all of them are found where they were put. -/
theorem placeholders_of_replaced (encode : String → List Token) (prompt : List Token) (modality : String)
    {us : List ResolvedPromptUpdate} {target : PromptSeq} (ht : seq2tokens encode target ≠ [])
    (hus : ∀ u ∈ us, Replaces target u) (hfresh : ∀ u ∈ us, FirstTokenFresh encode prompt u)
    {rounds : Nat} (hrounds : us.length < rounds)
    (applyText : List Token → MultiModalPromptUpdates →
      Option (List Token × MultiModalPromptUpdatesApplyResult)) :
    ∃ occurrences, (∀ ms, Scanned prompt (seq2tokens encode target) 0 ms ↔ ms = occurrences) ∧
      ∃ output result,
        applyTokenMatches encode prompt rounds (single modality us) = some (output, result) ∧
        output = Edit.splice prompt 0 (replacements encode occurrences us) ∧
        (∀ i < us.length,
          resultOf result (modality, i) = if i < occurrences.length then some 0 else none) ∧
        ((∀ i < us.length, (resultOf result (modality, i)).isSome) ↔
          us.length ≤ occurrences.length) ∧
        (us.length ≤ occurrences.length →
          (∀ m, (findMmPlaceholders encode output (single modality us)).getD m [] =
            if modality = m then placed encode modality us occurrences else []) ∧
          (placed encode modality us occurrences).length = us.length ∧
          applyPromptUpdates encode prompt applyText rounds (single modality us) =
            some (output, findMmPlaceholders encode output (single modality us))) := by
  have hpos := List.length_pos_iff.2 ht
  obtain ⟨st, done, happly, hresolved⟩ :=
    @applyTokenMatches_single encode prompt modality us target hpos hus rounds hrounds
  have horder : Edit.InOrder prompt 0
      (replacements encode (iterTokenMatches prompt (seq2tokens encode target) 0) us) :=
    inOrder_replacements hpos (Nat.zero_le prompt.length) us
  have hresults : ∀ i < us.length, resultOf st.outResult (modality, i) =
      if i < (iterTokenMatches prompt (seq2tokens encode target) 0).length then some 0 else none :=
    fun _ hi => hresolved.resultOf_eq hi
  have hscanned := iterTokenMatches_scanned (l := prompt) hpos 0
  have houtput : (st.outSeqs ++ [prompt.drop st.prevEndIdx]).flatten =
      Edit.splice prompt 0 (replacements encode (iterTokenMatches prompt (seq2tokens encode target) 0) us) := by
    have hout := hresolved.reached.output []
    rw [map_edit_taken hus, List.append_nil] at hout
    rw [List.flatten_append, List.flatten_singleton]
    exact hout
  refine ⟨_, fun ms => ⟨fun h => h.eq_iterTokenMatches hpos, fun h => h ▸ hscanned⟩,
    _, _, happly, houtput, hresults, ?_, fun hms => ⟨?_, length_placed hms, ?_⟩⟩
  · constructor
    · intro hall
      refine Nat.le_of_not_lt fun hlt => ?_
      have hsome := hall _ hlt
      rw [hresults _ hlt, if_neg (Nat.lt_irrefl _)] at hsome
      cases hsome
    · intro hms i hi
      rw [hresults i hi, if_pos (Nat.lt_of_lt_of_le hi hms)]
      rfl
  · exact getD_findMmPlaceholders_single hfresh hms horder houtput
  · have hitems := hresolved.items_eq hms
    have hall : st.outResult.items.all (fun y => y.2.all Option.isSome) = true := by
      rw [hitems, List.all_cons, List.all_nil, Bool.and_true, List.all_eq_true]
      intro x hx
      rw [List.eq_of_mem_replicate hx]
      rfl
    rw [applyPromptUpdates, happly, Option.bind_some, if_pos hall, Option.bind_some,
      matchedUpdates_single hitems, Option.map_some, findMmPlaceholders_matchedSoFar]

def threeImages : List ResolvedPromptUpdate :=
  [tokenUpdate .replace [32] [100, 101], tokenUpdate .replace [32] [100], tokenUpdate .replace [32] [300]]

theorem replaces_threeImages : ∀ u ∈ threeImages, Replaces (.tokens [32]) u := by
  refine List.forall_mem_cons.2 ⟨⟨rfl, rfl⟩, List.forall_mem_cons.2 ⟨⟨rfl, rfl⟩, ?_⟩⟩
  exact List.forall_mem_singleton.2 ⟨rfl, rfl⟩

theorem firstTokenFresh_threeImages :
    ∀ u ∈ threeImages, FirstTokenFresh (fun _ => []) [1, 32, 2, 32, 32, 5] u := by
  refine List.forall_mem_cons.2 ⟨⟨100, [101], rfl, by decide⟩, List.forall_mem_cons.2 ⟨?_, ?_⟩⟩
  · exact ⟨100, [], rfl, by decide⟩
  · exact List.forall_mem_singleton.2 ⟨300, [], rfl, by decide⟩

theorem placeholders_of_replaced_threeImages : ∃ output result,
    applyTokenMatches (fun _ => []) [1, 32, 2, 32, 32, 5] 4 (single "image" threeImages) =
        some (output, result) ∧
      (∀ i < 3, (resultOf result ("image", i)).isSome) ∧
      ((findMmPlaceholders (fun _ => []) output (single "image" threeImages)).getD "image" []).length = 3 := by
  obtain ⟨occurrences, hscanned, output, result, happly, -, -, hall, hplaced⟩ :=
    @placeholders_of_replaced (fun _ => []) [1, 32, 2, 32, 32, 5] "image" threeImages (.tokens [32])
      (List.cons_ne_nil _ _) replaces_threeImages firstTokenFresh_threeImages 4 (by decide) fun _ _ => none
  have hms : threeImages.length ≤ occurrences.length := by
    rw [← (hscanned _).1 (iterTokenMatches_scanned (by decide) 0)]
    decide +kernel
  obtain ⟨hfound, hlen, -⟩ := hplaced hms
  refine ⟨output, result, happly, hall.2 hms, ?_⟩
  rw [hfound, if_pos rfl]
  exact hlen

end Vllm.MultiModal
