import Mathlib.Data.List.Induction
import Vllm.PromptUpdates

namespace Vllm.MultiModal

section Matches

variable {l t : List Token} {s rounds rounds' : Nat} {m : PromptTargetMatch}
  {ms : List PromptTargetMatch}

def OccursAt (l t : List Token) (s : Nat) : Prop :=
  s + t.length ≤ l.length ∧ (l.take (s + t.length)).drop s = t

theorem iterMatchesFrom_past (ht : 0 < t.length) (hs : l.length < s) (rounds : Nat) :
    iterMatchesFrom l t rounds s = [] := by
  cases rounds with
  | zero => rfl
  | succ rounds => rw [iterMatchesFrom, if_neg (by omega)]

theorem iterMatchesFrom_congr (ht : 0 < t.length) (h : l.length + 1 - s ≤ rounds)
    (h' : l.length + 1 - s ≤ rounds') : iterMatchesFrom l t rounds s = iterMatchesFrom l t rounds' s := by
  induction rounds generalizing s rounds' with
  | zero => rw [iterMatchesFrom_past ht (by omega), iterMatchesFrom_past ht (by omega)]
  | succ rounds ih =>
    cases rounds' with
    | zero => rw [iterMatchesFrom_past ht (by omega), iterMatchesFrom_past ht (by omega)]
    | succ rounds' =>
      have hmatch : iterMatchesFrom l t rounds (s + t.length) =
          iterMatchesFrom l t rounds' (s + t.length) := ih (by omega) (by omega)
      have hnext : iterMatchesFrom l t rounds (s + 1) = iterMatchesFrom l t rounds' (s + 1) :=
        ih (by omega) (by omega)
      rw [iterMatchesFrom, iterMatchesFrom, hmatch, hnext]

theorem iterTokenMatches_of_occurs (ht : 0 < t.length) (h : OccursAt l t s) :
    iterTokenMatches l t s = ⟨s, s + t.length⟩ :: iterTokenMatches l t (s + t.length) := by
  have hrounds : l.length + 1 - s = (l.length - s) + 1 := by have := h.1; omega
  rw [iterTokenMatches, if_neg (Nat.ne_of_gt ht), iterTokenMatches, if_neg (Nat.ne_of_gt ht), hrounds,
    iterMatchesFrom, if_pos h.1, if_pos h.2]
  exact congrArg _ (iterMatchesFrom_congr ht (by omega) (by omega))

theorem iterTokenMatches_of_not_occurs (ht : 0 < t.length) (h : ¬ OccursAt l t s) :
    iterTokenMatches l t s = if s + t.length ≤ l.length then iterTokenMatches l t (s + 1) else [] := by
  rw [iterTokenMatches, if_neg (Nat.ne_of_gt ht), iterTokenMatches, if_neg (Nat.ne_of_gt ht)]
  split
  · rename_i hle
    have hrounds : l.length + 1 - s = (l.length - s) + 1 := by omega
    rw [hrounds, iterMatchesFrom, if_pos hle, if_neg fun hocc => h ⟨hle, hocc⟩]
    exact iterMatchesFrom_congr ht (by omega) (by omega)
  · rename_i hlt
    cases l.length + 1 - s with
    | zero => rfl
    | succ rounds => rw [iterMatchesFrom, if_neg hlt]

theorem iterTokenMatches_cons (ht : 0 < t.length) (h : iterTokenMatches l t s = m :: ms) :
    s ≤ m.startIdx ∧ OccursAt l t m.startIdx ∧ m.endIdx = m.startIdx + t.length ∧
      ms = iterTokenMatches l t m.endIdx ∧ ∀ i, s ≤ i → i < m.startIdx → ¬ OccursAt l t i := by
  generalize hn : l.length - s = n
  induction n generalizing s with
  | zero =>
    by_cases hocc : OccursAt l t s
    · have hle := hocc.1
      omega
    · rw [iterTokenMatches_of_not_occurs ht hocc, if_neg (by omega)] at h
      cases h
  | succ n ih =>
    by_cases hocc : OccursAt l t s
    · rw [iterTokenMatches_of_occurs ht hocc] at h
      cases h
      exact ⟨Nat.le_refl s, hocc, rfl, rfl, fun i hle hlt => absurd hlt (Nat.not_lt.2 hle)⟩
    · rw [iterTokenMatches_of_not_occurs ht hocc] at h
      split at h
      · obtain ⟨hle, hm, hend, hms, hnone⟩ := ih h (by omega)
        refine ⟨by omega, hm, hend, hms, fun i hi hlt => ?_⟩
        rcases Nat.eq_or_lt_of_le hi with rfl | hi
        · exact hocc
        · exact hnone i hi hlt
      · cases h

end Matches

section Items

theorem nodup_itemUpdates (updates : MultiModalPromptUpdates) :
    (updates.itemUpdates.map Prod.fst).Nodup := by
  rw [MultiModalPromptUpdates.itemUpdates, List.map_flatMap]
  refine List.nodup_flatMap.2 ⟨fun x _ => ?_, ?_⟩
  · rw [List.map_map]
    have hidx : (x.2.zipIdx.map Prod.snd).Nodup := by
      rw [List.zipIdx_map_snd]
      exact List.nodup_range'
    have hmap := hidx.map (f := fun i => (x.1, i)) fun i j hij => congrArg Prod.snd hij
    rwa [List.map_map] at hmap
  · refine (List.pairwise_map.1 updates.nodup).imp fun {x y} hne => ?_
    intro k hk hk'
    dsimp only at hk hk'
    rw [List.map_map] at hk hk'
    obtain ⟨a, -, rfl⟩ := List.mem_map.1 hk
    obtain ⟨b, -, hb⟩ := List.mem_map.1 hk'
    exact hne (congrArg Prod.fst hb).symm

theorem mem_itemUpdates {updates : MultiModalPromptUpdates} {x : (String × Nat) × List ResolvedPromptUpdate} :
    x ∈ updates.itemUpdates ↔ (updates.getD x.1.1 [])[x.1.2]? = some x.2 := by
  rw [MultiModalPromptUpdates.itemUpdates, List.mem_flatMap]
  constructor
  · rintro ⟨y, hy, hx⟩
    obtain ⟨z, hz, rfl⟩ := List.mem_map.1 hx
    have hget := Dict.get?_eq_some.2 hy
    rw [Dict.getD, hget]
    exact List.mem_zipIdx_iff_getElem?.1 hz
  · intro h
    rw [Dict.getD] at h
    cases hget : updates.get? x.1.1 with
    | none =>
      rw [hget] at h
      cases h
    | some items =>
      rw [hget] at h
      refine ⟨(x.1.1, items), Dict.get?_eq_some.1 hget, List.mem_map.2 ⟨(x.2, x.1.2), ?_, rfl⟩⟩
      exact List.mem_zipIdx_iff_getElem?.2 h

end Items

section Find

variable {encode : String → List Token} {prompt : List Token} {prevEndIdx : Nat}

structure MatchOf (encode : String → List Token) (prompt : List Token)
    (updates : MultiModalPromptUpdates) (prevEndIdx : Nat) (m : MatchToApply) : Prop where
  update : ∃ us, (updates.getD m.modality [])[m.itemIdx]? = some us ∧ us[m.updateIdx]? = some m.update
  found : (m.update.iterMatches encode prompt prevEndIdx).head? = some m.found

def MatchToApply.item (m : MatchToApply) : String × Nat := (m.modality, m.itemIdx)

theorem findItem_spec {item : String × Nat} {mode mode' : Option UpdateMode}
    {us : List (ResolvedPromptUpdate × Nat)} {found : Option MatchToApply}
    (h : findItem encode prompt prevEndIdx item mode us = (mode', found)) :
    (found = none ∧ mode' = mode) ∨ ∃ m, found = some m ∧ m.item = item ∧
      (m.update, m.updateIdx) ∈ us ∧
      (m.update.iterMatches encode prompt prevEndIdx).head? = some m.found ∧
      mode' = some m.update.mode ∧ (mode = none ∨ mode = some m.update.mode) := by
  induction us with
  | nil =>
    cases h
    exact .inl ⟨rfl, rfl⟩
  | cons x us ih =>
    obtain ⟨u, updateIdx⟩ := x
    have hlift : ∀ {m : MatchToApply}, (m.update, m.updateIdx) ∈ us →
        (m.update, m.updateIdx) ∈ (u, updateIdx) :: us := List.mem_cons_of_mem _
    rw [findItem] at h
    split at h
    · refine (ih h).imp_right ?_
      rintro ⟨m, hm, hitem, hmem, hrest⟩
      exact ⟨m, hm, hitem, hlift hmem, hrest⟩
    · rename_i m hfirst
      split at h
      · rename_i hmode
        cases h
        exact .inr ⟨_, rfl, rfl, List.mem_cons_self, hfirst, rfl, hmode⟩
      · refine (ih h).imp_right ?_
        rintro ⟨m, hm, hitem, hmem, hrest⟩
        exact ⟨m, hm, hitem, hlift hmem, hrest⟩

structure Collected (encode : String → List Token) (prompt : List Token)
    (items : List ((String × Nat) × List ResolvedPromptUpdate)) (prevEndIdx : Nat)
    (result : MultiModalPromptUpdatesApplyResult) (mode : Option UpdateMode)
    (ms : List MatchToApply) : Prop where
  sameMode : ∀ m ∈ ms, mode = some m.update.mode
  nonempty : mode ≠ none → ms ≠ []
  keys : (ms.map MatchToApply.item).Sublist (items.map Prod.fst)
  ofItem : ∀ m ∈ ms, ∃ us, (m.item, us) ∈ items ∧ us[m.updateIdx]? = some m.update
  first : ∀ m ∈ ms, (m.update.iterMatches encode prompt prevEndIdx).head? = some m.found
  unapplied : ∀ m ∈ ms, resultOf result m.item = none

theorem collectMatches_spec (items : List ((String × Nat) × List ResolvedPromptUpdate))
    (prevEndIdx : Nat) (result : MultiModalPromptUpdatesApplyResult) :
    Collected encode prompt items prevEndIdx result
      (collectMatches encode prompt items prevEndIdx result).1
      (collectMatches encode prompt items prevEndIdx result).2 := by
  unfold collectMatches
  induction items using List.reverseRecOn with
  | nil => exact ⟨nofun, fun h => absurd rfl h, .refl _, nofun, nofun, nofun⟩
  | append_singleton items x ih =>
    rw [List.foldl_append, List.foldl_cons, List.foldl_nil]
    generalize List.foldl _ (none, []) items = st at ih ⊢
    obtain ⟨mode, ms⟩ := st
    unfold collectItem
    have hsub : (ms.map MatchToApply.item).Sublist ((items ++ [x]).map Prod.fst) := by
      rw [List.map_append]
      exact ih.keys.trans (List.sublist_append_left _ _)
    have hold : ∀ m ∈ ms, ∃ us, (m.item, us) ∈ items ++ [x] ∧ us[m.updateIdx]? = some m.update := by
      intro m hm
      obtain ⟨us, hus, hget⟩ := ih.ofItem m hm
      exact ⟨us, List.mem_append_left _ hus, hget⟩
    dsimp only
    split
    · exact ⟨ih.sameMode, ih.nonempty, hsub, hold, ih.first, ih.unapplied⟩
    · rename_i hresult
      have hnone : resultOf result x.1 = none := Option.not_isSome_iff_eq_none.1 hresult
      rcases hitem : findItem encode prompt prevEndIdx x.1 mode x.2.zipIdx with ⟨mode', found⟩
      dsimp only
      rcases findItem_spec hitem with ⟨rfl, rfl⟩ | ⟨m, rfl, hm, hmem, hfound, rfl, hmode⟩
      · rw [Option.toList_none, List.append_nil]
        exact ⟨ih.sameMode, ih.nonempty, hsub, hold, ih.first, ih.unapplied⟩
      · have hall : ∀ {P : MatchToApply → Prop}, (∀ m ∈ ms, P m) → P m → ∀ m' ∈ ms ++ [m], P m' := by
          intro P hms hlast m' hm'
          rcases List.mem_append.1 hm' with hm' | hm'
          · exact hms m' hm'
          · rwa [List.mem_singleton.1 hm']
        rw [Option.toList_some]
        refine ⟨hall (fun m' hm' => ?_) rfl, fun _ => List.append_ne_nil_of_right_ne_nil _ nofun, ?_,
          hall hold ⟨x.2, ?_, ?_⟩, hall ih.first hfound, hall ih.unapplied ?_⟩
        · rcases hmode with hmode | hmode
          · have hprev := ih.sameMode m' hm'
            rw [hmode] at hprev
            cases hprev
          · exact hmode.symm.trans (ih.sameMode m' hm')
        · rw [List.map_append, List.map_append, List.map_singleton, List.map_singleton, hm]
          exact ih.keys.append (.refl _)
        · rw [hm]
          exact List.mem_append_right _ (List.mem_singleton_self x)
        · exact List.mem_zipIdx_iff_getElem?.1 hmem
        · rw [hm]
          exact hnone

theorem oneNonEmpty_sublist (b : Bool) (ms : List MatchToApply) : (oneNonEmpty b ms).Sublist ms := by
  induction ms generalizing b with
  | nil => exact .slnil
  | cons m ms ih =>
    rw [oneNonEmpty]
    split
    · exact (ih b).cons_cons m
    · split
      · exact (ih b).cons m
      · exact (ih true).cons_cons m

theorem oneNonEmpty_ne_nil {ms : List MatchToApply} (h : ms ≠ []) : oneNonEmpty false ms ≠ [] := by
  cases ms with
  | nil => exact absurd rfl h
  | cons m ms =>
    rw [oneNonEmpty]
    split
    · exact List.cons_ne_nil _ _
    · rw [if_neg Bool.false_ne_true]
      exact List.cons_ne_nil _ _

theorem empty_of_oneNonEmpty {m : MatchToApply} {ms : List MatchToApply} (h : m ∈ oneNonEmpty true ms) :
    m.found.startIdx = m.found.endIdx := by
  induction ms with
  | nil => cases h
  | cons m' ms ih =>
    rw [oneNonEmpty] at h
    split at h
    · rename_i hempty
      rcases List.mem_cons.1 h with rfl | h
      · exact hempty
      · exact ih h
    · exact ih h

theorem pairwise_oneNonEmpty (ms : List MatchToApply) : (oneNonEmpty false ms).Pairwise fun a b =>
    a.found.startIdx = a.found.endIdx ∨ b.found.startIdx = b.found.endIdx := by
  induction ms with
  | nil => exact .nil
  | cons m ms ih =>
    rw [oneNonEmpty]
    split
    · rename_i hempty
      exact List.pairwise_cons.2 ⟨fun _ _ => .inl hempty, ih⟩
    · rw [if_neg Bool.false_ne_true]
      have hnone : ∀ b ∈ oneNonEmpty true ms, b.found.startIdx = b.found.endIdx :=
        fun _ => empty_of_oneNonEmpty
      exact List.pairwise_cons.2 ⟨fun b hb => .inr (hnone b hb),
        List.pairwise_of_forall_mem_list fun a ha _ _ => .inl (hnone a ha)⟩

theorem pairwise_sorted (ms : List MatchToApply) :
    (ms.insertionSort fun a b => a.found.le b.found).Pairwise fun a b => a.found.le b.found := by
  have : Std.Total fun a b : MatchToApply => a.found.le b.found :=
    ⟨fun a b => by unfold PromptTargetMatch.le; omega⟩
  have : IsTrans MatchToApply fun a b => a.found.le b.found :=
    ⟨fun a b c => by unfold PromptTargetMatch.le; omega⟩
  exact List.pairwise_insertionSort _ ms

structure Found (encode : String → List Token) (prompt : List Token) (updates : MultiModalPromptUpdates)
    (prevEndIdx : Nat) (result : MultiModalPromptUpdatesApplyResult) (mode : UpdateMode)
    (ms : List MatchToApply) : Prop where
  sameMode : ∀ m ∈ ms, m.update.mode = mode
  nonempty : ms ≠ []
  nodup : (ms.map MatchToApply.item).Nodup
  matchOf : ∀ m ∈ ms, MatchOf encode prompt updates prevEndIdx m
  unapplied : ∀ m ∈ ms, resultOf result m.item = none
  sorted : ms.Pairwise fun a b => a.found.le b.found
  oneNonEmpty : mode = .replace → ms.Pairwise fun a b =>
    a.found.startIdx = a.found.endIdx ∨ b.found.startIdx = b.found.endIdx

theorem findMatches_spec {updates : MultiModalPromptUpdates} {result : MultiModalPromptUpdatesApplyResult}
    {mode : UpdateMode} {ms : List MatchToApply}
    (h : findMatches encode prompt updates prevEndIdx result = (some mode, ms)) :
    Found encode prompt updates prevEndIdx result mode ms := by
  have hcollected : Collected encode prompt updates.itemUpdates prevEndIdx result _ _ :=
    collectMatches_spec updates.itemUpdates prevEndIdx result
  unfold findMatches at h
  generalize collectMatches encode prompt updates.itemUpdates prevEndIdx result = st at h hcollected
  obtain ⟨mode', ms'⟩ := st
  dsimp only at h hcollected
  obtain ⟨rfl, hms⟩ := Prod.mk.inj h
  have hperm : (ms'.insertionSort fun a b => a.found.le b.found).Perm ms' := List.perm_insertionSort _ _
  have hne' := hcollected.nonempty nofun
  have hne : ms'.insertionSort (fun a b => a.found.le b.found) ≠ [] :=
    fun hnil => hne' (List.Perm.nil_eq (hnil ▸ hperm)).symm
  have hsub : ms.Sublist (ms'.insertionSort fun a b => a.found.le b.found) := by
    rw [← hms]
    split
    · exact oneNonEmpty_sublist _ _
    · exact .refl _
  have hmem : ∀ m ∈ ms, m ∈ ms' := fun m hm => hperm.mem_iff.1 (hsub.mem hm)
  constructor
  case sameMode => exact fun m hm => (Option.some.inj (hcollected.sameMode m (hmem m hm))).symm
  case nonempty =>
    rw [← hms]
    split
    · exact oneNonEmpty_ne_nil hne
    · exact hne
  case nodup =>
    have hnodup := (nodup_itemUpdates updates).sublist hcollected.keys
    exact ((hperm.map _).nodup_iff.2 hnodup).sublist (hsub.map _)
  case matchOf =>
    intro m hm
    obtain ⟨us, hus, hget⟩ := hcollected.ofItem m (hmem m hm)
    exact ⟨⟨us, mem_itemUpdates.1 hus, hget⟩, hcollected.first m (hmem m hm)⟩
  case unapplied => exact fun m hm => hcollected.unapplied m (hmem m hm)
  case sorted => exact (pairwise_sorted ms').sublist hsub
  case oneNonEmpty =>
    rintro rfl
    rw [← hms, if_pos rfl]
    exact pairwise_oneNonEmpty _

end Find

end Vllm.MultiModal
