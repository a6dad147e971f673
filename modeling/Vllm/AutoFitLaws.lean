import Mathlib.Order.Bounds.Basic
import Mathlib.Order.MinMax
import Vllm.AutoFit

namespace Vllm

open Result

section Growth

variable {c : VllmConfig} {l l' : Nat}

theorem cdiv_le_cdiv {a a' : Nat} (b : Nat) (h : a ≤ a') : cdiv a b ≤ cdiv a' b :=
  Nat.div_le_div_right (by omega)

theorem grows_checkedCdiv {a a' : Nat} (b : Nat) (h : a ≤ a') : Grows (checkedCdiv a b) (checkedCdiv a' b) := by
  unfold checkedCdiv
  split
  · exact .error _
  · exact .ok (cdiv_le_cdiv b h)

theorem Result.Grows.pages {x y : Result Nat} (h : Grows x y) (pageSize : Result Nat) :
    Grows (do return (← x) * (← pageSize)) (do return (← y) * (← pageSize)) :=
  h.bind fun _ _ hle => grows_bind fun page => .ok (Nat.mul_le_mul_right page hle)

theorem grows_checkedMemoryUsage (s : KVCacheSpec) (hle : l ≤ l') :
    Grows (s.checkedMemoryUsage { c with maxModelLen := l }) (s.checkedMemoryUsage { c with maxModelLen := l' }) := by
  have hworld : ∀ world, (if world > 1 then cdiv l world else l) ≤ if world > 1 then cdiv l' world else l' := by
    intro world
    split
    · exact cdiv_le_cdiv world hle
    · exact hle
  cases s with
  | fullAttention a headSizeV window chunk => exact (grows_checkedCdiv _ (hworld _)).pages _
  | mlaAttention a dtype => exact (grows_checkedCdiv _ (hworld _)).pages _
  | chunkedLocalAttention a chunk => exact (grows_checkedCdiv _ (min_le_min_left _ hle)).pages _
  | slidingWindow a window =>
    refine grows_bind fun _ => (grows_checkedCdiv _ (min_le_min_left _ hle)).bind fun m n h => ?_
    exact grows_bind fun page => .ok (Nat.mul_le_mul_right page (Nat.succ_le_succ h))
  | mamba m =>
    unfold KVCacheSpec.checkedMemoryUsage
    cases c.mambaCacheMode with
    | none => exact .refl _
    | all => exact (grows_checkedCdiv _ hle).pages _
    | align => exact .refl _
  | crossAttention a => exact .refl _

theorem grows_groupMemoryUsage (s : GroupSpec) (hle : l ≤ l') :
    Grows (s.maxMemoryUsageBytes { c with maxModelLen := l })
      (s.maxMemoryUsageBytes { c with maxModelLen := l' }) := by
  cases s with
  | layer spec => exact grows_checkedMemoryUsage spec hle
  | uniformType specs =>
    cases specs with
    | nil => exact .refl _
    | cons first specs =>
      refine Grows.bind (Grows.foldlM (fun layer m n h => ?_) le_rfl) fun m n h =>
        grows_bind fun page => .ok (Nat.mul_le_mul_right page h)
      refine (grows_checkedMemoryUsage layer.2 hle).bind fun usage usage' husage => grows_bind fun page => ?_
      exact (grows_checkedCdiv page husage).bind fun pages pages' hpages => .ok (max_le_max h hpages)

theorem grows_pooledMemoryUsage (first : KVCacheGroupSpec) (groups : List KVCacheGroupSpec) (hle : l ≤ l') :
    Grows (pooledMemoryUsage { c with maxModelLen := l } first groups)
      (pooledMemoryUsage { c with maxModelLen := l' } first groups) := by
  refine grows_bind fun page => (grows_groupMemoryUsage _ hle).bind fun usage usage' husage => ?_
  exact (grows_checkedCdiv page husage).bind fun blocks blocks' hblocks => .ok (Nat.mul_le_mul_left _ hblocks)

theorem grows_memoryFromGroups (groups : List KVCacheGroupSpec) (hle : l ≤ l') :
    Grows (maxMemoryUsageBytesFromGroups { c with maxModelLen := l } groups)
      (maxMemoryUsageBytesFromGroups { c with maxModelLen := l' } groups) := by
  match groups with
  | [] => exact .refl _
  | [⟨_, .uniformType specs⟩] =>
    refine Grows.foldlM (fun layer m n h => ?_) le_rfl
    exact (grows_checkedMemoryUsage layer.2 hle).bind fun usage usage' husage => .ok (Nat.add_le_add h husage)
  | [⟨names, .layer spec⟩] => exact grows_pooledMemoryUsage _ _ hle
  | ⟨names, .layer spec⟩ :: second :: groups => exact grows_pooledMemoryUsage _ _ hle
  | ⟨names, .uniformType specs⟩ :: second :: groups => exact grows_pooledMemoryUsage _ _ hle

end Growth

def Holds (c : VllmConfig) (worker : List KVCacheGroupSpec × Int) (l : Nat) : Prop :=
  ∃ usage, maxMemoryUsageBytesFromGroups { c with maxModelLen := l } worker.1 = .ok usage ∧
    (usage : Int) ≤ worker.2

section Search

variable {c : VllmConfig} {groups : List KVCacheGroupSpec} {availableMemory : Int} {l l' : Nat}

theorem Holds.of_le (h : Holds c (groups, availableMemory) l') (hle : l ≤ l') :
    Holds c (groups, availableMemory) l := by
  obtain ⟨usage, husage, hfits⟩ := h
  obtain ⟨less, hless, hle⟩ := (@grows_memoryFromGroups c l l' groups hle).ok_le husage
  exact ⟨less, hless, by omega⟩

theorem fits_cases (c : VllmConfig) (groups : List KVCacheGroupSpec) (availableMemory : Int) (l : Nat) :
    ((∃ e, fits groups availableMemory l c = (.error e, { c with maxModelLen := l }) ∧
        maxMemoryUsageBytesFromGroups { c with maxModelLen := l } groups = .error e)) ∨
      (fits groups availableMemory l c = (.ok true, { c with maxModelLen := l }) ∧
        Holds c (groups, availableMemory) l) ∨
      (fits groups availableMemory l c = (.ok false, { c with maxModelLen := l }) ∧
        ¬ Holds c (groups, availableMemory) l) := by
  have hfits : fits groups availableMemory l c =
      ((fun usage : Nat => decide ((usage : Int) ≤ availableMemory)) <$>
        maxMemoryUsageBytesFromGroups { c with maxModelLen := l } groups, { c with maxModelLen := l }) := rfl
  rw [hfits]
  cases h : maxMemoryUsageBytesFromGroups { c with maxModelLen := l } groups with
  | error e => exact .inl ⟨e, rfl, rfl⟩
  | ok usage =>
    by_cases hfits : (usage : Int) ≤ availableMemory
    · refine .inr (.inl ⟨?_, usage, h, hfits⟩)
      show (Except.ok (decide ((usage : Int) ≤ availableMemory)), _) = _
      rw [decide_eq_true hfits]
    · refine .inr (.inr ⟨?_, fun ⟨usage', h', hfits'⟩ => ?_⟩)
      · show (Except.ok (decide ((usage : Int) ≤ availableMemory)), _) = _
        rw [decide_eq_false hfits]
      · rw [h] at h'
        cases h'
        exact hfits hfits'

def FitUpTo (c : VllmConfig) (worker : List KVCacheGroupSpec × Int) (bound : Nat) (m : Int) : Prop :=
  0 ≤ m ∧ ∀ l : Nat, 1 ≤ l → l ≤ bound → (Holds c worker l ↔ (l : Int) ≤ m)

structure Window (c : VllmConfig) (worker : List KVCacheGroupSpec × Int) (bound : Nat) (left right result : Int) :
    Prop where
  left_pos : 1 ≤ left
  right_le : right ≤ bound
  result_pos : 1 ≤ result
  left_le : left - 1 ≤ result
  holds : Holds c worker result.toNat
  above : ∀ l : Nat, right < l → l ≤ bound → ¬ Holds c worker l

theorem usage_ok (h : Holds c (groups, availableMemory) l) (l' : Nat) :
    ∃ usage, maxMemoryUsageBytesFromGroups { c with maxModelLen := l' } groups = .ok usage := by
  obtain ⟨usage, husage, -⟩ := h
  rcases Nat.le_total l l' with hle | hle
  · have hgrows := @grows_memoryFromGroups c l l' groups hle
    rw [husage] at hgrows
    cases hother : maxMemoryUsageBytesFromGroups { c with maxModelLen := l' } groups with
    | ok usage' => exact ⟨usage', rfl⟩
    | error e =>
      rw [hother] at hgrows
      cases hgrows
  · obtain ⟨less, hless, -⟩ := (@grows_memoryFromGroups c l' l groups hle).ok_le husage
    exact ⟨less, hless⟩

theorem searchModelLen_ok {bound : Nat} {left right result : Int}
    (h : Window c (groups, availableMemory) bound left right result) (c' : VllmConfig)
    (hc : ∃ l, c' = { c with maxModelLen := l }) :
    ∃ m l, searchModelLen groups availableMemory left right result c' = (.ok m, { c with maxModelLen := l }) ∧
      1 ≤ m ∧ FitUpTo c (groups, availableMemory) bound m := by
  obtain ⟨start, rfl⟩ := hc
  generalize hn : (right + 1 - left).toNat = n
  induction n using Nat.strong_induction_on generalizing left right result start with
  | h n ih =>
    have hleft := h.left_pos
    rw [searchModelLen]
    split
    · rename_i hle
      obtain ⟨mid, hmid⟩ : ∃ mid : Nat, (left + right) / 2 = mid := ⟨((left + right) / 2).toNat, by omega⟩
      simp only [hmid]
      have hlow : left ≤ mid := by omega
      have hhigh : (mid : Int) ≤ right := by omega
      rcases fits_cases { c with maxModelLen := start } groups availableMemory mid with
        ⟨e, hfits, herror⟩ | ⟨hfits, hholds⟩ | ⟨hfits, hholds⟩
      · obtain ⟨usage, husage⟩ := usage_ok h.holds mid
        rw [husage] at herror
        cases herror
      · rw [hfits]
        refine ih _ ?_ ?_ mid rfl
        · omega
        · exact ⟨by omega, h.right_le, by omega, by omega, hholds, h.above⟩
      · rw [hfits]
        refine ih _ ?_ ?_ mid rfl
        · omega
        · refine ⟨h.left_pos, by have := h.right_le; omega, h.result_pos, h.left_le, h.holds, fun l hl hbound hl' => ?_⟩
          exact hholds (Holds.of_le hl' (by omega))
    · rename_i hgt
      have hresult := h.result_pos
      refine ⟨result, start, rfl, hresult, by omega, fun l hl hbound => ⟨fun hholds => ?_, fun hl' => ?_⟩⟩
      · by_contra hlarge
        have := h.left_le
        exact h.above l (by omega) hbound hholds
      · exact Holds.of_le h.holds (by omega)

theorem estimate_spec (c : VllmConfig) (groups : List KVCacheGroupSpec) (availableMemory : Int) :
    (estimateMaxModelLenFromGroups c groups availableMemory).2 = c ∧
      ((∃ e, (estimateMaxModelLenFromGroups c groups availableMemory).1 = .error e ∧
          ¬ Holds c (groups, availableMemory) 1) ∨
        ∃ m, (estimateMaxModelLenFromGroups c groups availableMemory).1 = .ok m ∧
          FitUpTo c (groups, availableMemory) c.maxModelLen m) := by
  unfold estimateMaxModelLenFromGroups
  rcases fits_cases c groups availableMemory 1 with ⟨e, hfits, herror⟩ | ⟨hfits, hholds⟩ | ⟨hfits, hholds⟩
  · change fits groups availableMemory 1 c = _ at hfits
    rw [hfits]
    refine ⟨rfl, .inl ⟨e, rfl, fun ⟨usage, husage, _⟩ => ?_⟩⟩
    change maxMemoryUsageBytesFromGroups { c with maxModelLen := 1 } groups = _ at husage
    rw [herror] at husage
    cases husage
  · change fits groups availableMemory 1 c = _ at hfits
    simp only [hfits]
    have hwindow : Window c (groups, availableMemory) c.maxModelLen 1 c.maxModelLen 1 :=
      ⟨le_rfl, le_rfl, le_rfl, by omega, hholds, fun l hl hbound => by omega⟩
    obtain ⟨m, l, hsearch, hm, hfit⟩ := searchModelLen_ok hwindow { c with maxModelLen := 1 } ⟨1, rfl⟩
    rw [hsearch]
    exact ⟨rfl, .inr ⟨m, rfl, hfit⟩⟩
  · change fits groups availableMemory 1 c = _ at hfits
    rw [hfits]
    refine ⟨rfl, .inr ⟨0, rfl, le_rfl, fun l hl hbound => ⟨fun hl' => ?_, fun hl' => by omega⟩⟩⟩
    exact absurd (Holds.of_le hl' hl) hholds

end Search

section Workers

variable {c : VllmConfig}

theorem fitWorkers_spec (c : VllmConfig) (workers : List (List KVCacheGroupSpec × Int)) {autoFitMax : Int}
    (hmax : 0 ≤ autoFitMax) :
    (∃ e, (fitWorkers autoFitMax c workers).1 = .error e ∧
        ∃ worker ∈ workers, worker.1 ≠ [] ∧ ¬ Holds c worker 1) ∨
      ∃ m, fitWorkers autoFitMax c workers = (.ok m, c) ∧ 0 ≤ m ∧ m ≤ autoFitMax ∧
        ∀ l : Nat, 1 ≤ l → l ≤ c.maxModelLen →
          ((l : Int) ≤ m ↔ (l : Int) ≤ autoFitMax ∧ ∀ worker ∈ workers, worker.1 ≠ [] → Holds c worker l) := by
  induction workers generalizing autoFitMax with
  | nil => exact .inr ⟨autoFitMax, rfl, hmax, le_rfl, fun l _ _ => ⟨fun h => ⟨h, nofun⟩, fun h => h.1⟩⟩
  | cons worker workers ih =>
    obtain ⟨groups, availableMemory⟩ := worker
    rw [fitWorkers]
    split
    · rename_i hnil
      subst hnil
      rcases ih hmax with ⟨e, herror, worker, hmem, hworker⟩ | ⟨m, hok, hm, hle, hiff⟩
      · exact .inl ⟨e, herror, worker, List.mem_cons_of_mem _ hmem, hworker⟩
      · refine .inr ⟨m, hok, hm, hle, fun l hl hbound => ?_⟩
        rw [hiff l hl hbound, List.forall_mem_cons]
        simp
    · rename_i hne
      obtain ⟨hsame, hresult⟩ := estimate_spec c groups availableMemory
      rcases hresult with ⟨e, herror, hnot⟩ | ⟨workerMax, hok, hworkerMax, hfit⟩
      · have hpair : estimateMaxModelLenFromGroups c groups availableMemory = (.error e, c) := Prod.ext herror hsame
        rw [hpair]
        exact .inl ⟨e, rfl, (groups, availableMemory), List.mem_cons_self, hne, hnot⟩
      · have hpair : estimateMaxModelLenFromGroups c groups availableMemory = (.ok workerMax, c) := Prod.ext hok hsame
        rw [hpair]
        have hnext : 0 ≤ if workerMax < autoFitMax then workerMax else autoFitMax := by
          split
          · exact hworkerMax
          · exact hmax
        rcases ih hnext with ⟨e, herror, worker, hmem, hworker⟩ | ⟨m, hok', hm, hle, hiff⟩
        · exact .inl ⟨e, herror, worker, List.mem_cons_of_mem _ hmem, hworker⟩
        · refine .inr ⟨m, hok', hm, ?_, fun l hl hbound => ?_⟩
          · split at hle <;> omega
          · rw [hiff l hl hbound, List.forall_mem_cons, ← and_assoc]
            refine and_congr_left' ⟨fun h => ?_, fun ⟨h, hholds⟩ => ?_⟩
            · refine ⟨?_, fun _ => (hfit l hl hbound).mpr ?_⟩ <;> split at h <;> omega
            · have := (hfit l hl hbound).mp (hholds hne)
              split <;> omega

/-- The estimate leaves the configuration as it found it. Fitting either raises, and some worker does
not hold even one token, or it ends with the largest length that every worker with groups holds,
and with it every smaller one. -/
theorem autoFit_spec (hmax : 1 ≤ c.maxModelLen) (workers : List (List KVCacheGroupSpec × Int)) :
    (∀ worker ∈ workers, (estimateMaxModelLenFromGroups c worker.1 worker.2).2 = c) ∧
    ((∃ e, autoFitMaxModelLen c workers = .error e ∧ ∃ worker ∈ workers, worker.1 ≠ [] ∧ ¬ Holds c worker 1) ∨
      ∃ l, autoFitMaxModelLen c workers = .ok { c with maxModelLen := l } ∧
        IsGreatest {l | l ≤ c.maxModelLen ∧
          ∀ worker ∈ workers, worker.1 ≠ [] → ∀ l', 1 ≤ l' → l' ≤ l → Holds c worker l'} l) := by
  refine ⟨fun worker _ => (estimate_spec c worker.1 worker.2).1, ?_⟩
  unfold autoFitMaxModelLen
  by_cases hempty : workers.all fun worker => worker.1 = []
  · refine .inr ⟨c.maxModelLen, if_pos hempty, ⟨le_rfl, fun worker hmem hne => ?_⟩, fun l hl => hl.1⟩
    exact absurd (of_decide_eq_true (List.all_eq_true.mp hempty worker hmem)) hne
  · rw [if_neg hempty]
    rcases fitWorkers_spec c workers (Int.natCast_nonneg c.maxModelLen) with
      ⟨e, herror, hworker⟩ | ⟨m, hok, hm, hle, hiff⟩
    · have hpair : fitWorkers c.maxModelLen c workers = (.error e, (fitWorkers c.maxModelLen c workers).2) :=
        Prod.ext herror rfl
      rw [hpair]
      exact .inl ⟨e, rfl, hworker⟩
    · rw [hok]
      have hbest : 1 ≤ m → IsGreatest {l | l ≤ c.maxModelLen ∧
          ∀ worker ∈ workers, worker.1 ≠ [] → ∀ l', 1 ≤ l' → l' ≤ l → Holds c worker l'} m.toNat := by
        intro hpos
        refine ⟨⟨by omega, fun worker hmem hne l' hl' hle' => ?_⟩, fun l ⟨hbound, hall⟩ => ?_⟩
        · exact ((hiff l' hl' (by omega)).mp (by omega)).2 worker hmem hne
        · rcases Nat.eq_zero_or_pos l with rfl | hl
          · exact Nat.zero_le _
          · have := (hiff l hl hbound).mpr ⟨by omega, fun worker hmem hne => hall worker hmem hne l hl le_rfl⟩
            omega
      by_cases hzero : m ≤ 0
      · refine .inl ⟨_, if_pos hzero, ?_⟩
        by_contra hnone
        have hone := (hiff 1 le_rfl hmax).mpr ⟨by omega, fun worker hmem hne => by
          by_contra hnot
          exact hnone ⟨worker, hmem, hne, hnot⟩⟩
        omega
      · refine .inr ⟨m.toNat, ?_, hbest (by omega)⟩
        show (if m ≤ 0 then _ else if m ≥ (c.maxModelLen : Int) then Except.ok c
          else Except.ok { c with maxModelLen := m.toNat }) = _
        rw [if_neg hzero]
        by_cases hfull : m ≥ c.maxModelLen
        · rw [if_pos hfull]
          have hsame : m.toNat = c.maxModelLen := by omega
          rw [hsame]
        · rw [if_neg hfull]

theorem autoFit_threeBlocks :
    let c : VllmConfig := { maxModelLen := 100, maxNumBatchedTokens := 100 }
    let group : KVCacheGroupSpec := ⟨["layer"], .layer (.fullAttention ⟨16, 1, 1, .float16, none⟩ 1 none none)⟩
    (∀ worker ∈ [([group], (200 : Int))], (estimateMaxModelLenFromGroups c worker.1 worker.2).2 = c) ∧
    ((∃ e, autoFitMaxModelLen c [([group], 200)] = .error e ∧
        ∃ worker ∈ [([group], (200 : Int))], worker.1 ≠ [] ∧ ¬ Holds c worker 1) ∨
      ∃ l, autoFitMaxModelLen c [([group], 200)] = .ok { c with maxModelLen := l } ∧
        IsGreatest {l | l ≤ c.maxModelLen ∧
          ∀ worker ∈ [([group], (200 : Int))], worker.1 ≠ [] → ∀ l', 1 ≤ l' → l' ≤ l → Holds c worker l'} l) :=
  autoFit_spec (by decide) _

/-- A worker without groups is passed over, also when its memory is negative. -/
theorem autoFit_negativeMemory :
    let c : VllmConfig := { maxModelLen := 1, maxNumBatchedTokens := 1 }
    autoFitMaxModelLen c [([], -1)] = .ok c ∧ ¬ Holds c ([], -1) 1 := by
  refine ⟨rfl, fun ⟨usage, husage, hfits⟩ => ?_⟩
  change (usage : Int) ≤ -1 at hfits
  omega

end Workers

end Vllm
