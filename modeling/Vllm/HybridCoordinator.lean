import Mathlib.Data.List.Nodup
import Vllm.HybridHit

/-! The lookup of the hybrid coordinator: its loop ends at a length that every group accepts, and
the lists of the groups are cut to that length, except for full attention groups that are not the
first. -/

namespace Vllm

open BlockPool

namespace KVCacheManagerConfig

structure Splits (l : List (KVCacheSpec × Nat)) (gs : List AttentionGroup) : Prop where
  nonempty : ∀ g ∈ gs, g.groupIds ≠ []
  specs : ∀ g ∈ gs, ∀ i ∈ g.groupIds, (g.spec, i) ∈ l
  perm : (gs.flatMap AttentionGroup.groupIds).Perm (l.map Prod.snd)

theorem mem_addToGroups {spec : KVCacheSpec} {i : Nat} {gs : List AttentionGroup}
    {g : AttentionGroup} (h : g ∈ addToGroups spec i gs) :
    g ∈ gs ∨ (g.spec = spec ∧ ∃ ids, g.groupIds = ids ++ [i] ∧
      (ids = [] ∨ ∃ g' ∈ gs, g'.spec = spec ∧ g'.groupIds = ids)) := by
  induction gs with
  | nil =>
    cases List.mem_singleton.mp h
    exact .inr ⟨rfl, [], rfl, .inl rfl⟩
  | cons x gs ih =>
    unfold addToGroups at h
    split at h
    · rename_i hx
      rcases List.mem_cons.mp h with rfl | h
      · exact .inr ⟨hx, x.groupIds, rfl, .inr ⟨x, List.mem_cons_self, hx, rfl⟩⟩
      · exact .inl (List.mem_cons_of_mem _ h)
    · rcases List.mem_cons.mp h with rfl | h
      · exact .inl List.mem_cons_self
      · rcases ih h with h | ⟨hs, ids, hids, hor⟩
        · exact .inl (List.mem_cons_of_mem _ h)
        · refine .inr ⟨hs, ids, hids, hor.imp_right ?_⟩
          rintro ⟨g', hg', hrest⟩
          exact ⟨g', List.mem_cons_of_mem _ hg', hrest⟩

theorem flatMap_addToGroups (spec : KVCacheSpec) (i : Nat) (gs : List AttentionGroup) :
    ((addToGroups spec i gs).flatMap AttentionGroup.groupIds).Perm
      (gs.flatMap AttentionGroup.groupIds ++ [i]) := by
  induction gs with
  | nil => exact List.Perm.refl _
  | cons x gs ih =>
    unfold addToGroups
    split
    · simp only [List.flatMap_cons, List.append_assoc]
      exact List.Perm.append_left _ List.perm_append_comm
    · simp only [List.flatMap_cons, List.append_assoc]
      exact List.Perm.append_left _ ih

theorem Splits.add {l : List (KVCacheSpec × Nat)} {gs : List AttentionGroup} (h : Splits l gs)
    (p : KVCacheSpec × Nat) : Splits (l ++ [p]) (addToGroups p.1 p.2 gs) := by
  constructor
  case nonempty =>
    intro g hg
    rcases mem_addToGroups hg with hg | ⟨-, ids, hids, -⟩
    · exact h.nonempty g hg
    · rw [hids]
      simp
  case specs =>
    intro g hg i hi
    rcases mem_addToGroups hg with hg | ⟨hs, ids, hids, hor⟩
    · exact List.mem_append_left _ (h.specs g hg i hi)
    · rw [hids, List.mem_append, List.mem_singleton] at hi
      rcases hi with hi | rfl
      · rcases hor with rfl | ⟨g', hg', hs', rfl⟩
        · cases hi
        · rw [hs, ← hs']
          exact List.mem_append_left _ (h.specs g' hg' i hi)
      · rw [hs]
        simp
  case perm =>
    refine (flatMap_addToGroups p.1 p.2 gs).trans ?_
    rw [List.map_append]
    exact h.perm.append_right _

variable (c : KVCacheManagerConfig)

theorem splitGroups_splits : Splits c.kvCacheGroups.zipIdx c.splitGroups := by
  have hfold : ∀ (l done : List (KVCacheSpec × Nat)) (gs : List AttentionGroup), Splits done gs →
      Splits (done ++ l) (l.foldl (fun gs p => addToGroups p.1 p.2 gs) gs) := by
    intro l
    induction l with
    | nil =>
      intro done gs h
      rw [List.append_nil]
      exact h
    | cons p l ih =>
      intro done gs h
      have := ih (done ++ [p]) _ (h.add p)
      rwa [List.append_assoc] at this
  exact hfold c.kvCacheGroups.zipIdx [] [] ⟨nofun, nofun, List.Perm.refl _⟩

theorem attentionGroups_perm : c.attentionGroups.Perm c.splitGroups := List.filter_append_perm _ _

theorem attentionGroups_spec {g : AttentionGroup} (hg : g ∈ c.attentionGroups) :
    g.groupIds ≠ [] ∧ ∀ i ∈ g.groupIds, c.kvCacheGroups[i]? = some g.spec := by
  have hg := c.attentionGroups_perm.mem_iff.mp hg
  refine ⟨c.splitGroups_splits.nonempty g hg, fun i hi => ?_⟩
  exact List.mem_zipIdx_iff_getElem?.mp (c.splitGroups_splits.specs g hg i hi)

theorem attentionGroups_ids : (c.attentionGroups.flatMap AttentionGroup.groupIds).Perm
    (List.range c.kvCacheGroups.length) := by
  refine (c.attentionGroups_perm.flatMap_right _).trans (c.splitGroups_splits.perm.trans ?_)
  rw [List.zipIdx_map_snd, List.range_eq_range']

theorem blockSize_dvd_lcm {g : AttentionGroup} (hg : g ∈ c.attentionGroups) :
    g.spec.blockSize ∣ c.lcmBlockSize := by
  have hfold : ∀ (l : List Nat) (m n : Nat), (n ∣ m ∨ n ∈ l) → n ∣ l.foldl Nat.lcm m := by
    intro l
    induction l with
    | nil => exact fun m n h => h.resolve_right nofun
    | cons x l ih =>
      intro m n h
      refine ih (m.lcm x) n ?_
      rcases h with h | h
      · exact .inl (h.trans (Nat.dvd_lcm_left m x))
      · rcases List.mem_cons.mp h with rfl | h
        · exact .inl (Nat.dvd_lcm_right m n)
        · exact .inr h
  refine hfold _ _ _ (.inr ?_)
  exact List.mem_map_of_mem (c.attentionGroups_perm.mem_iff.mp hg)

/-- The configurations that the coordinator and the lookups of its groups accept. -/
structure Hybrid : Prop where
  hashBlockSize : 0 < c.hashBlockSize
  blockSize : ∀ spec ∈ c.kvCacheGroups, 0 < spec.blockSize ∧ c.hashBlockSize ∣ spec.blockSize
  several : 1 < c.attentionGroups.length
  sliding : ∀ a w, .slidingWindow a w ∈ c.kvCacheGroups → c.useEagle = true →
    a.blockSize = c.lcmBlockSize
  chunked : ∀ a k, .chunkedLocalAttention a k ∈ c.kvCacheGroups →
    c.useEagle = false ∧ a.blockSize = c.lcmBlockSize ∧ a.blockSize ∣ k
  cross : ∀ spec ∈ c.kvCacheGroups, spec.isCrossAttention = false

variable {c} {g : AttentionGroup} (pool : BlockPool) (hashes : List BlockHash)

theorem Hybrid.mem_kvCacheGroups (hg : g ∈ c.attentionGroups) : g.spec ∈ c.kvCacheGroups := by
  obtain ⟨hne, hspec⟩ := c.attentionGroups_spec hg
  obtain ⟨i, hi⟩ := List.exists_mem_of_ne_nil _ hne
  exact List.mem_of_getElem? (hspec i hi)

theorem Hybrid.accepts (h : c.Hybrid) (hg : g ∈ c.attentionGroups) :
    CacheHit.Accepts g.spec (c.lookup pool hashes g) := by
  have hmem := Hybrid.mem_kvCacheGroups hg
  constructor
  case pos => exact (h.blockSize g.spec hmem).1
  case sliding =>
    intro a w hs heagle
    have hbs : (c.lookup pool hashes g).blockSize = a.blockSize := by
      show g.spec.blockSize = _
      rw [hs]
      rfl
    rw [hbs]
    exact h.sliding a w (hs ▸ hmem) heagle
  case chunked =>
    intro a k hs
    have hbs : (c.lookup pool hashes g).blockSize = a.blockSize := by
      show g.spec.blockSize = _
      rw [hs]
      rfl
    rw [hbs]
    exact h.chunked a k (hs ▸ hmem)
  case cross => exact h.cross g.spec hmem

theorem Hybrid.length_blockHashesFor (h : c.Hybrid) (hg : g ∈ c.attentionGroups) :
    (blockHashesFor c.toPoolConfig g.spec.blockSize hashes).length =
      hashes.length * c.hashBlockSize / g.spec.blockSize := by
  obtain ⟨hpos, k, hk⟩ := h.blockSize g.spec (Hybrid.mem_kvCacheGroups hg)
  have hh := h.hashBlockSize
  have hdiv : hashes.length * c.hashBlockSize / g.spec.blockSize = hashes.length / k := by
    rw [hk, Nat.mul_comm, Nat.mul_div_mul_left _ _ hh]
  rw [hdiv]
  unfold blockHashesFor
  split
  · rename_i heq
    have hone : k = 1 := by
      rw [heq] at hk
      exact Nat.eq_of_mul_eq_mul_left hh (by omega)
    rw [hone, Nat.div_one]
  · rw [coarseBlockHashes, List.length_map, List.length_range, hk, Nat.mul_div_cancel_left k hh]

/-- Every hash block below the length has a hash. -/
def Covered (c : KVCacheManagerConfig) (hashes : List BlockHash) (L : Nat) : Prop :=
  L / c.hashBlockSize ≤ hashes.length

variable {hashes} in
theorem Covered.mono {L L' : Nat} (h : c.Covered hashes L) (hle : L' ≤ L) : c.Covered hashes L' :=
  (Nat.div_le_div_right hle).trans h

theorem Hybrid.find (h : c.Hybrid) (hg : g ∈ c.attentionGroups) {L : Nat}
    (hL : g.spec.isFullAttention = true ∨ c.Covered hashes L) :
    ∃ rows, CacheHit.Finds g.spec (c.lookup pool hashes g) L rows ∧
      c.lcmBlockSize ∣ rows.length * g.spec.blockSize ∧
      c.Covered hashes (rows.length * g.spec.blockSize) := by
  have hlen : (c.lookup pool hashes g).blockHashes.length =
      hashes.length * c.hashBlockSize / g.spec.blockSize := h.length_blockHashesFor hashes hg
  obtain ⟨-, k, hk⟩ := h.blockSize g.spec (Hybrid.mem_kvCacheGroups hg)
  have hbound : c.Covered hashes L →
      L / g.spec.blockSize ≤ (c.lookup pool hashes g).blockHashes.length := by
    intro hL
    rw [hlen, hk, ← Nat.div_div_eq_div_mul, ← Nat.div_div_eq_div_mul,
      Nat.mul_div_cancel _ h.hashBlockSize]
    exact Nat.div_le_div_right hL
  obtain ⟨rows, hrows⟩ := CacheHit.find_spec (h.accepts pool hashes hg) L (hL.imp_right hbound)
  refine ⟨rows, hrows, hrows.aligned, ?_⟩
  have hhashed := hrows.hashed
  rw [hlen] at hhashed
  have hle : rows.length * g.spec.blockSize ≤ hashes.length * c.hashBlockSize :=
    (Nat.mul_le_mul_right _ hhashed).trans (Nat.div_mul_le_self _ _)
  exact (Nat.div_le_div_right hle).trans (Nat.mul_div_cancel _ h.hashBlockSize).le

end KVCacheManagerConfig

section Columns

variable {rows : List HitRow} {ids : List Nat} {f : HitBlocks}

theorem foldl_assign_of_ne {i : Nat} (l : List (Nat × Nat)) (f : HitBlocks) (h : ∀ p ∈ l, p.1 ≠ i) :
    l.foldl (fun (f : HitBlocks) p =>
      Function.update f p.1 (some (CacheHit.column rows p.2))) f i = f i := by
  induction l generalizing f with
  | nil => rfl
  | cons p l ih =>
    rw [List.foldl_cons, ih _ fun p' hp' => h p' (List.mem_cons_of_mem p hp'),
      Function.update_of_ne (h p List.mem_cons_self).symm]

theorem assignColumns_of_notMem {i : Nat} (hi : i ∉ ids) : assignColumns rows ids f i = f i := by
  refine foldl_assign_of_ne _ f fun p hp heq => hi ?_
  have := List.mem_zipIdx_iff_getElem?.mp (show (p.1, p.2) ∈ ids.zipIdx from hp)
  exact heq ▸ List.mem_of_getElem? this

theorem assignColumns_of_getElem? (hids : ids.Nodup) {k i : Nat} (hk : ids[k]? = some i) :
    assignColumns rows ids f i = some (CacheHit.column rows k) := by
  have hfold : ∀ (l : List Nat) (n : Nat) (f : HitBlocks), l.Nodup → ∀ k, l[k]? = some i →
      (l.zipIdx n).foldl (fun (f : HitBlocks) p =>
        Function.update f p.1 (some (CacheHit.column rows p.2))) f i =
          some (CacheHit.column rows (n + k)) := by
    intro l
    induction l with
    | nil => exact fun _ _ _ k hk => by simp at hk
    | cons x l ih =>
      intro n f hl k hk
      rw [List.nodup_cons] at hl
      rw [List.zipIdx_cons, List.foldl_cons]
      cases k with
      | zero =>
        rw [List.getElem?_cons_zero, Option.some_inj] at hk
        subst hk
        rw [foldl_assign_of_ne, Function.update_self]
        · rfl
        · rintro p hp rfl
          exact hl.1 (List.fst_mem_of_mem_zipIdx hp)
      | succ k =>
        rw [ih (n + 1) _ hl.2 k hk]
        congr 2
        omega
  rw [assignColumns, hfold ids 0 f hids k hk, Nat.zero_add]

end Columns

namespace KVCacheManager

variable {c : KVCacheManagerConfig} {pool : BlockPool} {hashes : List BlockHash}
variable {gs : List AttentionGroup} {g : AttentionGroup} {f f' : HitBlocks} {L L' : Nat}

def Holds (f : HitBlocks) (g : AttentionGroup) (rows : List HitRow) : Prop :=
  ∀ k i : Nat, g.groupIds[k]? = some i → f i = some (CacheHit.column rows k)

def Reused (f : HitBlocks) (g : AttentionGroup) : Prop :=
  g.spec.isFullAttention = true ∧ (g.groupIds.head?.bind f).isSome = true

def AcceptsLength (c : KVCacheManagerConfig) (pool : BlockPool) (hashes : List BlockHash)
    (g : AttentionGroup) (L : Nat) : Prop :=
  ∃ rows, CacheHit.find g.spec (c.lookup pool hashes g) L = .ok rows ∧
    rows.length * g.spec.blockSize = L

structure Pass (c : KVCacheManagerConfig) (pool : BlockPool) (hashes : List BlockHash)
    (gs : List AttentionGroup) (L : Nat) (f : HitBlocks) (L' : Nat) (f' : HitBlocks) : Prop where
  ok : hybridPass c pool hashes gs L f = .ok ((L' : Int), f')
  le : L' ≤ L
  aligned : gs ≠ [] → c.lcmBlockSize ∣ L'
  covered : gs ≠ [] → c.Covered hashes L'
  frame : ∀ i, (∀ g ∈ gs, ¬ Reused f g → i ∉ g.groupIds) → f' i = f i
  found : ∀ g ∈ gs, ¬ Reused f g → ∃ rows, Holds f' g rows ∧
    CacheHit.Valid g.spec (c.lookup pool hashes g) rows ∧
    L' ≤ rows.length * g.spec.blockSize ∧ rows.length * g.spec.blockSize ≤ L ∧
    (gs.getLast? = some g → rows.length * g.spec.blockSize = L')
  accepted : L' = L ↔ ∀ g ∈ gs, ¬ Reused f g → AcceptsLength c pool hashes g L

theorem Pass.nil (c : KVCacheManagerConfig) (pool : BlockPool) (hashes : List BlockHash) (L : Nat)
    (f : HitBlocks) : Pass c pool hashes [] L f L f :=
  ⟨rfl, Nat.le_refl L, fun h => absurd rfl h, fun h => absurd rfl h, fun _ _ => rfl, nofun,
    iff_of_true rfl nofun⟩

theorem Pass.reuse (hreused : Reused f g) (hbs : g.spec.blockSize ∣ c.lcmBlockSize)
    (hL : c.lcmBlockSize ∣ L) (hb : c.Covered hashes L) (h : Pass c pool hashes gs L f L' f') :
    Pass c pool hashes (g :: gs) L f L' f' where
  ok := by
    have hdvd : L / g.spec.blockSize * g.spec.blockSize = L := Nat.div_mul_cancel (hbs.trans hL)
    have hcast : (L : Int) / (g.spec.blockSize : Int) * (g.spec.blockSize : Int) = L := by
      exact_mod_cast hdvd
    rw [hybridPass, if_pos ⟨hreused.1, hreused.2⟩, hcast]
    exact h.ok
  le := h.le
  aligned := fun _ => by
    cases gs with
    | nil =>
      rw [h.accepted.mpr nofun]
      exact hL
    | cons g' gs => exact h.aligned (by simp)
  covered := fun _ => hb.mono h.le
  frame := fun i hi => h.frame i fun g' hg' => hi g' (List.mem_cons_of_mem g hg')
  found := by
    intro g' hg' hnot
    rcases List.mem_cons.mp hg' with rfl | hg'
    · exact absurd hreused hnot
    · obtain ⟨rows, hholds, hvalid, hle, hge, hlast⟩ := h.found g' hg' hnot
      refine ⟨rows, hholds, hvalid, hle, hge, fun heq => hlast ?_⟩
      rwa [List.getLast?_cons_of_ne_nil (List.ne_nil_of_mem hg')] at heq
  accepted := by
    rw [h.accepted]
    constructor
    · intro hall g' hg' hnot
      rcases List.mem_cons.mp hg' with rfl | hg'
      · exact absurd hreused hnot
      · exact hall g' hg' hnot
    · exact fun hall g' hg' => hall g' (List.mem_cons_of_mem g hg')

theorem Pass.look {rows : List HitRow} (hnot : ¬ Reused f g) (hne : g.groupIds ≠ [])
    (hnd : g.groupIds.Nodup)
    (hdisj : ∀ i ∈ g.groupIds, ∀ g' ∈ gs, i ∉ g'.groupIds)
    (hrows : CacheHit.Finds g.spec (c.lookup pool hashes g) L rows)
    (haligned : c.lcmBlockSize ∣ rows.length * g.spec.blockSize)
    (hb : c.Covered hashes (rows.length * g.spec.blockSize))
    (hreused : ∀ g' ∈ gs, Reused (assignColumns rows g.groupIds f) g' ↔ Reused f g')
    (h : Pass c pool hashes gs (rows.length * g.spec.blockSize)
      (assignColumns rows g.groupIds f) L' f') :
    Pass c pool hashes (g :: gs) L f L' f' := by
  have hle : rows.length * g.spec.blockSize ≤ L := hrows.le
  have hfind := hrows.find
  constructor
  case ok =>
    rw [hybridPass, if_neg fun hr => hnot ⟨hr.1, hr.2⟩, hfind, Result.ok_bind]
    have := h.ok
    push_cast at this
    exact this
  case le => exact h.le.trans hle
  case aligned =>
    intro _
    cases gs with
    | nil =>
      rw [h.accepted.mpr nofun]
      exact haligned
    | cons g' gs => exact h.aligned (by simp)
  case covered => exact fun _ => hb.mono h.le
  case frame =>
    intro i hi
    rw [h.frame i fun g' hg' hr => hi g' (List.mem_cons_of_mem g hg') fun hr' =>
      hr ((hreused g' hg').mpr hr'), assignColumns_of_notMem (hi g List.mem_cons_self hnot)]
  case found =>
    intro g' hg' hnot'
    rcases List.mem_cons.mp hg' with rfl | hg'
    · refine ⟨rows, fun k i hk => ?_, hrows.valid, h.le, hle, fun hlast => ?_⟩
      · rw [h.frame i fun x hx _ => hdisj i (List.mem_of_getElem? hk) x hx,
          assignColumns_of_getElem? hnd hk]
      · cases gs with
        | nil => exact (h.accepted.mpr nofun).symm
        | cons x gs =>
          rw [List.getLast?_cons_of_ne_nil (List.cons_ne_nil x gs)] at hlast
          obtain ⟨i, hi⟩ := List.exists_mem_of_ne_nil _ hne
          exact absurd hi (hdisj i hi _ (List.mem_of_getLast? hlast))
    · obtain ⟨rows', hholds, hvalid, hlo, hhi, hlast⟩ := h.found g' hg' fun hr =>
        hnot' ((hreused g' hg').mp hr)
      refine ⟨rows', hholds, hvalid, hlo, hhi.trans hle, fun heq => hlast ?_⟩
      rwa [List.getLast?_cons_of_ne_nil (List.ne_nil_of_mem hg')] at heq
  case accepted =>
    constructor
    · intro heq
      have h₁ := h.le
      have hL₁ : rows.length * g.spec.blockSize = L := by omega
      have hall := h.accepted.mp (by omega)
      rw [hL₁] at hall
      intro g' hg' hnot'
      rcases List.mem_cons.mp hg' with rfl | hg'
      · exact ⟨rows, hfind, hL₁⟩
      · exact hall g' hg' fun hr => hnot' ((hreused g' hg').mp hr)
    · intro hall
      obtain ⟨rows', hfind', hlen⟩ := hall g List.mem_cons_self hnot
      rw [hfind] at hfind'
      cases hfind'
      rw [← hlen]
      refine h.accepted.mpr fun g' hg' hr => ?_
      rw [hlen]
      exact hall g' (List.mem_cons_of_mem g hg') fun hr' => hr ((hreused g' hg').mpr hr')

structure Groups (c : KVCacheManagerConfig) (gs : List AttentionGroup) : Prop where
  mem : ∀ g ∈ gs, g ∈ c.attentionGroups
  nodup : (gs.flatMap AttentionGroup.groupIds).Nodup

theorem Groups.tail (h : Groups c (g :: gs)) : Groups c gs :=
  ⟨fun x hx => h.mem x (List.mem_cons_of_mem g hx), by
    have := h.nodup
    rw [List.flatMap_cons] at this
    exact (List.nodup_append.mp this).2.1⟩

theorem Groups.head (h : Groups c (g :: gs)) :
    g.groupIds.Nodup ∧ ∀ i ∈ g.groupIds, ∀ g' ∈ gs, i ∉ g'.groupIds := by
  have := h.nodup
  rw [List.flatMap_cons, List.nodup_append] at this
  refine ⟨this.1, fun i hi g' hg' hi' => ?_⟩
  exact this.2.2 i hi i (List.mem_flatMap.mpr ⟨g', hg', hi'⟩) rfl

theorem Groups.unique (h : Groups c gs) {g' : AttentionGroup} (hg : g ∈ gs) (hg' : g' ∈ gs) {i : Nat}
    (hi : i ∈ g.groupIds) (hi' : i ∈ g'.groupIds) : g = g' := by
  induction gs with
  | nil => cases hg
  | cons x gs ih =>
    obtain ⟨-, hdisj⟩ := h.head
    rcases List.mem_cons.mp hg with rfl | hmem
    · rcases List.mem_cons.mp hg' with rfl | hmem'
      · rfl
      · exact absurd hi' (hdisj i hi g' hmem')
    · rcases List.mem_cons.mp hg' with rfl | hmem'
      · exact absurd hi (hdisj i hi' g hmem)
      · exact ih h.tail hmem hmem'

theorem reused_congr (h : ∀ i ∈ g.groupIds, f' i = f i) : Reused f' g ↔ Reused f g := by
  unfold Reused
  cases hhead : g.groupIds.head? with
  | none => rfl
  | some i => simp only [Option.bind_some, h i (List.mem_of_mem_head? hhead)]

theorem Groups.reused_assign (h : Groups c (g :: gs)) (rows : List HitRow) (f : HitBlocks) :
    ∀ g' ∈ gs, Reused (assignColumns rows g.groupIds f) g' ↔ Reused f g' :=
  fun g' hg' => reused_congr fun i hi' =>
    assignColumns_of_notMem fun hi => h.head.2 i hi g' hg' hi'

theorem pass_spec (pool : BlockPool) (hc : c.Hybrid) (hgs : Groups c gs)
    (hL : (∃ g ∈ gs, Reused f g) → c.lcmBlockSize ∣ L)
    (hb : c.Covered hashes L ∨
      ∀ g ∈ gs.head?, g.spec.isFullAttention = true ∧ ¬ Reused f g) :
    ∃ L' f', Pass c pool hashes gs L f L' f' := by
  induction gs generalizing L f with
  | nil => exact ⟨L, f, .nil c pool hashes L f⟩
  | cons g gs ih =>
    have hg := hgs.mem g List.mem_cons_self
    by_cases hr : Reused f g
    · have hb : c.Covered hashes L :=
        hb.resolve_right fun hall => (hall g rfl).2 hr
      have hL := hL ⟨g, List.mem_cons_self, hr⟩
      obtain ⟨L', f', hpass⟩ := ih hgs.tail (fun _ => hL) (.inl hb)
      exact ⟨L', f', hpass.reuse hr (c.blockSize_dvd_lcm hg) hL hb⟩
    · obtain ⟨rows, hrows, haligned, hbound⟩ := hc.find pool hashes hg (L := L)
        (hb.symm.imp_left fun hall => (hall g rfl).1)
      obtain ⟨hnd, hdisj⟩ := hgs.head
      obtain ⟨L', f', hpass⟩ := ih (L := rows.length * g.spec.blockSize)
        (f := assignColumns rows g.groupIds f) hgs.tail (fun _ => haligned) (.inl hbound)
      exact ⟨L', f', hpass.look hr (c.attentionGroups_spec hg).1 hnd hdisj hrows haligned hbound
        (hgs.reused_assign rows f)⟩

theorem groups_attentionGroups (c : KVCacheManagerConfig) : Groups c c.attentionGroups :=
  ⟨fun _ h => h, c.attentionGroups_ids.nodup_iff.mpr List.nodup_range⟩

structure Ends (c : KVCacheManagerConfig) (pool : BlockPool) (hashes : List BlockHash) (L : Nat)
    (f : HitBlocks) (H : Nat) (f' : HitBlocks) : Prop where
  le : H ≤ L
  aligned : c.lcmBlockSize ∣ H
  keep : ∀ g ∈ c.attentionGroups, g.spec.isFullAttention = true → ∀ i ∈ g.groupIds, f' i = f i
  other : ∀ g ∈ c.attentionGroups, g.spec.isFullAttention = false → ∃ rows, Holds f' g rows ∧
    CacheHit.Valid g.spec (c.lookup pool hashes g) rows ∧ rows.length * g.spec.blockSize = H
  accepted : (∀ g ∈ c.attentionGroups, g.spec.isFullAttention = false →
    AcceptsLength c pool hashes g L) → H = L

theorem hybridLoop_spec (hc : c.Hybrid) (hsimple : c.isSimpleHybrid = false) {fuel : Nat}
    (hfuel : L < fuel) (hL : c.lcmBlockSize ∣ L) (hb : c.Covered hashes L)
    (hfull : ∀ g ∈ c.attentionGroups, g.spec.isFullAttention = true → Reused f g) :
    ∃ (H : Nat) (f' : HitBlocks), hybridLoop c pool hashes fuel L f = .ok ((H : Int), f') ∧
      Ends c pool hashes L f H f' := by
  induction fuel generalizing L f with
  | zero => exact absurd hfuel (Nat.not_lt_zero L)
  | succ fuel ih =>
    obtain ⟨L', f₁, hpass⟩ := pass_spec pool hc (groups_attentionGroups c)
      (fun _ => hL) (.inl hb)
    have hne : c.attentionGroups ≠ [] := by
      have := hc.several
      exact List.ne_nil_of_length_pos (by omega)
    have hother : ∀ g ∈ c.attentionGroups, g.spec.isFullAttention = false → ¬ Reused f g := by
      intro g _ hg hr
      have := hr.1
      rw [hg] at this
      cases this
    have hkeep : ∀ g ∈ c.attentionGroups, g.spec.isFullAttention = true → ∀ i ∈ g.groupIds,
        f₁ i = f i := by
      intro g hg hgf i hi
      refine hpass.frame i fun g' hg' hnot hi' => hnot ?_
      rw [← (groups_attentionGroups c).unique hg hg' hi hi']
      exact hfull g hg hgf
    unfold hybridLoop
    rw [hpass.ok, Result.ok_bind]
    simp only
    split
    · rename_i hge
      have heq : L' = L := by
        have := hpass.le
        omega
      refine ⟨L, f₁, rfl, Nat.le_refl L, hL, hkeep, fun g hg hgo => ?_, fun _ => rfl⟩
      obtain ⟨rows, hholds, hvalid, hlo, hhi, -⟩ := hpass.found g hg (hother g hg hgo)
      exact ⟨rows, hholds, hvalid, by omega⟩
    · rename_i hlt
      have hlt : L' < L := by omega
      rw [if_neg (by simp [hsimple])]
      obtain ⟨H, f', hok, hends⟩ := ih (by omega)
        (hpass.aligned hne) (hpass.covered hne)
        (fun g hg hgf => (reused_congr (hkeep g hg hgf)).mpr (hfull g hg hgf))
      refine ⟨H, f', hok, hends.le.trans hpass.le, hends.aligned, fun g hg hgf i hi => ?_,
        hends.other, fun hall => ?_⟩
      · rw [hends.keep g hg hgf i hi, hkeep g hg hgf i hi]
      · have := hpass.accepted.mpr fun g hg hnot => by
          cases hgf : g.spec.isFullAttention with
          | true => exact absurd (hfull g hg hgf) hnot
          | false => exact hall g hg hgf
        omega

theorem not_reused_none (g : AttentionGroup) : ¬ Reused (fun _ => none) g := by
  rintro ⟨-, h⟩
  cases hhead : g.groupIds.head? with
  | none =>
    rw [hhead] at h
    cases h
  | some i =>
    rw [hhead] at h
    cases h

theorem Holds.reused {rows : List HitRow} (h : Holds f g rows) (hne : g.groupIds ≠ [])
    (hfull : g.spec.isFullAttention = true) : Reused f g := by
  refine ⟨hfull, ?_⟩
  obtain ⟨i, ids, hids⟩ := List.exists_cons_of_ne_nil hne
  rw [hids, List.head?_cons, Option.bind_some, h 0 i (by rw [hids]; rfl)]
  rfl

theorem pairwise_attentionGroups (c : KVCacheManagerConfig) : c.attentionGroups.Pairwise
    fun g g' => g'.spec.isFullAttention = true → g.spec.isFullAttention = true := by
  refine List.pairwise_append.mpr ⟨?_, ?_, ?_⟩
  · refine List.pairwise_of_forall_mem_list fun g hg g' _ _ => ?_
    exact (List.mem_filter.mp hg).2
  · refine List.pairwise_of_forall_mem_list fun g _ g' hg' hfull => ?_
    have := (List.mem_filter.mp hg').2
    rw [hfull] at this
    cases this
  · exact fun g hg g' _ _ => (List.mem_filter.mp hg).2

end KVCacheManager

end Vllm
