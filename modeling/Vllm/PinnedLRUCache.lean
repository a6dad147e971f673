import Mathlib.Algebra.Order.BigOperators.Group.List
import Mathlib.Algebra.Order.Ring.Nat
import Mathlib.Data.Finset.Erase
import Vllm.Lib.Run
import Vllm.LRUCache

universe u v

namespace Vllm

structure PinnedLRUCache (κ : Type u) (α : Type v) extends LRUCache κ α where
  pinnedItems : Finset κ

namespace PinnedLRUCache

variable {κ : Type u} {α : Type v} [DecidableEq κ] (getsizeof : α → Nat)

def init (maxsize : Nat) : PinnedLRUCache κ α := { LRUCache.init maxsize with pinnedItems := ∅ }

def touch (c : PinnedLRUCache κ α) (key : κ) : PinnedLRUCache κ α :=
  { c with toLRUCache := c.toLRUCache.touch key }

def get (c : PinnedLRUCache κ α) (key : κ) : Option α × PinnedLRUCache κ α :=
  let (value, cache) := c.toLRUCache.get key
  (value, { c with toLRUCache := cache })

def pin (c : PinnedLRUCache κ α) (key : κ) : Result (PinnedLRUCache κ α) :=
  if c.contains key then .ok { c with pinnedItems := insert key c.pinnedItems }
  else .error (.valueError "Cannot pin key: not in cache.")

def pop (c : PinnedLRUCache κ α) (key : κ) : PinnedLRUCache κ α where
  toLRUCache := c.toLRUCache.pop getsizeof key
  pinnedItems := if c.contains key then c.pinnedItems.erase key else c.pinnedItems

def popitem (c : PinnedLRUCache κ α) (removePinned : Bool) : Result (PinnedLRUCache κ α) :=
  match c.order.find? fun key => removePinned || key ∉ c.pinnedItems with
  | none => .error (.runtimeError "All items are pinned, cannot remove oldest from the cache.")
  | some lruKey => .ok (c.pop getsizeof lruKey)

/-- The `while` loop of `__setitem__`. -/
def makeRoom (size : Nat) : Nat → PinnedLRUCache κ α → Result (PinnedLRUCache κ α)
  | 0, _ => .error (.runtimeError "out of fuel")
  | fuel + 1, c =>
    if c.currsize + size > c.maxsize then do
      let c ← c.popitem getsizeof false
      makeRoom size fuel c
    else .ok c

def grows (c : PinnedLRUCache κ α) (key : κ) (value : α) : Bool :=
  match c.data.get? key with
  | none => true
  | some old => getsizeof old < getsizeof value

def setItem (c : PinnedLRUCache κ α) (key : κ) (value : α) : Result (PinnedLRUCache κ α) :=
  let size := getsizeof value
  if size > c.maxsize then .error (.valueError "value too large")
  else do
    let c ← if c.grows getsizeof key value then c.makeRoom getsizeof size (c.order.length + 1)
      else .ok c
    let oldSize := ((c.data.get? key).map getsizeof).getD 0
    let c := { c with currsize := c.currsize + size - oldSize, data := c.data.set key value }
    return c.touch key

/-- The `while` loop of `clear`. -/
def removeAll : Nat → PinnedLRUCache κ α → Result (PinnedLRUCache κ α)
  | 0, _ => .error (.runtimeError "out of fuel")
  | fuel + 1, c =>
    if 0 < c.data.size then do
      let c ← c.popitem getsizeof true
      removeAll fuel c
    else .ok c

def clear (c : PinnedLRUCache κ α) : Result (PinnedLRUCache κ α) :=
  c.removeAll getsizeof (c.order.length + 1)

inductive Op (κ : Type u) (α : Type v)
  | touch (key : κ)
  | get (key : κ)
  | insert (key : κ) (value : α)
  | pin (key : κ)
  | pop (key : κ)
  | clear

def step (c : PinnedLRUCache κ α) : Op κ α → Result (PinnedLRUCache κ α)
  | .touch key => .ok (c.touch key)
  | .get key => .ok (c.get key).2
  | .insert key value => c.setItem getsizeof key value
  | .pin key =>
    match c.pin key with
    | .ok c => .ok c
    | .error _ => .ok c
  | .pop key => .ok (c.pop getsizeof key)
  | .clear => c.clear getsizeof

def pinnedSize (c : PinnedLRUCache κ α) : Nat :=
  ((c.data.items.filter fun item => item.1 ∈ c.pinnedItems).map fun item => getsizeof item.2).sum

/-- An insertion is of a value that is not too large, and if it has to evict something, what is
not pinned is large enough. -/
def roomy (c : PinnedLRUCache κ α) : Op κ α → Prop
  | .insert key value => getsizeof value ≤ c.maxsize ∧
    (c.grows getsizeof key value → c.currsize + getsizeof value > c.maxsize →
      c.pinnedSize getsizeof + getsizeof value ≤ c.maxsize)
  | _ => True

def touchesStored (c : PinnedLRUCache κ α) : Op κ α → Prop
  | .touch key => c.contains key
  | _ => True

instance (c : PinnedLRUCache κ α) (op : Op κ α) : Decidable (c.roomy getsizeof op) := by
  cases op <;> unfold roomy <;> infer_instance

instance (c : PinnedLRUCache κ α) (op : Op κ α) : Decidable (c.touchesStored op) := by
  cases op <;> unfold touchesStored <;> infer_instance

/-- The books of the cache: the order names the stored keys, and the sizes add up. -/
structure Sound (c : PinnedLRUCache κ α) : Prop where
  nodup : c.order.Nodup
  keys : ∀ key, key ∈ c.order ↔ key ∈ c.data.keys
  total : c.currsize = c.data.total getsizeof
  fits : c.currsize ≤ c.maxsize
  pinned : ∀ key ∈ c.pinnedItems, key ∈ c.data.keys

variable {getsizeof} {c c' : PinnedLRUCache κ α} {key : κ} {value : α}

omit [DecidableEq κ] in
theorem Sound.init (maxsize : Nat) : (init maxsize : PinnedLRUCache κ α).Sound getsizeof :=
  ⟨List.nodup_nil, fun _ => Iff.rfl, rfl, Nat.zero_le _, nofun⟩

theorem Sound.touch (h : c.Sound getsizeof) (hkey : key ∈ c.data.keys) :
    (c.touch key).Sound getsizeof where
  nodup := LRUCache.nodup_touch h.nodup
  keys := by
    intro k
    refine LRUCache.mem_touch_order.trans ?_
    rw [h.nodup.mem_erase_iff, h.keys]
    constructor
    · rintro (⟨-, hk⟩ | rfl)
      · exact hk
      · exact hkey
    · intro hk
      by_cases heq : k = key
      · exact .inr heq
      · exact .inl ⟨heq, hk⟩
  total := h.total
  fits := h.fits
  pinned := h.pinned

theorem not_sound_touch (hkey : key ∉ c.data.keys) : ¬ (c.touch key).Sound getsizeof :=
  fun h => hkey ((h.keys key).1 (LRUCache.mem_touch_order.2 (.inr rfl)))

theorem Sound.get (h : c.Sound getsizeof) : (c.get key).2.Sound getsizeof := by
  unfold PinnedLRUCache.get LRUCache.get
  cases hvalue : c.data.get? key with
  | none => exact h
  | some value => exact h.touch (Dict.mem_keys.2 ⟨value, hvalue⟩)

theorem Sound.pin (h : c.Sound getsizeof) (hok : c.pin key = .ok c') : c'.Sound getsizeof := by
  unfold PinnedLRUCache.pin at hok
  split at hok
  · rename_i hkey
    cases hok
    refine ⟨h.nodup, h.keys, h.total, h.fits, fun k hk => ?_⟩
    rcases Finset.mem_insert.1 hk with rfl | hk
    · exact Dict.contains_iff.1 hkey
    · exact h.pinned k hk
  · cases hok

theorem pop_eq (h : c.order.Nodup) (hvalue : c.data.get? key = some value) :
    c.pop getsizeof key =
      { c with
        currsize := c.currsize - getsizeof value
        data := c.data.erase key
        order := c.order.erase key
        pinnedItems := c.pinnedItems.erase key } := by
  have hcontains : c.contains key = true := Dict.contains_iff.2 (Dict.mem_keys.2 ⟨value, hvalue⟩)
  have horder : (c.order.erase key ++ [key]).erase key = c.order.erase key := by
    rw [List.erase_append_right _ h.not_mem_erase, List.erase_cons_head, List.append_nil]
  rw [PinnedLRUCache.pop, if_pos hcontains, LRUCache.pop, hvalue]
  simp only [LRUCache.touch, horder]

theorem pop_of_none (hvalue : c.data.get? key = none) : c.pop getsizeof key = c := by
  have hcontains : ¬ c.contains key = true := by
    rw [LRUCache.contains, Dict.contains_iff]
    exact Dict.get?_eq_none.1 hvalue
  rw [PinnedLRUCache.pop, if_neg hcontains, LRUCache.pop, hvalue]

theorem Sound.pop (h : c.Sound getsizeof) (key : κ) : (c.pop getsizeof key).Sound getsizeof := by
  cases hvalue : c.data.get? key with
  | none => rwa [pop_of_none hvalue]
  | some value =>
    rw [pop_eq h.nodup hvalue]
    constructor
    case nodup => exact h.nodup.erase key
    case keys =>
      intro k
      rw [h.nodup.mem_erase_iff, Dict.mem_keys_erase, h.keys]
    case total =>
      have htotal := Dict.total_erase getsizeof c.data key
      rw [hvalue, Option.map_some, Option.getD_some, ← h.total] at htotal
      exact (Nat.eq_sub_of_add_eq htotal).symm
    case fits => exact (Nat.sub_le _ _).trans h.fits
    case pinned =>
      intro k hk
      obtain ⟨hne, hk⟩ := Finset.mem_erase.1 hk
      exact Dict.mem_keys_erase.2 ⟨hne, h.pinned k hk⟩

section Eviction

theorem pinnedSize_erase (hvalue : c.data.get? key = some value) (hkey : key ∉ c.pinnedItems) :
    (((c.data.erase key).items.filter fun item => item.1 ∈ c.pinnedItems).map fun item =>
      getsizeof item.2).sum = c.pinnedSize getsizeof := by
  have hperm := ((Dict.perm_erase hvalue).filter fun item => item.1 ∈ c.pinnedItems).map
    fun item => getsizeof item.2
  rw [List.filter_cons_of_neg (by simpa using hkey)] at hperm
  exact hperm.sum_eq.symm

theorem exists_unpinned (h : c.Sound getsizeof) (hlt : c.pinnedSize getsizeof < c.currsize) :
    ∃ key ∈ c.order, key ∉ c.pinnedItems := by
  by_contra hnone
  push Not at hnone
  have hall : c.data.items.filter (fun item => item.1 ∈ c.pinnedItems) = c.data.items := by
    refine List.filter_eq_self.2 fun item hitem => decide_eq_true ?_
    exact hnone item.1 ((h.keys item.1).2 (List.mem_map_of_mem hitem))
  have hsize : c.pinnedSize getsizeof = c.data.total getsizeof := by
    rw [pinnedSize, hall, Dict.total, Dict.values, List.map_map]
    rfl
  rw [hsize, ← h.total] at hlt
  exact Nat.lt_irrefl _ hlt

theorem Sound.popitem (h : c.Sound getsizeof) {removePinned : Bool}
    (hkey : ∃ key ∈ c.order, removePinned = true ∨ key ∉ c.pinnedItems) :
    ∃ key value, c.popitem getsizeof removePinned = .ok (c.pop getsizeof key) ∧
      c.data.get? key = some value ∧ (removePinned = true ∨ key ∉ c.pinnedItems) := by
  obtain ⟨key, hmem, hfree⟩ := hkey
  unfold PinnedLRUCache.popitem
  cases hfind : c.order.find? fun key => removePinned || key ∉ c.pinnedItems with
  | none => exact absurd hfree (by simpa using List.find?_eq_none.1 hfind key hmem)
  | some key' =>
    obtain ⟨value, hvalue⟩ := Dict.mem_keys.1 ((h.keys key').1 (List.mem_of_find?_eq_some hfind))
    exact ⟨key', value, rfl, hvalue, by simpa using List.find?_some hfind⟩

theorem length_order_pop (h : c.Sound getsizeof) (hvalue : c.data.get? key = some value) :
    (c.pop getsizeof key).order.length + 1 = c.order.length := by
  have hmem : key ∈ c.order := (h.keys key).2 (Dict.mem_keys.2 ⟨value, hvalue⟩)
  rw [pop_eq h.nodup hvalue]
  show (c.order.erase key).length + 1 = _
  rw [List.length_erase_of_mem hmem, Nat.sub_add_cancel (List.length_pos_of_mem hmem)]

theorem Sound.makeRoom (h : c.Sound getsizeof) {size fuel : Nat}
    (hroom : c.currsize + size > c.maxsize → c.pinnedSize getsizeof + size ≤ c.maxsize)
    (hfuel : c.order.length < fuel) :
    ∃ c', c.makeRoom getsizeof size fuel = .ok c' ∧ c'.Sound getsizeof ∧
      c'.maxsize = c.maxsize ∧ c'.currsize + size ≤ c'.maxsize := by
  induction fuel generalizing c with
  | zero => exact absurd hfuel (Nat.not_lt_zero _)
  | succ fuel ih =>
    unfold PinnedLRUCache.makeRoom
    split
    · rename_i hfull
      have hpinned := hroom hfull
      obtain ⟨key, hmem, hfree⟩ := exists_unpinned h (by omega)
      obtain ⟨key, value, hok, hvalue, hfree⟩ := h.popitem ⟨key, hmem, .inr hfree⟩
      have hunpinned : key ∉ c.pinnedItems := hfree.resolve_left Bool.false_ne_true
      have hsame : (c.pop getsizeof key).pinnedSize getsizeof = c.pinnedSize getsizeof := by
        rw [← pinnedSize_erase hvalue hunpinned, pop_eq h.nodup hvalue, pinnedSize,
          Finset.erase_eq_of_notMem hunpinned]
      have hmax : (c.pop getsizeof key).maxsize = c.maxsize := by
        rw [pop_eq h.nodup hvalue]
      have hshorter := length_order_pop h hvalue
      obtain ⟨c', hok', hsound, hmax', hfit⟩ := ih (h.pop key)
        (fun _ => by rw [hsame, hmax]; exact hpinned) (by omega)
      refine ⟨c', ?_, hsound, hmax'.trans hmax, hfit⟩
      rw [hok, Result.ok_bind]
      exact hok'
    · rename_i hfit
      exact ⟨c, rfl, h, rfl, Nat.not_lt.1 hfit⟩

theorem Sound.store (h : c.Sound getsizeof) (key : κ) (value : α)
    (hfit : c.currsize + getsizeof value ≤ c.maxsize + ((c.data.get? key).map getsizeof).getD 0) :
    ({ c with
        currsize := c.currsize + getsizeof value - ((c.data.get? key).map getsizeof).getD 0
        data := c.data.set key value } : PinnedLRUCache κ α).touch key |>.Sound getsizeof := by
  have htotal := Dict.total_set getsizeof c.data key value
  have hle : ((c.data.get? key).map getsizeof).getD 0 ≤ c.currsize := by
    rw [h.total]
    cases hold : c.data.get? key with
    | none => exact Nat.zero_le _
    | some old => exact Dict.le_total getsizeof hold
  constructor
  case nodup => exact LRUCache.nodup_touch (c := { c.toLRUCache with .. }) h.nodup
  case keys =>
    intro k
    refine LRUCache.mem_touch_order.trans ?_
    show k ∈ c.order.erase key ∨ k = key ↔ k ∈ (c.data.set key value).keys
    rw [h.nodup.mem_erase_iff, Dict.mem_keys_set, h.keys]
    constructor
    · rintro (⟨-, hk⟩ | rfl)
      · exact .inr hk
      · exact .inl rfl
    · rintro (rfl | hk)
      · exact .inr rfl
      · by_cases heq : k = key
        · exact .inr heq
        · exact .inl ⟨heq, hk⟩
  case total =>
    show c.currsize + getsizeof value - _ = (c.data.set key value).total getsizeof
    rw [h.total]
    omega
  case fits =>
    show c.currsize + getsizeof value - _ ≤ c.maxsize
    omega
  case pinned => exact fun k hk => Dict.mem_keys_set.2 (.inr (h.pinned k hk))

theorem Sound.setItem (h : c.Sound getsizeof) (hroomy : c.roomy getsizeof (.insert key value)) :
    ∃ c', c.setItem getsizeof key value = .ok c' ∧ c'.Sound getsizeof := by
  obtain ⟨hsmall, hroom⟩ := hroomy
  unfold PinnedLRUCache.setItem
  dsimp only
  rw [if_neg (Nat.not_lt.2 hsmall)]
  cases hgrows : c.grows getsizeof key value with
  | true =>
    obtain ⟨c', hok, hsound, -, hfit⟩ := h.makeRoom (hroom hgrows) (Nat.lt_succ_self _)
    refine ⟨_, ?_, hsound.store key value (hfit.trans (Nat.le_add_right _ _))⟩
    rw [if_pos rfl, hok]
    rfl
  | false =>
    refine ⟨_, rfl, h.store key value ?_⟩
    unfold grows at hgrows
    split at hgrows
    · cases hgrows
    · rename_i old hold
      have hle := of_decide_eq_false hgrows
      have := h.fits
      rw [hold, Option.map_some, Option.getD_some]
      omega

theorem Sound.removeAll (h : c.Sound getsizeof) {fuel : Nat} (hfuel : c.order.length < fuel) :
    ∃ c', c.removeAll getsizeof fuel = .ok c' ∧ c'.Sound getsizeof := by
  induction fuel generalizing c with
  | zero => exact absurd hfuel (Nat.not_lt_zero _)
  | succ fuel ih =>
    unfold PinnedLRUCache.removeAll
    split
    · rename_i hsome
      obtain ⟨item, hitem⟩ := List.exists_mem_of_length_pos hsome
      have hmem : item.1 ∈ c.order := (h.keys item.1).2 (List.mem_map_of_mem hitem)
      obtain ⟨key, value, hok, hvalue, -⟩ := h.popitem ⟨item.1, hmem, .inl rfl⟩
      have hshorter := length_order_pop h hvalue
      obtain ⟨c', hok', hsound⟩ := ih (h.pop key) (by omega)
      refine ⟨c', ?_, hsound⟩
      rw [hok, Result.ok_bind]
      exact hok'
    · exact ⟨c, rfl, h⟩

end Eviction

theorem makeRoom_of_untracked {size : Nat}
    (hfind : (c.order.find? fun key => false || key ∉ c.pinnedItems) = some key)
    (hnone : c.data.get? key = none) (hfull : c.currsize + size > c.maxsize) (fuel : Nat) :
    c.makeRoom getsizeof size fuel = .error (.runtimeError "out of fuel") := by
  induction fuel with
  | zero => rfl
  | succ fuel ih =>
    have hpop : c.popitem getsizeof false = .ok c := by
      rw [PinnedLRUCache.popitem, hfind]
      exact congrArg Except.ok (pop_of_none hnone)
    rw [PinnedLRUCache.makeRoom, if_pos hfull, hpop, Result.ok_bind, ih]

section Run

theorem Sound.step (h : c.Sound getsizeof) {op : Op κ α} (hroomy : c.roomy getsizeof op)
    (htouch : c.touchesStored op) : ∃ c', c.step getsizeof op = .ok c' ∧ c'.Sound getsizeof := by
  cases op with
  | touch key => exact ⟨_, rfl, h.touch (Dict.contains_iff.1 htouch)⟩
  | get key => exact ⟨_, rfl, h.get⟩
  | insert key value => exact h.setItem hroomy
  | pin key =>
    cases hpin : c.pin key with
    | ok c' => exact ⟨c', by rw [PinnedLRUCache.step, hpin], h.pin hpin⟩
    | error e => exact ⟨c, by rw [PinnedLRUCache.step, hpin], h⟩
  | pop key => exact ⟨_, rfl, h.pop key⟩
  | clear => exact h.removeAll (Nat.lt_succ_self _)

/-- Every call ends and the books are kept, just in those runs that touch no key that is not
stored. -/
theorem sound_iff_touchesStored (getsizeof : α → Nat) (maxsize : Nat) {ops : List (Op κ α)}
    (hops : Guarded (step getsizeof) (fun c op => c.roomy getsizeof op) (init maxsize) ops) :
    ((∃ c, runSteps (step getsizeof) (init maxsize) ops = .ok c) ∧
      Throughout (step getsizeof) (Sound getsizeof) (init maxsize) ops) ↔
      Guarded (step getsizeof) (fun c op => c.touchesStored op) (init maxsize) ops := by
  constructor
  · rintro ⟨-, h⟩
    have hstep : ∀ (c : PinnedLRUCache κ α) (op : Op κ α) (c' : PinnedLRUCache κ α), True →
        c.roomy getsizeof op → step getsizeof c op = .ok c' →
        True ∧ (c.Sound getsizeof → (c'.Sound getsizeof ↔ c.touchesStored op)) := by
      refine fun c op c' _ hroomy hok =>
        ⟨trivial, fun hsound => ⟨fun hsound' => ?_, fun htouch => ?_⟩⟩
      · cases op with
        | touch key =>
          cases hok
          refine Dict.contains_iff.2 ?_
          by_contra hkey
          exact not_sound_touch hkey hsound'
        | _ => trivial
      · obtain ⟨c'', hok', hsound'⟩ := hsound.step hroomy htouch
        cases hok.symm.trans hok'
        exact hsound'
    have hiff := throughout_iff_guarded hstep trivial (Sound.init maxsize) hops
    refine (hiff.1 h).mono fun c op hop => ?_
    cases op with
    | touch key => exact hop _ rfl
    | _ => trivial
  · intro h
    have hboth := hops.and h
    refine ⟨?_, throughout_of_inv (fun c op c' (hsound : Sound getsizeof c) hop hok => ?_)
      (fun _ hsound => hsound) (Sound.init maxsize) hboth⟩
    · obtain ⟨c, hrun, -⟩ := run_ok_of_inv (fun c op (hsound : Sound getsizeof c) hop =>
        hsound.step hop.1 hop.2) (Sound.init maxsize) hboth
      exact ⟨c, hrun⟩
    · obtain ⟨c'', hok', hsound'⟩ := hsound.step hop.1 hop.2
      cases hok.symm.trans hok'
      exact hsound'

/-- A request of two hashes in a cache for one: both are touched, and the first is inserted. -/
def touchThenInsert : List (Op String Nat) := [.touch "b", .touch "c", .insert "b" 1]

/-- The insertion of the second tries for ever to evict the second, which is not stored. -/
theorem not_sound_touchThenInsert : ∃ c,
    runSteps (step id) (init 1) touchThenInsert = .ok c ∧ ¬ c.Sound id ∧
      c.roomy id (.insert "c" 1) ∧
      ∀ fuel, c.makeRoom id 1 fuel = .error (.runtimeError "out of fuel") := by
  refine ⟨_, rfl, fun h => ?_, by decide +kernel, fun fuel => ?_⟩
  · exact absurd ((h.keys "c").1 (by decide +kernel)) (by decide +kernel)
  · exact makeRoom_of_untracked rfl (by decide +kernel) (by decide +kernel) fuel

def pinAndEvict : List (Op String Nat) :=
  [.insert "a" 1, .insert "b" 1, .pin "a", .touch "b", .insert "c" 1, .get "a", .pop "c", .clear]

theorem sound_pinAndEvict :
    (∃ c, runSteps (step id) (init 2) pinAndEvict = .ok c) ∧ Throughout (step id) (Sound id) (init 2) pinAndEvict :=
  (sound_iff_touchesStored id 2 (by decide +kernel)).mpr (by decide +kernel)

end Run

end PinnedLRUCache

end Vllm
