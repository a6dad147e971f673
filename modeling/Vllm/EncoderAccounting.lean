import Mathlib.Algebra.Order.BigOperators.Group.List
import Vllm.EncoderCacheLaws

namespace Vllm

namespace EncoderCacheManager

def reset (e : EncoderCacheManager) (cacheSize : Nat) : EncoderCacheManager :=
  if e.isEncoderDecoder then { e with numFreeSlots := cacheSize, allocated := [], toFree := [] }
  else
    { e with
      cached := Dict.empty
      freeable := Dict.empty
      freed := []
      numFreeSlots := cacheSize
      numFreeableSlots := cacheSize }

/-- How far the scheduler is with the request it looks at. -/
inductive Turn
  | idle
  | checking (request : Request) (chosen : List Nat) (missed : Option Nat)
  | allocating (request : Request) (left : List Nat)

/-- The calls that the scheduler makes; `turnTo` is no call but where it goes on with another request. -/
inductive Call
  | turnTo (request : Request)
  | checkAndUpdateCache (inputId : Nat)
  | canAllocate (encoderComputeBudget : Int) (choose : Bool)
  | allocate (inputId : Nat)
  | freeEncoderInput (request : Request) (inputId : Nat)
  | free (request : Request)
  | getFreedMmHashes
  | reset

def identifiers (request : Request) (inputIds : List Nat) : List String :=
  inputIds.filterMap fun i => request.mmFeatures[i]?.map MultiModalFeatureSpec.identifier

def numEmbeds (request : Request) (inputIds : List Nat) : Int :=
  (inputIds.map fun i => (request.getNumEncoderEmbeds i : Int)).sum

/-- The call comes in the order of the scheduler: an item is checked unless its data is scheduled, room is
asked for an item that the check missed, and what was chosen is allocated at last. -/
def Call.Allowed (call : Call) (t : Turn) : Prop :=
  match call, t with
  | .checkAndUpdateCache i, .checking request chosen _ =>
    match request.mmFeatures[i]? with
    | some f => f.identifier ∉ identifiers request chosen
    | none => False
  | .canAllocate .., .checking _ _ missed => missed ≠ none
  | .allocate i, .checking _ chosen _ => i ∈ chosen
  | .allocate i, .allocating _ left => i ∈ left
  | .checkAndUpdateCache _, _ | .canAllocate .., _ | .allocate _, _ => False
  | .turnTo _, _ | .freeEncoderInput .., _ | .free _, _ | .getFreedMmHashes, _ | .reset, _ => True

instance (call : Call) (t : Turn) : Decidable (call.Allowed t) := by
  unfold Call.Allowed
  split
  · split <;> infer_instance
  all_goals infer_instance

def Call.run (cacheSize : Nat) (e : EncoderCacheManager) (t : Turn) :
    Call → Result (EncoderCacheManager × Turn)
  | .turnTo request => .ok (e, .checking request [] none)
  | .checkAndUpdateCache i =>
    match t with
    | .checking request chosen _ => do
      let hash ← mmHash request i
      let (hit, e) ← e.checkAndUpdateCache request hash
      return (e, .checking request chosen (if hit then none else some i))
    | _ => .ok (e, t)
  | .canAllocate encoderComputeBudget choose =>
    match t with
    | .checking request chosen (some i) => do
      let (fits, e) ← e.canAllocate request i encoderComputeBudget (numEmbeds request chosen)
      return (e, .checking request (if fits && choose then chosen ++ [i] else chosen) none)
    | _ => .ok (e, t)
  | .allocate i =>
    match t with
    | .checking request chosen _ => do
      let e ← e.allocate request i
      return (e, .allocating request (chosen.erase i))
    | .allocating request left => do
      let e ← e.allocate request i
      return (e, .allocating request (left.erase i))
    | .idle => .ok (e, t)
  | .freeEncoderInput request i => .ok (e.freeEncoderInput request i, t)
  | .free request => .ok (e.free request, t)
  | .getFreedMmHashes => .ok (e.getFreedMmHashes.2, t)
  | .reset => .ok (e.reset cacheSize, .idle)

def runCalls (cacheSize : Nat) :
    List Call → EncoderCacheManager → Turn → Result (EncoderCacheManager × Turn)
  | [], e, t => .ok (e, t)
  | call :: calls, e, t => do
    let (e, t) ← call.run cacheSize e t
    runCalls cacheSize calls e t

/-- Every call comes in the order of the scheduler. -/
def Ordered (cacheSize : Nat) : List Call → EncoderCacheManager → Turn → Prop
  | [], _, _ => True
  | call :: calls, e, t =>
    call.Allowed t ∧
      match call.run cacheSize e t with
      | .ok (e, t) => Ordered cacheSize calls e t
      | .error _ => True

instance decidableOrdered (cacheSize : Nat) :
    ∀ (calls : List Call) (e : EncoderCacheManager) (t : Turn), Decidable (Ordered cacheSize calls e t)
  | [], _, _ => .isTrue trivial
  | call :: calls, e, t =>
    have : Decidable
        (match call.run cacheSize e t with
        | .ok (e, t) => Ordered cacheSize calls e t
        | .error _ => True) :=
      match call.run cacheSize e t with
      | .ok (e, t) => decidableOrdered cacheSize calls e t
      | .error _ => .isTrue trivial
    inferInstanceAs (Decidable (_ ∧ _))

def Sized (size : String → Nat) (request : Request) : Prop :=
  ∀ f ∈ request.mmFeatures, f.mmPosition.getNumEmbeds = size f.identifier

def Call.Sized (size : String → Nat) : Call → Prop
  | .turnTo request | .freeEncoderInput request _ | .free request =>
    EncoderCacheManager.Sized size request
  | _ => True

/-- The counters agree with the entries. -/
structure Balanced (size : String → Nat) (cacheSize : Nat) (e : EncoderCacheManager) : Prop where
  decoderOnly : e.isEncoderDecoder = false
  free : e.numFreeSlots + e.cached.weight size = cacheSize
  nonneg : 0 ≤ e.numFreeSlots
  freeable : e.numFreeableSlots = e.numFreeSlots + e.freeable.values.sum
  sizes : ∀ h n, e.freeable.get? h = some n → n = size h
  unreferenced : ∀ h, h ∈ e.freeable.keys ↔ e.cached.get? h = some []

structure Roomier (e e' : EncoderCacheManager) : Prop where
  free : e.numFreeSlots ≤ e'.numFreeSlots
  missing : ∀ h, e.cached.get? h = none → e'.cached.get? h = none
  referenced : ∀ h refs, e.cached.get? h = some refs → refs ≠ [] → e'.cached.contains h = true

variable {size : String → Nat} {cacheSize : Nat} {e e' e'' : EncoderCacheManager} {request : Request}
  {chosen : List Nat} {h hash : String} {n : Int} {i : Nat} {f : MultiModalFeatureSpec}

theorem Roomier.refl (e : EncoderCacheManager) : Roomier e e where
  free := Int.le_refl _
  missing _ := id
  referenced _ _ hget _ := contains_of_get? hget

theorem Balanced.freeable_nonneg (hb : Balanced size cacheSize e) : 0 ≤ e.freeable.values.sum := by
  refine List.sum_nonneg fun v hv => ?_
  obtain ⟨h, hget⟩ := Dict.mem_values.mp hv
  rw [hb.sizes h v hget]
  exact Int.natCast_nonneg _

theorem balanced_init (size : String → Nat) (cacheSize : Nat) :
    Balanced size cacheSize (init false cacheSize) where
  decoderOnly := rfl
  free := Int.add_zero _
  nonneg := Int.natCast_nonneg _
  freeable := (Int.add_zero _).symm
  sizes _ _ := nofun
  unreferenced _ := iff_of_false List.not_mem_nil nofun

theorem Balanced.reference (hb : Balanced size cacheSize e) {refs refs' : List ReqId}
    (hget : e.cached.get? hash = some refs) (hne : refs ≠ []) (hne' : refs' ≠ []) :
    Balanced size cacheSize { e with cached := e.cached.set hash refs' } where
  decoderOnly := hb.decoderOnly
  free := by
    rw [Dict.weight_set_old size hget]
    exact hb.free
  nonneg := hb.nonneg
  freeable := hb.freeable
  sizes := hb.sizes
  unreferenced h := by
    rw [hb.unreferenced, Dict.get?_set]
    split
    · rename_i heq
      subst heq
      rw [hget, Option.some_inj, Option.some_inj]
      exact iff_of_false hne hne'
    · exact Iff.rfl

theorem Balanced.pin (hb : Balanced size cacheSize e) {refs : List ReqId}
    (hget : e.cached.get? hash = some []) (hfree : e.freeable.get? hash = some n) (hne : refs ≠ []) :
    Balanced size cacheSize
      { e with
        freeable := e.freeable.erase hash
        numFreeableSlots := e.numFreeableSlots - n
        cached := e.cached.set hash refs } where
  decoderOnly := hb.decoderOnly
  free := by
    rw [Dict.weight_set_old size hget]
    exact hb.free
  nonneg := hb.nonneg
  freeable := by
    have hsum := Dict.sum_values_erase hfree
    have hold := hb.freeable
    dsimp only
    omega
  sizes h m hm := hb.sizes h m (Dict.get?_of_erase hm)
  unreferenced h := by
    rw [Dict.mem_keys_erase, hb.unreferenced, Dict.get?_set]
    split
    · rename_i heq
      subst heq
      rw [Option.some_inj]
      exact iff_of_false (fun hand => hand.1 rfl) hne
    · rename_i hne
      exact and_iff_right (Ne.symm hne)

theorem Balanced.unpin (hb : Balanced size cacheSize e) {refs : List ReqId}
    (hget : e.cached.get? hash = some refs) (hne : refs ≠ []) :
    Balanced size cacheSize
      { e with
        cached := e.cached.set hash []
        freeable := e.freeable.set hash (size hash)
        numFreeableSlots := e.numFreeableSlots + size hash } where
  decoderOnly := hb.decoderOnly
  free := by
    rw [Dict.weight_set_old size hget]
    exact hb.free
  nonneg := hb.nonneg
  freeable := by
    have hnone : e.freeable.get? hash = none := by
      rw [Dict.get?_eq_none, hb.unreferenced, hget, Option.some_inj]
      exact hne
    have hsum := Dict.sum_values_set_new (v := (size hash : Int)) hnone
    have hold := hb.freeable
    dsimp only
    omega
  sizes h m hm := by
    rw [Dict.get?_set] at hm
    split at hm
    · rename_i heq
      rw [← heq]
      exact (Option.some_inj.mp hm).symm
    · exact hb.sizes h m hm
  unreferenced h := by
    rw [Dict.mem_keys_set, hb.unreferenced, Dict.get?_set]
    split
    · rename_i heq
      exact iff_of_true (.inl heq.symm) rfl
    · rename_i hne
      exact or_iff_right (Ne.symm hne)

theorem Balanced.drop (hb : Balanced size cacheSize e) (hfree : e.freeable.get? hash = some n) :
    Balanced size cacheSize
      { e with
        freeable := e.freeable.erase hash
        cached := e.cached.erase hash
        freed := e.freed ++ [hash]
        numFreeSlots := e.numFreeSlots + n } where
  decoderOnly := hb.decoderOnly
  free := by
    have hget := (hb.unreferenced hash).mp (Dict.mem_keys.mpr ⟨n, hfree⟩)
    have hweight := Dict.weight_erase size hget
    have hn := hb.sizes hash n hfree
    have hold := hb.free
    dsimp only
    omega
  nonneg := by
    have hn := hb.sizes hash n hfree
    have hold := hb.nonneg
    dsimp only
    omega
  freeable := by
    have hsum := Dict.sum_values_erase hfree
    have hold := hb.freeable
    dsimp only
    omega
  sizes h m hm := hb.sizes h m (Dict.get?_of_erase hm)
  unreferenced h := by
    rw [Dict.mem_keys_erase, hb.unreferenced, Dict.get?_erase]
    split
    · rename_i heq
      exact iff_of_false (fun hand => hand.1 heq.symm) nofun
    · rename_i hne
      exact and_iff_right (Ne.symm hne)

theorem Balanced.place (hb : Balanced size cacheSize e) {refs : List ReqId}
    (hget : e.cached.get? hash = none) (hroom : (size hash : Int) ≤ e.numFreeSlots) (hne : refs ≠ []) :
    Balanced size cacheSize
      { e with
        cached := e.cached.set hash refs
        numFreeSlots := e.numFreeSlots - size hash
        numFreeableSlots := e.numFreeableSlots - size hash } where
  decoderOnly := hb.decoderOnly
  free := by
    have hweight := Dict.weight_set_new size (v := refs) hget
    have hold := hb.free
    dsimp only
    omega
  nonneg := Int.sub_nonneg_of_le hroom
  freeable := by
    have hold := hb.freeable
    dsimp only
    omega
  sizes := hb.sizes
  unreferenced h := by
    rw [hb.unreferenced, Dict.get?_set]
    split
    · rename_i heq
      subst heq
      rw [hget, Option.some_inj]
      exact iff_of_false nofun hne
    · exact Iff.rfl

theorem get?_erase_of_referenced {refs : List ReqId} (hhash : e.cached.get? hash = some [])
    (hget : e.cached.get? h = some refs) (hne : refs ≠ []) : (e.cached.erase hash).get? h = some refs := by
  rw [Dict.get?_erase, if_neg]
  · exact hget
  · rintro rfl
    exact hne (Option.some_inj.mp (hget.symm.trans hhash))

structure Loosened (e e' : EncoderCacheManager) : Prop where
  free : e.numFreeSlots ≤ e'.numFreeSlots
  cached : ∀ h, e'.cached.contains h = e.cached.contains h

theorem Loosened.refl (e : EncoderCacheManager) : Loosened e e := ⟨Int.le_refl _, fun _ => rfl⟩

theorem Loosened.trans (h : Loosened e e') (h' : Loosened e' e'') : Loosened e e'' :=
  ⟨h.free.trans h'.free, fun x => (h'.cached x).trans (h.cached x)⟩

theorem Loosened.roomier (h : Loosened e e') : Roomier e e' where
  free := h.free
  missing x hnone := by
    have hcontains := h.cached x
    rw [Dict.contains, Dict.contains, hnone] at hcontains
    exact Option.not_isSome_iff_eq_none.mp (Bool.eq_false_iff.mp hcontains)
  referenced x refs hget _ := by
    rw [h.cached]
    exact contains_of_get? hget

theorem Loosened.set {refs refs' : List ReqId} (hget : e.cached.get? hash = some refs)
    (hfree : e.numFreeSlots ≤ e'.numFreeSlots) (hcached : e'.cached = e.cached.set hash refs') :
    Loosened e e' where
  free := hfree
  cached h := by
    rw [hcached, Bool.eq_iff_iff, contains_set_iff]
    refine or_iff_right_of_imp ?_
    rintro rfl
    exact contains_of_get? hget

theorem checkAndUpdateCache_balanced (hb : Balanced size cacheSize e) (request : Request) (hash : String) :
    ∃ hit e', e.checkAndUpdateCache request hash = .ok (hit, e') ∧ Balanced size cacheSize e' ∧
      Roomier e e' ∧ (hit = false → e.cached.get? hash = none) := by
  unfold checkAndUpdateCache
  rw [if_neg (Bool.eq_false_iff.mp hb.decoderOnly)]
  split
  · rename_i hnone
    exact ⟨false, e, rfl, hb, .refl e, fun _ => hnone⟩
  · rename_i hget
    obtain ⟨n, hn⟩ := Dict.mem_keys.mp ((hb.unreferenced hash).mpr hget)
    rw [hn]
    refine ⟨true, _, rfl, hb.pin hget hn (List.cons_ne_nil _ _), Loosened.roomier ?_, nofun⟩
    exact .set hget (Int.le_refl _) rfl
  · rename_i refs hne hget
    have hne' : refs.insert request.requestId ≠ [] :=
      List.ne_nil_of_mem (List.mem_insert_self)
    have hne : refs ≠ [] := by
      rintro rfl
      exact hne rfl
    refine ⟨true, _, rfl, hb.reference hget hne hne', Loosened.roomier ?_, nofun⟩
    exact .set hget (Int.le_refl _) rfl

theorem evict_balanced (hb : Balanced size cacheSize e) (hn : n ≤ e.numFreeableSlots)
    {entries : List (String × Int)} (hentries : e.freeable.items = entries) :
    ∃ e', evict n entries e = .ok e' ∧ Balanced size cacheSize e' ∧ Roomier e e' ∧ n ≤ e'.numFreeSlots := by
  induction entries generalizing e with
  | nil =>
    have hfreeable := hb.freeable
    rw [Dict.values, hentries, List.map_nil, List.sum_nil, Int.add_zero] at hfreeable
    rw [hfreeable] at hn
    rw [evict, if_neg (Int.not_lt.mpr hn)]
    exact ⟨e, rfl, hb, .refl e, hn⟩
  | cons entry entries ih =>
    obtain ⟨hash, k⟩ := entry
    rw [evict]
    split
    · have hfree : e.freeable.get? hash = some k := by
        rw [Dict.get?_eq_some, hentries]
        exact List.mem_cons_self
      have hget := (hb.unreferenced hash).mp (Dict.mem_keys.mpr ⟨k, hfree⟩)
      have hrest : (e.freeable.erase hash).items = entries := by
        change Dict.eraseIn hash e.freeable.items = entries
        rw [hentries, Dict.eraseIn, if_pos rfl]
      have hk : 0 ≤ k := by
        rw [hb.sizes hash k hfree]
        exact Int.natCast_nonneg _
      rw [if_pos (contains_of_get? hget)]
      obtain ⟨e', hok, hb', hroom, hle⟩ := ih (hb.drop hfree) hn hrest
      refine ⟨e', hok, hb', ⟨?_, fun h hnone => hroom.missing h ?_, fun h refs hg hne => ?_⟩, hle⟩
      · exact (Int.le_add_of_nonneg_right hk).trans hroom.free
      · dsimp only
        rw [Dict.get?_erase, hnone, ite_self]
      · exact hroom.referenced h refs (get?_erase_of_referenced hget hg hne) hne
    · rename_i hle
      exact ⟨e, rfl, hb, .refl e, Int.not_lt.mp hle⟩

theorem canAllocate_balanced (hb : Balanced size cacheSize e) (request : Request) (i : Nat)
    (encoderComputeBudget n : Int) :
    ∃ fits e', e.canAllocate request i encoderComputeBudget n = .ok (fits, e') ∧
      Balanced size cacheSize e' ∧ Roomier e e' ∧
      (fits = true → (request.getNumEncoderEmbeds i : Int) + n ≤ e'.numFreeSlots) := by
  unfold canAllocate
  dsimp only
  rw [hb.decoderOnly]
  split
  · exact ⟨false, e, rfl, hb, .refl e, nofun⟩
  · split
    · rename_i hle
      exact ⟨true, e, rfl, hb, .refl e, fun _ => hle⟩
    · rw [if_neg Bool.false_ne_true]
      split
      · exact ⟨false, e, rfl, hb, .refl e, nofun⟩
      · rename_i hle
        obtain ⟨e', hok, hb', hroom, hfits⟩ := evict_balanced hb (Int.not_lt.mp hle) rfl
        refine ⟨true, e', ?_, hb', hroom, fun _ => hfits⟩
        rw [hok]
        rfl

theorem Sized.getNumEncoderEmbeds (hsized : Sized size request) (hf : request.mmFeatures[i]? = some f) :
    request.getNumEncoderEmbeds i = size f.identifier := by
  rw [Request.getNumEncoderEmbeds, hf]
  exact hsized f (List.mem_of_getElem? hf)

theorem allocate_balanced (hb : Balanced size cacheSize e) (hsized : Sized size request)
    (hf : request.mmFeatures[i]? = some f) (hnone : e.cached.get? f.identifier = none)
    (hroom : (request.getNumEncoderEmbeds i : Int) ≤ e.numFreeSlots) :
    ∃ e', e.allocate request i = .ok e' ∧ Balanced size cacheSize e' ∧
      e'.numFreeSlots = e.numFreeSlots - request.getNumEncoderEmbeds i ∧
      ∀ h, h ≠ f.identifier → e'.cached.get? h = e.cached.get? h := by
  have hfreeable : (request.getNumEncoderEmbeds i : Int) ≤ e.numFreeableSlots := by
    have hsum := hb.freeable_nonneg
    have heq := hb.freeable
    omega
  have hsize : (request.getNumEncoderEmbeds i : Int) = size f.identifier := by rw [hsized.getNumEncoderEmbeds hf]
  have hrefs : (e.cached.getD f.identifier []).insert request.requestId ≠ [] :=
    List.ne_nil_of_mem List.mem_insert_self
  refine ⟨{ e with
      cached := e.cached.set f.identifier ((e.cached.getD f.identifier []).insert request.requestId)
      numFreeSlots := e.numFreeSlots - request.getNumEncoderEmbeds i
      numFreeableSlots := e.numFreeableSlots - request.getNumEncoderEmbeds i }, ?_, ?_, rfl, fun h hne => ?_⟩
  · have hget : Result.getItem request.mmFeatures i = .ok f := Result.getItem_eq_ok.mpr hf
    rw [allocate, mmHash, hget]
    simp only [Result.ok_bind, hb.decoderOnly, Bool.false_eq_true, if_false, Result.ensure, ge_iff_le, hroom,
      hfreeable, if_true]
    rfl
  · rw [hsize] at hroom ⊢
    exact hb.place hnone hroom hrefs
  · rw [Dict.get?_set, if_neg (Ne.symm hne)]

theorem freeEncoderInput_balanced (hb : Balanced size cacheSize e) (hsized : Sized size request) (i : Nat) :
    Balanced size cacheSize (e.freeEncoderInput request i) ∧ Loosened e (e.freeEncoderInput request i) := by
  unfold freeEncoderInput
  dsimp only
  rw [if_neg (Bool.eq_false_iff.mp hb.decoderOnly)]
  split
  · exact ⟨hb, .refl e⟩
  · rename_i f hf
    split
    · exact ⟨hb, .refl e⟩
    · rename_i hne
      obtain ⟨refs, hget⟩ : ∃ refs, e.cached.get? f.identifier = some refs := by
        cases hget : e.cached.get? f.identifier with
        | none => simp [Dict.getD, hget] at hne
        | some refs => exact ⟨refs, rfl⟩
      have hrefs : e.cached.getD f.identifier [] = refs := by rw [Dict.getD, hget, Option.getD_some]
      rw [hrefs] at hne ⊢
      split
      · rename_i hnil
        rw [hnil, hsized.getNumEncoderEmbeds hf]
        exact ⟨hb.unpin hget hne, .set hget (Int.le_refl _) rfl⟩
      · rename_i hne'
        exact ⟨hb.reference hget hne hne', .set hget (Int.le_refl _) rfl⟩

theorem free_balanced (hb : Balanced size cacheSize e) (hsized : Sized size request) :
    Balanced size cacheSize (e.free request) ∧ Loosened e (e.free request) := by
  have hfold : ∀ (inputIds : List Nat) e₁, Balanced size cacheSize e₁ → Loosened e e₁ →
      Balanced size cacheSize (inputIds.foldl (fun e i => e.freeEncoderInput request i) e₁) ∧
        Loosened e (inputIds.foldl (fun e i => e.freeEncoderInput request i) e₁) := by
    intro inputIds
    induction inputIds with
    | nil => exact fun e₁ hb₁ hr => ⟨hb₁, hr⟩
    | cons i inputIds ih =>
      intro e₁ hb₁ hr
      obtain ⟨hb₂, hr₂⟩ := freeEncoderInput_balanced hb₁ hsized i
      exact ih _ hb₂ (hr.trans hr₂)
  exact hfold _ e hb (.refl e)

theorem getFreedMmHashes_balanced (hb : Balanced size cacheSize e) :
    Balanced size cacheSize e.getFreedMmHashes.2 ∧ Roomier e e.getFreedMmHashes.2 := by
  unfold getFreedMmHashes
  rw [if_neg (Bool.eq_false_iff.mp hb.decoderOnly)]
  exact ⟨⟨hb.decoderOnly, hb.free, hb.nonneg, hb.freeable, hb.sizes, hb.unreferenced⟩, Int.le_refl _,
    fun _ => id, fun _ _ hget _ => contains_of_get? hget⟩

theorem reset_balanced (hb : Balanced size cacheSize e) : Balanced size cacheSize (e.reset cacheSize) := by
  unfold reset
  rw [if_neg (Bool.eq_false_iff.mp hb.decoderOnly)]
  have hinit := balanced_init size cacheSize
  exact ⟨hb.decoderOnly, hinit.free, hinit.nonneg, hinit.freeable, hinit.sizes, hinit.unreferenced⟩

structure Planned (e : EncoderCacheManager) (request : Request) (chosen : List Nat) : Prop where
  fits : numEmbeds request chosen ≤ e.numFreeSlots
  missing : ∀ h ∈ identifiers request chosen, e.cached.get? h = none
  distinct : (identifiers request chosen).Nodup
  items : ∀ i ∈ chosen, ∃ f, request.mmFeatures[i]? = some f

def Turn.Pending (size : String → Nat) (e : EncoderCacheManager) : Turn → Prop
  | .idle => True
  | .checking request chosen missed =>
    EncoderCacheManager.Sized size request ∧ Planned e request chosen ∧
      ∀ i, missed = some i → ∃ f, request.mmFeatures[i]? = some f ∧
        f.identifier ∉ identifiers request chosen ∧ e.cached.get? f.identifier = none
  | .allocating request left => EncoderCacheManager.Sized size request ∧ Planned e request left

theorem planned_nil (hb : Balanced size cacheSize e) (request : Request) : Planned e request [] :=
  ⟨hb.nonneg, fun _ hmem => absurd hmem List.not_mem_nil, List.nodup_nil,
    fun _ hmem => absurd hmem List.not_mem_nil⟩

theorem Planned.roomier (hp : Planned e request chosen) (hr : Roomier e e') : Planned e' request chosen :=
  ⟨hp.fits.trans hr.free, fun h hmem => hr.missing h (hp.missing h hmem), hp.distinct, hp.items⟩

theorem Turn.Pending.roomier {t : Turn} (hp : t.Pending size e) (hr : Roomier e e') : t.Pending size e' := by
  cases t with
  | idle => trivial
  | checking request chosen missed =>
    refine ⟨hp.1, hp.2.1.roomier hr, fun i hi => ?_⟩
    obtain ⟨f, hf, hnot, hnone⟩ := hp.2.2 i hi
    exact ⟨f, hf, hnot, hr.missing _ hnone⟩
  | allocating request left => exact ⟨hp.1, hp.2.roomier hr⟩

theorem identifiers_append_singleton (hf : request.mmFeatures[i]? = some f) :
    identifiers request (chosen ++ [i]) = identifiers request chosen ++ [f.identifier] := by
  rw [identifiers, List.filterMap_append]
  simp [hf, identifiers]

theorem numEmbeds_append_singleton :
    numEmbeds request (chosen ++ [i]) = numEmbeds request chosen + request.getNumEncoderEmbeds i := by
  simp [numEmbeds]

theorem Planned.choose (hp : Planned e request chosen) (hf : request.mmFeatures[i]? = some f)
    (hnot : f.identifier ∉ identifiers request chosen) (hnone : e.cached.get? f.identifier = none)
    (hfits : (request.getNumEncoderEmbeds i : Int) + numEmbeds request chosen ≤ e.numFreeSlots) :
    Planned e request (chosen ++ [i]) where
  fits := by
    rw [numEmbeds_append_singleton, Int.add_comm]
    exact hfits
  missing h hmem := by
    rw [identifiers_append_singleton hf, List.mem_append, List.mem_singleton] at hmem
    rcases hmem with hmem | rfl
    · exact hp.missing h hmem
    · exact hnone
  distinct := by
    rw [identifiers_append_singleton hf, ← List.concat_eq_append]
    exact hp.distinct.concat hnot
  items j hj := by
    rcases List.mem_append.mp hj with hj | hj
    · exact hp.items j hj
    · rw [List.mem_singleton.mp hj]
      exact ⟨f, hf⟩

theorem perm_identifiers (hi : i ∈ chosen) (hf : request.mmFeatures[i]? = some f) :
    (identifiers request chosen).Perm (f.identifier :: identifiers request (chosen.erase i)) := by
  have hperm := (List.perm_cons_erase hi).filterMap
    fun j => request.mmFeatures[j]?.map MultiModalFeatureSpec.identifier
  rw [List.filterMap_cons_some (by rw [hf]; rfl)] at hperm
  exact hperm

theorem numEmbeds_erase (hi : i ∈ chosen) :
    numEmbeds request chosen = request.getNumEncoderEmbeds i + numEmbeds request (chosen.erase i) := by
  have hperm := (List.perm_cons_erase hi).map fun j => (request.getNumEncoderEmbeds j : Int)
  rw [numEmbeds, hperm.sum_eq, List.map_cons, List.sum_cons, numEmbeds]

theorem numEmbeds_nonneg (request : Request) (chosen : List Nat) : 0 ≤ numEmbeds request chosen := by
  refine List.sum_nonneg fun n hn => ?_
  obtain ⟨i, -, rfl⟩ := List.mem_map.mp hn
  exact Int.natCast_nonneg _

theorem Planned.allocate (hb : Balanced size cacheSize e) (hsized : Sized size request)
    (hp : Planned e request chosen) (hi : i ∈ chosen) :
    ∃ e', e.allocate request i = .ok e' ∧ Balanced size cacheSize e' ∧ Planned e' request (chosen.erase i) ∧
      ∀ h refs, e.cached.get? h = some refs → e'.cached.get? h = some refs := by
  obtain ⟨f, hf⟩ := hp.items i hi
  have hperm := perm_identifiers hi hf
  have hnone := hp.missing _ (hperm.mem_iff.mpr List.mem_cons_self)
  have hsum := @numEmbeds_erase request _ _ hi
  have hrest := numEmbeds_nonneg request (chosen.erase i)
  have hfits := hp.fits
  obtain ⟨hnot, hnodup⟩ := List.nodup_cons.mp (hperm.nodup_iff.mp hp.distinct)
  obtain ⟨e', hok, hb', hfree, hkeep⟩ := allocate_balanced hb hsized hf hnone (by omega)
  refine ⟨e', hok, hb', ⟨by omega, fun h hmem => ?_, hnodup, fun j hj => ?_⟩, fun h refs hget => ?_⟩
  · rw [hkeep h fun heq => hnot (heq ▸ hmem)]
    exact hp.missing h (hperm.mem_iff.mpr (List.mem_cons_of_mem _ hmem))
  · exact hp.items j (List.mem_of_mem_erase hj)
  · rw [hkeep h fun heq => ?_]
    · exact hget
    · rw [heq, hnone] at hget
      cases hget

/-- What a call in order does: no assertion fails, the counters stay right and no data that a request
references is lost, unless the call is a reset. -/
theorem Call.run_balanced {call : Call} {t : Turn} (hb : Balanced size cacheSize e) (ht : t.Pending size e)
    (hsized : call.Sized size) (hallowed : call.Allowed t) :
    ∃ e' t', call.run cacheSize e t = .ok (e', t') ∧ Balanced size cacheSize e' ∧ t'.Pending size e' ∧
      (call ≠ .reset → ∀ h refs, e.cached.get? h = some refs → refs ≠ [] → e'.cached.contains h = true) := by
  cases call with
  | turnTo request =>
    exact ⟨e, _, rfl, hb, ⟨hsized, planned_nil hb request, fun _ => nofun⟩,
      fun _ _ _ hget _ => contains_of_get? hget⟩
  | checkAndUpdateCache i =>
    cases t with
    | checking request chosen missed =>
      obtain ⟨f, hf, hnot⟩ : ∃ f, request.mmFeatures[i]? = some f ∧
          f.identifier ∉ identifiers request chosen := by
        unfold Call.Allowed at hallowed
        dsimp only at hallowed
        split at hallowed
        · rename_i f hf
          exact ⟨f, hf, hallowed⟩
        · exact absurd hallowed id
      obtain ⟨hit, e', hok, hb', hroom, hmiss⟩ := checkAndUpdateCache_balanced hb request f.identifier
      have hget : Result.getItem request.mmFeatures i = .ok f := Result.getItem_eq_ok.mpr hf
      refine ⟨e', .checking request chosen (if hit then none else some i), ?_, hb',
        ⟨ht.1, ht.2.1.roomier hroom, fun j hj => ?_⟩, fun _ => hroom.referenced⟩
      · simp only [Call.run, mmHash, hget, Result.ok_bind, pure_bind, hok]
        rfl
      · split at hj
        · cases hj
        · rename_i hfalse
          obtain rfl := Option.some_inj.mp hj
          exact ⟨f, hf, hnot, hroom.missing _ (hmiss (Bool.eq_false_iff.mpr hfalse))⟩
    | idle => exact absurd hallowed id
    | allocating request left => exact absurd hallowed id
  | canAllocate encoderComputeBudget choose =>
    cases t with
    | checking request chosen missed =>
      cases missed with
      | none => exact absurd rfl hallowed
      | some i =>
        obtain ⟨f, hf, hnot, hnone⟩ := ht.2.2 i rfl
        obtain ⟨fits, e', hok, hb', hroom, hfits⟩ :=
          canAllocate_balanced hb request i encoderComputeBudget (numEmbeds request chosen)
        refine ⟨e', .checking request (if fits && choose then chosen ++ [i] else chosen) none, ?_, hb',
          ⟨ht.1, ?_, fun _ => nofun⟩, fun _ => hroom.referenced⟩
        · simp only [Call.run, hok, Result.ok_bind]
          rfl
        · split
          · rename_i htake
            have hfits := hfits (Bool.and_eq_true_iff.mp htake).1
            exact (ht.2.1.roomier hroom).choose hf hnot (hroom.missing _ hnone) hfits
          · exact ht.2.1.roomier hroom
    | idle => exact absurd hallowed id
    | allocating request left => exact absurd hallowed id
  | allocate i =>
    cases t with
    | checking request chosen missed =>
      obtain ⟨e', hok, hb', hp, hkeep⟩ := ht.2.1.allocate hb ht.1 hallowed
      refine ⟨e', .allocating request (chosen.erase i), ?_, hb', ⟨ht.1, hp⟩,
        fun _ h refs hget _ => contains_of_get? (hkeep h refs hget)⟩
      rw [Call.run, hok]
      rfl
    | allocating request left =>
      obtain ⟨e', hok, hb', hp, hkeep⟩ := ht.2.allocate hb ht.1 hallowed
      refine ⟨e', .allocating request (left.erase i), ?_, hb', ⟨ht.1, hp⟩,
        fun _ h refs hget _ => contains_of_get? (hkeep h refs hget)⟩
      rw [Call.run, hok]
      rfl
    | idle => exact absurd hallowed id
  | freeEncoderInput request i =>
    obtain ⟨hb', hloose⟩ := freeEncoderInput_balanced hb hsized i
    have hroom := hloose.roomier
    exact ⟨_, t, rfl, hb', ht.roomier hroom, fun _ => hroom.referenced⟩
  | free request =>
    obtain ⟨hb', hloose⟩ := free_balanced hb hsized
    have hroom := hloose.roomier
    exact ⟨_, t, rfl, hb', ht.roomier hroom, fun _ => hroom.referenced⟩
  | getFreedMmHashes =>
    obtain ⟨hb', hroom⟩ := getFreedMmHashes_balanced hb
    exact ⟨_, t, rfl, hb', ht.roomier hroom, fun _ => hroom.referenced⟩
  | reset => exact ⟨_, .idle, rfl, reset_balanced hb, trivial, fun hne => absurd rfl hne⟩

theorem runCalls_balanced {calls : List Call} {t : Turn} (hb : Balanced size cacheSize e)
    (ht : t.Pending size e) (hsized : ∀ call ∈ calls, call.Sized size)
    (hordered : Ordered cacheSize calls e t) :
    ∃ e' t', runCalls cacheSize calls e t = .ok (e', t') ∧ Balanced size cacheSize e' ∧
      t'.Pending size e' := by
  induction calls generalizing e t with
  | nil => exact ⟨e, t, rfl, hb, ht⟩
  | cons call calls ih =>
    obtain ⟨hcall, hcalls⟩ := List.forall_mem_cons.mp hsized
    obtain ⟨e₁, t₁, hok, hb₁, ht₁, -⟩ := call.run_balanced hb ht hcall hordered.1
    have hrest := hordered.2
    rw [hok] at hrest
    rw [runCalls, hok, Result.ok_bind]
    exact ih hb₁ ht₁ hcalls hrest

theorem runCalls_append (calls calls' : List Call) (e : EncoderCacheManager) (t : Turn) :
    runCalls cacheSize (calls ++ calls') e t =
      runCalls cacheSize calls e t >>= fun s => runCalls cacheSize calls' s.1 s.2 := by
  induction calls generalizing e t with
  | nil => rfl
  | cons call calls ih =>
    rw [List.cons_append, runCalls, runCalls]
    cases call.run cacheSize e t with
    | error x => rfl
    | ok s => exact ih s.1 s.2

theorem ordered_append {calls calls' : List Call} {t : Turn} :
    Ordered cacheSize (calls ++ calls') e t ↔ Ordered cacheSize calls e t ∧
      ∀ e' t', runCalls cacheSize calls e t = .ok (e', t') → Ordered cacheSize calls' e' t' := by
  induction calls generalizing e t with
  | nil =>
    refine ⟨fun h => ⟨trivial, fun e' t' heq => ?_⟩, fun h => h.2 e t rfl⟩
    cases heq
    exact h
  | cons call calls ih =>
    rw [List.cons_append, Ordered, Ordered, runCalls, and_assoc]
    refine and_congr_right fun _ => ?_
    cases call.run cacheSize e t with
    | error x => exact iff_of_true trivial ⟨trivial, fun _ _ => nofun⟩
    | ok s => exact ih

/-- Over every sequence of calls in order: no call fails, the counters agree with the entries before and after
every call, and only a reset drops data that a request references. -/
theorem balanced_of_ordered (size : String → Nat) (cacheSize : Nat) (calls : List Call) (call : Call)
    (hsized : ∀ c ∈ calls ++ [call], c.Sized size)
    (hordered : Ordered cacheSize (calls ++ [call]) (init false cacheSize) .idle) :
    ∃ e t e' t', runCalls cacheSize calls (init false cacheSize) .idle = .ok (e, t) ∧
      Balanced size cacheSize e ∧ call.run cacheSize e t = .ok (e', t') ∧ Balanced size cacheSize e' ∧
      (call ≠ .reset → ∀ h refs, e.cached.get? h = some refs → refs ≠ [] →
        e'.cached.contains h = true) := by
  obtain ⟨hfirst, hlast⟩ := ordered_append.mp hordered
  obtain ⟨e, t, hok, hb, ht⟩ := runCalls_balanced (t := .idle) (balanced_init size cacheSize) trivial
    (fun c hc => hsized c (List.mem_append_left _ hc)) hfirst
  obtain ⟨e', t', hrun, hb', -, hkeep⟩ := call.run_balanced hb ht
    (hsized call (List.mem_append_right _ (List.mem_singleton_self call))) (hlast e t hok).1
  exact ⟨e, t, e', t', hok, hb, hrun, hb', hkeep⟩

def itemsRequest (requestId : ReqId) (items : List (String × Nat)) : Request :=
  { requestId, mmFeatures := items.map fun item => ⟨item.1, 0, item.2, none⟩ }

def twoRequests : List Call :=
  [.turnTo (itemsRequest "a" [("x", 4), ("y", 5)]), .checkAndUpdateCache 0, .canAllocate 20 true,
    .checkAndUpdateCache 1, .canAllocate 16 true, .allocate 0, .allocate 1,
    .free (itemsRequest "a" [("x", 4), ("y", 5)]), .turnTo (itemsRequest "b" [("x", 4), ("z", 6)]),
    .checkAndUpdateCache 0, .checkAndUpdateCache 1, .canAllocate 20 true]

theorem balanced_of_ordered_twoRequests :
    ∃ e, Balanced (fun h => if h = "x" then 4 else if h = "y" then 5 else 6) 10 e ∧ e.freed = ["y"] ∧
      e.numFreeSlots = 0 := by
  obtain ⟨e, t, e', t', hok, hb, hrun, hb', -⟩ :=
    balanced_of_ordered (fun h => if h = "x" then 4 else if h = "y" then 5 else 6) 10 twoRequests (.allocate 1)
      (by simp [twoRequests, Call.Sized, Sized, itemsRequest, PlaceholderRange.getNumEmbeds])
      (by decide +kernel)
  have hlast : Result.holds (runCalls 10 (twoRequests ++ [.allocate 1]) (init false 10) .idle)
      (fun s => s.1.freed = ["y"] ∧ s.1.numFreeSlots = 0) = true := by decide +kernel
  obtain ⟨⟨e₁, t₁⟩, hall, hfacts⟩ := Result.exists_of_holds hlast
  have hjoin : runCalls 10 (twoRequests ++ [.allocate 1]) (init false 10) .idle = .ok (e', t') := by
    rw [runCalls_append, hok, Result.ok_bind]
    dsimp only [runCalls]
    rw [hrun]
    rfl
  obtain ⟨rfl, rfl⟩ := Prod.mk.inj (Except.ok.inj (hall.symm.trans hjoin))
  exact ⟨e₁, hb', of_decide_eq_true hfacts⟩

end EncoderCacheManager

end Vllm
