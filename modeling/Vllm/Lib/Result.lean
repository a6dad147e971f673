import Mathlib.Tactic.Common

universe u v

namespace Vllm

inductive PyError
  | assertionError (msg : String)
  | valueError (msg : String)
  | runtimeError (msg : String)
  | indexError
  | keyError
  | notImplementedError (msg : String)
  | memoryError (msg : String)
  | overflowError (msg : String)
  | zeroDivisionError
  | nameError (name : String)
  deriving DecidableEq, Repr

abbrev Result (α : Type u) := Except PyError α

namespace Result

variable {α : Type u} {β : Type u}

/-- Python's `assert c, msg`. -/
def ensure (c : Prop) [Decidable c] (msg : String) : Result PUnit.{u + 1} :=
  if c then .ok ⟨⟩ else .error (.assertionError msg)

def getItem (l : List α) (i : Nat) : Result α :=
  match l[i]? with
  | some a => .ok a
  | none => .error .indexError

def holds {α : Type u} (x : Result α) (p : α → Bool) : Bool :=
  match x with
  | .ok a => p a
  | .error _ => false

theorem exists_of_holds {α : Type u} {x : Result α} {p : α → Bool} (h : holds x p = true) :
    ∃ a, x = .ok a ∧ p a = true := by
  cases x with
  | ok a => exact ⟨a, rfl, h⟩
  | error e => cases h

def collect {α : Type u} {β : Type v} (x : Result α) (f : α → List β) : List β :=
  match x with
  | .ok a => f a
  | .error _ => []

@[simp] theorem collect_ok {α : Type u} {β : Type v} (a : α) (f : α → List β) :
    collect (.ok a) f = f a := rfl

def raises {α : Type u} (x : Result α) (e : PyError) : Bool :=
  match x with
  | .ok _ => false
  | .error e' => e' = e

theorem eq_error_of_raises {α : Type u} {x : Result α} {e : PyError} (h : raises x e = true) :
    x = .error e := by
  cases x with
  | ok a => cases h
  | error e' => rw [of_decide_eq_true h]

@[simp] theorem bind_eq_ok {x : Result α} {f : α → Result β} {b : β} :
    (x >>= f) = .ok b ↔ ∃ a, x = .ok a ∧ f a = .ok b := by
  cases x with
  | error e => simp [bind, Except.bind]
  | ok a => simp [bind, Except.bind]

@[simp] theorem map_eq_ok {x : Result α} {f : α → β} {b : β} :
    (f <$> x) = .ok b ↔ ∃ a, x = .ok a ∧ f a = b := by
  cases x with
  | error e => simp [Functor.map, Except.map]
  | ok a => simp [Functor.map, Except.map]

theorem ok_bind (a : α) (f : α → Result β) : ((.ok a : Result α) >>= f) = f a := rfl

@[simp] theorem pure_eq_ok {a b : α} : (pure a : Result α) = .ok b ↔ a = b := by
  simp [pure, Except.pure]

@[simp] theorem throw_eq_ok {e : PyError} {b : α} : (throw e : Result α) = .ok b ↔ False := by
  simp [throw, throwThe, MonadExceptOf.throw]

@[simp] theorem ensure_eq_ok {c : Prop} [Decidable c] {msg : String} {x : PUnit.{u + 1}} :
    ensure c msg = .ok x ↔ c := by
  unfold ensure
  split <;> simp [*]

@[simp] theorem getItem_eq_ok {l : List α} {i : Nat} {a : α} :
    getItem l i = .ok a ↔ l[i]? = some a := by
  unfold getItem
  split <;> simp [*]

def Avoids {α : Type u} (E : PyError → Prop) (x : Result α) : Prop := ∀ e, x = .error e → ¬ E e

section Avoids

variable {γ : Type v} {E : PyError → Prop} {e : PyError}

theorem Avoids.ne {x : Result γ} (h : Avoids E x) (he : E e) : x ≠ .error e :=
  fun hx => h e hx he

@[simp] theorem avoids_ok {a : γ} : Avoids E (.ok a : Result γ) := by simp [Avoids]

@[simp] theorem avoids_error : Avoids E (.error e : Result γ) ↔ ¬ E e := by simp [Avoids]

@[simp] theorem avoids_pure {a : γ} : Avoids E (pure a : Result γ) := by
  simp [Avoids, pure, Except.pure]

@[simp] theorem avoids_throw : Avoids E (throw e : Result γ) ↔ ¬ E e := by
  simp [Avoids, throw, throwThe, MonadExceptOf.throw]

@[simp] theorem avoids_bind {x : Result α} {f : α → Result β} :
    Avoids E (x >>= f) ↔ Avoids E x ∧ ∀ a, x = .ok a → Avoids E (f a) := by
  cases x with
  | error e => simp [Avoids, bind, Except.bind]
  | ok a => simp [Avoids, bind, Except.bind]

@[simp] theorem avoids_map {x : Result α} {f : α → β} : Avoids E (f <$> x) ↔ Avoids E x := by
  cases x with
  | error e => simp [Avoids, Functor.map, Except.map]
  | ok a => simp [Avoids, Functor.map, Except.map]

@[simp] theorem avoids_ite {c : Prop} [Decidable c] {x y : Result γ} :
    Avoids E (if c then x else y) ↔ (c → Avoids E x) ∧ (¬ c → Avoids E y) := by
  split <;> simp [*]

@[simp] theorem avoids_ensure {c : Prop} [Decidable c] {msg : String} :
    Avoids E (ensure c msg) ↔ (¬ c → ¬ E (.assertionError msg)) := by
  unfold ensure
  split <;> simp [*]

@[simp] theorem avoids_getItem {l : List γ} {i : Nat} :
    Avoids E (getItem l i) ↔ (l[i]? = none → ¬ E .indexError) := by
  unfold getItem
  split <;> simp [*]

theorem foldlM_ok {f : β → γ → Result β} {P : β → List γ → Prop}
    (hf : ∀ b a l, P b (a :: l) → ∃ b', f b a = .ok b' ∧ P b' l) {b : β} {l : List γ}
    (h : P b l) : ∃ b', l.foldlM f b = .ok b' ∧ P b' [] := by
  induction l generalizing b with
  | nil => exact ⟨b, rfl, h⟩
  | cons a l ih =>
    obtain ⟨b', hok, hP⟩ := hf b a l h
    obtain ⟨b'', hok', hP'⟩ := ih hP
    refine ⟨b'', ?_, hP'⟩
    rw [List.foldlM_cons, hok]
    exact hok'

theorem notMem_done {l done todo : List γ} {a : γ} (hl : l = done ++ a :: todo) (h : l.Nodup) :
    a ∉ done := by
  subst hl
  exact fun hin => (List.nodup_append.1 h).2.2 a hin a List.mem_cons_self rfl

theorem foldlM_inv {f : β → γ → Result β} {l : List γ} {I : List γ → β → Prop}
    (hf : ∀ done a todo b, l = done ++ a :: todo → I done b →
      ∃ b', f b a = .ok b' ∧ I (done ++ [a]) b')
    {b : β} (h : I [] b) : ∃ b', l.foldlM f b = .ok b' ∧ I l b' := by
  obtain ⟨b', hok, done, hl, hinv⟩ := foldlM_ok (f := f)
    (P := fun b todo => ∃ done, l = done ++ todo ∧ I done b)
    (by
      rintro b a todo ⟨done, hl, hinv⟩
      obtain ⟨b', hb', hinv'⟩ := hf done a todo b hl hinv
      exact ⟨b', hb', done ++ [a], by rw [hl, List.append_assoc, List.singleton_append], hinv'⟩)
    ⟨[], rfl, h⟩
  rw [List.append_nil] at hl
  exact ⟨b', hok, hl ▸ hinv⟩

theorem foldlM_inv_of_ok {f : β → γ → Result β} {l : List γ} {I : List γ → β → Prop}
    (hf : ∀ done a todo b b', l = done ++ a :: todo → I done b → f b a = .ok b' →
      I (done ++ [a]) b')
    {b b' : β} (h : I [] b) (hok : l.foldlM f b = .ok b') : I l b' := by
  suffices hrest : ∀ done todo b, l = done ++ todo → I done b → todo.foldlM f b = .ok b' →
      I l b' from hrest [] l b rfl h hok
  intro done todo
  induction todo generalizing done with
  | nil =>
    intro b hl hinv hb
    rw [List.append_nil] at hl
    cases hb
    exact hl ▸ hinv
  | cons a todo ih =>
    intro b hl hinv hb
    rw [List.foldlM_cons, bind_eq_ok] at hb
    obtain ⟨b₁, hb₁, hb⟩ := hb
    exact ih (done ++ [a]) b₁ (by rw [hl, List.append_assoc, List.singleton_append])
      (hf done a todo b b₁ hl hinv hb₁) hb

theorem foldlM_keeps {f : β → γ → Result β} {P : β → Prop}
    (hf : ∀ b a b', P b → f b a = .ok b' → P b') {b b' : β} {l : List γ} (h : P b)
    (hok : l.foldlM f b = .ok b') : P b' := by
  induction l generalizing b with
  | nil =>
    cases hok
    exact h
  | cons a l ih =>
    rw [List.foldlM_cons, bind_eq_ok] at hok
    obtain ⟨b₁, hb₁, hok⟩ := hok
    exact ih (hf b a b₁ h hb₁) hok

theorem mapM_ok {f : γ → Result β} {l : List γ} {P : β → Prop}
    (h : ∀ a ∈ l, ∃ b, f a = .ok b ∧ P b) :
    ∃ bs, l.mapM f = .ok bs ∧ bs.length = l.length ∧ ∀ b ∈ bs, P b := by
  induction l with
  | nil => exact ⟨[], rfl, rfl, nofun⟩
  | cons a l ih =>
    obtain ⟨b, hb, hP⟩ := h a List.mem_cons_self
    obtain ⟨bs, hbs, hlen, hall⟩ := ih fun a ha => h a (List.mem_cons_of_mem _ ha)
    refine ⟨b :: bs, ?_, congrArg Nat.succ hlen, List.forall_mem_cons.2 ⟨hP, hall⟩⟩
    rw [List.mapM_cons, hb, hbs]
    rfl

theorem mapM_eq_ok {f : γ → Result β} {g : γ → β} {l : List γ} (h : ∀ a ∈ l, f a = .ok (g a)) :
    l.mapM f = .ok (l.map g) := by
  induction l with
  | nil => rfl
  | cons a l ih =>
    rw [List.mapM_cons, h a List.mem_cons_self, ih fun b hb => h b (List.mem_cons_of_mem _ hb)]
    rfl

theorem foldlM_eq_ok {f : β → γ → Result β} {g : β → γ → β} {l : List γ} {b : β}
    (h : ∀ b, ∀ a ∈ l, f b a = .ok (g b a)) : l.foldlM f b = .ok (l.foldl g b) := by
  induction l generalizing b with
  | nil => rfl
  | cons a l ih =>
    rw [List.foldlM_cons, h b a List.mem_cons_self]
    exact ih fun b c hc => h b c (List.mem_cons_of_mem _ hc)

theorem of_mapM_ok {f : γ → Result β} {l : List γ} {bs : List β} (h : l.mapM f = .ok bs) :
    bs.length = l.length ∧ ∀ b ∈ bs, ∃ a ∈ l, f a = .ok b := by
  induction l generalizing bs with
  | nil =>
    cases h
    exact ⟨rfl, nofun⟩
  | cons a l ih =>
    rw [List.mapM_cons] at h
    simp only [bind_eq_ok, pure_eq_ok] at h
    obtain ⟨b, hb, bs', hbs, rfl⟩ := h
    obtain ⟨hlen, hmem⟩ := ih hbs
    refine ⟨congrArg Nat.succ hlen, List.forall_mem_cons.2 ⟨⟨a, List.mem_cons_self, hb⟩, ?_⟩⟩
    intro b' hb'
    obtain ⟨a', ha', h'⟩ := hmem b' hb'
    exact ⟨a', List.mem_cons_of_mem _ ha', h'⟩

theorem avoids_foldlM {f : β → γ → Result β} {l : List γ} {b : β}
    (hf : ∀ b a, Avoids E (f b a)) : Avoids E (l.foldlM f b) := by
  induction l generalizing b with
  | nil => exact avoids_pure
  | cons a l ih =>
    rw [List.foldlM_cons, avoids_bind]
    exact ⟨hf b a, fun b' _ => ih⟩

theorem avoids_mapM {f : γ → Result β} {l : List γ} (hf : ∀ a, Avoids E (f a)) :
    Avoids E (l.mapM f) := by
  induction l with
  | nil => exact avoids_pure
  | cons a l ih =>
    rw [List.mapM_cons]
    simp [hf, ih]

end Avoids

end Result

end Vllm

/-! Numbers computed with possible exceptions, from parameters of which one grows. -/

namespace Vllm.Result

inductive Grows : Result Nat → Result Nat → Prop
  | error (e : PyError) : Grows (.error e) (.error e)
  | ok {m n : Nat} (h : m ≤ n) : Grows (.ok m) (.ok n)

variable {α : Type} {x y : Result Nat}

theorem Grows.refl (x : Result Nat) : Grows x x := by
  cases x with
  | error e => exact .error e
  | ok n => exact .ok (Nat.le_refl n)

theorem Grows.bind {f g : Nat → Result Nat} (h : Grows x y) (hf : ∀ m n, m ≤ n → Grows (f m) (g n)) :
    Grows (x >>= f) (y >>= g) := by
  cases h with
  | error e => exact .error e
  | ok h => exact hf _ _ h

theorem grows_bind {x : Result α} {f g : α → Result Nat} (hf : ∀ a, Grows (f a) (g a)) :
    Grows (x >>= f) (x >>= g) := by
  cases x with
  | error e => exact .error e
  | ok a => exact hf a

theorem Grows.foldlM {f g : Nat → α → Result Nat} {l : List α}
    (hf : ∀ a m n, m ≤ n → Grows (f m a) (g n a)) {m n : Nat} (h : m ≤ n) :
    Grows (l.foldlM f m) (l.foldlM g n) := by
  induction l generalizing m n with
  | nil => exact .ok h
  | cons a l ih =>
    rw [List.foldlM_cons, List.foldlM_cons]
    exact (hf a m n h).bind fun m n h => ih h

theorem Grows.ok_le {m : Nat} (h : Grows x y) (hy : y = .ok m) : ∃ n, x = .ok n ∧ n ≤ m := by
  cases h with
  | error e => cases hy
  | ok h =>
    cases hy
    exact ⟨_, rfl, h⟩

end Vllm.Result
