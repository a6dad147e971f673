import Mathlib.Data.Finset.Card
import Mathlib.Logic.Equiv.Basic
import Vllm.LogitsProcessor

namespace Vllm.Worker

variable {F V : Type}

namespace BatchReplay

abbrev Value (F V : Type) := SamplingParams F → Option (List Token) → List Token → V

def added (val : Value F V) (f : Nat → V) (as : List (AddedRequest F)) : Nat → V :=
  as.foldl (fun f a => Function.update f a.index (val a.params a.promptTokIds a.outputTokIds)) f

def removed (z : V) (f : Nat → V) (is : List Nat) : Nat → V :=
  is.foldl (fun f i => Function.update f i z) f

def move (z : V) (f : Nat → V) : MovedRequest → Nat → V
  | (a, b, .unidirectional) => Function.update (Function.update f b (f a)) a z
  | (a, b, .swap) => f ∘ Equiv.swap a b

def moved (z : V) (f : Nat → V) (ms : List MovedRequest) : Nat → V := ms.foldl (move z) f

def replay (z : V) (val : Value F V) (f : Nat → V) (as : List (AddedRequest F)) (is : List Nat)
    (ms : List MovedRequest) : Nat → V :=
  moved z (removed z (added val f as) is) ms

variable {z : V} {val : Value F V} {f : Nat → V}

theorem removed_apply (is : List Nat) (j : Nat) :
    removed z f is j = if j ∈ is then z else f j := by
  induction is generalizing f with
  | nil => rfl
  | cons i is ih =>
    show removed z (Function.update f i z) is j = _
    rw [ih]
    by_cases hj : j = i
    · subst hj
      simp
    · simp [hj]

theorem replay_rel {W : Type} {R : V → W → Prop} {z' : W} {val' : Value F W} {f' : Nat → W}
    {as : List (AddedRequest F)} {is : List Nat} {ms : List MovedRequest} (hz : R z z')
    (has : ∀ a ∈ as, R (val a.params a.promptTokIds a.outputTokIds)
      (val' a.params a.promptTokIds a.outputTokIds))
    (hf : ∀ i, R (f i) (f' i)) (i : Nat) :
    R (replay z val f as is ms i) (replay z' val' f' as is ms i) := by
  have hupdate : ∀ (f : Nat → V) (f' : Nat → W) (j : Nat) (v : V) (v' : W),
      (∀ i, R (f i) (f' i)) → R v v' →
      ∀ i, R (Function.update f j v i) (Function.update f' j v' i) := by
    intro f f' j v v' hf hv i
    rw [Function.update_apply, Function.update_apply]
    split
    · exact hv
    · exact hf i
  have hadded : ∀ i, R (added val f as i) (added val' f' as i) := by
    clear i
    induction as generalizing f f' with
    | nil => exact hf
    | cons a as ih =>
      apply ih (fun a' ha' => has a' (List.mem_cons_of_mem a ha'))
      exact hupdate _ _ _ _ _ hf (has a List.mem_cons_self)
  have hremoved : ∀ i, R (removed z (added val f as) is i) (removed z' (added val' f' as) is i) := by
    intro i
    rw [removed_apply, removed_apply]
    split
    · exact hz
    · exact hadded i
  revert i
  unfold replay
  generalize removed z (added val f as) is = g at hremoved
  generalize removed z' (added val' f' as) is = g' at hremoved
  induction ms generalizing g g' with
  | nil => exact hremoved
  | cons m ms ih =>
    apply ih
    obtain ⟨a, b, d⟩ := m
    cases d with
    | unidirectional => exact hupdate _ _ _ _ _ (hupdate _ _ _ _ _ hremoved (hremoved a)) hz
    | swap => exact fun i => hremoved _

theorem replay_all {P : V → Prop} {as : List (AddedRequest F)} {is : List Nat}
    {ms : List MovedRequest} (hz : P z) (has : ∀ a ∈ as, P (val a.params a.promptTokIds a.outputTokIds))
    (hf : ∀ i, P (f i)) (i : Nat) : P (replay z val f as is ms i) :=
  @replay_rel F V z val f V (fun v _ => P v) z val f as is ms hz has hf i

theorem added_concat (as : List (AddedRequest F)) (a : AddedRequest F) :
    added val f (as ++ [a]) =
      Function.update (added val f as) a.index (val a.params a.promptTokIds a.outputTokIds) := by
  rw [added, List.foldl_append]
  rfl

theorem moved_concat (ms : List MovedRequest) (m : MovedRequest) :
    moved z f (ms ++ [m]) = move z (moved z f ms) m := by
  rw [moved, List.foldl_append]
  rfl

theorem move_update {m : MovedRequest} {e : Nat} (ha : m.1 ≠ e) (hb : m.2.1 ≠ e) (v : V) :
    move z (Function.update f e v) m = Function.update (move z f m) e v := by
  obtain ⟨a, b, d⟩ := m
  change a ≠ e at ha
  change b ≠ e at hb
  funext j
  cases d with
  | unidirectional =>
    simp only [move, Function.update_apply]
    split_ifs <;> simp_all
  | swap =>
    simp only [move, Function.comp_apply, Function.update_apply]
    by_cases hj : j = e
    · subst hj
      rw [Equiv.swap_apply_of_ne_of_ne ha.symm hb.symm]
    · have hne : Equiv.swap a b j ≠ e := by
        intro h
        rw [Equiv.swap_apply_eq_iff, Equiv.swap_apply_of_ne_of_ne ha.symm hb.symm] at h
        exact hj h
      rw [if_neg hne, if_neg hj]

theorem moved_update {ms : List MovedRequest} {e : Nat}
    (h : ∀ m ∈ ms, m.1 ≠ e ∧ m.2.1 ≠ e) (v : V) :
    moved z (Function.update f e v) ms = Function.update (moved z f ms) e v := by
  induction ms generalizing f with
  | nil => rfl
  | cons m ms ih =>
    obtain ⟨ha, hb⟩ := h m List.mem_cons_self
    show moved z (move z (Function.update f e v) m) ms = Function.update (moved z (move z f m) ms) e v
    rw [move_update ha hb, ih fun m' hm' => h m' (List.mem_cons_of_mem m hm')]

end BatchReplay

end Vllm.Worker
