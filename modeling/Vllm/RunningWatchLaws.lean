import Vllm.Engine
import Vllm.RunningWatch

namespace Vllm

namespace Step

open Scheduler

variable {c : SchedulerConfig} {env : Outside} {st st₁ st' : Step} {r v : Ref} {n : Int} {i j j' k fuel : Nat}
  {examined shifted : List Ref} {ps : List Preemption}

def shiftedOf (ps : List Preemption) : List Ref := ps.filterMap Preemption.shifted

theorem shiftedOf_cons (p : Preemption) (ps : List Preemption) :
    shiftedOf (p :: ps) = p.shifted.toList ++ shiftedOf ps := by
  unfold shiftedOf
  rw [List.filterMap_cons]
  cases p.shifted <;> rfl

structure Known (examined shifted : List Ref) (k j : Nat) (st : Step) : Prop where
  front : ∀ x ∈ st.sched.running.take k, x ∈ examined ∨ x ∈ shifted
  index : st.numScheduledTokens.size ≤ j

theorem Known.preempt (hpolicy : c.policy = .priority) (h : Known examined shifted (j + 1) j st)
    (hv : st.takeVictim c j = .ok (v, j', st₁)) (hpre : st₁.preempt c v = .ok st') :
    Known examined (shifted ++ (Preemption.mk st j v).shifted.toList) (j' + 1) j' st' := by
  obtain ⟨s, hs, rfl⟩ := preempt_eq_ok hpre
  obtain ⟨-, rfl⟩ := preemptRequest_eq_ok hs
  rcases (takeVictim_priority hpolicy hv).2 with ⟨hnot, rfl, rfl⟩ | ⟨hscheduled, rfl, hun⟩
  · refine ⟨fun x hx => ?_, h.index⟩
    change x ∈ (st.sched.running.erase v).take (j' + 1) at hx
    by_cases hfront : v ∈ st.sched.running.take (j' + 1)
    · have hshifted : (Preemption.mk st j' v).shifted = st.sched.running[j' + 1]? := if_pos ⟨hfront, hnot⟩
      rw [take_erase_of_mem hfront, List.mem_append] at hx
      rw [hshifted]
      rcases hx with hx | hx
      · exact (h.front x (List.mem_of_mem_erase hx)).imp_right (List.mem_append_left _)
      · exact .inr (List.mem_append_right _ hx)
    · rw [take_erase_of_notMem hfront] at hx
      exact (h.front x hx).imp_right (List.mem_append_left _)
  · obtain ⟨m, hget, rfl⟩ := unschedule_eq_ok hun
    have hsize := Dict.size_erase st.numScheduledTokens (st.sched.objs v).requestId
    change st.numScheduledTokens.get? (st.sched.objs v).requestId = some m at hget
    rw [hget, Option.map_some, Option.getD_some] at hsize
    have hindex := h.index
    have hpos : 0 < j := by omega
    refine ⟨fun x hx => ?_, ?_⟩
    · change x ∈ (st.sched.running.erase v).take (j - 1 + 1) at hx
      rw [Nat.sub_add_cancel hpos] at hx
      exact (h.front x (take_erase_subset hx)).imp_right (List.mem_append_left _)
    · show (st.numScheduledTokens.erase (st.sched.objs v).requestId).size ≤ j - 1
      omega

theorem Known.victims (hpolicy : c.policy = .priority) (hvictims : Victims c r n j st ps j' st')
    (h : Known examined shifted (j + 1) j st) : Known examined (shifted ++ shiftedOf ps) (j' + 1) j' st' := by
  induction hvictims generalizing shifted with
  | nil =>
    unfold shiftedOf
    rw [List.filterMap_nil, List.append_nil]
    exact h
  | @cons j j₁ j' st st₁ st₂ st' kv v ps hv hpre hne hrest ih =>
    have hkv : Known examined shifted (j + 1) j (st.withKv kv) := ⟨h.front, h.index⟩
    have hstep := ih (hkv.preempt hpolicy hv hpre)
    rw [shiftedOf_cons, ← List.append_assoc]
    exact hstep

theorem Known.visitRunning (hpolicy : c.policy = .priority) (h : Known examined shifted j j st)
    (hr : st.sched.running[j]? = some r) (hvisit : st.visitRunning c env j r = .ok (true, j', st')) :
    Known (examined ++ [r]) (shifted ++ shiftedOf (roundPreemptions c env st j r)) j' j' st' := by
  have hfront : ∀ x ∈ st.sched.running.take (j + 1), x ∈ examined ++ [r] ∨ x ∈ shifted := by
    intro x hx
    rw [List.take_add_one, hr, List.mem_append] at hx
    rcases hx with hx | hx
    · exact (h.front x hx).imp_left (List.mem_append_left _)
    · exact .inl (List.mem_append_right _ hx)
  rcases visitRunning_round hvisit with
    ⟨rfl, hnone, e, rfl⟩ | ⟨n, plan, j₁, st₁, kv, blocks, rfl, hvictims, hrun⟩
  · rw [hnone]
    show Known _ (shifted ++ []) _ _ _
    rw [List.append_nil]
    exact ⟨hfront, Nat.le_succ_of_le h.index⟩
  · have hinner : Known (examined ++ [r]) shifted (j + 1) j (st.withEncoder plan.encoder) := ⟨hfront, h.index⟩
    have hlast := hinner.victims hpolicy hvictims
    have hindex := hlast.index
    obtain ⟨e, inputs, budget, rfl⟩ := scheduleEncoder_frame hrun
    refine ⟨hlast.front, ?_⟩
    show (st₁.numScheduledTokens.set (st₁.sched.objs r).requestId n).size ≤ j₁ + 1
    have hsize := Dict.size_set st₁.numScheduledTokens (st₁.sched.objs r).requestId n
    omega

theorem watchRunning_invariant {p : List Ref → List Ref → Nat → Step → Prop}
    (hround : ∀ {examined shifted : List Ref} {j j' : Nat} {st st' : Step} {r : Ref}, p examined shifted j st →
      st.sched.running[j]? = some r → st.visitRunning c env j r = .ok (true, j', st') →
      p (examined ++ [r]) (shifted ++ shiftedOf (roundPreemptions c env st j r)) j' st')
    (h : p examined shifted j st) (hrun : st.scheduleRunning c env fuel j = .ok st')
    (hend : (watchRunning c env fuel j st).ending = .exhausted) :
    ∃ j', st'.sched.running.length ≤ j' ∧ p (examined ++ (watchRunning c env fuel j st).examined)
      (shifted ++ shiftedOf (watchRunning c env fuel j st).preemptions) j' st' := by
  induction fuel generalizing examined shifted j st with
  | zero => cases hend
  | succ fuel ih =>
    unfold scheduleRunning at hrun
    unfold watchRunning at hend ⊢
    by_cases hbudget : st.tokenBudget > 0
    · simp only [if_pos hbudget] at hrun hend ⊢
      cases hr : st.sched.running[j]? with
      | none =>
        rw [hr] at hrun
        cases hrun
        refine ⟨j, List.getElem?_eq_none_iff.mp hr, ?_⟩
        show p (examined ++ []) (shifted ++ []) j st'
        rw [List.append_nil, List.append_nil]
        exact h
      | some r =>
        simp only [hr] at hrun hend ⊢
        cases hvisit : st.visitRunning c env j r with
        | error e =>
          rw [hvisit] at hrun
          cases hrun
        | ok round =>
          obtain ⟨goOn, j₁, st₁⟩ := round
          rw [hvisit] at hrun
          simp only [hvisit] at hend ⊢
          cases goOn with
          | false => cases hend
          | true =>
            obtain ⟨j', hlength, hinv⟩ := ih (hround h hr hvisit) hrun hend
            refine ⟨j', hlength, ?_⟩
            unfold shiftedOf at hinv
            rw [List.append_assoc, List.append_assoc, ← List.filterMap_append] at hinv
            exact hinv
    · simp only [if_neg hbudget] at hend
      cases hend

theorem victims_remaining (hpolicy : c.policy = .priority) (h : Victims c r n j st ps j' st') :
    st'.sched.running.length - j' ≤ st.sched.running.length - j := by
  induction h with
  | nil => exact le_rfl
  | @cons j j₁ j' st st₁ st₂ st' kv v ps hv hpre hne hrest ih =>
    obtain ⟨s, hs, rfl⟩ := preempt_eq_ok hpre
    obtain ⟨-, rfl⟩ := preemptRequest_eq_ok hs
    obtain ⟨hmem, hcases⟩ := takeVictim_priority hpolicy hv
    change v ∈ st.sched.running at hmem
    have hlength := List.length_erase_of_mem hmem
    rcases hcases with ⟨-, rfl, rfl⟩ | ⟨-, rfl, hun⟩
    · change st'.sched.running.length - j' ≤ (st.sched.running.erase v).length - j₁ at ih
      omega
    · obtain ⟨m, -, rfl⟩ := unschedule_eq_ok hun
      change st'.sched.running.length - j' ≤ (st.sched.running.erase v).length - (j - 1) at ih
      omega

theorem visitRunning_remaining (hpolicy : c.policy = .priority) (hr : st.sched.running[j]? = some r)
    (h : st.visitRunning c env j r = .ok (true, j', st')) :
    st'.sched.running.length - j' < st.sched.running.length - j := by
  obtain ⟨hlt, -⟩ := List.getElem?_eq_some_iff.mp hr
  rcases visitRunning_round h with ⟨rfl, -, e, rfl⟩ | ⟨n, plan, j₁, st₁, kv, blocks, rfl, hvictims, hrun⟩
  · show st.sched.running.length - (j + 1) < st.sched.running.length - j
    omega
  · have hremaining := victims_remaining hpolicy hvictims
    change st₁.sched.running.length - j₁ ≤ st.sched.running.length - j at hremaining
    obtain ⟨e, inputs, budget, rfl⟩ := scheduleEncoder_frame hrun
    show st₁.sched.running.length - (j₁ + 1) < st.sched.running.length - j
    omega

/-- How the loop ends. -/
inductive Ends (log : Log) (st : Step) : Prop
  | exhausted : log.ending = .exhausted → Ends log st
  | outOfBudget : log.ending = .outOfBudget → st.tokenBudget ≤ 0 → Ends log st
  | preempted {r : Ref} : log.ending = .preempted → log.examined.getLast? = some r → r ∈ st.preemptedReqs →
      Ends log st

theorem Ends.after {log : Log} (h : Ends log st) : Ends (log.after r ps) st := by
  cases h with
  | exhausted h => exact .exhausted h
  | outOfBudget h hbudget => exact .outOfBudget h hbudget
  | preempted h hlast hmem =>
    refine .preempted h ?_ hmem
    show (r :: log.examined).getLast? = _
    rw [List.getLast?_cons, hlast]
    rfl

theorem watchRunning_ends (hpolicy : c.policy = .priority) (hfuel : st.sched.running.length - j < fuel)
    (hrun : st.scheduleRunning c env fuel j = .ok st') : Ends (watchRunning c env fuel j st) st' := by
  induction fuel generalizing j st with
  | zero => omega
  | succ fuel ih =>
    unfold scheduleRunning at hrun
    unfold watchRunning
    by_cases hbudget : st.tokenBudget > 0
    · simp only [if_pos hbudget] at hrun ⊢
      cases hr : st.sched.running[j]? with
      | none => exact .exhausted rfl
      | some r =>
        simp only [hr] at hrun ⊢
        cases hvisit : st.visitRunning c env j r with
        | error e =>
          rw [hvisit] at hrun
          cases hrun
        | ok round =>
          obtain ⟨goOn, j₁, st₁⟩ := round
          rw [hvisit] at hrun
          cases goOn with
          | false =>
            cases hrun
            exact .preempted rfl rfl (visitRunning_stops hvisit)
          | true =>
            have hremaining := visitRunning_remaining hpolicy hr hvisit
            have hnext : st₁.sched.running.length - j₁ < fuel := by omega
            exact (ih hnext hrun).after
    · simp only [if_neg hbudget] at hrun ⊢
      cases hrun
      exact .outOfBudget rfl (by omega)

/-! Where no request runs twice, the requests that moved in front of the index are not examined. -/

structure Told (examined shifted : List Ref) (k : Nat) (st : Step) : Prop where
  seen : ∀ x ∈ examined, x ∈ st.sched.running → x ∈ st.sched.running.take k
  moved : ∀ x ∈ shifted, x ∈ st.sched.running.take k ∨ x ∈ st.preemptedReqs
  disjoint : ∀ x ∈ examined, x ∉ shifted
  gone : ∀ x ∈ st.preemptedReqs, x ∉ st.sched.running

theorem Told.congr (h : Told examined shifted k st) (hrunning : st'.sched.running = st.sched.running)
    (hpreempted : st'.preemptedReqs = st.preemptedReqs) : Told examined shifted k st' where
  seen := hrunning ▸ h.seen
  moved := hrunning ▸ hpreempted ▸ h.moved
  disjoint := h.disjoint
  gone := hrunning ▸ hpreempted ▸ h.gone

theorem preempt_frame (hpolicy : c.policy = .priority) (hv : st.takeVictim c j = .ok (v, j', st₁))
    (hpre : st₁.preempt c v = .ok st') : st'.sched.running = st.sched.running.erase v ∧
      st'.preemptedReqs = st.preemptedReqs ++ [v] := by
  obtain ⟨s, hs, rfl⟩ := preempt_eq_ok hpre
  obtain ⟨-, rfl⟩ := preemptRequest_eq_ok hs
  rcases (takeVictim_priority hpolicy hv).2 with ⟨-, rfl, rfl⟩ | ⟨-, rfl, hun⟩
  · exact ⟨rfl, rfl⟩
  · obtain ⟨m, -, rfl⟩ := unschedule_eq_ok hun
    exact ⟨rfl, rfl⟩

theorem Visiting.stays (hpolicy : c.policy = .priority) (hvis : Visiting c r j st)
    (hv : st.takeVictim c j = .ok (v, j', st₁)) {x : Ref} (hx : x ∈ st.sched.running.take (j + 1)) (hne : x ≠ v) :
    x ∈ (st.sched.running.erase v).take (j' + 1) := by
  rcases (takeVictim_priority hpolicy hv).2 with ⟨-, rfl, -⟩ | ⟨hscheduled, rfl, -⟩
  · exact mem_take_erase hx hne
  · have hfront := hvis.scheduled v hscheduled
    have hpos : 0 < j := by
      cases j with
      | zero => simp at hfront
      | succ j => exact j.succ_pos
    have hpred := mem_take_erase_pred (List.take_subset_take_left _ j.le_succ hfront) hx hne
    rwa [Nat.sub_add_cancel hpos]

theorem Told.preempt (hpolicy : c.policy = .priority) (hvis : Visiting c r j st)
    (h : Told examined shifted (j + 1) st) (hv : st.takeVictim c j = .ok (v, j', st₁))
    (hpre : st₁.preempt c v = .ok st') :
    Told examined (shifted ++ (Preemption.mk st j v).shifted.toList) (j' + 1) st' := by
  obtain ⟨hrunning, hpreempted⟩ := preempt_frame hpolicy hv hpre
  have hother : ∀ x ∈ st'.sched.running, x ∈ st.sched.running ∧ x ≠ v := by
    intro x hx
    rw [hrunning] at hx
    refine ⟨List.mem_of_mem_erase hx, fun hxv => ?_⟩
    rw [hxv] at hx
    exact hvis.nodup.not_mem_erase hx
  have hshifted : ∀ x ∈ (Preemption.mk st j v).shifted, v ∈ st.sched.running.take (j + 1) ∧
      v ∉ st.scheduledRunningReqs ∧ st.sched.running[j + 1]? = some x := by
    intro x hx
    unfold Preemption.shifted at hx
    split at hx
    · rename_i hmoves
      exact ⟨hmoves.1, hmoves.2, hx⟩
    · cases hx
  refine ⟨fun x hx hrun => ?_, fun x hx => ?_, fun x hx hmem => ?_, fun x hx hrun => ?_⟩
  · obtain ⟨hbefore, hne⟩ := hother x hrun
    rw [hrunning]
    exact hvis.stays hpolicy hv (h.seen x hx hbefore) hne
  · rw [hrunning, hpreempted]
    rcases List.mem_append.mp hx with hx | hx
    · rcases h.moved x hx with hfront | hgone
      · by_cases hxv : x = v
        · exact .inr (List.mem_append_right _ (List.mem_singleton.mpr hxv))
        · exact .inl (hvis.stays hpolicy hv hfront hxv)
      · exact .inr (List.mem_append_left _ hgone)
    · obtain ⟨hfront, hnot, hnext⟩ := hshifted x (Option.mem_toList.mp hx)
      rcases (takeVictim_priority hpolicy hv).2 with ⟨-, rfl, -⟩ | ⟨hscheduled, -⟩
      · refine .inl ?_
        rw [take_erase_of_mem hfront, hnext]
        exact List.mem_append_right _ (List.mem_singleton.mpr rfl)
      · exact absurd hscheduled hnot
  · rcases List.mem_append.mp hmem with hmem | hmem
    · exact h.disjoint x hx hmem
    · obtain ⟨-, -, hnext⟩ := hshifted x (Option.mem_toList.mp hmem)
      obtain ⟨hlt, hget⟩ := List.getElem?_eq_some_iff.mp hnext
      have hmem := h.seen x hx (List.mem_of_getElem? hnext)
      obtain ⟨i, hi, hgeti⟩ := List.mem_take_iff_getElem.mp hmem
      have heq : i = j + 1 := (List.Nodup.getElem_inj_iff hvis.nodup).mp (hgeti.trans hget.symm)
      omega
  · obtain ⟨hbefore, hne⟩ := hother x hrun
    rw [hpreempted] at hx
    rcases List.mem_append.mp hx with hx | hx
    · exact h.gone x hx hbefore
    · exact hne (List.mem_singleton.mp hx)

theorem Told.victims (hpolicy : c.policy = .priority) (hvictims : Victims c r n j st ps j' st')
    (hvis : Visiting c r j st) (h : Told examined shifted (j + 1) st) :
    Visiting c r j' st' ∧ Told examined (shifted ++ shiftedOf ps) (j' + 1) st' := by
  induction hvictims generalizing shifted with
  | nil =>
    unfold shiftedOf
    rw [List.filterMap_nil, List.append_nil]
    exact ⟨hvis, h⟩
  | @cons j j₁ j' st st₁ st₂ st' kv v ps hv hpre hne hrest ih =>
    have hkv : Visiting c r j (st.withKv kv) := hvis.congr rfl rfl rfl
    have htold : Told examined shifted (j + 1) (st.withKv kv) := h.congr rfl rfl
    have hnext := ((hkv.takeVictim hv hne).1.preempt hpre hne).1
    rw [shiftedOf_cons, ← List.append_assoc]
    exact ih hnext (htold.preempt hpolicy hkv hv hpre)

theorem Told.visitRunning (hpolicy : c.policy = .priority) (hvis : Visited j st) (h : Told examined shifted j st)
    (hr : st.sched.running[j]? = some r) (hvisit : st.visitRunning c env j r = .ok (true, j', st')) :
    Visited j' st' ∧
      Told (examined ++ [r]) (shifted ++ shiftedOf (roundPreemptions c env st j r)) j' st' := by
  obtain ⟨hlt, hget⟩ := List.getElem?_eq_some_iff.mp hr
  have hhere : r ∈ st.sched.running.take (j + 1) := List.mem_take_iff_getElem.mpr ⟨j, by omega, hget⟩
  have hmono : st.sched.running.take j ⊆ st.sched.running.take (j + 1) := List.take_subset_take_left _ j.le_succ
  have hfresh : r ∉ shifted := by
    intro hmem
    rcases h.moved r hmem with hfront | hgone
    · obtain ⟨i, hi, hgeti⟩ := List.mem_take_iff_getElem.mp hfront
      have heq : i = j := (List.Nodup.getElem_inj_iff hvis.nodup).mp (hgeti.trans hget.symm)
      omega
    · exact h.gone r hgone (List.mem_of_getElem? hr)
  have hinner : Told (examined ++ [r]) shifted (j + 1) st := by
    refine ⟨fun x hx hrun => ?_, fun x hx => (h.moved x hx).imp_left (@hmono x), fun x hx => ?_, h.gone⟩
    · rcases List.mem_append.mp hx with hx | hx
      · exact hmono (h.seen x hx hrun)
      · rw [List.mem_singleton.mp hx]
        exact hhere
    · rcases List.mem_append.mp hx with hx | hx
      · exact h.disjoint x hx
      · rw [List.mem_singleton.mp hx]
        exact hfresh
  rcases visitRunning_round hvisit with
    ⟨rfl, hnone, e, rfl⟩ | ⟨n, plan, j₁, st₁, kv, blocks, rfl, hvictims, hrun⟩
  · rw [hnone]
    refine ⟨hvis.succ rfl rfl rfl, ?_⟩
    show Told _ (shifted ++ []) _ _
    rw [List.append_nil]
    exact hinner.congr rfl rfl
  · have hvisiting : Visiting c r j (st.withEncoder plan.encoder) := (hvis.visiting hr).congr rfl rfl rfl
    obtain ⟨hlast, htold⟩ := Told.victims hpolicy hvictims hvisiting (hinner.congr rfl rfl)
    have hkv : Visiting c r j₁ (st₁.withKv kv) := hlast.congr rfl rfl rfl
    refine ⟨hkv.scheduleRunningRequest hrun, ?_⟩
    obtain ⟨e, inputs, budget, rfl⟩ := scheduleEncoder_frame hrun
    exact htold.congr rfl rfl

/-- The record of the loop in a call of `schedule()`. -/
def watch (c : SchedulerConfig) (env : Outside) (s : Scheduler) : Log :=
  watchRunning c env (s.running.length + 1) 0 (start c s)

/-- If the loop comes to the end of `running`, all requests in it have been examined. -/
def OverlooksNobody (c : SchedulerConfig) (env : Outside) (s : Scheduler) : Prop :=
  ∀ st, (start c s).scheduleRunning c env (s.running.length + 1) 0 = .ok st →
    (watch c env s).ending = .exhausted → ∀ r ∈ st.sched.running, r ∈ (watch c env s).examined

theorem watch_known (hpolicy : c.policy = .priority) {s : Scheduler}
    (hrun : (start c s).scheduleRunning c env (s.running.length + 1) 0 = .ok st)
    (hend : (watch c env s).ending = .exhausted) : ∀ r ∈ st.sched.running,
      r ∈ (watch c env s).examined ∨ r ∈ shiftedOf (watch c env s).preemptions := by
  have hstart : Known [] [] 0 0 (start c s) := ⟨fun x hx => by simp at hx, Nat.le_refl 0⟩
  have hround : ∀ {examined shifted j j' st st' r}, Known examined shifted j j st → st.sched.running[j]? = some r →
      st.visitRunning c env j r = .ok (true, j', st') →
      Known (examined ++ [r]) (shifted ++ shiftedOf (roundPreemptions c env st j r)) j' j' st' :=
    fun h hr hvisit => h.visitRunning hpolicy hr hvisit
  obtain ⟨j, hlength, hknown⟩ := watchRunning_invariant
    (p := fun examined shifted j => Known examined shifted j j) hround hstart hrun hend
  have hfront := hknown.front
  rw [List.take_of_length_le hlength] at hfront
  exact hfront

theorem watch_told (hpolicy : c.policy = .priority) {s : Scheduler} (hn : s.running.Nodup)
    (hrun : (start c s).scheduleRunning c env (s.running.length + 1) 0 = .ok st)
    (hend : (watch c env s).ending = .exhausted) :
    ∃ j, Told (watch c env s).examined (shiftedOf (watch c env s).preemptions) j st ∧
      st.sched.running.length ≤ j := by
  have hvis : Visited 0 (start c s) := ⟨rfl, hn, List.nodup_nil, fun x hx => absurd hx List.not_mem_nil⟩
  have hstart : Told [] [] 0 (start c s) := ⟨nofun, nofun, nofun, nofun⟩
  have hround : ∀ {examined shifted j j' st st' r}, (Visited j st ∧ Told examined shifted j st) →
      st.sched.running[j]? = some r → st.visitRunning c env j r = .ok (true, j', st') →
      Visited j' st' ∧ Told (examined ++ [r]) (shifted ++ shiftedOf (roundPreemptions c env st j r)) j' st' :=
    fun h hr hvisit => h.2.visitRunning hpolicy h.1 hr hvisit
  obtain ⟨j, hlength, -, htold⟩ := watchRunning_invariant (p := fun examined shifted j st =>
    Visited j st ∧ Told examined shifted j st) hround ⟨hvis, hstart⟩ hrun hend
  exact ⟨j, htold, hlength⟩

/-- Under the priority policy the loop ends at the end of `running`, without a token budget, or with
the preemption of the request it works on. It overlooks nobody if no preemption moves a request in
front of the index, and exactly if all requests moved there are preempted later. -/
theorem overlooksNobody_iff (hpolicy : c.policy = .priority) (env : Outside) (s : Scheduler) :
    (∀ st, (start c s).scheduleRunning c env (s.running.length + 1) 0 = .ok st → Ends (watch c env s) st) ∧
    ((∀ p ∈ (watch c env s).preemptions, p.shifted = none) → OverlooksNobody c env s) ∧
    (s.running.Nodup → (OverlooksNobody c env s ↔
      ∀ st, (start c s).scheduleRunning c env (s.running.length + 1) 0 = .ok st →
        (watch c env s).ending = .exhausted →
        ∀ p ∈ (watch c env s).preemptions, ∀ r ∈ p.shifted, r ∈ st.preemptedReqs)) := by
  refine ⟨fun st hrun => ?_, fun hnone st hrun hend r hr => ?_, fun hn => ⟨fun h st hrun hend p hp r hr => ?_,
    fun h st hrun hend r hr => ?_⟩⟩
  · exact watchRunning_ends hpolicy (Nat.lt_succ_of_le (Nat.sub_le _ _)) hrun
  · refine (watch_known hpolicy hrun hend r hr).resolve_right fun hmem => ?_
    obtain ⟨p, hp, hshifted⟩ := List.mem_filterMap.mp hmem
    rw [hnone p hp] at hshifted
    cases hshifted
  · obtain ⟨j, htold, -⟩ := watch_told hpolicy hn hrun hend
    have hmem : r ∈ shiftedOf (watch c env s).preemptions := List.mem_filterMap.mpr ⟨p, hp, hr⟩
    refine (htold.moved r hmem).resolve_left fun hfront => ?_
    exact htold.disjoint r (h st hrun hend r (List.mem_of_mem_take hfront)) hmem
  · obtain ⟨j, htold, -⟩ := watch_told hpolicy hn hrun hend
    refine (watch_known hpolicy hrun hend r hr).resolve_right fun hmem => ?_
    obtain ⟨p, hp, hshifted⟩ := List.mem_filterMap.mp hmem
    exact htold.gone r (h st hrun hend p hp r hshifted) hr

/-! An engine with six blocks, where the oldest request is the least important one. -/

def sixBlocks : SchedulerConfig where
  kv :=
    { numGpuBlocks := 7
      enableCaching := false
      hashBlockSize := 1
      maxModelLen := 8
      useEagle := false
      kvCacheGroups := [.fullAttention ⟨1, 1, 1, .float16, none⟩ 1 none none] }
  policy := .priority
  maxNumRunningReqs := 3
  maxNumScheduledTokens := 8
  longPrefillTokenThreshold := 2
  usePp := true

def prioritized (requestId : ReqId) (priority : Int) (promptTokenIds : List Token) : RequestParams where
  requestId := requestId
  priority := priority
  promptTokenIds := some promptTokenIds
  samplingParams := some { maxTokens := 2 }

def unimportantLast : List EngineOp :=
  [.addRequest {} (prioritized "a" 0 [1, 2]), .schedule {}, .addRequest {} (prioritized "b" 0 [1, 2, 3, 4]),
   .addRequest {} (prioritized "c" 1 [1, 2, 3, 4]), .schedule {}]

theorem overlooksNobody_unimportantLast : ∃ e,
    runSteps (Engine.step sixBlocks) (Engine.init sixBlocks) unimportantLast = .ok e ∧
      (watch sixBlocks {} e.sched).preemptions.map Preemption.victim = [2] ∧ OverlooksNobody sixBlocks {} e.sched := by
  obtain ⟨e, hrun, he⟩ := Result.exists_of_holds
    (x := runSteps (Engine.step sixBlocks) (Engine.init sixBlocks) unimportantLast)
    (p := fun e => (watch sixBlocks {} e.sched).preemptions.map Preemption.victim = [2] ∧
      ∀ p ∈ (watch sixBlocks {} e.sched).preemptions, p.shifted = none)
    (by decide +kernel)
  rw [decide_eq_true_eq] at he
  exact ⟨e, hrun, he.1, (overlooksNobody_iff rfl {} e.sched).2.1 he.2⟩

/-- The first request is passed over, for its step is in flight, and then preempted for the second one:
the third one moves in front of the index. -/
def unimportantFirst : List EngineOp :=
  [.addRequest {} (prioritized "a" 1 [1, 2]), .schedule {}, .addRequest {} (prioritized "b" 0 [1, 2, 3, 4]),
   .addRequest {} (prioritized "c" 0 [1, 2, 3, 4]), .schedule {}]

theorem not_overlooksNobody_unimportantFirst : ∃ e,
    runSteps (Engine.step sixBlocks) (Engine.init sixBlocks) unimportantFirst = .ok e ∧
      e.sched.running = [0, 1, 2] ∧ (watch sixBlocks {} e.sched).examined = [0, 1] ∧
      ¬ OverlooksNobody sixBlocks {} e.sched := by
  obtain ⟨e, hrun, he⟩ := Result.exists_of_holds
    (x := runSteps (Engine.step sixBlocks) (Engine.init sixBlocks) unimportantFirst)
    (p := fun e => e.sched.running = [0, 1, 2] ∧ (watch sixBlocks {} e.sched).examined = [0, 1] ∧
      (watch sixBlocks {} e.sched).ending = .exhausted ∧
      ((start sixBlocks e.sched).scheduleRunning sixBlocks {} (e.sched.running.length + 1) 0).holds
        (fun st => 2 ∈ st.sched.running) = true)
    (by decide +kernel)
  rw [decide_eq_true_eq] at he
  obtain ⟨hrunning, hexamined, hend, hloop⟩ := he
  obtain ⟨st, hst, hmem⟩ := Result.exists_of_holds hloop
  rw [decide_eq_true_eq] at hmem
  refine ⟨e, hrun, hrunning, hexamined, fun h => ?_⟩
  have hoverlooked := h st hst hend 2 hmem
  rw [hexamined] at hoverlooked
  exact absurd hoverlooked (by decide)

end Step

end Vllm
