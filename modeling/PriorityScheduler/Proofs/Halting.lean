import PriorityScheduler.Proofs.Soundness.Runs

/-! # The only fault

    A step of an outline can be refused, and it can stop the system.  The ways in
    which calls stop it are those in which choices and planned switches do.

    On a sound outline this leaves one way: a switch is to be made while no task,
    not even the idle one, is ready.  The other faults name broken inner
    conditions, which no step runs into. -/

namespace PriorityScheduler

namespace Step

variable {α β : Type} {I : Outline → Prop} {P : Fault → Prop}

/-- If the step stops the system, it does so in an admitted way. -/
def StopsBy (I : Outline → Prop) (P : Fault → Prop) (s : Step α) : Prop :=
  ∀ o what o', I o → s o = .error (.fault what) o' → P what

/-! ## Putting steps together -/

theorem stops_pure (a : α) : StopsBy I P (pure a) := by
  rintro _ _ _ _ ⟨⟩

theorem stops_get : StopsBy I P get := by
  rintro _ _ _ _ ⟨⟩

theorem stops_modify {f : Outline → Outline} : StopsBy I P (modify f : Step Unit) := by
  rintro _ _ _ _ ⟨⟩

theorem stops_always {f : Outline → α × Outline} : StopsBy I P (always f) := by
  rintro _ _ _ _ ⟨⟩

theorem stops_guarded {f : Outline → Except Refusal (α × Outline)} : StopsBy I P (guarded f) := by
  intro o what o' _ hs
  unfold guarded at hs
  cases hf : f o with
  | ok r =>
      rw [hf] at hs
      cases hs
  | error cause =>
      rw [hf] at hs
      cases hs

theorem stops_bind {s : Step β} {f : β → Step α} (keeps : Keeps I s) (h : StopsBy I P s)
    (hf : ∀ b, StopsBy I P (f b)) : StopsBy I P (s >>= f) := by
  intro o what o' ho hs
  rcases of_bind_error hs with hs | ⟨b, o₁, hs, hf'⟩
  · exact h o what o' ho hs
  · exact hf b o₁ what o' (keeps.ok ho hs) hf'

/-- Telling the answer of a step stops nothing. -/
theorem stops_answer {s : Step β} (keeps : Keeps I s) (h : StopsBy I P s) (f : β → α) :
    StopsBy I P (s >>= fun b => pure (f b)) :=
  stops_bind keeps h fun b => stops_pure (f b)

theorem stops_ite {c : Prop} [Decidable c] {s s' : Step α} (h : StopsBy I P s)
    (h' : StopsBy I P s') : StopsBy I P (if c then s else s') := by
  by_cases hc : c
  · rw [if_pos hc]
    exact h
  · rw [if_neg hc]
    exact h'

end Step

namespace Outline

open Step

/-! ## Calls -/

section Calls

variable {I : Outline → Prop} {P : Fault → Prop} (kept : Kept I fun _ => True)
  (chooses : StopsBy I P choose) (plans : StopsBy I P planSwitch)

include kept plans

theorem stops_switch : StopsBy I P switch := by
  refine stops_bind (Step.keeps_planSwitch kept.choose) plans ?_
  intro plan
  cases plan with
  | none => exact stops_pure _
  | some plan => exact stops_pure _

theorem stops_cede : StopsBy I P cede :=
  stops_bind (keeps_modify fun _ => kept.sendBehind) stops_modify fun _ => stops_switch kept plans

theorem stops_replaceRunner : StopsBy I P replaceRunner := by
  refine stops_bind keeps_get stops_get fun o => stops_ite ?_ stops_modify
  exact stops_bind kept.switch (stops_switch kept plans) fun _ => stops_pure _

theorem stops_delete (h : Handle) : StopsBy I P (delete h) :=
  stops_bind (keeps_guarded fun _ _ _ => kept.remove trivial) stops_guarded fun _ =>
    stops_ite (stops_replaceRunner kept plans) (stops_pure _)

theorem stops_suspend (h : Handle) : StopsBy I P (suspend h) :=
  stops_bind (keeps_guarded fun _ _ _ => kept.shelve trivial) stops_guarded fun _ =>
    stops_ite (stops_replaceRunner kept plans) (stops_pure _)

theorem stops_pause (ticks : Tick) : StopsBy I P (pause ticks) := by
  refine stops_bind Kept.needRunner stops_guarded fun cur => stops_ite ?_ ?_
  · exact stops_bind kept.cede (stops_cede kept plans) fun _ => stops_pure _
  · refine stops_bind (keeps_guarded fun _ _ _ => kept.block) stops_guarded fun _ => ?_
    exact stops_bind kept.switch (stops_switch kept plans) fun _ => stops_pure _

theorem stops_pausePeriod (anchor period : Tick) : StopsBy I P (pausePeriod anchor period) := by
  refine stops_bind Kept.needRunner stops_guarded fun cur => ?_
  refine stops_bind keeps_get stops_get fun o => stops_ite ?_ ?_
  · refine stops_bind (keeps_guarded fun _ _ _ => kept.block) stops_guarded fun _ => ?_
    exact stops_bind kept.switch (stops_switch kept plans) fun _ => stops_pure _
  · exact stops_bind kept.cede (stops_cede kept plans) fun _ => stops_pure _

omit plans in
theorem stops_checkWait (since : Moment) (remaining : Tick) :
    StopsBy I P (checkWait since remaining) := by
  refine stops_bind (keeps_always fun _ => kept.takeCutShort) stops_always fun _ => ?_
  exact stops_ite (stops_pure _) (stops_bind keeps_get stops_get fun _ => stops_pure _)

include chooses

/-- A call stops the system in no other way than a choice or a planned switch. -/
theorem stops_run (c : Call) : StopsBy I P (run c) := by
  cases c with
  | create spec =>
      exact stops_answer (keeps_guarded fun _ _ _ => kept.enroll) stops_guarded _
  | start entry =>
      have hkeeps : Keeps I (guarded (·.enrollIdle entry)) :=
        keeps_guarded fun _ _ _ => kept.enrollIdle
      refine stops_answer (keeps_bind hkeeps fun _ => kept.choose) ?_ _
      exact stops_bind hkeeps stops_guarded fun _ => chooses
  | delete h => exact stops_answer (kept.delete trivial) (stops_delete kept plans h) _
  | suspend h => exact stops_answer (kept.suspend trivial) (stops_suspend kept plans h) _
  | resume h => exact stops_answer (keeps_guarded fun _ _ _ => kept.resume) stops_guarded _
  | reprioritise h p =>
      exact stops_answer (keeps_guarded fun _ _ _ => kept.reprioritise) stops_guarded _
  | saveContext h c =>
      exact stops_answer (keeps_guarded fun _ _ _ => kept.saveContext) stops_guarded _
  | block h ticks =>
      exact stops_answer (keeps_guarded fun _ _ _ => kept.block) stops_guarded _
  | pause ticks => exact stops_answer (kept.pause ticks) (stops_pause kept plans ticks) _
  | pausePeriod anchor period =>
      exact stops_answer (kept.pausePeriod anchor period)
        (stops_pausePeriod kept plans anchor period) _
  | wake h =>
      exact stops_answer (keeps_guarded fun _ _ _ => kept.endWait trivial) stops_guarded _
  | cutShort h =>
      exact stops_answer (keeps_guarded fun _ _ _ => kept.endWait trivial) stops_guarded _
  | tick => exact stops_answer (keeps_always fun _ => kept.tick trivial) stops_always _
  | elapse ticks =>
      exact stops_answer (keeps_always fun _ => kept.elapse trivial) stops_always _
  | freezeAll => exact stops_answer (keeps_always fun _ => kept.freezeAll) stops_always _
  | thawAll =>
      exact stops_answer (keeps_always fun _ => kept.thawAll trivial) stops_always _
  | choose => exact stops_answer kept.choose chooses _
  | planSwitch => exact stops_answer (Step.keeps_planSwitch kept.choose) plans _
  | switch => exact stops_answer kept.switch (stops_switch kept plans) _
  | cede => exact stops_answer kept.cede (stops_cede kept plans) _
  | checkWait since remaining =>
      exact stops_answer (kept.checkWait since remaining) (stops_checkWait kept since remaining) _

/-- A history of calls is never refused, and stops the system in no other way than
    a choice or a planned switch. -/
theorem perform_fails {calls : List Call} {o o' : Outline} {e : Failure} (ho : I o)
    (failed : perform calls o = .error e o') : ∃ what, e = .fault what ∧ P what := by
  induction calls generalizing o with
  | nil => cases failed
  | cons c rest ih =>
      rcases of_bind_error failed with hfirst | ⟨r, o₁, hfirst, hrest⟩
      · obtain ⟨what, rfl, hrun⟩ := of_attempt_error hfirst
        exact ⟨what, rfl, stops_run kept chooses plans c o what o' ho hrun⟩
      · have ho₁ : I o₁ := (keeps_attempt (kept.run trivial)).ok ho hfirst
        rcases of_bind_error hrest with hrest | ⟨rs, o₂, -, hnone⟩
        · exact ih ho₁ hrest
        · cases hnone

end Calls

/-! ## The only fault -/

/-- A choice stops nothing. -/
theorem stops_choose {P : Fault → Prop} : StopsBy Sound P choose := by
  intro o what o' sound hs
  have hchoice := choose_choice sound.tagged sound.runnerFree
  rw [hs] at hchoice
  cases hchoice

/-- A planned switch stops the system when there is no task to dispatch. -/
theorem stops_planSwitch : StopsBy Sound (· = .halted .nothingReady) planSwitch := by
  intro o what o' sound hs
  unfold planSwitch at hs
  have hchoice := choose_choice sound.tagged sound.runnerFree
  generalize choose o = r at hchoice hs
  cases hchoice with
  | starved =>
      obtain ⟨heq, -⟩ := EStateM.Result.error.inj hs
      exact (Failure.fault.inj heq).symm
  | _ => cases hs

/-- A history of calls is never refused, and stops the system in no way but the
    one. -/
theorem perform_error {calls : List Call} {o o' : Outline} {e : Failure} (sound : o.Sound)
    (failed : perform calls o = .error e o') : e = .fault (.halted .nothingReady) := by
  obtain ⟨what, rfl, hwhat⟩ :=
    perform_fails kept_sound stops_choose stops_planSwitch sound failed
  rw [hwhat]

end Outline

end PriorityScheduler
