import PriorityScheduler.Proofs.Enactment.Clock
import PriorityScheduler.Proofs.Soundness.Runs

/-! # Calls enact their steps

    On an intact kernel with a sound outline every call, and every history of
    calls, ends as its step ends on the outline. -/

namespace PriorityScheduler

open Routine

namespace Kernel

variable {k : Kernel}

/-- The idle task is made and the first task is dispatched. -/
theorem Intact.enacts_start (intact : k.Intact) (sound : k.outline.Sound) (entry : Nat) :
    Enacts (start entry) (Outline.start entry) k := by
  have hstart : Outline.start entry
      = Step.guarded (·.enrollIdle entry) >>= fun _ => Outline.choose := rfl
  have hrefused : ∀ cause, k.outline.enrollIdle entry = .error cause →
      Outline.start entry k.outline = .error (.refused cause) k.outline := by
    intro cause herror
    rw [hstart]
    show EStateM.bind _ _ _ = _
    simp only [EStateM.bind]
    rw [Step.guarded_error herror]
  refine leads_bind (leads_read ?_)
  by_cases hidle : k.idle.isSome = true
  · rw [if_pos hidle]
    refine leads_refuse ⟨intact, hrefused _ ?_⟩
    exact if_pos hidle
  · rw [if_neg hidle]
    let spec : TaskSpec :=
      { name := k.settings.idleName, entry := entry, priority := idlePriority }
    have henroll : k.outline.enrollIdle entry = (do
        let r ← k.outline.enroll spec { idle := true }
        .ok ((), { r.2 with idle := some r.1 })) := if_neg hidle
    refine leads_bind ((intact.obeys_enroll spec { idle := true }).mono ?_ ?_)
    · rintro idle k₁ ⟨hintact₁, hmade⟩
      have hdone : k.outline.enrollIdle entry = .ok ((), { k₁.outline with idle := some idle }) := by
        rw [henroll, hmade]
        rfl
      let k₂ : Kernel := { k₁ with idle := some idle }
      have hintact₂ : k₂.Intact :=
        hintact₁.congr rfl rfl rfl (fun q => by cases q <;> rfl)
      have hsound₂ : k₂.outline.Sound := sound.enrollIdle hdone
      have hchoose : Outline.start entry k.outline = Outline.choose k₂.outline := by
        rw [hstart]
        show EStateM.bind _ _ _ = _
        simp only [EStateM.bind]
        rw [Step.guarded_ok hdone]
        rfl
      refine leads_bind (leads_update (leads_bind (leads_read (leads_bind (leads_log ?_)))))
      refine leads_bind ((hintact₂.enacts_choose hsound₂.runnerFree).mono ?_ ?_)
      · rintro first k₃ ⟨hintact₃, hstep⟩
        refine leads_bind (leads_switchTo (leads_pure ⟨hintact₃, ?_⟩))
        rw [hchoose]
        exact hstep
      · rintro e k₃ ⟨hintact₃, hstep⟩
        refine ⟨hintact₃, ?_⟩
        rw [hchoose]
        exact hstep
    · -- the idle task was refused a slot, and nothing has changed
      rintro e k₁ ⟨rfl, cause, rfl, herror⟩
      refine ⟨intact, hrefused cause ?_⟩
      rw [henroll, herror]
      rfl

/-- The mark of a wait that was cut short is used up. -/
theorem Intact.takeCutShort (intact : k.Intact) :
    k.takeCutShort.2.Intact
      ∧ (k.takeCutShort.1, k.takeCutShort.2.outline) = k.outline.takeCutShort := by
  simp only [Kernel.takeCutShort, Outline.takeCutShort]
  rw [runner_outline]
  cases hrunner : k.outline.runner with
  | none => exact ⟨intact, rfl⟩
  | some h =>
      obtain ⟨-, task, hget, -⟩ := Outline.runner_eq_some hrunner
      obtain rfl : task.handle = h := (intact.tagged.get?_eq_some.mp hget).2
      have hpriority : task.priority < k.settings.levels :=
        intact.tagged.priority (intact.tenant hget)
      simp only [Option.bind_some, get?_outline, hget]
      by_cases hcut : task.flags.cutShort = true
      · let task' : Task := { task with flags := { task.flags with cutShort := false } }
        have hput : (k.putTask task.handle.index task').Intact
            ∧ (k.putTask task.handle.index task').outline
              = k.outline.put task.handle.index task' :=
          intact.putTask (intact.tenant hget) rfl rfl hpriority
        rw [if_pos hcut, if_pos hcut]
        exact ⟨hput.1, congrArg (Prod.mk true) hput.2⟩
      · rw [if_neg hcut, if_neg hcut]
        exact ⟨intact, rfl⟩

theorem Intact.enacts_checkWait (intact : k.Intact) (since : Moment) (remaining : Tick) :
    Enacts (checkWait since remaining) (Outline.checkWait since remaining) k := by
  obtain ⟨hintact, houtline⟩ := intact.takeCutShort
  have htake : Enacts (applyGet fun k => .ok k.takeCutShort) (Step.always Outline.takeCutShort) k :=
    enacts_always (leads_applyGet_ok rfl ⟨hintact, houtline.symm⟩)
  refine enacts_bind htake ?_
  intro cut k' hintact' _
  refine enacts_ite (fun _ => enacts_pure hintact' _) (fun _ => ?_)
  exact enacts_read (enacts_pure hintact' _)

/-- One tick after the other passes. -/
theorem Intact.enacts_elapseFrom (intact : k.Intact) (sound : k.outline.Sound) (n : Nat)
    (asked : Bool) :
    Enacts (elapseFrom asked n) (Step.always (Outline.elapseFrom asked n)) k := by
  induction n generalizing k asked with
  | zero => exact enacts_pure intact asked
  | succ n ih =>
      have hstep : Step.always (Outline.elapseFrom asked (n + 1))
          = Step.always Outline.tick >>= fun now =>
              Step.always (Outline.elapseFrom (asked || now) n) := rfl
      rw [hstep]
      refine enacts_bind (intact.enacts_tick sound.cycle_done) ?_
      intro now k' hintact' htick
      refine ih hintact' ?_ (asked || now)
      rw [← (EStateM.Result.ok.inj htick).2]
      exact sound.tick

/-- Every call enacts its step. -/
theorem Intact.enacts_run (intact : k.Intact) (sound : k.outline.Sound) (c : Call) :
    Enacts c.run (Outline.run c) k := by
  have hfree := sound.runnerFree
  cases c with
  | create spec =>
      exact enacts_answer (Obeys.enacts (·.enroll spec {}) intact (intact.obeys_enroll spec {})) _
  | start entry => exact enacts_answer (intact.enacts_start sound entry) _
  | delete h =>
      refine enacts_answer (intact.enacts_delete h ?_) _
      exact fun _ done => (sound.remove done).runnerFree
  | suspend h =>
      refine enacts_answer (intact.enacts_suspend h ?_) _
      exact fun _ done => (sound.shelve done).runnerFree
  | resume h => exact enacts_answer (Obeys.enacts (·.resume h) intact (intact.obeys_resume h)) _
  | reprioritise h p =>
      exact enacts_answer
        (Obeys.enacts (·.reprioritise h p) intact (intact.obeys_reprioritise h p)) _
  | saveContext h context =>
      exact enacts_answer
        (Obeys.enacts (·.saveContext h context) intact (intact.obeys_saveContext h context)) _
  | block h ticks =>
      exact enacts_answer (Obeys.enacts (·.block h ticks) intact (intact.obeys_block h ticks)) _
  | pause ticks =>
      refine enacts_answer (intact.enacts_pause ticks hfree ?_) _
      exact fun _ _ done => (sound.block done).runnerFree
  | pausePeriod anchor period =>
      refine enacts_answer (intact.enacts_pausePeriod anchor period hfree ?_) _
      exact fun _ _ _ done => (sound.block done).runnerFree
  | wake h =>
      exact enacts_answer (Obeys.enacts (·.endWait h false) intact (intact.obeys_endWait h false)) _
  | cutShort h =>
      exact enacts_answer (Obeys.enacts (·.endWait h true) intact (intact.obeys_endWait h true)) _
  | tick => exact enacts_answer (intact.enacts_tick sound.cycle_done) _
  | elapse ticks => exact enacts_answer (intact.enacts_elapseFrom sound ticks.toNat false) _
  | freezeAll => exact enacts_answer intact.enacts_freezeAll _
  | thawAll => exact enacts_answer intact.enacts_thawAll _
  | choose => exact enacts_answer (intact.enacts_choose hfree) _
  | planSwitch => exact enacts_answer (intact.enacts_planSwitch hfree) _
  | switch => exact enacts_answer (intact.enacts_switch hfree) _
  | cede => exact enacts_answer (intact.enacts_cede hfree) _
  | checkWait since remaining => exact enacts_answer (intact.enacts_checkWait since remaining) _

/-- Every history of calls enacts the history of the steps. -/
theorem Intact.enacts_perform (intact : k.Intact) (sound : k.outline.Sound) (calls : List Call) :
    Enacts (perform calls) (Outline.perform calls) k := by
  induction calls generalizing k with
  | nil => exact enacts_pure intact []
  | cons c rest ih =>
      refine enacts_bind (enacts_attempt (intact.enacts_run sound c)) ?_
      intro r k' hintact' hstep
      have hsound' : k'.outline.Sound :=
        (Step.keeps_attempt (Outline.kept_sound.run trivial)).ok sound hstep
      exact enacts_bind (ih hintact' hsound') (fun _ _ hintact _ => enacts_pure hintact _)

end Kernel

end PriorityScheduler
