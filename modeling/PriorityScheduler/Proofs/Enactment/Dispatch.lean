import PriorityScheduler.Proofs.Enactment.Tasks

/-! # Routines that switch

    A choice takes the first task of the highest level, and may have to put the
    running task back before.  It can do so only if the running task is on no
    list, so this is asked for where a choice is made.  All other switches are
    made of choices. -/

namespace PriorityScheduler

open Routine

namespace Kernel

variable {α β : Type} {k k' : Kernel}

/-! ## Dispatching -/

/-- The first task of the highest level is dispatched, if there is one. -/
theorem Intact.enacts_dispatchHighest (intact : k.Intact) :
    Enacts dispatchHighest Outline.dispatchHighest k := by
  rcases intact.tagged.topLevel_cases with ⟨hnone, -⟩ | ⟨p, hsome, htop⟩
  · have htop : k.ready.topLevel = none := intact.topLevel.trans hnone
    have hrun : (do
        let r ← k.ready.takeFirst k.table
        return (r.1, { k with ready := r.2.1, table := r.2.2 })) = Except.ok (none, k) := by
      rw [ReadyQueue.takeFirst_none htop]
      rfl
    refine leads_bind (leads_applyGet_ok hrun (leads_refuse ⟨intact, ?_⟩))
    simp only [Outline.dispatchHighest]
    rw [hnone]
  · have hfound : k.ready.topLevel = some p := intact.topLevel.trans hsome
    obtain ⟨i, rest, hcons⟩ := List.exists_cons_of_ne_nil htop.1
    obtain ⟨task, htask⟩ := intact.tagged.tenant_head hcons
    have hindex : task.handle.index = i := by
      rw [intact.tagged.handle htask]
    -- the first of the top row is taken off it, and only then marked as running
    obtain ⟨ready, table, htake, hintact₁, houtline₁⟩ := intact.takeFirst hfound hcons htask
    have hrun₁ : (do
        let r ← k.ready.takeFirst k.table
        return (r.1, { k with ready := r.2.1, table := r.2.2 }))
        = Except.ok (some task.handle, { k with ready := ready, table := table }) := by
      rw [htake]
      rfl
    have hget₁ : (outline { k with ready := ready, table := table }).get? task.handle
        = some { task with place := .unlinked } := by
      rw [houtline₁, ← hindex]
      exact Outline.get?_update_self (intact.tagged.get?_handle htask) rfl rfl
    have hpriority : task.priority < k.settings.levels := intact.tagged.priority htask
    obtain ⟨k₂, hrun₂, hintact₂, houtline₂⟩ := hintact₁.updateTask
      (fun task => { task with activity := .running }) hget₁ rfl rfl hpriority
    rw [houtline₁, hindex, Outline.put_reseat_unlinked _ _ _ rfl rfl] at houtline₂
    refine leads_bind (leads_applyGet_ok hrun₁ (leads_bind (leads_apply_ok hrun₂ (leads_bind
      (leads_update (leads_bind (leads_log (leads_pure ⟨?_, ?_⟩))))))))
    · exact hintact₂.congr rfl rfl rfl (fun q => by cases q <;> rfl)
    · rw [Outline.dispatchHighest_eq intact.tagged htop hcons htask]
      show EStateM.Result.ok task.handle (k.outline.dispatch i task)
        = .ok task.handle { k₂.outline with
          current := some task.handle, sliceSpent := 0, everDispatched := true }
      rw [houtline₂]
      rfl

/-! ## Choosing -/

/-- The running task is put back on the level of its priority. -/
theorem Intact.enacts_putBack (intact : k.Intact) {task : Task} (side : Side)
    (live : k.outline.get? task.handle = some task) (unlinked : task.place = .unlinked) :
    Enacts (do apply fun k => k.enqueue side task.handle; dispatchHighest)
      (fun o => Outline.dispatchHighest (o.putBack side task)) k := by
  obtain ⟨k₁, hrun₁, hintact₁, houtline₁⟩ := intact.enqueue side live unlinked
  refine leads_bind (leads_apply_ok hrun₁ ?_)
  refine hintact₁.enacts_dispatchHighest.mono ?_ ?_
  · rintro a k' ⟨hintact, hstep⟩
    rw [houtline₁] at hstep
    exact ⟨hintact, hstep⟩
  · rintro e k' ⟨hintact, hstep⟩
    rw [houtline₁] at hstep
    exact ⟨hintact, hstep⟩

/-- While scheduling goes on, the task that runs next is chosen. -/
theorem Intact.leads_chooseOpen (intact : k.Intact) (free : k.outline.RunnerFree) :
    Leads (match k.runner with
        | none => dispatchHighest
        | some cur => do
            let task ← look fun k => k.table.find cur
            match k.ready.topLevel with
            | none => return cur
            | some top =>
                if task.priority < top then
                  apply fun k => k.enqueue .front cur
                  dispatchHighest
                else if top = task.priority ∧ k.sendBehind = true then
                  apply fun k => k.enqueue .back cur
                  dispatchHighest
                else
                  return cur)
      { k with switchDue := false, sendBehind := false }
      (fun a k' => k'.Intact ∧ Outline.chooseOpen k.outline = .ok a k'.outline)
      (fun e k' => k'.Intact ∧ Outline.chooseOpen k.outline = .error e k'.outline) := by
  have hintact₁ : ({ k with switchDue := false, sendBehind := false } : Kernel).Intact :=
    intact.congr rfl rfl rfl (fun q => by cases q <;> rfl)
  simp only [Outline.chooseOpen]
  rw [runner_outline]
  cases hrunner : k.outline.runner with
  | none => exact hintact₁.enacts_dispatchHighest
  | some cur =>
      obtain ⟨-, task, hget, -⟩ := Outline.runner_eq_some hrunner
      obtain rfl : task.handle = cur := (intact.tagged.get?_eq_some.mp hget).2
      -- the running task is on no list, so it can be put back on one
      have hunlinked : task.place = .unlinked := free _ task hrunner hget
      have hfind : k.table.find task.handle = .ok task :=
        TaskTable.find_ok ((get?_outline k task.handle).trans hget)
      simp only [Option.bind_some, hget]
      refine leads_bind (leads_look_ok hfind ?_)
      rw [intact.topLevel]
      cases k.outline.topLevel with
      | none => exact leads_pure ⟨hintact₁, rfl⟩
      | some top =>
          by_cases habove : task.priority < top
          · simp only [if_pos habove]
            exact hintact₁.enacts_putBack .front hget hunlinked
          · simp only [if_neg habove]
            by_cases hbehind : top = task.priority ∧ k.sendBehind = true
            · have hbehind' : top = task.priority ∧ k.outline.sendBehind = true := hbehind
              simp only [if_pos hbehind, if_pos hbehind']
              exact hintact₁.enacts_putBack .back hget hunlinked
            · have hbehind' : ¬ (top = task.priority ∧ k.outline.sendBehind = true) := hbehind
              simp only [if_neg hbehind, if_neg hbehind']
              exact leads_pure ⟨hintact₁, rfl⟩

/-- The task that runs next is chosen. -/
theorem Intact.enacts_choose (intact : k.Intact) (free : k.outline.RunnerFree) :
    Enacts choose Outline.choose k := by
  refine enacts_masked (leads_bind (leads_read ?_))
  simp only [Outline.choose]
  rw [isOff_outline]
  by_cases hdepth : k.outline.depth = 0
  · simp only [if_pos hdepth]
    rw [if_pos (decide_eq_true hdepth)]
    exact leads_bind (leads_update (intact.leads_chooseOpen free))
  · simp only [if_neg hdepth]
    rw [if_neg (by simp [hdepth])]
    have hintact₁ : k.wantSwitch.Intact :=
      intact.congr rfl rfl rfl (fun q => by cases q <;> rfl)
    refine leads_bind (leads_update ?_)
    rw [runner_outline]
    cases k.outline.runner with
    | some cur => exact leads_pure ⟨hintact₁, rfl⟩
    | none => exact leads_refuse ⟨hintact₁, rfl⟩

/-! ## Switching -/

/-- A switch is planned. -/
theorem Intact.enacts_planSwitch (intact : k.Intact) (free : k.outline.RunnerFree) :
    Enacts planSwitch Outline.planSwitch k := by
  refine leads_bind (leads_read (leads_bind (leads_attempt
    ((intact.enacts_choose free).mono ?_ ?_))))
  · rintro incoming k' ⟨hintact, hstep⟩
    have hplan : Outline.planSwitch k.outline = .ok (if some incoming = k.outline.current then none
        else some (k.outline.current, incoming)) k'.outline := by
      simp only [Outline.planSwitch]
      rw [hstep]
    show Leads (if some incoming = k.current then _ else _) _ _ _
    by_cases hsame : some incoming = k.current
    · have hsame' : some incoming = k.outline.current := hsame
      rw [if_pos hsame'] at hplan
      rw [if_pos hsame]
      exact leads_pure ⟨hintact, hplan⟩
    · have hsame' : ¬ some incoming = k.outline.current := hsame
      rw [if_neg hsame'] at hplan
      rw [if_neg hsame]
      exact leads_pure ⟨hintact, hplan⟩
  · rintro e k' ⟨hintact, hstep⟩
    -- a refusal while scheduling is suspended plans no switch; any other is the end
    cases e with
    | refused cause =>
        cases cause with
        | schedulerFrozen =>
            refine leads_pure ⟨hintact, ?_⟩
            simp only [Outline.planSwitch]
            rw [hstep]
        | _ =>
            refine leads_bind (leads_log (leads_stop ⟨hintact, ?_⟩))
            simp only [Outline.planSwitch]
            rw [hstep]
    | fault what =>
        refine ⟨hintact, ?_⟩
        simp only [Outline.planSwitch]
        rw [hstep]

/-- A switch is planned and made. -/
theorem Intact.enacts_switch (intact : k.Intact) (free : k.outline.RunnerFree) :
    Enacts switch Outline.switch k := by
  refine enacts_bind (intact.enacts_planSwitch free) ?_
  intro plan k' hintact _
  cases plan with
  | none => exact enacts_pure hintact none
  | some plan =>
      obtain ⟨outgoing, incoming⟩ := plan
      exact leads_bind (leads_switchTo (enacts_pure hintact (some incoming)))

/-- The running task is sent behind its peers. -/
theorem Intact.enacts_cede (intact : k.Intact) (free : k.outline.RunnerFree) :
    Enacts cede Outline.cede k := by
  have hintact₁ : ({ k with sendBehind := true } : Kernel).Intact :=
    intact.congr rfl rfl rfl (fun q => by cases q <;> rfl)
  refine enacts_bind (enacts_update hintact₁ rfl) ?_
  intro _ k' hintact hstep
  refine hintact.enacts_switch ?_
  rw [← (EStateM.Result.ok.inj hstep).2]
  exact free

/-- The successor of the running task is dispatched, or that is remembered. -/
theorem Intact.enacts_replaceRunner (intact : k.Intact) (free : k.outline.RunnerFree) :
    Enacts replaceRunner Outline.replaceRunner k := by
  have hintact₁ : k.wantSwitch.Intact :=
    intact.congr rfl rfl rfl (fun q => by cases q <;> rfl)
  refine enacts_read ?_
  rw [isOff_outline]
  refine enacts_ite (fun _ => ?_) (fun _ => enacts_update hintact₁ rfl)
  exact enacts_bind (intact.enacts_switch free) (fun _ k' hintact _ => enacts_pure hintact ())

/-! ## The running task leaves -/

/-- A task that leaves the processor when it is taken away is replaced. -/
theorem Obeys.enacts_replaceIf {r : Routine Kernel Bool}
    (f : Outline → Except Refusal (Bool × Outline)) (intact : k.Intact)
    (obeys : Obeys r k (f k.outline)) (free : ∀ o, f k.outline = .ok (true, o) → o.RunnerFree) :
    Enacts (do if ← r then replaceRunner)
      (do if ← Step.guarded f then Outline.replaceRunner) k := by
  refine enacts_bind (Obeys.enacts f intact obeys) ?_
  intro was k' hintact hstep
  refine enacts_ite (fun hwas => ?_) (fun _ => enacts_pure hintact ())
  refine hintact.enacts_replaceRunner (free _ ?_)
  rw [hwas] at hstep
  exact Step.of_guarded_ok hstep

/-- A task that may go is retired. -/
theorem Intact.obeys_remove (intact : k.Intact) (h : Handle) :
    Obeys (remove h) k (k.outline.remove h) := by
  refine obeys_masked (obeys_find fun task hget => ?_)
  refine obeys_ite (fun _ => obeys_refuse) (fun _ => obeys_replaceable ?_)
  obtain ⟨k₁, hrun₁, hintact₁, houtline₁, hget₁⟩ := intact.withdrawn hget
  obtain ⟨table, hretire, hintact₂, houtline₂⟩ := hintact₁.retire hget₁ rfl
  -- taking the task off its list first makes no difference to a slot that is vacated
  rw [houtline₁, Outline.vacate_reseat _ _ _ _ rfl] at houtline₂
  have hrun₂ : (do
      let r ← k₁.table.retire h
      return (r.1, { k₁ with table := r.2 }))
      = Except.ok ({ task with activity := .deleted, place := .unlinked },
        { k₁ with table := table }) := by
    rw [hretire]
    rfl
  have hcurrent : k₁.current = k.outline.current := congrArg Outline.current houtline₁
  refine leads_bind (leads_apply_ok hrun₁ (leads_bind (leads_applyGet_ok hrun₂
    (leads_bind (leads_log (leads_bind (leads_read ?_)))))))
  show Leads (if k₁.current = some h then _ else _) _ _ _
  by_cases hsame : k.outline.current = some h
  · rw [if_pos (hcurrent.trans hsame)]
    refine leads_bind (leads_update (leads_pure ⟨?_, ?_⟩))
    · exact hintact₂.congr rfl rfl rfl (fun q => by cases q <;> rfl)
    · rw [if_pos hsame, ← houtline₂]
      rfl
  · rw [if_neg (fun h' => hsame (hcurrent.symm.trans h'))]
    refine leads_pure ⟨hintact₂, ?_⟩
    rw [if_neg hsame, houtline₂]

/-- A task that may go is retired; if it was dispatched last it is replaced. -/
theorem Intact.enacts_delete (intact : k.Intact) (h : Handle)
    (free : ∀ o, k.outline.remove h = .ok (true, o) → o.RunnerFree) :
    Enacts (delete h) (Outline.delete h) k :=
  Obeys.enacts_replaceIf (·.remove h) intact (intact.obeys_remove h) free

/-- A task that may be put aside is. -/
theorem Intact.obeys_shelve (intact : k.Intact) (h : Handle) :
    Obeys (shelve h) k (k.outline.shelve h) := by
  refine obeys_masked (obeys_find fun task hget => ?_)
  refine obeys_ite (fun _ => obeys_refuse) (fun _ => ?_)
  refine obeys_ite (fun _ => obeys_pure intact) (fun _ => obeys_replaceable ?_)
  obtain ⟨k₁, hrun₁, hintact₁, houtline₁, hget₁⟩ := intact.withdrawn hget
  obtain ⟨k₂, hrun₂, hintact₂, houtline₂⟩ := hintact₁.setAside hget₁ rfl
  rw [houtline₁, Outline.reseat_reseat] at houtline₂
  refine leads_bind (leads_apply_ok hrun₁ (leads_bind (leads_apply_ok hrun₂
    (leads_bind (leads_log (leads_pure ⟨hintact₂, ?_⟩))))))
  rw [houtline₂]

/-- A task that may be suspended is; if it was running it is replaced. -/
theorem Intact.enacts_suspend (intact : k.Intact) (h : Handle)
    (free : ∀ o, k.outline.shelve h = .ok (true, o) → o.RunnerFree) :
    Enacts (suspend h) (Outline.suspend h) k :=
  Obeys.enacts_replaceIf (·.shelve h) intact (intact.obeys_shelve h) free

/-- The running task is blocked and replaced. -/
theorem Intact.enacts_pause (intact : k.Intact) (ticks : Tick) (free : k.outline.RunnerFree)
    (after : ∀ h o, k.outline.block h ticks = .ok ((), o) → o.RunnerFree) :
    Enacts (pause ticks) (Outline.pause ticks) k := by
  refine enacts_bind (Obeys.enacts Outline.needRunner intact intact.obeys_needRunner) ?_
  intro cur k' hintact hstep
  obtain ⟨hk', -⟩ := Outline.of_needRunner (Step.of_guarded_ok hstep)
  refine enacts_ite (fun _ => ?_) (fun _ => ?_)
  · rw [← hk'] at free
    exact enacts_bind (hintact.enacts_cede free) (fun _ k'' hintact' _ => enacts_pure hintact' ())
  · refine enacts_bind (Obeys.enacts (·.block cur ticks) hintact (hintact.obeys_block cur ticks)) ?_
    intro _ k'' hintact' hstep'
    rw [← hk'] at after
    exact enacts_bind (hintact'.enacts_switch (after _ _ (Step.of_guarded_ok hstep')))
      (fun _ k'' hintact' _ => enacts_pure hintact' ())

/-- The running task is blocked until the end of a period and replaced. -/
theorem Intact.enacts_pausePeriod (intact : k.Intact) (anchor period : Tick)
    (free : k.outline.RunnerFree)
    (after : ∀ h ticks o, k.outline.block h ticks = .ok ((), o) → o.RunnerFree) :
    Enacts (pausePeriod anchor period) (Outline.pausePeriod anchor period) k := by
  refine enacts_bind (Obeys.enacts Outline.needRunner intact intact.obeys_needRunner) ?_
  intro cur k' hintact hstep
  obtain ⟨hk', -⟩ := Outline.of_needRunner (Step.of_guarded_ok hstep)
  refine enacts_read (enacts_ite (fun _ => ?_) (fun _ => ?_))
  · refine enacts_bind (Obeys.enacts _ hintact (hintact.obeys_block cur _)) ?_
    intro _ k'' hintact' hstep'
    rw [← hk'] at after
    exact enacts_bind (hintact'.enacts_switch (after _ _ _ (Step.of_guarded_ok hstep')))
      (fun _ k'' hintact' _ => enacts_pure hintact' _)
  · rw [← hk'] at free
    exact enacts_bind (hintact.enacts_cede free) (fun _ k'' hintact' _ => enacts_pure hintact' _)

end Kernel

end PriorityScheduler
