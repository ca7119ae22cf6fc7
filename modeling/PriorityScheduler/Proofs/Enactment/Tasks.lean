import PriorityScheduler.Proofs.Enactment.Rules

/-! # Routines on a single task

    Creating, deleting, suspending, resuming and reprioritising a task, blocking
    it and ending its wait: each of these withdraws the task from its list,
    changes its record, and enters it somewhere else.  On outlines that is one
    `reseat`. -/

namespace PriorityScheduler

open Routine

namespace Kernel

variable {α β : Type} {k k' : Kernel}

/-! ## Moving a task -/

/-- A live task is withdrawn, and its handle still names it. -/
theorem Intact.withdrawn (intact : k.Intact) {h : Handle} {task : Task}
    (live : k.outline.get? h = some task) :
    ∃ k', k.withdraw h = .ok k' ∧ k'.Intact
      ∧ k'.outline = k.outline.reseat .back h.index { task with place := .unlinked }
      ∧ k'.outline.get? h = some { task with place := .unlinked } := by
  obtain ⟨k', hrun, hintact, houtline⟩ := intact.withdraw live
  refine ⟨k', hrun, hintact, houtline, ?_⟩
  rw [houtline]
  exact Outline.get?_update_self live rfl rfl

/-- A live task is withdrawn and its record changed in one go. -/
theorem Intact.withdrawnWith (intact : k.Intact) {h : Handle} {task : Task} (f : Task → Task)
    (live : k.outline.get? h = some task)
    (handle : (f { task with place := .unlinked }).handle = task.handle)
    (place : (f { task with place := .unlinked }).place = .unlinked)
    (priority : (f { task with place := .unlinked }).priority < k.settings.levels) :
    ∃ k₁ k₂, k.withdraw h = .ok k₁ ∧ k₁.updateTask h f = .ok k₂ ∧ k₂.Intact
      ∧ k₂.outline = k.outline.reseat .back h.index (f { task with place := .unlinked })
      ∧ k₂.outline.get? h = some (f { task with place := .unlinked }) := by
  obtain ⟨k₁, hrun₁, hintact₁, houtline₁, hget₁⟩ := intact.withdrawn live
  have hsettings : k₁.settings = k.settings := congrArg Outline.settings houtline₁
  rw [← hsettings] at priority
  obtain ⟨k₂, hrun₂, hintact₂, houtline₂⟩ :=
    hintact₁.updateTask f hget₁ handle place priority
  rw [houtline₁, Outline.put_reseat_unlinked _ _ _ rfl place] at houtline₂
  refine ⟨k₁, k₂, hrun₁, hrun₂, hintact₂, houtline₂, ?_⟩
  rw [houtline₂]
  exact Outline.get?_update_self live rfl rfl

/-! ## Waiting -/

/-- A ready or running task is blocked. -/
theorem Intact.obeys_block (intact : k.Intact) (h : Handle) (ticks : Tick) :
    Obeys (block h ticks) k (k.outline.block h ticks) := by
  refine obeys_masked (obeys_find fun task hget => ?_)
  refine obeys_ite (fun _ => obeys_refuse) (fun _ => obeys_replaceable ?_)
  refine obeys_ite (fun _ => obeys_pure intact) (fun _ => ?_)
  have hpriority : task.priority < k.settings.levels := intact.tagged.priority (intact.tenant hget)
  obtain ⟨k₁, k₂, hrun₁, hrun₂, hintact₂, houtline₂, hget₂⟩ := intact.withdrawnWith
    (fun task => { task with flags := { task.flags with timedOut := false, cutShort := false } })
    hget rfl rfl hpriority
  have hnow : k₂.now = k.now := congrArg Outline.now houtline₂
  have hcycle : ∀ wake, k₂.outline.cycleOf wake = k.outline.cycleOf wake := by
    rw [houtline₂]
    exact fun _ => rfl
  refine leads_bind (leads_apply_ok hrun₁ (leads_bind (leads_apply_ok hrun₂ ?_)))
  -- the two kinds of wait differ in the list that the task is put on
  simp only [Outline.held]
  by_cases hforever : ticks = waitForever
  · rw [if_pos hforever, if_pos hforever]
    obtain ⟨k₃, hrun₃, hintact₃, houtline₃⟩ := hintact₂.holdForever hget₂ rfl
    rw [houtline₂, Outline.reseat_reseat] at houtline₃
    obtain ⟨hintact, houtline⟩ := hintact₃.wantSwitchIf (task.activity == .running)
    rw [houtline₃] at houtline
    refine leads_bind (leads_apply_ok hrun₃ (leads_bind (leads_log (leads_update ⟨hintact, ?_⟩))))
    rw [houtline]
  · rw [if_neg hforever, if_neg hforever]
    obtain ⟨k₃, hrun₃, hintact₃, houtline₃⟩ := hintact₂.holdFor ticks hget₂ rfl
    rw [hnow, hcycle, houtline₂, Outline.reseat_reseat] at houtline₃
    obtain ⟨hintact, houtline⟩ := hintact₃.wantSwitchIf (task.activity == .running)
    rw [houtline₃] at houtline
    refine leads_bind (leads_apply_ok hrun₃ (leads_bind (leads_read (leads_bind
      (leads_log (leads_update ⟨hintact, ?_⟩))))))
    rw [houtline]
    rfl

/-- The wait of a blocked task is ended. -/
theorem Intact.obeys_endWait (intact : k.Intact) (h : Handle) (early : Bool) :
    Obeys (endWait h early) k (k.outline.endWait h early) := by
  refine obeys_masked (obeys_find fun task hget => ?_)
  refine obeys_ite (fun _ => ?_) (fun _ => obeys_refuse)
  have hpriority : task.priority < k.settings.levels := intact.tagged.priority (intact.tenant hget)
  obtain ⟨k₁, k₂, hrun₁, hrun₂, hintact₂, houtline₂, hget₂⟩ := intact.withdrawnWith
    (fun task => { task with flags := { task.flags with
      timedOut := false
      cutShort := task.flags.cutShort || early } }) hget rfl rfl hpriority
  obtain ⟨k₃, hrun₃, hintact₃, houtline₃⟩ := hintact₂.release hget₂ rfl
  have hready : k₃.outline = k.outline.makeReady h.index (Outline.unheld task early) := by
    rw [houtline₃, houtline₂]
    exact Outline.reseat_reseat ..
  have hwanted : (k₃.freeze.isOff && k₃.beatsRunner task.priority)
      = (decide ((k.outline.makeReady h.index (Outline.unheld task early)).depth = 0)
        && (k.outline.makeReady h.index (Outline.unheld task early)).beats task.priority) := by
    rw [isOff_outline, beatsRunner_outline, hready]
  obtain ⟨hintact, houtline⟩ :=
    hintact₃.wantSwitchIf (k₃.freeze.isOff && k₃.beatsRunner task.priority)
  refine leads_bind (leads_apply_ok hrun₁ (leads_bind (leads_apply_ok hrun₂
    (leads_bind (leads_apply_ok hrun₃ (leads_bind (leads_read (leads_bind (leads_update
      (leads_bind (leads_log (leads_pure ⟨hintact, ?_⟩))))))))))))
  rw [houtline, hwanted, hready]

/-- A running task is there or the caller is refused. -/
theorem Intact.obeys_needRunner (intact : k.Intact) :
    Obeys needRunner k k.outline.needRunner := by
  simp only [Outline.needRunner]
  cases hrunner : k.outline.runner with
  | some h =>
      refine leads_look_ok ?_ ⟨intact, rfl⟩
      rw [runner_outline, hrunner]
  | none =>
      refine leads_look_error ?_ ⟨rfl, _, rfl, rfl⟩
      rw [runner_outline, hrunner]
      rfl

/-! ## The life of a task -/

/-- A task that moves in is on no list yet, and its handle names it. -/
theorem get?_occupy (o : Outline) (spec : TaskSpec) (flags : Flags) (i : Nat) :
    (o.occupy i (.ofSpec spec flags ⟨i, o.generation i⟩)).get? ⟨i, o.generation i⟩
      = some (.ofSpec spec flags ⟨i, o.generation i⟩) := by
  show (if o.generation i = o.generation i then
    Function.update o.tenant i (some _) i else none) = _
  rw [if_pos rfl, Function.update_self]

/-- A task moves in, and becomes ready or is suspended. -/
theorem Intact.obeys_enroll (intact : k.Intact) (spec : TaskSpec) (flags : Flags) :
    Obeys (enroll spec flags) k (k.outline.enroll spec flags) := by
  refine obeys_masked ?_
  have hlevels : k.table.levels = k.outline.settings.levels := intact.threaded.tableLevels
  simp only [Outline.enroll]
  by_cases hpriority : k.outline.settings.levels ≤ spec.priority
  · rw [if_pos hpriority]
    refine leads_bind (leads_applyGet_error ?_ ⟨rfl, .invalidPriority, rfl, rfl⟩)
    rw [← hlevels] at hpriority
    simp only [TaskTable.enter]
    rw [if_pos hpriority]
    rfl
  rw [if_neg hpriority]
  by_cases hbegins : spec.begins ≠ .ready ∧ spec.begins ≠ .suspended
  · rw [if_pos hbegins]
    refine leads_bind (leads_applyGet_error ?_ ⟨rfl, .invalidState, rfl, rfl⟩)
    rw [← hlevels] at hpriority
    simp only [TaskTable.enter]
    rw [if_neg hpriority, if_pos hbegins]
    rfl
  rw [if_neg hbegins]
  have hlt : spec.priority < k.settings.levels := Nat.lt_of_not_le hpriority
  have hbegins' : spec.begins = .ready ∨ spec.begins = .suspended := by
    rw [not_and_or, not_not, not_not] at hbegins
    exact hbegins
  -- nothing is left to refuse but a full table
  cases hvacancy : k.outline.vacancy with
  | none =>
      refine leads_bind (leads_applyGet_error ?_ ⟨rfl, .tableFull, rfl, rfl⟩)
      rw [intact.enter_full hlt hbegins' hvacancy]
      rfl
  | some i =>
      obtain ⟨table, hrun, hintact₁, houtline₁⟩ :=
        intact.enter flags hlt hbegins' hvacancy
      let task := Task.ofSpec spec flags ⟨i, k.outline.generation i⟩
      have hget₁ : (outline { k with table := table }).get? ⟨i, k.outline.generation i⟩
          = some task := by
        rw [houtline₁]
        exact get?_occupy ..
      have hrun' : (do
          let r ← k.table.enter spec flags
          return (r.1, { k with table := r.2 }))
          = Except.ok ((⟨i, k.outline.generation i⟩ : Handle), { k with table := table }) := by
        rw [hrun]
        rfl
      refine leads_bind (leads_applyGet_ok hrun' ?_)
      by_cases hsuspended : spec.begins = .suspended
      · rw [if_pos hsuspended]
        show Leads _ _ (fun _ (k' : Kernel) => k'.Intact
          ∧ (if spec.begins = .suspended then _ else _) = _) _
        rw [if_pos hsuspended]
        obtain ⟨k₂, hrun₂, hintact₂, houtline₂⟩ := hintact₁.setAside hget₁ rfl
        refine leads_bind (leads_apply_ok hrun₂ (leads_bind (leads_log
          (leads_pure ⟨hintact₂, ?_⟩))))
        rw [houtline₂, houtline₁]
      · rw [if_neg hsuspended]
        show Leads _ _ (fun _ (k' : Kernel) => k'.Intact
          ∧ (if spec.begins = .suspended then _ else _) = _) _
        rw [if_neg hsuspended]
        obtain ⟨k₂, hrun₂, hintact₂, houtline₂⟩ := hintact₁.release hget₁ rfl
        rw [houtline₁] at houtline₂
        obtain ⟨hintact, houtline⟩ :=
          hintact₂.wantSwitchIf (k₂.freeze.isOff && k₂.beatsRunner spec.priority)
        rw [isOff_outline, beatsRunner_outline, houtline₂] at houtline
        refine leads_bind (leads_apply_ok hrun₂ (leads_bind (leads_update (leads_bind (leads_log
          (leads_pure ⟨hintact, ?_⟩))))))
        rw [isOff_outline, beatsRunner_outline, houtline₂, houtline]

/-- A suspended task becomes ready. -/
theorem Intact.obeys_resume (intact : k.Intact) (h : Handle) :
    Obeys (resume h) k (k.outline.resume h) := by
  refine obeys_masked (obeys_find fun task hget => ?_)
  refine obeys_ite (fun _ => ?_) (fun _ => obeys_pure intact)
  obtain ⟨k₁, hrun₁, hintact₁, houtline₁, hget₁⟩ := intact.withdrawn hget
  obtain ⟨k₂, hrun₂, hintact₂, houtline₂⟩ := hintact₁.release hget₁ rfl
  have hready : k₂.outline = k.outline.makeReady h.index task := by
    rw [houtline₂, houtline₁]
    exact Outline.reseat_reseat ..
  have hwanted : (k₂.freeze.isOff && k₂.rivalsRunner task.priority)
      = (decide ((k.outline.makeReady h.index task).depth = 0)
        && (k.outline.makeReady h.index task).rivals task.priority) := by
    rw [isOff_outline, rivalsRunner_outline, hready]
  obtain ⟨hintact, houtline⟩ :=
    hintact₂.wantSwitchIf (k₂.freeze.isOff && k₂.rivalsRunner task.priority)
  refine leads_bind (leads_apply_ok hrun₁ (leads_bind (leads_apply_ok hrun₂
    (leads_bind (leads_log (leads_bind (leads_read (leads_bind (leads_update
      (leads_pure ⟨hintact, ?_⟩))))))))))
  rw [houtline, hwanted, hready]

/-- The context word of a live task is stored. -/
theorem Intact.obeys_saveContext (intact : k.Intact) (h : Handle) (context : Nat) :
    Obeys (saveContext h context) k (k.outline.saveContext h context) := by
  simp only [Outline.saveContext]
  cases hget : k.outline.get? h with
  | none =>
      rw [Outline.find_error hget]
      exact leads_apply_error (updateTask_error _ hget) ⟨rfl, _, rfl, rfl⟩
  | some task =>
      rw [Outline.find_ok hget]
      have hpriority : task.priority < k.settings.levels :=
        intact.tagged.priority (intact.tenant hget)
      obtain ⟨k', hrun, hintact, houtline⟩ := intact.updateTask
        (fun task => { task with context := context }) hget rfl rfl hpriority
      refine leads_apply_ok hrun ⟨hintact, ?_⟩
      rw [houtline]
      rfl

/-! ## Priority -/

/-- Whether a switch is wanted after a change of priority is read off the outline. -/
theorem Intact.regradeWants (intact : k.Intact) (task : Task) (priority : Nat) :
    (match task.activity with
      | .running => k.readyAbove priority
      | .ready => Outline.queued task && k.beatsRunner priority
      | _ => false) = k.outline.regradeWants task priority := by
  simp only [Outline.regradeWants]
  rewrite [intact.readyAbove, beatsRunner_outline]
  cases task.activity <;> rfl

/-- The end of a change of priority: a wanted switch is remembered and answered. -/
theorem Intact.leads_regraded (intact : k.Intact) (h : Handle) (task : Task) (priority : Nat)
    {done : Bool → Kernel → Prop} {failed : Failure → Kernel → Prop}
    (ends : ∀ k' : Kernel, k'.Intact →
      k'.outline = k.outline.wantSwitchIf (k.outline.regradeWants task priority) →
      done (k.outline.regradeWants task priority) k') :
    Leads (do
        log (.reprioritised h task.priority priority)
        let k ← read
        let wanted := match task.activity with
          | .running => k.readyAbove priority
          | .ready => Outline.queued task && k.beatsRunner priority
          | _ => false
        update fun k => k.wantSwitchIf wanted
        return wanted) k done failed := by
  have hwants := intact.regradeWants task priority
  obtain ⟨hintact, houtline⟩ := intact.wantSwitchIf (k.outline.regradeWants task priority)
  refine leads_bind (leads_log (leads_bind (leads_read (leads_bind (leads_update
    (leads_pure ?_))))))
  rw [hwants]
  exact ends _ hintact houtline

/-- A task gets a new priority, and a new place if it stands on a ready level. -/
theorem Intact.obeys_reprioritise (intact : k.Intact) (h : Handle) (priority : Nat) :
    Obeys (reprioritise h priority) k (k.outline.reprioritise h priority) := by
  refine leads_bind (leads_read (obeys_ite (fun _ => obeys_refuse) (fun hlevels => ?_)))
  refine obeys_masked (obeys_find fun task hget => ?_)
  refine obeys_ite (fun _ => obeys_pure intact) (fun _ => ?_)
  have hlt : priority < k.settings.levels := Nat.lt_of_not_le hlevels
  -- both branches end with the question whether a switch is wanted now
  have hends : ∀ k₁ : Kernel, k₁.outline = k.outline.regrade h.index task priority →
      ∀ k' : Kernel, k'.Intact →
      k'.outline = k₁.outline.wantSwitchIf (k₁.outline.regradeWants task priority) →
      k'.Intact ∧ (Except.ok ((k.outline.regrade h.index task priority).regradeWants
          task priority, (k.outline.regrade h.index task priority).wantSwitchIf
            ((k.outline.regrade h.index task priority).regradeWants task priority)) : Except Refusal _)
        = .ok (k₁.outline.regradeWants task priority, k'.outline) := by
    intro k₁ hk₁ k' hintact houtline
    rw [houtline, hk₁]
    exact ⟨hintact, rfl⟩
  cases hqueued : Outline.queued task with
  | true =>
      obtain ⟨k₁, k₂, hrun₁, hrun₂, hintact₂, houtline₂, hget₂⟩ := intact.withdrawnWith
        (fun task => { task with priority := priority }) hget rfl rfl hlt
      obtain ⟨k₃, hrun₃, hintact₃, houtline₃⟩ := hintact₂.enqueue .back hget₂ rfl
      have hregrade : k₃.outline = k.outline.regrade h.index task priority := by
        rw [houtline₃, houtline₂, Outline.reseat_reseat]
        simp only [Outline.regrade]
        rw [if_pos hqueued]
      show Leads (if Outline.queued task = true then _ else _) _ _ _
      rw [if_pos hqueued]
      refine leads_bind (leads_apply_ok hrun₁ (leads_bind (leads_apply_ok hrun₂ ?_)))
      show Leads (if Outline.queued task = true then _ else _) _ _ _
      rw [if_pos hqueued]
      refine leads_bind (leads_apply_ok hrun₃ ?_)
      exact hintact₃.leads_regraded h task priority (hends k₃ hregrade)
  | false =>
      have hnot : ¬ Outline.queued task = true := by
        rw [hqueued]
        exact Bool.noConfusion
      obtain ⟨k₁, hrun₁, hintact₁, houtline₁⟩ := intact.updateTask
        (fun task => { task with priority := priority }) hget rfl rfl hlt
      have hregrade : k₁.outline = k.outline.regrade h.index task priority := by
        rw [houtline₁]
        simp only [Outline.regrade]
        rw [if_neg hnot]
      show Leads (if Outline.queued task = true then _ else _) _ _ _
      rw [if_neg hnot]
      refine leads_bind (leads_apply_ok hrun₁ ?_)
      show Leads (if Outline.queued task = true then _ else _) _ _ _
      rw [if_neg hnot]
      exact hintact₁.leads_regraded h task priority (hends k₁ hregrade)

end Kernel

end PriorityScheduler
