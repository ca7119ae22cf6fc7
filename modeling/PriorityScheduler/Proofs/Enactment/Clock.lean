import PriorityScheduler.Proofs.Batches
import PriorityScheduler.Proofs.Enactment.Dispatch

/-! # Routines that move several tasks

    A tick, and the end of a suspension of the scheduler, call a number of tasks
    off a list first and make them ready one after the other then.  On outlines
    the two halves fall together: the tasks go from the one list to the other in
    their order, and in between nothing else is seen. -/

namespace PriorityScheduler

open Routine

namespace Kernel

variable {α β : Type} {k k' : Kernel}

/-! ## Suspending the scheduler -/

/-- Scheduling is suspended once more. -/
theorem Intact.enacts_freezeAll (intact : k.Intact) :
    Enacts freezeAll (Step.always Outline.freezeAll) k := by
  have hintact : ({ k with freeze := k.freeze.deepen } : Kernel).Intact :=
    intact.congr rfl rfl rfl (fun q => by cases q <;> rfl)
  exact leads_bind (leads_update (leads_bind (leads_read (leads_log ⟨hintact, rfl⟩))))

/-- Whether a priority is at or above the one that was running, if one was. -/
def reaches (running : Option Nat) (priority : Nat) : Bool :=
  match running with
  | some p => decide (p ≤ priority)
  | none => true

/-- The first of the slots that were taken off their lists holds a task that is on
    no list now, under its own handle. -/
theorem Intact.lifted_head (intact : k.Intact) {o : Outline} {i : Nat} {rest : List Nat}
    {task : Task} (outline : k.outline = o.liftAll (i :: rest)) (live : o.tenant i = some task) :
    task.handle.index = i
      ∧ k.outline.get? task.handle = some { task with place := .unlinked } := by
  have htask : k.outline.tenant i = some { task with place := .unlinked } := by
    rw [outline]
    show (if i ∈ i :: rest then (o.tenant i).map _ else _) = _
    rw [if_pos List.mem_cons_self, live]
    rfl
  refine ⟨?_, intact.tagged.get?_handle htask⟩
  exact congrArg Handle.index (intact.tagged.handle htask)

/-- Tasks that were called off the list of the postponed enter their ready levels
    in turn. -/
theorem leads_callIn (running : Option Nat) :
    ∀ (l : List Nat) (o : Outline) (k : Kernel) (wanted : Bool), k.Intact → k.outline = o.liftAll l →
      o.depth = 0 → l.Nodup → (∀ i ∈ l, ∃ task, o.tenant i = some task) →
      Leads (callIn running wanted (o.handles l)) k
        (fun w k' => k'.Intact ∧ k'.outline = o.makeAllReady id l
          ∧ w = (wanted || l.any fun i => (o.tenant i).any fun task => reaches running task.priority))
        (fun _ _ => False) := by
  intro l
  induction l with
  | nil =>
      intro o k wanted intact houtline _ _ _
      refine leads_pure ⟨intact, ?_, ?_⟩
      · rw [houtline, Outline.liftAll_nil, Outline.makeAllReady_nil]
      · rw [List.any_nil, Bool.or_false]
  | cons i rest ih =>
      intro o k wanted intact houtline hdepth nodup live
      obtain ⟨hfresh, hnodup⟩ := List.nodup_cons.mp nodup
      obtain ⟨task, htask⟩ := live i List.mem_cons_self
      obtain ⟨hindex, hget⟩ := intact.lifted_head houtline htask
      obtain ⟨k₁, hrun₁, hintact₁, houtline₁⟩ := intact.enqueue .back hget rfl
      let o₁ := o.makeReady i task
      -- with the first task on its level the others are still off their lists
      have ho₁ : k₁.outline = o₁.liftAll rest := by
        have hlifted := Outline.makeReady_liftAll (f := id) htask hfresh rfl
        rw [houtline₁, hindex, houtline]
        refine Eq.trans ?_ hlifted
        simp only [Outline.makeReady, Outline.readied, Outline.readyPlace]
        rw [if_pos (show (o.liftAll (i :: rest)).depth = 0 from hdepth)]
        rfl
      have hhandles : o.handles (i :: rest) = task.handle :: o₁.handles rest := by
        rw [Outline.handles_cons htask, Outline.handles_makeReady hfresh]
      have hrest : ∀ j ∈ rest, o₁.tenant j = o.tenant j :=
        fun j hj => Outline.tenant_makeReady hfresh hj
      have hlive₁ : ∀ j ∈ rest, ∃ task, o₁.tenant j = some task := by
        intro j hj
        rw [hrest j hj]
        exact live j (List.mem_cons_of_mem i hj)
      have hget₁ : k₁.table.get? task.handle = some (o.readied task) := by
        rw [get?_outline, houtline₁]
        refine Eq.trans (Outline.get?_update_self hget rfl rfl) ?_
        simp only [Outline.readied, Outline.readyPlace]
        rw [if_pos hdepth]
      -- no task that is called in is the running one, so the comparison stays
      have hany : (rest.any fun i => (o₁.tenant i).any fun task => reaches running task.priority)
          = rest.any fun i => (o.tenant i).any fun task => reaches running task.priority := by
        rw [Bool.eq_iff_iff, List.any_eq_true, List.any_eq_true]
        refine exists_congr fun j => and_congr_right fun hj => ?_
        rw [hrest j hj]
      rw [hhandles]
      refine leads_bind (leads_attempt (leads_apply_ok hrun₁ (leads_bind (leads_read ?_))))
      rw [hget₁]
      refine (ih o₁ k₁ (wanted || reaches running task.priority) hintact₁ ho₁ hdepth hnodup
        hlive₁).mono ?_ (fun _ _ h => h)
      rintro w k' ⟨hintact, hk', hw⟩
      refine ⟨hintact, ?_, ?_⟩
      · rw [hk', Outline.makeAllReady_cons (f := id) htask hfresh]
        rfl
      · rw [hw, hany, List.any_cons, htask, Bool.or_assoc]
        rfl

/-- A priority rivals the running one when it reaches it. -/
theorem rivals_eq_reaches (o : Outline) (priority : Nat) :
    o.rivals priority = reaches o.runnerPriority priority := by
  cases hrun : o.runnerPriority <;> simp only [Outline.rivals, reaches, hrun]

/-- The slots of a row hold tasks. -/
theorem Intact.live_row (intact : k.Intact) {q : Place} {i : Nat} (hi : i ∈ k.outline.row q) :
    ∃ task, k.outline.tenant i = some task := by
  obtain ⟨-, task, htask, -⟩ := (intact.tagged.mem_row q i).mp hi
  exact ⟨task, htask⟩

/-- There is no suspension to undo. -/
theorem lift_unmatched (opened : k.freeze.depth = 0) : (do
    let freeze ← k.freeze.lift
    return ({ k with freeze := freeze } : Kernel)) = .error (.refused .unmatchedThaw) := by
  simp only [Freeze.lift, if_pos opened]
  rfl

/-- There is one, and it is taken off. -/
theorem lift_matched (closed : k.freeze.depth ≠ 0) : (do
    let freeze ← k.freeze.lift
    return ({ k with freeze := freeze } : Kernel))
      = .ok { k with freeze := { k.freeze with depth := k.freeze.depth - 1 } } := by
  simp only [Freeze.lift, if_neg closed]
  rfl

/-- One suspension is undone, and with the last one the postponed tasks enter their
    levels. -/
theorem Intact.enacts_thawAll (intact : k.Intact) :
    Enacts thawAll (Step.always Outline.thawAll) k := by
  refine enacts_always (leads_masked ?_)
  simp only [Outline.thawAll]
  by_cases hdepth : k.outline.depth = 0
  · simp only [if_pos hdepth]
    exact leads_bind (leads_attempt (leads_apply_error (lift_unmatched hdepth)
      (leads_bind (leads_log (leads_pure ⟨intact, rfl⟩)))))
  simp only [if_neg hdepth]
  let k₁ : Kernel := { k with freeze := { k.freeze with depth := k.freeze.depth - 1 } }
  have hintact₁ : k₁.Intact := intact.congr rfl rfl rfl (fun q => by cases q <;> rfl)
  have hrun₁ : (do
      let freeze ← k.freeze.lift
      return ({ k with freeze := freeze } : Kernel)) = .ok k₁ := lift_matched hdepth
  refine leads_bind (leads_attempt (leads_apply_ok hrun₁ (leads_bind (leads_read ?_))))
  rw [isOff_outline]
  -- only the last suspension lets the postponed tasks in
  by_cases hopen : k.outline.depth - 1 = 0
  · simp only [if_pos hopen]
    have hopen₁ : k₁.outline.depth = 0 := hopen
    rw [if_pos (decide_eq_true hopen₁)]
    obtain ⟨freeze, table, htake, hintact₂, houtline₂⟩ :=
      hintact₁.takeAll ((isOff_outline k₁).trans (decide_eq_true hopen₁))
    have hrun₂ : (do
        let r ← k₁.freeze.takeAll k₁.table
        return (r.1, ({ k₁ with freeze := r.2.1, table := r.2.2 } : Kernel)))
        = .ok (k₁.outline.handles (k₁.outline.row .postponed),
          { k₁ with freeze := freeze, table := table }) := by
      rw [htake]
      rfl
    refine leads_bind (leads_applyGet_ok hrun₂ (leads_bind ((leads_callIn k₁.runnerPriority _
      k₁.outline _ k₁.switchDue hintact₂ houtline₂ hopen₁ (hintact₁.tagged.nodup _)
      (fun i hi => hintact₁.live_row hi)).mono ?_ (fun _ _ h => h.elim))))
    rintro wanted k' ⟨hintact', houtline', hwanted⟩
    have hrivals : wanted = (k₁.outline.switchDue || k₁.outline.postponedRivals) := by
      rw [hwanted, runnerPriority_outline]
      simp only [Outline.postponedRivals]
      simp only [rivals_eq_reaches]
      rfl
    refine leads_bind (leads_log (leads_bind (leads_update (leads_pure ⟨?_, ?_⟩))))
    · exact hintact'.congr rfl rfl rfl (fun q => by cases q <;> rfl)
    · refine Prod.ext hrivals.symm ?_
      show { k₁.outline.makeAllReady id (k₁.outline.row .postponed) with
        switchDue := k₁.outline.switchDue || k₁.outline.postponedRivals }
          = { k'.outline with switchDue := wanted }
      rw [houtline', hrivals]
  · simp only [if_neg hopen]
    have hopen₁ : ¬ k₁.outline.depth = 0 := hopen
    rw [if_neg (by simp [hopen₁])]
    exact leads_pure ⟨hintact₁, rfl⟩

/-! ## Waking -/

/-- The tick is counted for the task that runs. -/
theorem Intact.chargeRunner (intact : k.Intact) :
    k.chargeRunner.Intact ∧ k.chargeRunner.outline = k.outline.chargeRunner := by
  simp only [Kernel.chargeRunner, Outline.chargeRunner]
  rw [runner_outline]
  cases hrunner : k.outline.runner with
  | none => exact ⟨intact, rfl⟩
  | some h =>
      obtain ⟨-, task, hget, -⟩ := Outline.runner_eq_some hrunner
      obtain rfl : task.handle = h := (intact.tagged.get?_eq_some.mp hget).2
      have hpriority : task.priority < k.settings.levels :=
        intact.tagged.priority (intact.tenant hget)
      simp only [get?_outline, Option.bind_some, hget]
      exact intact.putTask (intact.tenant hget) rfl rfl hpriority

/-- A task is marked as woken by the tick. -/
theorem Intact.markTimedOut (intact : k.Intact) {h : Handle} {task : Task}
    (live : k.outline.get? h = some task) :
    (k.markTimedOut h).Intact
      ∧ (k.markTimedOut h).outline = k.outline.put h.index (Outline.timedOut task) := by
  have hpriority : task.priority < k.settings.levels :=
    intact.tagged.priority (intact.tenant live)
  simp only [Kernel.markTimedOut]
  simp only [get?_outline, live]
  exact intact.putTask (intact.tenant live) rfl rfl hpriority

/-- Tasks that were called off the list of their cycle become ready in turn. -/
theorem leads_wakeAllDue :
    ∀ (l : List Nat) (o : Outline) (k : Kernel), k.Intact → k.outline = o.liftAll l →
      l.Nodup → (∀ i ∈ l, ∃ task, o.tenant i = some task) →
      Leads (wakeAllDue (o.handles l)) k
        (fun _ k' => k'.Intact ∧ k'.outline = o.makeAllReady Outline.timedOut l)
        (fun _ _ => False) := by
  intro l
  induction l with
  | nil =>
      intro o k intact houtline _ _
      refine leads_pure ⟨intact, ?_⟩
      rw [houtline, Outline.liftAll_nil, Outline.makeAllReady_nil]
  | cons i rest ih =>
      intro o k intact houtline nodup live
      obtain ⟨hfresh, hnodup⟩ := List.nodup_cons.mp nodup
      obtain ⟨task, htask⟩ := live i List.mem_cons_self
      obtain ⟨hindex, hget⟩ := intact.lifted_head houtline htask
      obtain ⟨hintact₁, houtline₁⟩ := intact.markTimedOut hget
      have hget₁ : (k.markTimedOut task.handle).outline.get? task.handle
          = some (Outline.timedOut { task with place := .unlinked }) := by
        rw [houtline₁]
        exact Outline.get?_update_self hget rfl rfl
      obtain ⟨k₂, hrun₂, hintact₂, houtline₂⟩ := hintact₁.release hget₁ rfl
      let o₁ := o.makeReady i (Outline.timedOut task)
      -- marked and released, the first task is where the batch puts it
      have ho₁ : k₂.outline = o₁.liftAll rest := by
        rw [houtline₂, houtline₁, hindex, houtline, Outline.makeReady_put]
        exact Outline.makeReady_liftAll htask hfresh rfl
      have hhandles : o.handles (i :: rest) = task.handle :: o₁.handles rest := by
        rw [Outline.handles_cons htask, Outline.handles_makeReady hfresh]
      have hrest : ∀ j ∈ rest, o₁.tenant j = o.tenant j :=
        fun j hj => Outline.tenant_makeReady hfresh hj
      have hlive₁ : ∀ j ∈ rest, ∃ task, o₁.tenant j = some task := by
        intro j hj
        rw [hrest j hj]
        exact live j (List.mem_cons_of_mem i hj)
      rw [hhandles]
      refine leads_bind (leads_bind (leads_update (leads_bind (leads_attempt
        (leads_apply_ok hrun₂ (leads_pure ?_))))))
      refine (ih o₁ k₂ hintact₂ ho₁ hnodup hlive₁).mono ?_ (fun _ _ h => h)
      rintro _ k' ⟨hintact, hk'⟩
      refine ⟨hintact, ?_⟩
      rw [hk', Outline.makeAllReady_cons htask hfresh]

/-! ## Judging -/

/-- The slice of the running task is measured. -/
theorem Intact.chargeSlice (intact : k.Intact) (priority : Nat) :
    (k.chargeSlice priority).2.Intact
      ∧ ((k.chargeSlice priority).1, (k.chargeSlice priority).2.outline)
        = k.outline.chargeSlice priority := by
  have hcount : k.ready.countAt priority = 0 ↔ k.outline.row (.ready priority) = [] := by
    rw [intact.threaded.countAt, List.length_eq_zero_iff]
  -- the count of the slice and the mark are in none of the structures
  have hintact : ∀ spent behind,
      ({ k with sliceSpent := spent, sendBehind := behind } : Kernel).Intact := by
    intro spent behind
    exact intact.congr rfl rfl rfl (fun q => by cases q <;> rfl)
  simp only [Kernel.chargeSlice, Outline.chargeSlice]
  by_cases hturns : k.settings.takingTurns = true
  · have hturns' : k.outline.settings.takingTurns = true := hturns
    rw [if_pos hturns, if_pos hturns']
    by_cases hzero : k.outline.row (.ready priority) = []
    · rw [if_pos (hcount.mpr hzero), if_pos hzero]
      exact ⟨hintact 0 k.sendBehind, rfl⟩
    · rw [if_neg (fun h => hzero (hcount.mp h)), if_neg hzero]
      by_cases hspent : k.settings.slice ≤ saturatingSucc k.sliceSpent
      · have hspent' : k.outline.settings.slice ≤ saturatingSucc k.outline.sliceSpent := hspent
        simp only [if_pos hspent, if_pos hspent']
        exact ⟨hintact _ true, rfl⟩
      · have hspent' : ¬ k.outline.settings.slice ≤ saturatingSucc k.outline.sliceSpent := hspent
        simp only [if_neg hspent, if_neg hspent']
        exact ⟨hintact _ k.sendBehind, rfl⟩
  · have hturns' : ¬ k.outline.settings.takingTurns = true := hturns
    rw [if_neg hturns, if_neg hturns']
    exact ⟨intact, rfl⟩

/-- Whether a switch is wanted after a tick is judged. -/
theorem Intact.judge (intact : k.Intact) :
    k.judge.2.Intact ∧ (k.judge.1, k.judge.2.outline) = k.outline.judge := by
  simp only [Kernel.judge, Outline.judge]
  rw [runnerPriority_outline]
  cases k.outline.runnerPriority with
  | some p =>
      obtain ⟨hintact, houtline⟩ := intact.chargeSlice p
      refine ⟨hintact, ?_⟩
      show (((k.chargeSlice p).1 || (k.chargeSlice p).2.readyAbove p || (k.chargeSlice p).2.switchDue),
        (k.chargeSlice p).2.outline)
          = ((k.outline.chargeSlice p).1 || (k.outline.chargeSlice p).2.readyAbove p
              || (k.outline.chargeSlice p).2.switchDue, (k.outline.chargeSlice p).2)
      rw [hintact.readyAbove, ← houtline]
      rfl
  | none =>
      refine ⟨intact, ?_⟩
      show ((!k.ready.isEmpty || k.switchDue), k.outline) = _
      rw [intact.isEmpty, Bool.not_not]
      rfl

/-- A tick is answered. -/
theorem Intact.answerTick (intact : k.Intact) :
    k.answerTick.2.Intact ∧ (k.answerTick.1, k.answerTick.2.outline) = k.outline.answerTick := by
  obtain ⟨hintact, houtline⟩ := intact.judge
  simp only [Kernel.answerTick, Outline.answerTick]
  rw [← houtline]
  clear houtline
  revert hintact
  obtain ⟨wanted, k₁⟩ := k.judge
  intro hintact
  by_cases hopen : k₁.outline.depth = 0
  · simp only [isOff_outline, hopen, decide_true, if_true]
    exact ⟨hintact, rfl⟩
  · simp only [isOff_outline, hopen, decide_false, Bool.false_eq_true, if_false]
    obtain ⟨hintact', houtline'⟩ := hintact.wantSwitchIf wanted
    exact ⟨hintact', congrArg (Prod.mk false) houtline'⟩

/-! ## Ticking -/

/-- The tasks whose tick has come become ready, and the tick is answered. -/
theorem Intact.leads_wakeDue (intact : k.Intact) :
    Leads (do
        let due ← applyGet fun k => do
          let (due, delayed, table) ← k.delayed.takeDue k.table k.now
          return (due, { k with delayed := delayed, table := table })
        wakeAllDue due
        if !due.isEmpty then
          log (.tickWoke (← read).now due.length)
        applyGet fun k => .ok k.answerTick) k
      (fun a k' => k'.Intact ∧ k.outline.wakeDue.answerTick = (a, k'.outline))
      (fun _ _ => False) := by
  obtain ⟨delayed, table, htake, hintact₁, houtline₁⟩ := intact.takeDue
  have hrun₁ : (do
      let (due, delayed, table) ← k.delayed.takeDue k.table k.now
      return (due, ({ k with delayed := delayed, table := table } : Kernel)))
      = .ok (k.outline.handles k.outline.due, { k with delayed := delayed, table := table }) := by
    rw [htake]
    rfl
  have hsub : ∀ i ∈ k.outline.due, i ∈ k.outline.row (.delayed k.outline.cycle) :=
    fun i hi => List.takeWhile_subset _ hi
  have hnodup : k.outline.due.Nodup :=
    (intact.tagged.nodup _).sublist (List.takeWhile_sublist _)
  refine leads_bind (leads_applyGet_ok hrun₁ (leads_bind ((leads_wakeAllDue k.outline.due k.outline
    _ hintact₁ houtline₁ hnodup (fun i hi => intact.live_row (hsub i hi))).mono ?_
    (fun _ _ h => h))))
  rintro _ k₂ ⟨hintact₂, houtline₂⟩
  obtain ⟨hintact₃, houtline₃⟩ := hintact₂.answerTick
  have hend : Leads (applyGet fun k => .ok k.answerTick) k₂
      (fun a k' => k'.Intact ∧ k.outline.wakeDue.answerTick = (a, k'.outline))
      (fun _ _ => False) := by
    have hrun₃ : (Except.ok k₂.answerTick : Except Failure (Bool × Kernel))
        = .ok (k₂.answerTick.1, k₂.answerTick.2) := rfl
    refine leads_applyGet_ok hrun₃ ⟨hintact₃, ?_⟩
    rw [houtline₃, houtline₂]
    rfl
  by_cases hempty : (!(k.outline.handles k.outline.due).isEmpty) = true
  · -- what is logged changes nothing of the kernel
    rw [if_pos hempty]
    exact leads_bind (leads_read (leads_bind (leads_log hend)))
  · rw [if_neg hempty]
    exact hend

/-- One tick passes. -/
theorem Intact.enacts_tick (intact : k.Intact)
    (done : k.outline.now + 1 = 0 → k.outline.row (.delayed k.outline.cycle) = []) :
    Enacts tick (Step.always Outline.tick) k := by
  refine enacts_always ?_
  obtain ⟨hintact₁, houtline₁⟩ := intact.chargeRunner
  have hrow : k.outline.chargeRunner.row = k.outline.row
      ∧ k.outline.chargeRunner.cycle = k.outline.cycle
      ∧ k.outline.chargeRunner.now = k.outline.now := by
    rcases k.outline.chargeRunner_cases with h | ⟨task, -, h⟩
    · rw [h]
      exact ⟨rfl, rfl, rfl⟩
    · rw [h]
      exact ⟨rfl, rfl, rfl⟩
  let k₂ : Kernel := { k.chargeRunner with now := k.chargeRunner.now + 1 }
  have hintact₂ : k₂.Intact := hintact₁.congr rfl rfl rfl (fun q => by cases q <;> rfl)
  have hnow : k₂.now = k.outline.chargeRunner.now + 1 := by
    rw [← houtline₁]
    rfl
  refine leads_bind (leads_update (leads_bind (leads_update (leads_bind (leads_read ?_)))))
  simp only [Outline.tick, Outline.advance]
  rw [← hnow]
  by_cases hwrap : k₂.now = 0
  · rw [if_pos hwrap, if_pos hwrap]
    -- a wrap finds the list of its cycle empty, so the lists can change roles
    have hdone : k₂.outline.row (.delayed k₂.outline.cycle) = [] := by
      show k.chargeRunner.outline.row (.delayed k.chargeRunner.outline.cycle) = []
      rw [houtline₁, hrow.1, hrow.2.1]
      refine done ?_
      rw [← hrow.2.2, ← hnow]
      exact hwrap
    let k₃ : Kernel := { k₂ with
      delayed := { k₂.delayed with current := k₂.delayed.current.other }
      wraps := k₂.wraps + 1 }
    have hintact₃ : k₃.Intact := hintact₂.congr rfl rfl rfl (fun q => by
      cases q with
      | delayed cycle => cases cycle <;> rfl
      | _ => rfl)
    have hrun₃ : (do
        let delayed ← k₂.delayed.turnOver
        return ({ k₂ with delayed := delayed } : Kernel))
        = .ok { k₂ with delayed := { k₂.delayed with current := k₂.delayed.current.other } } := by
      rw [turnOver_ok hintact₂ hdone]
      rfl
    have hk₃ : k₃.outline = { k.outline.chargeRunner with
        now := 0
        cycle := k.outline.chargeRunner.cycle.other
        wraps := k.outline.chargeRunner.wraps + 1 } := by
      rw [← houtline₁, ← hwrap]
      rfl
    rw [← hk₃]
    exact leads_bind (leads_bind (leads_apply_ok hrun₃ (leads_bind (leads_update (leads_log
      hintact₃.leads_wakeDue)))))
  · rw [if_neg hwrap, if_neg hwrap]
    have hk₂ : k₂.outline = { k.outline.chargeRunner with now := k₂.now } := by
      rw [← houtline₁]
      rfl
    rw [← hk₂]
    exact hintact₂.leads_wakeDue

end Kernel

end PriorityScheduler
