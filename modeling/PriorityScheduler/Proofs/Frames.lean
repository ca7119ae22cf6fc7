import PriorityScheduler.Proofs.Soundness.Runs

/-! # What a change leaves alone

    Each change of an outline is made to a slot, or to the slots of a list.  A
    handle to a task in another slot names the same task before and after. -/

namespace PriorityScheduler

open Function (update)

namespace Outline

variable {o o₁ o' : Outline} {i : Nat} {h h' : Handle} {task task' : Task}

/-! ## Other slots -/

theorem get?_putBack (hi : h.index ≠ task.handle.index) (side : Side) :
    (o.putBack side task).get? h = o.get? h :=
  get?_reseat hi side

theorem get?_regrade (hi : h.index ≠ i) (priority : Nat) :
    (o.regrade i task priority).get? h = o.get? h := by
  simp only [regrade]
  by_cases hqueued : queued task = true
  · rw [if_pos hqueued]
    exact get?_reseat hi .back
  · rw [if_neg hqueued]
    exact get?_put hi

theorem get?_makeAllReady {f : Task → Task} {l : List Nat} (hi : h.index ∉ l) :
    (o.makeAllReady f l).get? h = o.get? h :=
  get?_congr rfl (if_neg hi)

/-! ## Telling slots apart -/

/-- Two tasks at different places are in different slots. -/
theorem Sound.index_ne_of_place (sound : o.Sound) (live : o.get? h = some task)
    (other : o.tenant i = some task') (place : task'.place ≠ task.place) : h.index ≠ i := by
  intro heq
  have htask := sound.live live
  rw [heq, other] at htask
  exact place (congrArg Task.place (Option.some.inj htask))

/-- A task is not on the list of another place. -/
theorem Sound.index_not_mem (sound : o.Sound) (live : o.get? h = some task) {q : Place}
    (place : q ≠ task.place) : h.index ∉ o.row q :=
  sound.tagged.not_mem_row (sound.live live) place

/-! ## A choice -/

/-- The settings, the slots, the clock and the suspension stay as they were, though the
    tasks in the slots need not. -/
structure Stays (o o' : Outline) : Prop where
  settings : o'.settings = o.settings
  size : o'.size = o.size
  generation : o'.generation = o.generation
  vacant : o'.vacant = o.vacant
  liveCount : o'.liveCount = o.liveCount
  cycle : o'.cycle = o.cycle
  now : o'.now = o.now
  wraps : o'.wraps = o.wraps
  depth : o'.depth = o.depth
  idle : o'.idle = o.idle

/-- Marks have no part in it. -/
theorem stays_remark (o : Outline) (behind due : Bool) :
    Stays o { o with sendBehind := behind, switchDue := due } :=
  ⟨rfl, rfl, rfl, rfl, rfl, rfl, rfl, rfl, rfl, rfl⟩

theorem Stays.refl (o : Outline) : Stays o o :=
  o.stays_remark o.sendBehind o.switchDue

theorem Stays.trans (first : Stays o o₁) (second : Stays o₁ o') : Stays o o' where
  settings := second.settings.trans first.settings
  size := second.size.trans first.size
  generation := second.generation.trans first.generation
  vacant := second.vacant.trans first.vacant
  liveCount := second.liveCount.trans first.liveCount
  cycle := second.cycle.trans first.cycle
  now := second.now.trans first.now
  wraps := second.wraps.trans first.wraps
  depth := second.depth.trans first.depth
  idle := second.idle.trans first.idle

/-- A choice changes the tasks that lose and gain the processor, the slice and the marks. -/
theorem Sound.choose_stays (sound : o.Sound) : Step.Leaves (Stays o) (choose o) := by
  have hchoice := choose_choice sound.tagged sound.runnerFree
  generalize choose o = r at hchoice ⊢
  cases hchoice with
  | _ => exact ⟨rfl, rfl, rfl, rfl, rfl, rfl, rfl, rfl, rfl, rfl⟩

theorem Sound.stays_of_choose (sound : o.Sound) (chosen : choose o = .ok h o') : Stays o o' := by
  have hleaves := sound.choose_stays
  rwa [chosen] at hleaves

/-! ## A tick, seen by one task -/

/-- Counting a tick for the running task leaves the clock alone. -/
theorem chargeRunner_clock (o : Outline) :
    o.chargeRunner.now = o.now ∧ o.chargeRunner.cycle = o.cycle ∧ o.chargeRunner.depth = o.depth := by
  rcases o.chargeRunner_cases with heq | ⟨t, -, heq⟩
  · rw [heq]
    exact ⟨rfl, rfl, rfl⟩
  · rw [heq]
    exact ⟨rfl, rfl, rfl⟩

/-- The clock goes on by one tick, and the depth of the suspension stays. -/
theorem tick_clock (o : Outline) :
    o.tick.2.now = o.advance.now ∧ o.tick.2.cycle = o.advance.cycle ∧ o.tick.2.depth = o.depth := by
  obtain ⟨spent, behind, due, heq⟩ := o.chargeRunner.advance.wakeDue.answerTick_snd
  obtain ⟨hnow, hcycle, hdepth⟩ := o.chargeRunner_clock
  have hadvance : o.chargeRunner.advance.now = o.advance.now
      ∧ o.chargeRunner.advance.cycle = o.advance.cycle
      ∧ o.chargeRunner.advance.depth = o.depth := by
    simp only [advance, hnow, hcycle]
    by_cases hwrap : o.now + 1 = 0
    · rw [if_pos hwrap, if_pos hwrap]
      exact ⟨rfl, rfl, hdepth⟩
    · rw [if_neg hwrap, if_neg hwrap]
      exact ⟨rfl, rfl, hdepth⟩
  show o.chargeRunner.advance.wakeDue.answerTick.2.now = _ ∧ _
  rw [show o.tick.2 = o.chargeRunner.advance.wakeDue.answerTick.2 from rfl, heq]
  exact hadvance

/-- A tick vacates no slot. -/
theorem tick_generation (o : Outline) : o.tick.2.generation = o.generation := by
  obtain ⟨spent, behind, due, heq⟩ := o.tick_passed
  have hcharged : o.chargeRunner.generation = o.generation := by
    rcases o.chargeRunner_cases with hc | ⟨task, -, hc⟩
    · rw [hc]
    · rw [hc]
      rfl
  have hadvanced : o.chargeRunner.advance.generation = o.chargeRunner.generation := by
    rcases o.chargeRunner.advance_cases with ⟨-, ha⟩ | ⟨-, ha⟩
    · rw [ha]
    · rw [ha]
  rw [heq]
  exact hadvanced.trans hcharged

/-- A task is called by the tick that it waits for. -/
theorem Struck.mem_due (struck : o.Struck) (live : o.get? h = some task) :
    h.index ∈ o.due ↔ task.place = .delayed o.cycle ∧ task.wakeTick = o.now := by
  have hlive := (struck.tagged.get?_eq_some.mp live).1
  have htick : tickOf o.tenant h.index = task.wakeTick := by
    simp only [tickOf, hlive]
  rw [Outline.mem_due (struck.inOrder _), struck.tagged.mem_row, htick]
  constructor
  · rintro ⟨⟨-, t, ht, hplace⟩, hle⟩
    rw [hlive] at ht
    obtain rfl := Option.some.inj ht
    exact ⟨hplace, UInt32.le_antisymm hle (struck.ahead hlive hplace)⟩
  · rintro ⟨hplace, hwake⟩
    exact ⟨⟨(by rintro ⟨⟩), task, hlive, hplace⟩, UInt32.le_of_eq hwake⟩

/-- What a tick does to a task that is on a list: it is made ready if it waits for
    this tick, and else left alone. -/
theorem Sound.tick_get? (sound : o.Sound) (live : o.get? h = some task)
    (linked : task.place ≠ .unlinked) :
    o.tick.2.get? h
      = some (if task.place = .delayed o.advance.cycle ∧ task.wakeTick = o.advance.now then
          o.readied (timedOut task) else task) := by
  obtain ⟨spent, behind, due, heq⟩ := o.chargeRunner.advance.wakeDue.answerTick_snd
  obtain ⟨hnow, hcycle, hdepth⟩ := o.tick_clock
  have hclock : o.advance.now = o.chargeRunner.advance.now
      ∧ o.advance.cycle = o.chargeRunner.advance.cycle ∧ o.depth = o.chargeRunner.advance.depth := by
    rw [show o.tick.2 = o.chargeRunner.advance.wakeDue.answerTick.2 from rfl, heq] at hnow hcycle hdepth
    exact ⟨hnow.symm, hcycle.symm, hdepth.symm⟩
  -- the charge is to the running task, which is on no list
  have hcharged : o.chargeRunner.get? h = some task := by
    rcases o.chargeRunner_cases with heq | ⟨t, hrun, heq⟩
    · rw [heq]
      exact live
    · obtain ⟨hrunner, hget⟩ := sound.of_running hrun
      have hi : h.index ≠ t.handle.index := by
        refine sound.index_ne_of_place live (sound.live hget) ?_
        rw [sound.runnerFree _ _ hrunner hget]
        exact linked.symm
      rw [heq, get?_put hi]
      exact live
  have hstruck := sound.chargeRunner.advance
  have hadvanced : o.chargeRunner.advance.get? h = some task := by
    rcases o.chargeRunner.advance_cases with ⟨-, heq⟩ | ⟨-, heq⟩
    · rw [heq]
      exact hcharged
    · rw [heq]
      exact hcharged
  -- where a task is made ready depends on the depth, which a tick leaves alone
  have hready : o.chargeRunner.advance.readied (timedOut task) = o.readied (timedOut task) := by
    simp only [readied, readyPlace, hclock.2.2]
  have hwoken := makeAllReady_get? (f := timedOut) (l := o.chargeRunner.advance.due) hadvanced
  rw [hready] at hwoken
  rw [show o.tick.2 = o.chargeRunner.advance.wakeDue.answerTick.2 from rfl, heq, hclock.1, hclock.2.1]
  refine Eq.trans hwoken ?_
  by_cases hdue : task.place = .delayed o.chargeRunner.advance.cycle
      ∧ task.wakeTick = o.chargeRunner.advance.now
  · rw [if_pos hdue, if_pos ((hstruck.mem_due hadvanced).mpr hdue)]
  · rw [if_neg hdue, if_neg (fun hmem => hdue ((hstruck.mem_due hadvanced).mp hmem))]

end Outline

end PriorityScheduler
