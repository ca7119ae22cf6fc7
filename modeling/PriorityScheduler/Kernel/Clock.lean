import PriorityScheduler.Kernel.Switching

/-! # The clock

    `Kernel.tick` is what the timer interrupt runs.  It counts the tick, wakes
    the tasks whose time has come, measures the running task's slice, and
    answers whether a switch is worth asking for.  It refuses nothing and waits
    for nothing. -/

namespace PriorityScheduler

namespace Kernel

open Routine

/-! ## Waking -/

/-- Count the tick for the task that runs. -/
def chargeRunner (k : Kernel) : Kernel :=
  match k.runner with
  | none => k
  | some h =>
      match k.table.get? h with
      | none => k
      | some task => k.putTask h.index { task with runTicks := task.runTicks + 1 }

/-- Mark a task as woken by the tick. -/
def markTimedOut (k : Kernel) (h : Handle) : Kernel :=
  match k.table.get? h with
  | none => k
  | some task =>
      k.putTask h.index { task with flags := { task.flags with timedOut := true } }

/-- Make ready a task whose time has come. -/
def wakeDue (h : Handle) : Routine Kernel Unit := do
  update fun k => k.markTimedOut h
  match ← attempt (apply fun k => k.release h) with
  | .error cause => log (.tickRefused (← read).now h cause)
  | .ok () => return ()

/-- Make ready the tasks whose time has come, the earliest first. -/
def wakeAllDue : List Handle → Routine Kernel Unit
  | [] => return ()
  | h :: rest => do
      wakeDue h
      wakeAllDue rest

/-! ## Judging -/

/-- Measure the slice of a running task of the given priority.  A slice runs
    only while the level holds a peer.  Answers whether it is used up, in which
    case the next dispatch lets the peers go first. -/
def chargeSlice (k : Kernel) (priority : Nat) : Bool × Kernel :=
  if k.settings.takingTurns then
    if k.ready.countAt priority = 0 then
      (false, { k with sliceSpent := 0 })
    else
      let spent := saturatingSucc k.sliceSpent
      if k.settings.slice ≤ spent then
        (true, { k with sliceSpent := spent, sendBehind := true })
      else
        (false, { k with sliceSpent := spent })
  else
    (false, k)

/-- Whether a switch is wanted after a tick: the slice is used up, a ready task
    is above the running one, or one was wanted before. -/
def judge (k : Kernel) : Bool × Kernel :=
  match k.runnerPriority with
  | some p =>
      let (expired, k) := k.chargeSlice p
      (expired || k.readyAbove p || k.switchDue, k)
  | none => (!k.ready.isEmpty || k.switchDue, k)

/-- The answer of a tick.  While scheduling is suspended a wanted switch is
    remembered and the answer held back; without preemption none is given. -/
def answerTick (k : Kernel) : Bool × Kernel :=
  let (wanted, k) := k.judge
  if k.freeze.isOff then
    (wanted && k.settings.preemption, k)
  else
    (false, k.wantSwitchIf wanted)

/-! ## Ticking -/

/-- The counter has come to zero again. -/
def wrapClock : Routine Kernel Unit := do
  apply fun k => do
    let delayed ← k.delayed.turnOver
    return { k with delayed := delayed }
  update fun k => { k with wraps := k.wraps + 1 }
  log .tickWrapped

/-- Let one tick pass. -/
def tick : Routine Kernel Bool := do
  update chargeRunner
  update fun k => { k with now := k.now + 1 }
  if (← read).now = 0 then
    wrapClock
  let due ← applyGet fun k => do
    let (due, delayed, table) ← k.delayed.takeDue k.table k.now
    return (due, { k with delayed := delayed, table := table })
  wakeAllDue due
  if !due.isEmpty then
    log (.tickWoke (← read).now due.length)
  applyGet fun k => .ok k.answerTick

/-- Let a number of ticks pass.  Answers whether a switch was asked for, by one
    of them or before. -/
def elapseFrom : Bool → Nat → Routine Kernel Bool
  | asked, 0 => return asked
  | asked, n + 1 => do
      let now ← tick
      elapseFrom (asked || now) n

/-- Let the ticks pass that could not be delivered in time. -/
def elapse (ticks : Tick) : Routine Kernel Bool :=
  elapseFrom false ticks.toNat

/-- Let one tick pass and make a switch if the tick asks for it.  Answers what
    came of the switch, if there was to be one. -/
def tickAndSwitch : Routine Kernel (Option (Option Handle)) := do
  if ← tick then
    return some (← switch)
  else
    return none

/-! ## Timeouts -/

/-- Whether the running task's last wait was cut short; the mark is used up by
    the question. -/
def takeCutShort (k : Kernel) : Bool × Kernel :=
  match k.runner with
  | none => (false, k)
  | some h =>
      match k.table.get? h with
      | none => (false, k)
      | some task =>
          if task.flags.cutShort then
            (true, k.putTask h.index { task with flags := { task.flags with cutShort := false } })
          else
            (false, k)

/-- Check whether a wait of `remaining` ticks begun at `since` is over.  A wait
    of the running task that was cut short counts as over. -/
def checkWait (since : Moment) (remaining : Tick) : Routine Kernel Moment.Verdict := do
  if ← applyGet fun k => .ok k.takeCutShort then
    return ⟨true, since, remaining⟩
  else
    return (← read).moment.checkWait since remaining

end Kernel

end PriorityScheduler
