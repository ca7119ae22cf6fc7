import PriorityScheduler.Kernel.Switching

/-! # Waiting

    Blocking a task moves its record from one list to another; it is the
    dispatcher that takes the processor away.  A blocked task comes back by
    `Kernel.wake` when what it waits for has happened, by `Kernel.cutShort` when
    it is to wait no longer, or by the tick. -/

namespace PriorityScheduler

namespace Kernel

open Routine

/-- Block a ready or running task for a number of ticks, or until it is woken
    if the number is `waitForever`.  Zero ticks change nothing.  A running task
    stays on the processor until its caller has a switch made. -/
def block (h : Handle) (ticks : Tick) : Routine Kernel Unit :=
  masked do
    let task ← look fun k => k.table.find h
    if task.flags.idle = true ∨ (task.activity ≠ .ready ∧ task.activity ≠ .running) then
      refuse .invalidState
    else
      look fun k => k.ensureReplaceable h
      if ticks = 0 then
        return ()
      else
        apply fun k => k.withdraw h
        apply fun k => k.updateTask h fun task =>
          { task with flags := { task.flags with timedOut := false, cutShort := false } }
        if ticks = waitForever then
          apply fun k => k.holdForever h
          log (.blockedForever h)
        else
          apply fun k => k.holdFor h ticks
          log (.blockedUntil h ((← read).now + ticks))
        update fun k => k.wantSwitchIf (task.activity == .running)

/-- The task that runs; without one the caller is refused. -/
def needRunner : Routine Kernel Handle :=
  look fun k =>
    match k.runner with
    | some h => .ok h
    | none => refusal .invalidState

/-- Block the running task for a number of ticks and switch.  Zero ticks only
    let its peers go first. -/
def pause (ticks : Tick) : Routine Kernel Unit := do
  let cur ← needRunner
  if ticks = 0 then
    let _ ← cede
  else
    block cur ticks
    let _ ← switch

/-- Block the running task until the end of a `period` begun at `anchor`.
    Answers whether that time still lay ahead, so that the task did block, and
    the anchor of the next period; a refusal answers no anchor, and the old one
    stays good. -/
def pausePeriod (anchor period : Tick) : Routine Kernel (Bool × Tick) := do
  let cur ← needRunner
  let now := (← read).now
  let finish := anchor + period
  if periodAhead anchor period now then
    block cur (finish - now)
    let _ ← switch
    return (true, finish)
  else
    let _ ← cede
    return (false, finish)

/-- End the wait of a blocked task; `early` says whether it was cut short.
    Answers whether the task is above the running one. -/
def endWait (h : Handle) (early : Bool) : Routine Kernel Bool :=
  masked do
    let task ← look fun k => k.table.find h
    if task.activity = .blocked then
      apply fun k => k.withdraw h
      apply fun k => k.updateTask h fun task =>
        { task with flags := { task.flags with
            timedOut := false
            cutShort := task.flags.cutShort || early } }
      apply fun k => k.release h
      let k ← read
      let wanted := k.freeze.isOff && k.beatsRunner task.priority
      update fun k => k.wantSwitchIf wanted
      log (.woken h wanted)
      return wanted
    else
      refuse .invalidState

/-- End the wait of a blocked task because what it waits for has happened. -/
def wake (h : Handle) : Routine Kernel Bool := endWait h false

/-- End the wait of a blocked task before that. -/
def cutShort (h : Handle) : Routine Kernel Bool := endWait h true

end Kernel

end PriorityScheduler
