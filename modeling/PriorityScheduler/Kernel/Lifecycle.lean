import PriorityScheduler.Kernel.Switching

/-! # The life of a task

    Tasks are created ready or suspended, may be suspended and resumed by
    handle, may change priority, and end by being deleted.  The idle task is
    made when the scheduler starts and stays. -/

namespace PriorityScheduler

namespace Kernel

open Routine

/-- Make a task with the given flags. -/
def enroll (spec : TaskSpec) (flags : Flags) : Routine Kernel Handle :=
  masked do
    let h ← applyGet fun k => do
      let (h, table) ← k.table.enter spec flags
      return (h, { k with table := table })
    if spec.begins = .suspended then
      apply fun k => k.setAside h
    else
      apply fun k => k.release h
      update fun k => k.wantSwitchIf (k.freeze.isOff && k.beatsRunner spec.priority)
    log (.created spec.name h spec.priority spec.begins)
    return h

/-- Make a task, ready or suspended. -/
def create (spec : TaskSpec) : Routine Kernel Handle :=
  enroll spec {}

/-- Make the idle task and dispatch the first task. -/
def start (entry : Nat) : Routine Kernel Handle := do
  let k ← read
  if k.idle.isSome then
    refuse .invalidState
  else
    let idle ← enroll
      { name := k.settings.idleName, entry := entry, priority := idlePriority }
      { idle := true }
    update fun k => { k with idle := some idle }
    log (.starting (← read).table.liveCount)
    let first ← choose
    switchTo none first
    return first

/-- Retire a task.  Answers whether it was dispatched last. -/
def remove (h : Handle) : Routine Kernel Bool :=
  masked do
    let task ← look fun k => k.table.find h
    if task.flags.idle then
      refuse .invalidState
    else
      look fun k => k.ensureReplaceable h
      apply fun k => k.withdraw h
      let task ← applyGet fun k => do
        let (task, table) ← k.table.retire h
        return (task, { k with table := table })
      log (.deleted task.name h)
      if (← read).current = some h then
        update fun k => { k with current := none, sliceSpent := 0 }
        return true
      else
        return false

/-- Retire a task.  If it was dispatched last its successor is dispatched at
    once, unless scheduling is suspended. -/
def delete (h : Handle) : Routine Kernel Unit := do
  if ← remove h then replaceRunner

/-- Store the platform's saved context word of a task. -/
def saveContext (h : Handle) (context : Nat) : Routine Kernel Unit :=
  apply fun k => k.updateTask h fun task => { task with context := context }

/-! ## Suspension by handle -/

/-- Put a task aside.  To do so again changes nothing.  Answers whether it was
    running. -/
def shelve (h : Handle) : Routine Kernel Bool :=
  masked do
    let task ← look fun k => k.table.find h
    if task.flags.idle then
      refuse .invalidState
    else if task.activity = .suspended then
      return false
    else
      look fun k => k.ensureReplaceable h
      apply fun k => k.withdraw h
      apply fun k => k.setAside h
      log (.suspended h)
      return task.activity == .running

/-- Leave a task out of scheduling until it is resumed.  To suspend it again
    changes nothing. -/
def suspend (h : Handle) : Routine Kernel Unit := do
  if ← shelve h then replaceRunner

/-- Make a suspended task ready.  Answers whether it is at or above the running
    task, so that a switch is worth a look. -/
def resume (h : Handle) : Routine Kernel Bool :=
  masked do
    let task ← look fun k => k.table.find h
    if task.activity = .suspended then
      apply fun k => k.withdraw h
      apply fun k => k.release h
      log (.resumed h)
      let k ← read
      let wanted := k.freeze.isOff && k.rivalsRunner task.priority
      update fun k => k.wantSwitchIf wanted
      return wanted
    else
      return false

/-! ## Priority -/

/-- Change a task's priority.  A ready task moves to the end of its new level.
    Answers whether a switch should follow. -/
def reprioritise (h : Handle) (priority : Nat) : Routine Kernel Bool := do
  if (← read).settings.levels ≤ priority then
    refuse .invalidPriority
  else
    masked do
      let task ← look fun k => k.table.find h
      if task.priority = priority then
        return false
      else
        let queued := match task.place with
          | .ready _ => true
          | _ => false
        if queued then
          apply fun k => k.withdraw h
        apply fun k => k.updateTask h fun task => { task with priority := priority }
        if queued then
          apply fun k => k.enqueue .back h
        log (.reprioritised h task.priority priority)
        let k ← read
        let wanted := match task.activity with
          | .running => k.readyAbove priority
          | .ready => queued && k.beatsRunner priority
          | _ => false
        update fun k => k.wantSwitchIf wanted
        return wanted

end Kernel

end PriorityScheduler
