import PriorityScheduler.Kernel.Basic

/-! # Moving tasks between the kernel's lists

    A task leaves the list it is on by `Kernel.withdraw` and enters another one
    by `Kernel.release`, `Kernel.setAside`, `Kernel.holdForever` or
    `Kernel.holdFor`.  The last four set what the task is doing along with its
    place, so the two always go together. -/

namespace PriorityScheduler

namespace Kernel

/-- Take a task off the list it is on.  A running task is on none. -/
def withdraw (k : Kernel) (h : Handle) : Except Failure Kernel := do
  let task ← k.table.find h
  match task.place with
  | .unlinked => return k
  | .ready _ =>
      let (ready, table) ← k.ready.erase k.table h
      return { k with ready := ready, table := table }
  | .delayed _ =>
      let (delayed, table) ← k.delayed.erase k.table h
      return { k with delayed := delayed, table := table }
  | .postponed =>
      let (freeze, table) ← k.freeze.erase k.table h
      return { k with freeze := freeze, table := table }
  | .waiting =>
      let (waiting, table) ← k.table.unlinkFrom k.waiting h.index
      return { k with
        waiting := waiting
        table := table.put h.index { task with place := .unlinked } }
  | .suspended =>
      let (suspended, table) ← k.table.unlinkFrom k.suspended h.index
      return { k with
        suspended := suspended
        table := table.put h.index { task with place := .unlinked } }

/-- Enter a task at one end of the ready level of its priority. -/
def enqueue (k : Kernel) (side : Side) (h : Handle) : Except Failure Kernel := do
  let (ready, table) ← k.ready.insert side k.table h
  return { k with ready := ready, table := table }

/-- Make an unlinked task ready.  While scheduling is suspended it is only
    postponed. -/
def release (k : Kernel) (h : Handle) : Except Failure Kernel :=
  if k.freeze.isOff then
    k.enqueue .back h
  else do
    let (freeze, table) ← k.freeze.postpone k.table h
    return { k with freeze := freeze, table := table }

/-- Suspend an unlinked task. -/
def setAside (k : Kernel) (h : Handle) : Except Failure Kernel := do
  let task ← k.table.findUnlinked h
  let table := k.table.put h.index { task with activity := .suspended, place := .suspended }
  let (suspended, table) := table.linkLast k.suspended h.index
  return { k with suspended := suspended, table := table }

/-- Block a task that was just withdrawn, without a timeout. -/
def holdForever (k : Kernel) (h : Handle) : Except Failure Kernel := do
  let table ← k.table.update h fun task => { task with activity := .blocked, place := .waiting }
  let (waiting, table) := table.linkLast k.waiting h.index
  return { k with waiting := waiting, table := table }

/-- Block an unlinked task for a number of ticks. -/
def holdFor (k : Kernel) (h : Handle) (ticks : Tick) : Except Failure Kernel := do
  let (delayed, table) ← k.delayed.insert k.table h (k.now + ticks) k.now
  return { k with delayed := delayed, table := table }

/-- While the ready queue is frozen the running task has to keep the processor,
    since nothing could be dispatched in its place. -/
def ensureReplaceable (k : Kernel) (h : Handle) : Except Failure Unit :=
  if !k.freeze.isOff && k.runner = some h then
    refusal .schedulerFrozen
  else
    .ok ()

end Kernel

end PriorityScheduler
