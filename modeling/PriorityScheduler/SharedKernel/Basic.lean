import PriorityScheduler.Kernel.Call

/-! # The shared kernel

    An interrupt handler has no way to be handed a kernel, so a platform keeps
    its one kernel in a place of its own, under a lock.  Task code waits for the
    lock; the timer interrupt never does.  A tick that finds the lock taken is
    counted, and applied to the kernel later.

    Everything here happens on one processor: to ask for the lock while it is
    taken would be to wait for oneself, which is a fault. -/

namespace PriorityScheduler

/-- A place for one kernel, with its lock and the ticks that hit the lock. -/
structure SharedKernel where
  kernel : Option Kernel := none
  locked : Bool := false
  /-- Ticks that found the lock taken and are still to be applied; the count
      wraps. -/
  missed : UInt32 := 0
  deriving DecidableEq, Repr

namespace SharedKernel

open Routine

/-! ## The lock -/

/-- Take the lock if it is free, and answer whether it was. -/
def tryLock : Routine SharedKernel Bool := do
  if (← read).locked then
    return false
  else
    update fun s => { s with locked := true }
    return true

/-- Wait for the lock. -/
def lock : Routine SharedKernel Unit := do
  if ← tryLock then return () else stop .deadlock

/-- Give the lock back. -/
def unlock : Routine SharedKernel Unit :=
  update fun s => { s with locked := false }

/-! ## The kernel inside -/

/-- Run a routine on the kernel inside, if there is one. -/
def onKernel {α : Type} (body : Routine Kernel α) : Routine SharedKernel (Option α) := fun m =>
  match m.state.kernel with
  | none => .ok none m
  | some k =>
      match body ⟨k, m.platform⟩ with
      | .ok a km => .ok (some a) ⟨{ m.state with kernel := some km.state }, km.platform⟩
      | .error e km => .error e ⟨{ m.state with kernel := some km.state }, km.platform⟩

/-- Put a kernel in, and answer the one that was there. -/
def putIn (k : Kernel) : Routine SharedKernel (Option Kernel) := do
  lock
  let old := (← read).kernel
  update fun s => { s with kernel := some k }
  unlock
  return old

/-- Take the kernel out. -/
def takeOut : Routine SharedKernel (Option Kernel) := do
  lock
  let old := (← read).kernel
  update fun s => { s with kernel := none }
  unlock
  return old

/-! ## Missed ticks -/

/-- Count a tick that found the lock taken. -/
def countMissed : Routine SharedKernel Unit :=
  update fun s => { s with missed := s.missed + 1 }

/-- Take over the ticks that were missed so far. -/
def takeMissed : Routine SharedKernel Tick := do
  let missed := (← read).missed
  update fun s => { s with missed := 0 }
  return missed

/-- Apply the ticks that were missed to the kernel inside.  If they ask for a
    switch, the kernel remembers it. -/
def applyMissed : Routine SharedKernel Unit := do
  let missed ← takeMissed
  if missed = 0 then
    return ()
  else
    let _ ← onKernel do
      if ← Kernel.elapse missed then
        update Kernel.wantSwitch

/-- Apply one tick, after those that were missed before it.  Answers whether a
    switch was asked for, or nothing if there is no kernel. -/
def passTick : Routine SharedKernel (Option Bool) := do
  if (← read).kernel.isNone then
    return none
  else
    let missed ← takeMissed
    onKernel do
      let before ← Kernel.elapse missed
      let now ← Kernel.tick
      return before || now

/-! ## Task code -/

/-- Take the lock for work on the kernel inside.  Without a kernel the lock is
    given back at once. -/
def enter : Routine SharedKernel Bool := do
  lock
  if (← read).kernel.isSome then
    return true
  else
    unlock
    return false

/-- End work on the kernel inside: apply the ticks that hit the lock meanwhile
    and give it back. -/
def leave : Routine SharedKernel Unit := do
  applyMissed
  unlock

/-- Run a routine under the lock, unless there is no kernel. -/
def withKernel {α : Type} (body : Routine SharedKernel α) : Routine SharedKernel (Option α) := do
  if ← enter then
    let a ← body
    leave
    return some a
  else
    return none

/-- Take the lock for work on the kernel inside if it is free. -/
def tryEnter : Routine SharedKernel Bool := do
  if ← tryLock then
    if (← read).kernel.isSome then
      return true
    else
      unlock
      return false
  else
    return false

/-- Run a routine under the lock if that is free and there is a kernel.  Ticks
    that hit the lock meanwhile stay counted. -/
def tryWithKernel {α : Type} (body : Routine SharedKernel α) :
    Routine SharedKernel (Option α) := do
  if ← tryEnter then
    let a ← body
    unlock
    return some a
  else
    return none

/-! ## Interrupts and switches -/

/-- Have the platform make a switch, if there is one to make. -/
def makeSwitch (switch : Option (Option Handle × Handle)) : Routine SharedKernel Unit :=
  match switch with
  | none => return ()
  | some (outgoing, incoming) => switchTo outgoing incoming

/-- The timer interrupt: apply a tick.  Answers whether a switch should be asked
    for afterwards. -/
def interrupt : Routine SharedKernel Bool := do
  if ← tryLock then
    let asked ← passTick
    unlock
    return asked.getD false
  else
    countMissed
    return false

/-- The timer interrupt: apply a tick, and make a switch if it asks for one.
    The platform swaps tasks only after the lock is given back, so that the task
    that leaves does not keep it. -/
def interruptAndSwitch : Routine SharedKernel (Option (Option Handle × Handle)) := do
  if ← tryLock then
    if (← passTick).getD false then
      let switch ← onKernel Kernel.planSwitch
      unlock
      makeSwitch switch.join
      return switch.join
    else
      unlock
      return none
  else
    countMissed
    return none

/-- Make the switch that is due, from task code.  The platform swaps tasks only
    after the lock is given back.  Answers the task switched to. -/
def switchNow : Routine SharedKernel (Option Handle) := do
  lock
  if (← read).kernel.isSome then
    applyMissed
    let switch ← onKernel Kernel.planSwitch
    unlock
    makeSwitch switch.join
    return switch.join.map Prod.snd
  else
    unlock
    return none

end SharedKernel

end PriorityScheduler
