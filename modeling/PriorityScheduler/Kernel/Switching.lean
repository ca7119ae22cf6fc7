import PriorityScheduler.Kernel.Placement

/-! # Switching

    The one place where the running task is chosen.  `Kernel.choose` makes the
    choice and records it; whether the platform is told to swap tasks is for its
    callers.  Everything else in the kernel only estimates whether a switch is
    due. -/

namespace PriorityScheduler

namespace Kernel

open Routine

/-- Hand the processor to the first task of the highest level that holds one. -/
def dispatchHighest : Routine Kernel Handle := do
  let next ← applyGet fun k => do
    let (next, ready, table) ← k.ready.takeFirst k.table
    return (next, { k with ready := ready, table := table })
  match next with
  | none => refuse .nothingReady
  | some next =>
      apply fun k => k.updateTask next fun task => { task with activity := .running }
      update fun k => { k with current := some next, sliceSpent := 0, everDispatched := true }
      log (.dispatched next)
      return next

/-- Choose the task that runs next.  While scheduling is suspended the running
    task stays, and the choice is put off.  Otherwise a ready task of a higher
    level displaces the running one, which keeps its place ahead of its peers;
    a peer displaces it only if it is to be sent behind them. -/
def choose : Routine Kernel Handle :=
  masked do
    let k ← read
    if k.freeze.isOff then
      update fun k => { k with switchDue := false, sendBehind := false }
      match k.runner with
      | none => dispatchHighest
      | some cur =>
          let task ← look fun k => k.table.find cur
          match k.ready.topLevel with
          | none => return cur
          | some top =>
              if task.priority < top then
                apply fun k => k.enqueue .front cur
                dispatchHighest
              else if top = task.priority ∧ k.sendBehind = true then
                apply fun k => k.enqueue .back cur
                dispatchHighest
              else
                return cur
    else
      update wantSwitch
      match k.runner with
      | some cur => return cur
      | none => refuse .schedulerFrozen

/-- Stop the system: to go on would be to run a task that does not exist. -/
def standStill {α : Type} (cause : Refusal) : Routine Kernel α := do
  log (.fatal cause)
  stop (.halted cause)

/-- Choose the task that runs next, and answer the outgoing and the incoming
    task if the choice changes anything.  The caller has the platform swap
    them. -/
def planSwitch : Routine Kernel (Option (Option Handle × Handle)) := do
  let outgoing := (← read).current
  match ← attempt choose with
  | .ok incoming =>
      if some incoming = outgoing then return none else return some (outgoing, incoming)
  | .error .schedulerFrozen => return none
  | .error cause => standStill cause

/-- Choose the task that runs next and have the platform swap tasks if that
    changes anything.  Answers the task switched to. -/
def switch : Routine Kernel (Option Handle) := do
  match ← planSwitch with
  | none => return none
  | some (outgoing, incoming) =>
      switchTo outgoing incoming
      return some incoming

/-- The running task lets its peers go first. -/
def cede : Routine Kernel (Option Handle) := do
  update fun k => { k with sendBehind := true }
  switch

/-- The running task has just left the processor: dispatch the next one, or
    remember to if that has to wait. -/
def replaceRunner : Routine Kernel Unit := do
  let k ← read
  if k.everDispatched && k.freeze.isOff then
    let _ ← switch
  else
    update wantSwitch

end Kernel

end PriorityScheduler
