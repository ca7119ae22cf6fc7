import PriorityScheduler.Kernel.Placement

/-! # Suspending the scheduler

    While scheduling is suspended interrupts go on and tasks may become ready,
    but none is dispatched.  When the last of nested suspensions is undone, the
    tasks that became ready meanwhile enter the ready queue in their order. -/

namespace PriorityScheduler

namespace Kernel

open Routine

/-- Suspend scheduling, once more if it is suspended already. -/
def freezeAll : Routine Kernel Unit := do
  update fun k => { k with freeze := k.freeze.deepen }
  log (.frozen (← read).freeze.depth)

/-- Enter postponed tasks into the ready queue, and answer whether a switch is
    wanted, given whether it was before.  It is as soon as one of them is at or
    above the priority that was running. -/
def callIn (running : Option Nat) : Bool → List Handle → Routine Kernel Bool
  | wanted, [] => return wanted
  | wanted, h :: rest => do
      match ← attempt (apply fun k => k.enqueue .back h) with
      | .error cause =>
          log (.thawRefused h cause)
          callIn running wanted rest
      | .ok () =>
          let priority := match (← read).table.get? h with
            | some task => task.priority
            | none => 0
          let reached := match running with
            | some p => decide (p ≤ priority)
            | none => true
          callIn running (wanted || reached) rest

/-- Undo one suspension.  Answers whether it was the last and a switch should
    follow.  A call without a suspension to undo is ignored. -/
def thawAll : Routine Kernel Bool :=
  masked do
    let lifted ← attempt <| apply fun k => do
      let freeze ← k.freeze.lift
      return { k with freeze := freeze }
    match lifted with
    | .error cause =>
        log (.thawIgnored cause)
        return false
    | .ok () =>
        let k ← read
        if k.freeze.isOff then
          let taken ← applyGet fun k => do
            let (taken, freeze, table) ← k.freeze.takeAll k.table
            return (taken, { k with freeze := freeze, table := table })
          let wanted ← callIn k.runnerPriority k.switchDue taken
          log (.thawed taken.length wanted)
          update fun k => { k with switchDue := wanted }
          return wanted
        else
          return false

end Kernel

end PriorityScheduler
