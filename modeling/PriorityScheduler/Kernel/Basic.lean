import PriorityScheduler.DelayQueue
import PriorityScheduler.Freeze
import PriorityScheduler.Machine
import PriorityScheduler.ReadyQueue
import PriorityScheduler.Settings

/-! # The kernel

    The whole state of a scheduler as one value: the task table, the lists that
    its tasks are on, the clock and the present task.  Kernels share nothing, so
    several can be driven side by side.

    This module holds the state and what can be read off it.  The steps that
    change it are in the modules beside this one. -/

namespace PriorityScheduler

/-- The state of one scheduler. -/
structure Kernel where
  settings : Settings
  table : TaskTable
  ready : ReadyQueue
  delayed : DelayQueue := {}
  /-- Tasks blocked without a timeout. -/
  waiting : Chain := {}
  /-- Tasks suspended by handle. -/
  suspended : Chain := {}
  freeze : Freeze := {}
  /-- The task dispatched last.  It may have left the processor since, while
      the next dispatch is still to come. -/
  current : Option Handle := none
  /-- The task that runs when no other can. -/
  idle : Option Handle := none
  now : Tick
  /-- How often the tick counter has wrapped; this count wraps too. -/
  wraps : UInt32 := 0
  /-- Ticks that the running task has used of its slice. -/
  sliceSpent : UInt32 := 0
  /-- Whether the next dispatch sends the running task behind its peers. -/
  sendBehind : Bool := false
  /-- Whether a switch was wanted that could not happen yet. -/
  switchDue : Bool := false
  /-- Whether a task was ever dispatched. -/
  everDispatched : Bool := false
  deriving DecidableEq, Repr

namespace Kernel

open Routine

/-- The kernel with which a scheduler begins. -/
def initial (s : Settings) : Kernel where
  settings := s
  table := .empty s.capacity s.levels
  ready := .empty s.levels
  now := s.firstTick

/-- Build a kernel.  Settings that are not valid are refused. -/
def build {σ : Type} (s : Settings) : Routine σ Kernel := do
  look fun _ => s.check
  log (.built s.levels s.capacity s.slice)
  return initial s

/-! ## The task that runs -/

/-- The task dispatched last, if it still has the processor. -/
def runner (k : Kernel) : Option Handle :=
  match k.current with
  | none => none
  | some h =>
      match k.table.get? h with
      | some task => if task.activity = .running then some h else none
      | none => none

/-- The priority of the task that runs. -/
def runnerPriority (k : Kernel) : Option Nat :=
  (k.runner.bind k.table.get?).map Task.priority

/-- Whether a priority is above that of the task that runs; with none running,
    every priority is. -/
def beatsRunner (k : Kernel) (priority : Nat) : Bool :=
  match k.runnerPriority with
  | some p => decide (p < priority)
  | none => true

/-- Whether a priority is at or above that of the task that runs; with none
    running, every priority is. -/
def rivalsRunner (k : Kernel) (priority : Nat) : Bool :=
  match k.runnerPriority with
  | some p => decide (p ≤ priority)
  | none => true

/-- Whether a ready task is above a priority. -/
def readyAbove (k : Kernel) (priority : Nat) : Bool :=
  match k.ready.topLevel with
  | some top => decide (priority < top)
  | none => false

/-! ## Views -/

/-- The views of all live tasks, in slot order. -/
def overview (k : Kernel) : List Status :=
  k.table.tasks.map Task.status

/-- The next tick, before the counter wraps, at which a task wakes. -/
def nextWakeUp (k : Kernel) : Option Tick :=
  k.delayed.earliest k.table

/-- The present moment. -/
def moment (k : Kernel) : Moment := ⟨k.wraps, k.now⟩

/-! ## Small changes -/

/-- Replace the record in a slot. -/
def putTask (k : Kernel) (i : Nat) (task : Task) : Kernel :=
  { k with table := k.table.put i task }

/-- Change the record of a live task. -/
def updateTask (k : Kernel) (h : Handle) (f : Task → Task) : Except Failure Kernel := do
  let table ← k.table.update h f
  return { k with table := table }

/-- Remember that a switch is wanted. -/
def wantSwitch (k : Kernel) : Kernel := { k with switchDue := true }

/-- Remember that a switch is wanted, if it is. -/
def wantSwitchIf (k : Kernel) (wanted : Bool) : Kernel :=
  if wanted then k.wantSwitch else k

end Kernel

end PriorityScheduler
