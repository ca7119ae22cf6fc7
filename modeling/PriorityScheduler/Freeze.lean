import PriorityScheduler.TaskTable

/-! # Freezing the ready queue

    Scheduling can be suspended, more than once over.  While it is, the ready
    queue is frozen: a task that would become ready is postponed, on a list in
    the order of arrival, until the last suspension is undone. -/

namespace PriorityScheduler

/-- How often scheduling is suspended, and who waits for it to go on. -/
structure Freeze where
  /-- Suspensions not yet undone; the count is held at its largest value. -/
  depth : UInt32 := 0
  postponed : Chain := {}
  deriving DecidableEq, Repr

namespace Freeze

/-- Whether scheduling goes on. -/
def isOff (f : Freeze) : Bool := f.depth == 0

/-- Suspend scheduling once more. -/
def deepen (f : Freeze) : Freeze :=
  { f with depth := saturatingSucc f.depth }

/-- Undo one suspension; there has to be one. -/
def lift (f : Freeze) : Except Failure Freeze :=
  if f.depth = 0 then refusal .unmatchedThaw else .ok { f with depth := f.depth - 1 }

/-- Keep a task that became ready, behind those that did before. -/
def postpone (f : Freeze) (t : TaskTable) (h : Handle) : Except Failure (Freeze × TaskTable) := do
  let task ← t.findUnlinked h
  let t := t.put h.index { task with activity := .ready, place := .postponed }
  let (c, t) := t.linkLast f.postponed h.index
  return ({ f with postponed := c }, t)

/-- Drop a task that was postponed. -/
def erase (f : Freeze) (t : TaskTable) (h : Handle) : Except Failure (Freeze × TaskTable) := do
  let task ← t.find h
  if task.place = .postponed then
    let t := t.put h.index { task with place := .unlinked }
    let (c, t) ← t.unlinkFrom f.postponed h.index
    return ({ f with postponed := c }, t)
  else
    refusal .invalidState

/-- Call in every postponed task, the oldest first.  Scheduling has to go on by
    then. -/
def takeAll (f : Freeze) (t : TaskTable) :
    Except Failure (List Handle × Freeze × TaskTable) :=
  if f.isOff then do
    let (taken, c, t) ← t.callWhile f.postponed fun _ _ => true
    return (taken, { f with postponed := c }, t)
  else
    faulty .stillFrozen

end Freeze

end PriorityScheduler
