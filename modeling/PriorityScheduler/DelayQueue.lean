import PriorityScheduler.TaskTable

/-! # The delay queue

    Blocked tasks in the order in which they wake, across the wrap of the tick
    counter.  A wake tick below the present one belongs to the next cycle of the
    counter.  The tasks of that cycle wait on a list of their own, and when the
    counter wraps the two lists swap roles; no task is touched by the swap,
    since each keeps the cycle that it was entered for. -/

namespace PriorityScheduler

/-- The delayed tasks by the cycle in which they wake. -/
structure DelayQueue where
  even : Chain := {}
  odd : Chain := {}
  /-- The cycle that the counter is in. -/
  current : Cycle := .even
  deriving DecidableEq, Repr

namespace DelayQueue

/-! ## Reading -/

/-- The chain of a cycle. -/
def list (q : DelayQueue) : Cycle → Chain
  | .even => q.even
  | .odd => q.odd

/-- Replace the chain of a cycle. -/
def setList (q : DelayQueue) (cycle : Cycle) (c : Chain) : DelayQueue :=
  match cycle with
  | .even => { q with even := c }
  | .odd => { q with odd := c }

@[simp] theorem list_setList_self (q : DelayQueue) (cycle : Cycle) (c : Chain) :
    (q.setList cycle c).list cycle = c := by
  cases cycle <;> rfl

@[simp] theorem list_setList_other (q : DelayQueue) (cycle : Cycle) (c : Chain) :
    (q.setList cycle c).list cycle.other = q.list cycle.other := by
  cases cycle <;> rfl

@[simp] theorem current_setList (q : DelayQueue) (cycle : Cycle) (c : Chain) :
    (q.setList cycle c).current = q.current := by
  cases cycle <;> rfl

/-- The cycle that begins when the counter wraps. -/
def upcoming (q : DelayQueue) : Cycle := q.current.other

/-- The number of tasks that wake before the counter wraps. -/
def currentCount (q : DelayQueue) : Nat := (q.list q.current).length

/-- The number of tasks that wake after the counter has wrapped. -/
def upcomingCount (q : DelayQueue) : Nat := (q.list q.upcoming).length

/-- The number of delayed tasks. -/
def count (q : DelayQueue) : Nat := q.currentCount + q.upcomingCount

/-- Whether no task is delayed. -/
def isEmpty (q : DelayQueue) : Bool := q.count == 0

/-- The tick by which a slot is ordered; a vacant slot comes last. -/
def orderTick (t : TaskTable) (i : Nat) : Tick :=
  match t.tenant? i with
  | some task => task.wakeTick
  | none => 0xFFFFFFFF

/-- The earliest tick at which a task wakes before the counter wraps. -/
def earliest (q : DelayQueue) (t : TaskTable) : Option Tick :=
  (q.list q.current).head.map (orderTick t)

/-! ## Writing -/

/-- Block a task until the tick `wake`, seen from the tick `now`.  Tasks that
    wake at one tick keep the order of arrival. -/
def insert (q : DelayQueue) (t : TaskTable) (h : Handle) (wake now : Tick) :
    Except Failure (DelayQueue × TaskTable) := do
  let cycle := if wake < now then q.upcoming else q.current
  let task ← t.findUnlinked h
  let t := t.put h.index
    { task with activity := .blocked, place := .delayed cycle, wakeTick := wake }
  let (c, links) := (q.list cycle).addByKey t.links (orderTick t) h.index
  return (q.setList cycle c, { t with links := links })

/-- Take a task off the list of its cycle. -/
def erase (q : DelayQueue) (t : TaskTable) (h : Handle) :
    Except Failure (DelayQueue × TaskTable) := do
  let task ← t.find h
  match task.place with
  | .delayed cycle =>
      let t := t.put h.index { task with place := .unlinked }
      let (c, t) ← t.unlinkFrom (q.list cycle) h.index
      return (q.setList cycle c, t)
  | _ => refusal .invalidState

/-- Take off every task of the present cycle whose tick has come, the earliest
    first.  They are left unlinked but blocked. -/
def takeDue (q : DelayQueue) (t : TaskTable) (now : Tick) :
    Except Failure (List Handle × DelayQueue × TaskTable) := do
  let (due, c, t) ← t.callWhile (q.list q.current) fun t i => decide (orderTick t i ≤ now)
  return (due, q.setList q.current c, t)

/-- Begin the next cycle, when the counter wraps.  The list of the cycle that
    ends has to be empty. -/
def turnOver (q : DelayQueue) : Except Failure DelayQueue :=
  if (q.list q.current).isEmpty then .ok { q with current := q.upcoming }
  else faulty .cycleOccupied

end DelayQueue

end PriorityScheduler
