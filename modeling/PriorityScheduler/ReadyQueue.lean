import PriorityScheduler.TaskTable

/-! # The ready queue

    One chain of tasks for each priority level, and a map with one bit a level
    that is set while the level holds a task.  What runs next is the head of
    the highest level whose bit is set, so the choice looks at no task that is
    not chosen. -/

namespace PriorityScheduler

/-- The ready tasks by priority level. -/
structure ReadyQueue where
  levels : Array Chain
  /-- Bit `p` is set while level `p` holds a task. -/
  occupied : BitVec 64 := 0
  deriving DecidableEq, Repr

/-- The end of a level at which a task is entered. -/
inductive Side where
  /-- Ahead of its peers: the place of a task that was preempted. -/
  | front
  /-- Behind its peers. -/
  | back
  deriving DecidableEq, Repr

/-- Put a node at one end of a chain. -/
def Chain.addAt (c : Chain) (side : Side) (t : LinkTable) (i : Nat) : Chain × LinkTable :=
  match side with
  | .front => c.addFirst t i
  | .back => c.addLast t i

namespace ReadyQueue

/-- A queue of empty levels. -/
def empty (levels : Nat) : ReadyQueue where
  levels := Array.replicate levels {}

/-! ## Reading -/

/-- The highest level that holds a task, by the map. -/
def topLevel (q : ReadyQueue) : Option Nat :=
  if q.occupied = 0 then none else some q.occupied.toNat.log2

/-- Whether no task is ready, by the map. -/
def isEmpty (q : ReadyQueue) : Bool := q.occupied == 0

/-- The chain of a level; a level that does not exist has no tasks. -/
def levelAt (q : ReadyQueue) (p : Nat) : Chain :=
  (q.levels[p]?).getD {}

/-- The number of tasks at a level. -/
def countAt (q : ReadyQueue) (p : Nat) : Nat := (q.levelAt p).length

/-- The number of ready tasks. -/
def count (q : ReadyQueue) : Nat :=
  (q.levels.toList.map Chain.length).foldr (· + ·) 0

/-- The tasks at a level, first to last. -/
def handlesAt (q : ReadyQueue) (t : TaskTable) (p : Nat) : List Handle :=
  t.handlesOn (q.levelAt p)

/-- The first task of the highest level that holds one. -/
def first? (q : ReadyQueue) (t : TaskTable) : Except Failure (Option Handle) :=
  match q.topLevel with
  | none => .ok none
  | some p =>
      match q.levels[p]? with
      | none => faulty (.noSuchLevel p)
      | some c => .ok ((c.head.bind t.tenant?).map Task.handle)

/-! ## Writing -/

/-- Enter a task at one end of the level of its priority and mark it ready.  A
    task that is on a list already is refused. -/
def insert (q : ReadyQueue) (side : Side) (t : TaskTable) (h : Handle) :
    Except Failure (ReadyQueue × TaskTable) := do
  let task ← t.findUnlinked h
  let p := task.priority
  let t := t.put h.index { task with activity := .ready, place := .ready p }
  match q.levels[p]? with
  | none => faulty (.noSuchLevel p)
  | some c =>
      let (c, links) := c.addAt side t.links h.index
      if p < 64 then
        return (⟨q.levels.setIfInBounds p c, q.occupied ||| BitVec.twoPow 64 p⟩,
          { t with links := links })
      else
        faulty (.levelBeyondMap p)

/-- Take a task off its level.  The level is the one that the task was entered
    at, whatever its priority is now. -/
def erase (q : ReadyQueue) (t : TaskTable) (h : Handle) :
    Except Failure (ReadyQueue × TaskTable) := do
  let task ← t.find h
  match task.place with
  | .ready p =>
      let t := t.put h.index { task with place := .unlinked }
      match q.levels[p]? with
      | none => faulty (.noSuchLevel p)
      | some c =>
          let (c, t) ← t.unlinkFrom c h.index
          let levels := q.levels.setIfInBounds p c
          if c.isEmpty then
            if p < 64 then
              return (⟨levels, q.occupied &&& ~~~(BitVec.twoPow 64 p)⟩, t)
            else
              faulty (.levelBeyondMap p)
          else
            return (⟨levels, q.occupied⟩, t)
  | _ => refusal .invalidState

/-- Take off the first task of the highest level that holds one. -/
def takeFirst (q : ReadyQueue) (t : TaskTable) :
    Except Failure (Option Handle × ReadyQueue × TaskTable) := do
  match ← q.first? t with
  | none => return (none, q, t)
  | some h =>
      match q.erase t h with
      | .ok (q, t) => return (some h, q, t)
      | .error (.refused _) => return (none, q, t)
      | .error (.fault what) => faulty what

end ReadyQueue

end PriorityScheduler
