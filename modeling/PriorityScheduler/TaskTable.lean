import PriorityScheduler.Chain
import PriorityScheduler.Task

/-! # The task table

    The only owner of task records.  A record lives in a slot, and every other
    part of the scheduler names it by handle or by slot index.  A slot that is
    vacated raises its generation, so a handle to the task that left is refused
    instead of naming the next tenant.  The links of all chains are kept beside
    the slots, under the same index. -/

namespace PriorityScheduler

/-- One place in the table. -/
structure Slot where
  /-- How often the slot has been vacated; the count wraps. -/
  generation : UInt32 := 0
  task : Option Task := none
  deriving DecidableEq, Repr

/-- All task records and the links between them. -/
structure TaskTable where
  slots : Array Slot := #[]
  links : LinkTable := {}
  /-- Vacated slots, the latest first. -/
  vacant : List Nat := []
  /-- The number of live tasks. -/
  liveCount : Nat := 0
  /-- The most slots there may be. -/
  capacity : Nat
  /-- Priorities lie below this number. -/
  levels : Nat
  deriving DecidableEq, Repr

namespace TaskTable

/-- A table without tasks. -/
def empty (capacity levels : Nat) : TaskTable where
  capacity := capacity
  levels := levels

/-! ## Reading -/

/-- The live task in a slot. -/
def tenant? (t : TaskTable) (i : Nat) : Option Task :=
  t.slots[i]?.bind Slot.task

/-- The live task that a handle names. -/
def get? (t : TaskTable) (h : Handle) : Option Task :=
  match t.slots[h.index]? with
  | some slot => if slot.generation = h.generation then slot.task else none
  | none => none

/-- The live task that a handle names; a handle that names none is refused. -/
def find (t : TaskTable) (h : Handle) : Except Failure Task :=
  match t.get? h with
  | some task => .ok task
  | none => refusal .unknownHandle

/-- The live task that a handle names, which must be on no list. -/
def findUnlinked (t : TaskTable) (h : Handle) : Except Failure Task := do
  let task ← t.find h
  if task.place = .unlinked then return task else refusal .invalidState

/-- Whether a handle names a live task. -/
def contains (t : TaskTable) (h : Handle) : Bool :=
  (t.get? h).isSome

/-- The live tasks in slot order. -/
def tasks (t : TaskTable) : List Task :=
  t.slots.toList.filterMap Slot.task

/-- The first live task in slot order that has the name. -/
def handleNamed (t : TaskTable) (name : String) : Option Handle :=
  (t.tasks.find? fun task => task.name == name).map Task.handle

/-- Whether no task is live. -/
def isEmpty (t : TaskTable) : Bool := t.liveCount == 0

/-- The tasks on a chain, first to last. -/
def handlesOn (t : TaskTable) (c : Chain) : List Handle :=
  (c.toList t.links).filterMap fun i => (t.tenant? i).map Task.handle

/-! ## Writing -/

/-- Replace the record in a slot. -/
def put (t : TaskTable) (i : Nat) (task : Task) : TaskTable :=
  { t with slots := t.slots.modify i fun slot => { slot with task := some task } }

/-- A record that is written reads back, if there is a slot for it. -/
theorem tenant?_put_self (t : TaskTable) {i : Nat} (task : Task) (h : i < t.slots.size) :
    (t.put i task).tenant? i = some task := by
  simp [put, tenant?, Array.getElem_modify, h]

/-- A write leaves every other slot alone. -/
theorem tenant?_put_of_ne (t : TaskTable) {i j : Nat} (task : Task) (h : i ≠ j) :
    (t.put i task).tenant? j = t.tenant? j := by
  simp [put, tenant?, Array.getElem?_modify, h]

/-- A handle that names a task names the record written to its slot. -/
theorem get?_put_self (t : TaskTable) {h : Handle} {old : Task} (task : Task)
    (live : t.get? h = some old) : (t.put h.index task).get? h = some task := by
  unfold get? at live ⊢
  cases hs : t.slots[h.index]? with
  | none => simp [hs] at live
  | some slot =>
      simp only [hs] at live
      by_cases hg : slot.generation = h.generation
      · simp [put, Array.getElem?_modify, hs, hg]
      · simp [hg] at live

/-- A write leaves the handles of every other slot alone. -/
theorem get?_put_of_ne (t : TaskTable) {i : Nat} {h : Handle} (task : Task)
    (ne : i ≠ h.index) : (t.put i task).get? h = t.get? h := by
  simp [put, get?, Array.getElem?_modify, ne]

/-- Change the record that a handle names. -/
def update (t : TaskTable) (h : Handle) (f : Task → Task) : Except Failure TaskTable :=
  match t.get? h with
  | some task => .ok (t.put h.index (f task))
  | none => refusal .unknownHandle

/-! ## Coming and going -/

/-- The slot for the next task: the latest vacated one, or else a new one while
    the table may still grow. -/
def allot (t : TaskTable) : Except Failure (Nat × TaskTable) :=
  match t.vacant with
  | i :: vacant => .ok (i, { t with vacant := vacant })
  | [] =>
      if t.slots.size < t.capacity then
        .ok (t.slots.size, { t with slots := t.slots.push {}, links := t.links.push })
      else
        refusal .tableFull

/-- Enter a new task, on no list yet.  The priority is checked first, then how
    the task is to begin, then the room. -/
def enter (t : TaskTable) (spec : TaskSpec) (flags : Flags) :
    Except Failure (Handle × TaskTable) :=
  if t.levels ≤ spec.priority then
    refusal .invalidPriority
  else if spec.begins ≠ .ready ∧ spec.begins ≠ .suspended then
    refusal .invalidState
  else do
    let (i, t) ← t.allot
    match t.slots[i]? with
    | none => faulty (.noSuchSlot i)
    | some slot =>
        let h : Handle := ⟨i, slot.generation⟩
        return (h, { t.put i (.ofSpec spec flags h) with
          links := t.links.set i {}
          liveCount := t.liveCount + 1 })

/-- Retire a task, which is on no list any more.  The record that leaves is
    marked as deleted. -/
def retire (t : TaskTable) (h : Handle) : Except Failure (Task × TaskTable) := do
  let task ← t.find h
  if task.place = .unlinked then
    match t.liveCount with
    | 0 => faulty .noLiveTask
    | others + 1 =>
        return ({ task with activity := .deleted }, { t with
          slots := t.slots.modify h.index fun slot => ⟨slot.generation + 1, none⟩
          links := t.links.set h.index {}
          vacant := h.index :: t.vacant
          liveCount := others })
  else
    faulty .stillLinked

/-! ## Moving slots between chains -/

/-- Put a slot at the end of a chain over the table's links. -/
def linkLast (t : TaskTable) (c : Chain) (i : Nat) : Chain × TaskTable :=
  let (c, links) := c.addLast t.links i
  (c, { t with links := links })

/-- Take a slot off a chain over the table's links. -/
def unlinkFrom (t : TaskTable) (c : Chain) (i : Nat) : Except Failure (Chain × TaskTable) := do
  let (c, links) ← c.erase t.links i
  return (c, { t with links := links })

/-- Take tasks off the front of a chain for as long as `due` holds of the first
    slot.  They are left unlinked and otherwise as they were.  The first
    argument counts the nodes that the chain still claims to hold; a node found
    beyond that count is a fault. -/
def callUpTo : Nat → (TaskTable → Nat → Bool) → TaskTable → Chain →
    Except Failure (List Handle × Chain × TaskTable)
  | bound, due, t, c =>
      match c.head with
      | none => .ok ([], c, t)
      | some i =>
          if due t i then
            match bound with
            | 0 => faulty .emptyChain
            | bound + 1 => do
                let (c, t) ← t.unlinkFrom c i
                match t.tenant? i with
                | some task =>
                    let t := t.put i { task with place := .unlinked }
                    let (rest, c, t) ← callUpTo bound due t c
                    return (task.handle :: rest, c, t)
                | none => callUpTo bound due t c
          else
            .ok ([], c, t)

/-- Take tasks off the front of a chain for as long as `due` holds of the first
    slot, and answer them in that order. -/
def callWhile (t : TaskTable) (c : Chain) (due : TaskTable → Nat → Bool) :
    Except Failure (List Handle × Chain × TaskTable) :=
  callUpTo c.length due t c

end TaskTable

end PriorityScheduler
