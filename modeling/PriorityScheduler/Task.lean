import PriorityScheduler.Time

/-! # Tasks

    What the scheduler knows of one task: the handle by which it is called,
    its priority and state, the one list that it is on, and what its last wait
    and its time on the processor left behind.  The scheduler never runs a
    task's code; the entry point and the saved context belong to the platform
    that it runs on. -/

namespace PriorityScheduler

/-! ## Handles -/

/-- The name of a task: a slot, and how often the slot had been vacated when
    the task moved in. -/
structure Handle where
  index : Nat
  generation : UInt32
  deriving DecidableEq, Repr

namespace Handle

/-- The text of a handle. -/
def text (h : Handle) : String :=
  "Task#" ++ toString h.index ++ "." ++ toString h.generation.toNat

/-- Handles are ordered by slot, then by generation. -/
def le (a b : Handle) : Bool :=
  decide (a.index < b.index) || (a.index == b.index && decide (a.generation ≤ b.generation))

end Handle

/-! ## Activities and places -/

/-- What a task is doing. -/
inductive Activity where
  | ready
  | running
  /-- Waiting for a tick or for an event. -/
  | blocked
  /-- Left out of scheduling until it is resumed by handle. -/
  | suspended
  /-- Gone for good; its handle names no task any more. -/
  | deleted
  deriving DecidableEq, Repr

/-- The word for what a task is doing. -/
def Activity.text : Activity → String
  | ready => "ready"
  | running => "running"
  | blocked => "blocked"
  | suspended => "suspended"
  | deleted => "deleted"

/-- The turns of the tick counter, told apart from the one before and the one
    after.  A delayed task wakes in the present cycle or in the next one, and there
    is a list for each.  The number of a list takes a byte, but it is only ever that
    of the present cycle or that one with its last bit flipped, which is the `other`;
    so a cycle is one of two values and no more. -/
inductive Cycle where
  | even
  | odd
  deriving DecidableEq, Repr

namespace Cycle

/-- The other of the two. -/
def other : Cycle → Cycle
  | even => odd
  | odd => even

/-- The number of a cycle. -/
def toNat : Cycle → Nat
  | even => 0
  | odd => 1

@[simp] theorem other_other (c : Cycle) : c.other.other = c := by
  cases c <;> rfl

theorem other_ne (c : Cycle) : c.other ≠ c := by
  cases c <;> simp [other]

end Cycle

/-- The one list that a task is on. -/
inductive Place where
  /-- On no list; the place of the running task. -/
  | unlinked
  /-- On the ready level of the given priority. -/
  | ready (level : Nat)
  /-- On the list of the tasks that wake in a cycle. -/
  | delayed (cycle : Cycle)
  /-- Blocked without a timeout. -/
  | waiting
  | suspended
  /-- Made ready while the scheduler was suspended. -/
  | postponed
  deriving DecidableEq, Repr

/-- The text of a place. -/
def Place.text : Place → String
  | unlinked => "Unlinked"
  | ready p => "Ready(" ++ toString p ++ ")"
  | delayed c => "Delayed(Epoch(" ++ toString c.toNat ++ "))"
  | waiting => "Waiting"
  | suspended => "Suspended"
  | postponed => "PendingReady"

/-! ## Flags -/

/-- Marks on a task. -/
structure Flags where
  /-- The task that runs when no other can; it is never deleted, suspended or
      blocked. -/
  idle : Bool := false
  /-- Its last wait was cut short. -/
  cutShort : Bool := false
  /-- Its last wait ended by the tick and not by an event. -/
  timedOut : Bool := false
  deriving DecidableEq, Repr

namespace Flags

/-- The flag word: idle is bit 0, a cut wait bit 1, a timeout bit 2. -/
def toNat (f : Flags) : Nat :=
  f.idle.toNat + 2 * f.cutShort.toNat + 4 * f.timedOut.toNat

/-- Read a flag word; bits above the third mean nothing. -/
def ofNat (n : Nat) : Flags :=
  ⟨n.testBit 0, n.testBit 1, n.testBit 2⟩

/-- A flag word that is written reads back. -/
theorem ofNat_toNat (f : Flags) : ofNat f.toNat = f := by
  obtain ⟨i, d, t⟩ := f
  cases i <;> cases d <;> cases t <;> rfl

end Flags

/-! ## Task records -/

/-- What a new task is made from. -/
structure TaskSpec where
  name : String
  /-- The number by which the platform knows the code to run. -/
  entry : Nat := 0
  /-- The word handed to that code. -/
  arg : Nat := 0
  priority : Nat
  /-- Ready or suspended; a task cannot begin in any other way. -/
  begins : Activity := .ready
  deriving DecidableEq, Repr

/-- The record of one task. -/
structure Task where
  handle : Handle
  name : String
  entry : Nat
  arg : Nat
  priority : Nat
  activity : Activity
  place : Place
  /-- The platform's saved context word. -/
  context : Nat
  /-- The tick to wake at; it means something only on a list of delayed
      tasks. -/
  wakeTick : Tick
  flags : Flags
  /-- Ticks that fell while the task was running; the count wraps. -/
  runTicks : UInt32
  deriving DecidableEq, Repr

/-- A look at one task from outside. -/
structure Status where
  handle : Handle
  name : String
  priority : Nat
  activity : Activity
  wake : Option Tick
  runTicks : UInt32
  deriving DecidableEq, Repr

namespace Task

/-- The record of a task that has just moved into a slot. -/
def ofSpec (spec : TaskSpec) (flags : Flags) (handle : Handle) : Task where
  handle := handle
  name := spec.name
  entry := spec.entry
  arg := spec.arg
  priority := spec.priority
  activity := spec.begins
  place := .unlinked
  context := 0
  wakeTick := 0
  flags := flags
  runTicks := 0

/-- The tick at which the task wakes, if it is delayed. -/
def wake (t : Task) : Option Tick :=
  match t.place with
  | .delayed _ => some t.wakeTick
  | _ => none

/-- The view of the task from outside. -/
def status (t : Task) : Status where
  handle := t.handle
  name := t.name
  priority := t.priority
  activity := t.activity
  wake := t.wake
  runTicks := t.runTicks

end Task

/-- One line on a task; a wake tick is named only while the task is delayed. -/
def Status.text (s : Status) : String :=
  s.handle.text ++ " " ++ s.name ++ " prio=" ++ toString s.priority ++ " " ++ s.activity.text
    ++ (match s.wake with
        | some w => " wake@" ++ toString w.toNat
        | none => "")
    ++ " ran=" ++ toString s.runTicks.toNat

end PriorityScheduler
