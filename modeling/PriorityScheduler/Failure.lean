/-! # Refusals and faults

    An operation ends in one of three ways: it is done, it is refused for a
    cause that the caller can deal with, or it meets a fault, after which the
    system stands still.  One fault is documented, the halt when no task is
    left to dispatch; the others name a broken inner condition each. -/

namespace PriorityScheduler

/-- Why an operation is refused. -/
inductive Refusal where
  /-- The priority is not below the number of levels. -/
  | invalidPriority
  /-- The handle is stale or never named a live task. -/
  | unknownHandle
  /-- A suspension of the scheduler was undone that was never made. -/
  | unmatchedThaw
  /-- No task at all, not even the idle task, is ready to run. -/
  | nothingReady
  /-- Every slot of the task table holds a live task. -/
  | tableFull
  /-- The settings lie outside what a scheduler can work with. -/
  | invalidSettings
  /-- The running task may not leave the processor while the scheduler is
      suspended. -/
  | schedulerFrozen
  /-- The task's state does not allow the operation. -/
  | invalidState
  deriving DecidableEq, Repr

namespace Refusal

/-- The causes in the order in which they are listed to a reader. -/
def all : List Refusal :=
  [invalidPriority, unknownHandle, unmatchedThaw, nothingReady, tableFull,
    invalidSettings, schedulerFrozen, invalidState]

/-- The wording of a cause. -/
def message : Refusal → String
  | invalidPriority => "invalid priority"
  | unknownHandle => "unknown task handle"
  | unmatchedThaw => "resume without matching suspend"
  | nothingReady => "no ready task to dispatch"
  | tableFull => "task registry full"
  | invalidSettings => "invalid scheduler configuration"
  | schedulerFrozen => "scheduler suspended"
  | invalidState => "invalid task state for operation"

/-- Whether a cause leaves nothing to go on with.  Only the lack of any task to
    run does. -/
def isFatal : Refusal → Bool
  | nothingReady => true
  | _ => false

/-- Every cause is listed. -/
theorem mem_all (cause : Refusal) : cause ∈ all := by
  cases cause <;> decide

end Refusal

/-- What stops the system. -/
inductive Fault where
  /-- The dispatcher was refused a task to run. -/
  | halted (cause : Refusal)
  /-- A slot index lies outside the task table. -/
  | noSuchSlot (index : Nat)
  /-- A priority has no ready level. -/
  | noSuchLevel (level : Nat)
  /-- A ready level has no bit in the map of occupied levels. -/
  | levelBeyondMap (level : Nat)
  /-- A node was taken off a chain whose length is zero. -/
  | emptyChain
  /-- A task was retired while the count of live tasks was zero. -/
  | noLiveTask
  /-- A task was retired while it was still on a chain. -/
  | stillLinked
  /-- The tick counter wrapped while tasks waited for an earlier tick. -/
  | cycleOccupied
  /-- The postponed tasks were called in while the scheduler was suspended. -/
  | stillFrozen
  /-- The holder of the lock asked for it again. -/
  | deadlock
  deriving DecidableEq, Repr

/-- The wording of a fault. -/
def Fault.message : Fault → String
  | halted cause => "scheduler halted: " ++ cause.message
  | noSuchSlot i => "no task slot " ++ toString i
  | noSuchLevel p => "no ready level " ++ toString p
  | levelBeyondMap p => "no map bit for ready level " ++ toString p
  | emptyChain => "task taken off an empty chain"
  | noLiveTask => "task retired but none live"
  | stillLinked => "task retired while linked"
  | cycleOccupied => "cycle ended while tasks wait in it"
  | stillFrozen => "postponed tasks called in while the scheduler is suspended"
  | deadlock => "lock requested by its holder"

/-- How an operation can fail to be done. -/
inductive Failure where
  | refused (cause : Refusal)
  | fault (what : Fault)
  deriving DecidableEq, Repr

/-- The answer of an operation that is refused. -/
def refusal {α : Type} (cause : Refusal) : Except Failure α :=
  .error (.refused cause)

/-- The answer of an operation that meets a fault. -/
def faulty {α : Type} (what : Fault) : Except Failure α :=
  .error (.fault what)

end PriorityScheduler
