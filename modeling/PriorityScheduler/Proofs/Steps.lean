import PriorityScheduler.Kernel.Call
import PriorityScheduler.Proofs.Outline

/-! # The steps of a scheduler, on outlines

    What each routine of the kernel does, said of the outline alone: chains,
    links and the map of occupied levels are gone, and so are the masks and the
    journal.  A step that is refused names its cause; a step that is done names
    its answer and the outline that it leaves behind.

    That the kernel's routines do just this is proved in the module on
    enactment.  What holds of all runs can then be proved on outlines. -/

namespace PriorityScheduler

open Function (update)

/-- A step of an outline; it ends as a routine does. -/
abbrev Step (α : Type) : Type := EStateM Failure Outline α

namespace Step

variable {α : Type}

/-- A step that can be refused, and then changes nothing. -/
def guarded (f : Outline → Except Refusal (α × Outline)) : Step α := fun o =>
  match f o with
  | .ok (a, o') => .ok a o'
  | .error cause => .error (.refused cause) o

/-- A step that is always done. -/
def always (f : Outline → α × Outline) : Step α := fun o =>
  .ok (f o).1 (f o).2

/-- Take a step and hand back its refusal as a value; a fault goes through. -/
def attempt (s : Step α) : Step (Except Refusal α) := fun o =>
  match s o with
  | .ok a o' => .ok (.ok a) o'
  | .error (.refused cause) o' => .ok (.error cause) o'
  | .error (.fault what) o' => .error (.fault what) o'

end Step

namespace Outline

/-! ## Reading -/

/-- The task that a handle names; a handle that names none is refused. -/
def find (o : Outline) (h : Handle) : Except Refusal Task :=
  match o.get? h with
  | some task => .ok task
  | none => .error .unknownHandle

/-- While scheduling is suspended the running task has to keep the processor. -/
def replaceable (o : Outline) (h : Handle) : Except Refusal Unit :=
  if o.depth ≠ 0 ∧ o.runner = some h then .error .schedulerFrozen else .ok ()

/-! ## The life of a task -/

/-- Make a task with the given flags. -/
def enroll (o : Outline) (spec : TaskSpec) (flags : Flags) : Except Refusal (Handle × Outline) :=
  if o.settings.levels ≤ spec.priority then
    .error .invalidPriority
  else if spec.begins ≠ .ready ∧ spec.begins ≠ .suspended then
    .error .invalidState
  else
    match o.vacancy with
    | none => .error .tableFull
    | some i =>
        let h : Handle := ⟨i, o.generation i⟩
        let task := Task.ofSpec spec flags h
        let entered := o.occupy i task
        if spec.begins = .suspended then
          .ok (h, entered.reseat .back i { task with activity := .suspended, place := .suspended })
        else
          let ready := entered.makeReady i task
          .ok (h, ready.wantSwitchIf (decide (ready.depth = 0) && ready.beats spec.priority))

/-- Retire a task.  Answers whether it was dispatched last. -/
def remove (o : Outline) (h : Handle) : Except Refusal (Bool × Outline) := do
  let task ← o.find h
  if task.flags.idle = true then
    .error .invalidState
  else
    o.replaceable h
    if o.current = some h then
      .ok (true, { o.vacate h.index with current := none, sliceSpent := 0 })
    else
      .ok (false, o.vacate h.index)

/-- Leave a task out of scheduling.  Answers whether it was running. -/
def shelve (o : Outline) (h : Handle) : Except Refusal (Bool × Outline) := do
  let task ← o.find h
  if task.flags.idle = true then
    .error .invalidState
  else if task.activity = .suspended then
    .ok (false, o)
  else
    o.replaceable h
    .ok (task.activity == .running,
      o.reseat .back h.index { task with activity := .suspended, place := .suspended })

/-- Make a suspended task ready. -/
def resume (o : Outline) (h : Handle) : Except Refusal (Bool × Outline) := do
  let task ← o.find h
  if task.activity = .suspended then
    let ready := o.makeReady h.index task
    let wanted := decide (ready.depth = 0) && ready.rivals task.priority
    .ok (wanted, ready.wantSwitchIf wanted)
  else
    .ok (false, o)

/-- Whether a task stands on a ready level. -/
def queued (task : Task) : Bool :=
  match task.place with
  | .ready _ => true
  | _ => false

/-- Give a task a new priority, and a new level if it stands on one. -/
def regrade (o : Outline) (i : Nat) (task : Task) (priority : Nat) : Outline :=
  if queued task then
    o.reseat .back i
      { task with priority := priority, activity := .ready, place := .ready priority }
  else
    o.put i { task with priority := priority }

/-- Whether a switch is wanted once a task has a new priority. -/
def regradeWants (o : Outline) (task : Task) (priority : Nat) : Bool :=
  match task.activity with
  | .running => o.readyAbove priority
  | .ready => queued task && o.beats priority
  | _ => false

/-- Change a task's priority. -/
def reprioritise (o : Outline) (h : Handle) (priority : Nat) :
    Except Refusal (Bool × Outline) :=
  if o.settings.levels ≤ priority then
    .error .invalidPriority
  else do
    let task ← o.find h
    if task.priority = priority then
      .ok (false, o)
    else
      let regraded := o.regrade h.index task priority
      let wanted := regraded.regradeWants task priority
      .ok (wanted, regraded.wantSwitchIf wanted)

/-- Store the saved context word of a task. -/
def saveContext (o : Outline) (h : Handle) (context : Nat) : Except Refusal (Unit × Outline) := do
  let task ← o.find h
  .ok ((), o.put h.index { task with context := context })

/-! ## Waiting -/

/-- The record of a task that is blocked for a number of ticks. -/
def held (o : Outline) (task : Task) (ticks : Tick) : Task :=
  let task := { task with
    activity := .blocked
    flags := { task.flags with timedOut := false, cutShort := false } }
  if ticks = waitForever then
    { task with place := .waiting }
  else
    { task with place := .delayed (o.cycleOf (o.now + ticks)), wakeTick := o.now + ticks }

/-- Block a ready or running task. -/
def block (o : Outline) (h : Handle) (ticks : Tick) : Except Refusal (Unit × Outline) := do
  let task ← o.find h
  if task.flags.idle = true ∨ (task.activity ≠ .ready ∧ task.activity ≠ .running) then
    .error .invalidState
  else
    o.replaceable h
    if ticks = 0 then
      .ok ((), o)
    else
      .ok ((), (o.reseat .back h.index (o.held task ticks)).wantSwitchIf (task.activity == .running))

/-- The record of a task whose wait was ended. -/
def unheld (task : Task) (early : Bool) : Task :=
  { task with flags := { task.flags with
      timedOut := false
      cutShort := task.flags.cutShort || early } }

/-- End the wait of a blocked task. -/
def endWait (o : Outline) (h : Handle) (early : Bool) : Except Refusal (Bool × Outline) := do
  let task ← o.find h
  if task.activity = .blocked then
    let ready := o.makeReady h.index (unheld task early)
    let wanted := decide (ready.depth = 0) && ready.beats task.priority
    .ok (wanted, ready.wantSwitchIf wanted)
  else
    .error .invalidState

/-- The task that runs; without one the caller is refused. -/
def needRunner (o : Outline) : Except Refusal (Handle × Outline) :=
  match o.runner with
  | some h => .ok (h, o)
  | none => .error .invalidState

/-! ## Several tasks at once -/

/-- Make the tasks in slots ready one after the other, each with a change of its
    record. -/
def makeAllReady (f : Task → Task) (o : Outline) (l : List Nat) : Outline :=
  { o with
    tenant := fun i =>
      if i ∈ l then (o.tenant i).map fun task => o.readied (f task) else o.tenant i
    row := fun q => (o.row q).filter (· ∉ l)
      ++ l.filter fun i => (o.tenant i).any fun task => decide (o.readyPlace (f task) = q) }

/-! ## Suspending the scheduler -/

/-- Suspend scheduling, once more if it is suspended already. -/
def freezeAll (o : Outline) : Unit × Outline :=
  ((), { o with depth := saturatingSucc o.depth })

/-- Whether one of the postponed tasks is at or above the running one. -/
def postponedRivals (o : Outline) : Bool :=
  (o.row .postponed).any fun i => (o.tenant i).any fun task => o.rivals task.priority

/-- Undo one suspension. -/
def thawAll (o : Outline) : Bool × Outline :=
  if o.depth = 0 then
    (false, o)
  else
    let lifted := { o with depth := o.depth - 1 }
    if lifted.depth = 0 then
      let wanted := lifted.switchDue || lifted.postponedRivals
      (wanted, { lifted.makeAllReady id (lifted.row .postponed) with switchDue := wanted })
    else
      (false, lifted)

/-! ## Switching -/

/-- Dispatch the first task of a level. -/
def dispatchFirst (p : Nat) : Step Handle := fun o =>
  match (o.row (.ready p)).head?.bind o.tenant with
  | some task => .ok task.handle (o.dispatch task.handle.index task)
  | none => .error (.refused .nothingReady) o

/-- Dispatch the first task of the highest level that holds one. -/
def dispatchHighest : Step Handle := fun o =>
  match o.topLevel with
  | some p => dispatchFirst p o
  | none => .error (.refused .nothingReady) o

/-- Put the running task back on the level of its priority. -/
def putBack (o : Outline) (side : Side) (task : Task) : Outline :=
  o.reseat side task.handle.index
    { task with activity := .ready, place := .ready task.priority }

/-- Forget what a choice was wanted for. -/
def cleared (o : Outline) : Outline :=
  { o with switchDue := false, sendBehind := false }

/-- Choose the task that runs next, while scheduling goes on. -/
def chooseOpen : Step Handle := fun o =>
  match o.runner.bind o.get? with
  | none => dispatchHighest o.cleared
  | some task =>
      match o.topLevel with
      | none => .ok task.handle o.cleared
      | some top =>
          if task.priority < top then
            dispatchHighest (o.cleared.putBack .front task)
          else if top = task.priority ∧ o.sendBehind = true then
            dispatchHighest (o.cleared.putBack .back task)
          else
            .ok task.handle o.cleared

/-- Choose the task that runs next. -/
def choose : Step Handle := fun o =>
  if o.depth = 0 then
    chooseOpen o
  else
    match o.runner with
    | some cur => .ok cur { o with switchDue := true }
    | none => .error (.refused .schedulerFrozen) { o with switchDue := true }

/-- Choose the task that runs next, and answer the outgoing and the incoming task
    if the choice changes anything. -/
def planSwitch : Step (Option (Option Handle × Handle)) := fun o =>
  match choose o with
  | .ok incoming o' =>
      .ok (if some incoming = o.current then none else some (o.current, incoming)) o'
  | .error (.refused .schedulerFrozen) o' => .ok none o'
  | .error (.refused cause) o' => .error (.fault (.halted cause)) o'
  | .error (.fault what) o' => .error (.fault what) o'

/-- Choose the task that runs next.  Answers the task switched to. -/
def switch : Step (Option Handle) := do
  match ← planSwitch with
  | none => return none
  | some (_, incoming) => return some incoming

/-- The running task lets its peers go first. -/
def cede : Step (Option Handle) := do
  modify fun o => { o with sendBehind := true }
  switch

/-- The running task has just left the processor. -/
def replaceRunner : Step Unit := do
  let o ← get
  if o.everDispatched && decide (o.depth = 0) then
    let _ ← switch
  else
    modify fun o => { o with switchDue := true }

/-! ## The clock -/

/-- Count the tick for the task that runs. -/
def chargeRunner (o : Outline) : Outline :=
  match o.runner.bind o.get? with
  | none => o
  | some task => o.put task.handle.index { task with runTicks := task.runTicks + 1 }

/-- The counter goes on by one, and into the next cycle when it wraps. -/
def advance (o : Outline) : Outline :=
  if o.now + 1 = 0 then
    { o with now := 0, cycle := o.cycle.other, wraps := o.wraps + 1 }
  else
    { o with now := o.now + 1 }

/-- The record of a task whose wait ended by the tick. -/
def timedOut (task : Task) : Task :=
  { task with flags := { task.flags with timedOut := true } }

/-- Make ready the tasks whose tick has come. -/
def wakeDue (o : Outline) : Outline :=
  o.makeAllReady timedOut o.due

/-- Measure the slice of a running task of the given priority. -/
def chargeSlice (o : Outline) (priority : Nat) : Bool × Outline :=
  if o.settings.takingTurns then
    if o.row (.ready priority) = [] then
      (false, { o with sliceSpent := 0 })
    else
      let spent := saturatingSucc o.sliceSpent
      if o.settings.slice ≤ spent then
        (true, { o with sliceSpent := spent, sendBehind := true })
      else
        (false, { o with sliceSpent := spent })
  else
    (false, o)

/-- Whether a switch is wanted after a tick. -/
def judge (o : Outline) : Bool × Outline :=
  match o.runnerPriority with
  | some p =>
      let (expired, o) := o.chargeSlice p
      (expired || o.readyAbove p || o.switchDue, o)
  | none => (o.topLevel.isSome || o.switchDue, o)

/-- The answer of a tick. -/
def answerTick (o : Outline) : Bool × Outline :=
  let (wanted, o) := o.judge
  if o.depth = 0 then
    (wanted && o.settings.preemption, o)
  else
    (false, o.wantSwitchIf wanted)

/-- Let one tick pass. -/
def tick (o : Outline) : Bool × Outline :=
  o.chargeRunner.advance.wakeDue.answerTick

/-- Let a number of ticks pass. -/
def elapseFrom : Bool → Nat → Outline → Bool × Outline
  | asked, 0, o => (asked, o)
  | asked, n + 1, o => elapseFrom (asked || o.tick.1) n o.tick.2

/-- Whether the running task's last wait was cut short. -/
def takeCutShort (o : Outline) : Bool × Outline :=
  match o.runner.bind o.get? with
  | none => (false, o)
  | some task =>
      if task.flags.cutShort then
        (true, o.put task.handle.index { task with flags := { task.flags with cutShort := false } })
      else
        (false, o)

/-! ## Calls -/

/-- Make the idle task, if there is none yet. -/
def enrollIdle (o : Outline) (entry : Nat) : Except Refusal (Unit × Outline) :=
  if o.idle.isSome then
    .error .invalidState
  else do
    let (idle, o) ← o.enroll
      { name := o.settings.idleName, entry := entry, priority := idlePriority } { idle := true }
    .ok ((), { o with idle := some idle })

/-- Make the idle task and dispatch the first task. -/
def start (entry : Nat) : Step Handle := do
  Step.guarded (·.enrollIdle entry)
  choose

/-- Retire a task, and dispatch its successor if it was dispatched last. -/
def delete (h : Handle) : Step Unit := do
  if ← Step.guarded (·.remove h) then replaceRunner

/-- Suspend a task, and dispatch its successor if it was running. -/
def suspend (h : Handle) : Step Unit := do
  if ← Step.guarded (·.shelve h) then replaceRunner

/-- Block the running task for a number of ticks and switch. -/
def pause (ticks : Tick) : Step Unit := do
  let cur ← Step.guarded needRunner
  if ticks = 0 then
    let _ ← cede
  else
    Step.guarded (·.block cur ticks)
    let _ ← switch

/-- Block the running task until the end of a period and switch. -/
def pausePeriod (anchor period : Tick) : Step (Bool × Tick) := do
  let cur ← Step.guarded needRunner
  let now := (← get).now
  let finish := anchor + period
  if periodAhead anchor period now then
    Step.guarded (·.block cur (finish - now))
    let _ ← switch
    return (true, finish)
  else
    let _ ← cede
    return (false, finish)

/-- Check whether a wait is over. -/
def checkWait (since : Moment) (remaining : Tick) : Step Moment.Verdict := do
  if ← Step.always takeCutShort then
    return ⟨true, since, remaining⟩
  else
    let o ← get
    return Moment.checkWait ⟨o.wraps, o.now⟩ since remaining

/-- The step that a call names. -/
def run : Call → Step Reply
  | .create spec => return .task (← Step.guarded (·.enroll spec {}))
  | .start entry => return .task (← start entry)
  | .delete h => do delete h; return .done
  | .suspend h => do suspend h; return .done
  | .resume h => return .answer (← Step.guarded (·.resume h))
  | .reprioritise h p => return .answer (← Step.guarded (·.reprioritise h p))
  | .saveContext h c => do Step.guarded (·.saveContext h c); return .done
  | .block h ticks => do Step.guarded (·.block h ticks); return .done
  | .pause ticks => do pause ticks; return .done
  | .pausePeriod anchor period => do
      let (blocked, next) ← pausePeriod anchor period
      return .anchored blocked next
  | .wake h => return .answer (← Step.guarded (·.endWait h false))
  | .cutShort h => return .answer (← Step.guarded (·.endWait h true))
  | .tick => return .answer (← Step.always tick)
  | .elapse ticks => return .answer (← Step.always (elapseFrom false ticks.toNat))
  | .freezeAll => do Step.always freezeAll; return .done
  | .thawAll => return .answer (← Step.always thawAll)
  | .choose => return .task (← choose)
  | .planSwitch => return .planned (← planSwitch)
  | .switch => return .switched (← switch)
  | .cede => return .switched (← cede)
  | .checkWait since remaining => return .verdict (← checkWait since remaining)

/-- Run a history of calls. -/
def perform : List Call → Step (List (Except Refusal Reply))
  | [] => return []
  | c :: rest => do
      let r ← Step.attempt (run c)
      return r :: (← perform rest)

end Outline

end PriorityScheduler
