import PriorityScheduler.Proofs.Ghost
import PriorityScheduler.SharedKernel.Call

/-! # The tally of ticks

    Beside a shared kernel goes a tally of the ticks that were asked for and of
    those that the shared kernel let pass on a kernel inside.  The routines with
    the tally bear the names of those without: a tick is counted as asked for when
    the timer interrupt begins, unless it finds a free lock and no kernel, and as
    passed when a kernel's clock has gone on by it.  Ticks that task code lets pass
    on its own are not counted.

    The routines with the tally forget to those without. -/

namespace PriorityScheduler

open Routine

/-- Ticks that were asked for, and ticks that were passed on to a kernel. -/
structure Tally where
  asked : Nat := 0
  passed : Nat := 0
  deriving DecidableEq, Repr

namespace Tally

/-- A tick was asked for; it counts if it is owed. -/
def ask (t : Tally) (owed : Bool) : Tally :=
  { t with asked := t.asked + owed.toNat }

/-- Ticks were passed on. -/
def pass (t : Tally) (ticks : Nat) : Tally :=
  { t with passed := t.passed + ticks }

end Tally

/-- Whether a tick that is asked for is to be passed on, now or later: the lock is
    taken, or a kernel is inside. -/
def SharedKernel.owesTick (s : SharedKernel) : Bool :=
  s.locked || s.kernel.isSome

namespace Tallied

/-! ## Ticks of the kernel inside -/

/-- Let one tick pass, and mark it. -/
def tick : Routine (Kernel × Tally) Bool := do
  let asked ← beside Kernel.tick
  mark fun t => t.pass 1
  return asked

/-- Let a number of ticks pass, one after the other. -/
def elapseFrom : Bool → Nat → Routine (Kernel × Tally) Bool
  | asked, 0 => return asked
  | asked, n + 1 => do
      let now ← tick
      elapseFrom (asked || now) n

/-- Let the ticks pass that could not be delivered in time. -/
def elapse (ticks : Tick) : Routine (Kernel × Tally) Bool :=
  elapseFrom false ticks.toNat

/-- Run a routine on the kernel inside, if there is one, and on the tally. -/
def onKernel {α : Type} (body : Routine (Kernel × Tally) α) :
    Routine (SharedKernel × Tally) (Option α) := fun m =>
  match m.state.1.kernel with
  | none => .ok none m
  | some k =>
      match body ⟨(k, m.state.2), m.platform⟩ with
      | .ok a n =>
          .ok (some a) ⟨({ m.state.1 with kernel := some n.state.1 }, n.state.2), n.platform⟩
      | .error e n =>
          .error e ⟨({ m.state.1 with kernel := some n.state.1 }, n.state.2), n.platform⟩

/-- Apply the ticks that were missed to the kernel inside. -/
def applyMissed : Routine (SharedKernel × Tally) Unit := do
  let missed ← beside SharedKernel.takeMissed
  if missed = 0 then
    return ()
  else
    let _ ← onKernel do
      if ← elapse missed then
        beside (update Kernel.wantSwitch)

/-- Apply one tick, after those that were missed before it. -/
def passTick : Routine (SharedKernel × Tally) (Option Bool) := do
  if (← beside read).kernel.isNone then
    return none
  else
    let missed ← beside SharedKernel.takeMissed
    onKernel do
      let before ← elapse missed
      let now ← tick
      return before || now

/-! ## Task code and interrupts -/

/-- End work on the kernel inside. -/
def leave : Routine (SharedKernel × Tally) Unit := do
  applyMissed
  beside SharedKernel.unlock

/-- Run a routine under the lock, unless there is no kernel. -/
def withKernel {α : Type} (body : Routine (SharedKernel × Tally) α) :
    Routine (SharedKernel × Tally) (Option α) := do
  if ← beside SharedKernel.enter then
    let a ← body
    leave
    return some a
  else
    return none

/-- Run a routine under the lock if that is free and there is a kernel. -/
def tryWithKernel {α : Type} (body : Routine (SharedKernel × Tally) α) :
    Routine (SharedKernel × Tally) (Option α) := do
  if ← beside SharedKernel.tryEnter then
    let a ← body
    beside SharedKernel.unlock
    return some a
  else
    return none

/-- A tick is asked for. -/
def ask : Routine (SharedKernel × Tally) Unit := do
  let s ← beside read
  mark fun t => t.ask s.owesTick

/-- The timer interrupt: apply a tick. -/
def interrupt : Routine (SharedKernel × Tally) Bool := do
  ask
  if ← beside SharedKernel.tryLock then
    let asked ← passTick
    beside SharedKernel.unlock
    return asked.getD false
  else
    beside SharedKernel.countMissed
    return false

/-- The timer interrupt: apply a tick, and make a switch if it asks for one. -/
def interruptAndSwitch : Routine (SharedKernel × Tally) (Option (Option Handle × Handle)) := do
  ask
  if ← beside SharedKernel.tryLock then
    if (← passTick).getD false then
      let switch ← onKernel (beside Kernel.planSwitch)
      beside SharedKernel.unlock
      beside (SharedKernel.makeSwitch switch.join)
      return switch.join
    else
      beside SharedKernel.unlock
      return none
  else
    beside SharedKernel.countMissed
    return none

/-- Make the switch that is due, from task code. -/
def switchNow : Routine (SharedKernel × Tally) (Option Handle) := do
  beside SharedKernel.lock
  if (← beside read).kernel.isSome then
    applyMissed
    let switch ← onKernel (beside Kernel.planSwitch)
    beside SharedKernel.unlock
    beside (SharedKernel.makeSwitch switch.join)
    return switch.join.map Prod.snd
  else
    beside SharedKernel.unlock
    return none

/-! ## Calls -/

mutual

/-- Run an inner call. -/
def inner : InnerCall → Routine (SharedKernel × Tally) Unit
  | .kernel c => do let _ ← onKernel (beside (attempt c.run))
  | .interrupt => do let _ ← interrupt
  | .interruptAndSwitch => do let _ ← interruptAndSwitch
  | .tryWith body => do let _ ← tryWithKernel (innerAll body)

/-- Run inner calls one after the other. -/
def innerAll : List InnerCall → Routine (SharedKernel × Tally) Unit
  | [] => return ()
  | c :: rest => do
      inner c
      innerAll rest

end

/-- The routine that an operation names. -/
def run : SharedCall → Routine (SharedKernel × Tally) SharedReply
  | .putIn k => return .kernel (← beside (SharedKernel.putIn k))
  | .takeOut => return .kernel (← beside SharedKernel.takeOut)
  | .withKernel body => return .ran (← withKernel (innerAll body)).isSome
  | .tryWithKernel body => return .ran (← tryWithKernel (innerAll body)).isSome
  | .interrupt => return .asked (← interrupt)
  | .interruptAndSwitch => return .made (← interruptAndSwitch)
  | .switchNow => return .switched (← switchNow)

/-- Run a history of operations on a shared kernel. -/
def perform : List SharedCall → Routine (SharedKernel × Tally) (List SharedReply)
  | [] => return []
  | c :: rest => do
      let r ← run c
      return r :: (← perform rest)

/-! ## Without the tally -/

theorem forgets_tick : Forgets tick Kernel.tick := by
  have h : Forgets tick (Kernel.tick >>= pure) :=
    forgets_bind (forgets_beside _) fun _ => forgets_mark (forgets_pure _)
  rw [bind_pure] at h
  exact h

theorem forgets_elapseFrom (n : Nat) (asked : Bool) :
    Forgets (elapseFrom asked n) (Kernel.elapseFrom asked n) := by
  induction n generalizing asked with
  | zero => exact forgets_pure _
  | succ n ih => exact forgets_bind forgets_tick fun _ => ih _

theorem forgets_elapse (ticks : Tick) : Forgets (elapse ticks) (Kernel.elapse ticks) :=
  forgets_elapseFrom _ _

theorem forgets_onKernel {α : Type} {body : Routine (Kernel × Tally) α} {body' : Routine Kernel α}
    (h : Forgets body body') : Forgets (onKernel body) (SharedKernel.onKernel body') := by
  rintro ⟨⟨kernel, locked, missed⟩, p⟩ t
  cases kernel with
  | none => rfl
  | some k =>
      simp only [onKernel, SharedKernel.onKernel, Machine.withGhost]
      rw [← h ⟨k, p⟩ t]
      show forgetEnd (match body ⟨(k, t), p⟩ with
        | .ok a n => EStateM.Result.ok (some a) _
        | .error e n => .error e _) = _
      simp only [Machine.withGhost]
      cases body ⟨(k, t), p⟩ with
      | ok a n => rfl
      | error e n => rfl

theorem forgets_applyMissed : Forgets applyMissed SharedKernel.applyMissed := by
  refine forgets_bind (forgets_beside _) fun missed => forgets_ite (forgets_pure _) ?_
  refine forgets_bind (forgets_onKernel ?_) fun _ => forgets_pure _
  refine forgets_bind (forgets_elapse missed) fun asked => ?_
  exact forgets_ite (forgets_beside _) (forgets_pure _)

theorem forgets_passTick : Forgets passTick SharedKernel.passTick := by
  refine forgets_bind (forgets_beside _) fun s => forgets_ite (forgets_pure _) ?_
  refine forgets_bind (forgets_beside _) fun missed => forgets_onKernel ?_
  refine forgets_bind (forgets_elapse missed) fun before => ?_
  exact forgets_bind forgets_tick fun now => forgets_pure _

theorem forgets_leave : Forgets leave SharedKernel.leave :=
  forgets_bind forgets_applyMissed fun _ => forgets_beside _

theorem forgets_withKernel {α : Type} {body : Routine (SharedKernel × Tally) α}
    {body' : Routine SharedKernel α} (h : Forgets body body') :
    Forgets (withKernel body) (SharedKernel.withKernel body') := by
  refine forgets_bind (forgets_beside _) fun entered => forgets_ite ?_ (forgets_pure _)
  exact forgets_bind h fun a => forgets_bind forgets_leave fun _ => forgets_pure _

theorem forgets_tryWithKernel {α : Type} {body : Routine (SharedKernel × Tally) α}
    {body' : Routine SharedKernel α} (h : Forgets body body') :
    Forgets (tryWithKernel body) (SharedKernel.tryWithKernel body') := by
  refine forgets_bind (forgets_beside _) fun entered => forgets_ite ?_ (forgets_pure _)
  exact forgets_bind h fun a => forgets_bind (forgets_beside _) fun _ => forgets_pure _

/-- That a tick is asked for changes the tally only. -/
theorem forgets_asked {α : Type} {r : Routine (SharedKernel × Tally) α}
    {r' : Routine SharedKernel α} (h : Forgets r r') : Forgets (ask >>= fun _ => r) r' :=
  fun m t => h m (t.ask m.state.owesTick)

theorem forgets_interrupt : Forgets interrupt SharedKernel.interrupt := by
  refine forgets_asked (forgets_bind (forgets_beside _) fun free => forgets_ite ?_ ?_)
  · refine forgets_bind forgets_passTick fun asked => ?_
    exact forgets_bind (forgets_beside _) fun _ => forgets_pure _
  · exact forgets_bind (forgets_beside _) fun _ => forgets_pure _

theorem forgets_interruptAndSwitch :
    Forgets interruptAndSwitch SharedKernel.interruptAndSwitch := by
  refine forgets_asked (forgets_bind (forgets_beside _) fun free => forgets_ite ?_ ?_)
  · refine forgets_bind forgets_passTick fun asked => forgets_ite ?_ ?_
    · refine forgets_bind (forgets_onKernel (forgets_beside _)) fun switch => ?_
      refine forgets_bind (forgets_beside _) fun _ => ?_
      exact forgets_bind (forgets_beside _) fun _ => forgets_pure _
    · exact forgets_bind (forgets_beside _) fun _ => forgets_pure _
  · exact forgets_bind (forgets_beside _) fun _ => forgets_pure _

theorem forgets_switchNow : Forgets switchNow SharedKernel.switchNow := by
  refine forgets_bind (forgets_beside _) fun _ => forgets_bind (forgets_beside _) fun s => ?_
  refine forgets_ite ?_ ?_
  · refine forgets_bind forgets_applyMissed fun _ => ?_
    refine forgets_bind (forgets_onKernel (forgets_beside _)) fun switch => ?_
    refine forgets_bind (forgets_beside _) fun _ => ?_
    exact forgets_bind (forgets_beside _) fun _ => forgets_pure _
  · exact forgets_bind (forgets_beside _) fun _ => forgets_pure _

mutual

theorem forgets_inner : (c : InnerCall) → Forgets (inner c) c.run
  | .kernel _ => forgets_bind (forgets_onKernel (forgets_beside _)) fun _ => forgets_pure _
  | .interrupt => forgets_bind forgets_interrupt fun _ => forgets_pure _
  | .interruptAndSwitch => forgets_bind forgets_interruptAndSwitch fun _ => forgets_pure _
  | .tryWith body =>
      forgets_bind (forgets_tryWithKernel (forgets_innerAll body)) fun _ => forgets_pure _

theorem forgets_innerAll : (body : List InnerCall) → Forgets (innerAll body) (InnerCall.runAll body)
  | [] => forgets_pure _
  | c :: rest => forgets_bind (forgets_inner c) fun _ => forgets_innerAll rest

end

theorem forgets_run (c : SharedCall) : Forgets (run c) c.run := by
  cases c with
  | putIn k => exact forgets_bind (forgets_beside _) fun _ => forgets_pure _
  | takeOut => exact forgets_bind (forgets_beside _) fun _ => forgets_pure _
  | withKernel body =>
      exact forgets_bind (forgets_withKernel (forgets_innerAll body)) fun _ => forgets_pure _
  | tryWithKernel body =>
      exact forgets_bind (forgets_tryWithKernel (forgets_innerAll body)) fun _ => forgets_pure _
  | interrupt => exact forgets_bind forgets_interrupt fun _ => forgets_pure _
  | interruptAndSwitch => exact forgets_bind forgets_interruptAndSwitch fun _ => forgets_pure _
  | switchNow => exact forgets_bind forgets_switchNow fun _ => forgets_pure _

/-- A history with the tally forgets to the history without it. -/
theorem forgets_perform (calls : List SharedCall) :
    Forgets (perform calls) (SharedKernel.perform calls) := by
  induction calls with
  | nil => exact forgets_pure _
  | cons c rest ih =>
      exact forgets_bind (forgets_run c) fun _ => forgets_bind ih fun _ => forgets_pure _

end Tallied

end PriorityScheduler
