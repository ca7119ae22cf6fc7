import PriorityScheduler.SharedKernel.Basic

/-! # Calls on a shared kernel

    The operations on a shared kernel as data.  Task code runs a list of inner
    calls while it holds the lock.  Among them may be the timer interrupt and
    attempts to take the lock, which find it taken; they are run for all that,
    so that nothing about them is assumed. -/

namespace PriorityScheduler

/-- What is done while the lock is held. -/
inductive InnerCall where
  /-- An operation on the kernel inside. -/
  | kernel (c : Call)
  /-- The timer interrupt, which only ticks. -/
  | interrupt
  /-- The timer interrupt, which ticks and makes the switch that is due. -/
  | interruptAndSwitch
  /-- Work that is done only if the lock is free. -/
  | tryWith (body : List InnerCall)

mutual

/-- Run an inner call. -/
def InnerCall.run : InnerCall → Routine SharedKernel Unit
  | .kernel c => do let _ ← SharedKernel.onKernel (Routine.attempt c.run)
  | .interrupt => do let _ ← SharedKernel.interrupt
  | .interruptAndSwitch => do let _ ← SharedKernel.interruptAndSwitch
  | .tryWith body => do let _ ← SharedKernel.tryWithKernel (InnerCall.runAll body)

/-- Run inner calls one after the other. -/
def InnerCall.runAll : List InnerCall → Routine SharedKernel Unit
  | [] => return ()
  | c :: rest => do
      c.run
      InnerCall.runAll rest

end

/-- An operation on a shared kernel. -/
inductive SharedCall where
  | putIn (k : Kernel)
  | takeOut
  | withKernel (body : List InnerCall)
  | tryWithKernel (body : List InnerCall)
  | interrupt
  | interruptAndSwitch
  | switchNow

/-- What an operation on a shared kernel answers. -/
inductive SharedReply where
  /-- The kernel that was inside before. -/
  | kernel (old : Option Kernel)
  /-- Whether the work was done. -/
  | ran (b : Bool)
  /-- Whether a switch was asked for. -/
  | asked (b : Bool)
  /-- The switch that was made, if there was one. -/
  | made (switch : Option (Option Handle × Handle))
  /-- The task switched to, if there was a switch. -/
  | switched (incoming : Option Handle)
  deriving DecidableEq, Repr

/-- The routine that an operation names. -/
def SharedCall.run : SharedCall → Routine SharedKernel SharedReply
  | .putIn k => return .kernel (← SharedKernel.putIn k)
  | .takeOut => return .kernel (← SharedKernel.takeOut)
  | .withKernel body =>
      return .ran (← SharedKernel.withKernel (InnerCall.runAll body)).isSome
  | .tryWithKernel body =>
      return .ran (← SharedKernel.tryWithKernel (InnerCall.runAll body)).isSome
  | .interrupt => return .asked (← SharedKernel.interrupt)
  | .interruptAndSwitch => return .made (← SharedKernel.interruptAndSwitch)
  | .switchNow => return .switched (← SharedKernel.switchNow)

/-- Run a history of operations on a shared kernel. -/
def SharedKernel.perform : List SharedCall → Routine SharedKernel (List SharedReply)
  | [] => return []
  | c :: rest => do
      let r ← c.run
      return r :: (← SharedKernel.perform rest)

end PriorityScheduler
