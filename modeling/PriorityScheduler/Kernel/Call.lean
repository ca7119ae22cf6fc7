import PriorityScheduler.Kernel.Clock
import PriorityScheduler.Kernel.Freezing
import PriorityScheduler.Kernel.Lifecycle
import PriorityScheduler.Kernel.Waiting

/-! # Calls

    Every operation that changes a kernel, as data, so that a history is a list
    of calls.  `Call.run` is the routine that a call names, and
    `Kernel.perform` runs a history, in which a refused call is answered by its
    refusal and the next one follows.  `Kernel.Reachable` holds of the states
    that such histories lead to; `Kernel.Reachable.perform` is that statement. -/

namespace PriorityScheduler

/-- An operation on a kernel with its arguments. -/
inductive Call where
  | create (spec : TaskSpec)
  | start (entry : Nat)
  | delete (task : Handle)
  | suspend (task : Handle)
  | resume (task : Handle)
  | reprioritise (task : Handle) (priority : Nat)
  | saveContext (task : Handle) (context : Nat)
  | block (task : Handle) (ticks : Tick)
  | pause (ticks : Tick)
  | pausePeriod (anchor period : Tick)
  | wake (task : Handle)
  | cutShort (task : Handle)
  | tick
  | elapse (ticks : Tick)
  | freezeAll
  | thawAll
  | choose
  | planSwitch
  | switch
  | cede
  | checkWait (since : Moment) (remaining : Tick)
  deriving DecidableEq, Repr

/-- What a call answers. -/
inductive Reply where
  | done
  | task (h : Handle)
  | answer (b : Bool)
  /-- The switch that the caller is to make, if there is one. -/
  | planned (switch : Option (Option Handle × Handle))
  /-- The task switched to, if there was a switch. -/
  | switched (incoming : Option Handle)
  /-- Whether a periodic wait blocked, and the anchor of the next period. -/
  | anchored (blocked : Bool) (anchor : Tick)
  | verdict (v : Moment.Verdict)
  deriving DecidableEq, Repr

/-- The routine that a call names. -/
def Call.run : Call → Routine Kernel Reply
  | .create spec => return .task (← Kernel.create spec)
  | .start entry => return .task (← Kernel.start entry)
  | .delete h => do Kernel.delete h; return .done
  | .suspend h => do Kernel.suspend h; return .done
  | .resume h => return .answer (← Kernel.resume h)
  | .reprioritise h p => return .answer (← Kernel.reprioritise h p)
  | .saveContext h c => do Kernel.saveContext h c; return .done
  | .block h ticks => do Kernel.block h ticks; return .done
  | .pause ticks => do Kernel.pause ticks; return .done
  | .pausePeriod anchor period => do
      let (blocked, next) ← Kernel.pausePeriod anchor period
      return .anchored blocked next
  | .wake h => return .answer (← Kernel.wake h)
  | .cutShort h => return .answer (← Kernel.cutShort h)
  | .tick => return .answer (← Kernel.tick)
  | .elapse ticks => return .answer (← Kernel.elapse ticks)
  | .freezeAll => do Kernel.freezeAll; return .done
  | .thawAll => return .answer (← Kernel.thawAll)
  | .choose => return .task (← Kernel.choose)
  | .planSwitch => return .planned (← Kernel.planSwitch)
  | .switch => return .switched (← Kernel.switch)
  | .cede => return .switched (← Kernel.cede)
  | .checkWait since remaining => return .verdict (← Kernel.checkWait since remaining)

namespace Kernel

/-- Run a history of calls.  A refusal is an answer like any other; only a
    fault ends the history early. -/
def perform : List Call → Routine Kernel (List (Except Refusal Reply))
  | [] => return []
  | c :: rest => do
      let r ← Routine.attempt c.run
      return r :: (← perform rest)

/-- The states that a scheduler of valid settings comes to, on any platform, by
    calls with any arguments that do not stop it. -/
inductive Reachable : Kernel → Prop where
  | initial {s : Settings} (valid : s.Valid) : Reachable (initial s)
  | call {k : Kernel} (c : Call) {p : Platform} {r : Except Refusal Reply} {m : Machine Kernel}
      (before : Reachable k) (ran : Routine.attempt c.run ⟨k, p⟩ = .ok r m) :
      Reachable m.state

/-- A history leads from reachable states to reachable states. -/
theorem Reachable.perform {calls : List Call} {m m' : Machine Kernel}
    {rs : List (Except Refusal Reply)} (before : Reachable m.state)
    (ran : Kernel.perform calls m = .ok rs m') : Reachable m'.state := by
  induction calls generalizing m rs with
  | nil =>
      cases ran
      exact before
  | cons c rest ih =>
      simp only [Kernel.perform, bind, EStateM.bind] at ran
      cases first : Routine.attempt c.run m with
      | error e n => simp [first] at ran
      | ok r n =>
          simp only [first] at ran
          cases others : Kernel.perform rest n with
          | error e n' => simp [others] at ran
          | ok rs' n' =>
              simp only [others] at ran
              cases ran
              exact ih (Reachable.call c before first) others

end Kernel

end PriorityScheduler
