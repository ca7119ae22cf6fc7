import PriorityScheduler.Failure
import PriorityScheduler.Task

/-! # The journal

    What the scheduler tells of its work.  A record says what happened and to
    whom; its severity and its wording are functions of the record, so that
    nothing is worded unless someone reads it. -/

namespace PriorityScheduler

/-- How much a record matters, the gravest first. -/
inductive Severity where
  | error
  | warn
  | info
  | debug
  | trace
  deriving DecidableEq, Repr

namespace Severity

/-- The tag printed with a record. -/
def tag : Severity → String
  | error => "ERROR"
  | warn => "WARN"
  | info => "INFO"
  | debug => "DEBUG"
  | trace => "TRACE"

/-- The place of a severity, the gravest first, from 1. -/
def rank : Severity → Nat
  | error => 1
  | warn => 2
  | info => 3
  | debug => 4
  | trace => 5

end Severity

/-- One thing that the scheduler reports. -/
inductive Record where
  /-- A scheduler was built. -/
  | built (levels capacity : Nat) (slice : UInt32)
  | created (name : String) (task : Handle) (priority : Nat) (activity : Activity)
  | deleted (name : String) (task : Handle)
  | suspended (task : Handle)
  | resumed (task : Handle)
  | reprioritised (task : Handle) (old new : Nat)
  /-- Scheduling was suspended, for the `depth`-th time over. -/
  | frozen (depth : UInt32)
  /-- A resumption without a suspension was ignored. -/
  | thawIgnored (cause : Refusal)
  /-- A postponed task could not enter the ready queue. -/
  | thawRefused (task : Handle) (cause : Refusal)
  /-- Scheduling goes on, with so many postponed tasks made ready. -/
  | thawed (count : Nat) (switch : Bool)
  | tickWrapped
  /-- A task whose tick had come could not be made ready. -/
  | tickRefused (now : Tick) (task : Handle) (cause : Refusal)
  | tickWoke (now : Tick) (count : Nat)
  | blockedForever (task : Handle)
  | blockedUntil (task : Handle) (wake : Tick)
  | woken (task : Handle) (switch : Bool)
  | starting (count : Nat)
  | dispatched (task : Handle)
  /-- The system is about to halt. -/
  | fatal (cause : Refusal)
  deriving DecidableEq, Repr

namespace Record

/-- How much each record matters. -/
def severity : Record → Severity
  | fatal _ => .error
  | thawIgnored _ | thawRefused _ _ | tickRefused _ _ _ => .warn
  | suspended _ | resumed _ | starting _ => .info
  | built _ _ _ | created _ _ _ _ | deleted _ _ | reprioritised _ _ _ => .debug
  | frozen _ | thawed _ _ | tickWrapped | tickWoke _ _ | blockedForever _
  | blockedUntil _ _ | woken _ _ | dispatched _ => .trace

/-- The wording of a record, without the mark that all of them begin with. -/
def body : Record → String
  | built levels capacity slice =>
      "Kernel: " ++ toString levels ++ " priorities, " ++ toString capacity
        ++ " task slots, slice " ++ toString slice.toNat ++ " ticks"
  | created name h priority activity =>
      "Created " ++ name ++ " (" ++ h.text ++ ", prio " ++ toString priority ++ ", "
        ++ activity.text ++ ")"
  | deleted name h => "Deleted " ++ name ++ " (" ++ h.text ++ ")"
  | suspended h => "Suspended " ++ h.text
  | resumed h => "Resumed " ++ h.text
  | reprioritised h old new =>
      h.text ++ " priority " ++ toString old ++ " -> " ++ toString new
  | frozen depth => "suspend_all depth=" ++ toString depth.toNat
  | thawIgnored cause => "resume_all ignored: " ++ cause.message
  | thawRefused h cause => "resume_all could not ready " ++ h.text ++ ": " ++ cause.message
  | thawed count switch =>
      "resume_all drained " ++ toString count ++ " switch=" ++ toString switch
  | tickWrapped => "tick wrapped, overflow epoch promoted"
  | tickRefused now h cause =>
      "tick " ++ toString now.toNat ++ " could not ready " ++ h.text ++ ": " ++ cause.message
  | tickWoke now count => "tick " ++ toString now.toNat ++ " woke " ++ toString count
  | blockedForever h => h.text ++ " blocked indefinitely"
  | blockedUntil h wake => h.text ++ " blocked until tick " ++ toString wake.toNat
  | woken h switch => h.text ++ " woken, switch=" ++ toString switch
  | starting count => "Starting scheduler with " ++ toString count ++ " tasks"
  | dispatched h => "dispatch -> " ++ h.text
  | fatal cause => "fatal: " ++ cause.message

/-- The wording of a record. -/
def text (r : Record) : String := "[SCHED] " ++ r.body

end Record

end PriorityScheduler
