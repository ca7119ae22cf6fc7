import PriorityScheduler.Kernel.Places
import PriorityScheduler.Proofs.Enactment.Clock
import PriorityScheduler.Proofs.Keeps
import PriorityScheduler.Proofs.Soundness
import PriorityScheduler.SharedKernel.Call
import PriorityScheduler.Proofs.Soundness.Clock
import PriorityScheduler.Proofs.Soundness.Runs
import PriorityScheduler.Proofs.Enactment.Calls
import PriorityScheduler.Proofs.Halting
import PriorityScheduler.Proofs.Reachability
import PriorityScheduler.Proofs.WellFormed
import PriorityScheduler.Proofs.Delays
import PriorityScheduler.Proofs.Postponing
import PriorityScheduler.Proofs.Mirrors
import PriorityScheduler.Proofs.Promptness
import PriorityScheduler.Proofs.Lasting
import PriorityScheduler.Proofs.Attendance
import PriorityScheduler.Proofs.Standby
import PriorityScheduler.Proofs.Ranges
import PriorityScheduler.Proofs.Ghost
import PriorityScheduler.Proofs.Tally
import PriorityScheduler.Proofs.MissedTicks
import PriorityScheduler.Proofs.Refusals
import PriorityScheduler.Proofs.Starting
import PriorityScheduler.Proofs.Handover
import PriorityScheduler.Proofs.Stillness
import PriorityScheduler.Proofs.Lines
import PriorityScheduler.Proofs.Slices
import PriorityScheduler.Proofs.Turns
import PriorityScheduler.Proofs.Neighbours
import PriorityScheduler.Proofs.Choosing
import PriorityScheduler.Proofs.Tenancy
import PriorityScheduler.Proofs.StaleHandles
import PriorityScheduler.Proofs.Endings
import PriorityScheduler.Proofs.Reporting
import PriorityScheduler.Proofs.Rotation
import PriorityScheduler.Proofs.Elapsing
import PriorityScheduler.Proofs.Periods
import PriorityScheduler.Proofs.Deadlines
import PriorityScheduler.Proofs.Timeouts
import PriorityScheduler.Proofs.QuietTicks
import PriorityScheduler.Proofs.RoundRobin
import PriorityScheduler.Proofs.LockHolders
import PriorityScheduler.Proofs.Commuting
import PriorityScheduler.Proofs.HeldAnswers
import PriorityScheduler.Proofs.Arrivals
import PriorityScheduler.Proofs.NextWakeUp
import PriorityScheduler.Proofs.Masking
import PriorityScheduler.Proofs.DelayQueues
import PriorityScheduler.Proofs.ReadyQueues
import PriorityScheduler.Proofs.Nesting
import PriorityScheduler.Proofs.Sequences
