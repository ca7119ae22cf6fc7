import PriorityScheduler.Kernel.Basic

/-! # Where the tasks are

    A task's record says which list it is on, and the lists say which tasks are
    on them.  This module reads the second side: the chain that a place names,
    and the slots and tasks that stand on it. -/

namespace PriorityScheduler

namespace Kernel

/-- The chain that a place names; tasks that are on no list form none. -/
def chain (k : Kernel) : Place → Chain
  | .unlinked => {}
  | .ready p => k.ready.levelAt p
  | .delayed cycle => k.delayed.list cycle
  | .waiting => k.waiting
  | .suspended => k.suspended
  | .postponed => k.freeze.postponed

/-- The slots on the list of a place, first to last. -/
def slotsAt (k : Kernel) (place : Place) : List Nat :=
  (k.chain place).toList k.table.links

/-- The tasks on the list of a place, first to last. -/
def handlesAt (k : Kernel) (place : Place) : List Handle :=
  k.table.handlesOn (k.chain place)

/-- The number of tasks on the list of a place, as the list counts them. -/
def countAt (k : Kernel) (place : Place) : Nat :=
  (k.chain place).length

/-- No task is on the list of those that are on none. -/
@[simp] theorem slotsAt_unlinked (k : Kernel) : k.slotsAt .unlinked = [] := by
  simp [slotsAt, chain, Chain.toList, LinkTable.walk]

/-- The ready queue's own view of a level is the view of its place. -/
theorem handlesAt_ready (k : Kernel) (p : Nat) :
    k.handlesAt (.ready p) = k.ready.handlesAt k.table p :=
  rfl

end Kernel

end PriorityScheduler
