import PriorityScheduler.Failure
import PriorityScheduler.Time

/-! # Settings

    The shape of one scheduler: how many priority levels and tasks it has, how
    long a timeslice is, and which of its policies are on.  A scheduler is built
    only from valid settings; `Settings.check` refuses all others. -/

namespace PriorityScheduler

/-- The settings of one scheduler. -/
structure Settings where
  /-- Number of priority levels; level 0 is the lowest. -/
  levels : Nat := 10
  /-- Number of task slots, the idle task's included. -/
  capacity : Nat := 32
  /-- Ticks that a task may run before a peer of its level gets its turn. -/
  slice : UInt32 := 1
  /-- Whether tasks of one level take turns when their slice is used up. -/
  takingTurns : Bool := true
  /-- Whether the tick may ask for a switch. -/
  preemption : Bool := true
  /-- The tick at which the count begins. -/
  firstTick : Tick := 0
  /-- The name given to the idle task. -/
  idleName : String := "IDLE"
  deriving DecidableEq, Repr

/-- The map of occupied levels has one bit a level, so there are at most
    sixty-four. -/
def maxLevels : Nat := 64

/-- Slot indices are 32-bit words. -/
def maxCapacity : Nat := 0xFFFFFFFF

/-- The level of the idle task. -/
def idlePriority : Nat := 0

namespace Settings

/-- Whether a scheduler can be built from the settings. -/
def Valid (s : Settings) : Prop :=
  (0 < s.levels ∧ s.levels ≤ maxLevels) ∧
    (0 < s.capacity ∧ s.capacity ≤ maxCapacity) ∧ s.slice ≠ 0

instance (s : Settings) : Decidable s.Valid :=
  inferInstanceAs (Decidable (_ ∧ _))

/-- Accept valid settings and refuse all others. -/
def check (s : Settings) : Except Failure Unit :=
  if s.Valid then .ok () else refusal .invalidSettings

theorem check_eq_ok_iff (s : Settings) : s.check = .ok () ↔ s.Valid := by
  unfold check
  by_cases h : s.Valid
  · simp [h]
  · simp [h, refusal]

end Settings

end PriorityScheduler
