/-! # Time

    Time is a 32-bit count of ticks that wraps to zero after its largest
    value.  Sums and differences of ticks are taken modulo the counter's
    range; the comparison of two ticks is the one of the numbers, and every
    user of a comparison says which side of a wrap it stands on. -/

namespace PriorityScheduler

/-- The scheduler's unit of time, a count that wraps. -/
abbrev Tick := UInt32

/-- The amount that asks to block with no timeout, the largest tick. -/
def waitForever : Tick := 0xFFFFFFFF

/-- One more, held at the largest 32-bit value once that is reached. -/
def saturatingSucc (n : UInt32) : UInt32 :=
  if n = 0xFFFFFFFF then n else n + 1

/-! ## Periods -/

/-- Whether the end of a `period` begun at `anchor` still lies ahead of `now`.
    A counter below the anchor has wrapped since, so the end lies ahead only if
    it wrapped as well and is above the counter; otherwise an end that wrapped
    lies ahead in any case. -/
def periodAhead (anchor period now : Tick) : Bool :=
  let finish := anchor + period
  if now < anchor then
    decide (finish < anchor) && decide (now < finish)
  else
    decide (finish < anchor) || decide (now < finish)

/-! ## Moments -/

/-- A point in time: the tick, and how often the counter had wrapped by then.
    The count of wraps wraps too. -/
structure Moment where
  wraps : UInt32
  tick : Tick
  deriving DecidableEq, Repr

namespace Moment

/-- The text of a moment at which a wait began. -/
def text (m : Moment) : String :=
  "TimeOut \x7b overflows: " ++ toString m.wraps.toNat ++ ", entered: "
    ++ toString m.tick.toNat ++ " \x7d"

/-- What a check of a wait finds: whether it is over, and from which moment and
    for how long a later check goes on. -/
structure Verdict where
  expired : Bool
  since : Moment
  remaining : Tick
  deriving DecidableEq, Repr

/-- Check a wait of `remaining` ticks begun at `since`.  A wait without an end
    is never over.  A different count of wraps and a counter that is not below
    the start mean a full turn of the counter.  Otherwise the ticks between the
    two are taken modulo the counter's range; a wait that is not over begins
    anew, for the rest. -/
def checkWait (now since : Moment) (remaining : Tick) : Verdict :=
  if remaining = waitForever then
    ⟨false, since, remaining⟩
  else if since.wraps ≠ now.wraps ∧ since.tick ≤ now.tick then
    ⟨true, since, 0⟩
  else
    let elapsed := now.tick - since.tick
    if elapsed < remaining then
      ⟨false, now, remaining - elapsed⟩
    else
      ⟨true, since, 0⟩

end Moment

end PriorityScheduler
