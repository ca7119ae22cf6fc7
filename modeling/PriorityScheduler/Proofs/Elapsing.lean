import PriorityScheduler.Proofs.Delays
import PriorityScheduler.Proofs.Stages

/-! # Time as it passes

    The counter of ticks wraps; time does not.  The TIME of a reachable kernel is the
    number of its first tick and all the ticks that have passed since, and the counter
    shows it up to turns of the counter: only ticks move the counter, and each moves it
    by one.  The count of wraps goes with it, so that the MOMENT that a kernel shows is
    the earlier one moved on by the ticks between them. -/

namespace PriorityScheduler

open Routine

namespace Moment

/-- The moment a number of ticks later. -/
def after (m : Moment) (n : Nat) : Moment :=
  ⟨m.wraps + UInt32.ofNat ((m.tick.toNat + n) / 2 ^ 32), m.tick + UInt32.ofNat n⟩

theorem after_zero (m : Moment) : m.after 0 = m := by
  have hturns : (m.tick.toNat + 0) / 2 ^ 32 = 0 := Nat.div_eq_of_lt m.tick.toNat_lt
  simp only [after, hturns]
  exact congrArg₂ Moment.mk (UInt32.add_zero _) (UInt32.add_zero _)

/-- The counter shows the ticks that have passed modulo its range. -/
theorem tick_toNat_after (m : Moment) (n : Nat) :
    (m.after n).tick.toNat = (m.tick.toNat + n) % 2 ^ 32 := by
  simp only [after, UInt32.toNat_add, UInt32.toNat_ofNat', Nat.add_mod_mod]

theorem after_after (m : Moment) (a b : Nat) : (m.after a).after b = m.after (a + b) := by
  have hturns : (m.tick.toNat + a) / 2 ^ 32 + ((m.after a).tick.toNat + b) / 2 ^ 32
      = (m.tick.toNat + (a + b)) / 2 ^ 32 := by
    rw [m.tick_toNat_after]
    omega
  refine congrArg₂ Moment.mk ?wraps ?tick
  case wraps =>
    show (m.wraps + _) + _ = m.wraps + _
    rw [UInt32.add_assoc, ← UInt32.ofNat_add, hturns]
  case tick =>
    show (m.tick + _) + _ = m.tick + _
    rw [UInt32.add_assoc, ← UInt32.ofNat_add]

/-- One tick that wraps the counter. -/
theorem after_one_wrap {m : Moment} (wrap : m.tick + 1 = 0) : m.after 1 = ⟨m.wraps + 1, 0⟩ := by
  have hturns : (m.tick.toNat + 1) / 2 ^ 32 = 1 := by
    rw [Outline.toNat_of_succ_eq_zero wrap]
    rfl
  simp only [after, hturns]
  exact congrArg₂ Moment.mk rfl wrap

/-- One tick that does not wrap the counter. -/
theorem after_one_step {m : Moment} (wrap : m.tick + 1 ≠ 0) :
    m.after 1 = ⟨m.wraps, m.tick + 1⟩ := by
  have hturns : (m.tick.toNat + 1) / 2 ^ 32 = 0 := by
    rw [← Outline.toNat_succ wrap]
    exact Nat.div_eq_of_lt (m.tick + 1).toNat_lt
  simp only [after, hturns]
  exact congrArg₂ Moment.mk (UInt32.add_zero _) rfl

end Moment

namespace Outline

variable {o o' : Outline} {c : Call}

/-- The moment that an outline shows. -/
def moment (o : Outline) : Moment := ⟨o.wraps, o.now⟩

/-! ## What moves the counter -/

/-- A tick moves the counter by one, and the count of wraps when it wraps. -/
theorem tick_moment (o : Outline) : o.tick.2.moment = o.moment.after 1 := by
  obtain ⟨spent, behind, due, heq⟩ := o.tick_passed
  have hcharged : o.chargeRunner.moment = o.moment := by
    rcases o.chargeRunner_cases with heq | ⟨task, -, heq⟩
    · rw [heq]
    · rw [heq]
      rfl
  rw [heq, ← hcharged]
  show o.chargeRunner.advance.moment = _
  rcases o.chargeRunner.advance_cases with ⟨hwrap, heq⟩ | ⟨hwrap, heq⟩
  · rw [heq, Moment.after_one_wrap hwrap]
    rfl
  · rw [heq, Moment.after_one_step hwrap]
    rfl

/-- A number of ticks move the counter by that number. -/
theorem elapseFrom_moment (n : Nat) (asked : Bool) (o : Outline) :
    (elapseFrom asked n o).2.moment = o.moment.after n := by
  induction n generalizing asked o with
  | zero => exact o.moment.after_zero.symm
  | succ n ih =>
      show (elapseFrom (asked || o.tick.1) n o.tick.2).2.moment = _
      rw [ih, tick_moment, Moment.after_after, Nat.add_comm]

/-- A call moves the counter by the ticks that it lets pass. -/
theorem Sound.moment_call (sound : o.Sound) {r : Except Refusal Reply}
    (ran : Step.attempt (run c) o = .ok r o') : o'.moment = o.moment.after c.ticks := by
  have hconserves := sound.conserves_call ran
  cases c with
  | tick =>
      obtain ⟨-, rfl⟩ := EStateM.Result.ok.inj ran
      exact o.tick_moment
  | elapse ticks =>
      obtain ⟨-, rfl⟩ := EStateM.Result.ok.inj ran
      exact elapseFrom_moment ticks.toNat false o
  | _ =>
      obtain ⟨hnow, hwraps⟩ := hconserves.clock (by rintro ⟨⟩) (by rintro ticks ⟨⟩)
      exact (congrArg₂ Moment.mk hwraps hnow).trans o.moment.after_zero.symm

end Outline

namespace Kernel

variable {k : Kernel} {n : Nat}

/-- A call moves the counter by the ticks that it lets pass. -/
theorem Intact.moment_call (intact : k.Intact) (sound : k.outline.Sound) {c : Call} {p : Platform}
    {r : Except Refusal Reply} {m : Machine Kernel} (ran : attempt c.run ⟨k, p⟩ = .ok r m) :
    m.state.moment = k.moment.after c.ticks := by
  obtain ⟨-, -, hstep⟩ := intact.of_call sound ran
  exact sound.moment_call hstep

/-- A history moves the counter by the ticks that it lets pass. -/
theorem Intact.moment_perform {calls : List Call} {rs : List (Except Refusal Reply)}
    {m m' : Machine Kernel} (intact : m.state.Intact) (sound : m.state.outline.Sound)
    (ran : perform calls m = .ok rs m') :
    m'.state.moment = m.state.moment.after (ticksIn calls) := by
  induction calls generalizing m rs with
  | nil =>
      obtain ⟨-, rfl⟩ := EStateM.Result.ok.inj ran
      exact m.state.moment.after_zero.symm
  | cons c rest ih =>
      have hticks : ticksIn (c :: rest) = c.ticks + ticksIn rest := List.sum_cons
      obtain ⟨r, m₁, hfirst, hrest⟩ := of_bind_ok ran
      obtain ⟨rs', m₂, hothers, hdone⟩ := of_bind_ok hrest
      obtain ⟨-, rfl⟩ := EStateM.Result.ok.inj hdone
      obtain ⟨hintact, hsound, -⟩ := intact.of_call sound hfirst
      rw [ih hintact hsound hothers, intact.moment_call sound hfirst, Moment.after_after, hticks]

/-- A call moves the tick that the counter shows by the ticks that it lets pass. -/
theorem Intact.now_call (intact : k.Intact) (sound : k.outline.Sound) {c : Call} {p : Platform}
    {r : Except Refusal Reply} {m : Machine Kernel} (ran : attempt c.run ⟨k, p⟩ = .ok r m) :
    m.state.now = k.now + UInt32.ofNat c.ticks :=
  congrArg Moment.tick (intact.moment_call sound ran)

/-- A history moves the tick that the counter shows by the ticks that it lets pass. -/
theorem Intact.now_perform {calls : List Call} {rs : List (Except Refusal Reply)}
    {m m' : Machine Kernel} (intact : m.state.Intact) (sound : m.state.outline.Sound)
    (ran : perform calls m = .ok rs m') :
    m'.state.now = m.state.now + UInt32.ofNat (ticksIn calls) :=
  congrArg Moment.tick (intact.moment_perform sound ran)

/-! ## Unbounded time -/

/-- The reachable kernels with their time, which is not bounded: it begins with the first
    tick and goes on with every tick that passes. -/
inductive ReachableAt : Nat → Kernel → Prop where
  | initial {s : Settings} (valid : s.Valid) : ReachableAt s.firstTick.toNat (initial s)
  | call {n : Nat} {k : Kernel} (c : Call) {p : Platform} {r : Except Refusal Reply}
      {m : Machine Kernel} (before : ReachableAt n k) (ran : attempt c.run ⟨k, p⟩ = .ok r m) :
      ReachableAt (n + c.ticks) m.state

theorem ReachableAt.reachable (reachable : ReachableAt n k) : Reachable k := by
  induction reachable with
  | initial valid => exact .initial valid
  | call c _ ran ih => exact .call c ih ran

/-- Every reachable kernel has a time. -/
theorem Reachable.timed (reachable : Reachable k) : ∃ n, ReachableAt n k := by
  induction reachable with
  | initial valid => exact ⟨_, .initial valid⟩
  | call c _ ran ih =>
      obtain ⟨n, before⟩ := ih
      exact ⟨_, .call c before ran⟩

/-- A history lets its ticks pass. -/
theorem ReachableAt.perform {calls : List Call} {rs : List (Except Refusal Reply)}
    {m m' : Machine Kernel} (reachable : ReachableAt n m.state)
    (ran : Kernel.perform calls m = .ok rs m') : ReachableAt (n + ticksIn calls) m'.state := by
  induction calls generalizing m n rs with
  | nil =>
      obtain ⟨-, rfl⟩ := EStateM.Result.ok.inj ran
      exact reachable
  | cons c rest ih =>
      obtain ⟨r, m₁, hfirst, hrest⟩ := of_bind_ok ran
      obtain ⟨rs', m₂, hothers, hdone⟩ := of_bind_ok hrest
      obtain ⟨-, rfl⟩ := EStateM.Result.ok.inj hdone
      have hticks : ticksIn (c :: rest) = c.ticks + ticksIn rest := List.sum_cons
      rw [hticks, ← Nat.add_assoc]
      exact ih (.call c reachable hfirst) hothers

/-- The counter shows the time modulo its range. -/
theorem ReachableAt.now (reachable : ReachableAt n k) : k.now = UInt32.ofNat n := by
  induction reachable with
  | initial _ => exact (UInt32.ofNat_toNat).symm
  | call c before ran ih =>
      obtain ⟨hintact, hsound⟩ := before.reachable.intact
      rw [hintact.now_call hsound ran, ih, UInt32.ofNat_add]

end Kernel

end PriorityScheduler
