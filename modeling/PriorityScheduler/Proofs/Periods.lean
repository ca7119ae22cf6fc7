import Mathlib.Algebra.Order.Ring.Int
import Mathlib.Order.Bounds.Basic
import PriorityScheduler.Proofs.Elapsing
import PriorityScheduler.Proofs.Refusals

/-! # Periods in wrapped time

    A task that works in periods keeps an anchor, the tick at which the present period
    began.  The counter may have wrapped since, once or many times, so an anchor stands for
    the LATEST time that the counter showed as the anchor, and the end of the period is
    that time and a period.  Whether it lies ahead is decided on the wrapped counters, and
    the decision is the one of unbounded time.

    The anchor goes on by a period with every pause that is answered, and by nothing else,
    so it does not drift whatever happens between the pauses. -/

namespace PriorityScheduler

open Routine

namespace Routine

variable {σ γ α : Type} {r : Routine σ α} {m n : Machine (σ × γ)}

/-- A routine that is done beside a ghost is done alone, and the ghost is left alone. -/
theorem of_beside_ok {a : α} (done : beside r m = .ok a n) :
    r m.forget = .ok a n.forget ∧ n.state.2 = m.state.2 := by
  simp only [beside] at done
  cases hr : r m.forget with
  | ok b l =>
      rw [hr] at done
      obtain ⟨rfl, rfl⟩ := EStateM.Result.ok.inj done
      exact ⟨rfl, rfl⟩
  | error e l =>
      rw [hr] at done
      cases done

/-- A routine that fails beside a ghost fails alone, and the ghost is left alone. -/
theorem of_beside_error {e : Failure} (failed : beside r m = .error e n) :
    r m.forget = .error e n.forget ∧ n.state.2 = m.state.2 := by
  simp only [beside] at failed
  cases hr : r m.forget with
  | ok b l =>
      rw [hr] at failed
      cases failed
  | error e' l =>
      rw [hr] at failed
      obtain ⟨rfl, rfl⟩ := EStateM.Result.error.inj failed
      exact ⟨rfl, rfl⟩

end Routine

/-! ## Wrapped and unbounded time -/

/-- The end of a period lies ahead as long as fewer ticks than a period have passed since
    the anchor, modulo the range of the counter. -/
theorem periodAhead_iff (anchor period now : Tick) :
    periodAhead anchor period now = true ↔ now - anchor < period := by
  have hnow := now.toNat_lt
  have hanchor := anchor.toNat_lt
  have hperiod := period.toNat_lt
  have hfinish : (anchor + period).toNat = (anchor.toNat + period.toNat) % 2 ^ 32 :=
    UInt32.toNat_add ..
  simp only [periodAhead, UInt32.lt_iff_toNat_lt, hfinish, UInt32.toNat_sub]
  split
  · simp only [Bool.and_eq_true, decide_eq_true_iff]
    omega
  · simp only [Bool.or_eq_true, decide_eq_true_iff]
    omega

/-- The counter wraps between the anchor and the present tick, and the last of three ticks is
    still to come. -/
example : periodAhead 0xFFFFFFFF 3 1 = true ∧ periodAhead 0xFFFFFFFF 2 1 = false := by decide

/-- The times not after `n` that the counter shows as a tick. -/
def shownUntil (n : Nat) (tick : Tick) : Set ℤ :=
  {t | t ≤ n ∧ t % 2 ^ 32 = tick.toNat}

/-- The latest of them is as many ticks ago as the counter tells. -/
theorem isGreatest_shownUntil (n : Nat) (tick : Tick) :
    IsGreatest (shownUntil n tick) (n - (UInt32.ofNat n - tick).toNat) := by
  have htick := tick.toNat_lt
  rw [UInt32.toNat_sub, UInt32.toNat_ofNat']
  constructor
  · constructor
    · omega
    · omega
  · rintro t ⟨hle, hshown⟩
    omega

/-- The decision on wrapped counters is the one of unbounded time. -/
theorem periodAhead_iff_latest {n : Nat} {anchor : Tick} {latest : ℤ}
    (isLatest : IsGreatest (shownUntil n anchor) latest) (period : Tick) :
    periodAhead anchor period (UInt32.ofNat n) = true ↔ n < latest + period.toNat := by
  obtain rfl := isLatest.unique (isGreatest_shownUntil n anchor)
  rw [periodAhead_iff, UInt32.lt_iff_toNat_lt]
  omega

namespace Kernel

variable {k : Kernel} {anchor period : Tick} {p : Platform}

/-! ## One pause -/

/-- What a periodic pause does to the anchor: it goes on by a period if the pause is
    answered, and stays if the pause is refused. -/
theorem leads_pauseInPlace (k : Kernel) (anchor period : Tick) :
    Leads (pauseInPlace period) (k, anchor)
      (fun ahead s => ahead = periodAhead anchor period k.now ∧ s.2 = anchor + period)
      (fun e s => ∀ cause, e = .refused cause → s.2 = anchor) := by
  -- once the anchor has been moved, what is left to do is never refused
  have hrest : ∀ {r : Routine Kernel (Option Handle)} (k' : Kernel) {ahead : Bool}, Firm r →
      ahead = periodAhead anchor period k.now →
      Leads (mark (fun _ => anchor + period) >>= fun _ => beside r >>= fun _ => pure ahead)
        (k', anchor)
        (fun ahead s => ahead = periodAhead anchor period k.now ∧ s.2 = anchor + period)
        (fun e s => ∀ cause, e = .refused cause → s.2 = anchor) := by
    intro r k' ahead firm decided
    refine leads_bind (leads_mark (leads_bind (leads_beside ((firm k').mono ?_ ?_))))
    · exact fun _ _ _ => leads_pure ⟨decided, rfl⟩
    · rintro e k'' ⟨what, rfl⟩ cause ⟨⟩
  refine leads_bind (leads_beside ?_)
  unfold needRunner
  cases hrunner : k.runner with
  | none => exact leads_look_error (by rw [hrunner]; rfl) fun _ _ => rfl
  | some cur =>
      refine leads_look_ok (a := cur) (by rw [hrunner]) (leads_bind (leads_read ?_))
      show Leads (if periodAhead anchor period k.now = true then _ else _ : Routine _ Bool) _ _ _
      by_cases hahead : periodAhead anchor period k.now = true
      · rw [if_pos hahead]
        refine leads_bind (leads_beside (leads_any _ (fun _ k' => ?_) fun _ _ _ _ => rfl))
        exact hrest k' firm_switch hahead.symm
      · rw [if_neg hahead]
        exact hrest k firm_cede (Bool.eq_false_iff.mpr hahead).symm

/-- A pause that is answered is a call that is. -/
theorem attempt_pausePeriod {ahead : Bool} {next : Tick} {m : Machine Kernel}
    (paused : pausePeriod anchor period ⟨k, p⟩ = .ok (ahead, next) m) :
    attempt (Call.pausePeriod anchor period).run ⟨k, p⟩ = .ok (.ok (.anchored ahead next)) m := by
  simp only [attempt, Call.run, bind, EStateM.bind, paused]
  rfl

/-- A pause that is answered is the pause of the kernel, which answers the moved anchor. -/
theorem pausePeriod_of_inPlace {ahead : Bool} {m : Machine (Kernel × Tick)}
    (done : pauseInPlace period ⟨(k, anchor), p⟩ = .ok ahead m) :
    pausePeriod anchor period ⟨k, p⟩ = .ok (ahead, m.state.2) m.forget := by
  have hforget := forget_pauseInPlace period anchor ⟨k, p⟩
  simp only [bind, EStateM.bind] at hforget
  rw [show (⟨k, p⟩ : Machine Kernel).withGhost anchor = ⟨(k, anchor), p⟩ from rfl, done] at hforget
  exact hforget.symm

/-- A pause that is refused is refused by the kernel. -/
theorem pausePeriod_of_inPlace_refused {cause : Refusal} {m : Machine (Kernel × Tick)}
    (refused : pauseInPlace period ⟨(k, anchor), p⟩ = .error (.refused cause) m) :
    pausePeriod anchor period ⟨k, p⟩ = .error (.refused cause) m.forget := by
  have hforget := forget_pauseInPlace period anchor ⟨k, p⟩
  simp only [bind, EStateM.bind] at hforget
  rw [show (⟨k, p⟩ : Machine Kernel).withGhost anchor = ⟨(k, anchor), p⟩ from rfl, refused]
    at hforget
  exact hforget.symm

end Kernel

/-! ## Many pauses -/

/-- A call of a task that works in periods: a pause until the end of the present one, or
    any other call by anyone. -/
inductive PacedCall where
  | pause (period : Tick)
  | other (c : Call)
  deriving DecidableEq, Repr

namespace PacedCall

/-- The routine that such a call names; a pause answers whether the end lay ahead. -/
def run : PacedCall → Routine (Kernel × Tick) (Option Bool)
  | pause period => do return some (← Kernel.pauseInPlace period)
  | other c => do
      let _ ← beside c.run
      return none

/-- The number of ticks that it lets pass. -/
def ticks : PacedCall → Nat
  | pause _ => 0
  | other c => c.ticks

/-- The number of ticks that it takes the anchor on by, once it is answered so. -/
def paid : PacedCall → Except Refusal (Option Bool) → Nat
  | pause period, .ok _ => period.toNat
  | pause _, .error _ => 0
  | other _, _ => 0

/-- Run a history of such calls; a refusal is answered like anything else. -/
def perform : List PacedCall → Routine (Kernel × Tick) (List (Except Refusal (Option Bool)))
  | [] => return []
  | c :: rest => do
      let r ← attempt c.run
      return r :: (← perform rest)

variable {c : PacedCall} {k : Kernel} {anchor : Tick} {p : Platform} {n : Nat}

/-- One such call is a call of the kernel, and takes the anchor on by what it has paid. -/
theorem of_attempt {r : Except Refusal (Option Bool)} {m : Machine (Kernel × Tick)}
    (ran : attempt c.run ⟨(k, anchor), p⟩ = .ok r m) : m.state.2 = anchor + UInt32.ofNat (c.paid r)
      ∧ ∃ (call : Call) (r' : Except Refusal Reply), call.ticks = c.ticks
        ∧ attempt call.run ⟨k, p⟩ = .ok r' m.forget := by
  cases c with
  | pause period =>
      rcases of_attempt_ok ran with ⟨answer, rfl, hdone⟩ | ⟨cause, rfl, hrefused⟩
      · obtain ⟨ahead, m', hpause, hanswer⟩ := of_bind_ok hdone
        obtain ⟨-, rfl⟩ := EStateM.Result.ok.inj hanswer
        obtain ⟨-, hanchor⟩ := (Kernel.leads_pauseInPlace k anchor period).ok hpause
        have hkernel := Kernel.pausePeriod_of_inPlace hpause
        refine ⟨?_, .pausePeriod anchor period, _, rfl, Kernel.attempt_pausePeriod hkernel⟩
        show _ = anchor + UInt32.ofNat period.toNat
        rw [UInt32.ofNat_toNat]
        exact hanchor
      · -- a pause that is refused does not move the anchor, so nothing is paid
        rcases of_bind_error hrefused with hpause | ⟨ahead, m', -, ⟨⟩⟩
        have hanchor := (Kernel.leads_pauseInPlace k anchor period).error hpause cause rfl
        have hkernel := Kernel.pausePeriod_of_inPlace_refused hpause
        refine ⟨hanchor.trans (UInt32.add_zero _).symm, .pausePeriod anchor period, .error cause,
          rfl, ?_⟩
        simp only [attempt, Call.run, bind, EStateM.bind, hkernel]
  | other call =>
      rcases of_attempt_ok ran with ⟨answer, rfl, hdone⟩ | ⟨cause, rfl, hrefused⟩
      · obtain ⟨reply, m', hcall, hanswer⟩ := of_bind_ok hdone
        obtain ⟨-, rfl⟩ := EStateM.Result.ok.inj hanswer
        obtain ⟨hran, hanchor⟩ := of_beside_ok hcall
        have hkernel : call.run ⟨k, p⟩ = .ok reply m'.forget := hran
        refine ⟨hanchor.trans (UInt32.add_zero _).symm, call, .ok reply, rfl, ?_⟩
        simp only [attempt, hkernel]
      · rcases of_bind_error hrefused with hcall | ⟨reply, m', -, ⟨⟩⟩
        obtain ⟨hran, hanchor⟩ := of_beside_error hcall
        have hkernel : call.run ⟨k, p⟩ = .error (.refused cause) m.forget := hran
        refine ⟨hanchor.trans (UInt32.add_zero _).symm, call, .error cause, rfl, ?_⟩
        simp only [attempt, hkernel]

/-- A history of such calls lets its ticks pass, and takes the anchor on by all that it has
    paid. -/
theorem perform_paid {calls : List PacedCall} {rs : List (Except Refusal (Option Bool))}
    {m : Machine (Kernel × Tick)} (reachable : Kernel.ReachableAt n k)
    (ran : perform calls ⟨(k, anchor), p⟩ = .ok rs m) :
    rs.length = calls.length ∧ m.state.2 = anchor + UInt32.ofNat (List.zipWith paid calls rs).sum
      ∧ Kernel.ReachableAt (n + (calls.map ticks).sum) m.state.1 := by
  induction calls generalizing n k anchor p rs with
  | nil =>
      obtain ⟨rfl, rfl⟩ := EStateM.Result.ok.inj ran
      exact ⟨rfl, (UInt32.add_zero _).symm, reachable⟩
  | cons c rest ih =>
      obtain ⟨r, m₁, hfirst, hrest⟩ := of_bind_ok ran
      obtain ⟨rs', m₂, hothers, hdone⟩ := of_bind_ok hrest
      obtain ⟨rfl, rfl⟩ := EStateM.Result.ok.inj hdone
      obtain ⟨hanchor, call, r', hticks, hcall⟩ := of_attempt hfirst
      obtain ⟨hlength, hpaid, hreachable⟩ := ih (reachable.call call hcall) hothers
      refine ⟨congrArg Nat.succ hlength, ?_, ?_⟩
      · rw [hpaid, hanchor, List.zipWith_cons_cons, List.sum_cons, UInt32.ofNat_add,
          UInt32.add_assoc]
      · rw [List.map_cons, List.sum_cons, ← Nat.add_assoc, ← hticks]
        exact hreachable

end PacedCall

namespace Kernel

variable {k : Kernel}

/-! ## No drift -/

/-- Periods are decided in unbounded time and do not drift.  A reachable kernel has a time.
    To pause with the anchor beside the kernel is to pause and to keep the anchor that the
    pause answers.
    A periodic pause that is answered tells whether the latest time that the counter showed
    as the anchor, and a period, is after that time, and takes the anchor on by the period in
    both cases; one that is refused leaves the anchor and the kernel as they were.  After any
    history of pauses and other calls the anchor is the first one and the periods of all the
    pauses that were answered. -/
theorem periods_do_not_drift (reachable : Reachable k) (p : Platform) :
    (∃ n, ReachableAt n k)
      ∧ (∀ anchor period,
        forgetEnd ((do
            let ahead ← pauseInPlace period
            return (ahead, (← read).2)) ⟨(k, anchor), p⟩)
          = pausePeriod anchor period ⟨k, p⟩)
      ∧ ∀ n anchor, ReachableAt n k →
        (∀ period ahead m, pauseInPlace period ⟨(k, anchor), p⟩ = .ok ahead m →
            (∃ latest, IsGreatest (shownUntil n anchor) latest
              ∧ (ahead = true ↔ n < latest + period.toNat))
            ∧ m.state.2 = anchor + period)
          ∧ (∀ period cause m, pauseInPlace period ⟨(k, anchor), p⟩ = .error (.refused cause) m →
            m.state = (k, anchor))
          ∧ ∀ calls rs m, PacedCall.perform calls ⟨(k, anchor), p⟩ = .ok rs m →
            rs.length = calls.length
              ∧ m.state.2 = anchor + UInt32.ofNat (List.zipWith PacedCall.paid calls rs).sum
              ∧ ReachableAt (n + (calls.map PacedCall.ticks).sum) m.state.1 := by
  obtain ⟨hintact, -⟩ := reachable.intact
  refine ⟨reachable.timed, fun anchor period => forget_pauseInPlace period anchor ⟨k, p⟩,
    fun n anchor before => ⟨?answered, ?refused, ?history⟩⟩
  case answered =>
    intro period ahead m done
    obtain ⟨hahead, hanchor⟩ := (leads_pauseInPlace k anchor period).ok done
    have hlatest := isGreatest_shownUntil n anchor
    refine ⟨⟨_, hlatest, ?_⟩, hanchor⟩
    rw [hahead, before.now]
    exact periodAhead_iff_latest hlatest period
  case refused =>
    intro period cause m refused
    exact (hintact.clean_pauseInPlace anchor period p cause m refused).1
  case history => exact fun calls rs m ran => PacedCall.perform_paid before ran

/-- The counter wraps between an anchor and a pause of three ticks that begins there, and
    the last of them lies ahead.  The pauses after that are one of no length, and one that is
    refused while scheduling is suspended; the anchor is three ticks on in the end. -/
theorem periods_do_not_drift_across_wrap :
    ∃ (k : Kernel) (m m' : Machine (Kernel × Tick)) (rs : List (Except Refusal (Option Bool))),
      ReachableAt (2 ^ 32 + 1) k ∧ pauseInPlace 3 ⟨(k, 0xFFFFFFFF), {}⟩ = .ok true m
        ∧ (∃ latest, IsGreatest (shownUntil (2 ^ 32 + 1) 0xFFFFFFFF) latest
          ∧ 2 ^ 32 + 1 < latest + 3)
        ∧ m.state.2 = 2 ∧ pausePeriod 0xFFFFFFFF 3 ⟨k, {}⟩ = .ok (true, 2) m.forget
        ∧ PacedCall.perform [.pause 3, .other .tick, .other .switch, .pause 0, .other .freezeAll,
          .pause 5] ⟨(k, 0xFFFFFFFF), {}⟩ = .ok rs m'
        ∧ rs = [.ok true, .ok none, .ok none, .ok false, .ok none, .error .schedulerFrozen]
        ∧ m'.state.2 = 2 := by
  have hvalid : ({ firstTick := 0xFFFFFFFE } : Settings).Valid := by decide
  let calls : List Call := [.create { name := "worker", priority := 1 }, .start 0, .elapse 3]
  let paced : List PacedCall := [.pause 3, .other .tick, .other .switch, .pause 0,
    .other .freezeAll, .pause 5]
  have hdone : isDone (do
      let _ ← perform calls
      let k ← read
      if isDone (do
            if (← pauseInPlace 3) = true then pure () else refuse .invalidState)
              ⟨(k, 0xFFFFFFFF), {}⟩ = true
          ∧ isDone (do
            if (← PacedCall.perform paced) = [.ok true, .ok none, .ok none, .ok false, .ok none,
              .error .schedulerFrozen] then pure () else refuse .invalidState)
              ⟨(k, 0xFFFFFFFF), {}⟩ = true then
        pure ()
      else
        refuse .invalidState) ⟨initial { firstTick := 0xFFFFFFFE }, {}⟩ = true := by
    decide +kernel
  obtain ⟨⟨⟩, n, hrun⟩ := of_isDone hdone
  obtain ⟨rs₀, m₀, hstarted, hrun⟩ := of_bind_ok hrun
  obtain ⟨k, m₁, hread, hrun⟩ := of_bind_ok hrun
  obtain ⟨rfl, rfl⟩ := EStateM.Result.ok.inj hread
  obtain ⟨⟨hpause, hpaced⟩, -⟩ := of_unless_ok hrun
  obtain ⟨⟨⟩, m₂, hpause⟩ := of_isDone hpause
  obtain ⟨ahead, m, hpause, hahead⟩ := of_bind_ok hpause
  obtain ⟨rfl, -⟩ := of_unless_ok hahead
  obtain ⟨⟨⟩, m₃, hpaced⟩ := of_isDone hpaced
  obtain ⟨rs, m', hpaced, hanswers⟩ := of_bind_ok hpaced
  obtain ⟨rfl, -⟩ := of_unless_ok hanswers
  have hinitial : ReachableAt (0xFFFFFFFE : Tick).toNat
      (⟨initial { firstTick := 0xFFFFFFFE }, {}⟩ : Machine Kernel).state := .initial hvalid
  have hreachable : ReachableAt (2 ^ 32 + 1) m₀.state := hinitial.perform hstarted
  obtain ⟨-, -, hperiods⟩ := periods_do_not_drift hreachable.reachable {}
  obtain ⟨hanswered, -, hhistory⟩ := hperiods _ 0xFFFFFFFF hreachable
  obtain ⟨⟨latest, hlatest, hiff⟩, hanchor⟩ := hanswered 3 true m hpause
  obtain ⟨-, hsum, -⟩ := hhistory paced _ m' hpaced
  have hkernel := pausePeriod_of_inPlace hpause
  rw [hanchor] at hkernel
  exact ⟨m₀.state, m, m', _, hreachable, hpause, ⟨latest, hlatest, hiff.mp rfl⟩, hanchor, hkernel,
    hpaced, rfl, hsum.trans (by decide)⟩

end Kernel

end PriorityScheduler
