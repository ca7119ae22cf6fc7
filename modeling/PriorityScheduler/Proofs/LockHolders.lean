import PriorityScheduler.Proofs.MissedTicks
import PriorityScheduler.Proofs.Reachability

/-! # What holders of the lock leave behind

    Task code holds the lock of a shared kernel in one of two ways.  It waits for the
    lock, or it tries for it and does its work if the lock was free.  Both run the same
    inner calls on the same kernel, and meanwhile the same ticks are missed.

    Work that was waited for ends by letting the missed ticks pass, after all inner calls.
    Work that was tried for gives the lock back at once: the kernel is left as the inner
    calls leave it, and the ticks stay counted until someone else lets them pass.  Work
    that is waited for next does, even if it does nothing else, and comes to where the
    first would have come had it been waited for. -/

namespace PriorityScheduler

open Routine

namespace Kernel

variable {k : Kernel}

/-! ## Kernels that are shared -/

/-- The kernels that a shared kernel may hold: new ones of valid settings, and those that
    calls lead to, or the mark that is left when missed ticks ask for a switch. -/
inductive Shareable : Kernel → Prop where
  | initial {s : Settings} (valid : s.Valid) : Shareable (initial s)
  | call {k : Kernel} (c : Call) {p : Platform} {r : Except Refusal Reply} {m : Machine Kernel}
      (before : Shareable k) (ran : attempt c.run ⟨k, p⟩ = .ok r m) : Shareable m.state
  | marked {k : Kernel} (before : Shareable k) : Shareable k.wantSwitch

/-- Every reachable kernel may be shared. -/
theorem Reachable.shareable (reachable : Reachable k) : Shareable k := by
  induction reachable with
  | initial valid => exact .initial valid
  | call c _ ran ih => exact .call c ih ran

theorem Shareable.intact (shareable : Shareable k) : k.Intact ∧ k.outline.Sound := by
  induction shareable with
  | initial valid => exact (Reachable.initial valid).intact
  | call c before ran ih =>
      obtain ⟨hintact, hsound, -⟩ := ih.1.of_call ih.2 ran
      exact ⟨hintact, hsound⟩
  | marked before ih =>
      obtain ⟨hintact, hmarked⟩ := ih.1.wantSwitchIf true
      refine ⟨hintact, ?_⟩
      have hsound := ih.2.wantSwitchIf true
      rw [← hmarked] at hsound
      exact hsound

/-- No tick fails on a kernel that may be shared. -/
theorem Shareable.elapse_done (shareable : Shareable k) (ticks : Tick) (p : Platform) :
    ∃ asked m, elapse ticks ⟨k, p⟩ = .ok asked m := by
  obtain ⟨hintact, hsound⟩ := shareable.intact
  obtain ⟨m, hdone, -⟩ := (hintact.enacts_elapseFrom hsound ticks.toNat false).of_ok rfl p
  exact ⟨_, m, hdone⟩

end Kernel

namespace SharedKernel

variable {k : Kernel} {s : SharedKernel}

/-! ## Under the lock -/

/-- The lock is taken, and the kernel inside is one that may be shared. -/
def Housed (s : SharedKernel) : Prop :=
  s.locked = true ∧ ∃ k, s.kernel = some k ∧ k.Shareable

/-- A taken lock is not free. -/
theorem leads_tryLock (taken : s.locked = true) :
    Leads tryLock s (fun free s' => free = false ∧ s' = s) (fun _ _ => False) := by
  refine leads_bind (leads_read ?_)
  rw [if_pos taken]
  exact leads_pure ⟨rfl, rfl⟩

/-- No inner call gives the lock back or takes the kernel out. -/
theorem leads_inner (housed : Housed s) (c : InnerCall) :
    Yields c.run s fun _ s' => Housed s' := by
  obtain ⟨htaken, k, hinside, hshareable⟩ := housed
  have hmissed : Housed { s with missed := s.missed + 1 } := ⟨htaken, k, hinside, hshareable⟩
  cases c with
  | kernel c =>
      refine leads_bind ?_
      intro p
      simp only [Ends, onKernel, hinside]
      cases hr : attempt c.run ⟨k, p⟩ with
      | ok r m => exact leads_pure ⟨htaken, m.state, rfl, .call c hshareable hr⟩
      | error e m => trivial
  | interrupt =>
      refine yields_bind (Q := fun _ s' => Housed s') ?_ fun _ _ => fun housed => leads_pure housed
      refine leads_bind ((leads_tryLock htaken).mono ?_ fun _ _ _ => trivial)
      rintro free s' ⟨rfl, rfl⟩
      exact leads_bind (leads_update (leads_pure hmissed))
  | interruptAndSwitch =>
      refine yields_bind (Q := fun _ s' => Housed s') ?_ fun _ _ => fun housed => leads_pure housed
      refine leads_bind ((leads_tryLock htaken).mono ?_ fun _ _ _ => trivial)
      rintro free s' ⟨rfl, rfl⟩
      exact leads_bind (leads_update (leads_pure hmissed))
  | tryWith body =>
      -- the attempt finds the lock taken, so its body is not run
      refine yields_bind (Q := fun _ s' => Housed s') ?_ fun _ _ => fun housed => leads_pure housed
      refine leads_bind (leads_bind ((leads_tryLock htaken).mono ?_ fun _ _ _ => trivial))
      rintro free s' ⟨rfl, rfl⟩
      exact leads_pure (leads_pure ⟨htaken, k, hinside, hshareable⟩)

theorem leads_innerAll (housed : Housed s) (body : List InnerCall) :
    Yields (InnerCall.runAll body) s fun _ s' => Housed s' := by
  induction body generalizing s with
  | nil => exact leads_pure housed
  | cons c rest ih => exact yields_bind (leads_inner housed c) fun _ _ housed' => ih housed'

/-- Inner calls that are done leave the lock taken, a kernel inside that may be shared, and
    count the ticks that hit the lock. -/
theorem innerAll_ok (shareable : k.Shareable) {missed : UInt32} {p : Platform}
    {body : List InnerCall} {n : Machine SharedKernel}
    (done : InnerCall.runAll body ⟨⟨some k, true, missed⟩, p⟩ = .ok () n) :
    ∃ k', k'.Shareable ∧ n.state
      = ⟨some k', true, missed + UInt32.ofNat (body.countP InnerCall.isInterrupt)⟩ := by
  obtain ⟨t, htallied⟩ := (Tallied.forgets_innerAll body).of_ok done {}
  obtain ⟨k', hheld⟩ := (Tallied.yields_innerAll body k missed {}).ok htallied
  obtain ⟨hstate, -⟩ := Prod.mk.inj hheld
  obtain ⟨-, k'', hinside, hshareable⟩ :=
    (leads_innerAll (s := ⟨some k, true, missed⟩) ⟨rfl, k, rfl, shareable⟩ body).ok done
  rw [show n.state = _ from hstate] at hinside
  obtain rfl := Option.some.inj hinside
  exact ⟨k', hshareable, hstate⟩

/-! ## The two ways to hold the lock -/

/-- The shared kernel after ticks have been let pass on the kernel inside, with the lock free
    and none missed. -/
def caughtUp (asked : Bool) (m : Machine Kernel) : Machine SharedKernel :=
  ⟨⟨some (m.state.wantSwitchIf asked), false, 0⟩, m.platform⟩

/-- Work that was waited for ends with the missed ticks, if the inner calls are done. -/
theorem withKernel_done {body : List InnerCall} {k' : Kernel} {missed late : UInt32}
    {p q : Platform} {asked : Bool} {m : Machine Kernel}
    (done : InnerCall.runAll body ⟨⟨some k, true, missed⟩, p⟩ = .ok () ⟨⟨some k', true, late⟩, q⟩)
    (elapsed : Kernel.elapse late ⟨k', q⟩ = .ok asked m) :
    (SharedCall.withKernel body).run ⟨⟨some k, false, missed⟩, p⟩
      = .ok (.ran true) (caughtUp asked m) := by
  have hleft : leave ⟨⟨some k', true, late⟩, q⟩ = .ok () (caughtUp asked m) := by
    show (applyMissed >>= fun _ => unlock) _ = _
    simp only [bind, EStateM.bind, applyMissed_eq, elapsed]
    rfl
  show ((InnerCall.runAll body >>= fun a => leave >>= fun _ => pure (some a)) >>=
    fun r => pure (SharedReply.ran r.isSome)) (⟨⟨some k, true, missed⟩, p⟩ : Machine SharedKernel) = _
  simp only [bind, EStateM.bind, done, hleft]
  rfl

/-- Work that was tried for ends with its inner calls, if they are done. -/
theorem tryWithKernel_done {body : List InnerCall} {k' : Kernel} {missed late : UInt32}
    {p q : Platform}
    (done : InnerCall.runAll body ⟨⟨some k, true, missed⟩, p⟩ = .ok () ⟨⟨some k', true, late⟩, q⟩) :
    (SharedCall.tryWithKernel body).run ⟨⟨some k, false, missed⟩, p⟩
      = .ok (.ran true) ⟨⟨some k', false, late⟩, q⟩ := by
  show ((InnerCall.runAll body >>= fun a => unlock >>= fun _ => pure (some a)) >>=
    fun r => pure (SharedReply.ran r.isSome)) (⟨⟨some k, true, missed⟩, p⟩ : Machine SharedKernel) = _
  simp only [bind, EStateM.bind, done]
  rfl

/-- Work under the lock fails where its inner calls fail. -/
theorem holders_fail {body : List InnerCall} {missed : UInt32} {p : Platform} {e : Failure}
    {n : Machine SharedKernel}
    (failed : InnerCall.runAll body ⟨⟨some k, true, missed⟩, p⟩ = .error e n) :
    (SharedCall.withKernel body).run ⟨⟨some k, false, missed⟩, p⟩ = .error e n
      ∧ (SharedCall.tryWithKernel body).run ⟨⟨some k, false, missed⟩, p⟩ = .error e n := by
  constructor
  · show ((InnerCall.runAll body >>= fun a => leave >>= fun _ => pure (some a)) >>=
      fun r => pure (SharedReply.ran r.isSome)) (⟨⟨some k, true, missed⟩, p⟩ : Machine SharedKernel) = _
    simp only [bind, EStateM.bind, failed]
  · show ((InnerCall.runAll body >>= fun a => unlock >>= fun _ => pure (some a)) >>=
      fun r => pure (SharedReply.ran r.isSome)) (⟨⟨some k, true, missed⟩, p⟩ : Machine SharedKernel) = _
    simp only [bind, EStateM.bind, failed]

/-- Ticks that hit the lock are let pass by work that was waited for, and held over by work
    that was tried for.  Let the lock be free and a kernel be inside, and let the same inner
    calls be run both ways.  They halt both ways or none.  If they do not, the ticks among them
    are counted beside those that were missed before, and work that was waited for then lets
    all of them pass on the kernel that the inner calls leave, so that none is missed.  Work
    that was tried for leaves that kernel and the count as they are; empty work that is waited
    for next makes up for it. -/
theorem ticks_held_over_by_try (shareable : k.Shareable) (missed : UInt32) (p : Platform)
    (body : List InnerCall) :
    (∃ e n, InnerCall.runAll body ⟨⟨some k, true, missed⟩, p⟩ = .error e n
        ∧ (SharedCall.withKernel body).run ⟨⟨some k, false, missed⟩, p⟩ = .error e n
        ∧ (SharedCall.tryWithKernel body).run ⟨⟨some k, false, missed⟩, p⟩ = .error e n)
      ∨ ∃ k' late q asked m, k'.Shareable
        ∧ late = missed + UInt32.ofNat (body.countP InnerCall.isInterrupt)
        ∧ InnerCall.runAll body ⟨⟨some k, true, missed⟩, p⟩ = .ok () ⟨⟨some k', true, late⟩, q⟩
        ∧ Kernel.elapse late ⟨k', q⟩ = .ok asked m
        ∧ (SharedCall.withKernel body).run ⟨⟨some k, false, missed⟩, p⟩
          = .ok (.ran true) (caughtUp asked m)
        ∧ (SharedCall.tryWithKernel body).run ⟨⟨some k, false, missed⟩, p⟩
          = .ok (.ran true) ⟨⟨some k', false, late⟩, q⟩
        ∧ (SharedCall.withKernel []).run ⟨⟨some k', false, late⟩, q⟩
          = .ok (.ran true) (caughtUp asked m) := by
  cases hbody : InnerCall.runAll body ⟨⟨some k, true, missed⟩, p⟩ with
  | error e n =>
      obtain ⟨hwith, htry⟩ := holders_fail hbody
      exact Or.inl ⟨e, n, rfl, hwith, htry⟩
  | ok u n =>
      obtain ⟨k', hshareable, hstate⟩ := innerAll_ok shareable hbody
      obtain ⟨state, q⟩ := n
      obtain rfl : state = _ := hstate
      -- the ticks never fail, so work that was waited for ends as well
      obtain ⟨asked, m, helapsed⟩ := hshareable.elapse_done
        (missed + UInt32.ofNat (body.countP InnerCall.isInterrupt)) q
      -- work of no calls finds the ticks that are left over
      have hidle : ∀ late, InnerCall.runAll [] ⟨⟨some k', true, late⟩, q⟩
          = .ok () ⟨⟨some k', true, late⟩, q⟩ := fun _ => rfl
      exact Or.inr ⟨k', _, q, asked, m, hshareable, rfl, rfl, helapsed,
        withKernel_done hbody helapsed, tryWithKernel_done hbody,
        withKernel_done (hidle _) helapsed⟩

/-- Two ticks hit the lock while a worker is made.  Work that was waited for lets both pass
    before it gives the lock back; work that was tried for leaves the worker and both ticks,
    and the clock where it was. -/
theorem ticks_held_over_by_try_two :
    let body : List InnerCall := [.kernel (.create { name := "worker", priority := 1 }),
      .interrupt, .tryWith [.interrupt], .interruptAndSwitch]
    ∃ k' q asked m, k'.table.liveCount = 1 ∧ k'.now = 0
      ∧ Kernel.elapse 2 ⟨k', q⟩ = .ok asked m
      ∧ (SharedCall.withKernel body).run ⟨⟨some (Kernel.initial {}), false, 0⟩, {}⟩
        = .ok (.ran true) (caughtUp asked m)
      ∧ (SharedCall.tryWithKernel body).run ⟨⟨some (Kernel.initial {}), false, 0⟩, {}⟩
        = .ok (.ran true) ⟨⟨some k', false, 2⟩, q⟩
      ∧ (SharedCall.withKernel []).run ⟨⟨some k', false, 2⟩, q⟩
        = .ok (.ran true) (caughtUp asked m) := by
  intro body
  have hvalid : ({} : Settings).Valid := by decide
  have hdone : isDone (do
      InnerCall.runAll body
      let s ← read
      if s.kernel.any (fun k => k.table.liveCount = 1 ∧ k.now = 0) = true then
        pure ()
      else
        refuse .invalidState) ⟨⟨some (Kernel.initial {}), true, 0⟩, {}⟩ = true := by
    decide +kernel
  obtain ⟨⟨⟩, n, hrun⟩ := of_isDone hdone
  obtain ⟨⟨⟩, n', hbody, hrun⟩ := of_bind_ok hrun
  obtain ⟨s, n'', hread, hrun⟩ := of_bind_ok hrun
  obtain ⟨rfl, rfl⟩ := EStateM.Result.ok.inj hread
  obtain ⟨hleft, -⟩ := of_unless_ok hrun
  rcases ticks_held_over_by_try (.initial hvalid) 0 {} body with
    ⟨e, m, hfailed, -, -⟩ | ⟨k', late, q, asked, m, -, rfl, hsame, helapsed, hwith, htry, hnext⟩
  · rw [hbody] at hfailed
    cases hfailed
  · rw [hbody] at hsame
    obtain ⟨-, rfl⟩ := EStateM.Result.ok.inj hsame
    obtain ⟨hlive, hnow⟩ := of_decide_eq_true hleft
    exact ⟨k', q, asked, m, hlive, hnow, helapsed, hwith, htry, hnext⟩

end SharedKernel

end PriorityScheduler
