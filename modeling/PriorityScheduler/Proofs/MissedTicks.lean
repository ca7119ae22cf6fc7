import Mathlib.Algebra.Order.Ring.Nat
import PriorityScheduler.Proofs.Tally

/-! # No tick is lost and none is passed twice

    A tick that is asked for is passed on to the kernel inside, or is counted among
    the missed ones if the lock is taken.  What is missed is passed on, all of it
    and once, by the next end of work under the lock, by the next tick that finds
    the lock free, or by the next switch that task code makes.

    While the lock is held, inner calls find it taken; so they add to the missed
    ticks and pass none on.  Between calls the lock is free, and the ticks asked
    for are as many as those passed on and those missed, modulo the range of the
    counter. -/

namespace PriorityScheduler

open Routine

/-- Whether an inner call is the timer interrupt. -/
def InnerCall.isInterrupt : InnerCall → Bool
  | .interrupt => true
  | .interruptAndSwitch => true
  | _ => false

namespace Tallied

variable {α : Type} {s : SharedKernel} {t : Tally} {k : Kernel}

/-! ## Ticks of the kernel inside -/

theorem yields_tick (k : Kernel) (t : Tally) :
    Yields tick (k, t) fun _ x => x.2 = t.pass 1 := by
  refine yields_bind (Q := fun _ x => x.2 = t) ?_ ?_
  · exact leads_beside (leads_any _ (fun _ _ => rfl) fun _ _ => trivial)
  · rintro asked ⟨k', t'⟩ rfl
    exact leads_bind (leads_mark (leads_pure rfl))

/-- The ticks of a loop are counted one after the other. -/
theorem yields_elapseFrom (n : Nat) (asked : Bool) (k : Kernel) (t : Tally) :
    Yields (elapseFrom asked n) (k, t) fun _ x => x.2 = t.pass n := by
  induction n generalizing asked k t with
  | zero => exact leads_pure rfl
  | succ n ih =>
      refine yields_bind (yields_tick k t) ?_
      rintro now ⟨k', t'⟩ rfl
      have hsum : (t.pass 1).pass n = t.pass (n + 1) := by
        simp only [Tally.pass]
        rw [Nat.add_assoc, Nat.add_comm 1 n]
      rw [← hsum]
      exact ih (asked || now) k' (t.pass 1)

/-- A routine on the kernel inside leaves the lock and the missed ticks alone. -/
theorem yields_onKernel {body : Routine (Kernel × Tally) α} {P : α → Tally → Prop}
    (inside : s.kernel = some k) (h : Yields body (k, t) fun a x => P a x.2) :
    Yields (onKernel body) (s, t) fun r x =>
      ∃ a k', r = some a ∧ x.1 = { s with kernel := some k' } ∧ P a x.2 := by
  intro p
  have hp := h p
  simp only [Ends, onKernel, inside] at hp ⊢
  cases hr : body ⟨(k, t), p⟩ with
  | ok a n =>
      rw [hr] at hp
      exact ⟨a, n.state.1, rfl, rfl, hp⟩
  | error e n => trivial

/-- A routine of the kernel inside is not counted. -/
theorem yields_onKernel_beside {body : Routine Kernel α} (inside : s.kernel = some k) :
    Yields (onKernel (beside body)) (s, t) fun _ x =>
      ∃ k', x = ({ s with kernel := some k' }, t) := by
  have hbody : Yields (beside body) (k, t) fun _ x => x.2 = t :=
    leads_beside (leads_any _ (fun _ _ => rfl) fun _ _ => trivial)
  refine (yields_onKernel inside (P := fun _ t' => t' = t) hbody).mono ?_ fun _ _ => id
  rintro r ⟨s', t'⟩ ⟨a, k', -, rfl, rfl⟩
  exact ⟨k', rfl⟩

/-- The missed ticks are taken over, and none is left. -/
theorem yields_takeMissed (s : SharedKernel) (t : Tally) :
    Yields (beside SharedKernel.takeMissed) (s, t) fun missed x =>
      missed = s.missed ∧ x = ({ s with missed := 0 }, t) :=
  leads_beside (leads_bind (leads_read (leads_bind (leads_update (leads_pure ⟨rfl, rfl⟩)))))

/-- The missed ticks are passed on, all of them. -/
theorem yields_applyMissed (inside : s.kernel = some k) :
    Yields applyMissed (s, t) fun _ x =>
      ∃ k', x = ({ s with kernel := some k', missed := 0 }, t.pass s.missed.toNat) := by
  refine yields_bind (yields_takeMissed s t) ?_
  rintro missed ⟨s', t'⟩ ⟨rfl, hx⟩
  obtain ⟨rfl, rfl⟩ := Prod.mk.inj hx
  by_cases hnone : s.missed = 0
  · rw [if_pos hnone]
    refine leads_pure ⟨k, ?_⟩
    rw [hnone, ← inside]
    rfl
  · rw [if_neg hnone]
    have hbody : Yields (elapse s.missed >>= fun asked =>
        if asked = true then beside (update Kernel.wantSwitch) else pure ()) (k, t')
          fun _ x => x.2 = t'.pass s.missed.toNat := by
      refine yields_bind (yields_elapseFrom _ _ k t') ?_
      rintro asked ⟨k', t''⟩ rfl
      cases asked with
      | true => exact leads_beside (leads_update rfl)
      | false => exact leads_pure rfl
    refine yields_bind (yields_onKernel (s := { s with missed := 0 }) inside
      (P := fun _ t'' => t'' = t'.pass s.missed.toNat) hbody) ?_
    rintro r ⟨s', t''⟩ ⟨a, k', -, rfl, rfl⟩
    exact leads_pure ⟨k', rfl⟩

/-- A tick is passed on, after those that were missed before it. -/
theorem yields_passTick (inside : s.kernel = some k) :
    Yields passTick (s, t) fun _ x =>
      ∃ k', x = ({ s with kernel := some k', missed := 0 }, t.pass (s.missed.toNat + 1)) := by
  refine leads_bind (leads_beside (leads_read ?_))
  rw [if_neg (by rw [inside]; exact Bool.false_ne_true)]
  refine yields_bind (yields_takeMissed s t) ?_
  rintro missed ⟨s', t'⟩ ⟨rfl, hx⟩
  obtain ⟨rfl, rfl⟩ := Prod.mk.inj hx
  have hbody : Yields (elapse s.missed >>= fun before => tick >>= fun now =>
      pure (before || now)) (k, t') fun _ x => x.2 = t'.pass (s.missed.toNat + 1) := by
    refine yields_bind (yields_elapseFrom _ _ k t') ?_
    rintro before ⟨k', t''⟩ rfl
    refine yields_bind (yields_tick k' _) ?_
    rintro now ⟨k'', t''⟩ rfl
    exact leads_pure rfl
  refine (yields_onKernel (s := { s with missed := 0 }) inside
    (P := fun _ t'' => t'' = t'.pass (s.missed.toNat + 1)) hbody).mono ?_ fun _ _ => id
  rintro r ⟨s', t''⟩ ⟨a, k', -, rfl, rfl⟩
  exact ⟨k', rfl⟩

/-! ## The timer interrupt -/

/-- What becomes of a tick that is asked for: it comes late and is missed, or it is
    asked for in vain, or it is passed on in time, after those that were missed. -/
inductive Entry (s : SharedKernel) (t : Tally) : SharedKernel × Tally → Prop where
  | late (taken : s.locked = true) :
      Entry s t ({ s with missed := s.missed + 1 }, t.ask true)
  | vain (free : s.locked = false) (empty : s.kernel = none) : Entry s t (s, t)
  | inTime (free : s.locked = false) (inside : s.kernel.isSome = true) (k' : Kernel) :
      Entry s t (⟨some k', false, 0⟩, (t.ask true).pass (s.missed.toNat + 1))

/-- The lock is taken afterwards, and was free if the answer says so. -/
theorem yields_tryLock (s : SharedKernel) (t : Tally) :
    Yields (beside SharedKernel.tryLock) (s, t) fun free x =>
      free = !s.locked ∧ x = ({ s with locked := true }, t) := by
  obtain ⟨kernel, locked, missed⟩ := s
  refine leads_beside (leads_bind (leads_read ?_))
  cases locked with
  | true => exact leads_pure ⟨rfl, rfl⟩
  | false => exact leads_bind (leads_update (leads_pure ⟨rfl, rfl⟩))

/-- A timer interrupt that goes on to a routine if it finds the lock free. -/
theorem yields_entry {r : Routine (SharedKernel × Tally) α} (a : α)
    (h : s.locked = false →
      Yields r ({ s with locked := true }, t.ask s.kernel.isSome) fun _ x => Entry s t x) :
    Yields (do
      ask
      if ← beside SharedKernel.tryLock then
        r
      else
        beside SharedKernel.countMissed
        return a) (s, t) fun _ x => Entry s t x := by
  refine leads_bind (leads_bind (leads_beside (leads_read (leads_mark ?_))))
  refine yields_bind (yields_tryLock s _) ?_
  rintro free x ⟨rfl, rfl⟩
  obtain ⟨kernel, locked, missed⟩ := s
  cases locked with
  | true => exact leads_bind (leads_beside (leads_update (leads_pure (.late rfl))))
  | false => exact h rfl

/-- The lock is given back after work that passed the ticks on. -/
theorem yields_unlock {a : α} (s : SharedKernel) (t : Tally)
    {done : α → SharedKernel × Tally → Prop} (h : done a ({ s with locked := false }, t)) :
    Yields (do beside SharedKernel.unlock; return a) (s, t) done :=
  leads_bind (leads_beside (leads_update (leads_pure h)))

/-- A switch of the platform changes neither the shared kernel nor the tally. -/
theorem yields_makeSwitch (switch : Option (Option Handle × Handle)) (s : SharedKernel)
    (t : Tally) :
    Yields (beside (SharedKernel.makeSwitch switch)) (s, t) fun _ x => x = (s, t) := by
  cases switch with
  | none => exact leads_beside (leads_pure rfl)
  | some tasks => exact leads_beside (leads_switchTo rfl)

/-- Without a kernel inside no tick is passed on. -/
theorem yields_passTick_none (empty : s.kernel = none) :
    Yields passTick (s, t) fun r x => r = none ∧ x = (s, t) := by
  refine leads_bind (leads_beside (leads_read ?_))
  rw [if_pos (by rw [empty]; rfl)]
  exact leads_pure ⟨rfl, rfl⟩

theorem yields_interrupt (s : SharedKernel) (t : Tally) :
    Yields interrupt (s, t) fun _ x => Entry s t x := by
  refine yields_entry false fun free => ?_
  obtain ⟨kernel, locked, missed⟩ := s
  obtain rfl : locked = false := free
  cases kernel with
  | none =>
      refine yields_bind (yields_passTick_none rfl) ?_
      rintro asked x ⟨-, rfl⟩
      exact yields_unlock _ _ (.vain rfl rfl)
  | some k =>
      refine yields_bind (yields_passTick rfl) ?_
      rintro asked x ⟨k', rfl⟩
      exact yields_unlock _ _ (.inTime rfl rfl k')

theorem yields_interruptAndSwitch (s : SharedKernel) (t : Tally) :
    Yields interruptAndSwitch (s, t) fun _ x => Entry s t x := by
  refine yields_entry none fun free => ?_
  obtain ⟨kernel, locked, missed⟩ := s
  obtain rfl : locked = false := free
  cases kernel with
  | none =>
      refine yields_bind (yields_passTick_none rfl) ?_
      rintro asked x ⟨rfl, rfl⟩
      exact yields_unlock _ _ (.vain rfl rfl)
  | some k =>
      refine yields_bind (yields_passTick rfl) ?_
      rintro asked x ⟨k', rfl⟩
      by_cases hasked : asked.getD false = true
      · rw [if_pos hasked]
        refine yields_bind (yields_onKernel_beside rfl) ?_
        rintro switch x ⟨k'', rfl⟩
        refine leads_bind (leads_beside (leads_update ?_))
        refine yields_bind (yields_makeSwitch switch.join _ _) ?_
        rintro _ x rfl
        exact leads_pure (.inTime rfl rfl k'')
      · rw [if_neg hasked]
        exact yields_unlock _ _ (.inTime rfl rfl k')

/-! ## Task code -/

/-- The lock is asked for, and kept if there is a kernel inside. -/
theorem yields_tryEnter (s : SharedKernel) (t : Tally) :
    Yields (beside SharedKernel.tryEnter) (s, t) fun entered x =>
      entered = (!s.locked && s.kernel.isSome)
        ∧ x = ({ s with locked := s.locked || s.kernel.isSome }, t) := by
  obtain ⟨kernel, locked, missed⟩ := s
  refine leads_beside (leads_bind (leads_bind (leads_read ?_)))
  cases locked with
  | true => exact leads_pure (leads_pure ⟨rfl, rfl⟩)
  | false =>
      refine leads_bind (leads_update (leads_pure (leads_bind (leads_read ?_))))
      cases kernel with
      | none => exact leads_bind (leads_update (leads_pure ⟨rfl, rfl⟩))
      | some k => exact leads_pure ⟨rfl, rfl⟩

/-- A free lock is taken. -/
theorem yields_lock (kernel : Option Kernel) (missed : UInt32) {done : Unit → SharedKernel → Prop}
    (h : done () ⟨kernel, true, missed⟩) :
    Yields SharedKernel.lock ⟨kernel, false, missed⟩ done :=
  leads_bind (leads_bind (leads_read (leads_bind (leads_update (leads_pure (leads_pure h))))))

/-- A free lock is taken for work on the kernel inside. -/
theorem yields_enter (kernel : Option Kernel) (missed : UInt32) (t : Tally) :
    Yields (beside SharedKernel.enter) (⟨kernel, false, missed⟩, t) fun entered x =>
      entered = kernel.isSome ∧ x = (⟨kernel, kernel.isSome, missed⟩, t) := by
  refine leads_beside (leads_bind (yields_lock kernel missed (leads_bind (leads_read ?_))))
  cases kernel with
  | none => exact leads_bind (leads_update (leads_pure ⟨rfl, rfl⟩))
  | some k => exact leads_pure ⟨rfl, rfl⟩

/-! ## Inner calls -/

/-- Under the lock a number of ticks was asked for, and they were missed. -/
def Held (s : SharedKernel) (t : Tally) (n : Nat) (x : SharedKernel × Tally) : Prop :=
  ∃ k, x = ({ s with kernel := some k, missed := s.missed + UInt32.ofNat n },
    { t with asked := t.asked + n })

/-- No tick was asked for, and none is missed. -/
theorem held_zero (s : SharedKernel) (t : Tally) (k : Kernel) :
    Held s t 0 ({ s with kernel := some k }, t) :=
  ⟨k, by rw [show UInt32.ofNat 0 = 0 from rfl, UInt32.add_zero]; rfl⟩

/-- Ticks are missed one after the other. -/
theorem Held.trans {n n' : Nat} {x y : SharedKernel × Tally} (first : Held s t n x)
    (second : Held x.1 x.2 n' y) : Held s t (n + n') y := by
  obtain ⟨k, rfl⟩ := first
  obtain ⟨k', rfl⟩ := second
  refine ⟨k', ?_⟩
  rw [UInt32.ofNat_add, ← UInt32.add_assoc, ← Nat.add_assoc]

/-- An inner call finds the lock taken, so it passes no tick on. -/
theorem yields_inner (c : InnerCall) (k : Kernel) (missed : UInt32) (t : Tally) :
    Yields (inner c) (⟨some k, true, missed⟩, t) fun _ x =>
      Held ⟨some k, true, missed⟩ t c.isInterrupt.toNat x := by
  have hlate : ∀ x, Entry ⟨some k, true, missed⟩ t x → Held ⟨some k, true, missed⟩ t 1 x := by
    rintro x (_ | ⟨⟨⟩, -⟩ | ⟨⟨⟩, -⟩)
    exact ⟨k, rfl⟩
  cases c with
  | kernel c =>
      refine yields_bind (yields_onKernel_beside rfl) ?_
      rintro r x ⟨k', rfl⟩
      exact leads_pure (held_zero _ t k')
  | interrupt =>
      refine yields_bind (yields_interrupt _ t) ?_
      exact fun _ x hx => leads_pure (hlate x hx)
  | interruptAndSwitch =>
      refine yields_bind (yields_interruptAndSwitch _ t) ?_
      exact fun _ x hx => leads_pure (hlate x hx)
  | tryWith body =>
      -- the attempt finds the lock taken, so its body is not run
      refine yields_bind (Q := fun _ x => x = (⟨some k, true, missed⟩, t)) ?_ ?_
      · refine yields_bind (yields_tryEnter _ t) ?_
        rintro entered x ⟨rfl, rfl⟩
        exact leads_pure rfl
      · rintro r x rfl
        exact leads_pure (held_zero _ t k)

theorem yields_innerAll (body : List InnerCall) (k : Kernel) (missed : UInt32) (t : Tally) :
    Yields (innerAll body) (⟨some k, true, missed⟩, t) fun _ x =>
      Held ⟨some k, true, missed⟩ t (body.countP InnerCall.isInterrupt) x := by
  induction body generalizing k missed t with
  | nil => exact leads_pure (held_zero _ t k)
  | cons c rest ih =>
      refine yields_bind (yields_inner c k missed t) ?_
      rintro _ x hx
      obtain ⟨k', rfl⟩ := id hx
      refine (ih k' _ _).mono ?_ fun _ _ => id
      intro _ y hy
      have hcount : (c :: rest).countP InnerCall.isInterrupt
          = c.isInterrupt.toNat + rest.countP InnerCall.isInterrupt := by
        rw [List.countP_cons, Nat.add_comm]
        cases c.isInterrupt <;> rfl
      rw [hcount]
      exact hx.trans hy

/-! ## The balance -/

/-- The ticks asked for are those passed on and those missed, modulo the range of
    the counter. -/
def Balanced (x : SharedKernel × Tally) : Prop :=
  x.2.asked % 2 ^ 32 = (x.2.passed + x.1.missed.toNat) % 2 ^ 32

/-- The balance is kept while ticks are missed under the lock. -/
theorem Balanced.held {n : Nat} {x : SharedKernel × Tally} (balanced : Balanced (s, t))
    (held : Held s t n x) : Balanced x := by
  obtain ⟨k, rfl⟩ := held
  simp only [Balanced, UInt32.toNat_add, UInt32.toNat_ofNat'] at balanced ⊢
  omega

/-- The balance is kept when all missed ticks are passed on. -/
theorem Balanced.passed {s' : SharedKernel} (balanced : Balanced (s, t)) (none : s'.missed = 0) :
    Balanced (s', t.pass s.missed.toNat) := by
  simp only [Balanced, Tally.pass] at balanced ⊢
  rw [none, UInt32.toNat_zero]
  omega

/-- The balance is kept by the timer interrupt, whatever it finds. -/
theorem Balanced.entry {x : SharedKernel × Tally} (balanced : Balanced (s, t))
    (entry : Entry s t x) : Balanced x := by
  cases entry with
  | late taken =>
      simp only [Balanced, Tally.ask, UInt32.toNat_add] at balanced ⊢
      show (t.asked + 1) % 2 ^ 32 = (t.passed + (s.missed.toNat + 1) % 2 ^ 32) % 2 ^ 32
      omega
  | vain free empty => exact balanced
  | inTime free inside k' =>
      simp only [Balanced, Tally.ask, Tally.pass] at balanced ⊢
      show (t.asked + 1) % 2 ^ 32 = (t.passed + (s.missed.toNat + 1) + 0) % 2 ^ 32
      omega

end Tallied

/-- Whether an operation that found a free lock has let all missed ticks pass: work
    under the lock that was waited for, and was done; a switch from task code, or a
    tick, with a kernel inside. -/
def SharedCall.Settles (s : SharedKernel) (r : SharedReply) : SharedCall → Prop
  | .withKernel _ => r = .ran true
  | .interrupt => s.kernel.isSome = true
  | .interruptAndSwitch => s.kernel.isSome = true
  | .switchNow => s.kernel.isSome = true
  | _ => False

namespace Tallied

variable {s : SharedKernel} {t : Tally}

/-- An operation leaves the lock free and the ticks balanced, and no tick missed if
    it lets them pass. -/
structure Settled (s : SharedKernel) (c : SharedCall) (r : SharedReply)
    (x : SharedKernel × Tally) : Prop where
  free : x.1.locked = false
  balanced : Balanced x
  settled : c.Settles s r → x.1.missed = 0

theorem Entry.settled {c : SharedCall} {r : SharedReply} {x : SharedKernel × Tally}
    (free : s.locked = false) (balanced : Balanced (s, t)) (entry : Entry s t x)
    (inside : c.Settles s r → s.kernel.isSome = true) : Settled s c r x := by
  refine ⟨?_, balanced.entry entry, ?_⟩
  · cases entry with
    | late taken =>
        rw [free] at taken
        cases taken
    | vain free' empty => exact free'
    | inTime free' inside' k' => rfl
  · intro hsettles
    cases entry with
    | late taken =>
        rw [free] at taken
        cases taken
    | vain free' empty =>
        have hinside := inside hsettles
        rw [empty] at hinside
        cases hinside
    | inTime free' inside' k' => rfl

/-- An operation that finds the lock free and the ticks balanced leaves them so. -/
theorem yields_run (c : SharedCall) (free : s.locked = false) (balanced : Balanced (s, t)) :
    Yields (run c) (s, t) fun r x => Settled s c r x := by
  obtain ⟨kernel, locked, missed⟩ := s
  obtain rfl : locked = false := free
  -- the lock does not matter to the balance
  have htaken : Balanced (⟨kernel, true, missed⟩, t) := balanced
  cases c with
  | putIn k =>
      refine yields_bind (Q := fun _ x => x = (⟨some k, false, missed⟩, t)) (leads_beside ?_) ?_
      · refine leads_bind (yields_lock kernel missed (leads_bind (leads_read ?_)))
        exact leads_bind (leads_update (leads_bind (leads_update (leads_pure rfl))))
      · rintro old x rfl
        exact leads_pure ⟨rfl, balanced, False.elim⟩
  | takeOut =>
      refine yields_bind (Q := fun _ x => x = (⟨none, false, missed⟩, t)) (leads_beside ?_) ?_
      · refine leads_bind (yields_lock kernel missed (leads_bind (leads_read ?_)))
        exact leads_bind (leads_update (leads_bind (leads_update (leads_pure rfl))))
      · rintro old x rfl
        exact leads_pure ⟨rfl, balanced, False.elim⟩
  | withKernel body =>
      refine yields_bind (Q := fun r x => Settled ⟨kernel, false, missed⟩ (.withKernel body)
        (.ran r.isSome) x) ?_ fun r x hx => leads_pure hx
      refine yields_bind (yields_enter kernel missed t) ?_
      rintro entered x ⟨rfl, rfl⟩
      cases kernel with
      | none => exact leads_pure ⟨rfl, balanced, fun h => nomatch h⟩
      | some k =>
          refine yields_bind (yields_innerAll body k missed t) ?_
          rintro _ x hheld
          have hbalanced : Balanced x := htaken.held hheld
          obtain ⟨k', rfl⟩ := hheld
          refine leads_bind (yields_bind (yields_applyMissed rfl) ?_)
          rintro _ x ⟨k'', rfl⟩
          exact leads_beside (leads_update (leads_pure ⟨rfl, hbalanced.passed rfl, fun _ => rfl⟩))
  | tryWithKernel body =>
      refine yields_bind (Q := fun r x => Settled ⟨kernel, false, missed⟩ (.tryWithKernel body)
        (.ran r.isSome) x) ?_ fun r x hx => leads_pure hx
      refine yields_bind (yields_tryEnter _ t) ?_
      rintro entered x ⟨rfl, rfl⟩
      cases kernel with
      | none => exact leads_pure ⟨rfl, balanced, False.elim⟩
      | some k =>
          refine yields_bind (yields_innerAll body k missed t) ?_
          rintro _ x hheld
          have hbalanced : Balanced x := htaken.held hheld
          obtain ⟨k', rfl⟩ := hheld
          exact yields_unlock _ _ ⟨rfl, hbalanced, False.elim⟩
  | interrupt =>
      refine yields_bind (yields_interrupt _ t) ?_
      exact fun asked x hx => leads_pure (hx.settled rfl balanced id)
  | interruptAndSwitch =>
      refine yields_bind (yields_interruptAndSwitch _ t) ?_
      exact fun made x hx => leads_pure (hx.settled rfl balanced id)
  | switchNow =>
      refine yields_bind (Q := fun _ x => Settled ⟨kernel, false, missed⟩ .switchNow
        (.switched none) x) ?_ ?_
      · refine leads_bind (leads_beside (yields_lock kernel missed ?_))
        refine leads_bind (leads_beside (leads_read ?_))
        cases kernel with
        | none => exact yields_unlock _ _ ⟨rfl, balanced, fun h => nomatch h⟩
        | some k =>
            refine yields_bind (yields_applyMissed rfl) ?_
            rintro _ x ⟨k', rfl⟩
            refine yields_bind (yields_onKernel_beside rfl) ?_
            rintro switch x ⟨k'', rfl⟩
            refine leads_bind (leads_beside (leads_update ?_))
            refine yields_bind (yields_makeSwitch switch.join _ _) ?_
            rintro _ x rfl
            exact leads_pure ⟨rfl, balanced.passed rfl, fun _ => rfl⟩
      · exact fun _ x hx => leads_pure ⟨hx.free, hx.balanced, hx.settled⟩

/-- Between the operations of a history the lock is free and the ticks are
    balanced. -/
theorem yields_perform (calls : List SharedCall) (free : s.locked = false)
    (balanced : Balanced (s, t)) :
    Yields (perform calls) (s, t) fun _ x => x.1.locked = false ∧ Balanced x := by
  induction calls generalizing s t with
  | nil => exact leads_pure ⟨free, balanced⟩
  | cons c rest ih =>
      refine yields_bind (yields_run c free balanced) ?_
      rintro r ⟨s', t'⟩ ⟨free', balanced', -⟩
      exact yields_bind (ih free' balanced') fun rs x hx => leads_pure hx

end Tallied

namespace SharedKernel

/-! ## The end of work under the lock -/

/-- The missed ticks are let pass on the kernel inside, which remembers a switch
    that they ask for. -/
theorem applyMissed_eq (k : Kernel) (missed : UInt32) (p : Platform) :
    applyMissed ⟨⟨some k, true, missed⟩, p⟩
      = match Kernel.elapse missed ⟨k, p⟩ with
        | .ok asked q => .ok () ⟨⟨some (q.state.wantSwitchIf asked), true, 0⟩, q.platform⟩
        | .error e q => .error e ⟨⟨some q.state, true, 0⟩, q.platform⟩ := by
  show (if missed = 0 then pure () else do
      let _ ← onKernel do
        if ← Kernel.elapse missed then update Kernel.wantSwitch)
      (⟨⟨some k, true, 0⟩, p⟩ : Machine SharedKernel) = _
  by_cases hnone : missed = 0
  · rw [if_pos hnone, hnone]
    rfl
  · rw [if_neg hnone]
    simp only [onKernel, bind, EStateM.bind]
    cases Kernel.elapse missed ⟨k, p⟩ with
    | ok asked q => cases asked <;> rfl
    | error e q => rfl

/-- Work under the lock was done: a list of inner calls, and then, as the last thing
    before the lock was given back, the ticks that had been missed by then. -/
def CatchesUp (body : List InnerCall) (m m' : Machine SharedKernel) : Prop :=
  ∃ (n : Machine SharedKernel) (k : Kernel) (asked : Bool) (q : Machine Kernel),
    InnerCall.runAll body ⟨{ m.state with locked := true }, m.platform⟩ = .ok () n
      ∧ n.state.missed = m.state.missed + UInt32.ofNat (body.countP InnerCall.isInterrupt)
      ∧ n.state.kernel = some k
      ∧ Kernel.elapse n.state.missed ⟨k, n.platform⟩ = .ok asked q
      ∧ m' = ⟨⟨some (q.state.wantSwitchIf asked), false, 0⟩, q.platform⟩

theorem catchesUp_of_ran {body : List InnerCall} {m m' : Machine SharedKernel}
    (free : m.state.locked = false)
    (ran : (SharedCall.withKernel body).run m = .ok (.ran true) m') : CatchesUp body m m' := by
  obtain ⟨⟨kernel, locked, missed⟩, p⟩ := m
  obtain rfl : locked = false := free
  obtain ⟨a, m₁, hwork, hanswer⟩ := of_bind_ok ran
  cases kernel with
  | none =>
      obtain ⟨rfl, rfl⟩ := EStateM.Result.ok.inj hwork
      cases hanswer
  | some k =>
      obtain ⟨entered, m₂, hentered, hwork⟩ := of_bind_ok hwork
      obtain ⟨rfl, rfl⟩ := EStateM.Result.ok.inj hentered
      obtain ⟨⟨⟩, n, hbody, hwork⟩ := of_bind_ok hwork
      obtain ⟨⟨⟩, n', hleft, hwork⟩ := of_bind_ok hwork
      obtain ⟨rfl, rfl⟩ := EStateM.Result.ok.inj hwork
      obtain ⟨-, rfl⟩ := EStateM.Result.ok.inj hanswer
      -- the inner calls leave the lock taken and a kernel inside
      obtain ⟨t, htallied⟩ := (Tallied.forgets_innerAll body).of_ok hbody {}
      obtain ⟨k', hheld⟩ := (Tallied.yields_innerAll body k missed {}).ok htallied
      obtain ⟨hstate, -⟩ := Prod.mk.inj hheld
      obtain ⟨⟨⟩, n'', happlied, hunlocked⟩ := of_bind_ok hleft
      obtain ⟨-, rfl⟩ := EStateM.Result.ok.inj hunlocked
      obtain ⟨state, p'⟩ := n
      obtain rfl : state = _ := hstate
      rw [applyMissed_eq] at happlied
      cases helapsed : Kernel.elapse (missed + UInt32.ofNat (body.countP InnerCall.isInterrupt))
          ⟨k', p'⟩ with
      | ok asked q =>
          rw [helapsed] at happlied
          obtain ⟨-, rfl⟩ := EStateM.Result.ok.inj happlied
          exact ⟨_, k', asked, q, hbody, rfl, rfl, helapsed, rfl⟩
      | error e q =>
          rw [helapsed] at happlied
          cases happlied

/-! ## Every history -/

/-- No tick is lost and none is passed twice.  After a history of operations on a
    new shared kernel, the ticks asked for are as many as those passed on and those
    still missed, modulo the range of the counter.  The next operation leaves none
    missed if it is one that lets them pass, and work under the lock lets them pass
    as its last act. -/
theorem no_tick_lost {calls : List SharedCall} {p : Platform} {rs : List SharedReply}
    {m : Machine SharedKernel} (ran : perform calls ⟨{}, p⟩ = .ok rs m) :
    (∃ t : Tally, Tallied.perform calls (Machine.withGhost ⟨{}, p⟩ {}) = .ok rs (m.withGhost t)
        ∧ t.asked % 2 ^ 32 = (t.passed + m.state.missed.toNat) % 2 ^ 32)
      ∧ m.state.locked = false
      ∧ ∀ c r m', SharedCall.run c m = .ok r m' →
          (c.Settles m.state r → m'.state.missed = 0)
          ∧ ∀ body, c = .withKernel body → r = .ran true → CatchesUp body m m' := by
  obtain ⟨t, htallied⟩ := (Tallied.forgets_perform calls).of_ok ran {}
  have hbegin : Tallied.Balanced (({} : SharedKernel), ({} : Tally)) := rfl
  obtain ⟨hfree, hbalanced⟩ := (Tallied.yields_perform calls rfl hbegin).ok htallied
  refine ⟨⟨t, htallied, hbalanced⟩, hfree, ?_⟩
  intro c r m' hcall
  constructor
  · intro hsettles
    obtain ⟨t', htallied'⟩ := (Tallied.forgets_run c).of_ok hcall t
    exact ((Tallied.yields_run c hfree hbalanced).ok htallied').settled hsettles
  · rintro body rfl rfl
    exact catchesUp_of_ran hfree hcall

/-- Two ticks are missed while task code starts a scheduler, and one more while it
    tries for the lock; the next end of work under the lock catches up with it and
    with the one of its own. -/
theorem no_tick_lost_under_lock :
    let calls : List SharedCall := [.putIn (Kernel.initial {}),
      .withKernel [.kernel (.create { name := "worker", priority := 1 }), .kernel (.start 0),
        .interrupt, .interruptAndSwitch, .tryWith [.interrupt]],
      .interruptAndSwitch, .tryWithKernel [.interrupt]]
    ∃ (rs : List SharedReply) (m m' : Machine SharedKernel) (t : Tally),
      perform calls ⟨{}, {}⟩ = .ok rs m
        ∧ Tallied.perform calls (Machine.withGhost ⟨{}, {}⟩ {}) = .ok rs (m.withGhost t)
        ∧ t.asked % 2 ^ 32 = (t.passed + m.state.missed.toNat) % 2 ^ 32
        ∧ m.state.missed = 1
        ∧ (SharedCall.withKernel [.interrupt]).run m = .ok (.ran true) m'
        ∧ m'.state.missed = 0
        ∧ CatchesUp [.interrupt] m m' := by
  intro calls
  have hdone : isDone (do
      let _ ← perform calls
      let s ← read
      if s.missed = 1 then
        let r ← (SharedCall.withKernel [.interrupt]).run
        if r = .ran true then pure () else refuse .invalidState
      else
        refuse .invalidState) ⟨({} : SharedKernel), {}⟩ = true := by
    decide +kernel
  obtain ⟨⟨⟩, n, hrun⟩ := of_isDone hdone
  obtain ⟨rs, m, hhistory, hrun⟩ := of_bind_ok hrun
  obtain ⟨s, m₁, hread, hrun⟩ := of_bind_ok hrun
  obtain ⟨rfl, rfl⟩ := EStateM.Result.ok.inj hread
  obtain ⟨hmissed, hrun⟩ := of_unless_ok hrun
  obtain ⟨r, m', hwork, hrun⟩ := of_bind_ok hrun
  obtain ⟨rfl, -⟩ := of_unless_ok hrun
  obtain ⟨⟨t, htallied, hbalanced⟩, -, hnext⟩ := no_tick_lost hhistory
  obtain ⟨hsettled, hcaught⟩ := hnext _ _ _ hwork
  exact ⟨rs, m, m', t, hhistory, htallied, hbalanced, hmissed, hwork, hsettled rfl,
    hcaught _ rfl rfl⟩

end SharedKernel

end PriorityScheduler
