import PriorityScheduler.Proofs.Elapsing
import PriorityScheduler.Proofs.Mirrors

/-! # Waits that are checked from time to time

    A task that waits in pieces notes the moment at which it began, and checks from time
    to time how much of the wait is left.  A check that finds the wait not over begins it
    anew at the present moment, for the rest.

    A check knows the ticks between two moments up to turns of the counter, and sees a full
    turn only by a different count of wraps and a counter that is not below the start.  So
    a wait that is checked within each turn of the counter is measured exactly, whatever
    happens in between.  A wait that is left alone for a full turn is found to be over,
    except when the counter has wrapped twice and stands below the start: then the check
    counts the ticks beyond the full turns only. -/

namespace PriorityScheduler

open Routine

namespace Moment

variable {m : Moment} {n : Nat} {r : Tick}

/-! ## What a check sees -/

/-- A wait of no ticks is over. -/
theorem checkWait_zero (now since : Moment) : now.checkWait since 0 = ⟨true, since, 0⟩ := by
  have hnone : ¬ now.tick - since.tick < 0 := UInt32.not_lt_zero
  have hfinite : (0 : Tick) ≠ waitForever := by decide
  simp only [checkWait, if_neg hfinite, if_neg hnone, ite_self]

/-- The count of wraps differs once the counter has wrapped, until that count wraps. -/
theorem wraps_after_ne_iff (bound : n < 2 ^ 64 - 2 ^ 32) :
    m.wraps ≠ (m.after n).wraps ↔ 2 ^ 32 ≤ m.tick.toNat + n := by
  have htick := m.tick.toNat_lt
  have hturns : (UInt32.ofNat ((m.tick.toNat + n) / 2 ^ 32)).toNat
      = (m.tick.toNat + n) / 2 ^ 32 := by
    rw [UInt32.toNat_ofNat']
    omega
  rw [after, ne_eq, eq_comm, UInt32.add_eq_left, ← UInt32.toNat_inj, hturns, UInt32.toNat_zero]
  omega

/-- A full turn shows in two moments if the counter is not below the earlier one. -/
theorem turn_shows_iff (bound : n < 2 ^ 64 - 2 ^ 32) :
    (m.wraps ≠ (m.after n).wraps ∧ m.tick ≤ (m.after n).tick)
      ↔ 2 ^ 32 ≤ n ∧ m.tick ≤ (m.after n).tick := by
  have htick := m.tick.toNat_lt
  rw [wraps_after_ne_iff bound, UInt32.le_iff_toNat_le, tick_toNat_after]
  omega

/-- The counter tells the ticks between two moments up to full turns. -/
theorem tick_after_sub (m : Moment) (n : Nat) : (m.after n).tick - m.tick = UInt32.ofNat n := by
  show m.tick + UInt32.ofNat n - m.tick = _
  rw [UInt32.add_comm, UInt32.add_sub_cancel]

/-- A check finds a wait over if a full turn shows, or if the ticks beyond the full turns
    make up the wait. -/
theorem checkWait_after (bound : n < 2 ^ 64 - 2 ^ 32) (finite : r ≠ waitForever) :
    (m.after n).checkWait m r
      = if 2 ^ 32 ≤ n ∧ m.tick ≤ (m.after n).tick ∨ r.toNat ≤ n % 2 ^ 32 then ⟨true, m, 0⟩
        else ⟨false, m.after n, r - UInt32.ofNat n⟩ := by
  simp only [checkWait, if_neg finite, turn_shows_iff bound, tick_after_sub]
  by_cases hturn : 2 ^ 32 ≤ n ∧ m.tick ≤ (m.after n).tick
  · rw [if_pos hturn, if_pos (Or.inl hturn)]
  · rw [if_neg hturn]
    by_cases hleft : UInt32.ofNat n < r
    · rw [if_pos hleft, if_neg]
      rw [UInt32.lt_iff_toNat_lt, UInt32.toNat_ofNat'] at hleft
      exact not_or_intro hturn (Nat.not_le.mpr hleft)
    · rw [if_neg hleft, if_pos]
      rw [UInt32.lt_iff_toNat_lt, UInt32.toNat_ofNat'] at hleft
      exact Or.inr (Nat.not_lt.mp hleft)

/-- Within a turn of the counter a check knows how many ticks have passed. -/
theorem checkWait_within (within : n < 2 ^ 32) (finite : r ≠ waitForever) :
    (m.after n).checkWait m r
      = if r.toNat ≤ n then ⟨true, m, 0⟩ else ⟨false, m.after n, r - UInt32.ofNat n⟩ := by
  have hnone : ¬ (2 ^ 32 ≤ n ∧ m.tick ≤ (m.after n).tick) :=
    fun hturn => Nat.not_le_of_lt within hturn.1
  simp only [checkWait_after (Nat.lt_trans within (by decide)) finite, or_iff_right hnone,
    Nat.mod_eq_of_lt within]

end Moment

namespace Kernel

variable {k k' : Kernel} {r rest : Tick} {n g : Nat} {since : Moment}

/-! ## A check of the running task -/

/-- The running task, if there is one, carries no mark that its wait was cut short. -/
def Uncut (k : Kernel) : Prop :=
  ∀ task ∈ k.runner.bind k.table.get?, task.flags.cutShort = false

instance (k : Kernel) : Decidable k.Uncut :=
  inferInstanceAs (Decidable (∀ task ∈ k.runner.bind k.table.get?, task.flags.cutShort = false))

/-- Where no task is present none carries a mark. -/
theorem uncut_of_current_none (absent : k.current = none) : k.Uncut := by
  intro task htask
  simp only [runner, absent] at htask
  cases htask

/-- Without a mark a check goes by the clock, and changes nothing. -/
theorem Uncut.checkWait_done (uncut : k.Uncut) (since : Moment) (remaining : Tick)
    (p : Platform) :
    checkWait since remaining ⟨k, p⟩ = .ok (k.moment.checkWait since remaining) ⟨k, p⟩ := by
  have htaken : k.takeCutShort = (false, k) := by
    simp only [takeCutShort]
    split
    · rfl
    · next h hrunner =>
        split
        · rfl
        · next task hget =>
            have hmark : task.flags.cutShort = false := by
              refine uncut task ?_
              rw [hrunner]
              exact hget
            rw [hmark, if_neg Bool.false_ne_true]
  simp only [checkWait, bind, EStateM.bind, applyGet, htaken]
  rfl

/-! ## Waits that are checked within each turn -/

/-- A wait of `r` ticks is begun in a kernel and measured: calls are made, and between them
    the wait is checked from time to time, with the moment and the rest that the check
    before has left.  The two numbers are those of the ticks up to the last check and of
    the ticks since, and fewer than a full turn pass from one check to the next. -/
inductive Measured (k : Kernel) (r : Tick) : Nat → Nat → Kernel → Moment → Tick → Prop where
  | begun : Measured k r 0 0 k k.moment r
  | call {n g : Nat} {k' : Kernel} {since : Moment} {rest : Tick}
      (before : Measured k r n g k' since rest) (c : Call) {p : Platform}
      {answer : Except Refusal Reply} {m : Machine Kernel}
      (ran : attempt c.run ⟨k', p⟩ = .ok answer m) :
      Measured k r n (g + c.ticks) m.state since rest
  | check {n g : Nat} {k' : Kernel} {since : Moment} {rest : Tick}
      (before : Measured k r n g k' since rest) (within : g < 2 ^ 32) (uncut : k'.Uncut)
      {p : Platform} {v : Moment.Verdict} {m : Machine Kernel}
      (ran : checkWait since rest ⟨k', p⟩ = .ok v m) :
      Measured k r (n + g) 0 m.state v.since v.remaining

/-- What the measuring of a wait maintains.  What is left is the wait less the ticks up to
    the last check, and while something is left it counts from the moment of that check. -/
structure OnCourse (k : Kernel) (r : Tick) (n g : Nat) (k' : Kernel) (since : Moment)
    (rest : Tick) : Prop where
  reachable : Reachable k'
  moment : k'.moment = k.moment.after (n + g)
  left : rest.toNat = r.toNat - n
  counted : rest ≠ 0 → since = k.moment.after n

/-- A check within a turn of the counter tells whether the ticks since the beginning make
    up the wait, and what is left of it from now on. -/
theorem OnCourse.checked (onCourse : OnCourse k r n g k' since rest) (finite : r < waitForever)
    (within : g < 2 ^ 32) :
    (k'.moment.checkWait since rest).expired = decide (r.toNat ≤ n + g)
      ∧ OnCourse k r (n + g) 0 k' (k'.moment.checkWait since rest).since
          (k'.moment.checkWait since rest).remaining := by
  have hrest := onCourse.left
  by_cases hover : rest = 0
  · -- the wait was over by the last check
    subst hover
    rw [UInt32.toNat_zero] at hrest
    rw [Moment.checkWait_zero]
    refine ⟨(decide_eq_true (by omega)).symm, onCourse.reachable, onCourse.moment, ?_, ?_⟩
    · rw [UInt32.toNat_zero]
      omega
    · exact fun hleft => absurd rfl hleft
  · have hfinite : rest ≠ waitForever := by
      rintro rfl
      rw [UInt32.lt_iff_toNat_lt] at finite
      omega
    have hpos : rest.toNat ≠ 0 := fun hzero => hover (UInt32.toNat_inj.mp hzero)
    have hmoment : k'.moment = since.after g := by
      rw [onCourse.counted hover, Moment.after_after]
      exact onCourse.moment
    have hverdict := Moment.checkWait_within (m := since) within hfinite
    rw [← hmoment] at hverdict
    by_cases hspent : rest.toNat ≤ g
    · rw [if_pos hspent] at hverdict
      rw [hverdict]
      refine ⟨(decide_eq_true (by omega)).symm, onCourse.reachable, onCourse.moment, ?_, ?_⟩
      · rw [UInt32.toNat_zero]
        omega
      · exact fun hleft => absurd rfl hleft
    · rw [if_neg hspent] at hverdict
      rw [hverdict]
      refine ⟨(decide_eq_false (by omega)).symm, onCourse.reachable, onCourse.moment, ?_, ?_⟩
      · have hg : (UInt32.ofNat g).toNat = g := UInt32.toNat_ofNat_of_lt' within
        have hle : UInt32.ofNat g ≤ rest := by
          rw [UInt32.le_iff_toNat_le, hg]
          omega
        show (rest - UInt32.ofNat g).toNat = _
        rw [UInt32.toNat_sub_of_le _ _ hle, hg, hrest]
        omega
      · exact fun _ => onCourse.moment

theorem Measured.onCourse (measured : Measured k r n g k' since rest) (reachable : Reachable k)
    (finite : r < waitForever) : OnCourse k r n g k' since rest := by
  induction measured with
  | begun => exact ⟨reachable, k.moment.after_zero.symm, rfl, fun _ => k.moment.after_zero.symm⟩
  | call before c ran ih =>
      obtain ⟨hintact, hsound⟩ := ih.reachable.intact
      refine ⟨.call c ih.reachable ran, ?_, ih.left, ih.counted⟩
      rw [hintact.moment_call hsound ran, ih.moment, Moment.after_after, Nat.add_assoc]
  | check before within uncut ran ih =>
      rw [uncut.checkWait_done] at ran
      obtain ⟨rfl, rfl⟩ := EStateM.Result.ok.inj ran
      exact (ih.checked finite within).2

/-- Checks measure a wait exactly.  Let a wait of fewer than all ticks begin in a reachable
    kernel, let any calls be made and the wait be checked from time to time, with fewer
    than a full turn of the counter between one check and the next, and let the running
    task be without a mark at each check.  Then every check is answered, tells whether the
    ticks since the beginning make up the wait, and leaves the wait less these ticks. -/
theorem checks_measure_exactly (reachable : Reachable k) (finite : r < waitForever)
    (measured : Measured k r n g k' since rest) (within : g < 2 ^ 32) (uncut : k'.Uncut)
    (p : Platform) :
    ∃ v, checkWait since rest ⟨k', p⟩ = .ok v ⟨k', p⟩ ∧ v.expired = decide (r.toNat ≤ n + g)
      ∧ v.remaining.toNat = r.toNat - (n + g) := by
  obtain ⟨hexpired, hcourse⟩ := (measured.onCourse reachable finite).checked finite within
  exact ⟨_, uncut.checkWait_done since rest p, hexpired, hcourse.left⟩

/-- A worker begins a wait of four ticks just before the counter wraps.  After two ticks,
    on the other side, two are left, and after two more the wait is over. -/
theorem checks_measure_exactly_across_wrap :
    ∃ (k : Kernel) (m₁ m₂ : Machine Kernel) (v₁ v₂ : Moment.Verdict), Reachable k
      ∧ Measured k 4 0 2 m₁.state k.moment 4 ∧ m₁.state.now < k.now
      ∧ checkWait k.moment 4 m₁ = .ok v₁ m₁ ∧ v₁.expired = false ∧ v₁.remaining.toNat = 2
      ∧ Measured k 4 2 2 m₂.state v₁.since v₁.remaining
      ∧ checkWait v₁.since v₁.remaining m₂ = .ok v₂ m₂
      ∧ v₂.expired = true ∧ v₂.remaining.toNat = 0 := by
  have hvalid : ({ firstTick := 0xFFFFFFFE } : Settings).Valid := by decide
  have hdone : isDone (do
      let _ ← perform [.create { name := "worker", priority := 1 }, .start 0]
      let k ← read
      let _ ← attempt (Call.elapse 2).run
      let k₁ ← read
      let _ ← checkWait k.moment 4
      let _ ← attempt (Call.elapse 2).run
      let k₂ ← read
      if k₁.now < k.now ∧ k₁.Uncut ∧ k₂.Uncut then
        pure ()
      else
        refuse .invalidState) ⟨initial { firstTick := 0xFFFFFFFE }, {}⟩ = true := by
    decide +kernel
  obtain ⟨⟨⟩, m, hrun⟩ := of_isDone hdone
  obtain ⟨rs, m₀, hstarted, hrun⟩ := of_bind_ok hrun
  obtain ⟨k, m', hread, hrun⟩ := of_bind_ok hrun
  obtain ⟨rfl, rfl⟩ := EStateM.Result.ok.inj hread
  obtain ⟨r₁, m₁, hfirst, hrun⟩ := of_bind_ok hrun
  obtain ⟨k₁, m', hread, hrun⟩ := of_bind_ok hrun
  obtain ⟨rfl, rfl⟩ := EStateM.Result.ok.inj hread
  obtain ⟨v₁, m', hchecked, hrun⟩ := of_bind_ok hrun
  obtain ⟨r₂, m₂, hsecond, hrun⟩ := of_bind_ok hrun
  obtain ⟨k₂, m'', hread, hrun⟩ := of_bind_ok hrun
  obtain ⟨rfl, rfl⟩ := EStateM.Result.ok.inj hread
  obtain ⟨⟨hwrapped, huncut₁, huncut₂⟩, -⟩ := of_unless_ok hrun
  have hinitial : Reachable (⟨initial { firstTick := 0xFFFFFFFE }, {}⟩ : Machine Kernel).state :=
    .initial hvalid
  have hreachable : Reachable m₀.state := hinitial.perform hstarted
  have hmeasured₁ : Measured m₀.state 4 0 2 m₁.state m₀.state.moment 4 :=
    Measured.call .begun (.elapse 2) hfirst
  obtain ⟨v, hverdict, hexpired₁, hleft₁⟩ := checks_measure_exactly hreachable (by decide)
    hmeasured₁ (by decide) huncut₁ m₁.platform
  obtain ⟨rfl, rfl⟩ := EStateM.Result.ok.inj (hverdict.symm.trans hchecked)
  have hmeasured₂ : Measured m₀.state 4 2 2 m₂.state v.since v.remaining :=
    Measured.call (hmeasured₁.check (by decide) huncut₁ hchecked) (.elapse 2) hsecond
  obtain ⟨v₂, hverdict₂, hexpired₂, hleft₂⟩ := checks_measure_exactly hreachable (by decide)
    hmeasured₂ (by decide) huncut₂ m₂.platform
  exact ⟨m₀.state, m₁, m₂, v, v₂, hreachable, hmeasured₁, hwrapped, hchecked, hexpired₁, hleft₁,
    hmeasured₂, hverdict₂, hexpired₂, hleft₂⟩

/-! ## Waits of a full turn and more -/

/-- Ticks are never refused, and where no task is present they leave it so. -/
theorem Intact.perform_ticks (intact : k.Intact) (sound : k.outline.Sound)
    (absent : k.current = none) {calls : List Call} (some : ∀ c ∈ calls, c.ticks ≠ 0)
    (p : Platform) :
    ∃ rs m, perform calls ⟨k, p⟩ = .ok rs m ∧ m.state.current = none := by
  induction calls generalizing k p with
  | nil => exact ⟨[], ⟨k, p⟩, rfl, absent⟩
  | cons c rest ih =>
      have hticks := some c List.mem_cons_self
      obtain ⟨r, m₁, hfirst, -⟩ := intact.ticks_done sound hticks p
      obtain ⟨hintact, hsound, hstep⟩ := intact.of_call sound hfirst
      have habsent : m₁.state.outline.current = none := by
        rcases ticks_cases hticks with rfl | ⟨n, rfl⟩
        · obtain ⟨-, hstate⟩ := EStateM.Result.ok.inj hstep
          rw [← hstate]
          exact k.outline.tick_current.trans absent
        · obtain ⟨-, hstate⟩ := EStateM.Result.ok.inj hstep
          rw [← hstate]
          exact Step.elapseFrom_keeps (I := fun o => o.current = none)
            (fun hnone => (Outline.tick_current _).trans hnone) n.toNat false absent
      obtain ⟨rs, m, hothers, hnone⟩ := ih hintact hsound habsent
        (fun c' hc' => some c' (List.mem_cons_of_mem c hc')) m₁.platform
      refine ⟨r :: rs, m, ?_, hnone⟩
      show EStateM.bind _ _ _ = _
      simp only [EStateM.bind, hfirst]
      show EStateM.bind _ _ _ = _
      simp only [EStateM.bind, hothers]
      rfl

/-- A full turn of the counter is noticed unless the counter is below the start.  Let a
    wait of fewer than all ticks begin in a reachable kernel, and let a history pass a full
    turn of the counter or more before it is checked, but not a full turn of the count of
    wraps, with the running task without a mark in the end.  Then the check finds the wait
    over, except if the counter is below the start and the ticks beyond the full turns do
    not make up the wait.  In that case the wait goes on for the rest that these ticks
    leave of it. -/
theorem full_turn_noticed_unless_below (reachable : Reachable k) (finite : r < waitForever)
    {calls : List Call} {p : Platform} {rs : List (Except Refusal Reply)} {m : Machine Kernel}
    (ran : perform calls ⟨k, p⟩ = .ok rs m) (turn : 2 ^ 32 ≤ ticksIn calls)
    (bound : ticksIn calls < 2 ^ 64 - 2 ^ 32) (uncut : m.state.Uncut) :
    ∃ v, checkWait k.moment r m = .ok v m
      ∧ (v.expired = false ↔ m.state.now < k.now ∧ ticksIn calls % 2 ^ 32 < r.toNat)
      ∧ (v.expired = true → v = ⟨true, k.moment, 0⟩)
      ∧ (v.expired = false →
          v = ⟨false, m.state.moment, r - UInt32.ofNat (ticksIn calls)⟩) := by
  obtain ⟨hintact, hsound⟩ := reachable.intact
  have hmoment : m.state.moment = k.moment.after (ticksIn calls) :=
    hintact.moment_perform (m := ⟨k, p⟩) hsound ran
  have hverdict := Moment.checkWait_after (m := k.moment) bound (UInt32.ne_of_lt finite)
  rw [← hmoment] at hverdict
  refine ⟨_, uncut.checkWait_done k.moment r m.platform, ?_⟩
  rw [hverdict]
  by_cases hover : 2 ^ 32 ≤ ticksIn calls ∧ k.moment.tick ≤ m.state.moment.tick
      ∨ r.toNat ≤ ticksIn calls % 2 ^ 32
  · rw [if_pos hover]
    refine ⟨iff_of_false nofun ?_, fun _ => rfl, nofun⟩
    rintro ⟨hbelow, hleft⟩
    rcases hover with ⟨-, habove⟩ | hspent
    · exact UInt32.not_le.mpr hbelow habove
    · exact Nat.not_le.mpr hleft hspent
  · rw [if_neg hover]
    obtain ⟨hbelow, hleft⟩ := not_or.mp hover
    refine ⟨iff_of_true rfl ⟨?_, Nat.not_le.mp hleft⟩, nofun, fun _ => rfl⟩
    exact UInt32.not_le.mp fun habove => hbelow ⟨turn, habove⟩

/-- A wait of two ticks begins with the last tick before the counter wraps.  A full turn
    later it is found to be over, and one more tick later, when the counter has wrapped
    twice, one tick of it seems to be left. -/
theorem full_turn_noticed_unless_below_start :
    ∃ (k : Kernel) (m m' : Machine Kernel) (rs rs' : List (Except Refusal Reply)), Reachable k
      ∧ perform [.elapse 0xFFFFFFFF, .tick] ⟨k, {}⟩ = .ok rs m
      ∧ checkWait k.moment 2 m = .ok ⟨true, k.moment, 0⟩ m
      ∧ perform [.elapse 0xFFFFFFFF, .elapse 2] ⟨k, {}⟩ = .ok rs' m' ∧ m'.state.now < k.now
      ∧ checkWait k.moment 2 m' = .ok ⟨false, m'.state.moment, 1⟩ m' := by
  let k := initial { firstTick := 0xFFFFFFFF }
  have hreachable : Reachable k := .initial (by decide)
  obtain ⟨hintact, hsound⟩ := hreachable.intact
  have hticks : ∀ c ∈ [Call.elapse 0xFFFFFFFF, .tick], c.ticks ≠ 0 := by decide
  have hticks' : ∀ c ∈ [Call.elapse 0xFFFFFFFF, .elapse 2], c.ticks ≠ 0 := by decide
  obtain ⟨rs, m, hran, habsent⟩ := hintact.perform_ticks hsound rfl hticks {}
  obtain ⟨rs', m', hran', habsent'⟩ := hintact.perform_ticks hsound rfl hticks' {}
  have hnow : m.state.now = 0xFFFFFFFF :=
    (hintact.now_perform (m := ⟨k, {}⟩) hsound hran).trans (by decide)
  have hnow' : m'.state.now = 0 :=
    (hintact.now_perform (m := ⟨k, {}⟩) hsound hran').trans (by decide)
  obtain ⟨v, hverdict, hgoes, hends, -⟩ := full_turn_noticed_unless_below (r := 2) hreachable
    (by decide) hran (by decide) (by decide) (uncut_of_current_none habsent)
  obtain ⟨v', hverdict', hgoes', -, hrest⟩ := full_turn_noticed_unless_below (r := 2) hreachable
    (by decide) hran' (by decide) (by decide) (uncut_of_current_none habsent')
  rw [hnow] at hgoes
  rw [hnow'] at hgoes'
  have hover : v.expired = true := by
    rw [← Bool.not_eq_false, hgoes]
    decide
  have hleft : v'.expired = false := hgoes'.mpr (by decide)
  rw [hends hover] at hverdict
  rw [hrest hleft] at hverdict'
  exact ⟨k, m, m', rs, rs', hreachable, hran, hverdict, hran', by rw [hnow']; decide, hverdict'⟩

end Kernel

end PriorityScheduler
