import PriorityScheduler.Proofs.Rotation

/-! # Ticks that ask for nothing

    A tick that does not ask for a switch is QUIET.  When it has passed, no level above the
    running task holds a task, and none was wanted before; and it has not used up the slice.
    But a slice that an earlier tick used up has left its mark, which lasts until the next
    choice, and a quiet tick neither looks at the mark nor takes it away.  If the mark is
    set and another task has come to the level by now, the turn of that task is OWED, and a
    choice gives it its turn although the tick has asked for nothing.

    Where a choice follows on every tick that asks for one no mark is left over, and a quiet
    tick can be trusted. -/

namespace PriorityScheduler

open Routine

namespace Outline

variable {o : Outline}

/-- After a quiet tick no switch is due, no task beats the running one, and the mark of an
    earlier slice is as it was. -/
theorem Sound.tick_quiet (sound : o.Sound) (opened : o.depth = 0)
    (preempts : o.settings.preemption = true) (quiet : o.tick.1 = false) :
    o.switchDue = false ∧ o.tick.2.sendBehind = o.sendBehind ∧ o.tick.2.Unbeaten := by
  obtain ⟨-, -, -, hbehind, hdue, -⟩ := o.passed_rest
  rw [tick_open opened preempts] at quiet ⊢
  obtain ⟨hnone, hkept, hunbeaten⟩ := judge_quiet sound.passed.tagged quiet
  exact ⟨hdue ▸ hnone, hkept.trans hbehind, hunbeaten⟩

end Outline

namespace Kernel

variable {k : Kernel} {r : Handle} {task : Task}

/-- The running task, of the given priority, is to go behind its peers, and there are some. -/
def OwesTurn (k : Kernel) (p : Nat) : Prop :=
  k.sendBehind = true ∧ k.handlesAt (.ready p) ≠ []

/-- A quiet tick can be trusted unless a turn is owed.  Let a task run in a reachable kernel
    that preempts while scheduling goes on, and let a tick ask for no switch.  Then the task
    still runs and no level above its own holds a task; a switch was not due, and the tick
    has not set the mark that sends the task behind.  A choice made at once keeps the task
    and changes nothing but marks, except if a turn is owed: then the task gives way and
    goes to the tail of its level.  No turn is owed where a choice has followed on every
    tick that asked for one. -/
theorem quiet_tick_trusted_unless_owed (reachable : Reachable k) (opened : k.freeze.isOff = true)
    (preempts : k.settings.preemption = true) (running : k.runner = some r)
    (live : k.table.get? r = some task) {pl : Platform} {m : Machine Kernel}
    (quiet : tick ⟨k, pl⟩ = .ok false m) :
    (m.state.runner = some r ∧ (∀ p, task.priority < p → m.state.handlesAt (.ready p) = [])
        ∧ k.switchDue = false ∧ m.state.sendBehind = k.sendBehind)
      ∧ (¬ m.state.OwesTurn task.priority → ∃ p', choose m
          = .ok r ⟨{ m.state with switchDue := false, sendBehind := false }, p'⟩)
      ∧ (m.state.OwesTurn task.priority → ∃ next n, choose m = .ok next n
          ∧ GivesWay m.state r task.priority next n.state)
      ∧ (Attended k → ¬ m.state.OwesTurn task.priority) := by
  obtain ⟨hintact, hsound⟩ := reachable.intact
  rw [isOff_outline, decide_eq_true_iff] at opened
  rw [runner_outline] at running
  rw [get?_outline] at live
  obtain ⟨hintact', hticked⟩ := (hintact.enacts_tick hsound.cycle_done).ok quiet
  obtain ⟨hquiet, hleft⟩ := EStateM.Result.ok.inj hticked
  obtain ⟨hdue, hbehind, hunbeaten⟩ := hsound.tick_quiet opened preempts hquiet
  have hpriority := hsound.tick_runnerPriority running live
  have hrunner := hsound.tick_runner.trans running
  obtain ⟨task', hlive, hlevel, -⟩ := hsound.tick_counts live
  have hsound' : m.state.outline.Sound := hleft ▸ hsound.tick
  have hopened : m.state.outline.depth = 0 := by
    rw [← hleft]
    exact hsound.holdsLines_tick.depth.trans opened
  rw [hleft] at hbehind hunbeaten hpriority hrunner hlive
  have habove := hunbeaten.rows hsound'.tagged hpriority
  have hpeers : m.state.handlesAt (.ready task.priority) = []
      ↔ m.state.outline.row (.ready task'.priority) = [] := by
    rw [hintact'.handlesAt, m.state.outline.roster_eq_nil, hlevel]
  refine ⟨⟨(runner_outline _).trans hrunner, ?above, hdue, hbehind⟩, ?kept, ?owed, ?attended⟩
  case above =>
    intro p hp
    rw [hintact'.handlesAt, m.state.outline.roster_eq_nil]
    exact habove p hp
  case kept =>
    intro hnone
    refine hintact'.choose_keeps ?_ ((runner_outline _).trans hrunner) ((get?_outline _ _).trans hlive)
      ?_ ?_ m.platform
    · rw [isOff_outline]
      exact decide_eq_true hopened
    · rw [hlevel]
      exact (hsound'.tagged.readyAbove_eq_false _).mpr habove
    · intro hmark
      exact hpeers.mp (Classical.byContradiction fun hheld => hnone ⟨hmark, hheld⟩)
  case owed =>
    rintro ⟨hmark, hheld⟩
    obtain ⟨next, hchosen, -⟩ := hintact'.choose_givesWay hsound' hopened hrunner hlive
      (fun hempty => hheld (hpeers.mpr hempty)) hmark m.platform
    rw [hlevel] at hchosen
    exact ⟨next, hchosen⟩
  case attended =>
    rintro hattended ⟨hmark, -⟩
    -- the mark of a slice that is left over comes with the mark of a switch
    have hprompt := hattended.prompt.2.rotation (hbehind.symm.trans hmark)
    rw [hdue] at hprompt
    cases hprompt

/-- A worker's slice is used up, nobody makes a choice, and the peer that it would have made
    room for is blocked for a while.  When the peer is back the worker's slice has begun
    anew, and the tick is quiet; but a choice gives the peer its turn. -/
theorem quiet_tick_trusted_unless_owed_leftover :
    ∃ (k : Kernel) (pl : Platform) (m n : Machine Kernel), Reachable k
      ∧ k.freeze.isOff = true ∧ k.settings.preemption = true ∧ k.runner = some ⟨0, 0⟩
      ∧ tick ⟨k, pl⟩ = .ok false m ∧ m.state.sliceSpent < m.state.settings.slice
      ∧ m.state.OwesTurn 1 ∧ choose m = .ok ⟨1, 0⟩ n
      ∧ GivesWay m.state ⟨0, 0⟩ 1 ⟨1, 0⟩ n.state := by
  have hvalid : ({ slice := 2 } : Settings).Valid := by decide
  have hdone : isDone (do
      let _ ← perform [.create { name := "worker", priority := 1 },
        .create { name := "peer", priority := 1 }, .choose, .tick, .tick, .block ⟨1, 0⟩ 2, .tick]
      let k ← read
      let asked ← tick
      let k' ← read
      let next ← choose
      if (k.freeze.isOff = true ∧ k.settings.preemption = true ∧ k.runner = some ⟨0, 0⟩
          ∧ (k.table.get? ⟨0, 0⟩).map Task.priority = some 1)
          ∧ asked = false ∧ k'.sliceSpent < k'.settings.slice ∧ k'.sendBehind = true
          ∧ k'.handlesAt (.ready 1) ≠ [] ∧ next = ⟨1, 0⟩ then
        pure ()
      else
        refuse .invalidState) ⟨initial { slice := 2 }, {}⟩ = true := by
    decide +kernel
  obtain ⟨⟨⟩, n, hrun⟩ := of_isDone hdone
  obtain ⟨rs, m₀, hperformed, hrun⟩ := of_bind_ok hrun
  obtain ⟨k, m₁, hread, hrun⟩ := of_bind_ok hrun
  obtain ⟨rfl, rfl⟩ := EStateM.Result.ok.inj hread
  obtain ⟨asked, m, htick, hrun⟩ := of_bind_ok hrun
  obtain ⟨k', m₁, hread, hrun⟩ := of_bind_ok hrun
  obtain ⟨rfl, rfl⟩ := EStateM.Result.ok.inj hread
  obtain ⟨next, m₂, hchosen, hrun⟩ := of_bind_ok hrun
  obtain ⟨⟨⟨hopened, hpreempts, hrunner, hpriority⟩, rfl, hslice, hmark, hheld, rfl⟩, -⟩ :=
    of_unless_ok hrun
  obtain ⟨task, hget, hlevel⟩ := Option.map_eq_some_iff.mp hpriority
  have hinitial : Reachable (⟨initial { slice := 2 }, {}⟩ : Machine Kernel).state :=
    .initial hvalid
  have hreachable : Reachable m₀.state := hinitial.perform hperformed
  have howes : m.state.OwesTurn 1 := ⟨hmark, hheld⟩
  obtain ⟨-, -, hturn, -⟩ :=
    quiet_tick_trusted_unless_owed hreachable hopened hpreempts hrunner hget htick
  rw [hlevel] at hturn
  obtain ⟨next, n', hchosen', hgives⟩ := hturn howes
  obtain ⟨rfl, rfl⟩ := EStateM.Result.ok.inj (hchosen.symm.trans hchosen')
  exact ⟨m₀.state, m₀.platform, m, m₂, hreachable, hopened, hpreempts, hrunner, htick, hslice,
    howes, hchosen, hgives⟩

end Kernel

end PriorityScheduler
