import PriorityScheduler.Proofs.Attendance
import PriorityScheduler.Proofs.Lines

/-! # Slices and credit

    Of two tasks of one priority the one waits in line and the other may be ahead of it.
    The CREDIT of the other is the number of ticks that it may still run before the first
    one gets its turn: what is left of its slice while it runs, a whole slice while it
    stands ahead in the line, and nothing otherwise.

    Every tick that the other runs is paid from its credit.  A choice adds to it in one
    case only: a task that makes room for one above it goes back to the head of its line,
    and its next slice is a whole one.  So it gets back the ticks that it has USED of the
    slice that ends, and no more. -/

namespace PriorityScheduler

open Function (update)
open Step (Leaves)

namespace Outline

variable {o o' o₁ : Outline} {i p q : Nat} {a b h : Handle} {task task' next : Task}

/-! ## Credit -/

/-- The ticks that one task may run before another gets its turn on their level. -/
def credit (o : Outline) (a b : Handle) (p : Nat) : Nat :=
  if o.runner = some a then o.settings.slice.toNat - o.sliceSpent.toNat
  else if Ahead a.index b.index (o.row (.ready p)) then o.settings.slice.toNat
  else 0

/-- The ticks that the task that runs has used of its slice. -/
def used (o : Outline) : Nat :=
  min o.settings.slice.toNat o.sliceSpent.toNat

/-- A task waits on the level of another one's priority. -/
structure Peers (o : Outline) (a b : Handle) (p : Nat) : Prop where
  apart : a.index ≠ b.index
  queued : b.index ∈ o.row (.ready p)
  peer : ∃ task, o.get? a = some task ∧ task.priority = p

/-- A task that ran has made room for one above it. -/
def displaced (o o' : Outline) (a : Handle) : Bool :=
  decide (o.runner = some a) && (o'.get? a).any fun task =>
    decide (task.activity = .ready) && o'.runnerPriority.any fun q => decide (task.priority < q)

theorem credit_le_slice (o : Outline) (a b : Handle) (p : Nat) :
    o.credit a b p ≤ o.settings.slice.toNat := by
  simp only [credit]
  split
  · omega
  · split
    · omega
    · omega

theorem credit_of_runner (running : o.runner = some a) :
    o.credit a b p = o.settings.slice.toNat - o.sliceSpent.toNat :=
  if_pos running

/-- What has been used of a slice and what is left make up the whole of it. -/
theorem credit_add_used (running : o.runner = some a) :
    o.credit a b p + o.used = o.settings.slice.toNat := by
  rw [credit_of_runner running, used]
  omega

/-- The task that runs is in no line. -/
theorem Sound.runner_not_mem (sound : o.Sound) (running : o.runner = some h) (q : Place) :
    h.index ∉ o.row q := by
  obtain ⟨-, task, hget, -⟩ := runner_eq_some running
  exact sound.tagged.not_mem_unlinked (sound.live hget) (sound.runnerFree _ _ running hget) q

/-- A task that stands ahead has a whole slice to come. -/
theorem Sound.credit_of_ahead (sound : o.Sound)
    (ahead : Ahead a.index b.index (o.row (.ready p))) :
    o.credit a b p = o.settings.slice.toNat := by
  have hrests : o.runner ≠ some a := fun hrunner => sound.runner_not_mem hrunner _ ahead.mem
  rw [credit, if_neg hrests, if_pos ahead]

/-- A task that does not run has no more credit than before, if it was ahead before in
    case it is ahead. -/
theorem Sound.credit_of_rest (sound : o.Sound) (settings : o'.settings = o.settings)
    (rests : o'.runner ≠ some a)
    (ahead : Ahead a.index b.index (o'.row (.ready p)) → Ahead a.index b.index (o.row (.ready p))) :
    o'.credit a b p ≤ o.credit a b p := by
  rw [credit, if_neg rests]
  by_cases hahead : Ahead a.index b.index (o'.row (.ready p))
  · rw [if_pos hahead, sound.credit_of_ahead (ahead hahead), settings]
  · rw [if_neg hahead]
    exact Nat.zero_le _

/-- A step in which no tick passes adds no credit, if it holds the lines. -/
theorem Timeless.credit_le (timeless : Timeless o o') (sound : o.Sound)
    (queued : b.index ∈ o.row (.ready p)) : o'.credit a b p ≤ o.credit a b p := by
  by_cases hrunner : o'.runner = some a
  · rw [credit_of_runner hrunner, credit_of_runner (timeless.runner hrunner), timeless.settings,
      timeless.slice hrunner]
  · exact sound.credit_of_rest timeless.settings hrunner ((timeless.lines p).ahead queued)

/-! ## Slices -/

/-- The slice of the running task is used up only if it is to go behind its peers. -/
def InTime (o : Outline) : Prop :=
  o.sliceSpent < o.settings.slice
    ∨ o.sendBehind = true ∧ ∃ p, o.runnerPriority = some p ∧ o.row (.ready p) ≠ []

/-- While a slice lasts it is counted tick by tick. -/
theorem toNat_saturatingSucc {n m : UInt32} (hlt : n < m) :
    (saturatingSucc n).toNat = n.toNat + 1 := by
  have hn := UInt32.lt_iff_toNat_lt.mp hlt
  have hm := m.toNat_lt
  have hne : n ≠ 0xFFFFFFFF := by
    rintro rfl
    have hmax : (0xFFFFFFFF : UInt32).toNat = 4294967295 := rfl
    omega
  rw [saturatingSucc, if_neg hne, UInt32.toNat_add]
  have hone : (1 : UInt32).toNat = 1 := rfl
  omega

/-- How the measure of a slice can turn out. -/
theorem chargeSlice_cases (turns : o.settings.takingTurns = true) (p : Nat) :
    (o.row (.ready p) = [] ∧ o.chargeSlice p = (false, { o with sliceSpent := 0 }))
      ∨ o.row (.ready p) ≠ [] ∧ (
        o.settings.slice ≤ saturatingSucc o.sliceSpent ∧ o.chargeSlice p
          = (true, { o with sliceSpent := saturatingSucc o.sliceSpent, sendBehind := true })
        ∨ saturatingSucc o.sliceSpent < o.settings.slice ∧ o.chargeSlice p
          = (false, { o with sliceSpent := saturatingSucc o.sliceSpent })) := by
  simp only [chargeSlice]
  rw [if_pos turns]
  by_cases hempty : o.row (.ready p) = []
  · rw [if_pos hempty]
    exact Or.inl ⟨hempty, rfl⟩
  · rw [if_neg hempty]
    by_cases hover : o.settings.slice ≤ saturatingSucc o.sliceSpent
    · rw [if_pos hover]
      exact Or.inr ⟨hempty, Or.inl ⟨hover, rfl⟩⟩
    · rw [if_neg hover]
      exact Or.inr ⟨hempty, Or.inr ⟨UInt32.not_le.mp hover, rfl⟩⟩

/-- The answer of a tick while scheduling goes on. -/
theorem tick_open (opened : o.depth = 0) (preempts : o.settings.preemption = true) :
    o.tick = o.passed.judge := by
  obtain ⟨hsettings, hdepth, -⟩ := o.passed_rest
  obtain ⟨spent, behind, heq⟩ := o.passed.judge_snd
  have hopen : o.passed.judge.2.depth = 0 := by
    rw [heq]
    exact hdepth.trans opened
  have hpreempts : o.passed.judge.2.settings.preemption = true := by
    rw [heq]
    show o.passed.settings.preemption = true
    rw [hsettings]
    exact preempts
  show o.passed.answerTick = _
  simp only [answerTick]
  rw [if_pos hopen, hpreempts, Bool.and_true]

theorem passed_spent (o : Outline) : o.passed.sliceSpent = o.sliceSpent :=
  o.charged_rest.2

/-- The task that runs during a tick has the same priority afterwards. -/
theorem Sound.tick_runnerPriority (sound : o.Sound) (running : o.runner = some h)
    (live : o.get? h = some task) : o.tick.2.runnerPriority = some task.priority := by
  obtain ⟨task', hget, hpriority, -⟩ := sound.tick_counts live
  rw [← hpriority]
  exact runnerPriority_of_runner (sound.tick_runner.trans running) hget

/-- The priority by which a tick judges is that of the task that runs. -/
theorem Sound.passed_runnerPriority (sound : o.Sound) (running : o.runner = some h)
    (live : o.get? h = some task) : o.passed.runnerPriority = some task.priority := by
  obtain ⟨spent, behind, due, heq⟩ := o.tick_passed
  have hpriority := sound.tick_runnerPriority running live
  rw [heq] at hpriority
  exact hpriority

section Ticks

variable (sound : o.Sound) (opened : o.depth = 0) (turns : o.settings.takingTurns = true)
  (preempts : o.settings.preemption = true) (inSlice : o.sliceSpent < o.settings.slice)

include opened turns preempts

include sound in
/-- A tick that a task runs while another waits on its level is one tick of its slice. -/
theorem Sound.tick_spent (peers : o.Peers a b p) (running : o.runner = some a) :
    o.tick.2.sliceSpent = saturatingSucc o.sliceSpent := by
  obtain ⟨task, hget, rfl⟩ := peers.peer
  obtain ⟨spent, behind, due, heq⟩ := o.tick_passed
  have hslice : o.passed.settings.takingTurns = true := by
    rw [o.passed_rest.1]
    exact turns
  have hline : o.passed.row (.ready task.priority) ≠ [] := by
    have hmem := sound.mem_line_tick peers.queued
    rw [heq] at hmem
    exact List.ne_nil_of_mem hmem
  have hrunner := sound.passed_runnerPriority running hget
  rw [tick_open opened preempts]
  simp only [judge, hrunner]
  rcases chargeSlice_cases hslice task.priority with ⟨hnone, -⟩ | ⟨-, ⟨-, heq⟩ | ⟨-, heq⟩⟩
  · exact absurd hnone hline
  · rw [heq, ← o.passed_spent]
  · rw [heq, ← o.passed_spent]

include inSlice

/-- A tick lets the slice go on, or uses it up; in that case it asks for a switch. -/
theorem tick_slice :
    o.tick.2.InTime ∧ (o.tick.1 = false → o.tick.2.sliceSpent < o.tick.2.settings.slice) := by
  have hsettings := o.tick_settings.1
  have hpassed := o.passed_rest.1
  rw [InTime, hsettings, tick_open opened preempts]
  have hslice : o.passed.settings.takingTurns = true := by
    rw [hpassed]
    exact turns
  have hpositive : 0 < o.settings.slice := UInt32.lt_of_le_of_lt UInt32.zero_le inSlice
  simp only [judge]
  cases hrunner : o.passed.runnerPriority with
  | none =>
      have hspent : o.passed.sliceSpent < o.settings.slice := by
        rw [o.passed_spent]
        exact inSlice
      exact ⟨Or.inl hspent, fun _ => hspent⟩
  | some q =>
      rcases chargeSlice_cases hslice q with ⟨-, heq⟩ | ⟨hline, ⟨-, heq⟩ | ⟨hlt, heq⟩⟩
      · simp only [heq]
        exact ⟨Or.inl hpositive, fun _ => hpositive⟩
      · simp only [heq, Bool.true_or]
        exact ⟨Or.inr ⟨trivial, q, hrunner, hline⟩, fun hasked => absurd hasked (by decide)⟩
      · rw [hpassed] at hlt
        simp only [heq]
        exact ⟨Or.inl hlt, fun _ => hlt⟩

include sound

/-- A tick that a task runs is paid from its credit. -/
theorem Sound.credit_tick (peers : o.Peers a b p) :
    o.tick.2.credit a b p + (if o.runner = some a then 1 else 0) ≤ o.credit a b p := by
  by_cases hrunner : o.runner = some a
  · have hspent := sound.tick_spent opened turns preempts peers hrunner
    have hlt := UInt32.lt_iff_toNat_lt.mp inSlice
    rw [if_pos hrunner, credit_of_runner (sound.tick_runner.trans hrunner),
      credit_of_runner hrunner, o.tick_settings.1, hspent, toNat_saturatingSucc inSlice]
    omega
  · have hholds := sound.holdsLines_tick
    rw [if_neg hrunner, Nat.add_zero]
    refine sound.credit_of_rest hholds.settings ?_ ((hholds.lines p).ahead peers.queued)
    rw [sound.tick_runner]
    exact hrunner

end Ticks

/-! ## Several ticks -/

/-- A number of ticks have passed, each of them counted for the running task and paid
    from its credit. -/
structure Elapses (o : Outline) (n : Nat) (o' : Outline) : Prop where
  sound : o'.Sound
  settings : o'.settings = o.settings
  depth : o'.depth = o.depth
  runner : o'.runner = o.runner
  stays : ∀ {i p}, i ∈ o.row (.ready p) → i ∈ o'.row (.ready p)
  record : ∀ {h task}, o.get? h = some task → ∃ task', o'.get? h = some task'
    ∧ task'.priority = task.priority
    ∧ task'.runTicks = task.runTicks + UInt32.ofNat (if o.runner = some h then n else 0)
  spent : ∀ {a b p}, o.Peers a b p → o.runner = some a →
    o'.sliceSpent.toNat = o.sliceSpent.toNat + n
  credit : ∀ {a b p}, o.Peers a b p →
    o'.credit a b p + (if o.runner = some a then n else 0) ≤ o.credit a b p

theorem elapses_zero (sound : o.Sound) : Elapses o 0 o := by
  refine ⟨sound, rfl, rfl, rfl, id, fun {h task} hget => ⟨task, hget, rfl, ?_⟩, fun _ _ => rfl,
    fun {a b p} _ => ?_⟩
  · rw [ite_self]
    exact (UInt32.add_zero _).symm
  · rw [ite_self]
    exact Nat.le_refl _

/-- Peers stay so while ticks pass. -/
theorem Elapses.peers {n : Nat} (elapses : Elapses o n o') (peers : o.Peers a b p) :
    o'.Peers a b p := by
  obtain ⟨task, hget, hpriority⟩ := peers.peer
  obtain ⟨task', hget', hsame, -⟩ := elapses.record hget
  exact ⟨peers.apart, elapses.stays peers.queued, task', hget', hsame.trans hpriority⟩

theorem Elapses.trans {n m : Nat} (first : Elapses o n o₁) (second : Elapses o₁ m o') :
    Elapses o (n + m) o' := by
  have hcount : ∀ h, (if o.runner = some h then n + m else 0)
      = (if o.runner = some h then n else 0) + if o.runner = some h then m else 0 := by
    intro h
    split
    · rfl
    · rfl
  refine ⟨second.sound, second.settings.trans first.settings, second.depth.trans first.depth,
    second.runner.trans first.runner, fun hi => second.stays (first.stays hi), ?_, ?_, ?_⟩
  · intro h task hget
    obtain ⟨task₁, hget₁, hpriority₁, hcount₁⟩ := first.record hget
    obtain ⟨task₂, hget₂, hpriority₂, hcount₂⟩ := second.record hget₁
    refine ⟨task₂, hget₂, hpriority₂.trans hpriority₁, ?_⟩
    rw [hcount₂, hcount₁, first.runner, hcount, UInt32.ofNat_add, UInt32.add_assoc]
  · intro a b p peers running
    rw [second.spent (first.peers peers) (first.runner.trans running), first.spent peers running,
      Nat.add_assoc]
  · intro a b p peers
    have hfirst := first.credit peers
    have hsecond := second.credit (first.peers peers)
    rw [first.runner] at hsecond
    rw [hcount]
    omega

section Elapsing

variable (sound : o.Sound) (opened : o.depth = 0) (turns : o.settings.takingTurns = true)
  (preempts : o.settings.preemption = true) (inSlice : o.sliceSpent < o.settings.slice)

include sound opened turns preempts inSlice

theorem Sound.elapses_tick : Elapses o 1 o.tick.2 := by
  have hholds := sound.holdsLines_tick
  refine ⟨sound.tick, hholds.settings, hholds.depth, sound.tick_runner, sound.mem_line_tick, ?_, ?_,
    sound.credit_tick opened turns preempts inSlice⟩
  · intro h task hget
    obtain ⟨task', hget', hpriority, hcount⟩ := sound.tick_counts hget
    refine ⟨task', hget', hpriority, ?_⟩
    rw [hcount]
    split
    · rfl
    · rfl
  · intro a b p peers running
    rw [sound.tick_spent opened turns preempts peers running, toNat_saturatingSucc inSlice]

/-- While no tick asks for a switch, the slice goes on. -/
theorem Sound.elapses_unasked (n : Nat) (unasked : (elapseFrom false n o).1 = false) :
    Elapses o n (elapseFrom false n o).2
      ∧ (elapseFrom false n o).2.sliceSpent < (elapseFrom false n o).2.settings.slice := by
  induction n generalizing o with
  | zero => exact ⟨elapses_zero sound, inSlice⟩
  | succ n ih =>
      have hquiet : o.tick.1 = false := by
        cases hasked : o.tick.1 with
        | false => rfl
        | true =>
            simp only [elapseFrom, hasked, Bool.or_true, elapseFrom_asked] at unasked
            cases unasked
      have hrest : elapseFrom false (n + 1) o = elapseFrom false n o.tick.2 := by
        simp only [elapseFrom, hquiet, Bool.or_false]
      rw [hrest] at unasked ⊢
      have hfirst := sound.elapses_tick opened turns preempts inSlice
      obtain ⟨helapses, hslice⟩ := ih sound.tick (hfirst.depth.trans opened)
        (by rw [hfirst.settings]; exact turns) (by rw [hfirst.settings]; exact preempts)
        ((tick_slice opened turns preempts inSlice).2 hquiet) unasked
      refine ⟨?_, hslice⟩
      rw [Nat.add_comm]
      exact hfirst.trans helapses

omit sound opened turns preempts inSlice in
/-- The last of several ticks comes after the others. -/
theorem elapseFrom_succ (asked : Bool) (n : Nat) (o : Outline) :
    elapseFrom asked (n + 1) o
      = ((elapseFrom asked n o).1 || (elapseFrom asked n o).2.tick.1,
        (elapseFrom asked n o).2.tick.2) := by
  induction n generalizing asked o with
  | zero => rfl
  | succ n ih => exact ih (asked || o.tick.1) o.tick.2

/-- When the last tick asks for a switch and none before it does, the slice is used up
    only if the running task is to go behind its peers. -/
theorem Sound.elapses_asked (n : Nat) (unasked : (elapseFrom false n o).1 = false) :
    Elapses o (n + 1) (elapseFrom false (n + 1) o).2
      ∧ (elapseFrom false (n + 1) o).2.InTime := by
  obtain ⟨helapses, hslice⟩ :=
    sound.elapses_unasked opened turns preempts inSlice n unasked
  rw [elapseFrom_succ]
  generalize (elapseFrom false n o).2 = o₁ at helapses hslice ⊢
  have hdepth := helapses.depth.trans opened
  have hturns : o₁.settings.takingTurns = true := by
    rw [helapses.settings]
    exact turns
  have hpreempts : o₁.settings.preemption = true := by
    rw [helapses.settings]
    exact preempts
  exact ⟨helapses.trans (helapses.sound.elapses_tick hdepth hturns hpreempts hslice),
    (tick_slice hdepth hturns hpreempts hslice).1⟩

end Elapsing

/-! ## Choices -/

/-- The tasks keep their priorities and the ticks that have been counted for them. -/
def Recalls (o o' : Outline) : Prop :=
  ∀ h task', o'.get? h = some task' → ∃ task, o.get? h = some task
    ∧ task'.priority = task.priority ∧ task'.runTicks = task.runTicks

theorem Recalls.trans (first : Recalls o o₁) (second : Recalls o₁ o') : Recalls o o' := by
  intro h task' hget'
  obtain ⟨task₁, hget₁, hpriority₁, hcount₁⟩ := second h task' hget'
  obtain ⟨task, hget, hpriority, hcount⟩ := first h task₁ hget₁
  exact ⟨task, hget, hpriority₁.trans hpriority, hcount₁.trans hcount⟩

/-- A record that is replaced keeps the priority and the ticks. -/
theorem recalls_update (live : o.tenant i = some task) (generation : o'.generation = o.generation)
    (tenant : o'.tenant = update o.tenant i (some task')) (priority : task'.priority = task.priority)
    (runTicks : task'.runTicks = task.runTicks) : Recalls o o' := by
  intro h t' ht'
  simp only [get?, generation, tenant] at ht' ⊢
  by_cases hg : o.generation h.index = h.generation
  · rw [if_pos hg] at ht' ⊢
    rcases of_update_some ht' with ⟨hi, rfl⟩ | ⟨-, hlive⟩
    · exact ⟨task, hi ▸ live, priority, runTicks⟩
    · exact ⟨t', hlive, rfl, rfl⟩
  · rw [if_neg hg] at ht'
    cases ht'

/-- A task that is dispatched leaves its line. -/
theorem dispatch_line (o : Outline) (i : Nat) (next : Task) (p : Nat) :
    (o.dispatch i next).row (.ready p) = (o.row (.ready p)).filter (· ≠ i) := by
  have hmoved : (o.dispatch i next).row
      = (o.reseat .back i { next with activity := .running, place := .unlinked }).row := rfl
  rw [hmoved, reseat_row_of_ne (by rintro ⟨⟩)]

/-- The running task that is put back is at one end of the line of its level. -/
theorem Sound.putBack_line (sound : o.Sound) (side : Side) (running : o.runner = some task.handle)
    (p : Nat) :
    (o.putBack side task).row (.ready p) = o.row (.ready p)
      ∨ side = .front ∧ (o.putBack side task).row (.ready p)
        = task.handle.index :: o.row (.ready p)
      ∨ side = .back ∧ (o.putBack side task).row (.ready p)
        = o.row (.ready p) ++ [task.handle.index] := by
  have hnot : ∀ q, task.handle.index ∉ o.row q := sound.runner_not_mem running
  simp only [Outline.putBack, reseat_row, filter_of_not_mem (hnot _)]
  by_cases hp : Place.ready p = .ready task.priority
  · rw [if_pos hp]
    cases side with
    | front => exact Or.inr (Or.inl ⟨rfl, rfl⟩)
    | back => exact Or.inr (Or.inr ⟨rfl, rfl⟩)
  · rw [if_neg hp]
    exact Or.inl rfl

/-- The first task of a level has a slice before it when it is dispatched, as it had in
    its line. -/
theorem Sound.credit_dispatch (sound : o.Sound) {rest : List Nat}
    (row : o.row (.ready q) = i :: rest) (first : o.tenant i = some next)
    (level : next.handle = a → next.priority = p)
    (queued : b.index ∈ (o.dispatch i next).row (.ready p)) :
    (o.dispatch i next).credit a b p ≤ o.credit a b p := by
  obtain ⟨hrunner, -⟩ := sound.tagged.dispatch_runner first
  rw [dispatch_line] at queued
  by_cases hself : next.handle = a
  · have hlevel := level hself
    subst hself hlevel
    have hindex : next.handle.index = i := by
      rw [sound.tagged.handle first]
    obtain rfl := sound.level_of_row row first
    -- the first of its line is ahead of whoever stays in it, so it has a slice to come
    have hahead : Ahead next.handle.index b.index (o.row (.ready next.priority)) := by
      obtain ⟨hb, hne⟩ := List.mem_filter.mp queued
      rw [row] at hb ⊢
      rw [hindex]
      exact ahead_cons ((List.mem_cons.mp hb).resolve_left (of_decide_eq_true hne))
    rw [sound.credit_of_ahead hahead]
    exact credit_le_slice ..
  · refine sound.credit_of_rest rfl ?_ ?_
    · rw [hrunner]
      exact fun heq => hself (Option.some.inj heq)
    · intro hahead
      rw [dispatch_line] at hahead
      exact hahead.mono List.filter_sublist

/-- The running task that is put back at the head of its line has a whole slice before
    it, the ticks that it has used included; put at the end, it is behind its peers. -/
theorem Sound.credit_putBack (sound : o.Sound) (side : Side) (running : o.runner = some task.handle)
    (live : o.get? task.handle = some task) (peers : o.Peers a b p) :
    (o.putBack side task).credit a b p
      ≤ o.credit a b p + if side = .front ∧ task.handle = a then o.used else 0 := by
  obtain ⟨hsound, hlinked⟩ := sound.putBack side running live
  have hidle : (o.putBack side task).runner ≠ some a := by
    intro hrunner
    obtain ⟨-, t, hget, -⟩ := runner_eq_some hrunner
    exact hlinked (hsound.live hget) (hsound.runnerFree _ _ hrunner hget)
  by_cases hself : side = .front ∧ task.handle = a
  · obtain ⟨-, rfl⟩ := id hself
    rw [if_pos hself, credit_add_used running]
    exact credit_le_slice ..
  · rw [if_neg hself, Nat.add_zero]
    refine sound.credit_of_rest rfl hidle fun hahead => ?_
    rcases sound.putBack_line side running p with heq | ⟨rfl, heq⟩ | ⟨rfl, heq⟩
    · rwa [heq] at hahead
    · -- another task is at the head of the line now
      obtain ⟨t, hget, -⟩ := peers.peer
      have hother : a.index ≠ task.handle.index :=
        sound.index_ne hget live fun heq => hself ⟨rfl, heq⟩
      rw [heq] at hahead
      exact hahead.of_cons hother
    · have hb : b.index ∉ [task.handle.index] := by
        intro hmem
        rw [List.mem_singleton] at hmem
        exact sound.runner_not_mem running _ (hmem ▸ peers.queued)
      rw [heq] at hahead
      exact hahead.of_append hb

/-- A task is displaced when it ran, and is ready below the one that runs. -/
theorem displaced_of_ready (running : o.runner = some a) (live : o'.get? a = some task)
    (ready : task.activity = .ready) (leads : o'.runnerPriority = some q)
    (above : task.priority < q) : displaced o o' a = true := by
  simp [displaced, running, live, ready, leads, above]

/-- A choice ends a slice that is used up, and adds to the credit of a task only if it
    displaces the task, and then what the task has used of its slice. -/
structure Chosen (o o' : Outline) : Prop where
  settings : o'.settings = o.settings
  depth : o'.depth = o.depth
  recalls : Recalls o o'
  inSlice : 0 < o.settings.slice → o.InTime → o'.sliceSpent < o.settings.slice
  /-- A slot that is in line was there before, or its task ran. -/
  queued : ∀ {i p}, i ∈ o'.row (.ready p) →
    i ∈ o.row (.ready p) ∨ ∃ h, o.runner = some h ∧ h.index = i
  credit : ∀ {a b p}, o.Peers a b p → b.index ∈ o'.row (.ready p) →
    o'.credit a b p ≤ o.credit a b p + if displaced o o' a then o.used else 0

/-- A choice that keeps the running task, or finds no task, changes marks only. -/
theorem chosen_cleared
    (kept : o.sendBehind = true → ∀ p, o.runnerPriority = some p → o.row (.ready p) = []) :
    Chosen o o.cleared := by
  refine ⟨rfl, rfl, fun _ _ hget => ⟨_, hget, rfl, rfl⟩, ?_, fun hi => Or.inl hi,
    fun _ _ => Nat.le_add_right ..⟩
  rintro - (hlt | ⟨hbehind, p, hrunner, hline⟩)
  · exact hlt
  · exact absurd (kept hbehind p hrunner) hline

/-- Another task is the one of its handle, and has its priority. -/
theorem Peers.level (peers : o.Peers a b p) (tagged : o.Tagged) (first : o.tenant i = some next)
    (self : next.handle = a) : next.priority = p := by
  obtain ⟨task, hget, rfl⟩ := peers.peer
  have hnext := tagged.get?_handle first
  rw [self, hget] at hnext
  rw [Option.some.inj hnext]

theorem Sound.chosen_taken (sound : o.Sound) {rest : List Nat}
    (row : o.row (.ready q) = i :: rest) (first : o.tenant i = some next) :
    Chosen o (o.cleared.dispatch i next) := by
  refine ⟨rfl, rfl, recalls_update first rfl rfl rfl rfl, fun hpositive _ => hpositive, ?_, ?_⟩
  · intro j p hj
    rw [dispatch_line] at hj
    exact Or.inl (List.mem_filter.mp hj).1
  · intro a b p peers queued
    have hcredit := sound.cleared.credit_dispatch row first (peers.level sound.tagged first) queued
    exact Nat.le_trans hcredit (Nat.le_add_right ..)

theorem Sound.chosen_replaced (sound : o.Sound) {side : Side} {rest : List Nat}
    (running : o.runner = some task.handle) (live : o.get? task.handle = some task)
    (top : o.IsTop q) (row : o.row (.ready q) = i :: rest) (first : o.tenant i = some next)
    (why : side = .front ∧ task.priority < q ∨ side = .back ∧ q = task.priority) :
    Chosen o ((o.cleared.putBack side task).dispatch i next) := by
  have hunlinked : task.place = .unlinked := sound.runnerFree _ _ running live
  obtain ⟨hsound, -⟩ := sound.cleared.putBack side running live
  obtain ⟨-, rest', hrow⟩ := putBack_top sound.cleared.tagged live hunlinked top row why
  have hfirst := sound.putBack_tenant side running live row first
  refine ⟨rfl, rfl, ?_, fun hpositive _ => hpositive, ?_, ?_⟩
  · have hput : Recalls o (o.cleared.putBack side task) :=
      recalls_update (sound.live live) rfl rfl rfl rfl
    exact hput.trans (recalls_update hfirst rfl rfl rfl rfl)
  · intro j p hj
    rw [dispatch_line] at hj
    have hmem := (List.mem_filter.mp hj).1
    rcases sound.cleared.putBack_line side running p with heq | ⟨-, heq⟩ | ⟨-, heq⟩
    · rw [heq] at hmem
      exact Or.inl hmem
    · rw [heq] at hmem
      rcases List.mem_cons.mp hmem with rfl | hline
      · exact Or.inr ⟨_, running, rfl⟩
      · exact Or.inl hline
    · rw [heq] at hmem
      rcases List.mem_append.mp hmem with hline | hself
      · exact Or.inl hline
      · exact Or.inr ⟨_, running, (List.mem_singleton.mp hself).symm⟩
  · intro a b p peers queued
    have hdispatch := hsound.credit_dispatch hrow hfirst (peers.level sound.tagged first) queued
    have hput := sound.cleared.credit_putBack side running live (a := a) (b := b) (p := p)
      ⟨peers.apart, peers.queued, peers.peer⟩
    -- the dispatch adds no credit, and putting the runner back only what a displaced one is owed
    refine Nat.le_trans (Nat.le_trans hdispatch hput) (Nat.add_le_add_left ?_ _)
    -- in front of its line goes a task that was displaced, which is the case allowed for
    by_cases hself : side = .front ∧ task.handle = a
    · obtain ⟨rfl, rfl⟩ := hself
      have habove : task.priority < next.priority := by
        rcases why with ⟨-, hlt⟩ | ⟨hside, -⟩
        · rwa [sound.level_of_row row first] at hlt
        · cases hside
      have hlive := sound.live live
      have hne : task.handle.index ≠ i := by
        intro heq
        refine sound.runner_not_mem running (.ready q) ?_
        rw [row, heq]
        exact List.mem_cons_self
      have hback : ((o.cleared.putBack .front task).dispatch i next).get? task.handle
          = some { task with activity := .ready, place := .ready task.priority } := by
        rw [get?_dispatch hne]
        exact get?_update_self live rfl rfl
      have hleads := (hsound.tagged.dispatch_runner hfirst).2
      rw [if_pos ⟨rfl, rfl⟩, if_pos (displaced_of_ready running hback rfl hleads habove)]
      exact Nat.le_refl _
    · rw [if_neg hself]
      exact Nat.zero_le _

theorem Sound.chosen (sound : o.Sound) (opened : o.depth = 0) :
    Leaves (Chosen o) (choose o) := by
  have hchoice := choose_choice sound.tagged sound.runnerFree
  generalize choose o = r at hchoice ⊢
  cases hchoice with
  | frozen closed _ => exact absurd opened closed
  | barred closed _ => exact absurd opened closed
  | starved _ _ none => exact chosen_cleared fun _ p _ => none p
  | kept _ running live _ peers =>
      refine chosen_cleared fun hbehind p hrunner => ?_
      rw [runnerPriority_of_runner running live] at hrunner
      rw [← Option.some.inj hrunner]
      exact peers hbehind
  | taken _ _ _ row first => exact sound.chosen_taken row first
  | @replaced side p i rest task next _ running live top row first why =>
      refine sound.chosen_replaced running live top row first ?_
      rcases why with hfront | ⟨hback, hpeer, -⟩
      · exact Or.inl hfront
      · exact Or.inr ⟨hback, hpeer⟩

end Outline

end PriorityScheduler
