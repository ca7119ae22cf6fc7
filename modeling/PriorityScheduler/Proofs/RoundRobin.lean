import Mathlib.Data.List.Rotate
import Mathlib.Data.Nat.Count
import PriorityScheduler.Proofs.Elapsing
import PriorityScheduler.Proofs.Rotation

/-! # Taking turns

    Tasks of one priority take turns in a CIRCLE: one of them runs and the others stand in
    line behind it.  A tick is one of the running task's slice.  The tick that uses up the
    slice asks for a switch, and the switch moves the circle on by one: the first in line
    runs, with a whole slice before it, and the one that ran goes to the end of the line.

    So while no task above them is ready and no delayed task wakes, the ticks that ask for
    a switch are the last ones of the slices, the circle is rotated by the number of whole
    slices that have passed, and each task has run through the ticks of its turns. -/

namespace PriorityScheduler

open Routine

/-- Whose turn it is in a circle after a number of ticks, with turns of `slice` ticks. -/
def turnAt (circle : List Handle) (slice n : Nat) : Option Handle :=
  circle[n / slice % circle.length]?

/-! ## Counting turns -/

/-- The task at the head of a circle is the one whose turn it is. -/
theorem head?_rotate_turn {circle : List Handle} (some : circle ≠ []) (slice n : Nat) :
    (circle.rotate (n / slice)).head? = turnAt circle slice n := by
  rw [← List.rotate_mod, List.head?_rotate (Nat.mod_lt _ (List.length_pos_iff.mpr some))]
  rfl

/-- Within a turn one tick more is one of the turn. -/
theorem turn_goes_on {slice n : Nat} (early : n % slice + 1 < slice) :
    ¬ slice ∣ n + 1 ∧ (n + 1) / slice = n / slice ∧ (n + 1) % slice = n % slice + 1 := by
  have hsplit : n + 1 = slice * (n / slice) + (n % slice + 1) := by
    rw [← Nat.add_assoc, Nat.div_add_mod]
  have hmod : (n + 1) % slice = n % slice + 1 := by
    rw [hsplit, Nat.mul_add_mod, Nat.mod_eq_of_lt early]
  have hlast : ¬ slice ∣ n + 1 := by
    rw [Nat.dvd_iff_mod_eq_zero, hmod]
    exact Nat.succ_ne_zero _
  exact ⟨hlast, (Nat.succ_div_of_not_dvd hlast), hmod⟩

/-- At the end of a turn one tick more completes it. -/
theorem turn_ends {slice n : Nat} (last : n % slice + 1 = slice) :
    slice ∣ n + 1 ∧ (n + 1) / slice = n / slice + 1 ∧ (n + 1) % slice = 0 := by
  have hsplit : n + 1 = slice * (n / slice + 1) := by
    rw [Nat.mul_succ]
    have := Nat.div_add_mod n slice
    omega
  have hlast : slice ∣ n + 1 := ⟨_, hsplit⟩
  exact ⟨hlast, Nat.succ_div_of_dvd hlast, Nat.mod_eq_zero_of_dvd hlast⟩

namespace Outline

variable {o o' : Outline} {h r next : Handle} {task : Task} {c : Cycle} {p n turns : Nat}
  {line : List Handle}

/-! ## Ticks that wake nobody -/

/-- No delayed task wakes with one of the next ticks. -/
def NoneWakes (o : Outline) (n : Nat) : Prop :=
  ∀ h task c, o.get? h = some task → task.place = .delayed c → n < (task.wakeTick - o.now).toNat

/-- A tick brings a later tick nearer by one. -/
theorem toNat_sub_succ {a b : UInt32} (ahead : 0 < (a - b).toNat) :
    (a - (b + 1)).toNat + 1 = (a - b).toNat := by
  have ha := a.toNat_lt
  have hb := b.toNat_lt
  rw [UInt32.toNat_sub] at ahead ⊢
  rw [UInt32.toNat_sub, UInt32.toNat_add, UInt32.toNat_one]
  omega

/-- The clock of a tick that is about to wake tasks. -/
theorem charged_now (o : Outline) : o.chargeRunner.advance.now = o.now + 1 := by
  obtain ⟨spent, behind, due, heq⟩ := o.tick_passed
  have hnow := congrArg Moment.tick o.tick_moment
  rw [heq] at hnow
  exact hnow

/-- A task that is delayed when a tick is about to wake tasks was delayed before. -/
theorem Sound.of_delayed_charged (sound : o.Sound)
    (live : o.chargeRunner.advance.get? h = some task) (place : task.place = .delayed c) :
    o.get? h = some task := by
  have hcharged : o.chargeRunner.get? h = some task := by
    rcases o.chargeRunner.advance_cases with ⟨-, heq⟩ | ⟨-, heq⟩
    · rwa [heq] at live
    · rwa [heq] at live
  rcases o.chargeRunner_cases with heq | ⟨t, hrunning, heq⟩
  · rwa [heq] at hcharged
  · -- the task for which the tick is counted runs, and is on no list
    have hrunner := sound.chargeRunner_runner.trans (sound.of_running hrunning).1
    obtain ⟨-, t', hget, -⟩ := runner_eq_some hrunner
    have hi : h.index ≠ t.handle.index := by
      refine sound.chargeRunner.index_ne_of_place hcharged (sound.chargeRunner.live hget) ?_
      rw [sound.chargeRunner.runnerFree _ _ hrunner hget, place]
      rintro ⟨⟩
    rwa [heq, get?_put hi] at hcharged

/-- A tick that wakes nobody only counts. -/
theorem Sound.passed_quiet (sound : o.Sound) (quiet : o.NoneWakes (n + 1)) :
    o.passed = o.chargeRunner.advance := by
  have hstruck := sound.chargeRunner.advance
  have hdue : o.chargeRunner.advance.due = [] := by
    refine List.eq_nil_iff_forall_not_mem.mpr fun i hi => ?_
    obtain ⟨task, htask, hplace⟩ := hstruck.tagged.due.2 i hi
    have hlive := hstruck.tagged.get?_handle htask
    have hcalled : task.handle.index ∈ o.chargeRunner.advance.due := by
      rw [hstruck.tagged.handle htask]
      exact hi
    obtain ⟨-, hwake⟩ := (hstruck.mem_due hlive).mp hcalled
    have hfar := quiet _ _ _ (sound.of_delayed_charged hlive hplace) hplace
    rw [hwake, o.charged_now, UInt32.add_comm, UInt32.add_sub_cancel, UInt32.toNat_one] at hfar
    omega
  rw [Outline.passed, wakeDue, hdue, makeAllReady_nil]

/-- The ticks until the next wake-up are one less after a tick. -/
theorem NoneWakes.tick (quiet : o.NoneWakes (n + 1)) (sound : o.Sound) :
    o.tick.2.NoneWakes n := by
  obtain ⟨spent, behind, due, heq⟩ := o.tick_passed
  intro h task c hlive hplace
  have hnow : o.tick.2.now = o.now + 1 := congrArg Moment.tick o.tick_moment
  rw [heq, sound.passed_quiet quiet] at hlive
  have hfar := quiet h task c (sound.of_delayed_charged hlive hplace) hplace
  have hnearer := toNat_sub_succ (Nat.lt_trans (Nat.succ_pos n) hfar)
  rw [hnow]
  omega

/-! ## Choices of another task -/

/-- A choice of another task than the running one begins a slice. -/
theorem Sound.choose_begins (sound : o.Sound) (opened : o.depth = 0)
    (chosen : choose o = .ok next o') (other : o.runner ≠ some next) : o'.sliceSpent = 0 := by
  have hchoice := choose_choice sound.tagged sound.runnerFree
  rw [chosen] at hchoice
  cases hchoice with
  | frozen closed _ => exact absurd opened closed
  | kept _ running _ _ _ => exact absurd running other
  | taken _ _ _ _ _ => rfl
  | replaced _ _ _ _ _ _ _ => rfl

/-- A choice loses no task, and keeps the ticks that have been counted. -/
theorem Sound.choose_remembers (sound : o.Sound) (opened : o.depth = 0)
    (chosen : choose o = .ok next o') (live : o.get? h = some task) :
    ∃ task', o'.get? h = some task' ∧ task'.priority = task.priority
      ∧ task'.runTicks = task.runTicks := by
  obtain ⟨helects, -⟩ := sound.choose_elects opened chosen
  have hrecalls : Chosen o o' := by
    have hleaves := sound.chosen opened
    rwa [chosen] at hleaves
  by_cases hnext : h = next
  · subst hnext
    obtain ⟨-, task', hget', -⟩ := runner_eq_some helects.running
    obtain ⟨task₁, hget, hpriority, hcount⟩ := hrecalls.recalls h task' hget'
    obtain rfl := Option.some.inj (live.symm.trans hget)
    exact ⟨task', hget', hpriority, hcount⟩
  by_cases hrunner : o.runner = some h
  · exact ⟨_, helects.displaced h task hrunner live hnext, rfl, rfl⟩
  · refine ⟨task, ?_, rfl, rfl⟩
    rw [helects.tasks h, live]
    rw [List.mem_cons, Option.mem_toList, not_or]
    exact ⟨hnext, hrunner⟩

/-- A task that is chosen from a line has the priority of its level. -/
theorem Sound.choose_level (sound : o.Sound) (opened : o.depth = 0)
    (chosen : choose o = .ok next o') (queued : next ∈ o.roster (.ready p)) :
    ∃ task, o'.get? next = some task ∧ task.priority = p := by
  obtain ⟨-, task, hlive, hplace⟩ := sound.tagged.mem_roster.mp queued
  have hlevel : p = task.priority := (sound.settled.fits (sound.live hlive)).level _ hplace
  obtain ⟨task', hlive', hsame, -⟩ := sound.choose_remembers opened chosen hlive
  exact ⟨task', hlive', hsame.trans hlevel.symm⟩

/-- A choice does not touch those that are delayed. -/
theorem NoneWakes.choose (quiet : o.NoneWakes n) (sound : o.Sound) (opened : o.depth = 0)
    (chosen : Outline.choose o = .ok next o') : o'.NoneWakes n := by
  obtain ⟨helects, -⟩ := sound.choose_elects opened chosen
  have hsound' := keeps_sound_choose.ok sound chosen
  intro h task c hlive hplace
  have hnext : h ≠ next := by
    rintro rfl
    rw [hsound'.runnerFree _ _ helects.running hlive] at hplace
    cases hplace
  have hrunner : o.runner ≠ some h := by
    intro hrunner
    obtain ⟨-, task', hget, -⟩ := runner_eq_some hrunner
    have hback := helects.displaced h task' hrunner hget hnext
    obtain rfl := Option.some.inj (hback.symm.trans hlive)
    cases hplace
  have hsame : o.get? h = some task := by
    rw [← helects.tasks h, hlive]
    rw [List.mem_cons, Option.mem_toList, not_or]
    exact ⟨hnext, hrunner⟩
  rw [(sound.stays_of_choose chosen).now]
  exact quiet h task c hsame hplace

/-! ## Circles -/

/-- The tasks of a level take turns: the first of a circle runs, and the others stand in
    line behind it.  No task is ready above them, and nothing else is due. -/
structure Circle (o : Outline) (p : Nat) (line : List Handle) : Prop where
  sound : o.Sound
  opened : o.depth = 0
  turns : o.settings.takingTurns = true
  preempts : o.settings.preemption = true
  runner : o.runner = line.head?
  level : o.runnerPriority = some p
  queued : o.roster (.ready p) = line.tail
  peers : line.tail ≠ []
  above : ∀ q, p < q → o.row (.ready q) = []
  undue : o.switchDue = false

/-- The task that runs in a circle has a record. -/
theorem Circle.live (circle : Circle o p line) :
    ∃ r task, o.runner = some r ∧ o.get? r = some task ∧ task.priority = p := by
  obtain ⟨task, hbound, hpriority⟩ := Option.map_eq_some_iff.mp circle.level
  obtain ⟨r, hrunner, hget⟩ := Option.bind_eq_some_iff.mp hbound
  exact ⟨r, task, hrunner, hget, hpriority⟩

/-- A circle is the task that runs and the line behind it. -/
theorem Circle.line_eq (circle : Circle o p line) (running : o.runner = some r) :
    line = r :: o.roster (.ready p) := by
  rw [circle.queued]
  exact List.eq_cons_of_mem_head? (circle.runner.symm.trans running)

theorem Circle.row_ne_nil (circle : Circle o p line) : o.row (.ready p) ≠ [] := by
  rw [ne_eq, ← o.roster_eq_nil, circle.queued]
  exact circle.peers

/-- A tick that wakes nobody leaves the lists as they are. -/
theorem Sound.passed_row (sound : o.Sound) (quiet : o.NoneWakes (n + 1)) :
    o.passed.row = o.row := by
  rw [sound.passed_quiet quiet]
  exact o.charged_rest.1

/-- In a circle a tick wants a switch for the slice only. -/
theorem Circle.tick_slice (circle : Circle o p line) (quiet : o.NoneWakes (n + 1)) :
    o.tick = o.passed.chargeSlice p := by
  obtain ⟨r, task, hrunner, hget, rfl⟩ := circle.live
  have hsound := circle.sound
  obtain ⟨spent, behind, heq⟩ := o.passed.chargeSlice_snd task.priority
  obtain ⟨-, -, -, -, hdue, -⟩ := o.passed_rest
  have habove : (o.passed.chargeSlice task.priority).2.readyAbove task.priority = false := by
    rw [heq]
    refine (hsound.passed.tagged.readyAbove_eq_false task.priority).mpr fun q hq => ?_
    rw [hsound.passed_row quiet]
    exact circle.above q hq
  have hundue : (o.passed.chargeSlice task.priority).2.switchDue = false := by
    rw [heq]
    exact hdue.trans circle.undue
  rw [tick_open circle.opened circle.preempts]
  simp only [judge, hsound.passed_runnerPriority hrunner hget, habove, hundue, Bool.or_false]

/-- A tick that wakes nobody leaves the circle as it is. -/
theorem Circle.tick (circle : Circle o p line) (quiet : o.NoneWakes (n + 1)) :
    Circle o.tick.2 p line := by
  obtain ⟨r, task, hrunner, hget, hlevel⟩ := circle.live
  have hsound := circle.sound
  obtain ⟨spent, behind, heq⟩ := o.passed.chargeSlice_snd p
  rw [← circle.tick_slice quiet] at heq
  have hsettings := o.tick_settings.1
  -- nobody wakes, and to charge the slice leaves the lists alone
  have hrow : o.tick.2.row = o.row := by
    rw [heq]
    exact hsound.passed_row quiet
  have hroster : o.tick.2.roster (.ready p) = o.roster (.ready p) := by
    have hnamed : o.tick.2.named = o.named := by
      funext i
      simp only [named, o.tick_generation]
    simp only [roster, hrow, hnamed]
  refine ⟨hsound.tick, hsound.holdsLines_tick.depth.trans circle.opened, ?turns, ?preempts,
    hsound.tick_runner.trans circle.runner, ?level, hroster.trans circle.queued, circle.peers,
    ?above, ?undue⟩
  case turns => rw [hsettings, circle.turns]
  case preempts => rw [hsettings, circle.preempts]
  case level => rw [hsound.tick_runnerPriority hrunner hget, hlevel]
  case above =>
    intro q hq
    rw [hrow]
    exact circle.above q hq
  case undue =>
    rw [heq]
    exact o.passed_rest.2.2.2.2.1.trans circle.undue

/-- A tick is one of the slice, and asks for a switch if it is the last one. -/
theorem Circle.tick_spends (circle : Circle o p line) (quiet : o.NoneWakes (n + 1))
    (unmarked : o.sendBehind = false) (inSlice : o.sliceSpent < o.settings.slice) :
    o.tick.2.sliceSpent.toNat = o.sliceSpent.toNat + 1
      ∧ o.tick.1 = decide (o.sliceSpent.toNat + 1 = o.settings.slice.toNat)
      ∧ o.tick.2.sendBehind = o.tick.1 := by
  obtain ⟨hsettings, -, -, hbehind, -⟩ := o.passed_rest
  have hturns : o.passed.settings.takingTurns = true := hsettings ▸ circle.turns
  have hcount := toNat_saturatingSucc inSlice
  have hlt := UInt32.lt_iff_toNat_lt.mp inSlice
  have hline : o.passed.row (.ready p) ≠ [] := by
    rw [circle.sound.passed_row quiet]
    exact circle.row_ne_nil
  rw [circle.tick_slice quiet]
  rcases chargeSlice_cases hturns p with ⟨hnone, -⟩ | ⟨-, ⟨hover, heq⟩ | ⟨hgoes, heq⟩⟩
  · exact absurd hnone hline
  · rw [hsettings, o.passed_spent, UInt32.le_iff_toNat_le, hcount] at hover
    rw [heq, o.passed_spent]
    exact ⟨hcount, (decide_eq_true (by omega)).symm, rfl⟩
  · rw [hsettings, o.passed_spent, UInt32.lt_iff_toNat_lt, hcount] at hgoes
    rw [heq, o.passed_spent]
    exact ⟨hcount, (decide_eq_false (by omega)).symm, hbehind.trans unmarked⟩

/-- A switch that sends the running task behind moves the circle on by one. -/
theorem Circle.switch (circle : Circle o p line) (behind : o.sendBehind = true) :
    ∃ next o', choose o = .ok next o' ∧ Outline.switch o = .ok (some next) o'
      ∧ Circle o' p (line.rotate 1) ∧ o'.sendBehind = false ∧ o'.sliceSpent = 0
      ∧ o'.settings = o.settings := by
  obtain ⟨r, task, hrunner, hget, rfl⟩ := circle.live
  have hsound := circle.sound
  obtain ⟨next, o', hchosen, hgives⟩ :=
    hsound.choose_givesWay circle.opened hrunner hget circle.row_ne_nil behind
  obtain ⟨helects, hopened, hundue, hunmarked⟩ := hsound.choose_elects circle.opened hchosen
  have hsound' := keeps_sound_choose.ok hsound hchosen
  have hsettings := (hsound.stays_of_choose hchosen).settings
  obtain ⟨rest, hline, hline'⟩ := hgives.behind fun q hq =>
    (o.roster_eq_nil _).mpr (circle.above q hq)
  -- the next task comes to the front of the circle, and the runner to its end
  have hrotated : line.rotate 1 = next :: (rest ++ [r]) := by
    rw [circle.line_eq hrunner, hline, List.rotate_cons_succ, List.rotate_zero]
    rfl
  obtain ⟨t, hlive, hsame⟩ :=
    hsound.choose_level circle.opened hchosen (hline ▸ List.mem_cons_self)
  have hother : o.runner ≠ some next := by
    rw [hrunner]
    exact fun heq => hgives.other (Option.some.inj heq).symm
  refine ⟨next, o', hchosen, hgives.switch hrunner hchosen, ?_, hunmarked,
    hsound.choose_begins circle.opened hchosen hother, hsettings⟩
  refine ⟨hsound', hopened, ?turns, ?preempts, ?runner, ?level, ?queued, ?peers, ?above, hundue⟩
  case turns => rw [hsettings, circle.turns]
  case preempts => rw [hsettings, circle.preempts]
  case runner => rw [hrotated, helects.running, List.head?_cons]
  case level => rw [runnerPriority_of_runner helects.running hlive, hsame]
  case queued => rw [hrotated, hline', List.tail_cons]
  case peers =>
    rw [hrotated, List.tail_cons]
    exact List.append_ne_nil_of_right_ne_nil _ (List.cons_ne_nil _ _)
  case above =>
    intro q hq
    exact helects.highest t hlive q (hsame ▸ hq)

/-! ## Rounds -/

/-- One tick, and the switch that it asks for. -/
def tickAndSwitch : Step (Option (Option Handle)) := do
  if ← Step.always tick then
    return some (← switch)
  else
    return none

/-- A number of ticks, each with the switch that it asks for.  Answers which ones asked. -/
def rounds : Nat → Step (List Bool)
  | 0 => return []
  | n + 1 => do
      let asked ← rounds n
      let switched ← tickAndSwitch
      return asked ++ [switched.isSome]

/-- A circle has been moved on while ticks passed, none of which woke a task.  Each tick has
    been counted for the task whose turn it was, and for no other. -/
structure Revolved (o : Outline) (p : Nat) (line : List Handle) (n turns : Nat) (o' : Outline) :
    Prop where
  circle : Circle o' p (line.rotate turns)
  settings : o'.settings = o.settings
  quiet : ∀ m, o.NoneWakes (n + m) → o'.NoneWakes m
  counted : ∀ {h task}, o.get? h = some task → ∃ task', o'.get? h = some task'
    ∧ task'.runTicks = task.runTicks
      + UInt32.ofNat (Nat.count (fun j => turnAt line o.settings.slice.toNat j = some h) n)

theorem Circle.revolved (circle : Circle o p line) : Revolved o p line 0 0 o := by
  refine ⟨?_, rfl, fun m quiet => Nat.zero_add m ▸ quiet, fun {h task} hget => ⟨task, hget, ?_⟩⟩
  · rw [List.rotate_zero]
    exact circle
  · rw [Nat.count_zero]
    exact (UInt32.add_zero _).symm

/-- A tick is counted for the task whose turn it is. -/
theorem Revolved.tick (revolved : Revolved o p line n (n / o.settings.slice.toNat) o')
    (quiet : o.NoneWakes (n + 1)) :
    Revolved o p line (n + 1) (n / o.settings.slice.toNat) o'.tick.2 := by
  have hcircle := revolved.circle
  have hsome : line ≠ [] := by
    rintro rfl
    rw [List.rotate_nil] at hcircle
    exact hcircle.peers List.tail_nil
  have hrunner : o'.runner = turnAt line o.settings.slice.toNat n :=
    hcircle.runner.trans (head?_rotate_turn hsome _ n)
  refine ⟨hcircle.tick (revolved.quiet 1 quiet), o'.tick_settings.1.trans revolved.settings, ?_, ?_⟩
  · intro m hquiet
    rw [Nat.add_assoc, Nat.add_comm 1 m] at hquiet
    exact (revolved.quiet (m + 1) hquiet).tick hcircle.sound
  · intro h task hget
    obtain ⟨task₁, hget₁, hcount₁⟩ := revolved.counted hget
    obtain ⟨task₂, hget₂, -, hcount₂⟩ := hcircle.sound.tick_counts hget₁
    refine ⟨task₂, hget₂, ?_⟩
    rw [hcount₂, hcount₁, hrunner, Nat.count_succ, UInt32.ofNat_add, ← UInt32.add_assoc]
    split
    · rfl
    · rfl

/-- A switch moves the circle on, and no tick passes. -/
theorem Revolved.switch (revolved : Revolved o p line n turns o') (behind : o'.sendBehind = true) :
    ∃ next o'', Outline.switch o' = .ok (some next) o'' ∧ o''.sendBehind = false
      ∧ o''.sliceSpent = 0 ∧ Revolved o p line n (turns + 1) o'' := by
  have hcircle := revolved.circle
  obtain ⟨next, o'', hchosen, hswitch, hcircle', hunmarked, hspent, hsettings⟩ :=
    hcircle.switch behind
  refine ⟨next, o'', hswitch, hunmarked, hspent, ?_, hsettings.trans revolved.settings, ?_, ?_⟩
  · rwa [List.rotate_rotate] at hcircle'
  · intro m hquiet
    exact (revolved.quiet m hquiet).choose hcircle.sound hcircle.opened hchosen
  · intro h task hget
    obtain ⟨task₁, hget₁, hcount₁⟩ := revolved.counted hget
    obtain ⟨task₂, hget₂, -, hcount₂⟩ :=
      hcircle.sound.choose_remembers hcircle.opened hchosen hget₁
    exact ⟨task₂, hget₂, hcount₂.trans hcount₁⟩

/-- After a number of rounds the circle has been moved on once for each whole slice, and the
    present slice is used as far as the ticks since. -/
structure Between (o : Outline) (p : Nat) (line : List Handle) (n : Nat) (o' : Outline) : Prop
    extends Revolved o p line n (n / o.settings.slice.toNat) o' where
  unmarked : o'.sendBehind = false
  spent : o'.sliceSpent.toNat = n % o.settings.slice.toNat

/-- A round asks for a switch if its tick completes a slice, and then moves the circle on. -/
theorem Between.round (between : Between o p line n o') (positive : 0 < o.settings.slice.toNat)
    (quiet : o.NoneWakes (n + 1)) :
    ∃ switched o'', tickAndSwitch o' = .ok switched o''
      ∧ switched.isSome = decide (o.settings.slice.toNat ∣ n + 1)
      ∧ Between o p line (n + 1) o'' := by
  have hturn := Nat.mod_lt n positive
  have hinSlice : o'.sliceSpent < o'.settings.slice := by
    rw [UInt32.lt_iff_toNat_lt, between.settings, between.spent]
    exact hturn
  obtain ⟨hspent, hasked, hbehind⟩ :=
    between.circle.tick_spends (between.quiet 1 quiet) between.unmarked hinSlice
  have hrevolved := between.tick quiet
  rw [between.spent] at hspent hasked
  rw [between.settings] at hasked
  by_cases hlast : n % o.settings.slice.toNat + 1 = o.settings.slice.toNat
  · -- the slice is used up, and the running task goes to the end of the line
    obtain ⟨hdvd, hdiv, hmod⟩ := turn_ends hlast
    rw [decide_eq_true hlast] at hasked
    obtain ⟨next, o'', hswitch, hunmarked, hspent', hrevolved'⟩ :=
      hrevolved.switch (hbehind.trans hasked)
    refine ⟨some (some next), o'', ?_, (decide_eq_true hdvd).symm, ?_, hunmarked, ?_⟩
    · simp only [tickAndSwitch, bind, EStateM.bind, Step.always, hasked, if_true, hswitch]
      rfl
    · rw [hdiv]
      exact hrevolved'
    · rw [hspent', hmod]
      rfl
  · have hearly : n % o.settings.slice.toNat + 1 < o.settings.slice.toNat := by omega
    obtain ⟨hdvd, hdiv, hmod⟩ := turn_goes_on hearly
    rw [decide_eq_false hlast] at hasked
    refine ⟨none, o'.tick.2, ?_, (decide_eq_false hdvd).symm, ?_, hbehind.trans hasked, ?_⟩
    · simp only [tickAndSwitch, bind, EStateM.bind, Step.always, hasked]
      rfl
    · rw [hdiv]
      exact hrevolved
    · rw [hspent, hmod]

/-- Rounds ask for a switch whenever a slice is complete, and move the circle on. -/
theorem Circle.rounds (circle : Circle o p line) (unmarked : o.sendBehind = false)
    (fresh : o.sliceSpent = 0) (positive : 0 < o.settings.slice.toNat) (n : Nat)
    (quiet : o.NoneWakes n) :
    ∃ o', Outline.rounds n o
        = .ok ((List.range n).map fun j => decide (o.settings.slice.toNat ∣ j + 1)) o'
      ∧ Between o p line n o' := by
  induction n with
  | zero =>
      refine ⟨o, rfl, ?_, unmarked, ?_⟩
      · rw [Nat.zero_div]
        exact circle.revolved
      · rw [fresh, Nat.zero_mod]
        rfl
  | succ n ih =>
      obtain ⟨o₁, hbefore, hbetween⟩ :=
        ih fun h task c hget hplace => Nat.lt_of_succ_lt (quiet h task c hget hplace)
      obtain ⟨switched, o₂, hround, hasked, hbetween'⟩ := hbetween.round positive quiet
      refine ⟨o₂, ?_, hbetween'⟩
      simp only [Outline.rounds, bind, EStateM.bind, hbefore, hround, hasked, List.range_succ,
        List.map_append, List.map_singleton]
      rfl

theorem keeps_sound_tickAndSwitch : Step.Keeps Sound tickAndSwitch := by
  refine Step.keeps_bind (Step.keeps_always fun _ sound => sound.tick) fun asked => ?_
  exact Step.keeps_ite (Step.keeps_answer (Step.keeps_switch keeps_sound_choose) _)
    (Step.keeps_pure none)

theorem keeps_sound_rounds (n : Nat) : Step.Keeps Sound (rounds n) := by
  induction n with
  | zero => exact Step.keeps_pure []
  | succ n ih =>
      exact Step.keeps_bind ih fun asked => Step.keeps_answer keeps_sound_tickAndSwitch _

end Outline

namespace Kernel

variable {k : Kernel} {r : Handle} {p n : Nat} {peers : List Handle}

/-- A number of ticks, each with the switch that it asks for.  Answers which ones asked. -/
def rounds : Nat → Routine Kernel (List Bool)
  | 0 => return []
  | n + 1 => do
      let asked ← rounds n
      let switched ← tickAndSwitch
      return asked ++ [switched.isSome]

theorem Intact.enacts_tickAndSwitch (intact : k.Intact) (sound : k.outline.Sound) :
    Enacts tickAndSwitch Outline.tickAndSwitch k := by
  refine enacts_bind (intact.enacts_tick sound.cycle_done) ?_
  intro asked k' hintact hticked
  obtain ⟨-, hleft⟩ := EStateM.Result.ok.inj hticked
  have hsound : k'.outline.Sound := hleft ▸ sound.tick
  refine enacts_ite (fun _ => ?_) fun _ => enacts_pure hintact none
  exact enacts_answer (hintact.enacts_switch hsound.runnerFree) _

theorem Intact.enacts_rounds (intact : k.Intact) (sound : k.outline.Sound) (n : Nat) :
    Enacts (rounds n) (Outline.rounds n) k := by
  induction n with
  | zero => exact enacts_pure intact []
  | succ n ih =>
      refine enacts_bind ih ?_
      intro asked k' hintact hdone
      have hsound := (Outline.keeps_sound_rounds n).ok sound hdone
      exact enacts_answer (hintact.enacts_tickAndSwitch hsound) _

/-! ## The beginning of a turn -/

/-- A task runs and has just been dispatched: its slice is whole, and nothing is to send it
    behind its peers. -/
structure JustDispatched (k : Kernel) (r : Handle) : Prop where
  runner : k.runner = some r
  fresh : k.sliceSpent = 0
  unmarked : k.sendBehind = false

/-- A task begins its turn on a level: it has just been dispatched, the given peers stand in
    line behind it, no task is ready above them, and no switch is due. -/
structure TurnBegins (k : Kernel) (r : Handle) (p : Nat) (peers : List Handle) : Prop where
  opened : k.freeze.isOff = true
  turns : k.settings.takingTurns = true
  preempts : k.settings.preemption = true
  dispatched : k.JustDispatched r
  level : k.runnerPriority = some p
  queued : k.handlesAt (.ready p) = peers
  some : peers ≠ []
  above : ∀ q, p < q → k.handlesAt (.ready q) = []
  undue : k.switchDue = false

/-- A choice that dispatches another task than the running one begins its turn, if a peer
    stands in line. -/
theorem turnBegins_of_choose (reachable : Reachable k) (opened : k.freeze.isOff = true)
    (turns : k.settings.takingTurns = true) (preempts : k.settings.preemption = true)
    {pl : Platform} {m : Machine Kernel} (chosen : choose ⟨k, pl⟩ = .ok r m)
    (other : k.runner ≠ some r) (level : m.state.runnerPriority = some p)
    (some : m.state.handlesAt (.ready p) ≠ []) :
    TurnBegins m.state r p (m.state.handlesAt (.ready p)) := by
  obtain ⟨hintact, hsound⟩ := reachable.intact
  rw [isOff_outline, decide_eq_true_iff] at opened
  rw [runner_outline] at other
  obtain ⟨hintact', hchosen⟩ := (hintact.enacts_choose hsound.runnerFree).ok chosen
  obtain ⟨helects, hopened, hundue, hunmarked⟩ := hsound.choose_elects opened hchosen
  have hsettings : m.state.settings = k.settings := (hsound.stays_of_choose hchosen).settings
  have hrunner : m.state.runner = Option.some r := (runner_outline _).trans helects.running
  have hfresh : m.state.sliceSpent = 0 := hsound.choose_begins opened hchosen other
  refine ⟨?_, ?_, ?_, ⟨hrunner, hfresh, hunmarked⟩, level, rfl, some, ?_, hundue⟩
  · rw [isOff_outline]
    exact decide_eq_true hopened
  · rw [hsettings, turns]
  · rw [hsettings, preempts]
  · obtain ⟨task, hbound, rfl⟩ := Option.map_eq_some_iff.mp level
    rw [hrunner, Option.bind_some, get?_outline] at hbound
    intro q hq
    rw [hintact'.handlesAt, Outline.roster_eq_nil]
    exact helects.highest task hbound q hq

/-- No delayed task wakes with one of the next ticks. -/
def NoneWakes (k : Kernel) (n : Nat) : Prop :=
  ∀ c, ∀ h ∈ k.handlesAt (.delayed c), ∀ task ∈ k.table.get? h,
    n < (task.wakeTick - k.now).toNat

theorem Intact.noneWakes (intact : k.Intact) (quiet : k.NoneWakes n) : k.outline.NoneWakes n := by
  intro h task c hget hplace
  refine quiet c h ?_ task ((get?_outline k h).trans hget)
  rw [intact.handlesAt, intact.tagged.mem_roster]
  exact ⟨(by rintro ⟨⟩), task, hget, hplace⟩

theorem Intact.circle (intact : k.Intact) (sound : k.outline.Sound)
    (begins : TurnBegins k r p peers) : k.outline.Circle p (r :: peers) where
  sound := sound
  opened := by
    have hopened := begins.opened
    rwa [isOff_outline, decide_eq_true_iff] at hopened
  turns := begins.turns
  preempts := begins.preempts
  runner := (runner_outline k).symm.trans begins.dispatched.runner
  level := (runnerPriority_outline k).symm.trans begins.level
  queued := (intact.handlesAt _).symm.trans begins.queued
  peers := begins.some
  above := by
    intro q hq
    rw [← k.outline.roster_eq_nil, ← intact.handlesAt]
    exact begins.above q hq
  undue := begins.undue

/-- Round robin is exact.  Let a task of a reachable kernel begin its turn with any number of
    peers in line behind it, and let no delayed task wake with one of the next `n` ticks.
    Then `n` ticks, each with the switch that it asks for, are passed; those that ask are
    the ones that complete a slice; the task whose turn it is then runs, and the others
    stand in line behind it, in the order of the circle; and each task has been counted the
    ticks that fell in its turns. -/
theorem round_robin_exact (reachable : Reachable k) (begins : TurnBegins k r p peers)
    (quiet : k.NoneWakes n) (pl : Platform) :
    ∃ m, rounds n ⟨k, pl⟩
        = .ok ((List.range n).map fun j => decide (k.settings.slice.toNat ∣ j + 1)) m
      ∧ m.state.runner = turnAt (r :: peers) k.settings.slice.toNat n
      ∧ m.state.handlesAt (.ready p)
        = ((r :: peers).rotate (n / k.settings.slice.toNat)).tail
      ∧ ∀ h task, k.table.get? h = some task → ∃ task', m.state.table.get? h = some task'
        ∧ task'.runTicks = task.runTicks + UInt32.ofNat
          (Nat.count (fun j => turnAt (r :: peers) k.settings.slice.toNat j = some h) n) := by
  obtain ⟨hintact, hsound⟩ := reachable.intact
  have hpositive : 0 < k.settings.slice.toNat := by
    refine Nat.pos_of_ne_zero fun hzero => ?_
    exact hintact.threaded.valid.2.2 (UInt32.toNat_inj.mp hzero)
  obtain ⟨o, hrounds, hbetween⟩ := (hintact.circle hsound begins).rounds begins.dispatched.unmarked
    begins.dispatched.fresh hpositive n (hintact.noneWakes quiet)
  have henacts := hintact.enacts_rounds hsound n
  obtain ⟨m, hran, rfl⟩ := henacts.of_ok hrounds pl
  obtain ⟨hintact', -⟩ := henacts.ok hran
  refine ⟨m, hran, ?runner, ?queued, ?counted⟩
  case runner =>
    rw [runner_outline, hbetween.circle.runner]
    exact head?_rotate_turn (List.cons_ne_nil r peers) _ n
  case queued =>
    rw [hintact'.handlesAt]
    exact hbetween.circle.queued
  case counted =>
    intro h task hget
    rw [get?_outline] at hget
    rw [get?_outline]
    exact hbetween.counted hget

/-- Three workers take turns of two ticks while their guard is delayed.  Seven ticks are three
    whole turns and the first tick of another one: the first worker runs again. -/
theorem round_robin_exact_three :
    ∃ (k : Kernel) (pl : Platform) (m : Machine Kernel), Reachable k
      ∧ TurnBegins k ⟨1, 0⟩ 1 [⟨2, 0⟩, ⟨3, 0⟩] ∧ k.NoneWakes 7
      ∧ rounds 7 ⟨k, pl⟩ = .ok [false, true, false, true, false, true, false] m
      ∧ m.state.runner = some ⟨1, 0⟩ ∧ m.state.handlesAt (.ready 1) = [⟨2, 0⟩, ⟨3, 0⟩]
      ∧ ∃ task task', k.table.get? ⟨1, 0⟩ = some task ∧ m.state.table.get? ⟨1, 0⟩ = some task'
        ∧ task'.runTicks = task.runTicks + 3 := by
  have hvalid : ({ slice := 2 } : Settings).Valid := by decide
  have hdone : isDone (do
      let _ ← perform [.create { name := "guard", priority := 3 },
        .create { name := "first", priority := 1 }, .create { name := "second", priority := 1 },
        .create { name := "third", priority := 1 }, .choose, .block ⟨0, 0⟩ 100]
      let k₀ ← read
      let next ← choose
      let k ← read
      if (k₀.freeze.isOff = true ∧ k₀.settings.takingTurns = true
          ∧ k₀.settings.preemption = true ∧ k₀.runner = none ∧ next = ⟨1, 0⟩)
          ∧ k.runnerPriority = some 1 ∧ k.settings.slice = 2
          ∧ k.handlesAt (.ready 1) = [⟨2, 0⟩, ⟨3, 0⟩]
          ∧ (∀ h ∈ k.handlesAt (.delayed .even), ∀ task ∈ k.table.get? h,
            7 < (task.wakeTick - k.now).toNat)
          ∧ (∀ h ∈ k.handlesAt (.delayed .odd), ∀ task ∈ k.table.get? h,
            7 < (task.wakeTick - k.now).toNat)
          ∧ (k.table.get? ⟨1, 0⟩).isSome = true then
        pure ()
      else
        refuse .invalidState) ⟨initial { slice := 2 }, {}⟩ = true := by
    decide +kernel
  obtain ⟨⟨⟩, n, hrun⟩ := of_isDone hdone
  obtain ⟨rs, m₀, hperformed, hrun⟩ := of_bind_ok hrun
  obtain ⟨k₀, m₁, hread, hrun⟩ := of_bind_ok hrun
  obtain ⟨rfl, rfl⟩ := EStateM.Result.ok.inj hread
  obtain ⟨next, m, hchosen, hrun⟩ := of_bind_ok hrun
  obtain ⟨k, m₁, hread, hrun⟩ := of_bind_ok hrun
  obtain ⟨rfl, rfl⟩ := EStateM.Result.ok.inj hread
  obtain ⟨⟨⟨hopened, hturns, hpreempts, hidle, rfl⟩, hlevel, hslice, hqueued, heven, hodd, hlive⟩, -⟩ :=
    of_unless_ok hrun
  obtain ⟨task, hget⟩ := Option.isSome_iff_exists.mp hlive
  have hinitial : Reachable (⟨initial { slice := 2 }, {}⟩ : Machine Kernel).state :=
    .initial hvalid
  have hreachable₀ : Reachable m₀.state := hinitial.perform hperformed
  have hreachable : Reachable m.state := by
    refine .call .choose hreachable₀ (p := m₀.platform) (r := .ok (.task ⟨1, 0⟩)) ?_
    simp only [attempt, Call.run, bind, EStateM.bind, hchosen]
    rfl
  have hother : m₀.state.runner ≠ some ⟨1, 0⟩ := by
    rw [hidle]
    rintro ⟨⟩
  have hbegins := turnBegins_of_choose hreachable₀ hopened hturns hpreempts hchosen hother hlevel
    (hqueued ▸ List.cons_ne_nil _ _)
  rw [hqueued] at hbegins
  have hquiet : m.state.NoneWakes 7 := by
    intro c
    cases c with
    | even => exact heven
    | odd => exact hodd
  obtain ⟨m', hrounds, hrunner, hline, hcounted⟩ :=
    round_robin_exact hreachable hbegins hquiet m.platform
  obtain ⟨task', hget', hcount⟩ := hcounted ⟨1, 0⟩ task hget
  rw [hslice] at hrounds hrunner hline hcount
  exact ⟨m.state, m.platform, m', hreachable, hbegins, hquiet, hrounds, hrunner, hline, task, task',
    hget, hget', hcount⟩

end Kernel

end PriorityScheduler
