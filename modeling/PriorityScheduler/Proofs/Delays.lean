import Mathlib.Algebra.Order.Ring.Nat
import PriorityScheduler.Proofs.Frames
import PriorityScheduler.Proofs.Reachability

/-! # Delays end on time

    A delayed task AWAITS its tick: the count of the ticks that are left, the
    present tick and the tick to wake at fit together, with one turn of the
    counter between them if the task wakes in the next cycle.  Calls that are not
    about the task leave that count alone, and a tick takes one off it.  With the
    last one the task becomes ready. -/

namespace PriorityScheduler

open Function (update)

/-- The number of ticks that a call lets pass. -/
def Call.ticks : Call → Nat
  | .tick => 1
  | .elapse ticks => ticks.toNat
  | _ => 0

/-- The number of ticks that a history lets pass. -/
def ticksIn (calls : List Call) : Nat :=
  (calls.map Call.ticks).sum

/-- A call does not end the wait of a task, nor take the task away. -/
def Call.Spares (h : Handle) : Call → Prop
  | .wake h' => h' ≠ h
  | .cutShort h' => h' ≠ h
  | .suspend h' => h' ≠ h
  | .delete h' => h' ≠ h
  | _ => True

namespace Outline

variable {o o' : Outline} {h : Handle} {wake : Tick} {left : Nat} {task : Task}

/-! ## The count of ticks -/

/-- A task is delayed, and a number of ticks are left until it wakes. -/
def Awaits (o : Outline) (h : Handle) (wake : Tick) (left : Nat) : Prop :=
  ∃ task cycle, o.get? h = some task ∧ task.place = .delayed cycle ∧ task.wakeTick = wake
    ∧ o.now.toNat + left = wake.toNat + if cycle = o.cycle then 0 else 2 ^ 32

/-- The count stays while the clock does, and the task keeps its place and its
    tick. -/
theorem Awaits.congr (awaits : o.Awaits h wake left) (now : o'.now = o.now)
    (cycle : o'.cycle = o.cycle)
    (kept : ∀ task, o.get? h = some task → ∃ task', o'.get? h = some task'
      ∧ task'.place = task.place ∧ task'.wakeTick = task.wakeTick) : o'.Awaits h wake left := by
  obtain ⟨task, c, hget, hplace, hwake, hcount⟩ := awaits
  obtain ⟨task', hget', hplace', hwake'⟩ := kept task hget
  refine ⟨task', c, hget', hplace'.trans hplace, hwake'.trans hwake, ?_⟩
  rw [now, cycle]
  exact hcount

/-- The count stays while the clock and the record do. -/
theorem Awaits.frame (awaits : o.Awaits h wake left) (now : o'.now = o.now)
    (cycle : o'.cycle = o.cycle) (kept : o'.get? h = o.get? h) : o'.Awaits h wake left := by
  refine awaits.congr now cycle ?_
  intro task hget
  exact ⟨task, kept.trans hget, rfl, rfl⟩

theorem Awaits.wantSwitchIf (awaits : o.Awaits h wake left) (wanted : Bool) :
    (o.wantSwitchIf wanted).Awaits h wake left :=
  awaits.frame rfl rfl rfl

/-- There is a tick left, as long as the task is delayed. -/
theorem Awaits.pos (awaits : o.Awaits h wake left) (sound : o.Sound) : 0 < left := by
  obtain ⟨task, c, hget, hplace, rfl, hcount⟩ := awaits
  have htimed := sound.timed (sound.live hget)
  by_cases hc : c = o.cycle
  · rw [if_pos hc] at hcount
    have hahead := UInt32.lt_iff_toNat_lt.mp (htimed.ahead (hc ▸ hplace))
    omega
  · rw [if_neg hc] at hcount
    have hlt := o.now.toNat_lt
    omega

/-! ## Calls that are not about the task -/

/-- A delayed task is apart from every slot whose task is not delayed. -/
theorem Awaits.index_ne (awaits : o.Awaits h wake left) (sound : o.Sound) {i : Nat}
    (other : o.tenant i = some task) (place : ∀ c, task.place ≠ .delayed c) : h.index ≠ i := by
  obtain ⟨task', c, hget, hplace, -⟩ := awaits
  refine sound.index_ne_of_place hget other ?_
  rw [hplace]
  exact place c

/-- A delayed task is not on the list of a place where none waits for a tick. -/
theorem Awaits.index_not_mem (awaits : o.Awaits h wake left) (sound : o.Sound) {q : Place}
    (place : ∀ c, q ≠ .delayed c) : h.index ∉ o.row q := by
  obtain ⟨task', c, hget, hplace, -⟩ := awaits
  refine sound.index_not_mem hget ?_
  rw [hplace]
  exact place c

/-- A task that is doing something else is not delayed. -/
theorem Sound.not_delayed (sound : o.Sound) {i : Nat} (live : o.tenant i = some task)
    (activity : task.activity ≠ .blocked) (c : Cycle) : task.place ≠ .delayed c :=
  fun hplace => activity ((sound.settled.fits live).blocked_iff.mpr (Or.inl ⟨c, hplace⟩))

/-- The task that runs is not the delayed one. -/
theorem Awaits.index_ne_runner (awaits : o.Awaits h wake left) (sound : o.Sound)
    (running : o.runner = some task.handle) (live : o.get? task.handle = some task) :
    h.index ≠ task.handle.index := by
  refine awaits.index_ne sound (sound.live live) ?_
  rw [sound.runnerFree _ _ running live]
  rintro c ⟨⟩

section Steps

variable (sound : o.Sound) (awaits : o.Awaits h wake left)

include sound awaits

theorem Awaits.enroll {spec : TaskSpec} {flags : Flags} {h' : Handle}
    (done : o.enroll spec flags = .ok (h', o')) : o'.Awaits h wake left := by
  obtain ⟨task, c, hget, -⟩ := id awaits
  obtain ⟨-, i, hvacancy, rfl, ⟨-, rfl⟩ | ⟨-, wanted, rfl, -⟩⟩ := of_enroll_ok done
  · have hi := sound.index_ne_of_vacancy hget hvacancy
    exact awaits.frame rfl rfl ((get?_reseat hi .back).trans (get?_occupy_of_ne hi))
  · have hi := sound.index_ne_of_vacancy hget hvacancy
    have hready : ((o.occupy i (.ofSpec spec flags ⟨i, o.generation i⟩)).makeReady i
        (.ofSpec spec flags ⟨i, o.generation i⟩)).Awaits h wake left :=
      awaits.frame rfl rfl ((get?_makeReady hi).trans (get?_occupy_of_ne hi))
    exact hready.wantSwitchIf wanted

theorem Awaits.remove {h' : Handle} {was : Bool} (ne : h' ≠ h)
    (done : o.remove h' = .ok (was, o')) : o'.Awaits h wake left := by
  obtain ⟨task, c, hget, -⟩ := id awaits
  obtain ⟨task', hget', -, -, hcase⟩ := of_remove_ok done
  have hi := sound.index_ne hget hget' ne
  rcases hcase with ⟨-, -, rfl⟩ | ⟨-, -, rfl⟩
  · exact awaits.frame rfl rfl (get?_vacate hi)
  · exact awaits.frame rfl rfl (get?_vacate hi)

theorem Awaits.shelve {h' : Handle} {was : Bool} (ne : h' ≠ h)
    (done : o.shelve h' = .ok (was, o')) : o'.Awaits h wake left := by
  obtain ⟨task, c, hget, -⟩ := id awaits
  obtain ⟨task', hget', -, hcase⟩ := of_shelve_ok done
  have hi := sound.index_ne hget hget' ne
  rcases hcase with ⟨-, -, rfl⟩ | ⟨-, -, -, rfl⟩
  · exact awaits
  · exact awaits.frame rfl rfl (get?_reseat hi .back)

theorem Awaits.resume {h' : Handle} {wanted : Bool} (done : o.resume h' = .ok (wanted, o')) :
    o'.Awaits h wake left := by
  obtain ⟨task', hget', ⟨hsuspended, -, rfl⟩ | ⟨-, -, rfl⟩⟩ := of_resume_ok done
  · have hlive := sound.live hget'
    have hi := awaits.index_ne sound hlive
      (sound.not_delayed hlive (by rw [hsuspended]; decide))
    have hready : (o.makeReady h'.index task').Awaits h wake left :=
      awaits.frame rfl rfl (get?_makeReady hi)
    exact hready.wantSwitchIf wanted
  · exact awaits

/-- A delayed task may be given another priority, and waits on. -/
theorem Awaits.reprioritise {h' : Handle} {priority : Nat} {wanted : Bool}
    (done : o.reprioritise h' priority = .ok (wanted, o')) : o'.Awaits h wake left := by
  obtain ⟨task, c, hget, hplace, -⟩ := id awaits
  obtain ⟨-, task', hget', ⟨-, -, rfl⟩ | ⟨-, -, rfl⟩⟩ := of_reprioritise_ok done
  · exact awaits
  · by_cases hsame : h' = h
    · subst hsame
      -- a delayed task is on no level, so only its record changes
      have hqueued : ¬ queued task' = true := by
        rw [hget] at hget'
        rw [← Option.some.inj hget', queued_iff, hplace]
        intro ⟨p, hp⟩
        cases hp
      have hregrade : o.regrade h'.index task' priority
          = o.put h'.index { task' with priority := priority } := if_neg hqueued
      rw [hregrade]
      refine awaits.congr rfl rfl ?_
      intro t ht
      rw [hget'] at ht
      refine ⟨{ task' with priority := priority }, ?_, ?_, ?_⟩
      · exact get?_update_self hget' rfl rfl
      · rw [← Option.some.inj ht]
      · rw [← Option.some.inj ht]
    · have hi := sound.index_ne hget hget' hsame
      have hclock : (o.regrade h'.index task' priority).now = o.now
          ∧ (o.regrade h'.index task' priority).cycle = o.cycle := by
        simp only [regrade]
        split
        · exact ⟨rfl, rfl⟩
        · exact ⟨rfl, rfl⟩
      exact awaits.frame hclock.1 hclock.2 (get?_regrade hi priority)

/-- A delayed task may have its context saved, and waits on. -/
theorem Awaits.saveContext {h' : Handle} {context : Nat}
    (done : o.saveContext h' context = .ok ((), o')) : o'.Awaits h wake left := by
  obtain ⟨task, c, hget, -⟩ := id awaits
  obtain ⟨task', hget', rfl⟩ := of_saveContext_ok done
  by_cases hsame : h' = h
  · subst hsame
    refine awaits.congr rfl rfl ?_
    intro t ht
    rw [hget'] at ht
    obtain rfl := Option.some.inj ht
    exact ⟨{ task' with context := context }, get?_update_self hget' rfl rfl, rfl, rfl⟩
  · exact awaits.frame rfl rfl (get?_put (sound.index_ne hget hget' hsame))

theorem Awaits.block {h' : Handle} {ticks : Tick} (done : o.block h' ticks = .ok ((), o')) :
    o'.Awaits h wake left := by
  obtain ⟨task', hget', -, hactivity, -, ⟨-, rfl⟩ | ⟨-, rfl⟩⟩ := of_block_ok done
  · exact awaits
  · have hlive := sound.live hget'
    have hi := awaits.index_ne sound hlive (sound.not_delayed hlive (by
      rcases hactivity with hready | hrunning
      · rw [hready]
        decide
      · rw [hrunning]
        decide))
    have hheld : (o.reseat .back h'.index (o.held task' ticks)).Awaits h wake left :=
      awaits.frame rfl rfl (get?_reseat hi .back)
    exact hheld.wantSwitchIf _

theorem Awaits.endWait {h' : Handle} {early wanted : Bool} (ne : h' ≠ h)
    (done : o.endWait h' early = .ok (wanted, o')) : o'.Awaits h wake left := by
  obtain ⟨task, c, hget, -⟩ := id awaits
  obtain ⟨task', hget', -, -, rfl⟩ := of_endWait_ok done
  have hready : (o.makeReady h'.index (unheld task' early)).Awaits h wake left :=
    awaits.frame rfl rfl (get?_makeReady (sound.index_ne hget hget' ne))
  exact hready.wantSwitchIf wanted

theorem Awaits.thawAll : o.thawAll.2.Awaits h wake left := by
  rcases o.thawAll_cases with ⟨-, heq⟩ | ⟨-, heq⟩ | ⟨-, heq⟩
  · rw [heq]
    exact awaits
  · rw [heq]
    exact awaits.frame rfl rfl rfl
  · have hnot : h.index ∉ o.row .postponed :=
      awaits.index_not_mem sound (by rintro c ⟨⟩)
    rw [heq]
    exact awaits.frame rfl rfl (get?_makeAllReady (o := { o with depth := 0 }) hnot)

theorem Awaits.takeCutShort : o.takeCutShort.2.Awaits h wake left := by
  simp only [Outline.takeCutShort]
  cases hrun : o.runner.bind o.get? with
  | none => exact awaits
  | some task' =>
      obtain ⟨hrunner, hget'⟩ := sound.of_running hrun
      have hi := awaits.index_ne_runner sound hrunner hget'
      dsimp only
      by_cases hcut : task'.flags.cutShort = true
      · rw [if_pos hcut]
        exact awaits.frame rfl rfl (get?_put hi)
      · rw [if_neg hcut]
        exact awaits

end Steps

/-- A choice moves tasks that are ready or running only. -/
theorem keeps_awaits_choose :
    Step.Keeps (fun o => o.Sound ∧ o.Awaits h wake left) choose := by
  intro o hboth
  obtain ⟨sound, awaits⟩ := id hboth
  have hsound := keeps_sound_choose o sound
  have hchoice := choose_choice sound.tagged sound.runnerFree
  have hready : ∀ {p i rest next}, o.row (.ready p) = i :: rest → o.tenant i = some next →
      h.index ≠ i := by
    intro p i rest next hrow _ heq
    refine awaits.index_not_mem sound (q := .ready p) (by rintro c ⟨⟩) ?_
    rw [hrow, heq]
    exact List.mem_cons_self
  generalize choose o = r at hsound hchoice ⊢
  cases hchoice with
  | frozen => exact ⟨hsound, awaits.frame rfl rfl rfl⟩
  | barred => exact ⟨hsound, awaits.frame rfl rfl rfl⟩
  | starved => exact ⟨hsound, awaits.frame rfl rfl rfl⟩
  | kept => exact ⟨hsound, awaits.frame rfl rfl rfl⟩
  | taken _ _ _ row first =>
      exact ⟨hsound, awaits.frame rfl rfl (get?_dispatch (hready row first))⟩
  | replaced _ running live _ row first _ =>
      have hi := awaits.index_ne_runner sound running live
      exact ⟨hsound, awaits.frame rfl rfl
        ((get?_dispatch (hready row first)).trans (get?_putBack hi _))⟩

/-- Calls that let no tick pass and are not about the task leave it to wait. -/
theorem kept_awaits : Step.Kept (fun o => o.Sound ∧ o.Awaits h wake left)
    fun c => c.Spares h ∧ c.ticks = 0 where
  enroll := fun ⟨sound, awaits⟩ done =>
    ⟨kept_sound.enroll sound done, awaits.enroll sound done⟩
  enrollIdle := by
    rintro o entry o' ⟨sound, awaits⟩ done
    obtain ⟨-, idle, o'', hmade, rfl⟩ := of_enrollIdle_ok done
    exact ⟨sound.enrollIdle done, (awaits.enroll sound hmade).frame rfl rfl rfl⟩
  remove := fun hc ⟨sound, awaits⟩ done => ⟨sound.remove done, awaits.remove sound hc.1 done⟩
  shelve := fun hc ⟨sound, awaits⟩ done => ⟨sound.shelve done, awaits.shelve sound hc.1 done⟩
  resume := fun ⟨sound, awaits⟩ done => ⟨sound.resume done, awaits.resume sound done⟩
  reprioritise := fun ⟨sound, awaits⟩ done =>
    ⟨sound.reprioritise done, awaits.reprioritise sound done⟩
  saveContext := fun ⟨sound, awaits⟩ done =>
    ⟨sound.saveContext done, awaits.saveContext sound done⟩
  block := fun ⟨sound, awaits⟩ done => ⟨sound.block done, awaits.block sound done⟩
  endWait := by
    rintro o h' early wanted o' hc ⟨sound, awaits⟩ done
    refine ⟨sound.endWait done, awaits.endWait sound ?_ done⟩
    cases early with
    | false => exact hc.1
    | true => exact hc.1
  choose := keeps_awaits_choose
  sendBehind := fun ⟨sound, awaits⟩ => ⟨kept_sound.sendBehind sound, awaits.frame rfl rfl rfl⟩
  wantSwitch := fun ⟨sound, awaits⟩ => ⟨kept_sound.wantSwitch sound, awaits.frame rfl rfl rfl⟩
  freezeAll := fun ⟨sound, awaits⟩ => ⟨sound.freezeAll, awaits.frame rfl rfl rfl⟩
  thawAll := fun _ ⟨sound, awaits⟩ => ⟨sound.thawAll, awaits.thawAll sound⟩
  tick := fun hc => absurd hc.2 Nat.one_ne_zero
  elapse := by
    rintro o ticks ⟨-, hzero⟩ hboth
    have hnone : ticks.toNat = 0 := hzero
    rw [hnone]
    exact hboth
  takeCutShort := fun ⟨sound, awaits⟩ => ⟨sound.takeCutShort, awaits.takeCutShort sound⟩

/-! ## Ticks -/

/-- The wait of a task has ended by the tick: it is ready, or postponed while
    scheduling is suspended. -/
def TimedOut (o : Outline) (h : Handle) : Prop :=
  ∃ task, o.get? h = some task ∧ task.activity = .ready ∧ task.flags.timedOut = true
    ∧ task.place = o.readyPlace task

/-- A tick takes one off the count.  The counter may wrap on the way, and the task
    is then in the present cycle. -/
theorem Awaits.advance (awaits : o.Awaits h wake (left + 1)) (sound : o.Sound) :
    ∃ task, o.get? h = some task ∧ (∃ c, task.place = .delayed c)
      ∧ (left = 0 ↔ task.place = .delayed o.advance.cycle ∧ task.wakeTick = o.advance.now)
      ∧ (0 < left → ∀ o' : Outline, o'.now = o.advance.now → o'.cycle = o.advance.cycle →
          o'.get? h = some task → o'.Awaits h wake left) := by
  obtain ⟨task, c, hget, hplace, rfl, hcount⟩ := awaits
  have htimed := sound.timed (sound.live hget)
  have hlt := o.now.toNat_lt
  have hwake := task.wakeTick.toNat_lt
  have hcases : c = o.cycle ∨ c = o.cycle.other := by
    cases c <;> cases o.cycle <;> simp [Cycle.other]
  refine ⟨task, hget, ⟨c, hplace⟩, ?_⟩
  rcases o.advance_cases with ⟨hwrap, heq⟩ | ⟨hwrap, heq⟩
  · -- the counter wraps: no task of the ending cycle is left, so this one is of the next
    have hnow := toNat_of_succ_eq_zero hwrap
    have hnext : c = o.cycle.other := by
      rcases hcases with rfl | hnext
      · exact absurd (htimed.ahead hplace) (not_lt_of_succ_eq_zero hwrap)
      · exact hnext
    rw [if_neg (hnext ▸ Cycle.other_ne o.cycle)] at hcount
    have hleft : left = task.wakeTick.toNat := by omega
    rw [heq]
    constructor
    · show left = 0 ↔ task.place = .delayed o.cycle.other ∧ task.wakeTick = 0
      rw [hplace, hnext, hleft]
      constructor
      · intro hzero
        exact ⟨rfl, UInt32.toNat_inj.mp hzero⟩
      · rintro ⟨-, hzero⟩
        rw [hzero]
        rfl
    · intro _ o' hnow' hcycle' hget'
      refine ⟨task, c, hget', hplace, rfl, ?_⟩
      rw [hnow', hcycle', if_pos hnext]
      show 0 + left = _
      omega
  · -- the counter goes up by one, and a task of the next cycle is not due at all
    have hnow := toNat_succ hwrap
    have hlt' := (o.now + 1).toNat_lt
    rw [heq]
    constructor
    · show left = 0 ↔ task.place = .delayed o.cycle ∧ task.wakeTick = o.now + 1
      rw [hplace]
      rcases hcases with rfl | rfl
      · rw [if_pos rfl] at hcount
        constructor
        · intro hzero
          refine ⟨rfl, UInt32.toNat_inj.mp ?_⟩
          omega
        · rintro ⟨-, hreached⟩
          rw [hreached] at hcount
          omega
      · rw [if_neg (Cycle.other_ne o.cycle)] at hcount
        constructor
        · intro hzero
          omega
        · rintro ⟨hsame, -⟩
          exact absurd (Place.delayed.inj hsame) (Cycle.other_ne o.cycle)
    · intro _ o' hnow' hcycle' hget'
      refine ⟨task, c, hget', hplace, rfl, ?_⟩
      have hnow'' : o'.now.toNat = o.now.toNat + 1 := by
        rw [hnow']
        exact hnow
      have hcycle'' : o'.cycle = o.cycle := hcycle'
      rw [hnow'', hcycle'']
      omega

/-- A tick brings a delayed task one tick nearer, and with the last one the wait
    ends. -/
theorem Awaits.tick (awaits : o.Awaits h wake (left + 1)) (sound : o.Sound) :
    if left = 0 then o.tick.2.TimedOut h else o.tick.2.Awaits h wake left := by
  obtain ⟨task, hget, ⟨c, hplace⟩, hreached, hnear⟩ := awaits.advance sound
  have hlinked : task.place ≠ .unlinked := by
    rw [hplace]
    rintro ⟨⟩
  have htick := sound.tick_get? hget hlinked
  obtain ⟨hnow, hcycle, hdepth⟩ := o.tick_clock
  by_cases hleft : left = 0
  · rw [if_pos (hreached.mp hleft)] at htick
    rw [if_pos hleft]
    refine ⟨_, htick, rfl, rfl, ?_⟩
    show o.readyPlace (timedOut task) = o.tick.2.readyPlace (o.readied (timedOut task))
    simp only [readyPlace, hdepth]
    rfl
  · rw [if_neg (fun hdue => hleft (hreached.mpr hdue))] at htick
    rw [if_neg hleft]
    exact hnear (Nat.pos_of_ne_zero hleft) _ hnow hcycle htick

/-- Later ticks do not touch a task whose wait has ended. -/
theorem TimedOut.tick (ended : o.TimedOut h) (sound : o.Sound) : o.tick.2.TimedOut h := by
  obtain ⟨task, hget, hready, hmark, hplace⟩ := ended
  have hnot : ¬ (task.place = .delayed o.advance.cycle ∧ task.wakeTick = o.advance.now) := by
    rintro ⟨hdelayed, -⟩
    exact o.readied_ne_delayed task _ (hplace.symm.trans hdelayed)
  have htick := sound.tick_get? hget (hplace ▸ o.readyPlace_ne_unlinked task)
  rw [if_neg hnot] at htick
  refine ⟨task, htick, hready, hmark, ?_⟩
  obtain ⟨-, -, hdepth⟩ := o.tick_clock
  rw [hplace]
  simp only [readyPlace, hdepth]

/-- Over a number of ticks the wait goes on while ticks are left, and it has ended
    when none is. -/
theorem Awaits.elapseFrom (awaits : o.Awaits h wake left) (sound : o.Sound) (n : Nat)
    (asked : Bool) :
    if n < left then (Outline.elapseFrom asked n o).2.Awaits h wake (left - n)
    else (Outline.elapseFrom asked n o).2.TimedOut h := by
  induction n generalizing o left asked with
  | zero =>
      rw [if_pos (awaits.pos sound)]
      exact awaits
  | succ n ih =>
      obtain ⟨left, rfl⟩ := Nat.exists_eq_add_one_of_ne_zero (awaits.pos sound).ne'
      have htick := awaits.tick sound
      by_cases hlast : left = 0
      · rw [if_pos hlast] at htick
        rw [if_neg (by omega)]
        exact (Step.elapseFrom_keeps (I := fun o => o.Sound ∧ o.TimedOut h)
          (fun hboth => ⟨hboth.1.tick, hboth.2.tick hboth.1⟩) n _ ⟨sound.tick, htick⟩).2
      · rw [if_neg hlast] at htick
        have hrest := ih htick sound.tick (asked || o.tick.1)
        by_cases hn : n < left
        · rw [if_pos hn] at hrest
          rw [if_pos (by omega), Nat.add_sub_add_right]
          exact hrest
        · rw [if_neg hn] at hrest
          rw [if_neg (by omega)]
          exact hrest

/-! ## Histories -/

/-- A call that is not about the task lets its ticks pass, and the wait goes on
    while ticks are left. -/
theorem Awaits.call (awaits : o.Awaits h wake left) (sound : o.Sound) {c : Call}
    (spared : c.Spares h) {r : Except Refusal Reply}
    (ran : Step.attempt (run c) o = .ok r o') :
    if c.ticks < left then o'.Awaits h wake (left - c.ticks) else o'.TimedOut h := by
  by_cases hticks : c.ticks = 0
  · rw [hticks, if_pos (awaits.pos sound)]
    exact ((Step.keeps_attempt (kept_awaits.run ⟨spared, hticks⟩)).ok ⟨sound, awaits⟩ ran).2
  · cases c with
    | tick =>
        obtain ⟨-, rfl⟩ := EStateM.Result.ok.inj ran
        exact awaits.elapseFrom sound 1 false
    | elapse ticks =>
        obtain ⟨-, rfl⟩ := EStateM.Result.ok.inj ran
        exact awaits.elapseFrom sound ticks.toNat false
    | _ => exact absurd rfl hticks

/-- Over a history that is not about the task the wait goes on while ticks are
    left. -/
theorem Awaits.perform (awaits : o.Awaits h wake left) (sound : o.Sound) {calls : List Call}
    (spared : ∀ c ∈ calls, c.Spares h) {rs : List (Except Refusal Reply)}
    (ran : Outline.perform calls o = .ok rs o') (early : ticksIn calls < left) :
    o'.Awaits h wake (left - ticksIn calls) := by
  induction calls generalizing o left rs with
  | nil =>
      obtain ⟨-, rfl⟩ := EStateM.Result.ok.inj ran
      exact awaits
  | cons c rest ih =>
      have hticks : ticksIn (c :: rest) = c.ticks + ticksIn rest := List.sum_cons
      obtain ⟨r, o₁, hfirst, hrest⟩ := of_bind_ok ran
      obtain ⟨rs', o₂, hothers, hdone⟩ := of_bind_ok hrest
      obtain ⟨-, rfl⟩ := EStateM.Result.ok.inj hdone
      have hcall := awaits.call sound (spared c List.mem_cons_self) hfirst
      rw [if_pos (by omega)] at hcall
      have hsound := (Step.keeps_attempt (kept_sound.run trivial)).ok sound hfirst
      rw [hticks, ← Nat.sub_sub]
      refine ih hcall hsound ?_ hothers (by omega)
      exact fun c' hc' => spared c' (List.mem_cons_of_mem c hc')

/-- The count begins with the number of ticks that the task is blocked for. -/
theorem awaits_block {ticks : Tick} (some : ticks ≠ 0)
    (bounded : ticks ≠ waitForever) (done : o.block h ticks = .ok ((), o')) :
    o'.Awaits h (o.now + ticks) ticks.toNat := by
  obtain ⟨task, hget, -, -, -, ⟨hzero, -⟩ | ⟨-, rfl⟩⟩ := of_block_ok done
  · exact absurd hzero some
  · have hheld : (o.held task ticks).place = .delayed (o.cycleOf (o.now + ticks))
        ∧ (o.held task ticks).wakeTick = o.now + ticks := by
      simp only [held, if_neg bounded, and_self]
    refine ⟨o.held task ticks, o.cycleOf (o.now + ticks), ?_, hheld.1, hheld.2, ?_⟩
    · exact get?_update_self hget rfl rfl
    · show o.now.toNat + ticks.toNat
        = (o.now + ticks).toNat + if o.cycleOf (o.now + ticks) = o.cycle then 0 else 2 ^ 32
      have hsum : (o.now + ticks).toNat = (o.now.toNat + ticks.toNat) % 2 ^ 32 :=
        UInt32.toNat_add ..
      have hlt := o.now.toNat_lt
      have hlt' := ticks.toNat_lt
      by_cases hbelow : o.now + ticks < o.now
      · have hnext : o.cycleOf (o.now + ticks) = o.cycle.other := if_pos hbelow
        have hbelow' := UInt32.lt_iff_toNat_lt.mp hbelow
        rw [if_neg (hnext ▸ Cycle.other_ne o.cycle)]
        omega
      · have hpresent : o.cycleOf (o.now + ticks) = o.cycle := if_neg hbelow
        have hbelow' := UInt32.le_iff_toNat_le.mp (UInt32.not_lt.mp hbelow)
        rw [if_pos hpresent]
        omega

end Outline

namespace Kernel

open Routine

/-! ## Delayed tasks of a kernel -/

/-- A task is blocked until a tick, and stands on a list of delayed tasks. -/
def DelayedUntil (k : Kernel) (h : Handle) (wake : Tick) : Prop :=
  ∃ task cycle, k.table.get? h = some task ∧ task.activity = .blocked
    ∧ task.place = .delayed cycle ∧ task.wakeTick = wake ∧ h ∈ k.handlesAt (.delayed cycle)

/-- A task is ready because its wait has ended by the tick; it stands on its level,
    or among the postponed tasks. -/
def ReadyByTimeout (k : Kernel) (h : Handle) (opened : Bool) : Prop :=
  ∃ task, k.table.get? h = some task ∧ task.activity = .ready ∧ task.flags.timedOut = true
    ∧ task.place = (if opened then .ready task.priority else .postponed)
    ∧ h ∈ k.handlesAt task.place

/-- A task is among those on the list that its record names. -/
theorem Intact.mem_handlesAt {k : Kernel} (intact : k.Intact) {h : Handle} {task : Task}
    (live : k.outline.get? h = some task) (linked : task.place ≠ .unlinked) :
    h ∈ k.handlesAt task.place := by
  obtain ⟨htenant, hhandle⟩ := intact.tagged.get?_eq_some.mp live
  have hmem : h.index ∈ k.slotsAt task.place :=
    (intact.tagged.mem_row _ _).mpr ⟨linked, task, htenant, rfl⟩
  have htenant' : k.table.tenant? h.index = some task := htenant
  refine List.mem_filterMap.mpr ⟨h.index, hmem, ?_⟩
  rw [htenant', ← hhandle]
  rfl

/-- A task that awaits its tick is delayed until then. -/
theorem Intact.delayedUntil {k : Kernel} (intact : k.Intact) (sound : k.outline.Sound)
    {h : Handle} {wake : Tick} {left : Nat} (awaits : k.outline.Awaits h wake left) :
    k.DelayedUntil h wake := by
  obtain ⟨task, c, hget, hplace, hwake, -⟩ := awaits
  have hlinked : task.place ≠ .unlinked := by
    rw [hplace]
    rintro ⟨⟩
  refine ⟨task, c, (get?_outline k h).trans hget, ?_, hplace, hwake, ?_⟩
  · exact (sound.settled.fits (sound.live hget)).blocked_iff.mpr (Or.inl ⟨c, hplace⟩)
  · rw [← hplace]
    exact intact.mem_handlesAt hget hlinked

/-- A task whose wait has ended by the tick is ready. -/
theorem Intact.readyByTimeout {k : Kernel} (intact : k.Intact) {h : Handle}
    (ended : k.outline.TimedOut h) : k.ReadyByTimeout h k.freeze.isOff := by
  obtain ⟨task, hget, hready, hmark, hplace⟩ := ended
  have hlinked : task.place ≠ .unlinked := hplace ▸ k.outline.readyPlace_ne_unlinked task
  refine ⟨task, (get?_outline k h).trans hget, hready, hmark, ?_, intact.mem_handlesAt hget hlinked⟩
  rw [isOff_outline, hplace]
  rcases k.outline.readyPlace_cases task with ⟨hopen, heq⟩ | ⟨hclosed, heq⟩
  · rw [heq, decide_eq_true hopen]
    rfl
  · rw [heq, decide_eq_false hclosed]
    rfl

/-- Only ticks are counted. -/
theorem ticks_cases {c : Call} (some : c.ticks ≠ 0) : c = .tick ∨ ∃ n, c = .elapse n := by
  cases c with
  | tick => exact Or.inl rfl
  | elapse n => exact Or.inr ⟨n, rfl⟩
  | _ => exact absurd rfl some

/-- Letting ticks pass is never refused and does not touch the suspension of the
    scheduler. -/
theorem Intact.ticks_done {k : Kernel} (intact : k.Intact) (sound : k.outline.Sound) {c : Call}
    (some : c.ticks ≠ 0) (p : Platform) :
    ∃ r m, attempt c.run ⟨k, p⟩ = .ok r m ∧ m.state.freeze.isOff = k.freeze.isOff := by
  have hclock : ∀ n asked (o : Outline), (Outline.elapseFrom asked n o).2.depth = o.depth := by
    intro n
    induction n with
    | zero => exact fun _ _ => rfl
    | succ n ih =>
        intro asked o
        obtain ⟨-, -, hdepth⟩ := o.tick_clock
        exact (ih _ _).trans hdepth
  have hstep : ∃ r o, Outline.run c k.outline = .ok r o ∧ o.depth = k.outline.depth := by
    rcases ticks_cases some with rfl | ⟨n, rfl⟩
    · exact ⟨_, _, rfl, hclock 1 false _⟩
    · exact ⟨_, _, rfl, hclock n.toNat false _⟩
  obtain ⟨r, o, hrun, hdepth⟩ := hstep
  obtain ⟨m, hend, rfl⟩ := (intact.enacts_run sound c).of_ok hrun p
  refine ⟨.ok r, m, ?_, ?_⟩
  · simp only [attempt, hend]
  · rw [isOff_outline, isOff_outline, hdepth]

/-! ## Exact wake-ups -/

/-- A task that is blocked for a number of ticks is delayed until the present tick
    and that number, modulo the range of the counter, through every history that
    is not about the task and lets fewer ticks pass.  The call that lets the last
    of them pass makes it ready, and no call before. -/
theorem block_wakes_exactly {k : Kernel} (reachable : Reachable k) {h : Handle} {ticks : Tick}
    (some : 0 < ticks) (bounded : ticks < waitForever) {p : Platform} {m : Machine Kernel}
    (blocked : block h ticks ⟨k, p⟩ = .ok () m) {calls : List Call}
    (spared : ∀ c ∈ calls, c.Spares h) {rs : List (Except Refusal Reply)} {m' : Machine Kernel}
    (ran : perform calls m = .ok rs m') (early : ticksIn calls < ticks.toNat) :
    m'.state.DelayedUntil h (k.now + ticks)
      ∧ ∀ c : Call, ticks.toNat ≤ ticksIn calls + c.ticks →
          ∃ r m'', attempt c.run m' = .ok r m'' ∧ m''.state.ReadyByTimeout h m'.state.freeze.isOff := by
  obtain ⟨hintact, hsound⟩ := reachable.intact
  obtain ⟨hintact₁, hblock⟩ := (hintact.obeys_block h ticks).ok blocked
  have hsound₁ : m.state.outline.Sound := hsound.block hblock
  have hawaits₁ := Outline.awaits_block (UInt32.pos_iff_ne_zero.mp some)
    (UInt32.ne_of_lt bounded) hblock
  obtain ⟨hintact₂, hsound₂, hperform⟩ := hintact₁.of_perform hsound₁ ran
  -- none of the ticks so far is the last one
  have hawaits₂ := hawaits₁.perform hsound₁ spared hperform early
  refine ⟨hintact₂.delayedUntil hsound₂ hawaits₂, ?_⟩
  intro c hlast
  have hticks : c.ticks ≠ 0 := by omega
  obtain ⟨r, m'', hcall, hgate⟩ := hintact₂.ticks_done hsound₂ hticks m'.platform
  have hspares : c.Spares h := by
    rcases ticks_cases hticks with rfl | ⟨n, rfl⟩
    · trivial
    · trivial
  obtain ⟨hintact₃, hsound₃, hstep⟩ := hintact₂.of_call hsound₂ hcall
  have hover := hawaits₂.call hsound₂ hspares hstep
  rw [if_neg (by omega)] at hover
  refine ⟨r, m'', hcall, ?_⟩
  rw [← hgate]
  exact hintact₃.readyByTimeout hover

/-- A task that is blocked for five ticks just before the counter wraps is delayed
    while four of them pass, with the scheduler suspended on the way, and the
    fifth makes it ready. -/
theorem block_wakes_exactly_across_wrap :
    ∃ (k : Kernel) (p : Platform) (m m' : Machine Kernel) (rs : List (Except Refusal Reply)),
      Reachable k ∧ block ⟨0, 0⟩ 5 ⟨k, p⟩ = .ok () m
        ∧ perform [.tick, .freezeAll, .elapse 3] m = .ok rs m'
        ∧ m'.state.DelayedUntil ⟨0, 0⟩ (k.now + 5)
        ∧ ∃ r m'', attempt Call.tick.run m' = .ok r m''
          ∧ m''.state.ReadyByTimeout ⟨0, 0⟩ m'.state.freeze.isOff := by
  have hvalid : ({ firstTick := 0xFFFFFFFE } : Settings).Valid := by decide
  have hdone : isDone (do
      let _ ← attempt (Call.run (.create { name := "worker", priority := 1 }))
      block ⟨0, 0⟩ 5
      perform [.tick, .freezeAll, .elapse 3]) ⟨initial { firstTick := 0xFFFFFFFE }, {}⟩ = true := by
    decide +kernel
  obtain ⟨rs, m', hrun⟩ := of_isDone hdone
  obtain ⟨r, m₀, hcreated, hrun⟩ := of_bind_ok hrun
  obtain ⟨⟨⟩, m, hblocked, hperformed⟩ := of_bind_ok hrun
  have hreachable : Reachable m₀.state := .call _ (.initial hvalid) hcreated
  obtain ⟨hdelayed, hready⟩ := block_wakes_exactly hreachable (by decide) (by decide) hblocked
    (by simp [Call.Spares]) hperformed (by decide)
  exact ⟨m₀.state, m₀.platform, m, m', rs, hreachable, hblocked, hperformed, hdelayed,
    hready .tick (by decide)⟩

end Kernel

end PriorityScheduler
