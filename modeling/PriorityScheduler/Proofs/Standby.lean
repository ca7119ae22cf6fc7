import PriorityScheduler.Proofs.Delays
import PriorityScheduler.Proofs.Halting

/-! # The idle task stands by

    The idle task can be neither deleted nor suspended nor blocked, so once it is
    made it is always ready or running.  What a call does to another task does not
    touch it, a choice exchanges ready tasks for the running one, and a suspension
    of the scheduler only moves it to the postponed tasks.

    Hence there is always a task to dispatch, and no call of a scheduler that has
    an idle task stops it. -/

namespace PriorityScheduler

open Function (update)

namespace Outline

variable {o o' : Outline} {i : Nat} {h : Handle} {task task' : Task} {known : Option Handle}

/-! ## The watch -/

/-- If a task is marked as the idle one, it is ready or running. -/
def Alert (task : Task) : Prop :=
  task.flags.idle = true → task.activity = .ready ∨ task.activity = .running

/-- Every record is alert, and the idle task that is known of is still remembered. -/
structure Watched (known : Option Handle) (o : Outline) : Prop where
  alert : ∀ {i task}, o.tenant i = some task → Alert task
  known : ∀ {h}, known = some h → o.idle = some h

theorem alert_of_unmarked (unmarked : task.flags.idle = false) : Alert task := by
  intro hmark
  rw [unmarked] at hmark
  cases hmark

/-- A task that becomes ready is alert. -/
theorem alert_readied (o : Outline) (task : Task) : Alert (o.readied task) :=
  fun _ => Or.inl rfl

/-- A record is alert if it shares the mark and the activity with one that is. -/
theorem Alert.congr (alert : Alert task) (idle : task'.flags.idle = task.flags.idle)
    (activity : task'.activity = task.activity) : Alert task' := by
  intro hmark
  rw [activity]
  exact alert (idle.symm.trans hmark)

/-- The watch goes on over records that are alert or were there before. -/
theorem Watched.of_tenants (watched : o.Watched known)
    (tenants : ∀ {i task}, o'.tenant i = some task → Alert task ∨ o.tenant i = some task)
    (idle : o'.idle = o.idle) : o'.Watched known := by
  constructor
  · intro i task htask
    rcases tenants htask with halert | hold
    · exact halert
    · exact watched.alert hold
  · intro h hknown
    rw [idle]
    exact watched.known hknown

/-- The watch goes on when a slot is given an alert record. -/
theorem Watched.update (watched : o.Watched known)
    (tenant : o'.tenant = update o.tenant i (some task')) (idle : o'.idle = o.idle)
    (alert : Alert task') : o'.Watched known := by
  refine watched.of_tenants ?_ idle
  intro j t ht
  rw [tenant] at ht
  rcases of_update_some ht with ⟨-, rfl⟩ | ⟨-, hold⟩
  · exact Or.inl alert
  · exact Or.inr hold

/-- The watch goes on while marks and counters change. -/
theorem Watched.frame (watched : o.Watched known) (tenant : o'.tenant = o.tenant)
    (idle : o'.idle = o.idle) : o'.Watched known := by
  refine watched.of_tenants ?_ idle
  intro j t ht
  rw [tenant] at ht
  exact Or.inr ht

/-- The watch goes on when tasks become ready together. -/
theorem Watched.makeAllReady (watched : o.Watched known) (f : Task → Task) (l : List Nat) :
    (o.makeAllReady f l).Watched known := by
  refine watched.of_tenants ?_ rfl
  intro i t ht
  rcases makeAllReady_tenant_cases ht with ⟨-, t', -, rfl⟩ | ⟨-, hold⟩
  · exact Or.inl (o.alert_readied (f t'))
  · exact Or.inr hold

/-! ## Steps -/

/-- A task that is made is alert, if it is not the idle one or begins ready. -/
theorem Watched.enroll (watched : o.Watched known) {spec : TaskSpec} {flags : Flags}
    (begins : flags.idle = false ∨ spec.begins = .ready)
    (done : o.enroll spec flags = .ok (h, o')) : o'.Watched known := by
  obtain ⟨-, i, -, rfl, ⟨hbegins, rfl⟩ | ⟨-, wanted, rfl, -⟩⟩ := of_enroll_ok done
  · have hunmarked : flags.idle = false := by
      refine begins.resolve_right ?_
      rw [hbegins]
      decide
    exact watched.update (Function.update_idem ..) rfl (alert_of_unmarked hunmarked)
  · exact watched.update (Function.update_idem ..) rfl (alert_readied _ _)

/-- The idle task is made when none was known. -/
theorem Watched.enrollIdle (watched : o.Watched known) {entry : Nat}
    (done : o.enrollIdle entry = .ok ((), o')) : o'.Watched known := by
  obtain ⟨hnone, idle, o'', hmade, rfl⟩ := of_enrollIdle_ok done
  have hmade' : o''.Watched known := watched.enroll (Or.inr rfl) hmade
  refine ⟨hmade'.alert, ?_⟩
  intro h hknown
  rw [watched.known hknown] at hnone
  cases hnone

theorem Watched.remove (watched : o.Watched known) {was : Bool}
    (done : o.remove h = .ok (was, o')) : o'.Watched known := by
  obtain ⟨task, -, -, -, ⟨-, -, rfl⟩ | ⟨-, -, rfl⟩⟩ := of_remove_ok done
  · exact watched.of_tenants (fun ht => Or.inr (of_update_none ht).2) rfl
  · exact watched.of_tenants (fun ht => Or.inr (of_update_none ht).2) rfl

theorem Watched.shelve (watched : o.Watched known) {was : Bool}
    (done : o.shelve h = .ok (was, o')) : o'.Watched known := by
  obtain ⟨task, -, hunmarked, ⟨-, -, rfl⟩ | ⟨-, -, -, rfl⟩⟩ := of_shelve_ok done
  · exact watched
  · exact watched.update rfl rfl (alert_of_unmarked hunmarked)

theorem Watched.resume (watched : o.Watched known) {wanted : Bool}
    (done : o.resume h = .ok (wanted, o')) : o'.Watched known := by
  obtain ⟨task, -, ⟨-, -, rfl⟩ | ⟨-, -, rfl⟩⟩ := of_resume_ok done
  · exact watched.update rfl rfl (o.alert_readied task)
  · exact watched

/-- The idle task, too, may be given another priority. -/
theorem Watched.reprioritise (watched : o.Watched known) (sound : o.Sound) {priority : Nat}
    {wanted : Bool} (done : o.reprioritise h priority = .ok (wanted, o')) : o'.Watched known := by
  obtain ⟨-, task, hget, ⟨-, -, rfl⟩ | ⟨-, -, rfl⟩⟩ := of_reprioritise_ok done
  · exact watched
  · have hregraded : (o.regrade h.index task priority).Watched known := by
      simp only [regrade]
      by_cases hqueued : queued task = true
      · rw [if_pos hqueued]
        exact watched.update rfl rfl (fun _ => Or.inl rfl)
      · rw [if_neg hqueued]
        exact watched.update rfl rfl ((watched.alert (sound.live hget)).congr rfl rfl)
    exact hregraded.frame rfl rfl

theorem Watched.saveContext (watched : o.Watched known) (sound : o.Sound) {context : Nat}
    (done : o.saveContext h context = .ok ((), o')) : o'.Watched known := by
  obtain ⟨task, hget, rfl⟩ := of_saveContext_ok done
  exact watched.update rfl rfl ((watched.alert (sound.live hget)).congr rfl rfl)

theorem Watched.block (watched : o.Watched known) {ticks : Tick}
    (done : o.block h ticks = .ok ((), o')) : o'.Watched known := by
  obtain ⟨task, -, hunmarked, -, -, ⟨-, rfl⟩ | ⟨-, rfl⟩⟩ := of_block_ok done
  · exact watched
  · obtain ⟨-, hmark, -⟩ := o.held_keeps task ticks
    exact watched.update rfl rfl (alert_of_unmarked (hmark.trans hunmarked))

theorem Watched.endWait (watched : o.Watched known) {early wanted : Bool}
    (done : o.endWait h early = .ok (wanted, o')) : o'.Watched known := by
  obtain ⟨task, -, -, -, rfl⟩ := of_endWait_ok done
  exact watched.update rfl rfl (o.alert_readied _)

theorem Watched.thawAll (watched : o.Watched known) : o.thawAll.2.Watched known := by
  rcases o.thawAll_cases with ⟨-, heq⟩ | ⟨-, heq⟩ | ⟨-, heq⟩
  · rw [heq]
    exact watched
  · rw [heq]
    exact watched.frame rfl rfl
  · have hopened : { o with depth := 0 }.Watched known := watched.frame rfl rfl
    rw [heq]
    exact (hopened.makeAllReady id (o.row .postponed)).frame rfl rfl

theorem Watched.takeCutShort (watched : o.Watched known) (sound : o.Sound) :
    o.takeCutShort.2.Watched known := by
  simp only [Outline.takeCutShort]
  cases hrun : o.runner.bind o.get? with
  | none => exact watched
  | some task =>
      obtain ⟨-, hget⟩ := sound.of_running hrun
      dsimp only
      by_cases hcut : task.flags.cutShort = true
      · rw [if_pos hcut]
        exact watched.update rfl rfl ((watched.alert (sound.live hget)).congr rfl rfl)
      · rw [if_neg hcut]
        exact watched

theorem Watched.tick (watched : o.Watched known) (sound : o.Sound) : o.tick.2.Watched known := by
  have hcharged : o.chargeRunner.Watched known := by
    rcases o.chargeRunner_cases with heq | ⟨task, hrun, heq⟩
    · rw [heq]
      exact watched
    · obtain ⟨-, hget⟩ := sound.of_running hrun
      rw [heq]
      exact watched.update rfl rfl ((watched.alert (sound.live hget)).congr rfl rfl)
  have hadvanced : o.chargeRunner.advance.Watched known := by
    rcases o.chargeRunner.advance_cases with ⟨-, heq⟩ | ⟨-, heq⟩
    · rw [heq]
      exact hcharged.frame rfl rfl
    · rw [heq]
      exact hcharged.frame rfl rfl
  have hpassed : o.passed.Watched known := hadvanced.makeAllReady timedOut _
  obtain ⟨spent, behind, due, heq⟩ := o.tick_passed
  rw [heq]
  exact hpassed.frame rfl rfl

/-- A choice makes the running task ready and a ready one run. -/
theorem keeps_watched_choose : Step.Keeps (fun o => o.Sound ∧ o.Watched known) choose := by
  rintro o ⟨sound, watched⟩
  have hsound := keeps_sound_choose o sound
  have hchoice := choose_choice sound.tagged sound.runnerFree
  have hdispatch : ∀ {o : Outline} {i : Nat} {next : Task}, o.Watched known →
      (o.dispatch i next).Watched known :=
    fun watched => watched.update rfl rfl (fun _ => Or.inr rfl)
  have hcleared : o.cleared.Watched known := watched.frame rfl rfl
  generalize choose o = r at hsound hchoice ⊢
  cases hchoice with
  | frozen => exact ⟨hsound, watched.frame rfl rfl⟩
  | barred => exact ⟨hsound, watched.frame rfl rfl⟩
  | starved => exact ⟨hsound, hcleared⟩
  | kept => exact ⟨hsound, hcleared⟩
  | taken => exact ⟨hsound, hdispatch hcleared⟩
  | replaced =>
      exact ⟨hsound, hdispatch (hcleared.update rfl rfl (fun _ => Or.inl rfl))⟩

/-- Every basic step leaves the idle task ready or running. -/
theorem kept_watched (known : Option Handle) :
    Step.Kept (fun o => o.Sound ∧ o.Watched known) fun _ => True where
  enroll := fun ⟨sound, watched⟩ done =>
    ⟨kept_sound.enroll sound done, watched.enroll (Or.inl rfl) done⟩
  enrollIdle := fun ⟨sound, watched⟩ done => ⟨sound.enrollIdle done, watched.enrollIdle done⟩
  remove := fun _ ⟨sound, watched⟩ done => ⟨sound.remove done, watched.remove done⟩
  shelve := fun _ ⟨sound, watched⟩ done => ⟨sound.shelve done, watched.shelve done⟩
  resume := fun ⟨sound, watched⟩ done => ⟨sound.resume done, watched.resume done⟩
  reprioritise := fun ⟨sound, watched⟩ done =>
    ⟨sound.reprioritise done, watched.reprioritise sound done⟩
  saveContext := fun ⟨sound, watched⟩ done =>
    ⟨sound.saveContext done, watched.saveContext sound done⟩
  block := fun ⟨sound, watched⟩ done => ⟨sound.block done, watched.block done⟩
  endWait := fun _ ⟨sound, watched⟩ done => ⟨sound.endWait done, watched.endWait done⟩
  choose := keeps_watched_choose
  sendBehind := fun ⟨sound, watched⟩ => ⟨kept_sound.sendBehind sound, watched.frame rfl rfl⟩
  wantSwitch := fun ⟨sound, watched⟩ => ⟨kept_sound.wantSwitch sound, watched.frame rfl rfl⟩
  freezeAll := fun ⟨sound, watched⟩ => ⟨sound.freezeAll, watched.frame rfl rfl⟩
  thawAll := fun _ ⟨sound, watched⟩ => ⟨sound.thawAll, watched.thawAll⟩
  tick := fun _ ⟨sound, watched⟩ => ⟨sound.tick, watched.tick sound⟩
  elapse := by
    intro o ticks _ hboth
    refine Step.elapseFrom_keeps (I := fun o => o.Sound ∧ o.Watched known) ?_ _ _ hboth
    rintro o ⟨sound, watched⟩
    exact ⟨sound.tick, watched.tick sound⟩
  takeCutShort := fun ⟨sound, watched⟩ => ⟨sound.takeCutShort, watched.takeCutShort sound⟩

/-! ## There is always a task to dispatch -/

/-- The idle task runs, or is ready on the level of its priority, or is postponed
    while scheduling is suspended. -/
theorem Watched.idle_cases (watched : o.Watched (some h)) (sound : o.Sound) :
    ∃ task, o.get? h = some task ∧ task.flags.idle = true
      ∧ (task.activity = .running ∧ o.runner = some h
        ∨ task.activity = .ready ∧ task.place = .ready task.priority
        ∨ task.activity = .ready ∧ task.place = .postponed ∧ o.depth ≠ 0) := by
  obtain ⟨task, hget, hmark⟩ := sound.settled.idle (watched.known rfl)
  have hlive := sound.live hget
  have hfits := sound.settled.fits hlive
  refine ⟨task, hget, hmark, ?_⟩
  rcases watched.alert hlive hmark with hready | hrunning
  · rcases hfits.ready_iff.mp hready with ⟨p, hplace⟩ | hplace
    · rw [hfits.level p hplace] at hplace
      exact Or.inr (Or.inl ⟨hready, hplace⟩)
    · exact Or.inr (Or.inr ⟨hready, hplace, hfits.postponed hplace⟩)
  · have hrunner := sound.runner_of_unlinked hlive (hfits.running_iff.mp hrunning)
    rw [sound.handle_eq hget] at hrunner
    exact Or.inl ⟨hrunning, hrunner⟩

/-- A choice is not refused for want of a task, since the idle one is there. -/
theorem Watched.choose_ne (watched : o.Watched (some h)) (sound : o.Sound) (o' : Outline) :
    choose o ≠ .error (.refused .nothingReady) o' := by
  intro hstarved
  have hchoice := choose_choice sound.tagged sound.runnerFree
  rw [hstarved] at hchoice
  cases hchoice with
  | starved opened idle none =>
      obtain ⟨task, hget, -, hcases⟩ := watched.idle_cases sound
      rcases hcases with ⟨-, hrunner⟩ | ⟨-, hplace⟩ | ⟨-, -, hclosed⟩
      · rw [idle] at hrunner
        cases hrunner
      · have hmem : h.index ∈ o.row (.ready task.priority) :=
          (sound.tagged.mem_row _ _).mpr ⟨(by rintro ⟨⟩), task, sound.live hget, hplace⟩
        rw [none] at hmem
        cases hmem
      · exact hclosed opened

/-- A planned switch stops nothing, since it finds a task to dispatch. -/
theorem stops_planSwitch_watched :
    Step.StopsBy (fun o => o.Sound ∧ o.Watched (some h)) (fun _ => False) planSwitch := by
  rintro o what o' ⟨sound, watched⟩ hs
  have hchoice := choose_choice sound.tagged sound.runnerFree
  have hne := watched.choose_ne sound
  unfold planSwitch at hs
  generalize choose o = r at hchoice hne hs
  cases hchoice with
  | starved => exact hne _ rfl
  | _ => cases hs

/-- A history of calls is answered to its end. -/
theorem Watched.perform_done (watched : o.Watched (some h)) (sound : o.Sound)
    (calls : List Call) :
    ∃ rs o', perform calls o = .ok rs o' ∧ o'.Sound ∧ o'.Watched (some h) := by
  have hkept := kept_watched (some h)
  cases hran : perform calls o with
  | ok rs o' =>
      obtain ⟨hsound, hwatched⟩ := (hkept.perform fun _ _ => trivial).ok ⟨sound, watched⟩ hran
      exact ⟨rs, o', rfl, hsound, hwatched⟩
  | error e o' =>
      have hchooses : Step.StopsBy (fun o => o.Sound ∧ o.Watched (some h)) (fun _ => False)
          choose := by
        rintro o what o' ⟨sound, -⟩ hs
        exact stops_choose (P := fun _ => False) o what o' sound hs
      obtain ⟨-, -, hfalse⟩ :=
        perform_fails hkept hchooses stops_planSwitch_watched ⟨sound, watched⟩ hran
      exact hfalse.elim

end Outline

namespace Kernel

open Routine

variable {k : Kernel} {h : Handle}

/-! ## Schedulers with an idle task -/

/-- The idle task is live, and it runs, or is ready on the level of its priority,
    or is postponed while scheduling is suspended. -/
structure StandsBy (k : Kernel) (h : Handle) : Prop where
  remembered : k.idle = some h
  live : ∃ task, k.table.get? h = some task ∧ task.flags.idle = true
    ∧ (task.activity = .running ∧ k.runner = some h
      ∨ task.activity = .ready ∧ task.place = .ready task.priority
          ∧ h ∈ k.handlesAt (.ready task.priority)
      ∨ task.activity = .ready ∧ task.place = .postponed ∧ h ∈ k.handlesAt .postponed
          ∧ k.freeze.isOff = false)

/-- A watched idle task stands by. -/
theorem Intact.standsBy (intact : k.Intact) (sound : k.outline.Sound)
    (watched : k.outline.Watched (some h)) : k.StandsBy h := by
  obtain ⟨task, hget, hmark, hcases⟩ := watched.idle_cases sound
  refine ⟨watched.known rfl, task, (get?_outline k h).trans hget, hmark, ?_⟩
  rcases hcases with ⟨hrunning, hrunner⟩ | ⟨hready, hplace⟩ | ⟨hready, hplace, hclosed⟩
  · rw [← runner_outline] at hrunner
    exact Or.inl ⟨hrunning, hrunner⟩
  · have hmem := intact.mem_handlesAt hget (by rw [hplace]; rintro ⟨⟩)
    rw [hplace] at hmem
    exact Or.inr (Or.inl ⟨hready, hplace, hmem⟩)
  · have hmem := intact.mem_handlesAt hget (by rw [hplace]; rintro ⟨⟩)
    rw [hplace] at hmem
    rw [isOff_outline]
    exact Or.inr (Or.inr ⟨hready, hplace, hmem, decide_eq_false hclosed⟩)

/-- Every reachable kernel is watched: at the beginning there is no task, and the
    idle one is made ready. -/
theorem Reachable.watched (reachable : Reachable k) : k.outline.Watched none := by
  induction reachable with
  | initial valid =>
      refine ⟨?_, ?_⟩
      · intro i task htask
        cases htask
      · rintro h ⟨⟩
  | call c before ran ih =>
      obtain ⟨hintact, hsound⟩ := before.intact
      obtain ⟨-, -, hstep⟩ := hintact.of_call hsound ran
      have hkeeps := Step.keeps_attempt ((Outline.kept_watched none).run (c := c) trivial)
      exact (hkeeps.ok ⟨hsound, ih⟩ hstep).2

/-- A scheduler that has an idle task never stops.  Every history of calls is
    answered to its end, the idle task stands by after each of them, and no choice
    is refused for want of a task. -/
theorem idle_never_halts (reachable : Reachable k) (idle : k.idle = some h) (p : Platform)
    (calls : List Call) :
    ∃ rs m, perform calls ⟨k, p⟩ = .ok rs m ∧ m.state.StandsBy h
      ∧ ∀ (q : Platform) (m' : Machine Kernel),
          choose ⟨m.state, q⟩ ≠ .error (.refused .nothingReady) m' := by
  obtain ⟨hintact, hsound⟩ := reachable.intact
  have hwatched : k.outline.Watched (some h) :=
    ⟨reachable.watched.alert, fun hknown => Option.some.inj hknown ▸ idle⟩
  obtain ⟨rs, o', hperform, hsound', hwatched'⟩ := hwatched.perform_done hsound calls
  obtain ⟨m, hran, rfl⟩ := (hintact.enacts_perform hsound calls).of_ok hperform p
  obtain ⟨hintact', -, -⟩ := hintact.of_perform hsound hran
  refine ⟨rs, m, hran, hintact'.standsBy hsound' hwatched', ?_⟩
  intro q m' hstarved
  obtain ⟨-, hstep⟩ := (hintact'.enacts_choose hsound'.runnerFree).error hstarved
  exact hwatched'.choose_ne hsound' _ hstep

/-- A start that is refused, because scheduling is suspended and no task runs, has
    made the idle task all the same.  The scheduler goes on from there, though the
    idle task is to be suspended and then deleted. -/
theorem idle_never_halts_refused_start :
    ∃ (k : Kernel) (p : Platform), Reachable k ∧ k.idle = some ⟨0, 0⟩ ∧ k.runner = none
      ∧ ∃ rs m, perform [.suspend ⟨0, 0⟩, .thawAll, .delete ⟨0, 0⟩, .switch, .pause 3] ⟨k, p⟩ = .ok rs m
        ∧ m.state.StandsBy ⟨0, 0⟩
        ∧ ∀ (q : Platform) (m' : Machine Kernel),
            choose ⟨m.state, q⟩ ≠ .error (.refused .nothingReady) m' := by
  have hvalid : ({} : Settings).Valid := by decide
  have hdone : isDone (do
      let _ ← perform [.freezeAll, .start 0]
      let k ← read
      if k.idle = some ⟨0, 0⟩ ∧ k.runner = none then pure () else refuse .invalidState)
        ⟨initial {}, {}⟩ = true := by
    decide +kernel
  obtain ⟨⟨⟩, n, hrun⟩ := of_isDone hdone
  obtain ⟨rs, m, hstarted, hrun⟩ := of_bind_ok hrun
  obtain ⟨k, m₁, hread, hrun⟩ := of_bind_ok hrun
  obtain ⟨rfl, rfl⟩ := EStateM.Result.ok.inj hread
  obtain ⟨⟨hidle, hrunner⟩, -⟩ := of_unless_ok hrun
  have hinitial : Reachable (⟨initial {}, {}⟩ : Machine Kernel).state := .initial hvalid
  have hreachable : Reachable m.state := hinitial.perform hstarted
  exact ⟨m.state, m.platform, hreachable, hidle, hrunner,
    idle_never_halts hreachable hidle m.platform _⟩

end Kernel

end PriorityScheduler
