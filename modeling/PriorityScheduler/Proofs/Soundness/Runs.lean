import PriorityScheduler.Proofs.Keeps
import PriorityScheduler.Proofs.Soundness.Clock

/-! # Sound outlines stay sound

    Each basic step is a few of the changes that keep an outline sound, so every
    call and every history of calls keeps it. -/

namespace PriorityScheduler

open Function (update)

namespace Outline

variable {o o' : Outline} {h : Handle} {task : Task}

/-! ## The life of a task -/

/-- A task that is suspended fits on the list of the suspended. -/
theorem fits_suspended (o : Outline) (task : Task) :
    o.Fits { task with activity := .suspended, place := .suspended } := by
  refine ⟨rfl, ?_, ?_, ?_⟩
  · rintro p ⟨⟩
  · rintro ⟨⟩
  · rintro ⟨⟩

/-- An outline stays sound when a task is made, if only the idle one is marked
    as such. -/
theorem Sound.enroll (sound : o.Sound) {spec : TaskSpec} {flags : Flags} {idle : Option Handle}
    (done : o.enroll spec flags = .ok (h, o'))
    (flag : flags.idle = false ∧ idle = o.idle
      ∨ flags.idle = true ∧ o.idle = none ∧ idle = some h) :
    { o' with idle := idle }.Sound := by
  obtain ⟨hpriority, i, hvacancy, rfl, hcase⟩ := of_enroll_ok done
  rcases hcase with ⟨-, rfl⟩ | ⟨-, wanted, rfl, -⟩
  · refine sound.enrolled hvacancy rfl rfl rfl hpriority rfl ?_ (o.fits_suspended _)
      (timed_of_ne ?_) flag
    · rintro ⟨⟩
    · rintro c ⟨⟩
  · let task := Task.ofSpec spec flags ⟨i, o.generation i⟩
    have hlinked : (o.readied task).place ≠ .unlinked := o.readyPlace_ne_unlinked task
    have hsound : { (o.occupy i task).reseat .back i (o.readied task) with idle := idle }.Sound :=
      sound.enrolled hvacancy rfl rfl rfl hpriority rfl hlinked (o.fits_readied task)
        (timed_of_ne (o.readied_ne_delayed task)) flag
    exact hsound.wantSwitchIf wanted

/-- Making a task does not touch what is remembered of the idle one. -/
theorem enroll_idle {spec : TaskSpec} {flags : Flags} (done : o.enroll spec flags = .ok (h, o')) :
    o'.idle = o.idle := by
  obtain ⟨-, i, -, -, ⟨-, rfl⟩ | ⟨-, wanted, rfl, -⟩⟩ := of_enroll_ok done
  · rfl
  · rfl

/-- The idle task is made once, and then it is remembered. -/
theorem of_enrollIdle_ok {entry : Nat} (done : o.enrollIdle entry = .ok ((), o')) :
    o.idle = none ∧ ∃ idle o'', o.enroll
        { name := o.settings.idleName, entry := entry, priority := idlePriority } { idle := true }
          = .ok (idle, o'')
      ∧ o' = { o'' with idle := some idle } := by
  obtain ⟨hnone, done⟩ := of_refused_or done
  rw [Bool.not_eq_true, Option.isSome_eq_false_iff, Option.isNone_iff_eq_none] at hnone
  refine ⟨hnone, ?_⟩
  cases hmade : o.enroll
      { name := o.settings.idleName, entry := entry, priority := idlePriority } { idle := true } with
  | error cause =>
      rw [hmade] at done
      cases done
  | ok r =>
      rw [hmade] at done
      exact ⟨r.1, r.2, rfl, (Prod.mk.inj (Except.ok.inj done)).2.symm⟩

theorem Sound.enrollIdle (sound : o.Sound) {entry : Nat}
    (done : o.enrollIdle entry = .ok ((), o')) : o'.Sound := by
  obtain ⟨hnone, idle, o'', hmade, rfl⟩ := of_enrollIdle_ok done
  exact sound.enroll hmade (Or.inr ⟨rfl, hnone, rfl⟩)

theorem Sound.remove (sound : o.Sound) {was : Bool} (done : o.remove h = .ok (was, o')) :
    o'.Sound := by
  obtain ⟨task, hget, hidle, -, ⟨-, hcurrent, rfl⟩ | ⟨-, hcurrent, rfl⟩⟩ := of_remove_ok done
  · exact sound.vacate hget hidle (Or.inl ⟨hcurrent, rfl⟩)
  · exact sound.vacate hget hidle (Or.inr ⟨hcurrent, rfl⟩)

theorem Sound.shelve (sound : o.Sound) {was : Bool} (done : o.shelve h = .ok (was, o')) :
    o'.Sound := by
  obtain ⟨task, hget, -, ⟨-, -, rfl⟩ | ⟨-, -, -, rfl⟩⟩ := of_shelve_ok done
  · exact sound
  · have hlive := sound.live hget
    have hpriority : task.priority < o.settings.levels := sound.tagged.priority hlive
    refine sound.reseat .back hlive rfl rfl hpriority (o.fits_suspended task) (timed_of_ne ?_)
    rintro c ⟨⟩

theorem Sound.resume (sound : o.Sound) {wanted : Bool} (done : o.resume h = .ok (wanted, o')) :
    o'.Sound := by
  obtain ⟨task, hget, ⟨-, -, rfl⟩ | ⟨-, -, rfl⟩⟩ := of_resume_ok done
  · exact (sound.makeReady (sound.live hget) rfl rfl rfl).wantSwitchIf wanted
  · exact sound

theorem queued_iff (task : Task) : queued task = true ↔ ∃ p, task.place = .ready p := by
  simp only [queued]
  cases task.place <;> simp

/-- A task that has its new priority stands on the level of that, if it stands on
    one. -/
theorem Sound.regrade (sound : o.Sound) (live : o.get? h = some task) {priority : Nat}
    (levels : priority < o.settings.levels) : (o.regrade h.index task priority).Sound := by
  have hlive := sound.live live
  simp only [Outline.regrade]
  by_cases hqueued : queued task = true
  · rw [if_pos hqueued]
    have hfits : o.Fits
        { task with priority := priority, activity := .ready, place := .ready priority } := by
      refine ⟨rfl, ?_, ?_, ?_⟩
      · exact fun p hp => (Place.ready.inj hp).symm
      · rintro ⟨⟩
      · rintro ⟨⟩
    exact sound.reseat .back hlive rfl rfl levels hfits (timed_of_ne (by rintro c ⟨⟩))
  · rw [if_neg hqueued]
    refine sound.put hlive rfl rfl levels rfl rfl rfl ?_
    exact fun p hp => absurd ((queued_iff task).mpr ⟨p, hp⟩) hqueued

theorem Sound.reprioritise (sound : o.Sound) {priority : Nat} {wanted : Bool}
    (done : o.reprioritise h priority = .ok (wanted, o')) : o'.Sound := by
  obtain ⟨hlevels, task, hget, ⟨-, -, rfl⟩ | ⟨-, -, rfl⟩⟩ := of_reprioritise_ok done
  · exact sound
  · exact (sound.regrade hget hlevels).wantSwitchIf wanted

theorem Sound.saveContext (sound : o.Sound) {context : Nat}
    (done : o.saveContext h context = .ok ((), o')) : o'.Sound := by
  obtain ⟨task, hget, rfl⟩ := of_saveContext_ok done
  have hlive := sound.live hget
  have hpriority : task.priority < o.settings.levels := sound.tagged.priority hlive
  exact sound.put hlive rfl rfl hpriority rfl rfl rfl (sound.settled.fits hlive).level

/-! ## Waiting -/

/-- A tick that lies ahead by some ticks is not the present one. -/
theorem add_ne_self {now ticks : Tick} (some : ticks ≠ 0) : now ≠ now + ticks := by
  intro heq
  refine some (UInt32.toNat_inj.mp ?_)
  have hnow := congrArg UInt32.toNat heq
  have hlt := now.toNat_lt
  have hlt' := ticks.toNat_lt
  rw [UInt32.toNat_add] at hnow
  rw [UInt32.toNat_zero]
  omega

/-- The record of a blocked task fits, and is in time. -/
theorem held_cases (o : Outline) (task : Task) {ticks : Tick} (some : ticks ≠ 0) :
    o.Fits (o.held task ticks) ∧ o.Timed (o.held task ticks) := by
  by_cases hforever : ticks = waitForever
  · have hheld : (o.held task ticks).place = .waiting ∧ (o.held task ticks).activity = .blocked := by
      unfold held
      dsimp only
      rw [if_pos hforever]
      exact ⟨rfl, rfl⟩
    refine ⟨⟨?activity, ?level, ?dispatched, ?postponed⟩, timed_of_ne ?undelayed⟩
    case activity =>
      rw [hheld.1, hheld.2]
      rfl
    case level =>
      intro p hp
      cases hheld.1.symm.trans hp
    case dispatched =>
      intro hp
      cases hheld.1.symm.trans hp
    case postponed =>
      intro hp
      cases hheld.1.symm.trans hp
    case undelayed =>
      intro c hp
      cases hheld.1.symm.trans hp
  · have hheld : (o.held task ticks).place = .delayed (o.cycleOf (o.now + ticks))
        ∧ (o.held task ticks).activity = .blocked
        ∧ (o.held task ticks).wakeTick = o.now + ticks := by
      unfold held
      dsimp only
      rw [if_neg hforever]
      exact ⟨rfl, rfl, rfl⟩
    obtain ⟨hplace, hactivity, hwake⟩ := hheld
    refine ⟨⟨?activity, ?level, ?dispatched, ?postponed⟩, ?ahead, ?behind⟩
    case activity =>
      rw [hplace, hactivity]
      rfl
    case level =>
      intro p hp
      cases hplace.symm.trans hp
    case dispatched =>
      intro hp
      cases hplace.symm.trans hp
    case postponed =>
      intro hp
      cases hplace.symm.trans hp
    case ahead =>
      intro hp
      rw [hwake]
      rw [hplace, cycleOf] at hp
      -- the tick is below the present one exactly if it is put in the other cycle
      by_cases hbelow : o.now + ticks < o.now
      · rw [if_pos hbelow] at hp
        exact absurd (Place.delayed.inj hp) (Cycle.other_ne o.cycle)
      · exact UInt32.lt_of_le_of_ne (UInt32.not_lt.mp hbelow) (add_ne_self some)
    case behind =>
      intro hp
      rw [hwake]
      rw [hplace, cycleOf] at hp
      by_cases hbelow : o.now + ticks < o.now
      · exact hbelow
      · rw [if_neg hbelow] at hp
        exact absurd (Place.delayed.inj hp).symm (Cycle.other_ne o.cycle)

/-- The record of a blocked task has the priority, the handle and the idle mark
    that it had. -/
theorem held_keeps (o : Outline) (task : Task) (ticks : Tick) :
    (o.held task ticks).handle = task.handle
      ∧ (o.held task ticks).flags.idle = task.flags.idle
      ∧ (o.held task ticks).priority = task.priority := by
  unfold held
  dsimp only
  by_cases hforever : ticks = waitForever
  · rw [if_pos hforever]
    exact ⟨rfl, rfl, rfl⟩
  · rw [if_neg hforever]
    exact ⟨rfl, rfl, rfl⟩

/-- A blocked task is neither ready nor postponed. -/
theorem held_away (o : Outline) (task : Task) (ticks : Tick) :
    (o.held task ticks).activity = .blocked ∧ (∀ p, (o.held task ticks).place ≠ .ready p)
      ∧ (o.held task ticks).place ≠ .postponed := by
  simp only [held]
  by_cases hforever : ticks = waitForever
  · rw [if_pos hforever]
    exact ⟨rfl, (by rintro p ⟨⟩), (by rintro ⟨⟩)⟩
  · rw [if_neg hforever]
    exact ⟨rfl, (by rintro p ⟨⟩), (by rintro ⟨⟩)⟩

theorem Sound.block (sound : o.Sound) {ticks : Tick} (done : o.block h ticks = .ok ((), o')) :
    o'.Sound := by
  obtain ⟨task, hget, -, -, -, ⟨-, rfl⟩ | ⟨hticks, rfl⟩⟩ := of_block_ok done
  · exact sound
  · have hlive := sound.live hget
    obtain ⟨hhandle, hidle, hpriority⟩ := o.held_keeps task ticks
    obtain ⟨hfits, htimed⟩ := o.held_cases task hticks
    have hlevels : (o.held task ticks).priority < o.settings.levels := by
      rw [hpriority]
      exact sound.tagged.priority hlive
    exact (sound.reseat .back hlive hhandle hidle hlevels hfits htimed).wantSwitchIf _

theorem Sound.endWait (sound : o.Sound) {early wanted : Bool}
    (done : o.endWait h early = .ok (wanted, o')) : o'.Sound := by
  obtain ⟨task, hget, -, -, rfl⟩ := of_endWait_ok done
  have hready : (o.makeReady h.index (unheld task early)).Sound :=
    sound.makeReady (sound.live hget) rfl rfl rfl
  exact hready.wantSwitchIf wanted

theorem Sound.takeCutShort (sound : o.Sound) : o.takeCutShort.2.Sound := by
  simp only [Outline.takeCutShort]
  cases hrun : o.runner.bind o.get? with
  | none => exact sound
  | some task =>
      obtain ⟨-, hget⟩ := sound.of_running hrun
      have hlive := sound.live hget
      have hpriority : task.priority < o.settings.levels := sound.tagged.priority hlive
      dsimp only
      by_cases hcut : task.flags.cutShort = true
      · rw [if_pos hcut]
        exact sound.put hlive rfl rfl hpriority rfl rfl rfl (sound.settled.fits hlive).level
      · rw [if_neg hcut]
        exact sound

/-! ## Choices and suspensions -/

/-- Putting the running task back leaves the record of the first task of a level. -/
theorem Sound.putBack_tenant (sound : o.Sound) (side : Side) {p i : Nat} {rest : List Nat}
    {next : Task} (running : o.runner = some task.handle) (live : o.get? task.handle = some task)
    (row : o.row (.ready p) = i :: rest) (first : o.tenant i = some next) :
    (o.cleared.putBack side task).tenant i = some next := by
  have hunlinked : task.place = .unlinked := sound.runnerFree _ _ running live
  have hne : i ≠ task.handle.index := by
    rintro rfl
    refine sound.tagged.not_mem_unlinked (sound.live live) hunlinked (.ready p) ?_
    rw [row]
    exact List.mem_cons_self
  show update o.tenant task.handle.index _ i = _
  rw [Function.update_of_ne hne]
  exact first

theorem keeps_sound_choose : Step.Keeps Sound choose := by
  intro o sound
  have hwanted : { o with switchDue := true }.Sound := sound.remark _ _ _ true _
  have hchoice := choose_choice sound.tagged sound.runnerFree
  generalize choose o = r at hchoice ⊢
  cases hchoice with
  | frozen _ _ => exact hwanted
  | barred _ _ => exact hwanted
  | starved _ _ _ => exact sound.cleared
  | kept _ _ _ _ _ => exact sound.cleared
  | taken _ idle _ _ first =>
      exact sound.cleared.dispatch first (fun live => sound.linked_of_idle idle live)
  | @replaced side p i rest task next _ running live _ row first _ =>
      obtain ⟨hsound, hlinked⟩ := sound.cleared.putBack side running live
      have hfirst := sound.putBack_tenant side running live row first
      exact hsound.dispatch hfirst hlinked

theorem saturatingSucc_ne_zero (n : UInt32) : saturatingSucc n ≠ 0 := by
  simp only [saturatingSucc]
  by_cases hmax : n = 0xFFFFFFFF
  · rw [if_pos hmax, hmax]
    decide
  · rw [if_neg hmax]
    intro hzero
    have hlast := toNat_of_succ_eq_zero hzero
    exact hmax (UInt32.toNat_inj.mp hlast)

theorem Sound.freezeAll (sound : o.Sound) : o.freezeAll.2.Sound :=
  sound.setDepth (fun _ _ => saturatingSucc_ne_zero o.depth)

/-- How the end of a suspension can turn out. -/
theorem thawAll_cases (o : Outline) :
    (o.depth = 0 ∧ o.thawAll = (false, o))
      ∨ (o.depth - 1 ≠ 0 ∧ o.thawAll = (false, { o with depth := o.depth - 1 }))
      ∨ o.depth = 1 ∧ o.thawAll = (o.switchDue || o.postponedRivals,
          { { o with depth := 0 }.makeAllReady id (o.row .postponed) with
            switchDue := o.switchDue || o.postponedRivals }) := by
  unfold thawAll
  by_cases hzero : o.depth = 0
  · rw [if_pos hzero]
    exact Or.inl ⟨hzero, rfl⟩
  · rw [if_neg hzero]
    dsimp only
    by_cases hlast : o.depth - 1 = 0
    · rw [if_pos hlast, hlast]
      refine Or.inr (Or.inr ⟨?_, rfl⟩)
      rw [← UInt32.sub_add_cancel o.depth 1, hlast]
      rfl
    · rw [if_neg hlast]
      exact Or.inr (Or.inl ⟨hlast, rfl⟩)

/-- An outline stays sound when the postponed tasks are made ready. -/
theorem Sound.callIn (sound : o.Sound) :
    ({ o with depth := 0 }.makeAllReady id (o.row .postponed)).Sound := by
  have htagged : { o with depth := 0 }.Tagged := sound.tagged.congr rfl rfl rfl rfl rfl rfl rfl
  have hinOrder : { o with depth := 0 }.InOrder := sound.inOrder
  have hlive : ∀ i ∈ o.row .postponed, ∃ t, o.tenant i = some t := by
    intro i hi
    obtain ⟨-, t, ht, -⟩ := (sound.tagged.mem_row _ i).mp hi
    exact ⟨t, ht⟩
  refine ⟨htagged.makeAllReady mild_id (sound.tagged.nodup _) hlive, ?_,
    hinOrder.makeAllReady, ?_⟩
  · refine settled_makeAllReady mild_id sound.settled.current sound.settled.idle
      sound.settled.flagged ?_
    intro i t hi ht
    obtain ⟨h1, h2, h3, -⟩ := sound.settled.fits ht
    refine ⟨h1, h2, h3, ?_⟩
    intro hplace
    have hlinked : Place.postponed ≠ .unlinked := by decide
    exact absurd ((sound.tagged.mem_row _ i).mpr ⟨hlinked, t, ht, hplace⟩) hi
  · intro i t ht
    rcases makeAllReady_tenant_cases ht with ⟨-, t', -, rfl⟩ | ⟨-, ht⟩
    · exact timed_of_ne ({ o with depth := 0 }.readied_ne_delayed t')
    · exact (sound.timed ht).congr rfl rfl

theorem Sound.thawAll (sound : o.Sound) : o.thawAll.2.Sound := by
  rcases o.thawAll_cases with ⟨-, heq⟩ | ⟨hdepth, heq⟩ | ⟨-, heq⟩
  · rw [heq]
    exact sound
  · rw [heq]
    exact sound.setDepth (fun _ _ => hdepth)
  · rw [heq]
    exact sound.callIn.remark _ _ _ _ _

/-! ## Runs -/

/-- Every basic step keeps an outline sound. -/
theorem kept_sound : Step.Kept Sound fun _ => True where
  enroll sound done := sound.enroll done (Or.inl ⟨rfl, enroll_idle done⟩)
  enrollIdle sound done := sound.enrollIdle done
  remove _ sound done := sound.remove done
  shelve _ sound done := sound.shelve done
  resume sound done := sound.resume done
  reprioritise sound done := sound.reprioritise done
  saveContext sound done := sound.saveContext done
  block sound done := sound.block done
  endWait _ sound done := sound.endWait done
  choose := keeps_sound_choose
  sendBehind sound := sound.remark _ _ true _ _
  wantSwitch sound := sound.remark _ _ _ true _
  freezeAll sound := sound.freezeAll
  thawAll _ sound := sound.thawAll
  tick _ sound := sound.tick
  elapse _ sound := Step.elapseFrom_keeps (fun sound => sound.tick) _ _ sound
  takeCutShort sound := sound.takeCutShort

end Outline

end PriorityScheduler
