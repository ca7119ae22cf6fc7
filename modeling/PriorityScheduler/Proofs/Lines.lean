import PriorityScheduler.Proofs.Promptness
import PriorityScheduler.Proofs.Rosters
import PriorityScheduler.Proofs.Stages

/-! # Standing in line

    The tasks on a ready level stand in LINE for the processor.  A line MOVES UP when
    some leave it and others join it at its end, so that no task gets ahead of one that
    was there before it.

    A step HOLDS THE LINES when it hands the processor to no task and all lines move up
    at most.  A tick does, and so does a call up to the choice that it makes, unless it
    changes a priority; apart from a tick it lets every task keep the ticks that have
    been counted for it as well. -/

namespace PriorityScheduler

open Function (update)

/-! ## Lines -/

/-- One slot stands ahead of another in a list. -/
def Ahead (i j : Nat) (l : List Nat) : Prop :=
  [i, j].Sublist l

instance (i j : Nat) (l : List Nat) : Decidable (Ahead i j l) :=
  inferInstanceAs (Decidable (List.Sublist _ _))

/-- Some slots leave a list, and some that were not on it join it at its end. -/
def MovesUp (l l' : List Nat) : Prop :=
  ∃ (stays : Nat → Bool) (joined : List Nat), l' = l.filter stays ++ joined ∧ ∀ i ∈ joined, i ∉ l

section Lines

variable {i j x : Nat} {l l' : List Nat}

theorem ahead_cons (behind : j ∈ l) : Ahead i j (i :: l) :=
  List.cons_sublist_cons.mpr (List.singleton_sublist.mpr behind)

theorem Ahead.mono (ahead : Ahead i j l) (sublist : l.Sublist l') : Ahead i j l' :=
  List.Sublist.trans ahead sublist

theorem Ahead.mem (ahead : Ahead i j l) : i ∈ l :=
  List.Sublist.mem List.mem_cons_self ahead

/-- A slot put first is ahead of the others only itself. -/
theorem Ahead.of_cons (ahead : Ahead i j (x :: l)) (ne : i ≠ x) : Ahead i j l :=
  List.Sublist.of_cons_of_ne ne ahead

/-- Those that join a list at its end are not ahead of one that is on it. -/
theorem Ahead.of_append (ahead : Ahead i j (l ++ l')) (absent : j ∉ l') : Ahead i j l := by
  obtain ⟨front, rest, hsplit, hfront, hrest⟩ := List.cons_sublist_iff.mp ahead
  rw [List.singleton_sublist] at hrest
  rcases List.append_eq_append_iff.mp hsplit with ⟨mid, -, rfl⟩ | ⟨mid, rfl, rfl⟩
  · exact absurd (List.mem_append_right mid hrest) absent
  · have hmid : j ∈ mid := (List.mem_append.mp hrest).resolve_right absent
    exact List.cons_sublist_iff.mpr ⟨front, mid, rfl, hfront, List.singleton_sublist.mpr hmid⟩

/-- No slot gets ahead of one that has been in the line. -/
theorem MovesUp.ahead (moves : MovesUp l l') (there : j ∈ l) (ahead : Ahead i j l') :
    Ahead i j l := by
  obtain ⟨stays, joined, rfl, hfresh⟩ := moves
  exact (ahead.of_append fun hj => hfresh j hj there).mono List.filter_sublist

theorem movesUp_refl (l : List Nat) : MovesUp l l := by
  refine ⟨fun _ => true, [], ?_, ?_⟩
  · rw [List.filter_true, List.append_nil]
  · intro i hi
    cases hi

theorem movesUp_filter (l : List Nat) (i : Nat) : MovesUp l (l.filter (· ≠ i)) := by
  refine ⟨fun x => decide (x ≠ i), [], (List.append_nil _).symm, ?_⟩
  intro x hx
  cases hx

/-- A slot that was on another list joins a line, or is put elsewhere. -/
theorem movesUp_join (fresh : i ∉ l) (c : Prop) [Decidable c] :
    MovesUp l (l.filter (· ≠ i) ++ if c then [i] else []) := by
  refine ⟨_, _, rfl, ?_⟩
  intro x hx
  by_cases hc : c
  · rw [if_pos hc] at hx
    rw [List.mem_singleton.mp hx]
    exact fresh
  · rw [if_neg hc] at hx
    cases hx

end Lines

namespace Outline

variable {o o' o'' : Outline} {i : Nat} {h : Handle} {task task' : Task}

/-! ## Steps that hold the lines -/

/-- No task is handed the processor, and the lines move up at most. -/
structure HoldsLines (o o' : Outline) : Prop where
  settings : o'.settings = o.settings
  depth : o'.depth = o.depth
  runner : ∀ {h}, o'.runner = some h → o.runner = some h
  lines : ∀ p, MovesUp (o.row (.ready p)) (o'.row (.ready p))

/-- The lines are held, no tick is counted for any task, and the slice of the running
    one goes on. -/
structure Timeless (o o' : Outline) : Prop extends HoldsLines o o' where
  slice : ∀ {h}, o'.runner = some h → o'.sliceSpent = o.sliceSpent
  spent : o'.sliceSpent = o.sliceSpent ∨ o'.sliceSpent = 0
  record : ∀ {h task task'}, o.get? h = some task → o'.get? h = some task' →
    task'.priority = task.priority ∧ task'.runTicks = task.runTicks

/-- The marks of a switch do not matter to the lines. -/
theorem Timeless.remark (timeless : Timeless o o') (idle : Option Handle)
    (behind due : Bool) :
    Timeless o { o' with idle := idle, sendBehind := behind, switchDue := due } :=
  ⟨⟨timeless.settings, timeless.depth, timeless.runner, timeless.lines⟩, timeless.slice,
    timeless.spent, timeless.record⟩

theorem timeless_refl (o : Outline) : Timeless o o := by
  refine ⟨⟨rfl, rfl, id, fun p => movesUp_refl _⟩, fun _ => rfl, Or.inl rfl, ?_⟩
  intro h task task' hget hget'
  rw [hget] at hget'
  rw [Option.some.inj hget']
  exact ⟨rfl, rfl⟩

/-- A task is not handed the processor if it was dispatched before and ran. -/
theorem runner_of_runs (current : ∀ {h}, o'.current = some h → o.current = some h)
    (ran : ∀ h, (o'.get? h).any runs = true → (o.get? h).any runs = true)
    (running : o'.runner = some h) : o.runner = some h := by
  rw [runner_eq] at running ⊢
  obtain ⟨cur, hcur, hruns⟩ := Option.bind_eq_some_iff.mp running
  by_cases hany : (o'.get? cur).any runs = true
  · rw [if_pos hany] at hruns
    rw [current hcur, Option.bind_some, if_pos (ran cur hany)]
    exact hruns
  · rw [if_neg hany] at hruns
    cases hruns

/-- A slot gets a new record in which no tick is counted, and the lines move up. -/
theorem timeless_update (settings : o'.settings = o.settings) (depth : o'.depth = o.depth)
    (current : o'.current = o.current) (spent : o'.sliceSpent = o.sliceSpent)
    (generation : o'.generation = o.generation)
    (tenant : o'.tenant = update o.tenant i (some task'))
    (same : ∀ task, o.tenant i = some task →
      task'.priority = task.priority ∧ task'.runTicks = task.runTicks)
    (rests : runs task' = true → (o.tenant i).any runs = true)
    (lines : ∀ p, MovesUp (o.row (.ready p)) (o'.row (.ready p))) : Timeless o o' := by
  -- a handle names the new record only where it named a tenant of the slot
  have hget : ∀ h, o'.get? h = o.get? h ∨ o'.get? h = some task' ∧ o.get? h = o.tenant i := by
    intro h
    simp only [get?, generation, tenant]
    by_cases hg : o.generation h.index = h.generation
    · rw [if_pos hg, if_pos hg]
      by_cases hi : h.index = i
      · rw [hi, Function.update_self]
        exact Or.inr ⟨rfl, rfl⟩
      · rw [Function.update_of_ne hi]
        exact Or.inl rfl
    · rw [if_neg hg, if_neg hg]
      exact Or.inl rfl
  refine ⟨⟨settings, depth, ?_, lines⟩, fun _ => spent, Or.inl spent, ?_⟩
  · refine fun running => runner_of_runs (fun hcur => current ▸ hcur) ?_ running
    intro h hany
    rcases hget h with heq | ⟨heq', heq⟩
    · rwa [heq] at hany
    · rw [heq'] at hany
      rw [heq]
      exact rests hany
  · intro h t t' ht ht'
    rcases hget h with heq | ⟨heq', heq⟩
    · rw [heq, ht] at ht'
      rw [Option.some.inj ht']
      exact ⟨rfl, rfl⟩
    · rw [heq'] at ht'
      rw [← Option.some.inj ht']
      exact same t (heq ▸ ht)

/-! ## Changes of one task -/

/-- A task that goes leaves its line; the slice ends if it was dispatched last. -/
theorem timeless_remove {was : Bool} (done : o.remove h = .ok (was, o')) :
    Timeless o o' := by
  obtain ⟨task, hget, -, -, hcase⟩ := of_remove_ok done
  have hgone : ∀ {h'}, h'.index = h.index → (o.vacate h.index).get? h' = none := by
    intro h' hi
    have hempty : (o.vacate h.index).tenant h.index = none := Function.update_self ..
    simp only [get?, hi, hempty, ite_self]
  have helse : ∀ {h' t'}, (o.vacate h.index).get? h' = some t' → o.get? h' = some t' := by
    intro h' t' ht'
    by_cases hi : h'.index = h.index
    · rw [hgone hi] at ht'
      cases ht'
    · rwa [get?_vacate hi] at ht'
  have hrecord : ∀ {h' t t'}, o.get? h' = some t → (o.vacate h.index).get? h' = some t' →
      t'.priority = t.priority ∧ t'.runTicks = t.runTicks := by
    intro h' t t' ht ht'
    rw [helse ht'] at ht
    rw [Option.some.inj ht]
    exact ⟨rfl, rfl⟩
  -- a task that was dispatched last leaves nobody running, any other goes unseen
  rcases hcase with ⟨-, -, rfl⟩ | ⟨-, -, rfl⟩
  · refine ⟨⟨rfl, rfl, ?_, fun p => movesUp_filter _ _⟩, ?_, Or.inr rfl, hrecord⟩
    · rintro h' ⟨⟩
    · rintro h' ⟨⟩
  · refine ⟨⟨rfl, rfl, ?_, fun p => movesUp_filter _ _⟩, fun _ => rfl, Or.inl rfl, hrecord⟩
    have hcurrent : ∀ {h'}, (o.vacate h.index).current = some h' → o.current = some h' := id
    have hran : ∀ h', ((o.vacate h.index).get? h').any runs = true →
        (o.get? h').any runs = true := by
      intro h' hany
      obtain ⟨t, ht, hruns⟩ := (Option.any_eq_true _ _).mp hany
      exact (Option.any_eq_true _ _).mpr ⟨t, helse ht, hruns⟩
    intro h' running
    exact runner_of_runs hcurrent hran running

/-- A task that is blocked keeps the ticks that were counted for it. -/
theorem held_runTicks (o : Outline) (task : Task) (ticks : Tick) :
    (o.held task ticks).runTicks = task.runTicks := by
  simp only [held]
  by_cases hforever : ticks = waitForever
  · rw [if_pos hforever]
  · rw [if_neg hforever]

section Changes

variable (sound : o.Sound)

include sound

/-- A task that is not on a ready level is in none of the lines. -/
theorem Sound.not_mem_line (live : o.tenant i = some task) (away : ∀ p, task.place ≠ .ready p)
    (p : Nat) : i ∉ o.row (.ready p) := by
  intro hi
  obtain ⟨-, t, ht, hplace⟩ := (sound.tagged.mem_row _ i).mp hi
  rw [live] at ht
  rw [← Option.some.inj ht] at hplace
  exact away p hplace

/-- A new record keeps the priority and the ticks of the one that it replaces. -/
theorem Sound.same_of_live (live : o.get? h = some task) (priority : task'.priority = task.priority)
    (runTicks : task'.runTicks = task.runTicks) : ∀ t, o.tenant h.index = some t →
      task'.priority = t.priority ∧ task'.runTicks = t.runTicks := by
  intro t ht
  rw [sound.live live] at ht
  rw [← Option.some.inj ht]
  exact ⟨priority, runTicks⟩

/-- A task that goes on as it did keeps its place. -/
theorem Sound.timeless_put (live : o.get? h = some task) (activity : task'.activity = task.activity)
    (priority : task'.priority = task.priority) (runTicks : task'.runTicks = task.runTicks) :
    Timeless o (o.put h.index task') := by
  refine timeless_update rfl rfl rfl rfl rfl rfl (sound.same_of_live live priority runTicks) ?_
    fun p => movesUp_refl _
  intro hruns
  rw [sound.live live]
  simpa [runs, activity] using hruns

/-- A task that leaves its line is in none. -/
theorem Sound.timeless_away (live : o.get? h = some task) (resting : task'.activity ≠ .running)
    (away : ∀ p, task'.place ≠ .ready p) (priority : task'.priority = task.priority)
    (runTicks : task'.runTicks = task.runTicks) :
    Timeless o (o.reseat .back h.index task') := by
  refine timeless_update rfl rfl rfl rfl rfl rfl (sound.same_of_live live priority runTicks) ?_
    fun p => ?_
  · intro hruns
    exact absurd (of_decide_eq_true hruns) resting
  · rw [reseat_row_of_ne (away p).symm]
    exact movesUp_filter _ _

/-- A task that was in no line joins one. -/
theorem Sound.timeless_join (live : o.get? h = some task) (away : ∀ p, task.place ≠ .ready p)
    (task' : Task) (priority : task'.priority = task.priority)
    (runTicks : task'.runTicks = task.runTicks) : Timeless o (o.makeReady h.index task') := by
  refine timeless_update rfl rfl rfl rfl rfl rfl (sound.same_of_live live priority runTicks) ?_
    fun p => ?_
  · intro hruns
    cases of_decide_eq_true hruns
  · rw [makeReady_row]
    exact movesUp_join (sound.not_mem_line (sound.live live) away p) _

theorem Sound.timeless_enroll {spec : TaskSpec} {flags : Flags}
    (done : o.enroll spec flags = .ok (h, o')) : Timeless o o' := by
  obtain ⟨-, i, hvacancy, rfl, hcase⟩ := of_enroll_ok done
  have hvacant := sound.tagged.tenant_vacancy hvacancy
  -- the slot was vacant, so there is no old record to agree with
  have hnew : ∀ {new : Task} (t : Task), o.tenant i = some t →
      new.priority = t.priority ∧ new.runTicks = t.runTicks := by
    intro new t ht
    rw [hvacant] at ht
    cases ht
  have hfresh : ∀ p, i ∉ o.row (.ready p) := by
    intro p hi
    obtain ⟨-, t, ht, -⟩ := (sound.tagged.mem_row _ i).mp hi
    rw [hvacant] at ht
    cases ht
  rcases hcase with ⟨-, rfl⟩ | ⟨-, wanted, rfl, -⟩
  · refine timeless_update rfl rfl rfl rfl rfl (Function.update_idem ..) hnew ?_ fun p => ?_
    · intro hruns
      cases of_decide_eq_true hruns
    · rw [reseat_row_of_ne (by rintro ⟨⟩)]
      exact movesUp_filter _ _
  · refine timeless_update rfl rfl rfl rfl rfl (Function.update_idem ..) hnew ?_ fun p => ?_
    · intro hruns
      cases of_decide_eq_true hruns
    · show MovesUp _ (((o.occupy i _).makeReady i _).row (.ready p))
      rw [makeReady_row]
      exact movesUp_join (hfresh p) _

theorem Sound.timeless_enrollIdle {entry : Nat} (done : o.enrollIdle entry = .ok ((), o')) :
    Timeless o o' := by
  obtain ⟨-, idle, o₁, hmade, rfl⟩ := of_enrollIdle_ok done
  exact (sound.timeless_enroll hmade).remark (some idle) o₁.sendBehind o₁.switchDue

theorem Sound.timeless_shelve {was : Bool} (done : o.shelve h = .ok (was, o')) :
    Timeless o o' := by
  obtain ⟨task, hget, -, ⟨-, -, rfl⟩ | ⟨-, -, -, rfl⟩⟩ := of_shelve_ok done
  · exact timeless_refl _
  · exact sound.timeless_away hget (by rintro ⟨⟩) (by rintro p ⟨⟩) rfl rfl

theorem Sound.timeless_resume {wanted : Bool} (done : o.resume h = .ok (wanted, o')) :
    Timeless o o' := by
  obtain ⟨task, hget, ⟨hsuspended, -, rfl⟩ | ⟨-, -, rfl⟩⟩ := of_resume_ok done
  · have hplace := (sound.settled.fits (sound.live hget)).suspended_iff.mp hsuspended
    have haway : ∀ p, task.place ≠ .ready p := by
      rw [hplace]
      rintro p ⟨⟩
    have hjoin := sound.timeless_join hget haway task rfl rfl
    exact hjoin.remark o.idle o.sendBehind (o.switchDue || wanted)
  · exact timeless_refl _

theorem Sound.timeless_saveContext {context : Nat}
    (done : o.saveContext h context = .ok ((), o')) : Timeless o o' := by
  obtain ⟨task, hget, rfl⟩ := of_saveContext_ok done
  exact sound.timeless_put hget rfl rfl rfl

theorem Sound.timeless_block {ticks : Tick} (done : o.block h ticks = .ok ((), o')) :
    Timeless o o' := by
  obtain ⟨task, hget, -, -, -, ⟨-, rfl⟩ | ⟨-, rfl⟩⟩ := of_block_ok done
  · exact timeless_refl _
  · obtain ⟨hblocked, hunready, -⟩ := o.held_away task ticks
    have hrests : (o.held task ticks).activity ≠ .running := by
      rw [hblocked]
      decide
    have haway := sound.timeless_away hget hrests hunready (o.held_keeps task ticks).2.2
      (o.held_runTicks task ticks)
    exact haway.remark o.idle o.sendBehind (o.switchDue || task.activity == .running)

theorem Sound.timeless_endWait {early wanted : Bool} (done : o.endWait h early = .ok (wanted, o')) :
    Timeless o o' := by
  obtain ⟨task, hget, hblocked, -, rfl⟩ := of_endWait_ok done
  have haway : ∀ p, task.place ≠ .ready p := by
    intro p hplace
    rw [(sound.settled.fits (sound.live hget)).activity, hplace] at hblocked
    cases hblocked
  have hjoin := sound.timeless_join hget haway (unheld task early) rfl rfl
  exact hjoin.remark o.idle o.sendBehind (o.switchDue || wanted)

theorem Sound.timeless_takeCutShort : Timeless o o.takeCutShort.2 := by
  simp only [Outline.takeCutShort]
  cases hrunning : o.runner.bind o.get? with
  | none => exact timeless_refl _
  | some task =>
      dsimp only
      by_cases hcut : task.flags.cutShort = true
      · rw [if_pos hcut]
        exact sound.timeless_put (sound.of_running hrunning).2 rfl rfl rfl
      · rw [if_neg hcut]
        exact timeless_refl _

/-- Up to its choice a call of an open scheduler holds the lines, if it lets no tick
    pass, changes no priority and does not suspend scheduling. -/
theorem Sound.timeless_opens (opened : o.depth = 0) {c : Call} (asks : c.asks = false)
    (level : ∀ h p, c ≠ .reprioritise h p) (goesOn : c ≠ .freezeAll) (opens : Opens c o o') :
    Timeless o o' := by
  cases opens with
  | nothing => exact timeless_refl o
  | enrolled _ done => exact sound.timeless_enroll done
  | enrolledIdle _ done => exact sound.timeless_enrollIdle done
  | removed _ done => exact timeless_remove done
  | shelved _ done => exact sound.timeless_shelve done
  | resumed _ done => exact sound.timeless_resume done
  | regraded call done => exact absurd call (level _ _)
  | saved _ done => exact sound.timeless_saveContext done
  | blocked done => exact sound.timeless_block done
  | woken _ done => exact sound.timeless_endWait done
  | noticed => exact sound.timeless_takeCutShort
  | ticked call =>
      rw [call] at asks
      cases asks
  | elapsed call =>
      rw [call] at asks
      cases asks
  | frozen call => exact absurd call goesOn
  | thawed =>
      rw [show o.thawAll = (false, o) from if_pos opened]
      exact timeless_refl o

end Changes

/-! ## Ticks -/

/-- A task whose tick has come was in no line. -/
theorem Struck.not_mem_due (struck : o.Struck) {p : Nat} (hi : i ∈ o.row (.ready p)) :
    i ∉ o.due := by
  intro hdue
  have hdelayed : i ∈ o.row (.delayed o.cycle) := List.takeWhile_subset _ hdue
  exact struck.tagged.not_mem_of_mem (by rintro ⟨⟩) hi hdelayed

/-- The tasks whose tick has come join the lines. -/
theorem Struck.lines_wakeDue (struck : o.Struck) (p : Nat) :
    MovesUp (o.row (.ready p)) (o.wakeDue.row (.ready p)) := by
  refine ⟨fun x => decide (x ∉ o.due), o.due.filter _, rfl, ?_⟩
  intro x hx hline
  exact struck.not_mem_due hline (List.mem_filter.mp hx).1

/-- A tick leaves the lists, the slice and the running task to the tasks whose tick has
    come. -/
theorem charged_rest (o : Outline) :
    o.chargeRunner.advance.row = o.row ∧ o.chargeRunner.advance.sliceSpent = o.sliceSpent := by
  have hcharged : o.chargeRunner.row = o.row ∧ o.chargeRunner.sliceSpent = o.sliceSpent := by
    rcases o.chargeRunner_cases with heq | ⟨task, -, heq⟩
    · rw [heq]
      exact ⟨rfl, rfl⟩
    · rw [heq]
      exact ⟨rfl, rfl⟩
  rcases o.chargeRunner.advance_cases with ⟨-, heq⟩ | ⟨-, heq⟩
  · rw [heq]
    exact hcharged
  · rw [heq]
    exact hcharged

theorem Sound.holdsLines_passed (sound : o.Sound) : HoldsLines o o.passed := by
  obtain ⟨hsettings, hdepth, -⟩ := o.passed_rest
  refine ⟨hsettings, hdepth, ?_, fun p => ?_⟩
  · intro h running
    rwa [sound.passed_runner] at running
  · rw [← o.charged_rest.1]
    exact sound.chargeRunner.advance.lines_wakeDue p

/-- A tick holds the lines. -/
theorem Sound.holdsLines_tick (sound : o.Sound) : HoldsLines o o.tick.2 := by
  obtain ⟨spent, behind, due, heq⟩ := o.tick_passed
  have hholds := sound.holdsLines_passed
  rw [heq]
  exact ⟨hholds.settings, hholds.depth, hholds.runner, hholds.lines⟩

/-- No task leaves its line by a tick. -/
theorem Sound.mem_line_tick (sound : o.Sound) {p : Nat} (hi : i ∈ o.row (.ready p)) :
    i ∈ o.tick.2.row (.ready p) := by
  obtain ⟨spent, behind, due, heq⟩ := o.tick_passed
  rw [heq]
  rw [← o.charged_rest.1] at hi
  have hstays : i ∉ o.chargeRunner.advance.due := sound.chargeRunner.advance.not_mem_due hi
  exact List.mem_append_left _ (List.mem_filter.mpr ⟨hi, decide_eq_true hstays⟩)

/-- A tick is counted for the running task and for no other. -/
theorem Sound.tick_counts (sound : o.Sound) (live : o.get? h = some task) :
    ∃ task', o.tick.2.get? h = some task' ∧ task'.priority = task.priority
      ∧ task'.runTicks = task.runTicks + if o.runner = some h then 1 else 0 := by
  have hcharged : ∃ t, o.chargeRunner.get? h = some t ∧ t.priority = task.priority
      ∧ t.runTicks = task.runTicks + if o.runner = some h then 1 else 0 := by
    unfold Outline.chargeRunner
    cases hrunning : o.runner.bind o.get? with
    | none =>
        have hother : o.runner ≠ some h := by
          intro hrunner
          rw [hrunner, Option.bind_some, live] at hrunning
          cases hrunning
        refine ⟨task, live, rfl, ?_⟩
        rw [if_neg hother, UInt32.add_zero]
    | some t =>
        obtain ⟨hrunner, hget⟩ := sound.of_running hrunning
        by_cases hself : t.handle = h
        · subst hself
          rw [live] at hget
          obtain rfl := Option.some.inj hget
          rw [if_pos hrunner]
          exact ⟨_, get?_update_self live rfl rfl, rfl, rfl⟩
        · have hother : o.runner ≠ some h := by
            intro heq
            rw [hrunner] at heq
            exact hself (Option.some.inj heq)
          rw [if_neg hother, UInt32.add_zero]
          exact ⟨task, (get?_put (sound.index_ne live hget hself)).trans live, rfl, rfl⟩
  obtain ⟨t, ht, hpriority, hcount⟩ := hcharged
  have hadvanced : o.chargeRunner.advance.get? h = some t := by
    rcases o.chargeRunner.advance_cases with ⟨-, heq⟩ | ⟨-, heq⟩
    · rw [heq]
      exact ht
    · rw [heq]
      exact ht
  -- those who are called keep their count, and the judgement changes marks only
  have hwoken := makeAllReady_get? (f := timedOut) (l := o.chargeRunner.advance.due) hadvanced
  obtain ⟨spent, behind, due, heq⟩ := o.tick_passed
  rw [heq]
  refine ⟨_, hwoken, ?_⟩
  split
  · exact ⟨hpriority, hcount⟩
  · exact ⟨hpriority, hcount⟩

end Outline

end PriorityScheduler
