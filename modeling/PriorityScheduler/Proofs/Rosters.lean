import PriorityScheduler.Proofs.Delays

/-! # Rosters: the tasks of a list by their handles

    A row of an outline holds slots; its ROSTER holds the handles of the tasks in
    them, which is how the lists of a kernel are read.  A handle is on the roster of
    a place exactly when it names a live task whose record names that place. -/

namespace PriorityScheduler

open Function (update)

namespace Outline

variable {o o' : Outline} {i : Nat} {h : Handle} {task task' : Task}

/-! ## Rosters -/

/-- The handle of the task that is in a slot, or moves in next. -/
def named (o : Outline) (i : Nat) : Handle := ⟨i, o.generation i⟩

/-- The tasks on the list of a place, first to last. -/
def roster (o : Outline) (q : Place) : List Handle :=
  (o.row q).map o.named

theorem named_injective (o : Outline) : Function.Injective o.named :=
  fun _ _ heq => congrArg Handle.index heq

/-- A handle names a task under its own slot. -/
theorem named_of_get? (live : o.get? h = some task) : o.named h.index = h := by
  simp only [get?] at live
  by_cases hg : o.generation h.index = h.generation
  · simp only [named, hg]
  · rw [if_neg hg] at live
    cases live

/-- The handle of a slot names the task in it. -/
theorem get?_named (o : Outline) (i : Nat) : o.get? (o.named i) = o.tenant i :=
  if_pos rfl

theorem Tagged.nodup_roster (tagged : o.Tagged) (q : Place) : (o.roster q).Nodup :=
  (tagged.nodup q).map o.named_injective

/-- A task is on the roster of the place that its record names. -/
theorem Tagged.mem_roster (tagged : o.Tagged) {q : Place} :
    h ∈ o.roster q ↔ q ≠ .unlinked ∧ ∃ task, o.get? h = some task ∧ task.place = q := by
  simp only [roster, List.mem_map, tagged.mem_row]
  constructor
  · rintro ⟨i, ⟨hq, task, htask, hplace⟩, rfl⟩
    exact ⟨hq, task, (o.get?_named i).trans htask, hplace⟩
  · rintro ⟨hq, task, hget, hplace⟩
    have hlive := (tagged.get?_eq_some.mp hget).1
    exact ⟨h.index, ⟨hq, task, hlive, hplace⟩, named_of_get? hget⟩

/-- The handles of the tasks on a row are its roster. -/
theorem Tagged.handles_row (tagged : o.Tagged) (q : Place) :
    o.handles (o.row q) = o.roster q := by
  simp only [handles, roster]
  rw [List.filterMap_eq_map_iff_forall_eq_some]
  intro i hi
  obtain ⟨-, task, htask, -⟩ := (tagged.mem_row q i).mp hi
  rw [htask, Option.map_some, tagged.handle htask]
  rfl

/-! ## The running task -/

/-- The running task goes by the task dispatched last, and by what its handle
    names. -/
theorem runner_congr (current : o'.current = o.current)
    (named : ∀ h, o.current = some h → o'.get? h = o.get? h) : o'.runner = o.runner := by
  simp only [runner, current]
  cases hcurrent : o.current with
  | none => rfl
  | some h =>
      dsimp only
      rw [named h hcurrent]

/-- Whether a task runs. -/
def runs (task : Task) : Bool :=
  decide (task.activity = .running)

theorem runner_eq (o : Outline) :
    o.runner = o.current.bind fun h => if (o.get? h).any runs then some h else none := by
  simp only [runner]
  cases o.current with
  | none => rfl
  | some h =>
      cases hget : o.get? h with
      | none => simp [hget]
      | some task => simp [hget, runs]

/-- The running task goes by the task dispatched last, and by which slots hold a task
    that runs. -/
theorem runner_of_slots (current : o'.current = o.current) (generation : o'.generation = o.generation)
    (same : ∀ j, (o'.tenant j).any runs = (o.tenant j).any runs) : o'.runner = o.runner := by
  rw [runner_eq, runner_eq, current]
  refine congrArg _ (funext fun h => ?_)
  have hsame : (o'.get? h).any runs = (o.get? h).any runs := by
    simp only [get?, generation]
    by_cases hg : o.generation h.index = h.generation
    · rw [if_pos hg, if_pos hg]
      exact same h.index
    · rw [if_neg hg, if_neg hg]
  rw [hsame]

/-- A new record leaves the running task alone, if it runs exactly when the task that
    was in the slot does. -/
theorem runner_update (current : o'.current = o.current) (generation : o'.generation = o.generation)
    (tenant : o'.tenant = update o.tenant i (some task')) (same : (o.tenant i).any runs = runs task') :
    o'.runner = o.runner := by
  refine runner_of_slots current generation ?_
  intro j
  rw [tenant]
  by_cases hj : j = i
  · rw [hj, Function.update_self, same]
    rfl
  · rw [Function.update_of_ne hj]

/-- A live task other than the running one does not run. -/
theorem Sound.rests (sound : o.Sound) (live : o.get? h = some task) (other : o.runner ≠ some h) :
    task.activity ≠ .running := by
  intro hrunning
  have hlive := sound.live live
  have hunlinked := (sound.settled.fits hlive).running_iff.mp hrunning
  refine other ?_
  rw [sound.runner_of_unlinked hlive hunlinked, sound.handle_eq live]

/-- The task dispatched last is not in the slot that the next task moves into. -/
theorem Sound.current_index_ne (sound : o.Sound) (current : o.current = some h)
    (vacancy : o.vacancy = some i) : h.index ≠ i := by
  obtain ⟨task, hget⟩ := sound.settled.current current
  exact sound.index_ne_of_vacancy hget vacancy

/-- Making a task leaves the running one alone. -/
theorem Sound.enroll_runner (sound : o.Sound) {spec : TaskSpec} {flags : Flags}
    (done : o.enroll spec flags = .ok (h, o')) : o'.runner = o.runner := by
  obtain ⟨-, i, hvacancy, -, hcase⟩ := of_enroll_ok done
  have hget : ∀ cur, o.current = some cur → o'.get? cur = o.get? cur := by
    intro cur hcurrent
    have hne := sound.current_index_ne hcurrent hvacancy
    rcases hcase with ⟨-, rfl⟩ | ⟨-, wanted, rfl, -⟩
    · rw [get?_reseat hne, get?_occupy_of_ne hne]
    · have hmade : ((o.occupy i (.ofSpec spec flags h)).makeReady i (.ofSpec spec flags h)).get? cur
          = (o.occupy i (.ofSpec spec flags h)).get? cur := get?_makeReady hne
      exact hmade.trans (get?_occupy_of_ne hne)
  refine runner_congr ?_ hget
  rcases hcase with ⟨-, rfl⟩ | ⟨-, wanted, rfl, -⟩
  · rfl
  · rfl

/-! ## The running task through a tick -/

/-- A tick is counted for the running task, which goes on running. -/
theorem Sound.chargeRunner_runner (sound : o.Sound) : o.chargeRunner.runner = o.runner := by
  rcases o.chargeRunner_cases with heq | ⟨task, hrunning, heq⟩
  · rw [heq]
  · rw [heq]
    refine runner_update rfl rfl rfl ?_
    rw [sound.live (sound.of_running hrunning).2]
    rfl

theorem advance_runner (o : Outline) : o.advance.runner = o.runner := by
  rcases o.advance_cases with ⟨-, heq⟩ | ⟨-, heq⟩
  · rw [heq]
    rfl
  · rw [heq]
    rfl

/-- The tasks whose tick has come did not run, and do not run when they are ready. -/
theorem Struck.wakeDue_runner (struck : o.Struck) : o.wakeDue.runner = o.runner := by
  refine runner_of_slots rfl rfl ?_
  intro j
  show (if j ∈ o.due then (o.tenant j).map _ else o.tenant j).any runs = _
  by_cases hj : j ∈ o.due
  · obtain ⟨t, ht, hplace⟩ := struck.tagged.due.2 j hj
    have hblocked : t.activity = .blocked :=
      (struck.settled.fits ht).blocked_iff.mpr (Or.inl ⟨_, hplace⟩)
    rw [if_pos hj, ht]
    simp [runs, readied, hblocked]
  · rw [if_neg hj]

/-- A tick leaves the processor to the running task. -/
theorem Sound.passed_runner (sound : o.Sound) : o.passed.runner = o.runner := by
  calc o.passed.runner
      = o.chargeRunner.advance.runner := sound.chargeRunner.advance.wakeDue_runner
    _ = o.chargeRunner.runner := o.chargeRunner.advance_runner
    _ = o.runner := sound.chargeRunner_runner

theorem Sound.tick_runner (sound : o.Sound) : o.tick.2.runner = o.runner := by
  obtain ⟨spent, behind, due, heq⟩ := o.tick_passed
  rw [heq]
  exact sound.passed_runner

/-! ## Ready tasks -/

/-- Whether a handle names a task that is ready. -/
def isReady (o : Outline) (h : Handle) : Bool :=
  (o.get? h).any fun task => decide (task.activity = .ready)

/-- A ready task is on a level or postponed. -/
theorem Sound.isReady_iff (sound : o.Sound) :
    o.isReady h = true ↔ (∃ p, h ∈ o.roster (.ready p)) ∨ h ∈ o.roster .postponed := by
  simp only [isReady, Option.any_eq_true, decide_eq_true_eq, sound.tagged.mem_roster]
  constructor
  · rintro ⟨task, hget, hready⟩
    rcases (sound.settled.fits (sound.live hget)).ready_iff.mp hready with ⟨p, hp⟩ | hplace
    · exact Or.inl ⟨p, (by rintro ⟨⟩), task, hget, hp⟩
    · exact Or.inr ⟨(by rintro ⟨⟩), task, hget, hplace⟩
  · rintro (⟨p, -, task, hget, hp⟩ | ⟨-, task, hget, hplace⟩)
    · exact ⟨task, hget, (sound.settled.fits (sound.live hget)).ready_iff.mpr (Or.inl ⟨p, hp⟩)⟩
    · exact ⟨task, hget, (sound.settled.fits (sound.live hget)).ready_iff.mpr (Or.inr hplace)⟩

end Outline

namespace Kernel

variable {k : Kernel}

/-- Whether a handle names a task that is ready. -/
def isReady (k : Kernel) (h : Handle) : Bool :=
  (k.table.get? h).any fun task => decide (task.activity = .ready)

theorem isReady_outline (k : Kernel) (h : Handle) : k.isReady h = k.outline.isReady h := by
  simp only [isReady, Outline.isReady, get?_outline]


/-- The tasks on a list of a kernel are on the roster of its outline. -/
theorem Intact.handlesAt (intact : k.Intact) (q : Place) :
    k.handlesAt q = k.outline.roster q :=
  intact.tagged.handles_row q

end Kernel

end PriorityScheduler
