import PriorityScheduler.Proofs.Reachability

/-! # The structure of a kernel

    A task's record says what the task does and which list it is on; the lists are
    threaded through shared links, and their lengths, the map of occupied levels
    and the handles of the present and of the idle task are kept beside them.  A
    kernel is WELL FORMED when all of these say the same.

    Whatever calls are made of a scheduler, with stale and forged handles among
    their arguments, its kernel is well formed after each of them. -/

namespace PriorityScheduler

open Routine

namespace TaskTable

/-! ## Counting tasks -/

/-- The live tasks are those found by going through the slots. -/
theorem tasks_eq (t : TaskTable) : t.tasks = (List.range t.slots.size).filterMap t.tenant? := by
  have hslots : t.slots.toList = (List.range t.slots.size).map fun i => (t.slots[i]?).getD {} := by
    refine List.ext_getElem ?_ ?_
    · rw [List.length_map, List.length_range, Array.length_toList]
    · intro i hi _
      have hlt : i < t.slots.size := by
        rw [← Array.length_toList]
        exact hi
      rw [List.getElem_map, List.getElem_range, Array.getElem_toList, Array.getElem?_eq_getElem hlt]
      rfl
  simp only [tasks]
  rw [hslots, List.filterMap_map]
  refine List.filterMap_congr ?_
  intro i hi
  have hlt : i < t.slots.size := List.mem_range.mp hi
  show ((t.slots[i]?).getD {}).task = (t.slots[i]?).bind Slot.task
  rw [Array.getElem?_eq_getElem hlt]
  rfl

/-- The live tasks with a property are as many as the slots that hold such a
    task. -/
theorem length_filter_tasks (t : TaskTable) (P : Task → Bool) :
    (t.tasks.filter P).length
      = ((List.range t.slots.size).filter fun i => (t.tenant? i).any P).length := by
  rw [tasks_eq]
  induction List.range t.slots.size with
  | nil => rfl
  | cons i rest ih =>
      cases htask : t.tenant? i with
      | none =>
          rw [List.filterMap_cons_none htask, List.filter_cons_of_neg (by rw [htask]; simp)]
          exact ih
      | some task =>
          rw [List.filterMap_cons_some htask]
          by_cases hP : P task = true
          · rw [List.filter_cons_of_pos hP, List.filter_cons_of_pos (by rw [htask]; simpa using hP),
              List.length_cons, List.length_cons, ih]
          · rw [List.filter_cons_of_neg hP, List.filter_cons_of_neg (by rw [htask]; simpa using hP)]
            exact ih

/-- The live tasks are counted by what is not vacant. -/
theorem liveCount_eq (t : TaskTable) (nodup : t.vacant.Nodup)
    (mem : ∀ i, i ∈ t.vacant ↔ i < t.slots.size ∧ t.tenant? i = none)
    (live : t.liveCount + t.vacant.length = t.slots.size) : t.liveCount = t.tasks.length := by
  have hvacant : t.vacant.length
      = ((List.range t.slots.size).filter fun i => !(t.tenant? i).isSome).length := by
    refine List.Perm.length_eq ((List.perm_ext_iff_of_nodup nodup
      (List.nodup_range.filter _)).mpr ?_)
    intro i
    rw [List.mem_filter, List.mem_range, Bool.not_eq_true', Option.isSome_eq_false_iff,
      Option.isNone_iff_eq_none]
    exact mem i
  have htasks := t.length_filter_tasks fun _ => true
  have hany : ∀ i, (t.tenant? i).any (fun _ => true) = (t.tenant? i).isSome := by
    intro i
    cases t.tenant? i <;> rfl
  simp only [List.filter_true, hany] at htasks
  have hsplit := List.length_eq_length_filter_add (l := List.range t.slots.size)
    (fun i => (t.tenant? i).isSome)
  rw [List.length_range] at hsplit
  omega

/-- The handles of the live tasks are distinct. -/
theorem nodup_handles (t : TaskTable)
    (handle : ∀ {i task}, t.tenant? i = some task → task.handle = ⟨i, t.generationAt i⟩) :
    (t.tasks.map Task.handle).Nodup := by
  rw [tasks_eq, List.map_filterMap]
  refine List.nodup_range.filterMap ?_
  intro i j h hi hj
  obtain ⟨task, ht, rfl⟩ := Option.map_eq_some_iff.mp hi
  obtain ⟨task', ht', heq⟩ := Option.map_eq_some_iff.mp hj
  rw [handle ht, handle ht'] at heq
  exact (congrArg Handle.index heq).symm

end TaskTable

namespace Kernel

variable {k : Kernel}

/-! ## Well-formed kernels -/

/-- The records, the lists and all that is kept beside them agree. -/
structure WellFormed (k : Kernel) : Prop where
  /-- A live task is once on the list that its record names, and on no other. -/
  listed : ∀ {i task}, k.table.tenant? i = some task → ∀ q,
    (k.slotsAt q).count i = if q = task.place ∧ q ≠ .unlinked then 1 else 0
  /-- A walk along a list meets only live tasks whose records name the list. -/
  walked : ∀ {q i}, i ∈ k.slotsAt q → ∃ task, k.table.tenant? i = some task ∧ task.place = q
  /-- A walk from the other end meets the same tasks. -/
  backwards : ∀ q, (k.chain q).toListBack k.table.links = (k.slotsAt q).reverse
  /-- The length kept with a list is the number of tasks that a walk meets. -/
  counted : ∀ q, k.countAt q = (k.slotsAt q).length
  /-- It is the number of live tasks whose records name the list as well. -/
  census : ∀ q, q ≠ .unlinked →
    k.countAt q = (k.table.tasks.filter fun task => task.place = q).length
  /-- A ready task stands on the level of its priority. -/
  level : ∀ {i task p}, k.table.tenant? i = some task → task.place = .ready p →
    p = task.priority ∧ p < k.settings.levels
  /-- What a task does goes with the list that it is on. -/
  running : ∀ {i task}, k.table.tenant? i = some task →
    (task.activity = .running ↔ task.place = .unlinked)
  ready : ∀ {i task}, k.table.tenant? i = some task →
    (task.activity = .ready ↔ (∃ p, task.place = .ready p) ∨ task.place = .postponed)
  blocked : ∀ {i task}, k.table.tenant? i = some task →
    (task.activity = .blocked ↔ (∃ c, task.place = .delayed c) ∨ task.place = .waiting)
  suspended : ∀ {i task}, k.table.tenant? i = some task →
    (task.activity = .suspended ↔ task.place = .suspended)
  /-- No more than one task runs, and it is the one dispatched last. -/
  alone : ∀ {i j task task'}, k.table.tenant? i = some task → k.table.tenant? j = some task' →
    task.activity = .running → task'.activity = .running → i = j
  runner : ∀ {i task}, k.table.tenant? i = some task → task.activity = .running →
    k.current = some task.handle
  /-- The tasks remembered by handle are live; the idle one is marked, and no
      other is. -/
  current : ∀ {h}, k.current = some h → ∃ task, k.table.get? h = some task
  idle : ∀ {h}, k.idle = some h → ∃ task, k.table.get? h = some task ∧ task.flags.idle = true
  marked : ∀ {i task}, k.table.tenant? i = some task → task.flags.idle = true →
    k.idle = some task.handle
  /-- A bit of the map is set while its level holds a task. -/
  occupied : ∀ p, k.ready.occupied.getLsbD p = true ↔ k.countAt (.ready p) ≠ 0
  /-- Tasks are postponed only while scheduling is suspended. -/
  postponed : k.countAt .postponed ≠ 0 → k.freeze.isOff = false
  /-- Delayed tasks stand in the order of their ticks, which come after the present
      tick in the present cycle and before it in the next one. -/
  inOrder : ∀ c, (k.slotsAt (.delayed c)).Pairwise fun i j => ∀ task task',
    k.table.tenant? i = some task → k.table.tenant? j = some task' →
      task.wakeTick ≤ task'.wakeTick
  ahead : ∀ {i task}, k.table.tenant? i = some task → task.place = .delayed k.delayed.current →
    k.now < task.wakeTick
  behind : ∀ {i task}, k.table.tenant? i = some task →
    task.place = .delayed k.delayed.current.other → task.wakeTick < k.now
  /-- A record has the handle by which it is found. -/
  handle : ∀ {i task}, k.table.tenant? i = some task → task.handle = ⟨i, k.table.generationAt i⟩
  /-- The live tasks are counted, and the vacant slots are the empty ones. -/
  live : k.table.liveCount = k.table.tasks.length
  vacant : ∀ i, i ∈ k.table.vacant ↔ i < k.table.slots.size ∧ k.table.tenant? i = none

theorem Intact.liveCount (intact : k.Intact) : k.table.liveCount = k.table.tasks.length :=
  k.table.liveCount_eq intact.tagged.vacant_nodup intact.tagged.mem_vacant intact.tagged.live

/-- A list is as long as there are live tasks whose records name it. -/
theorem Intact.census (intact : k.Intact) {q : Place} (linked : q ≠ .unlinked) :
    (k.slotsAt q).length = (k.table.tasks.filter fun task => task.place = q).length := by
  rw [TaskTable.length_filter_tasks]
  refine List.Perm.length_eq ((List.perm_ext_iff_of_nodup (intact.tagged.nodup q)
    (List.nodup_range.filter _)).mpr ?_)
  intro i
  rw [List.mem_filter, List.mem_range, intact.tagged.mem_row]
  constructor
  · rintro ⟨-, task, htask, hplace⟩
    have hsame : k.table.tenant? i = some task := htask
    refine ⟨intact.tagged.bound htask, ?_⟩
    rw [hsame]
    exact decide_eq_true hplace
  · rintro ⟨-, hany⟩
    obtain ⟨task, htask, hplace⟩ := (Option.any_eq_true _ _).mp hany
    exact ⟨linked, task, htask, of_decide_eq_true hplace⟩

/-- An intact kernel with a sound outline is well formed. -/
theorem Intact.wellFormed (intact : k.Intact) (sound : k.outline.Sound) : k.WellFormed where
  listed := by
    intro i task htask q
    by_cases hq : q = task.place ∧ q ≠ .unlinked
    · -- a row holds the slots that name it, each once
      rw [if_pos hq]
      refine List.count_eq_one_of_mem (sound.tagged.nodup q) ?_
      exact (sound.tagged.mem_row q i).mpr ⟨hq.2, task, htask, hq.1.symm⟩
    · rw [if_neg hq, List.count_eq_zero]
      intro hi
      obtain ⟨hlinked, task', htask', hplace⟩ := (sound.tagged.mem_row q i).mp hi
      have hsame : k.outline.tenant i = some task := htask
      rw [hsame] at htask'
      rw [← Option.some.inj htask'] at hplace
      exact hq ⟨hplace.symm, hlinked⟩
  walked hi := ((sound.tagged.mem_row _ _).mp hi).2
  backwards q := (intact.threaded.holds q).toListBack_eq
  counted q := (intact.threaded.holds q).length
  census q linked := (intact.threaded.holds q).length.trans (intact.census linked)
  level htask hplace :=
    ⟨(sound.settled.fits htask).level _ hplace, sound.tagged.level htask hplace⟩
  running htask := (sound.settled.fits htask).running_iff
  ready htask := (sound.settled.fits htask).ready_iff
  blocked htask := (sound.settled.fits htask).blocked_iff
  suspended htask := (sound.settled.fits htask).suspended_iff
  alone htask htask' hrun hrun' :=
    sound.unlinked_unique htask htask' ((sound.settled.fits htask).running_iff.mp hrun)
      ((sound.settled.fits htask').running_iff.mp hrun')
  runner htask hrun := by
    have hfits := sound.settled.fits htask
    exact hfits.dispatched (hfits.running_iff.mp hrun)
  current hcurrent := by
    obtain ⟨task, hget⟩ := sound.settled.current hcurrent
    exact ⟨task, (get?_outline k _).trans hget⟩
  idle hidle := by
    obtain ⟨task, hget, hflag⟩ := sound.settled.idle hidle
    exact ⟨task, (get?_outline k _).trans hget, hflag⟩
  marked htask hflag := sound.settled.flagged htask hflag
  occupied p := by
    have hlength : k.countAt (.ready p) = (k.slotsAt (.ready p)).length :=
      (intact.threaded.holds (.ready p)).length
    rw [intact.threaded.marked p, hlength, Ne, Ne, List.length_eq_zero_iff]
  postponed hsome := by
    have hlength : k.countAt .postponed = (k.slotsAt .postponed).length :=
      (intact.threaded.holds .postponed).length
    rw [hlength] at hsome
    obtain ⟨i, hi⟩ := List.exists_mem_of_length_pos (Nat.pos_of_ne_zero hsome)
    obtain ⟨-, task, htask, hplace⟩ := (sound.tagged.mem_row _ i).mp hi
    rw [isOff_outline]
    exact decide_eq_false ((sound.settled.fits htask).postponed hplace)
  inOrder c := by
    refine (sound.inOrder c).imp ?_
    intro i j hle task task' htask htask'
    have hsame : k.outline.tenant i = some task := htask
    have hsame' : k.outline.tenant j = some task' := htask'
    simp only [Outline.tickOf] at hle
    rw [hsame, hsame'] at hle
    exact hle
  ahead htask hplace := (sound.timed htask).ahead hplace
  behind htask hplace := (sound.timed htask).behind hplace
  handle htask := sound.tagged.handle htask
  live := intact.liveCount
  vacant := sound.tagged.mem_vacant

/-! ## Every history -/

/-- A scheduler of accepted settings is well formed after every history of calls
    with any arguments, on every platform, unless the history stops it; and it
    stops only because no task is left to dispatch. -/
theorem perform_wellFormed {s : Settings} (accepted : s.check = .ok ()) (p : Platform)
    (calls : List Call) :
    (∀ rs m, perform calls ⟨initial s, p⟩ = .ok rs m → m.state.WellFormed)
      ∧ ∀ e m, perform calls ⟨initial s, p⟩ = .error e m → e = .fault (.halted .nothingReady) := by
  have hvalid : s.Valid := s.check_eq_ok_iff.mp accepted
  have hintact := intact_initial hvalid
  have hsound := sound_initial hvalid
  constructor
  · intro rs m hrun
    obtain ⟨hintact', hsound', -⟩ := hintact.of_perform hsound hrun
    exact hintact'.wellFormed hsound'
  · intro e m hrun
    obtain ⟨-, hfailed⟩ := (hintact.enacts_perform hsound calls).error hrun
    exact Outline.perform_error hsound hfailed

/-- The default settings are accepted, so the kernel is well formed after a task
    was made, the scheduler was started and a handle that was never given out was
    blocked. -/
theorem perform_wellFormed_default :
    let calls : List Call :=
      [.create { name := "worker", priority := 3 }, .start 0, .block ⟨7, 2⟩ 5]
    ({} : Settings).check = .ok ()
      ∧ (∀ rs m, perform calls ⟨initial {}, {}⟩ = .ok rs m → m.state.WellFormed)
      ∧ ∀ e m, perform calls ⟨initial {}, {}⟩ = .error e m → e = .fault (.halted .nothingReady) := by
  have haccepted : ({} : Settings).check = .ok () :=
    ({} : Settings).check_eq_ok_iff.mpr (by decide)
  exact ⟨haccepted, perform_wellFormed haccepted {} _⟩

end Kernel

end PriorityScheduler
