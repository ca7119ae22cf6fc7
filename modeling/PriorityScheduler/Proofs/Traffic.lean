import Mathlib.Data.List.TakeWhile
import PriorityScheduler.Proofs.Batches
import PriorityScheduler.Proofs.Placement

/-! # Coming, going and choosing, on outlines

    The rest of what the kernel does to its table and its lists: a record is
    replaced in its place, a task moves in or leaves for good, tasks are called
    off the front of a list, and the first task of the highest occupied level is
    taken.  As in the module before, every step is one change of the outline. -/

namespace PriorityScheduler

namespace Kernel

/-! ## Changes that keep every list -/

/-- Only the settings, the table and the lists count for a kernel to be intact. -/
theorem Intact.congr {k k' : Kernel} (intact : k.Intact) (settings : k'.settings = k.settings)
    (table : k'.table = k.table) (ready : k'.ready = k.ready)
    (chain : ∀ q, k'.chain q = k.chain q) : k'.Intact := by
  have hslots : k'.slotsAt = k.slotsAt := by
    funext q
    simp only [slotsAt]
    rw [chain, table]
  refine ⟨⟨?holds, ?marked, ?levels, ?linkSize, ?tableLevels, ?capacity, ?valid⟩, ?tagged⟩
  case holds =>
    intro q
    rw [chain, table, hslots]
    exact intact.threaded.holds q
  case marked =>
    intro p
    rw [ready, hslots]
    exact intact.threaded.marked p
  case levels =>
    rw [ready, settings]
    exact intact.threaded.levels
  case linkSize =>
    rw [table]
    exact intact.threaded.linkSize
  case tableLevels =>
    rw [table, settings]
    exact intact.threaded.tableLevels
  case capacity =>
    rw [table, settings]
    exact intact.threaded.capacity
  case valid =>
    rw [settings]
    exact intact.threaded.valid
  case tagged =>
    refine intact.tagged.congr settings ?_ ?_ ?_ ?_ ?_ hslots
    · exact congrArg (fun t : TaskTable => t.slots.size) table
    · exact congrArg TaskTable.generationAt table
    · exact congrArg TaskTable.tenant? table
    · exact congrArg TaskTable.vacant table
    · exact congrArg TaskTable.liveCount table

/-- A record can be replaced in its place. -/
theorem Intact.putTask {k : Kernel} (intact : k.Intact) {i : Nat} {task task' : Task}
    (live : k.outline.tenant i = some task) (handle : task'.handle = task.handle)
    (place : task'.place = task.place) (priority : task'.priority < k.settings.levels) :
    (k.putTask i task').Intact ∧ (k.putTask i task').outline = k.outline.put i task' := by
  have houtline : (k.putTask i task').outline = k.outline.put i task' := by
    ext1 <;> try rfl
    · exact TaskTable.size_put ..
    · exact TaskTable.generationAt_put ..
    · exact TaskTable.tenant?_put task' (TaskTable.lt_of_tenant? live)
  refine ⟨⟨⟨intact.threaded.holds, intact.threaded.marked, intact.threaded.levels, ?_,
    intact.threaded.tableLevels, intact.threaded.capacity, intact.threaded.valid⟩, ?_⟩, houtline⟩
  · show k.table.links.size = (k.table.put i task').slots.size
    rw [TaskTable.size_put]
    exact intact.threaded.linkSize
  · rw [houtline]
    exact intact.tagged.put live handle place priority

/-- The record of a live task can be changed in its place. -/
theorem Intact.updateTask {k : Kernel} (intact : k.Intact) {h : Handle} {task : Task}
    (f : Task → Task) (live : k.outline.get? h = some task) (handle : (f task).handle = task.handle)
    (place : (f task).place = task.place) (priority : (f task).priority < k.settings.levels) :
    ∃ k', k.updateTask h f = .ok k' ∧ k'.Intact ∧ k'.outline = k.outline.put h.index (f task) := by
  refine ⟨_, ?_, intact.putTask (intact.tenant live) handle place priority⟩
  simp only [Kernel.updateTask, TaskTable.update]
  rw [(get?_outline k h).trans live]
  rfl

/-- No record is changed for a handle that names none. -/
theorem updateTask_error {k : Kernel} {h : Handle} (f : Task → Task)
    (dead : k.outline.get? h = none) :
    k.updateTask h f = .error (.refused .unknownHandle) := by
  simp only [Kernel.updateTask, TaskTable.update]
  rw [(get?_outline k h).trans dead]
  rfl

/-! ## Coming and going -/

/-- A kernel stays threaded when its table is replaced, if the links of all
    slots that are on a list stay. -/
theorem Threaded.reframe {k : Kernel} (threaded : k.Threaded) (table : TaskTable)
    (size : k.table.links.size ≤ table.links.size)
    (same : ∀ q, ∀ j ∈ k.slotsAt q, table.links.get j = k.table.links.get j)
    (linkSize : table.links.size = table.slots.size) (levels : table.levels = k.table.levels)
    (capacity : table.capacity = k.table.capacity) :
    Threaded { k with table := table } ∧ slotsAt { k with table := table } = k.slotsAt := by
  have hholds : ∀ q, (k.chain q).Holds table.links (k.slotsAt q) :=
    fun q => (threaded.holds q).frame size (same q)
  have hslots : slotsAt { k with table := table } = k.slotsAt :=
    funext fun q => (hholds q).toList_eq
  refine ⟨⟨?_, ?_, threaded.levels, linkSize, levels.trans threaded.tableLevels,
    capacity.trans threaded.capacity, threaded.valid⟩, hslots⟩
  · intro q
    rw [hslots]
    exact hholds q
  · intro p
    rw [hslots]
    exact threaded.marked p

/-- A slot without a task is on no list. -/
theorem Intact.not_mem_of_none {k : Kernel} (intact : k.Intact) {i : Nat}
    (empty : k.outline.tenant i = none) (q : Place) : i ∉ k.slotsAt q := by
  intro hi
  obtain ⟨-, task, htask, -⟩ := (intact.tagged.mem_row q i).mp hi
  rw [empty] at htask
  cases htask

/-- A task with a priority that exists, and that begins as a task can, moves into
    the slot that is free. -/
theorem Intact.enter {k : Kernel} (intact : k.Intact) {spec : TaskSpec} (flags : Flags) {i : Nat}
    (priority : spec.priority < k.settings.levels)
    (begins : spec.begins = .ready ∨ spec.begins = .suspended)
    (vacancy : k.outline.vacancy = some i) :
    ∃ table, k.table.enter spec flags = .ok (⟨i, k.outline.generation i⟩, table)
      ∧ Intact { k with table := table }
      ∧ outline { k with table := table }
        = k.outline.occupy i (.ofSpec spec flags ⟨i, k.outline.generation i⟩) := by
  have hnone := intact.tagged.tenant_vacancy vacancy
  -- the vacancy is the last slot freed, or the next one as long as the table may grow
  have hroom : k.table.Room i := by
    rcases intact.tagged.vacancy_cases vacancy with ⟨rest, hv, hlt, -⟩ | ⟨hv, hi, hlt, -⟩
    · exact Or.inl ⟨rest, hv, hlt⟩
    · refine Or.inr ⟨hv, hi, ?_⟩
      rw [intact.threaded.capacity]
      exact hlt
  rw [← intact.threaded.tableLevels] at priority
  obtain ⟨table, hrun, htenant, hgen, hsize, hvacant, hlive, hcap, hlev, hlinks, hget⟩ :=
    TaskTable.enter_ok flags priority begins hroom intact.threaded.linkSize
  rw [intact.threaded.tableLevels] at priority
  -- the slot is on no list, so every list is read where nothing has changed
  obtain ⟨hthreaded, hslots⟩ := intact.threaded.reframe table (by
      rw [hlinks, hsize, intact.threaded.linkSize]
      exact Nat.le_max_left ..)
    (fun q j hj => hget j (fun h => intact.not_mem_of_none hnone q (h ▸ hj))) hlinks hlev hcap
  have houtline : outline { k with table := table }
      = k.outline.occupy i (.ofSpec spec flags ⟨i, k.outline.generation i⟩) := by
    ext1 <;> try rfl
    · exact hsize
    · exact hgen
    · exact htenant
    · exact hvacant
    · exact hlive
    · exact hslots
  refine ⟨table, hrun, ⟨hthreaded, ?_⟩, houtline⟩
  rw [houtline]
  exact intact.tagged.occupy vacancy rfl priority rfl

/-- No task moves in when there is no slot left. -/
theorem Intact.enter_full {k : Kernel} (intact : k.Intact) {spec : TaskSpec} {flags : Flags}
    (priority : spec.priority < k.settings.levels)
    (begins : spec.begins = .ready ∨ spec.begins = .suspended)
    (full : k.outline.vacancy = none) :
    k.table.enter spec flags = .error (.refused .tableFull) := by
  rw [← intact.threaded.tableLevels] at priority
  obtain ⟨hvacant, hfull⟩ := k.outline.vacancy_eq_none_iff.mp full
  refine TaskTable.enter_full priority begins hvacant ?_
  rw [intact.threaded.capacity]
  exact hfull

/-- A task that is on no list leaves for good. -/
theorem Intact.retire {k : Kernel} (intact : k.Intact) {h : Handle} {task : Task}
    (live : k.outline.get? h = some task) (unlinked : task.place = .unlinked) :
    ∃ table, k.table.retire h = .ok ({ task with activity := .deleted }, table)
      ∧ Intact { k with table := table }
      ∧ outline { k with table := table } = k.outline.vacate h.index := by
  have htask := intact.tenant live
  have hnot := intact.tagged.not_mem_unlinked htask unlinked
  obtain ⟨table, hrun, htenant, hgen, hsize, hvacant, hlive, hcap, hlev, hlinks, hget⟩ :=
    TaskTable.retire_ok ((get?_outline k h).trans live) unlinked (intact.tagged.live_pos htask)
  -- an unlinked task is on no list, so every list is read where nothing has changed
  obtain ⟨hthreaded, hslots⟩ := intact.threaded.reframe table (Nat.le_of_eq hlinks.symm)
    (fun q j hj => hget j (fun heq => hnot q (heq ▸ hj)))
    (by rw [hlinks, hsize]; exact intact.threaded.linkSize) hlev hcap
  have houtline : outline { k with table := table } = k.outline.vacate h.index := by
    ext1 <;> try rfl
    · exact hsize
    · exact hgen
    · exact htenant
    · exact hvacant
    · exact hlive
    · funext q
      show slotsAt _ q = (k.slotsAt q).filter (· ≠ h.index)
      rw [hslots]
      exact (filter_of_not_mem (hnot q)).symm
  refine ⟨table, hrun, ⟨hthreaded, ?_⟩, houtline⟩
  rw [houtline]
  exact intact.tagged.vacate htask

/-! ## Calling tasks off a list -/

/-- Tasks are called off the front of a list, apart from the ready levels, for as
    long as they are due. -/
theorem Intact.callWhile {k : Kernel} (intact : k.Intact) (q : Place) (hq : q ≠ .unlinked)
    (unready : ∀ p, q ≠ .ready p) (due : TaskTable → Nat → Bool) (d : Nat → Bool)
    (agree : ∀ t' : TaskTable,
      (∀ j, (t'.tenant? j).map Task.wakeTick = (k.outline.tenant j).map Task.wakeTick) →
      ∀ i ∈ k.slotsAt q, due t' i = d i) :
    ∃ c table, k.table.callWhile (k.chain q) due
        = .ok (k.outline.handles ((k.outline.row q).takeWhile d), c, table)
      ∧ (k.rethread q c table k.ready.occupied).Intact
      ∧ (k.rethread q c table k.ready.occupied).outline
        = k.outline.liftAll ((k.outline.row q).takeWhile d) := by
  have hholds := intact.threaded.holds q
  have hlive : ∀ i ∈ k.slotsAt q, ∃ task, k.table.tenant? i = some task := by
    intro i hi
    obtain ⟨-, task, htask, -⟩ := (intact.tagged.mem_row q i).mp hi
    exact ⟨task, htask⟩
  obtain ⟨c, table, hrun, hc, hrewired, htenant, hsame⟩ :=
    TaskTable.callUpTo_ok due d (k.slotsAt q) k.table (k.chain q) hholds hlive agree
  rw [← hholds.length] at hrun
  have hoff : ∀ q', q' ≠ q → ∀ i ∈ k.slotsAt q', i ∉ k.slotsAt q :=
    fun q' hq' i hi => intact.tagged.not_mem_of_mem hq' hi
  obtain ⟨hthreaded, hslots⟩ := intact.threaded.rethread k.ready.occupied hq
    (fun p hp => absurd hp (unready p)) hc hrewired hoff (fun p hp => absurd hp (unready p)) hsame
  have houtline : (k.rethread q c table k.ready.occupied).outline
      = k.outline.liftAll ((k.outline.row q).takeWhile d) := by
    rw [outline_rethread]
    ext1 <;> try rfl
    · exact hsame.size
    · exact hsame.generation
    · exact htenant
    · exact hsame.vacant
    · exact hsame.liveCount
    · funext q'
      -- the other lists have none of the tasks that are called, this one loses them all
      show slotsAt _ q' = (k.slotsAt q').filter (· ∉ (k.slotsAt q).takeWhile d)
      rw [hslots]
      show (if q' = q then _ else _) = _
      by_cases h : q' = q
      · rw [if_pos h, h]
        exact Outline.dropWhile_eq_filter d hholds.nodup
      · rw [if_neg h]
        refine (Outline.filter_of_disjoint ?_).symm
        intro j hj hj'
        exact hoff q' h j hj (List.takeWhile_subset _ hj')
  refine ⟨c, table, hrun, ⟨hthreaded, ?_⟩, houtline⟩
  rw [houtline]
  exact intact.tagged.liftAll _

/-- The tasks of the present cycle whose tick has come are called. -/
theorem Intact.takeDue {k : Kernel} (intact : k.Intact) :
    ∃ delayed table, k.delayed.takeDue k.table k.now
        = .ok (k.outline.handles k.outline.due, delayed, table)
      ∧ Intact { k with delayed := delayed, table := table }
      ∧ outline { k with delayed := delayed, table := table }
        = k.outline.liftAll k.outline.due := by
  obtain ⟨c, table, hrun, hdone⟩ := intact.callWhile (.delayed k.delayed.current)
    (by rintro ⟨⟩) (by rintro p ⟨⟩)
    (fun t i => decide (DelayQueue.orderTick t i ≤ k.now))
    (fun i => decide (Outline.tickOf k.outline.tenant i ≤ k.now)) (by
      intro t' hwake i _
      have htick : DelayQueue.orderTick t' i = Outline.tickOf k.outline.tenant i := by
        have := hwake i
        simp only [DelayQueue.orderTick, Outline.tickOf]
        cases h' : t'.tenant? i <;> cases h : k.outline.tenant i <;> simp [h', h] at this ⊢
        exact this
      rw [htick])
  refine ⟨_, table, ?_, hdone⟩
  simp only [DelayQueue.takeDue]
  show (do let r ← k.table.callWhile (k.chain (.delayed k.delayed.current)) _; _) = _
  rw [hrun]
  rfl

/-- Every postponed task is called, if scheduling goes on. -/
theorem Intact.takeAll {k : Kernel} (intact : k.Intact) (off : k.freeze.isOff = true) :
    ∃ freeze table, k.freeze.takeAll k.table
        = .ok (k.outline.handles (k.outline.row .postponed), freeze, table)
      ∧ Intact { k with freeze := freeze, table := table }
      ∧ outline { k with freeze := freeze, table := table }
        = k.outline.liftAll (k.outline.row .postponed) := by
  obtain ⟨c, table, hrun, hdone⟩ := intact.callWhile .postponed
    (by rintro ⟨⟩) (by rintro p ⟨⟩) (fun _ _ => true) (fun _ => true)
    (fun _ _ _ _ => rfl)
  have hall : (k.outline.row .postponed).takeWhile (fun _ => true) = k.outline.row .postponed :=
    List.takeWhile_eq_self_iff.mpr (fun _ _ => rfl)
  rw [hall] at hrun hdone
  refine ⟨_, table, ?_, hdone⟩
  simp only [Freeze.takeAll]
  rw [if_pos off]
  show (do let r ← k.table.callWhile (k.chain .postponed) _; _) = _
  rw [hrun]
  rfl

/-- The cycle can end when no task waits in it. -/
theorem turnOver_ok {k : Kernel} (intact : k.Intact)
    (done : k.outline.row (.delayed k.outline.cycle) = []) :
    k.delayed.turnOver = .ok { k.delayed with current := k.delayed.current.other } := by
  have hlen := (intact.threaded.holds (.delayed k.delayed.current)).length
  have hnil : k.slotsAt (.delayed k.delayed.current) = [] := done
  rw [hnil] at hlen
  have hempty : (k.delayed.list k.delayed.current).isEmpty = true := beq_iff_eq.mpr hlen
  simp only [DelayQueue.turnOver]
  rw [if_pos hempty]
  rfl

/-! ## Choosing -/

/-- A level holds no task when the map does not mark it. -/
theorem Threaded.unmarked {k : Kernel} (threaded : k.Threaded) {p : Nat}
    (h : k.ready.occupied.getLsbD p = false) : k.outline.row (.ready p) = [] := by
  by_contra hrow
  rw [(threaded.marked p).mpr hrow] at h
  exact Bool.noConfusion h

/-- The map finds the highest level that it marks, if it marks one. -/
theorem topLevel_marked (q : ReadyQueue) :
    (q.topLevel = none ∧ ∀ p, q.occupied.getLsbD p = false)
      ∨ ∃ p, q.topLevel = some p ∧ q.occupied.getLsbD p = true
        ∧ ∀ p', p < p' → q.occupied.getLsbD p' = false := by
  simp only [ReadyQueue.topLevel]
  by_cases hzero : q.occupied = 0
  · rw [if_pos hzero, hzero]
    exact Or.inl ⟨rfl, fun p => BitVec.getLsbD_zero⟩
  · rw [if_neg hzero]
    have hne : q.occupied.toNat ≠ 0 := fun h => hzero (BitVec.eq_of_toNat_eq h)
    refine Or.inr ⟨_, rfl, Nat.testBit_log2 hne, ?_⟩
    intro p hp
    refine Nat.testBit_lt_two_pow ?_
    exact Nat.lt_of_lt_of_le Nat.lt_log2_self (Nat.pow_le_pow_right Nat.two_pos hp)

/-- The map finds the highest level that holds a task, if there is one. -/
theorem Threaded.topLevel {k : Kernel} (threaded : k.Threaded) :
    (k.ready.topLevel = none ∧ ∀ p, k.outline.row (.ready p) = [])
      ∨ ∃ p, k.ready.topLevel = some p ∧ k.outline.IsTop p := by
  rcases topLevel_marked k.ready with ⟨hnone, hall⟩ | ⟨p, hsome, hmarked, habove⟩
  · exact Or.inl ⟨hnone, fun p => threaded.unmarked (hall p)⟩
  · exact Or.inr ⟨p, hsome, (threaded.marked p).mp hmarked,
      fun p' hp' => threaded.unmarked (habove p' hp')⟩

/-- The level that the map finds is the one that is read off the lists. -/
theorem Intact.topLevel {k : Kernel} (intact : k.Intact) :
    k.ready.topLevel = k.outline.topLevel := by
  rcases intact.threaded.topLevel with ⟨hnone, hall⟩ | ⟨p, hsome, hp⟩
  · rw [hnone, intact.tagged.topLevel_eq_none hall]
  · rw [hsome, intact.tagged.topLevel_eq hp]

theorem Intact.readyAbove {k : Kernel} (intact : k.Intact) (priority : Nat) :
    k.readyAbove priority = k.outline.readyAbove priority := by
  simp only [Kernel.readyAbove, Outline.readyAbove]
  rewrite [intact.topLevel]
  cases k.outline.topLevel <;> rfl

/-- The map is empty when it finds no level. -/
theorem Intact.isEmpty {k : Kernel} (intact : k.Intact) :
    k.ready.isEmpty = !k.outline.topLevel.isSome := by
  rw [← intact.topLevel]
  simp only [ReadyQueue.isEmpty, ReadyQueue.topLevel]
  by_cases hzero : k.ready.occupied = 0
  · rw [if_pos hzero, hzero]
    rfl
  · rw [if_neg hzero]
    exact beq_false_of_ne hzero

/-- A level counts the tasks that stand on it. -/
theorem Threaded.countAt {k : Kernel} (threaded : k.Threaded) (p : Nat) :
    k.ready.countAt p = (k.outline.row (.ready p)).length :=
  (threaded.holds (.ready p)).length

/-- The first task of the highest level that holds one is taken off it. -/
theorem Intact.takeFirst {k : Kernel} (intact : k.Intact) {p i : Nat} {rest : List Nat}
    {task : Task} (top : k.ready.topLevel = some p) (row : k.outline.row (.ready p) = i :: rest)
    (live : k.outline.tenant i = some task) :
    ∃ ready table, k.ready.takeFirst k.table = .ok (some task.handle, ready, table)
      ∧ Intact { k with ready := ready, table := table }
      ∧ outline { k with ready := ready, table := table }
        = k.outline.reseat .back i { task with place := .unlinked } := by
  have hplace : task.place = .ready p := intact.tagged.place_head row live
  have hindex : task.handle.index = i := by
    rw [intact.tagged.handle live]
  have hp : p < k.settings.levels := intact.tagged.level live hplace
  obtain ⟨ready, table, hrun, hdone⟩ := intact.erase_ready (intact.tagged.get?_handle live) hplace
  rw [hindex] at hdone
  refine ⟨ready, table, ?_, hdone⟩
  have hhead : (k.chain (.ready p)).head = some i := by
    rw [(intact.threaded.holds (.ready p)).head]
    show (k.outline.row (.ready p)).head? = _
    rw [row]
    rfl
  have hfirst : k.ready.first? k.table = .ok (some task.handle) := by
    simp only [ReadyQueue.first?, top, intact.threaded.level_eq hp]
    show Except.ok (((k.chain (.ready p)).head.bind k.table.tenant?).map Task.handle) = _
    rw [hhead]
    show Except.ok ((k.outline.tenant i).map Task.handle) = _
    rw [live]
    rfl
  simp only [ReadyQueue.takeFirst, hfirst, hrun, bind, Except.bind]
  rfl

end Kernel

/-- Nothing is taken when the map is empty. -/
theorem ReadyQueue.takeFirst_none {q : ReadyQueue} {t : TaskTable} (empty : q.topLevel = none) :
    q.takeFirst t = .ok (none, q, t) := by
  simp only [takeFirst, first?, empty]
  rfl

end PriorityScheduler
