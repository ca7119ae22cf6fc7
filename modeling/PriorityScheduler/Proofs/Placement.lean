import PriorityScheduler.Kernel.Placement
import PriorityScheduler.Proofs.Tables

/-! # Moves between the kernel's lists, on outlines

    A kernel is INTACT when every chain holds the list that is read off it, the
    map of occupied levels marks the levels that are not empty, and the records
    agree with the lists.

    Each step by which the kernel moves a task leaves an intact kernel intact,
    cannot fail but for the guards it states, and is one `reseat` of the outline.
    This is all that is used of chains and links from here on. -/

namespace PriorityScheduler

namespace Kernel

/-! ## Intact kernels -/

/-- The chains hold the lists that are read off them, the map marks the levels
    that are not empty, and the sizes fit the settings. -/
structure Threaded (k : Kernel) : Prop where
  holds : ∀ q, (k.chain q).Holds k.table.links (k.slotsAt q)
  marked : ∀ p, k.ready.occupied.getLsbD p = true ↔ k.slotsAt (.ready p) ≠ []
  levels : k.ready.levels.size = k.settings.levels
  linkSize : k.table.links.size = k.table.slots.size
  tableLevels : k.table.levels = k.settings.levels
  capacity : k.table.capacity = k.settings.capacity
  valid : k.settings.Valid

/-- The lists are threaded, and the records agree with them. -/
structure Intact (k : Kernel) : Prop where
  threaded : k.Threaded
  tagged : k.outline.Tagged

/-- A handle is looked up in the outline. -/
theorem get?_outline (k : Kernel) (h : Handle) : k.table.get? h = k.outline.get? h :=
  TaskTable.get?_eq k.table h

/-- The task that runs is read off the outline. -/
theorem runner_outline (k : Kernel) : k.runner = k.outline.runner := by
  simp only [runner, Outline.runner, get?_outline]
  rfl

/-- The priority of the task that runs is read off the outline. -/
theorem runnerPriority_outline (k : Kernel) : k.runnerPriority = k.outline.runnerPriority := by
  simp only [runnerPriority, Outline.runnerPriority]
  rw [runner_outline, show k.table.get? = k.outline.get? from funext (get?_outline k)]

theorem beatsRunner_outline (k : Kernel) (p : Nat) : k.beatsRunner p = k.outline.beats p := by
  simp only [beatsRunner, Outline.beats]
  rewrite [runnerPriority_outline]
  cases k.outline.runnerPriority <;> rfl

theorem rivalsRunner_outline (k : Kernel) (p : Nat) : k.rivalsRunner p = k.outline.rivals p := by
  simp only [rivalsRunner, Outline.rivals]
  rewrite [runnerPriority_outline]
  cases k.outline.runnerPriority <;> rfl

/-! ## Changing one list -/

/-- Replace the chain of a place, along with the table and the map of occupied
    levels. -/
def rethread (k : Kernel) (q : Place) (c : Chain) (table : TaskTable) (occupied : BitVec 64) :
    Kernel :=
  match q with
  | .unlinked => { k with table := table }
  | .ready p => { k with table := table, ready := ⟨k.ready.levels.setIfInBounds p c, occupied⟩ }
  | .delayed cycle => { k with table := table, delayed := k.delayed.setList cycle c }
  | .waiting => { k with table := table, waiting := c }
  | .suspended => { k with table := table, suspended := c }
  | .postponed => { k with table := table, freeze := { k.freeze with postponed := c } }

/-- The map of occupied levels counts only when a ready level is replaced. -/
def occupiedAfter (k : Kernel) (q : Place) (occupied : BitVec 64) : BitVec 64 :=
  match q with
  | .ready _ => occupied
  | _ => k.ready.occupied

section Rethread

variable (k : Kernel) (q : Place) (c : Chain) (table : TaskTable) (occupied : BitVec 64)

@[simp] theorem table_rethread : (k.rethread q c table occupied).table = table := by
  cases q <;> rfl

@[simp] theorem settings_rethread : (k.rethread q c table occupied).settings = k.settings := by
  cases q <;> rfl

@[simp] theorem size_levels_rethread :
    (k.rethread q c table occupied).ready.levels.size = k.ready.levels.size := by
  cases q with
  | ready p => exact Array.size_setIfInBounds ..
  | _ => rfl

@[simp] theorem occupied_rethread :
    (k.rethread q c table occupied).ready.occupied = k.occupiedAfter q occupied := by
  cases q <;> rfl

/-- A level that is replaced reads back, if it exists, and the others stay. -/
theorem levelAt_set (r : ReadyQueue) (p : Nat) (p' : Nat) (hp : p < r.levels.size) :
    (⟨r.levels.setIfInBounds p c, occupied⟩ : ReadyQueue).levelAt p'
      = if p' = p then c else r.levelAt p' := by
  simp only [ReadyQueue.levelAt]
  show ((r.levels.setIfInBounds p c)[p']?).getD {} = _
  by_cases h : p' = p
  · subst h
    rw [if_pos rfl, Array.getElem?_setIfInBounds_self_of_lt hp]
    rfl
  · rw [if_neg h, Array.getElem?_setIfInBounds_ne (Ne.symm h)]

/-- Only the chain of the place is replaced. -/
theorem chain_rethread (hq : q ≠ .unlinked) (level : ∀ p, q = .ready p → p < k.ready.levels.size)
    (q' : Place) :
    (k.rethread q c table occupied).chain q' = if q' = q then c else k.chain q' := by
  cases q with
  | unlinked => exact absurd rfl hq
  | ready p =>
      cases q' with
      | ready p' =>
          show (⟨k.ready.levels.setIfInBounds p c, occupied⟩ : ReadyQueue).levelAt p' = _
          rw [levelAt_set c occupied k.ready p p' (level p rfl)]
          by_cases h : p' = p
          · rw [if_pos h, if_pos (congrArg Place.ready h)]
          · rw [if_neg h, if_neg (fun heq => h (Place.ready.inj heq))]
            rfl
      | _ => rw [if_neg (by simp)]; rfl
  | delayed e =>
      cases q' with
      | delayed e' => cases e <;> cases e' <;> rfl
      | _ => rw [if_neg (by simp)]; rfl
  | waiting => cases q' <;> rfl
  | suspended => cases q' <;> rfl
  | postponed => cases q' <;> rfl

/-- Apart from the table and the lists nothing that is seen changes. -/
theorem outline_rethread :
    (k.rethread q c table occupied).outline
      = { k.outline with
          size := table.slots.size
          generation := table.generationAt
          tenant := table.tenant?
          vacant := table.vacant
          liveCount := table.liveCount
          row := (k.rethread q c table occupied).slotsAt } := by
  cases q with
  | delayed e => cases e <;> rfl
  | _ => rfl

end Rethread

/-- A kernel is threaded after one of its chains is replaced, if the new chain
    holds a list and no node of another list is rewired. -/
theorem Threaded.rethread {k : Kernel} (threaded : k.Threaded) {q : Place} {c : Chain}
    {table : TaskTable} (occupied : BitVec 64) {l nodes : List Nat} (hq : q ≠ .unlinked)
    (level : ∀ p, q = .ready p → p < k.settings.levels) (holds : c.Holds table.links l)
    (rewired : LinkTable.Rewired k.table.links table.links nodes)
    (off : ∀ q', q' ≠ q → ∀ i ∈ k.slotsAt q', i ∉ nodes)
    (marked : ∀ p, q = .ready p →
      ∀ p', occupied.getLsbD p' = if p' = p then decide (l ≠ []) else k.ready.occupied.getLsbD p')
    (same : TaskTable.SameSlots k.table table) :
    (k.rethread q c table occupied).Threaded
      ∧ (k.rethread q c table occupied).slotsAt = fun q' => if q' = q then l else k.slotsAt q' := by
  have hlevel : ∀ p, q = .ready p → p < k.ready.levels.size := by
    intro p hp
    rw [threaded.levels]
    exact level p hp
  -- only the chain of the place changes; every other avoids the rewired nodes
  have hholds : ∀ q', ((k.rethread q c table occupied).chain q').Holds table.links
      (if q' = q then l else k.slotsAt q') := by
    intro q'
    rw [chain_rethread k q c table occupied hq hlevel]
    by_cases h : q' = q
    · rw [if_pos h, if_pos h]
      exact holds
    · rw [if_neg h, if_neg h]
      exact (threaded.holds q').rewired rewired (off q' h)
  have hslots : (k.rethread q c table occupied).slotsAt
      = fun q' => if q' = q then l else k.slotsAt q' := by
    funext q'
    simp only [slotsAt]
    rw [table_rethread]
    exact (hholds q').toList_eq
  refine ⟨⟨?holds, ?marked, ?levels, ?linkSize, ?tableLevels, ?capacity, ?valid⟩, hslots⟩
  case holds =>
    intro q'
    rw [hslots, table_rethread]
    exact hholds q'
  case marked =>
    intro p
    rw [hslots, occupied_rethread]
    -- the mark of a level follows its list, and no other place has marks
    cases q with
    | ready p' =>
        show occupied.getLsbD p = true ↔ _
        rw [marked p' rfl p]
        by_cases h : p = p'
        · subst h
          simp
        · have hne : Place.ready p ≠ Place.ready p' := fun heq => h (Place.ready.inj heq)
          simp only [if_neg h, if_neg hne]
          exact threaded.marked p
    | _ =>
        simp only [reduceCtorEq, if_false]
        exact threaded.marked p
  case levels =>
    rw [size_levels_rethread, settings_rethread]
    exact threaded.levels
  case linkSize =>
    rw [table_rethread, rewired.size, same.size]
    exact threaded.linkSize
  case tableLevels =>
    rw [table_rethread, settings_rethread, same.levels]
    exact threaded.tableLevels
  case capacity =>
    rw [table_rethread, settings_rethread, same.capacity]
    exact threaded.capacity
  case valid =>
    rw [settings_rethread]
    exact threaded.valid

/-- A kernel stays intact when a slot is given a new record and one chain is
    replaced, if the slot leaves or enters the list of that chain and is on no
    other; the outline is then moved that far. -/
theorem Intact.moved {k : Kernel} (intact : k.Intact) {side : Side} {i : Nat} {task task' : Task}
    {q : Place} {c : Chain} {links : LinkTable} {occupied : BitVec 64}
    (live : k.outline.tenant i = some task) (handle : task'.handle = task.handle)
    (priority : task'.priority < k.settings.levels)
    (level : ∀ p, task'.place = .ready p → p < k.settings.levels)
    (hq : q ≠ .unlinked) (qlevel : ∀ p, q = .ready p → p < k.settings.levels)
    (here : task'.place = q ∨ task'.place = .unlinked) (elsewhere : ∀ q', q' ≠ q → i ∉ k.slotsAt q')
    (holds : c.Holds links ((k.outline.reseat side i task').row q))
    (rewired : LinkTable.Rewired k.table.links links (i :: k.slotsAt q))
    (marked : ∀ p, q = .ready p → ∀ p', occupied.getLsbD p'
      = if p' = p then decide ((k.outline.reseat side i task').row q ≠ [])
        else k.ready.occupied.getLsbD p') :
    (k.rethread q c { k.table.put i task' with links := links } occupied).Intact
      ∧ (k.rethread q c { k.table.put i task' with links := links } occupied).outline
        = k.outline.reseat side i task' := by
  -- a slot is on one list only, so the others avoid all nodes of this one
  have hoff : ∀ q', q' ≠ q → ∀ j ∈ k.slotsAt q', j ∉ i :: k.slotsAt q := by
    intro q' hq' j hj hmem
    rcases List.mem_cons.mp hmem with rfl | hmem
    · exact elsewhere q' hq' hj
    · exact intact.tagged.not_mem_of_mem hq' hj hmem
  obtain ⟨hthreaded, hslots⟩ := intact.threaded.rethread occupied hq qlevel holds rewired hoff marked
    (TaskTable.sameSlots_put k.table i task' links)
  have houtline : (k.rethread q c { k.table.put i task' with links := links } occupied).outline
      = k.outline.reseat side i task' := by
    rw [outline_rethread]
    ext1 <;> try rfl
    · exact TaskTable.size_put ..
    · exact TaskTable.generationAt_put ..
    · exact TaskTable.tenant?_put task' (TaskTable.lt_of_tenant? live)
    · funext q'
      show slotsAt _ q' = _
      rw [hslots]
      show (if q' = q then _ else k.outline.row q') = _
      by_cases h : q' = q
      · rw [if_pos h, h]
      · have hself : (k.outline.row q').filter (· ≠ i) = k.outline.row q' :=
          filter_of_not_mem (elsewhere q' h)
        rw [if_neg h, Outline.reseat_row]
        -- off this list the slot is entered nowhere: its record names this place or none
        by_cases hplace : q' = task'.place
        · have hun : task'.place = .unlinked := here.resolve_left (fun heq => h (hplace.trans heq))
          rw [if_pos hplace, hplace, hun]
          rw [hplace, hun] at hself
          exact hself.symm
        · rw [if_neg hplace]
          exact hself.symm
  refine ⟨⟨hthreaded, ?_⟩, houtline⟩
  rw [houtline]
  exact intact.tagged.reseat side live handle priority level

/-! ## Leaving a list -/

/-- A handle that names a task names it in its slot. -/
theorem Intact.tenant {k : Kernel} (intact : k.Intact) {h : Handle} {task : Task}
    (live : k.outline.get? h = some task) : k.outline.tenant h.index = some task :=
  (intact.tagged.get?_eq_some.mp live).1

/-- A task that is on a list can be taken off the chain of that list. -/
theorem Intact.detach {k : Kernel} (intact : k.Intact) {h : Handle} {task : Task}
    (live : k.outline.get? h = some task) (linked : task.place ≠ .unlinked) :
    ∃ c links, (k.chain task.place).erase k.table.links h.index = .ok (c, links)
      ∧ c.Holds links ((k.slotsAt task.place).filter (· ≠ h.index))
      ∧ ∀ occupied : BitVec 64,
        (∀ p, task.place = .ready p → ∀ p', occupied.getLsbD p'
          = if p' = p then decide ((k.slotsAt task.place).filter (· ≠ h.index) ≠ [])
            else k.ready.occupied.getLsbD p') →
        let k' := k.rethread task.place c { k.table.put h.index { task with place := .unlinked } with
          links := links } occupied
        k'.Intact ∧ k'.outline = k.outline.reseat .back h.index { task with place := .unlinked } := by
  have htenant := intact.tenant live
  have hmem : h.index ∈ k.slotsAt task.place :=
    (intact.tagged.mem_row task.place h.index).mpr ⟨linked, task, htenant, rfl⟩
  obtain ⟨c, links, herase, hholds, hrewired, -⟩ := (intact.threaded.holds task.place).erase hmem
  have hrow : (k.outline.reseat .back h.index { task with place := .unlinked }).row task.place
      = (k.slotsAt task.place).filter (· ≠ h.index) :=
    Outline.reseat_row_of_ne linked
  refine ⟨c, links, herase, hholds, ?_⟩
  intro occupied hmarked
  have hpriority : task.priority < k.settings.levels := intact.tagged.priority htenant
  -- the record and the chain change together, so the kernel is intact only after both
  refine intact.moved htenant rfl hpriority (by rintro p ⟨⟩) linked
    (fun p hp => intact.tagged.level htenant hp) (Or.inr rfl)
    (fun q' hq' => intact.tagged.not_mem_row htenant hq') ?_
    (hrewired.mono (fun j hj => List.mem_cons_of_mem _ hj)) ?_
  · rw [hrow]
    exact hholds
  · rw [hrow]
    exact hmarked

/-- The map of occupied levels after a task has left a level. -/
theorem getLsbD_unmark (w : BitVec 64) {p : Nat} (hp : p < 64) (p' : Nat) :
    (w &&& ~~~(BitVec.twoPow 64 p)).getLsbD p' = if p' = p then false else w.getLsbD p' := by
  rw [BitVec.getLsbD_and, BitVec.getLsbD_not, BitVec.getLsbD_twoPow]
  by_cases h : p' = p
  · subst h
    simp [hp]
  · have h' : ¬ p = p' := fun heq => h heq.symm
    by_cases hlt : p' < 64
    · simp [h, h', hlt]
    · simp [h, h', hlt, BitVec.getLsbD_of_ge w p' (Nat.le_of_not_lt hlt)]

/-- The map of occupied levels after a task has entered a level. -/
theorem getLsbD_mark (w : BitVec 64) {p : Nat} (hp : p < 64) (p' : Nat) :
    (w ||| BitVec.twoPow 64 p).getLsbD p' = if p' = p then true else w.getLsbD p' := by
  rw [BitVec.getLsbD_or, BitVec.getLsbD_twoPow]
  by_cases h : p' = p
  · subst h
    simp [hp]
  · have h' : ¬ p = p' := fun heq => h heq.symm
    simp [h, h']

/-- There are no more levels than bits in the map. -/
theorem Threaded.level_lt {k : Kernel} (threaded : k.Threaded) {p : Nat}
    (h : p < k.settings.levels) : p < 64 :=
  Nat.lt_of_lt_of_le h threaded.valid.1.2

/-- The chain of a level that exists. -/
theorem Threaded.level_eq {k : Kernel} (threaded : k.Threaded) {p : Nat}
    (h : p < k.settings.levels) : k.ready.levels[p]? = some (k.chain (.ready p)) := by
  have hlt : p < k.ready.levels.size := by
    rw [threaded.levels]
    exact h
  show _ = some ((k.ready.levels[p]?).getD {})
  rw [Array.getElem?_eq_getElem hlt]
  rfl

/-- A ready task can be taken off its level. -/
theorem Intact.erase_ready {k : Kernel} (intact : k.Intact) {h : Handle} {task : Task} {p : Nat}
    (live : k.outline.get? h = some task) (place : task.place = .ready p) :
    ∃ ready table, k.ready.erase k.table h = .ok (ready, table)
      ∧ Intact { k with ready := ready, table := table }
      ∧ outline { k with ready := ready, table := table }
        = k.outline.reseat .back h.index { task with place := .unlinked } := by
  obtain ⟨c, links, herase, hholds, hmoved⟩ :=
    intact.detach live (fun hun => by cases hun.symm.trans place)
  rw [place] at herase hholds hmoved
  have htenant := intact.tenant live
  have hp : p < k.settings.levels := intact.tagged.level htenant place
  have hp64 : p < 64 := intact.threaded.level_lt hp
  -- the mark is taken back exactly when the level has lost its last task
  have hempty : c.isEmpty = decide ((k.slotsAt (.ready p)).filter (· ≠ h.index) = []) := by
    simp only [Chain.isEmpty]
    rw [hholds.length]
    cases (k.slotsAt (.ready p)).filter (· ≠ h.index) <;> simp
  let table : TaskTable := { k.table.put h.index { task with place := .unlinked } with links := links }
  let occupied : BitVec 64 :=
    if c.isEmpty then k.ready.occupied &&& ~~~(BitVec.twoPow 64 p) else k.ready.occupied
  have hrun : k.ready.erase k.table h
      = .ok (⟨k.ready.levels.setIfInBounds p c, occupied⟩, table) := by
    simp only [ReadyQueue.erase, TaskTable.find_ok ((get?_outline k h).trans live),
      bind, Except.bind, place, intact.threaded.level_eq hp]
    show (do let q ← (k.table.put h.index { task with place := .unlinked }).unlinkFrom
                (k.chain (.ready p)) h.index; _) = _
    simp only [TaskTable.unlinkFrom]
    show (do let q ← (do let r ← (k.chain (.ready p)).erase k.table.links h.index; _); _) = _
    rw [herase]
    show (if c.isEmpty = true then (if p < 64 then _ else _) else _) = _
    rw [if_pos hp64]
    show _ = Except.ok (ReadyQueue.mk _ (if c.isEmpty = true then _ else _), _)
    cases c.isEmpty <;> rfl
  refine ⟨_, _, hrun, ?_⟩
  refine hmoved occupied ?_
  intro p' hp' x
  obtain rfl := Place.ready.inj hp'
  show BitVec.getLsbD (if c.isEmpty = true then _ else _) x = _
  rw [hempty]
  by_cases hnil : (k.slotsAt (.ready p)).filter (· ≠ h.index) = []
  · simp only [hnil, decide_true, if_true, ne_eq, not_true_eq_false, decide_false]
    exact getLsbD_unmark _ hp64 x
  · simp only [hnil, decide_false, Bool.false_eq_true, if_false, ne_eq, not_false_eq_true,
      decide_true]
    by_cases hx : x = p
    · rw [if_pos hx, hx]
      refine (intact.threaded.marked p).mpr ?_
      intro hrow
      rw [hrow] at hnil
      exact hnil rfl
    · rw [if_neg hx]

/-- A delayed task can be taken off the list of its cycle. -/
theorem Intact.erase_delayed {k : Kernel} (intact : k.Intact) {h : Handle} {task : Task}
    {cycle : Cycle} (live : k.outline.get? h = some task) (place : task.place = .delayed cycle) :
    ∃ delayed table, k.delayed.erase k.table h = .ok (delayed, table)
      ∧ Intact { k with delayed := delayed, table := table }
      ∧ outline { k with delayed := delayed, table := table }
        = k.outline.reseat .back h.index { task with place := .unlinked } := by
  obtain ⟨c, links, herase, -, hmoved⟩ :=
    intact.detach live (fun hun => by cases hun.symm.trans place)
  rw [place] at herase hmoved
  refine ⟨k.delayed.setList cycle c,
    { k.table.put h.index { task with place := .unlinked } with links := links }, ?_,
    hmoved k.ready.occupied (by rintro p ⟨⟩)⟩
  simp only [DelayQueue.erase, TaskTable.find_ok ((get?_outline k h).trans live), bind,
    Except.bind, place]
  show (do let q ← (k.table.put h.index { task with place := .unlinked }).unlinkFrom
              (k.chain (.delayed cycle)) h.index; _) = _
  simp only [TaskTable.unlinkFrom]
  show (do let q ← (do let r ← (k.chain (.delayed cycle)).erase k.table.links h.index; _); _) = _
  rw [herase]
  rfl

/-- A postponed task can be dropped. -/
theorem Intact.erase_postponed {k : Kernel} (intact : k.Intact) {h : Handle} {task : Task}
    (live : k.outline.get? h = some task) (place : task.place = .postponed) :
    ∃ freeze table, k.freeze.erase k.table h = .ok (freeze, table)
      ∧ Intact { k with freeze := freeze, table := table }
      ∧ outline { k with freeze := freeze, table := table }
        = k.outline.reseat .back h.index { task with place := .unlinked } := by
  obtain ⟨c, links, herase, -, hmoved⟩ :=
    intact.detach live (fun hun => by cases hun.symm.trans place)
  rw [place] at herase hmoved
  refine ⟨{ k.freeze with postponed := c },
    { k.table.put h.index { task with place := .unlinked } with links := links }, ?_,
    hmoved k.ready.occupied (by rintro p ⟨⟩)⟩
  simp only [Freeze.erase]
  rw [TaskTable.find_ok ((get?_outline k h).trans live)]
  show (if task.place = .postponed then _ else _) = _
  rw [if_pos place]
  show (do let q ← (k.table.put h.index { task with place := .unlinked }).unlinkFrom
              (k.chain .postponed) h.index; _) = _
  simp only [TaskTable.unlinkFrom]
  show (do let q ← (do let r ← (k.chain .postponed).erase k.table.links h.index; _); _) = _
  rw [herase]
  rfl

/-- A task is withdrawn from whatever list it is on. -/
theorem Intact.withdraw {k : Kernel} (intact : k.Intact) {h : Handle} {task : Task}
    (live : k.outline.get? h = some task) :
    ∃ k', k.withdraw h = .ok k' ∧ k'.Intact
      ∧ k'.outline = k.outline.reseat .back h.index { task with place := .unlinked } := by
  have hopen : ∀ f : Task → Except Failure Kernel, (k.table.find h >>= f) = f task := by
    intro f
    rw [TaskTable.find_ok ((get?_outline k h).trans live)]
    rfl
  unfold Kernel.withdraw
  rw [hopen]
  -- each place has its own chain to be taken off
  cases hplace : task.place with
  | unlinked =>
      refine ⟨k, rfl, intact, ?_⟩
      exact (intact.tagged.reseat_unlinked (intact.tenant live) hplace).symm
  | ready p =>
      obtain ⟨ready, table, hrun, hdone⟩ := intact.erase_ready live hplace
      refine ⟨_, ?_, hdone⟩
      show (do let q ← k.ready.erase k.table h; _) = _
      rw [hrun]
      rfl
  | delayed cycle =>
      obtain ⟨delayed, table, hrun, hdone⟩ := intact.erase_delayed live hplace
      refine ⟨_, ?_, hdone⟩
      show (do let q ← k.delayed.erase k.table h; _) = _
      rw [hrun]
      rfl
  | postponed =>
      obtain ⟨freeze, table, hrun, hdone⟩ := intact.erase_postponed live hplace
      refine ⟨_, ?_, hdone⟩
      show (do let q ← k.freeze.erase k.table h; _) = _
      rw [hrun]
      rfl
  | waiting =>
      obtain ⟨c, links, herase, -, hmoved⟩ :=
        intact.detach live (fun hun => by cases hun.symm.trans hplace)
      rw [hplace] at herase hmoved
      refine ⟨_, ?_, hmoved k.ready.occupied (by rintro p ⟨⟩)⟩
      show (do let q ← k.table.unlinkFrom k.waiting h.index; _) = _
      unfold TaskTable.unlinkFrom
      show (do let q ← (do let r ← (k.chain .waiting).erase k.table.links h.index; _); _) = _
      rw [herase]
      rfl
  | suspended =>
      obtain ⟨c, links, herase, -, hmoved⟩ :=
        intact.detach live (fun hun => by cases hun.symm.trans hplace)
      rw [hplace] at herase hmoved
      refine ⟨_, ?_, hmoved k.ready.occupied (by rintro p ⟨⟩)⟩
      show (do let q ← k.table.unlinkFrom k.suspended h.index; _) = _
      unfold TaskTable.unlinkFrom
      show (do let q ← (do let r ← (k.chain .suspended).erase k.table.links h.index; _); _) = _
      rw [herase]
      rfl

/-! ## Entering a list -/

/-- A task that is on no list can be entered on the chain of another. -/
theorem Intact.attach {k : Kernel} (intact : k.Intact) {side : Side} {i : Nat} {task : Task}
    (task' : Task) {c : Chain} {links : LinkTable} (occupied : BitVec 64)
    (live : k.outline.tenant i = some task) (unlinked : task.place = .unlinked)
    (handle : task'.handle = task.handle) (priority : task'.priority < k.settings.levels)
    (linked : task'.place ≠ .unlinked)
    (level : ∀ p, task'.place = .ready p → p < k.settings.levels)
    (added : c.Holds links
        (Outline.enterRow (Outline.tickOf (Function.update k.outline.tenant i (some task')))
          side task'.place i (k.slotsAt task'.place))
      ∧ LinkTable.Rewired k.table.links links (i :: k.slotsAt task'.place))
    (marked : ∀ p, task'.place = .ready p → ∀ p', occupied.getLsbD p'
      = if p' = p then true else k.ready.occupied.getLsbD p') :
    (k.rethread task'.place c { k.table.put i task' with links := links } occupied).Intact
      ∧ (k.rethread task'.place c { k.table.put i task' with links := links } occupied).outline
        = k.outline.reseat side i task' := by
  have hrow := intact.tagged.reseat_row_self side task' live unlinked
  refine intact.moved live handle priority level linked level (Or.inl rfl) ?_ ?_ added.2 ?_
  · intro q' _
    exact intact.tagged.not_mem_unlinked live unlinked q'
  · rw [hrow]
    exact added.1
  · intro p hp p'
    rw [marked p hp, hrow]
    by_cases h : p' = p
    · -- the level is not empty, since the task has just entered it
      have hne : Outline.enterRow (Outline.tickOf (Function.update k.outline.tenant i (some task')))
          side task'.place i (k.outline.row task'.place) ≠ [] := by
        refine List.ne_nil_of_mem (a := i) ?_
        exact Outline.mem_enterRow.mpr (Or.inl ⟨rfl, linked⟩)
      rw [if_pos h, if_pos h, decide_eq_true hne]
    · rw [if_neg h, if_neg h]

/-- A node that is put at one end of a chain stands at that end of the row. -/
theorem holds_addAt {c : Chain} {t : LinkTable} {l : List Nat} {i : Nat} (h : c.Holds t l)
    (key : Nat → Tick) (side : Side) (p : Nat) (fresh : i ∉ l) (hi : i < t.size) :
    (c.addAt side t i).1.Holds (c.addAt side t i).2 (Outline.enterRow key side (.ready p) i l)
      ∧ LinkTable.Rewired t (c.addAt side t i).2 (i :: l) := by
  cases side with
  | front => exact h.addFirst fresh hi
  | back => exact h.addLast fresh hi

/-- A task that is on no list is entered at one end of the level of its priority. -/
theorem Intact.enqueue {k : Kernel} (intact : k.Intact) (side : Side) {h : Handle} {task : Task}
    (live : k.outline.get? h = some task) (unlinked : task.place = .unlinked) :
    ∃ k', k.enqueue side h = .ok k' ∧ k'.Intact
      ∧ k'.outline = k.outline.reseat side h.index
          { task with activity := .ready, place := .ready task.priority } := by
  have htenant := intact.tenant live
  have hp : task.priority < k.settings.levels := intact.tagged.priority htenant
  have hp64 : task.priority < 64 := intact.threaded.level_lt hp
  have hlt : h.index < k.table.links.size := by
    rw [intact.threaded.linkSize]
    exact intact.tagged.bound htenant
  let task' : Task := { task with activity := .ready, place := .ready task.priority }
  have hadded := holds_addAt (intact.threaded.holds task'.place)
    (Outline.tickOf (Function.update k.outline.tenant h.index (some task'))) side task.priority
    (intact.tagged.not_mem_unlinked htenant unlinked _) hlt
  obtain ⟨hintact, houtline⟩ := intact.attach task'
    (k.ready.occupied ||| BitVec.twoPow 64 task.priority) htenant unlinked rfl hp
    (by rintro ⟨⟩) (fun p hplace => Place.ready.inj hplace ▸ hp) hadded
    (fun p hplace => Place.ready.inj hplace ▸ getLsbD_mark _ hp64)
  refine ⟨_, ?_, hintact, houtline⟩
  -- the level is in range of the array and of the map, so neither write fails
  have hrun : k.ready.insert side k.table h
      = .ok (⟨k.ready.levels.setIfInBounds task.priority
            ((k.chain task'.place).addAt side k.table.links h.index).1,
          k.ready.occupied ||| BitVec.twoPow 64 task.priority⟩,
        { k.table.put h.index task' with
          links := ((k.chain task'.place).addAt side k.table.links h.index).2 }) := by
    simp only [ReadyQueue.insert,
      TaskTable.findUnlinked_ok ((get?_outline k h).trans live) unlinked, bind, Except.bind,
      intact.threaded.level_eq hp]
    show (if task.priority < 64 then _ else _) = _
    rw [if_pos hp64]
    rfl
  simp only [Kernel.enqueue]
  rw [hrun]
  rfl

/-- A task that is on no list becomes ready, or is postponed while scheduling is
    suspended. -/
theorem Intact.release {k : Kernel} (intact : k.Intact) {h : Handle} {task : Task}
    (live : k.outline.get? h = some task) (unlinked : task.place = .unlinked) :
    ∃ k', k.release h = .ok k' ∧ k'.Intact ∧ k'.outline = k.outline.makeReady h.index task := by
  simp only [Kernel.release, Outline.makeReady, Outline.readied, Outline.readyPlace]
  by_cases hdepth : k.freeze.depth = 0
  · have hoff : k.freeze.isOff = true := beq_iff_eq.mpr hdepth
    have hdepth' : k.outline.depth = 0 := hdepth
    rw [if_pos hoff, if_pos hdepth']
    exact intact.enqueue .back live unlinked
  · have hoff : ¬ k.freeze.isOff = true := fun h => hdepth (beq_iff_eq.mp h)
    have hdepth' : ¬ k.outline.depth = 0 := hdepth
    rw [if_neg hoff, if_neg hdepth']
    have htenant := intact.tenant live
    have hp : task.priority < k.settings.levels := intact.tagged.priority htenant
    have hlt : h.index < k.table.links.size := by
      rw [intact.threaded.linkSize]
      exact intact.tagged.bound htenant
    have hadded := (intact.threaded.holds .postponed).addLast
      (intact.tagged.not_mem_unlinked htenant unlinked _) hlt
    refine ⟨_, ?_, intact.attach _ k.ready.occupied htenant unlinked rfl hp
      (by rintro ⟨⟩) (by rintro p ⟨⟩) hadded
      (by rintro p ⟨⟩)⟩
    simp only [Freeze.postpone]
    rw [TaskTable.findUnlinked_ok ((get?_outline k h).trans live) unlinked]
    rfl

/-- A task that is on no list is suspended. -/
theorem Intact.setAside {k : Kernel} (intact : k.Intact) {h : Handle} {task : Task}
    (live : k.outline.get? h = some task) (unlinked : task.place = .unlinked) :
    ∃ k', k.setAside h = .ok k' ∧ k'.Intact
      ∧ k'.outline = k.outline.reseat .back h.index
          { task with activity := .suspended, place := .suspended } := by
  have htenant := intact.tenant live
  have hp : task.priority < k.settings.levels := intact.tagged.priority htenant
  have hlt : h.index < k.table.links.size := by
    rw [intact.threaded.linkSize]
    exact intact.tagged.bound htenant
  have hadded := (intact.threaded.holds .suspended).addLast
    (intact.tagged.not_mem_unlinked htenant unlinked _) hlt
  refine ⟨_, ?_, intact.attach _ k.ready.occupied htenant unlinked rfl hp
    (by rintro ⟨⟩) (by rintro p ⟨⟩) hadded
    (by rintro p ⟨⟩)⟩
  simp only [Kernel.setAside]
  rw [TaskTable.findUnlinked_ok ((get?_outline k h).trans live) unlinked]
  rfl

/-- A task that is on no list is blocked without a timeout. -/
theorem Intact.holdForever {k : Kernel} (intact : k.Intact) {h : Handle} {task : Task}
    (live : k.outline.get? h = some task) (unlinked : task.place = .unlinked) :
    ∃ k', k.holdForever h = .ok k' ∧ k'.Intact
      ∧ k'.outline = k.outline.reseat .back h.index
          { task with activity := .blocked, place := .waiting } := by
  have htenant := intact.tenant live
  have hp : task.priority < k.settings.levels := intact.tagged.priority htenant
  have hlt : h.index < k.table.links.size := by
    rw [intact.threaded.linkSize]
    exact intact.tagged.bound htenant
  have hadded := (intact.threaded.holds .waiting).addLast
    (intact.tagged.not_mem_unlinked htenant unlinked _) hlt
  refine ⟨_, ?_, intact.attach _ k.ready.occupied htenant unlinked rfl hp
    (by rintro ⟨⟩) (by rintro p ⟨⟩) hadded
    (by rintro p ⟨⟩)⟩
  simp only [Kernel.holdForever, TaskTable.update]
  rw [(get?_outline k h).trans live]
  rfl

/-- A task that is on no list is blocked until its tick, in the cycle in which that
    tick comes. -/
theorem Intact.holdFor {k : Kernel} (intact : k.Intact) {h : Handle} {task : Task} (ticks : Tick)
    (live : k.outline.get? h = some task) (unlinked : task.place = .unlinked) :
    ∃ k', k.holdFor h ticks = .ok k' ∧ k'.Intact
      ∧ k'.outline = k.outline.reseat .back h.index
          { task with
            activity := .blocked
            place := .delayed (k.outline.cycleOf (k.now + ticks))
            wakeTick := k.now + ticks } := by
  have htenant := intact.tenant live
  have hp : task.priority < k.settings.levels := intact.tagged.priority htenant
  have hlt : h.index < k.table.links.size := by
    rw [intact.threaded.linkSize]
    exact intact.tagged.bound htenant
  let task' : Task :=
    { task with
      activity := .blocked
      place := .delayed (k.outline.cycleOf (k.now + ticks))
      wakeTick := k.now + ticks }
  -- the order on the list is read from the records, so the new one is written first
  have hkey : Outline.tickOf (Function.update k.outline.tenant h.index (some task'))
      = DelayQueue.orderTick (k.table.put h.index task') := by
    funext j
    unfold DelayQueue.orderTick Outline.tickOf
    rw [TaskTable.tenant?_put task' (TaskTable.lt_of_tenant? htenant)]
    rfl
  have hadded := (intact.threaded.holds task'.place).addByKey
    (DelayQueue.orderTick (k.table.put h.index task'))
    (intact.tagged.not_mem_unlinked htenant unlinked _) hlt
  rw [← hkey] at hadded
  refine ⟨_, ?_, intact.attach _ k.ready.occupied htenant unlinked rfl hp
    (by rintro ⟨⟩) (by rintro p ⟨⟩) hadded
    (by rintro p ⟨⟩)⟩
  rw [hkey]
  unfold Kernel.holdFor DelayQueue.insert
  rw [TaskTable.findUnlinked_ok ((get?_outline k h).trans live) unlinked]
  rfl

end Kernel

end PriorityScheduler
