import Mathlib.Logic.Function.Basic
import PriorityScheduler.Kernel.Places
import PriorityScheduler.Proofs.Lists

/-! # Outlines: a kernel with its lists read off

    A kernel keeps its lists as chains over shared links.  Its OUTLINE keeps what
    can be seen of it: the task in each slot, the slots on the list of each
    place, and the counters and marks beside them.

    Every step of a scheduler is one of few changes of an outline:

    * `reseat` gives a slot a new record and moves it to the list that the record
      names, from whatever list it was on;
    * `occupy` and `vacate` let a task come and go;
    * the counters and marks change by themselves.

    The invariants of the scheduler are stated on outlines as well.  `Tagged`
    ties the records to the lists. -/

namespace PriorityScheduler

open Function (update)

/-- What can be seen of a kernel. -/
@[ext] structure Outline where
  settings : Settings
  /-- The number of slots. -/
  size : Nat
  /-- How often each slot has been vacated. -/
  generation : Nat → UInt32
  /-- The task in each slot. -/
  tenant : Nat → Option Task
  vacant : List Nat
  liveCount : Nat
  /-- The slots on the list of each place, first to last. -/
  row : Place → List Nat
  /-- The cycle that the tick counter is in. -/
  cycle : Cycle
  /-- How often scheduling is suspended. -/
  depth : UInt32
  current : Option Handle
  idle : Option Handle
  now : Tick
  wraps : UInt32
  sliceSpent : UInt32
  sendBehind : Bool
  switchDue : Bool
  everDispatched : Bool

/-- How often a slot has been vacated; a slot that is still to come never was. -/
def TaskTable.generationAt (t : TaskTable) (i : Nat) : UInt32 :=
  (t.slots[i]?.map Slot.generation).getD 0

/-- The outline of a kernel. -/
def Kernel.outline (k : Kernel) : Outline where
  settings := k.settings
  size := k.table.slots.size
  generation := k.table.generationAt
  tenant := k.table.tenant?
  vacant := k.table.vacant
  liveCount := k.table.liveCount
  row := k.slotsAt
  cycle := k.delayed.current
  depth := k.freeze.depth
  current := k.current
  idle := k.idle
  now := k.now
  wraps := k.wraps
  sliceSpent := k.sliceSpent
  sendBehind := k.sendBehind
  switchDue := k.switchDue
  everDispatched := k.everDispatched

/-- What a task does while it is at a place. -/
def Place.activity : Place → Activity
  | unlinked => .running
  | ready _ => .ready
  | delayed _ => .blocked
  | waiting => .blocked
  | suspended => .suspended
  | postponed => .ready

namespace Outline

/-! ## Reading -/

/-- The live task that a handle names. -/
def get? (o : Outline) (h : Handle) : Option Task :=
  if o.generation h.index = h.generation then o.tenant h.index else none

/-- The task dispatched last, if it still has the processor. -/
def runner (o : Outline) : Option Handle :=
  match o.current with
  | none => none
  | some h =>
      match o.get? h with
      | some task => if task.activity = .running then some h else none
      | none => none

/-- The priority of the task that runs. -/
def runnerPriority (o : Outline) : Option Nat :=
  (o.runner.bind o.get?).map Task.priority

/-- Whether a priority is above that of the task that runs. -/
def beats (o : Outline) (priority : Nat) : Bool :=
  match o.runnerPriority with
  | some p => decide (p < priority)
  | none => true

/-- Whether a priority is at or above that of the task that runs. -/
def rivals (o : Outline) (priority : Nat) : Bool :=
  match o.runnerPriority with
  | some p => decide (p ≤ priority)
  | none => true

/-- The tick by which a slot is ordered. -/
def tickOf (tenant : Nat → Option Task) (i : Nat) : Tick :=
  match tenant i with
  | some task => task.wakeTick
  | none => 0xFFFFFFFF

/-- The slots of the present cycle whose tick has come, the earliest first. -/
def due (o : Outline) : List Nat :=
  (o.row (.delayed o.cycle)).takeWhile fun i => decide (tickOf o.tenant i ≤ o.now)

/-- The handles of the tasks in slots. -/
def handles (o : Outline) (l : List Nat) : List Handle :=
  l.filterMap fun i => (o.tenant i).map Task.handle

/-- The highest number below a bound that is marked. -/
def highest (marked : Nat → Bool) : Nat → Option Nat
  | 0 => none
  | n + 1 => if marked n then some n else highest marked n

/-- The highest level that holds a task. -/
def topLevel (o : Outline) : Option Nat :=
  highest (fun p => !(o.row (.ready p)).isEmpty) o.settings.levels

/-- Whether a ready task is above a priority. -/
def readyAbove (o : Outline) (priority : Nat) : Bool :=
  match o.topLevel with
  | some top => decide (priority < top)
  | none => false

/-- A level holds a task, and none above it does. -/
def IsTop (o : Outline) (p : Nat) : Prop :=
  o.row (.ready p) ≠ [] ∧ ∀ p', p < p' → o.row (.ready p') = []

/-- The cycle in which a tick comes next, seen from the present tick. -/
def cycleOf (o : Outline) (wake : Tick) : Cycle :=
  if wake < o.now then o.cycle.other else o.cycle

/-- The slot that the next task moves into. -/
def vacancy (o : Outline) : Option Nat :=
  match o.vacant with
  | i :: _ => some i
  | [] => if o.size < o.settings.capacity then some o.size else none

/-- There is no slot for the next task when none is vacant and no more are allowed. -/
theorem vacancy_eq_none_iff (o : Outline) :
    o.vacancy = none ↔ o.vacant = [] ∧ ¬ o.size < o.settings.capacity := by
  simp only [vacancy]
  cases o.vacant with
  | cons i rest => exact iff_of_false (by rintro ⟨⟩) (by rintro ⟨⟨⟩, -⟩)
  | nil =>
      by_cases hroom : o.size < o.settings.capacity
      · simp [hroom]
      · simp [hroom]

/-! ## Changing -/

/-- Replace the record in a slot, which stays where it is. -/
def put (o : Outline) (i : Nat) (task : Task) : Outline :=
  { o with tenant := update o.tenant i (some task) }

/-- A row with a slot entered: by its tick on a row of delayed tasks, at one end
    on any other; no slot is entered on the row of those on no list. -/
def enterRow (key : Nat → Tick) (side : Side) (q : Place) (i : Nat) (l : List Nat) : List Nat :=
  match q with
  | .unlinked => l
  | .delayed _ => l.orderedInsert (fun x y => key x < key y) i
  | _ =>
      match side with
      | .front => i :: l
      | .back => l ++ [i]

/-- Give a slot a new record, and move it to the list that the record names. -/
def reseat (o : Outline) (side : Side) (i : Nat) (task : Task) : Outline :=
  let tenant := update o.tenant i (some task)
  { o with
    tenant := tenant
    row := fun q =>
      let rest := (o.row q).filter (· ≠ i)
      if q = task.place then enterRow (tickOf tenant) side q i rest else rest }

/-- The place of a task that becomes ready. -/
def readyPlace (o : Outline) (task : Task) : Place :=
  if o.depth = 0 then .ready task.priority else .postponed

/-- The record of a task that becomes ready. -/
def readied (o : Outline) (task : Task) : Task :=
  { task with activity := .ready, place := o.readyPlace task }

/-- Make a task ready, or postpone it while scheduling is suspended. -/
def makeReady (o : Outline) (i : Nat) (task : Task) : Outline :=
  o.reseat .back i (o.readied task)

/-- Let a task move into a slot; it is on no list yet. -/
def occupy (o : Outline) (i : Nat) (task : Task) : Outline :=
  { o with
    size := max o.size (i + 1)
    vacant := o.vacant.tail
    liveCount := o.liveCount + 1
    tenant := update o.tenant i (some task) }

/-- Let the task leave a slot, and whatever list the slot was on. -/
def vacate (o : Outline) (i : Nat) : Outline :=
  { o with
    generation := update o.generation i (o.generation i + 1)
    tenant := update o.tenant i none
    vacant := i :: o.vacant
    liveCount := o.liveCount - 1
    row := fun q => (o.row q).filter (· ≠ i) }

/-- Hand the processor to a task. -/
def dispatch (o : Outline) (i : Nat) (task : Task) : Outline :=
  { o.reseat .back i { task with activity := .running, place := .unlinked } with
    current := some task.handle
    sliceSpent := 0
    everDispatched := true }

/-- Take slots off their lists; what the tasks are doing stays. -/
def liftAll (o : Outline) (l : List Nat) : Outline :=
  { o with
    tenant := fun i =>
      if i ∈ l then (o.tenant i).map fun task => { task with place := .unlinked } else o.tenant i
    row := fun q => (o.row q).filter (· ∉ l) }

/-- Remember that a switch is wanted, if it is. -/
def wantSwitchIf (o : Outline) (wanted : Bool) : Outline :=
  { o with switchDue := o.switchDue || wanted }

/-! ## What the changes leave alone -/

@[simp] theorem put_tenant (o : Outline) (i : Nat) (task : Task) :
    (o.put i task).tenant = update o.tenant i (some task) := rfl

@[simp] theorem reseat_tenant (o : Outline) (side : Side) (i : Nat) (task : Task) :
    (o.reseat side i task).tenant = update o.tenant i (some task) := rfl

theorem reseat_row (o : Outline) (side : Side) (i : Nat) (task : Task) (q : Place) :
    (o.reseat side i task).row q
      = if q = task.place then
          enterRow (tickOf (update o.tenant i (some task))) side q i ((o.row q).filter (· ≠ i))
        else (o.row q).filter (· ≠ i) := rfl

/-- The other rows only lose the slot. -/
theorem reseat_row_of_ne {o : Outline} {side : Side} {i : Nat} {task : Task} {q : Place}
    (h : q ≠ task.place) : (o.reseat side i task).row q = (o.row q).filter (· ≠ i) := by
  rw [reseat_row, if_neg h]

/-- A slot is on the row that it enters, along with those that were there. -/
theorem mem_enterRow {key : Nat → Tick} {side : Side} {q : Place} {i j : Nat} {l : List Nat} :
    j ∈ enterRow key side q i l ↔ (j = i ∧ q ≠ .unlinked) ∨ j ∈ l := by
  cases q with
  | unlinked => simp [enterRow]
  | delayed c => simp [enterRow, List.mem_orderedInsert]
  | _ => cases side <;> simp [enterRow, or_comm]

theorem nodup_enterRow {key : Nat → Tick} {side : Side} {q : Place} {i : Nat} {l : List Nat}
    (nodup : l.Nodup) (fresh : i ∉ l) : (enterRow key side q i l).Nodup := by
  have hcons : (i :: l).Nodup := List.nodup_cons.mpr ⟨fresh, nodup⟩
  have hconcat : (l ++ [i]).Nodup := (List.perm_append_singleton i l).nodup_iff.mpr hcons
  cases q with
  | unlinked => exact nodup
  | delayed c => exact (List.perm_orderedInsert _ i l).nodup_iff.mpr hcons
  | _ =>
      cases side with
      | front => exact hcons
      | back => exact hconcat

theorem not_mem_filter_ne (l : List Nat) (i : Nat) : i ∉ l.filter (· ≠ i) := by
  simp

/-- A list is as it was without slots that it lacks. -/
theorem filter_of_disjoint {l d : List Nat} (disjoint : ∀ i ∈ l, i ∉ d) :
    l.filter (· ∉ d) = l := by
  rw [List.filter_eq_self]
  intro i hi
  exact decide_eq_true (disjoint i hi)

/-- Without its own slot a row is as it was before the slot was entered. -/
theorem filter_enterRow {key : Nat → Tick} {side : Side} {q : Place} {i : Nat} {l : List Nat} :
    (enterRow key side q i (l.filter (· ≠ i))).filter (· ≠ i) = l.filter (· ≠ i) := by
  have hself : (l.filter (· ≠ i)).filter (· ≠ i) = l.filter (· ≠ i) := by
    rw [List.filter_filter]
    simp
  cases q with
  | unlinked => exact hself
  | delayed c =>
      show (List.orderedInsert (fun x y => key x < key y) i _).filter _ = _
      rw [List.orderedInsert_eq_take_drop, List.filter_append,
        List.filter_cons_of_neg (by simp), ← List.filter_append, List.takeWhile_append_dropWhile]
      exact hself
  | _ =>
      cases side with
      | front =>
          show (i :: _).filter _ = _
          rw [List.filter_cons_of_neg (by simp)]
          exact hself
      | back =>
          show (_ ++ [i]).filter _ = _
          rw [List.filter_append, hself]
          simp

section Slots

variable {o o' : Outline} {i j : Nat} {h : Handle} {task task' : Task}

/-- A slot holds the record that it was just given, and any other slot what it
    held. -/
theorem of_update_some {tenant : Nat → Option Task}
    (live : update tenant i (some task') j = some task) :
    (j = i ∧ task = task') ∨ (j ≠ i ∧ tenant j = some task) := by
  rw [Function.update_apply] at live
  by_cases hj : j = i
  · rw [if_pos hj] at live
    exact Or.inl ⟨hj, (Option.some.inj live).symm⟩
  · rw [if_neg hj] at live
    exact Or.inr ⟨hj, live⟩

/-- A slot that holds a task is not the one that was just emptied. -/
theorem of_update_none {tenant : Nat → Option Task}
    (live : update tenant i none j = some task) : j ≠ i ∧ tenant j = some task := by
  rw [Function.update_apply] at live
  by_cases hj : j = i
  · rw [if_pos hj] at live
    cases live
  · rw [if_neg hj] at live
    exact ⟨hj, live⟩

/-- A handle names the same task while its slot is left alone. -/
theorem get?_congr (generation : o'.generation h.index = o.generation h.index)
    (tenant : o'.tenant h.index = o.tenant h.index) : o'.get? h = o.get? h := by
  simp only [get?, generation, tenant]

theorem get?_put (hi : h.index ≠ i) : (o.put i task).get? h = o.get? h :=
  get?_congr rfl (Function.update_of_ne hi _ _)

theorem get?_reseat (hi : h.index ≠ i) (side : Side) : (o.reseat side i task).get? h = o.get? h :=
  get?_congr rfl (Function.update_of_ne hi _ _)

theorem get?_makeReady (hi : h.index ≠ i) : (o.makeReady i task).get? h = o.get? h :=
  get?_reseat hi .back

theorem get?_occupy_of_ne (hi : h.index ≠ i) : (o.occupy i task).get? h = o.get? h :=
  get?_congr rfl (Function.update_of_ne hi _ _)

theorem get?_vacate (hi : h.index ≠ i) : (o.vacate i).get? h = o.get? h :=
  get?_congr (Function.update_of_ne hi _ _) (Function.update_of_ne hi _ _)

theorem get?_dispatch (hi : h.index ≠ i) : (o.dispatch i task).get? h = o.get? h :=
  get?_congr rfl (Function.update_of_ne hi _ _)

/-- A handle that names a task names the record that its slot is given. -/
theorem get?_update_self (live : o.get? h = some task)
    (generation : o'.generation = o.generation)
    (tenant : o'.tenant = update o.tenant h.index (some task')) :
    o'.get? h = some task' := by
  simp only [get?] at live ⊢
  rw [generation, tenant, Function.update_self]
  by_cases hg : o.generation h.index = h.generation
  · rw [if_pos hg]
  · rw [if_neg hg] at live
    cases live

end Slots

/-! ## One change after another -/

/-- Only the last of two moves of a slot counts, if no wake order is asked for
    in between. -/
theorem reseat_reseat (o : Outline) (side side' : Side) (i : Nat) (task task' : Task) :
    (o.reseat side i task).reseat side' i task' = o.reseat side' i task' := by
  have hrow : ∀ q, ((o.reseat side i task).row q).filter (· ≠ i) = (o.row q).filter (· ≠ i) := by
    intro q
    rw [reseat_row]
    by_cases hq : q = task.place
    · rw [if_pos hq]
      exact filter_enterRow
    · rw [if_neg hq, List.filter_filter]
      simp
  ext1 <;> try rfl
  · exact Function.update_idem ..
  · funext q
    rw [reseat_row (o.reseat side i task), reseat_row o side' i task' q, hrow, reseat_tenant,
      Function.update_idem]

/-- A record that is written after a slot was taken off its list is the record
    that the slot is taken off with. -/
theorem put_reseat_unlinked (o : Outline) (side : Side) (i : Nat) {task task' : Task}
    (h : task.place = .unlinked) (h' : task'.place = .unlinked) :
    (o.reseat side i task).put i task' = o.reseat side i task' := by
  ext1 <;> try rfl
  · exact Function.update_idem ..
  · funext q
    show (o.reseat side i task).row q = _
    rw [reseat_row, reseat_row, h, h']
    by_cases hq : q = .unlinked
    · subst hq
      rfl
    · rw [if_neg hq, if_neg hq]

/-! ## Records and lists agree -/

/-- A slot is on the list of a place exactly when the record in it says so, and
    then once; records know their slots, and the vacant slots are the empty
    ones. -/
structure Tagged (o : Outline) : Prop where
  nodup : ∀ q, (o.row q).Nodup
  mem_row : ∀ q i, i ∈ o.row q
    ↔ q ≠ .unlinked ∧ ∃ task, o.tenant i = some task ∧ task.place = q
  handle : ∀ {i task}, o.tenant i = some task → task.handle = ⟨i, o.generation i⟩
  priority : ∀ {i task}, o.tenant i = some task → task.priority < o.settings.levels
  level : ∀ {i task p}, o.tenant i = some task → task.place = .ready p → p < o.settings.levels
  bound : ∀ {i task}, o.tenant i = some task → i < o.size
  vacant_nodup : o.vacant.Nodup
  mem_vacant : ∀ i, i ∈ o.vacant ↔ i < o.size ∧ o.tenant i = none
  live : o.liveCount + o.vacant.length = o.size

namespace Tagged

variable {o : Outline} {i : Nat} {task : Task}

/-- Tags agree in every outline with the same tasks on the same lists. -/
theorem congr {o' : Outline} (tagged : o.Tagged)
    (settings : o'.settings = o.settings) (size : o'.size = o.size)
    (generation : o'.generation = o.generation) (tenant : o'.tenant = o.tenant)
    (vacant : o'.vacant = o.vacant) (liveCount : o'.liveCount = o.liveCount)
    (row : o'.row = o.row) : o'.Tagged := by
  obtain ⟨h1, h2, h3, h4, h5, h6, h7, h8, h9⟩ := tagged
  rw [← settings, ← tenant] at h4
  rw [← settings, ← tenant] at h5
  rw [← row] at h1
  rw [← row, ← tenant] at h2
  rw [← generation, ← tenant] at h3
  rw [← size, ← tenant] at h6
  rw [← vacant] at h7
  rw [← vacant, ← size, ← tenant] at h8
  rw [← vacant, ← size, ← liveCount] at h9
  exact ⟨h1, h2, h3, h4, h5, h6, h7, h8, h9⟩

/-- A handle names the task in its slot, and the task has that handle. -/
theorem get?_eq_some (tagged : o.Tagged) {h : Handle} :
    o.get? h = some task ↔ o.tenant h.index = some task ∧ task.handle = h := by
  simp only [get?]
  constructor
  · intro hget
    by_cases hg : o.generation h.index = h.generation
    · rw [if_pos hg] at hget
      refine ⟨hget, ?_⟩
      rw [tagged.handle hget, hg]
    · rw [if_neg hg] at hget
      cases hget
  · rintro ⟨htenant, rfl⟩
    have hh := tagged.handle htenant
    have hg : o.generation task.handle.index = task.handle.generation := by
      rw [hh]
    rw [if_pos hg]
    exact htenant

/-- The task in a slot is named by its handle. -/
theorem get?_handle (tagged : o.Tagged) (h : o.tenant i = some task) :
    o.get? task.handle = some task := by
  refine tagged.get?_eq_some.mpr ⟨?_, rfl⟩
  rw [tagged.handle h]
  exact h

/-- A task is on no list but that of its place. -/
theorem not_mem_row (tagged : o.Tagged) (h : o.tenant i = some task) {q : Place}
    (hq : q ≠ task.place) : i ∉ o.row q := by
  intro hi
  obtain ⟨-, task', htask', hplace⟩ := (tagged.mem_row q i).mp hi
  rw [h] at htask'
  rw [Option.some.inj htask'] at hq
  exact hq hplace.symm

/-- No slot is on the lists of two places. -/
theorem not_mem_of_mem (tagged : o.Tagged) {q q' : Place} (hne : q ≠ q') (hi : i ∈ o.row q) :
    i ∉ o.row q' := by
  obtain ⟨-, task, htask, rfl⟩ := (tagged.mem_row q i).mp hi
  exact tagged.not_mem_row htask hne.symm

/-- The first slot of a row holds a task. -/
theorem tenant_head (tagged : o.Tagged) {q : Place} {rest : List Nat} (row : o.row q = i :: rest) :
    ∃ task, o.tenant i = some task := by
  have hmem : i ∈ o.row q := by
    rw [row]
    exact List.mem_cons_self
  obtain ⟨-, task, htask, -⟩ := (tagged.mem_row q i).mp hmem
  exact ⟨task, htask⟩

/-- The task in a slot on a row is at the place of the row. -/
theorem place_of_mem (tagged : o.Tagged) {q : Place} (mem : i ∈ o.row q)
    (live : o.tenant i = some task) : task.place = q := by
  obtain ⟨-, t, ht, hplace⟩ := (tagged.mem_row q i).mp mem
  rw [live] at ht
  rw [Option.some.inj ht]
  exact hplace

/-- So is the first one. -/
theorem place_head (tagged : o.Tagged) {q : Place} {rest : List Nat} (row : o.row q = i :: rest)
    (live : o.tenant i = some task) : task.place = q := by
  refine tagged.place_of_mem ?_ live
  rw [row]
  exact List.mem_cons_self

/-- The list of those on no list is empty. -/
theorem row_unlinked (tagged : o.Tagged) : o.row .unlinked = [] :=
  List.eq_nil_iff_forall_not_mem.mpr (fun i hi => ((tagged.mem_row _ i).mp hi).1 rfl)

/-- A task on no list is on none of the rows. -/
theorem not_mem_unlinked (tagged : o.Tagged) (h : o.tenant i = some task)
    (unlinked : task.place = .unlinked) (q : Place) : i ∉ o.row q := by
  by_cases hq : q = .unlinked
  · rw [hq, tagged.row_unlinked]
    exact List.not_mem_nil
  · exact tagged.not_mem_row h (fun heq => hq (heq.trans unlinked))

/-- Taking a task that is on no list off its list changes nothing. -/
theorem reseat_unlinked (tagged : o.Tagged) {side : Side} (h : o.tenant i = some task)
    (unlinked : task.place = .unlinked) :
    o.reseat side i { task with place := .unlinked } = o := by
  have htask : { task with place := .unlinked } = task := by
    rw [← unlinked]
  have hrow : ∀ q, (o.row q).filter (· ≠ i) = o.row q :=
    fun q => filter_of_not_mem (tagged.not_mem_unlinked h unlinked q)
  ext1 <;> try rfl
  · rw [htask, reseat_tenant, ← h]
    exact Function.update_eq_self i o.tenant
  · funext q
    rw [reseat_row, hrow]
    by_cases hq : q = .unlinked
    · rw [if_pos hq, hq]
      rfl
    · rw [if_neg hq]

/-- A task on no list is entered on a row as that row is. -/
theorem reseat_row_self (tagged : o.Tagged) (side : Side) (task' : Task)
    (h : o.tenant i = some task) (unlinked : task.place = .unlinked) :
    (o.reseat side i task').row task'.place
      = enterRow (tickOf (update o.tenant i (some task'))) side task'.place i
          (o.row task'.place) := by
  have hrow : (o.row task'.place).filter (· ≠ i) = o.row task'.place :=
    filter_of_not_mem (tagged.not_mem_unlinked h unlinked _)
  rw [reseat_row, if_pos rfl, hrow]

/-- Tags agree after a slot is given a new record, if the slot is now on the
    list that the record names and all other slots stay where they are. -/
theorem retag (tagged : o.Tagged) {task' : Task} {row : Place → List Nat}
    (h : o.tenant i = some task) (handle : task'.handle = task.handle)
    (priority : task'.priority < o.settings.levels)
    (level : ∀ p, task'.place = .ready p → p < o.settings.levels) (nodup : ∀ q, (row q).Nodup)
    (self : ∀ q, i ∈ row q ↔ q ≠ .unlinked ∧ task'.place = q)
    (others : ∀ q j, j ≠ i → (j ∈ row q ↔ j ∈ o.row q)) :
    { o with tenant := update o.tenant i (some task'), row := row }.Tagged := by
  have htenant : ∀ {j t}, update o.tenant i (some task') j = some t →
      (j = i ∧ t = task') ∨ (j ≠ i ∧ o.tenant j = some t) :=
    fun ht => of_update_some ht
  -- the other slots have the records and the lists that they had
  refine ⟨nodup, ?mem_row, ?handle, ?priority, ?level, ?bound, tagged.vacant_nodup, ?mem_vacant,
    tagged.live⟩
  case mem_row =>
    intro q j
    by_cases hj : j = i
    · subst hj
      show j ∈ row q ↔ q ≠ .unlinked ∧ ∃ t, update o.tenant j (some task') j = some t ∧ t.place = q
      rw [self, Function.update_self]
      simp
    · show j ∈ row q ↔ q ≠ .unlinked ∧ ∃ t, update o.tenant i (some task') j = some t ∧ t.place = q
      rw [others q j hj, tagged.mem_row, Function.update_of_ne hj]
  case handle =>
    intro j t ht
    rcases htenant ht with ⟨rfl, rfl⟩ | ⟨-, ht⟩
    · rw [handle]
      exact tagged.handle h
    · exact tagged.handle ht
  case priority =>
    intro j t ht
    rcases htenant ht with ⟨rfl, rfl⟩ | ⟨-, ht⟩
    · exact priority
    · exact tagged.priority ht
  case level =>
    intro j t p ht hp
    rcases htenant ht with ⟨rfl, rfl⟩ | ⟨-, ht⟩
    · exact level p hp
    · exact tagged.level ht hp
  case bound =>
    intro j t ht
    rcases htenant ht with ⟨rfl, rfl⟩ | ⟨-, ht⟩
    · exact tagged.bound h
    · exact tagged.bound ht
  case mem_vacant =>
    intro j
    show j ∈ o.vacant ↔ j < o.size ∧ update o.tenant i (some task') j = none
    rw [tagged.mem_vacant]
    by_cases hj : j = i
    · subst hj
      simp [h]
    · rw [Function.update_of_ne hj]

/-- Tags agree after a record is replaced by one with the same place. -/
theorem put (tagged : o.Tagged) {task' : Task} (h : o.tenant i = some task)
    (handle : task'.handle = task.handle) (place : task'.place = task.place)
    (priority : task'.priority < o.settings.levels) : (o.put i task').Tagged := by
  refine tagged.retag h handle priority ?_ tagged.nodup ?_ (fun q j _ => Iff.rfl)
  · intro p hp
    rw [place] at hp
    exact tagged.level h hp
  · intro q
    rw [tagged.mem_row, h, place]
    simp

/-- Tags agree after a slot is moved. -/
theorem reseat (tagged : o.Tagged) {task' : Task} (side : Side) (h : o.tenant i = some task)
    (handle : task'.handle = task.handle) (priority : task'.priority < o.settings.levels)
    (level : ∀ p, task'.place = .ready p → p < o.settings.levels) :
    (o.reseat side i task').Tagged := by
  have hfilter : ∀ q, ((o.row q).filter (· ≠ i)).Nodup := fun q => (tagged.nodup q).filter _
  have hnot : ∀ q, i ∉ (o.row q).filter (· ≠ i) := fun q => not_mem_filter_ne (o.row q) i
  refine tagged.retag h handle priority level ?_ ?_ ?_
  · intro q
    show ((o.reseat side i task').row q).Nodup
    rw [reseat_row]
    by_cases hq : q = task'.place
    · rw [if_pos hq]
      exact nodup_enterRow (hfilter q) (hnot q)
    · rw [if_neg hq]
      exact hfilter q
  · intro q
    -- taken off every list first, the slot is now on the one that it is put on
    show i ∈ (o.reseat side i task').row q ↔ _
    rw [reseat_row]
    by_cases hq : q = task'.place
    · rw [if_pos hq, mem_enterRow]
      simp [hq]
    · rw [if_neg hq]
      exact ⟨fun hi => absurd hi (hnot q), fun hi => absurd hi.2.symm hq⟩
  · intro q j hj
    show j ∈ (o.reseat side i task').row q ↔ _
    rw [reseat_row]
    by_cases hq : q = task'.place
    · rw [if_pos hq, mem_enterRow]
      simp [hj]
    · rw [if_neg hq]
      simp [hj]

/-- Tags agree after slots are taken off their lists. -/
theorem liftAll (tagged : o.Tagged) (l : List Nat) : (o.liftAll l).Tagged := by
  -- a record that is lifted keeps its name and its priority, and loses its place
  have htenant : ∀ {j t}, (o.liftAll l).tenant j = some t →
      ∃ t', o.tenant j = some t' ∧ t.handle = t'.handle ∧ t.priority = t'.priority
        ∧ (t.place = t'.place ∨ t.place = .unlinked) := by
    intro j t ht
    by_cases hj : j ∈ l
    · rw [show (o.liftAll l).tenant j
        = (o.tenant j).map (fun task => { task with place := .unlinked }) from if_pos hj] at ht
      obtain ⟨t', ht', rfl⟩ := Option.map_eq_some_iff.mp ht
      exact ⟨t', ht', rfl, rfl, Or.inr rfl⟩
    · rw [show (o.liftAll l).tenant j = o.tenant j from if_neg hj] at ht
      exact ⟨t, ht, rfl, rfl, Or.inl rfl⟩
  refine ⟨fun q => (tagged.nodup q).filter _, ?mem_row, ?handle, ?priority, ?level, ?bound,
    tagged.vacant_nodup, ?mem_vacant, tagged.live⟩
  case mem_row =>
    intro q j
    show j ∈ (o.row q).filter (· ∉ l) ↔ _ ∧ ∃ t, (if j ∈ l then _ else _) = some t ∧ _
    rw [List.mem_filter, tagged.mem_row]
    by_cases hj : j ∈ l
    · simp only [hj, not_true_eq_false, decide_false, Bool.false_eq_true, and_false, if_true,
        false_iff]
      rintro ⟨hq, t, ht, rfl⟩
      obtain ⟨t', -, rfl⟩ := Option.map_eq_some_iff.mp ht
      exact hq rfl
    · simp [hj]
  case handle =>
    intro j t ht
    obtain ⟨t', ht', hh, -, -⟩ := htenant ht
    rw [hh]
    exact tagged.handle ht'
  case priority =>
    intro j t ht
    obtain ⟨t', ht', -, hp, -⟩ := htenant ht
    rw [hp]
    exact tagged.priority ht'
  case level =>
    intro j t p ht hp
    obtain ⟨t', ht', -, -, hplace | hplace⟩ := htenant ht
    · rw [hplace] at hp
      exact tagged.level ht' hp
    · rw [hplace] at hp
      cases hp
  case bound =>
    intro j t ht
    obtain ⟨t', ht', -⟩ := htenant ht
    exact tagged.bound ht'
  case mem_vacant =>
    intro j
    show j ∈ o.vacant ↔ j < o.size ∧ (if j ∈ l then _ else _) = none
    rw [tagged.mem_vacant]
    by_cases hj : j ∈ l
    · simp [hj]
    · simp [hj]

/-! ### The highest level -/

/-- The highest marked number is marked, and those above it are not. -/
theorem highest_cases (marked : Nat → Bool) (n : Nat) :
    (highest marked n = none ∧ ∀ p, p < n → marked p = false)
      ∨ ∃ p, highest marked n = some p ∧ marked p = true ∧ ∀ q, p < q → q < n → marked q = false := by
  induction n with
  | zero => exact Or.inl ⟨rfl, fun p hp => absurd hp (Nat.not_lt_zero p)⟩
  | succ n ih =>
      simp only [highest]
      by_cases hn : marked n = true
      · rw [if_pos hn]
        exact Or.inr ⟨n, rfl, hn, fun q hq hq' => absurd hq (by omega)⟩
      · rw [if_neg hn]
        rw [Bool.not_eq_true] at hn
        rcases ih with ⟨hnone, hall⟩ | ⟨p, hsome, hp, hall⟩
        · refine Or.inl ⟨hnone, ?_⟩
          intro q hq
          rcases Nat.lt_succ_iff_lt_or_eq.mp hq with hlt | rfl
          · exact hall q hlt
          · exact hn
        · refine Or.inr ⟨p, hsome, hp, ?_⟩
          intro q hpq hq
          rcases Nat.lt_succ_iff_lt_or_eq.mp hq with hlt | rfl
          · exact hall q hpq hlt
          · exact hn

/-- Only levels that exist hold tasks. -/
theorem row_ready (tagged : o.Tagged) {p : Nat} (h : o.settings.levels ≤ p) :
    o.row (.ready p) = [] := by
  refine List.eq_nil_iff_forall_not_mem.mpr ?_
  intro j hj
  obtain ⟨-, task, htask, hplace⟩ := (tagged.mem_row _ j).mp hj
  exact absurd (tagged.level htask hplace) (Nat.not_lt_of_le h)

/-- The highest level that holds a task is found, if there is one. -/
theorem topLevel_cases (tagged : o.Tagged) :
    (o.topLevel = none ∧ ∀ p, o.row (.ready p) = [])
      ∨ ∃ p, o.topLevel = some p ∧ o.IsTop p := by
  have hmarked : ∀ p, (!(o.row (.ready p)).isEmpty) = false ↔ o.row (.ready p) = [] := by
    intro p
    simp
  rcases highest_cases (fun p => !(o.row (.ready p)).isEmpty) o.settings.levels with
    ⟨hnone, hall⟩ | ⟨p, hsome, hp, hall⟩
  · refine Or.inl ⟨hnone, ?_⟩
    intro p
    by_cases hlt : p < o.settings.levels
    · exact (hmarked p).mp (hall p hlt)
    · exact tagged.row_ready (Nat.le_of_not_lt hlt)
  · refine Or.inr ⟨p, hsome, ?_, ?_⟩
    · intro hnil
      rw [(hmarked p).mpr hnil] at hp
      exact Bool.noConfusion hp
    · intro q hq
      by_cases hlt : q < o.settings.levels
      · exact (hmarked q).mp (hall q hq hlt)
      · exact tagged.row_ready (Nat.le_of_not_lt hlt)

/-- There is no other highest level. -/
theorem topLevel_eq (tagged : o.Tagged) {p : Nat} (h : o.IsTop p) : o.topLevel = some p := by
  rcases tagged.topLevel_cases with ⟨-, hall⟩ | ⟨q, hsome, hq⟩
  · exact absurd (hall p) h.1
  · rcases Nat.lt_trichotomy p q with hlt | rfl | hlt
    · exact absurd (h.2 q hlt) hq.1
    · exact hsome
    · exact absurd (hq.2 p hlt) h.1

/-- No level is found when none holds a task. -/
theorem topLevel_eq_none (tagged : o.Tagged) (h : ∀ p, o.row (.ready p) = []) :
    o.topLevel = none := by
  rcases tagged.topLevel_cases with ⟨hnone, -⟩ | ⟨q, -, hq⟩
  · exact hnone
  · exact absurd (h q) hq.1

/-- A ready task is above a priority when its level is. -/
theorem readyAbove_eq_false (tagged : o.Tagged) (priority : Nat) :
    o.readyAbove priority = false ↔ ∀ p, priority < p → o.row (.ready p) = [] := by
  simp only [readyAbove]
  rcases tagged.topLevel_cases with ⟨hnone, hall⟩ | ⟨q, hsome, hq⟩
  · rw [hnone]
    exact ⟨fun _ p _ => hall p, fun _ => rfl⟩
  · rw [hsome]
    show decide (priority < q) = false ↔ _
    rw [decide_eq_false_iff_not]
    refine ⟨fun hle p hp => hq.2 p (by omega), ?_⟩
    intro hall hlt
    exact hq.1 (hall q hlt)

/-! ### Coming and going -/

/-- A slot that holds a task is not vacant. -/
theorem not_mem_vacant (tagged : o.Tagged) (h : o.tenant i = some task) : i ∉ o.vacant := by
  intro hi
  have hnone := ((tagged.mem_vacant i).mp hi).2
  rw [h] at hnone
  cases hnone

/-- The slots that hold no task are no more than those that do not hold this one. -/
theorem live_pos (tagged : o.Tagged) (h : o.tenant i = some task) : 0 < o.liveCount := by
  have hnodup : (i :: o.vacant).Nodup :=
    List.nodup_cons.mpr ⟨tagged.not_mem_vacant h, tagged.vacant_nodup⟩
  have hsub : (i :: o.vacant) ⊆ List.range o.size := by
    intro j hj
    rcases List.mem_cons.mp hj with rfl | hj
    · exact List.mem_range.mpr (tagged.bound h)
    · exact List.mem_range.mpr ((tagged.mem_vacant j).mp hj).1
  have hle := (List.subperm_of_subset hnodup hsub).length_le
  rw [List.length_range, List.length_cons] at hle
  have := tagged.live
  omega

/-- Tags agree after a task has left. -/
theorem vacate (tagged : o.Tagged) (h : o.tenant i = some task) : (o.vacate i).Tagged := by
  have htenant : ∀ {j t}, (o.vacate i).tenant j = some t → j ≠ i ∧ o.tenant j = some t :=
    fun ht => of_update_none ht
  refine ⟨fun q => (tagged.nodup q).filter _, ?mem_row, ?handle, ?priority, ?level, ?bound,
    ?vacant_nodup, ?mem_vacant, ?live⟩
  case mem_row =>
    intro q j
    show j ∈ (o.row q).filter (· ≠ i) ↔ q ≠ .unlinked ∧ ∃ t, update o.tenant i none j = some t ∧ _
    rw [List.mem_filter, tagged.mem_row, Function.update_apply]
    by_cases hj : j = i
    · simp [hj]
    · simp [hj]
  case handle =>
    intro j t ht
    obtain ⟨hj, ht⟩ := htenant ht
    show t.handle = ⟨j, update o.generation i (o.generation i + 1) j⟩
    rw [Function.update_of_ne hj]
    exact tagged.handle ht
  case priority =>
    intro j t ht
    exact tagged.priority (htenant ht).2
  case level =>
    intro j t p ht hp
    exact tagged.level (htenant ht).2 hp
  case bound =>
    intro j t ht
    exact tagged.bound (htenant ht).2
  case vacant_nodup => exact List.nodup_cons.mpr ⟨tagged.not_mem_vacant h, tagged.vacant_nodup⟩
  case mem_vacant =>
    intro j
    show j ∈ i :: o.vacant ↔ j < o.size ∧ update o.tenant i none j = none
    rw [List.mem_cons, tagged.mem_vacant, Function.update_apply]
    by_cases hj : j = i
    · subst hj
      simp [tagged.bound h]
    · simp [hj]
  case live =>
    show o.liveCount - 1 + (o.vacant.length + 1) = o.size
    have := tagged.live
    -- one task fewer, and one vacant slot more
    have := tagged.live_pos h
    omega

/-- The next task moves into the latest vacated slot, or else into a new one. -/
theorem vacancy_cases (tagged : o.Tagged) (h : o.vacancy = some i) :
    (∃ rest, o.vacant = i :: rest ∧ i < o.size ∧ o.tenant i = none ∧ i ∉ rest)
      ∨ (o.vacant = [] ∧ i = o.size ∧ o.size < o.settings.capacity ∧ o.tenant i = none) := by
  simp only [vacancy] at h
  cases hv : o.vacant with
  | cons x rest =>
      rw [hv] at h
      obtain rfl := Option.some.inj h
      have hnodup := tagged.vacant_nodup
      rw [hv] at hnodup
      obtain ⟨hlt, hnone⟩ := (tagged.mem_vacant x).mp (by rw [hv]; exact List.mem_cons_self)
      exact Or.inl ⟨rest, rfl, hlt, hnone, (List.nodup_cons.mp hnodup).1⟩
  | nil =>
      rw [hv] at h
      by_cases hroom : o.size < o.settings.capacity
      · rw [if_pos hroom] at h
        obtain rfl := Option.some.inj h
        refine Or.inr ⟨rfl, rfl, hroom, ?_⟩
        cases ht : o.tenant o.size with
        | none => rfl
        | some t => exact absurd (tagged.bound ht) (Nat.lt_irrefl _)
      · rw [if_neg hroom] at h
        cases h

/-- The slot for the next task holds none. -/
theorem tenant_vacancy (tagged : o.Tagged) (h : o.vacancy = some i) : o.tenant i = none := by
  rcases tagged.vacancy_cases h with ⟨-, -, -, hnone, -⟩ | ⟨-, -, -, hnone⟩
  · exact hnone
  · exact hnone

/-- Tags agree after a task has moved in. -/
theorem occupy (tagged : o.Tagged) (h : o.vacancy = some i)
    (handle : task.handle = ⟨i, o.generation i⟩) (priority : task.priority < o.settings.levels)
    (place : task.place = .unlinked) : (o.occupy i task).Tagged := by
  have hnone : o.tenant i = none := tagged.tenant_vacancy h
  have htenant : ∀ {j t}, (o.occupy i task).tenant j = some t →
      (j = i ∧ t = task) ∨ (j ≠ i ∧ o.tenant j = some t) :=
    fun ht => of_update_some ht
  refine ⟨tagged.nodup, ?mem_row, ?handle, ?priority, ?level, ?bound, ?vacant_nodup, ?mem_vacant,
    ?live⟩
  case mem_row =>
    intro q j
    show j ∈ o.row q ↔ q ≠ .unlinked ∧ ∃ t, update o.tenant i (some task) j = some t ∧ _
    rw [tagged.mem_row, Function.update_apply]
    by_cases hj : j = i
    · subst hj
      simp only [hnone, reduceCtorEq, false_and, exists_false, and_false, if_true, Option.some.injEq,
        false_iff]
      rintro ⟨hq, t, rfl, hplace⟩
      exact hq (hplace.symm.trans place)
    · simp [hj]
  case handle =>
    intro j t ht
    rcases htenant ht with ⟨rfl, rfl⟩ | ⟨-, ht⟩
    · exact handle
    · exact tagged.handle ht
  case priority =>
    intro j t ht
    rcases htenant ht with ⟨rfl, rfl⟩ | ⟨-, ht⟩
    · exact priority
    · exact tagged.priority ht
  case level =>
    intro j t p ht hp
    rcases htenant ht with ⟨rfl, rfl⟩ | ⟨-, ht⟩
    · rw [place] at hp
      cases hp
    · exact tagged.level ht hp
  case bound =>
    intro j t ht
    show j < max o.size (i + 1)
    rcases htenant ht with ⟨rfl, rfl⟩ | ⟨-, ht⟩
    · omega
    · have := tagged.bound ht
      omega
  case vacant_nodup => exact tagged.vacant_nodup.sublist (List.tail_sublist _)
  case mem_vacant =>
    intro j
    show j ∈ o.vacant.tail ↔ j < max o.size (i + 1) ∧ update o.tenant i (some task) j = none
    have hmem := tagged.mem_vacant j
    rw [Function.update_apply]
    -- the slot was vacated before, or it is a new one behind all others
    rcases tagged.vacancy_cases h with ⟨rest, hv, hlt, -, hnot⟩ | ⟨hv, rfl, -, -⟩
    · rw [hv] at hmem ⊢
      rw [show max o.size (i + 1) = o.size by omega, List.tail_cons]
      by_cases hj : j = i
      · subst hj
        simp [hnot]
      · simpa [hj] using hmem
    · rw [hv] at hmem ⊢
      by_cases hj : j = o.size
      · simp [hj]
      · simp only [List.not_mem_nil, false_iff, not_and] at hmem
        simp only [List.tail_nil, List.not_mem_nil, hj, if_false, false_iff, not_and]
        intro hlt
        exact hmem (by omega)
  case live =>
    show o.liveCount + 1 + o.vacant.tail.length = max o.size (i + 1)
    have hlive := tagged.live
    rcases tagged.vacancy_cases h with ⟨rest, hv, hlt, -, -⟩ | ⟨hv, rfl, -, -⟩
    · rw [hv, List.length_cons] at hlive
      rw [hv, List.tail_cons]
      omega
    · rw [hv, List.length_nil] at hlive
      rw [hv, List.tail_nil, List.length_nil]
      omega

end Tagged

end Outline

end PriorityScheduler
