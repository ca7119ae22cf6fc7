import PriorityScheduler.Proofs.Batches
import PriorityScheduler.Proofs.Inversion

/-! # Sound outlines

    An outline is SOUND when, besides the agreement of records and lists,

    * every record fits what the scheduler remembers: a task does what its place
      says, stands on the level of its priority, is on no list only if it was
      dispatched last, and is postponed only while scheduling is suspended;
    * the delayed tasks are in the order of their ticks, those of the present cycle
      after the present tick and those of the next one before it.

    Every step keeps an outline sound, whatever the arguments. -/

namespace PriorityScheduler

open Function (update)

namespace Outline

/-! ## The invariant -/

/-- A record fits what the scheduler remembers beside it. -/
structure Fits (o : Outline) (task : Task) : Prop where
  activity : task.activity = task.place.activity
  level : ∀ p, task.place = .ready p → p = task.priority
  dispatched : task.place = .unlinked → o.current = some task.handle
  postponed : task.place = .postponed → o.depth ≠ 0

/-- All records fit, and the tasks that the scheduler remembers by handle are live. -/
structure Settled (o : Outline) : Prop where
  fits : ∀ {i task}, o.tenant i = some task → o.Fits task
  current : ∀ {h}, o.current = some h → ∃ task, o.get? h = some task
  idle : ∀ {h}, o.idle = some h → ∃ task, o.get? h = some task ∧ task.flags.idle = true
  flagged : ∀ {i task}, o.tenant i = some task → task.flags.idle = true →
    o.idle = some task.handle

/-- A delayed task wakes after the present tick in the present cycle, or before it
    in the next one. -/
structure Timed (o : Outline) (task : Task) : Prop where
  ahead : task.place = .delayed o.cycle → o.now < task.wakeTick
  behind : task.place = .delayed o.cycle.other → task.wakeTick < o.now

/-- The delayed tasks of each cycle stand in the order of their ticks. -/
def InOrder (o : Outline) : Prop :=
  ∀ c, (o.row (.delayed c)).Pairwise fun i j => tickOf o.tenant i ≤ tickOf o.tenant j

/-- Records and lists agree, the records fit, and the delayed tasks are in time. -/
structure Sound (o : Outline) : Prop where
  tagged : o.Tagged
  settled : o.Settled
  inOrder : o.InOrder
  timed : ∀ {i task}, o.tenant i = some task → o.Timed task

variable {o o' : Outline} {i : Nat} {h h' : Handle} {task task' : Task}

/-! ## What follows at once -/

/-- A record fits by the task dispatched last and the depth of the suspension. -/
theorem Fits.congr (fits : o.Fits task) (current : o'.current = o.current)
    (depth : o'.depth = o.depth) : o'.Fits task := by
  refine ⟨fits.activity, fits.level, ?_, ?_⟩
  · rw [current]
    exact fits.dispatched
  · rw [depth]
    exact fits.postponed

/-- A record is in time by the tick and the cycle. -/
theorem Timed.congr (timed : o.Timed task) (now : o'.now = o.now) (cycle : o'.cycle = o.cycle) :
    o'.Timed task := by
  constructor
  · rw [now, cycle]
    exact timed.ahead
  · rw [now, cycle]
    exact timed.behind

theorem Sound.live (sound : o.Sound) (live : o.get? h = some task) :
    o.tenant h.index = some task :=
  (sound.tagged.get?_eq_some.mp live).1

theorem Sound.handle_eq (sound : o.Sound) (live : o.get? h = some task) : task.handle = h :=
  (sound.tagged.get?_eq_some.mp live).2

/-- Two tasks with different handles are in different slots. -/
theorem Sound.index_ne (sound : o.Sound) (live : o.get? h = some task)
    (live' : o.get? h' = some task') (ne : h' ≠ h) : h.index ≠ h'.index := by
  intro heq
  have htask := sound.live live
  rw [heq, sound.live live'] at htask
  rw [Option.some.inj htask] at live'
  exact ne ((sound.handle_eq live').symm.trans (sound.handle_eq live))

/-- A task moves in where no other is. -/
theorem Sound.index_ne_of_vacancy (sound : o.Sound) (live : o.get? h = some task)
    (vacancy : o.vacancy = some i) : h.index ≠ i := by
  intro heq
  have htask := sound.live live
  rw [heq, sound.tagged.tenant_vacancy vacancy] at htask
  cases htask

/-- A task that is running is on no list, and the other way round. -/
theorem Fits.running_iff (fits : o.Fits task) :
    task.activity = .running ↔ task.place = .unlinked := by
  rw [fits.activity]
  cases task.place <;> simp [Place.activity]

/-- A task that is blocked is delayed or waits without a timeout. -/
theorem Fits.blocked_iff (fits : o.Fits task) :
    task.activity = .blocked ↔ (∃ c, task.place = .delayed c) ∨ task.place = .waiting := by
  rw [fits.activity]
  cases task.place <;> simp [Place.activity]

/-- A task that is suspended is on the list of the suspended. -/
theorem Fits.suspended_iff (fits : o.Fits task) :
    task.activity = .suspended ↔ task.place = .suspended := by
  rw [fits.activity]
  cases task.place <;> simp [Place.activity]

/-- A task that is ready is on a ready level or postponed. -/
theorem Fits.ready_iff (fits : o.Fits task) :
    task.activity = .ready ↔ (∃ p, task.place = .ready p) ∨ task.place = .postponed := by
  rw [fits.activity]
  cases task.place <;> simp [Place.activity]

theorem Sound.runnerFree (sound : o.Sound) : o.RunnerFree := by
  intro h task hrunner hget
  obtain ⟨-, task', hget', hrunning⟩ := runner_eq_some hrunner
  rw [hget] at hget'
  obtain rfl := Option.some.inj hget'
  exact (sound.settled.fits (sound.live hget)).running_iff.mp hrunning

/-- The task that runs is the one that is on no list. -/
theorem Sound.runner_of_unlinked (sound : o.Sound) (live : o.tenant i = some task)
    (unlinked : task.place = .unlinked) : o.runner = some task.handle := by
  have hfits := sound.settled.fits live
  simp only [runner]
  rw [hfits.dispatched unlinked]
  simp only [sound.tagged.get?_handle live]
  rw [if_pos (hfits.running_iff.mpr unlinked)]

/-- If no task runs, all are on lists. -/
theorem Sound.linked_of_idle (sound : o.Sound) (idle : o.runner = none)
    (live : o.tenant i = some task) : task.place ≠ .unlinked := by
  intro hunlinked
  rw [sound.runner_of_unlinked live hunlinked] at idle
  cases idle

/-- Two tasks that are on no list are one. -/
theorem Sound.unlinked_unique (sound : o.Sound) {j : Nat} (live : o.tenant i = some task)
    (live' : o.tenant j = some task') (unlinked : task.place = .unlinked)
    (unlinked' : task'.place = .unlinked) : i = j := by
  have hcurrent := (sound.settled.fits live).dispatched unlinked
  have hcurrent' := (sound.settled.fits live').dispatched unlinked'
  rw [hcurrent] at hcurrent'
  have hhandle := Option.some.inj hcurrent'
  rw [sound.tagged.handle live, sound.tagged.handle live'] at hhandle
  exact congrArg Handle.index hhandle

/-! ## Order and time -/

theorem tickOf_update_of_ne (tenant : Nat → Option Task) {new : Option Task} {j : Nat}
    (hj : j ≠ i) : tickOf (update tenant i new) j = tickOf tenant j := by
  simp only [tickOf]
  rw [Function.update_of_ne hj]

/-- Slots in the order of their ticks stay so when some other slot changes. -/
theorem pairwise_update {tenant : Nat → Option Task} {new : Option Task} {l : List Nat}
    (absent : i ∉ l) (inOrder : l.Pairwise fun x y => tickOf tenant x ≤ tickOf tenant y) :
    l.Pairwise fun x y => tickOf (update tenant i new) x ≤ tickOf (update tenant i new) y := by
  refine inOrder.imp_of_mem ?_
  intro x y hx hy hle
  have hx' : x ≠ i := fun heq => absent (heq ▸ hx)
  have hy' : y ≠ i := fun heq => absent (heq ▸ hy)
  rw [tickOf_update_of_ne _ hx', tickOf_update_of_ne _ hy']
  exact hle

/-- Moving a slot keeps the delayed tasks in order. -/
theorem InOrder.reseat (inOrder : o.InOrder) (side : Side) (i : Nat) (task : Task) :
    (o.reseat side i task).InOrder := by
  intro c
  have hrest : ((o.row (.delayed c)).filter (· ≠ i)).Pairwise fun x y =>
      tickOf (update o.tenant i (some task)) x ≤ tickOf (update o.tenant i (some task)) y :=
    pairwise_update (not_mem_filter_ne _ i) ((inOrder c).filter _)
  rw [reseat_row, reseat_tenant]
  by_cases hq : Place.delayed c = task.place
  · rw [if_pos hq]
    exact sorted_orderedInsert _ hrest
  · rw [if_neg hq]
    exact hrest

/-- Replacing a record keeps the delayed tasks in order, if its tick stays. -/
theorem InOrder.put (inOrder : o.InOrder) (live : o.tenant i = some task)
    (wakeTick : task'.wakeTick = task.wakeTick) : (o.put i task').InOrder := by
  have htick : ∀ j, tickOf (update o.tenant i (some task')) j = tickOf o.tenant j := by
    intro j
    by_cases hj : j = i
    · subst hj
      simp only [tickOf]
      rw [Function.update_self, live]
      exact wakeTick
    · exact tickOf_update_of_ne _ hj
  intro c
  refine (inOrder c).imp ?_
  intro x y hle
  rw [put_tenant, htick, htick]
  exact hle

/-! ## One task -/

/-- The records that fit after a slot has a new one. -/
theorem Settled.update (settled : o.Settled) (tagged : o.Tagged)
    (live : o.tenant i = some task) (handle : task'.handle = task.handle)
    (idle : task'.flags.idle = task.flags.idle) (fits : o.Fits task')
    (generation : o'.generation = o.generation)
    (tenant : o'.tenant = Function.update o.tenant i (some task')) (current : o'.current = o.current)
    (idle' : o'.idle = o.idle) (depth : o'.depth = o.depth) : o'.Settled := by
  have hcases : ∀ {j t}, o'.tenant j = some t →
      (j = i ∧ t = task') ∨ (j ≠ i ∧ o.tenant j = some t) := by
    intro j t ht
    rw [tenant] at ht
    exact of_update_some ht
  -- every handle names what it named, with the new record in the one slot
  have hget : ∀ {h t}, o.get? h = some t → o'.get? h
      = some (if h.index = i then task' else t) := by
    intro h t ht
    by_cases hi : h.index = i
    · subst hi
      rw [if_pos rfl]
      exact get?_update_self ht generation tenant
    · rw [if_neg hi, ← ht]
      refine get?_congr (congrFun generation _) ?_
      rw [tenant, Function.update_of_ne hi]
  constructor
  case fits =>
    intro j t ht
    rcases hcases ht with ⟨-, rfl⟩ | ⟨-, ht⟩
    · exact fits.congr current depth
    · exact (settled.fits ht).congr current depth
  case current =>
    intro h hh
    rw [current] at hh
    obtain ⟨t, ht⟩ := settled.current hh
    exact ⟨_, hget ht⟩
  case idle =>
    intro h hh
    rw [idle'] at hh
    obtain ⟨t, ht, hflag⟩ := settled.idle hh
    refine ⟨_, hget ht, ?_⟩
    by_cases hi : h.index = i
    · have htask : o.tenant h.index = some t := (tagged.get?_eq_some.mp ht).1
      rw [hi, live] at htask
      rw [if_pos hi, idle, Option.some.inj htask]
      exact hflag
    · rw [if_neg hi]
      exact hflag
  case flagged =>
    intro j t ht hflag
    rw [idle']
    rcases hcases ht with ⟨-, rfl⟩ | ⟨-, ht⟩
    · rw [idle] at hflag
      rw [handle]
      exact settled.flagged live hflag
    · exact settled.flagged ht hflag

/-- The delayed tasks are in time after a slot has a new record. -/
theorem timed_update (timed : ∀ {j t}, o.tenant j = some t → o.Timed t) (fits : o.Timed task')
    {j : Nat} {t : Task} (live : update o.tenant i (some task') j = some t) : o.Timed t := by
  rcases of_update_some live with ⟨-, rfl⟩ | ⟨-, hold⟩
  · exact fits
  · exact timed hold

/-- An outline stays sound when a slot is moved to a place that its new record
    fits. -/
theorem Sound.reseat (sound : o.Sound) (side : Side) (live : o.tenant i = some task)
    (handle : task'.handle = task.handle) (idle : task'.flags.idle = task.flags.idle)
    (priority : task'.priority < o.settings.levels) (fits : o.Fits task') (timed : o.Timed task') :
    (o.reseat side i task').Sound := by
  refine ⟨?_, ?_, sound.inOrder.reseat side i task', ?_⟩
  · refine sound.tagged.reseat side live handle priority ?_
    intro p hp
    rw [fits.level p hp]
    exact priority
  · exact sound.settled.update sound.tagged live handle idle fits rfl rfl rfl rfl rfl
  · intro j t ht
    exact (timed_update (fun h => sound.timed h) timed ht).congr rfl rfl

/-- An outline stays sound when a record is replaced that keeps its place and its
    tick. -/
theorem Sound.put (sound : o.Sound) (live : o.tenant i = some task)
    (handle : task'.handle = task.handle) (idle : task'.flags.idle = task.flags.idle)
    (priority : task'.priority < o.settings.levels) (activity : task'.activity = task.activity)
    (place : task'.place = task.place) (wakeTick : task'.wakeTick = task.wakeTick)
    (level : ∀ p, task.place = .ready p → p = task'.priority) : (o.put i task').Sound := by
  obtain ⟨hactivity, -, hdispatched, hpostponed⟩ := sound.settled.fits live
  obtain ⟨hahead, hbehind⟩ := sound.timed live
  refine ⟨sound.tagged.put live handle place priority, ?_, sound.inOrder.put live wakeTick, ?_⟩
  · refine sound.settled.update sound.tagged live handle idle ⟨?_, ?_, ?_, ?_⟩ rfl rfl rfl rfl rfl
    · rw [activity, place]
      exact hactivity
    · rw [place]
      exact level
    · rw [place, handle]
      exact hdispatched
    · rw [place]
      exact hpostponed
  · intro j t ht
    have htimed : o.Timed task' := by
      constructor
      · rw [place, wakeTick]
        exact hahead
      · rw [place, wakeTick]
        exact hbehind
    exact (timed_update (fun h => sound.timed h) htimed ht).congr rfl rfl

/-- A task that becomes ready is on the level of its priority, or postponed while
    scheduling is suspended. -/
theorem readyPlace_cases (o : Outline) (task : Task) :
    (o.depth = 0 ∧ o.readyPlace task = .ready task.priority)
      ∨ (o.depth ≠ 0 ∧ o.readyPlace task = .postponed) := by
  simp only [readyPlace]
  by_cases hd : o.depth = 0
  · rw [if_pos hd]
    exact Or.inl ⟨hd, rfl⟩
  · rw [if_neg hd]
    exact Or.inr ⟨hd, rfl⟩

theorem readyPlace_ne_unlinked (o : Outline) (task : Task) : o.readyPlace task ≠ .unlinked := by
  rcases o.readyPlace_cases task with ⟨-, hplace⟩ | ⟨-, hplace⟩
  · rw [hplace]
    rintro ⟨⟩
  · rw [hplace]
    rintro ⟨⟩

/-- The record of a task that becomes ready fits. -/
theorem fits_readied (o : Outline) (task : Task) : o.Fits (o.readied task) := by
  rcases o.readyPlace_cases task with ⟨hd, hplace⟩ | ⟨hd, hplace⟩
  · constructor
    · show Activity.ready = (o.readyPlace task).activity
      rw [hplace]
      rfl
    · intro p hp
      rw [show (o.readied task).place = .ready task.priority from hplace] at hp
      exact (Place.ready.inj hp).symm
    · intro hp
      cases hplace.symm.trans hp
    · intro hp
      cases hplace.symm.trans hp
  · refine ⟨?_, ?_, ?_, fun _ => hd⟩
    · show Activity.ready = (o.readyPlace task).activity
      rw [hplace]
      rfl
    · intro p hp
      cases hplace.symm.trans hp
    · intro hp
      cases hplace.symm.trans hp

/-- A task that becomes ready is not delayed. -/
theorem readied_ne_delayed (o : Outline) (task : Task) (c : Cycle) :
    (o.readied task).place ≠ .delayed c := by
  show o.readyPlace task ≠ _
  rcases o.readyPlace_cases task with ⟨-, hplace⟩ | ⟨-, hplace⟩
  · rw [hplace]
    rintro ⟨⟩
  · rw [hplace]
    rintro ⟨⟩

/-- A record whose task is not delayed is in time. -/
theorem timed_of_ne (hne : ∀ c, task.place ≠ .delayed c) : o.Timed task :=
  ⟨fun h => absurd h (hne _), fun h => absurd h (hne _)⟩

/-- An outline stays sound when a task is made ready, with a change of its record. -/
theorem Sound.makeReady (sound : o.Sound) (live : o.tenant i = some task)
    (handle : task'.handle = task.handle) (idle : task'.flags.idle = task.flags.idle)
    (priority : task'.priority = task.priority) : (o.makeReady i task').Sound := by
  have hpriority : task'.priority < o.settings.levels := by
    rw [priority]
    exact sound.tagged.priority live
  exact sound.reseat .back live handle idle hpriority (o.fits_readied task')
    (timed_of_ne (o.readied_ne_delayed task'))

/-! ## Marks and counters -/

/-- The marks of a switch, the slice and the count of wraps do not matter. -/
theorem Sound.remark (sound : o.Sound) (wraps spent : UInt32) (behind due ever : Bool) :
    { o with
      wraps := wraps, sliceSpent := spent, sendBehind := behind, switchDue := due,
      everDispatched := ever }.Sound := by
  obtain ⟨htagged, ⟨hfits, hcurrent, hidle, hflagged⟩, hinOrder, htimed⟩ := sound
  refine ⟨htagged.congr rfl rfl rfl rfl rfl rfl rfl, ⟨?_, hcurrent, hidle, hflagged⟩, hinOrder, ?_⟩
  · exact fun ht => (hfits ht).congr rfl rfl
  · exact fun ht => (htimed ht).congr rfl rfl

theorem Sound.wantSwitchIf (sound : o.Sound) (wanted : Bool) : (o.wantSwitchIf wanted).Sound :=
  sound.remark o.wraps o.sliceSpent o.sendBehind (o.switchDue || wanted) o.everDispatched

theorem Sound.cleared (sound : o.Sound) : o.cleared.Sound :=
  sound.remark o.wraps o.sliceSpent false false o.everDispatched

/-- The depth of the suspension matters to the postponed tasks only. -/
theorem Sound.setDepth (sound : o.Sound) {depth : UInt32}
    (postponed : ∀ {j t}, o.tenant j = some t → t.place = .postponed → depth ≠ 0) :
    { o with depth := depth }.Sound := by
  obtain ⟨htagged, ⟨hfits, hcurrent, hidle, hflagged⟩, hinOrder, htimed⟩ := sound
  refine ⟨htagged.congr rfl rfl rfl rfl rfl rfl rfl, ⟨?_, hcurrent, hidle, hflagged⟩, hinOrder, ?_⟩
  · intro j t ht
    obtain ⟨h1, h2, h3, -⟩ := hfits ht
    exact ⟨h1, h2, h3, postponed ht⟩
  · exact fun ht => (htimed ht).congr rfl rfl

/-! ## Coming and going -/

/-- An outline stays sound when a task moves in and goes straight to a list.  It is
    the idle task only if there was none, and then it is remembered. -/
theorem Sound.enrolled (sound : o.Sound) {side : Side} {idle : Option Handle}
    (vacancy : o.vacancy = some i) (unlinked : task.place = .unlinked)
    (handle : task.handle = ⟨i, o.generation i⟩) (handle' : task'.handle = task.handle)
    (priority : task.priority < o.settings.levels) (priority' : task'.priority = task.priority)
    (linked : task'.place ≠ .unlinked) (fits : o.Fits task') (timed : o.Timed task')
    (flag : task'.flags.idle = false ∧ idle = o.idle
      ∨ task'.flags.idle = true ∧ o.idle = none ∧ idle = some task'.handle) :
    { (o.occupy i task).reseat side i task' with idle := idle }.Sound := by
  have hnone := sound.tagged.tenant_vacancy vacancy
  have htagged : (o.occupy i task).Tagged :=
    sound.tagged.occupy vacancy handle priority unlinked
  have hlive : (o.occupy i task).tenant i = some task := Function.update_self ..
  have hlt : task'.priority < (o.occupy i task).settings.levels := by
    rw [priority']
    exact priority
  have hlevel : ∀ p, task'.place = .ready p → p < (o.occupy i task).settings.levels := by
    intro p hp
    rw [fits.level p hp]
    exact hlt
  have hcases : ∀ {j t}, ((o.occupy i task).reseat side i task').tenant j = some t →
      (j = i ∧ t = task') ∨ (j ≠ i ∧ o.tenant j = some t) := by
    intro j t ht
    rcases of_update_some ht with hself | ⟨hj, ht⟩
    · exact Or.inl hself
    · rcases of_update_some ht with ⟨hj', -⟩ | hold
      · exact absurd hj' hj
      · exact Or.inr hold
  -- the slot was free, so no handle that named a task named this slot
  have hget : ∀ {h t}, o.get? h = some t →
      ((o.occupy i task).reseat side i task').get? h = some t := by
    intro h t ht
    have hne := sound.index_ne_of_vacancy ht vacancy
    rw [get?_reseat hne, get?_occupy_of_ne hne]
    exact ht
  have hself : ((o.occupy i task).reseat side i task').get? task'.handle = some task' :=
    (htagged.reseat side hlive handle' hlt hlevel).get?_handle (Function.update_self ..)
  refine ⟨?tagged, ⟨?fits, ?current, ?idle, ?flagged⟩, ?inOrder, ?timed⟩
  case tagged =>
    exact (htagged.reseat side hlive handle' hlt hlevel).congr rfl rfl rfl rfl rfl rfl rfl
  case fits =>
    intro j t ht
    rcases hcases ht with ⟨-, rfl⟩ | ⟨-, ht⟩
    · exact ⟨fits.activity, fits.level, fun h => absurd h linked, fits.postponed⟩
    · exact (sound.settled.fits ht).congr rfl rfl
  case current =>
    intro h hh
    obtain ⟨t, ht⟩ := sound.settled.current hh
    exact ⟨t, hget ht⟩
  case idle =>
    intro h hh
    rcases flag with ⟨-, rfl⟩ | ⟨hflag, -, rfl⟩
    · obtain ⟨t, ht, hidle⟩ := sound.settled.idle hh
      exact ⟨t, hget ht, hidle⟩
    · obtain rfl := Option.some.inj hh
      exact ⟨task', hself, hflag⟩
  case flagged =>
    intro j t ht hidle
    rcases hcases ht with ⟨-, rfl⟩ | ⟨-, ht⟩
    · rcases flag with ⟨hflag, -⟩ | ⟨-, -, rfl⟩
      · rw [hidle] at hflag
        exact Bool.noConfusion hflag
      · rfl
    · have hold := sound.settled.flagged ht hidle
      rcases flag with ⟨-, rfl⟩ | ⟨-, hno, -⟩
      · exact hold
      · rw [hno] at hold
        cases hold
  case inOrder =>
    have hfree : ∀ q, i ∉ o.row q := by
      intro q hi
      obtain ⟨-, t, ht, -⟩ := (sound.tagged.mem_row q i).mp hi
      rw [hnone] at ht
      cases ht
    have hinOrder : (o.occupy i task).InOrder :=
      fun c => pairwise_update (hfree _) (sound.inOrder c)
    exact hinOrder.reseat side i task'
  case timed =>
    intro j t ht
    rcases hcases ht with ⟨-, rfl⟩ | ⟨-, ht⟩
    · exact timed.congr rfl rfl
    · exact (sound.timed ht).congr rfl rfl

/-- An outline stays sound when a task that is not the idle one leaves; if it was
    dispatched last, no task is so any more. -/
theorem Sound.vacate (sound : o.Sound) {current : Option Handle} {spent : UInt32}
    (live : o.get? h = some task) (idle : task.flags.idle = false)
    (was : o.current = some h ∧ current = none ∨ o.current ≠ some h ∧ current = o.current) :
    { o.vacate h.index with current := current, sliceSpent := spent }.Sound := by
  have htask := sound.live live
  have hcases : ∀ {j t}, (o.vacate h.index).tenant j = some t →
      j ≠ h.index ∧ o.tenant j = some t :=
    fun ht => of_update_none ht
  have hget : ∀ {h' t}, o.get? h' = some t → h' ≠ h → (o.vacate h.index).get? h' = some t := by
    intro h' t ht hne
    rw [get?_vacate (sound.index_ne ht live hne.symm)]
    exact ht
  refine ⟨?tagged, ⟨?fits, ?current, ?idle, ?flagged⟩, ?inOrder, ?timed⟩
  case tagged => exact (sound.tagged.vacate htask).congr rfl rfl rfl rfl rfl rfl rfl
  case fits =>
    intro j t ht
    obtain ⟨hj, ht⟩ := hcases ht
    obtain ⟨h1, h2, h3, h4⟩ := sound.settled.fits ht
    refine ⟨h1, h2, ?_, h4⟩
    intro hunlinked
    -- a task on no list was dispatched last, so it cannot be another than the one that leaves
    have hcurrent := h3 hunlinked
    rcases was with ⟨hwas, -⟩ | ⟨-, hsame⟩
    · rw [hwas] at hcurrent
      have hindex : t.handle.index = j := by
        rw [sound.tagged.handle ht]
      rw [← Option.some.inj hcurrent] at hindex
      exact absurd hindex.symm hj
    · rw [← hsame] at hcurrent
      exact hcurrent
  case current =>
    intro h' hh'
    rcases was with ⟨-, hnone⟩ | ⟨hwas, hsame⟩
    · rw [hnone] at hh'
      cases hh'
    · rw [hsame] at hh'
      obtain ⟨t, ht⟩ := sound.settled.current hh'
      exact ⟨t, hget ht (fun heq => hwas (heq ▸ hh'))⟩
  case idle =>
    intro h' hh'
    obtain ⟨t, ht, hflag⟩ := sound.settled.idle hh'
    refine ⟨t, hget ht ?_, hflag⟩
    rintro rfl
    rw [live] at ht
    rw [← Option.some.inj ht, idle] at hflag
    exact Bool.noConfusion hflag
  case flagged =>
    intro j t ht
    exact sound.settled.flagged (hcases ht).2
  case inOrder =>
    exact fun c => pairwise_update (not_mem_filter_ne _ _) ((sound.inOrder c).filter _)
  case timed => exact fun ht => (sound.timed (hcases ht).2).congr rfl rfl

/-! ## Dispatching -/

/-- An outline in which every task is on a list stays sound when one of them is
    dispatched. -/
theorem Sound.dispatch (sound : o.Sound) (live : o.tenant i = some task)
    (linked : ∀ {j t}, o.tenant j = some t → t.place ≠ .unlinked) :
    (o.dispatch i task).Sound := by
  let task' : Task := { task with activity := .running, place := .unlinked }
  have hpriority : task.priority < o.settings.levels := sound.tagged.priority live
  have htagged : (o.reseat .back i task').Tagged :=
    sound.tagged.reseat .back live rfl hpriority (by rintro p ⟨⟩)
  have hcases : ∀ {j t}, (o.dispatch i task).tenant j = some t →
      (j = i ∧ t = task') ∨ (j ≠ i ∧ o.tenant j = some t) :=
    fun ht => of_update_some ht
  have hget := sound.tagged.get?_handle live
  have hindex : task.handle.index = i := by
    rw [sound.tagged.handle live]
  have hself : (o.dispatch i task).get? task.handle = some task' :=
    htagged.get?_handle (Function.update_self ..)
  -- the dispatched task is renamed nowhere, and no other is touched
  have hother : ∀ {h' t}, o.get? h' = some t → h' ≠ task.handle →
      (o.dispatch i task).get? h' = some t := by
    intro h' t ht hne
    have hi := sound.index_ne ht hget hne.symm
    rw [hindex] at hi
    rw [get?_dispatch hi]
    exact ht
  refine ⟨?tagged, ⟨?fits, ?current, ?idle, ?flagged⟩, ?inOrder, ?timed⟩
  case tagged => exact htagged.congr rfl rfl rfl rfl rfl rfl rfl
  case fits =>
    intro j t ht
    rcases hcases ht with ⟨-, rfl⟩ | ⟨-, ht⟩
    · exact ⟨rfl, (by rintro p ⟨⟩), (fun _ => rfl), (by rintro ⟨⟩)⟩
    · obtain ⟨h1, h2, -, h4⟩ := sound.settled.fits ht
      exact ⟨h1, h2, fun h => absurd h (linked ht), h4⟩
  case current =>
    intro h' hh'
    obtain rfl := Option.some.inj hh'
    exact ⟨task', hself⟩
  case idle =>
    intro h' hh'
    obtain ⟨t, ht, hflag⟩ := sound.settled.idle hh'
    by_cases hsame : h' = task.handle
    · subst hsame
      have hold := sound.live ht
      rw [hindex, live] at hold
      refine ⟨task', hself, ?_⟩
      rw [← Option.some.inj hold] at hflag
      exact hflag
    · exact ⟨t, hother ht hsame, hflag⟩
  case flagged =>
    intro j t ht hflag
    rcases hcases ht with ⟨-, rfl⟩ | ⟨-, ht⟩
    · have hidle : o.idle = some task.handle := sound.settled.flagged live hflag
      exact hidle
    · exact sound.settled.flagged ht hflag
  case inOrder => exact sound.inOrder.reseat .back i task'
  case timed =>
    intro j t ht
    rcases hcases ht with ⟨-, rfl⟩ | ⟨-, ht⟩
    · exact ⟨(by rintro ⟨⟩), (by rintro ⟨⟩)⟩
    · exact (sound.timed ht).congr rfl rfl

/-- An outline stays sound when the running task is put back, and then every task
    is on a list. -/
theorem Sound.putBack (sound : o.Sound) (side : Side) (running : o.runner = some task.handle)
    (live : o.get? task.handle = some task) :
    (o.putBack side task).Sound
      ∧ ∀ {j t}, (o.putBack side task).tenant j = some t → t.place ≠ .unlinked := by
  have htask := sound.live live
  have hpriority : task.priority < o.settings.levels := sound.tagged.priority htask
  have hunlinked := sound.runnerFree _ _ running live
  refine ⟨sound.reseat side htask rfl rfl hpriority ⟨rfl, ?_, ?_, ?_⟩ (timed_of_ne ?_), ?_⟩
  · exact fun p hp => (Place.ready.inj hp).symm
  · rintro ⟨⟩
  · rintro ⟨⟩
  · rintro c ⟨⟩
  · intro j t ht
    rcases of_update_some ht with ⟨-, rfl⟩ | ⟨hj, ht⟩
    · rintro ⟨⟩
    · exact fun hp => hj (sound.unlinked_unique ht htask hp hunlinked)

end Outline

end PriorityScheduler
