import PriorityScheduler.Proofs.Neighbours
import PriorityScheduler.Proofs.WellFormed

/-! # A table over its whole history

    A table keeps its slots, their generations, the vacant slots and the count of the
    live tasks side by side.  What all of them come to is told by the history alone.  A
    DEED is a request that was done: a task has entered under a handle, or the task of a
    handle was retired.  A task LIVES under a handle when it has entered under it and
    was not retired since.

    The table names a task by a handle exactly when the task lives under it, and the
    handle that a new task is given was never given before, unless the generation of the
    slot has come round. -/

namespace PriorityScheduler

namespace TaskTable

/-! ## Requests and deeds -/

/-- What can be asked of a table. -/
inductive Request where
  | enter (spec : TaskSpec) (flags : Flags)
  | retire (h : Handle)
  deriving DecidableEq, Repr

/-- A request that was done. -/
inductive Deed where
  | entered (h : Handle) (spec : TaskSpec) (flags : Flags)
  | retired (h : Handle)
  deriving DecidableEq, Repr

/-- Do what is asked. -/
def Request.run (t : TaskTable) : Request → Except Failure (Deed × TaskTable)
  | .enter spec flags => do
      let (h, t) ← t.enter spec flags
      return (.entered h spec flags, t)
  | .retire h => do
      let (_, t) ← t.retire h
      return (.retired h, t)

/-- The deeds, the latest first, and the table, after one more request.  One that is not
    done leaves both. -/
def proceed (s : List Deed × TaskTable) (r : Request) : List Deed × TaskTable :=
  match r.run s.2 with
  | .ok (deed, t) => (deed :: s.1, t)
  | .error _ => s

/-- The deeds, the latest first, and the table that requests to an empty one lead to. -/
def history (capacity levels : Nat) (requests : List Request) : List Deed × TaskTable :=
  requests.foldl proceed ([], empty capacity levels)

/-- A task has entered under a handle and was not retired since. -/
def Lives (log : List Deed) (h : Handle) (task : Task) : Prop :=
  ∃ later earlier spec flags, log = later ++ .entered h spec flags :: earlier
    ∧ .retired h ∉ later ∧ task = .ofSpec spec flags h

/-- How often the slot of a deed was vacated by it. -/
def Deed.vacates (i : Nat) : Deed → Bool
  | .entered .. => false
  | .retired h => h.index == i

/-- How often a slot was vacated. -/
def retirements (i : Nat) (log : List Deed) : Nat :=
  log.countP (Deed.vacates i)

/-- The handle that was given for a deed. -/
def Deed.gives : Deed → Option Handle
  | .entered h _ _ => some h
  | .retired _ => none

/-- The handles that were given. -/
def given (log : List Deed) : List Handle :=
  log.filterMap Deed.gives

section Logs

variable {log : List Deed} {h h' : Handle} {task : Task} {spec : TaskSpec} {flags : Flags} {i : Nat}

theorem not_lives_nil : ¬ Lives [] h task := by
  rintro ⟨later, earlier, spec, flags, hlog, -⟩
  cases later <;> cases hlog

/-- A task that enters lives, and so do those that lived before. -/
theorem lives_entered : Lives (.entered h' spec flags :: log) h task
    ↔ (h = h' ∧ task = .ofSpec spec flags h') ∨ Lives log h task := by
  constructor
  · rintro ⟨later, earlier, spec', flags', hlog, hkept, rfl⟩
    cases later with
    | nil =>
        obtain ⟨hdeed, -⟩ := List.cons.inj hlog
        obtain ⟨rfl, rfl, rfl⟩ := Deed.entered.inj hdeed
        exact Or.inl ⟨rfl, rfl⟩
    | cons deed later =>
        obtain ⟨rfl, rfl⟩ := List.cons.inj hlog
        have hkept' : .retired h ∉ later := fun hmem => hkept (List.mem_cons_of_mem _ hmem)
        exact Or.inr ⟨later, earlier, spec', flags', rfl, hkept', rfl⟩
  · rintro (⟨rfl, rfl⟩ | ⟨later, earlier, spec', flags', rfl, hkept, rfl⟩)
    · exact ⟨[], log, spec, flags, rfl, List.not_mem_nil, rfl⟩
    · refine ⟨.entered h' spec flags :: later, earlier, spec', flags', rfl, ?_, rfl⟩
      rw [List.mem_cons, not_or]
      exact ⟨(by rintro ⟨⟩), hkept⟩

/-- A task that is retired lives no more, and all others live as before. -/
theorem lives_retired : Lives (.retired h' :: log) h task ↔ h ≠ h' ∧ Lives log h task := by
  constructor
  · rintro ⟨later, earlier, spec, flags, hlog, hkept, rfl⟩
    cases later with
    | nil => cases hlog
    | cons deed later =>
        obtain ⟨rfl, rfl⟩ := List.cons.inj hlog
        rw [List.mem_cons, not_or] at hkept
        refine ⟨fun heq => hkept.1 (congrArg Deed.retired heq), later, earlier, spec, flags, rfl,
          hkept.2, rfl⟩
  · rintro ⟨hne, later, earlier, spec, flags, rfl, hkept, rfl⟩
    refine ⟨.retired h' :: later, earlier, spec, flags, rfl, ?_, rfl⟩
    rw [List.mem_cons, not_or]
    exact ⟨fun heq => hne (Deed.retired.inj heq), hkept⟩

theorem Lives.given (lives : Lives log h task) : h ∈ given log := by
  obtain ⟨later, earlier, spec, flags, rfl, -, -⟩ := lives
  exact List.mem_filterMap.mpr
    ⟨.entered h spec flags, List.mem_append_right _ List.mem_cons_self, rfl⟩

theorem retirements_entered : retirements i (.entered h spec flags :: log) = retirements i log :=
  List.countP_cons_of_neg (by rintro ⟨⟩)

theorem retirements_retired_self :
    retirements h.index (.retired h :: log) = retirements h.index log + 1 :=
  List.countP_cons_of_pos (beq_self_eq_true _)

theorem retirements_retired_of_ne (ne : i ≠ h.index) :
    retirements i (.retired h :: log) = retirements i log := by
  refine List.countP_cons_of_neg ?_
  show ¬ (h.index == i) = true
  rw [beq_iff_eq]
  exact Ne.symm ne

/-- No slot loses a retirement. -/
theorem retirements_le (i : Nat) (deed : Deed) (log : List Deed) :
    retirements i log ≤ retirements i (deed :: log) :=
  (List.sublist_cons_self deed log).countP_le

end Logs

/-! ## A table without lists -/

/-- The outline of a table whose tasks are on no list. -/
def bare (t : TaskTable) : Outline :=
  { (Kernel.initial { levels := t.levels, capacity := t.capacity }).outline with
    size := t.slots.size
    generation := t.generationAt
    tenant := t.tenant?
    vacant := t.vacant
    liveCount := t.liveCount
    row := fun _ => [] }

variable {t t' : TaskTable} {h : Handle} {task : Task} {spec : TaskSpec} {flags : Flags} {i : Nat}

theorem get?_bare (t : TaskTable) (h : Handle) : t.get? h = t.bare.get? h :=
  t.get?_eq h

theorem tagged_empty (capacity levels : Nat) : (empty capacity levels).bare.Tagged :=
  Kernel.tagged_of_empty rfl (fun _ => rfl) rfl rfl fun _ => rfl

/-- A table with the settings of another differs from it in its slots at most. -/
theorem bare_eq (capacity : t'.capacity = t.capacity) (levels : t'.levels = t.levels) :
    t'.bare = { t.bare with
      size := t'.slots.size
      generation := t'.generationAt
      tenant := t'.tenant?
      vacant := t'.vacant
      liveCount := t'.liveCount } := by
  simp only [bare, capacity, levels]

/-- What a table is whose outline is known, if its settings are those of another. -/
theorem of_bare {o : Outline} (bare : t'.bare = o) (settings : o.settings = t.bare.settings) :
    t'.capacity = t.capacity ∧ t'.levels = t.levels ∧ t'.generationAt = o.generation
      ∧ t'.tenant? = o.tenant ∧ t'.slots.size = o.size := by
  have hsettings : t'.bare.settings = t.bare.settings := by rw [bare, settings]
  exact ⟨congrArg Settings.capacity hsettings, congrArg Settings.levels hsettings,
    congrArg Outline.generation bare, congrArg Outline.tenant bare, congrArg Outline.size bare⟩

section Tables

variable (tagged : t.bare.Tagged)

include tagged

/-- In a table without lists no task is on one. -/
theorem unlinked_of_bare (live : t.tenant? i = some task) : task.place = .unlinked := by
  refine Classical.byContradiction fun hlinked => ?_
  have hmem := (tagged.mem_row task.place i).mpr ⟨hlinked, task, live, rfl⟩
  cases hmem

/-! ## What is done, and what is refused -/

/-- A task that enters moves into the vacancy. -/
theorem enter_bare (sized : t.links.size = t.slots.size) (priority : spec.priority < t.levels)
    (begins : spec.begins = .ready ∨ spec.begins = .suspended) (flags : Flags)
    (vacancy : t.bare.vacancy = some i) :
    ∃ t', t.enter spec flags = .ok (⟨i, t.generationAt i⟩, t')
      ∧ t'.bare = t.bare.occupy i (.ofSpec spec flags ⟨i, t.generationAt i⟩)
      ∧ t'.links.size = t'.slots.size := by
  have hroom : t.Room i := by
    rcases tagged.vacancy_cases vacancy with ⟨rest, hv, hlt, -⟩ | ⟨hv, hi, hlt, -⟩
    · exact Or.inl ⟨rest, hv, hlt⟩
    · exact Or.inr ⟨hv, hi, hlt⟩
  obtain ⟨t', hrun, htenant, hgen, hsize, hvacant, hlive, hcap, hlev, hlinks, -⟩ :=
    enter_ok flags priority begins hroom sized
  refine ⟨t', hrun, ?_, hlinks⟩
  rw [bare_eq hcap hlev, hsize, hgen, htenant, hvacant, hlive]
  rfl

omit tagged in
/-- No task enters when there is no vacancy. -/
theorem enter_bare_full (priority : spec.priority < t.levels)
    (begins : spec.begins = .ready ∨ spec.begins = .suspended) (flags : Flags)
    (full : t.bare.vacancy = none) : t.enter spec flags = .error (.refused .tableFull) := by
  obtain ⟨hvacant, hfull⟩ := t.bare.vacancy_eq_none_iff.mp full
  exact enter_full priority begins hvacant hfull

/-- The task that a handle names is retired, and its slot is vacated. -/
theorem retire_bare (sized : t.links.size = t.slots.size) (live : t.get? h = some task) :
    ∃ t', t.retire h = .ok ({ task with activity := .deleted }, t')
      ∧ t'.bare = t.bare.vacate h.index ∧ t'.links.size = t'.slots.size := by
  have htask := tenant?_of_get? live
  obtain ⟨t', hrun, htenant, hgen, hsize, hvacant, hlive, hcap, hlev, hlinks, -⟩ :=
    retire_ok live (unlinked_of_bare tagged htask) (tagged.live_pos htask)
  refine ⟨t', hrun, ?_, by rw [hlinks, hsize, sized]⟩
  rw [bare_eq hcap hlev, hsize, hgen, htenant, hvacant, hlive]
  rfl

end Tables

/-- A handle that names no task is refused. -/
theorem retire_dead (dead : t.get? h = none) : t.retire h = .error (.refused .unknownHandle) := by
  simp only [retire, find_error dead]
  rfl

/-- A task that has entered had a priority that exists, and began as a task can. -/
theorem of_enter_ok (done : t.enter spec flags = .ok (h, t')) :
    spec.priority < t.levels ∧ (spec.begins = .ready ∨ spec.begins = .suspended) := by
  simp only [enter] at done
  by_cases hpriority : t.levels ≤ spec.priority
  · rw [if_pos hpriority] at done
    cases done
  rw [if_neg hpriority] at done
  by_cases hbegins : spec.begins ≠ .ready ∧ spec.begins ≠ .suspended
  · rw [if_pos hbegins] at done
    cases done
  rw [not_and_or, not_not, not_not] at hbegins
  exact ⟨Nat.lt_of_not_le hpriority, hbegins⟩

/-! ## What the history tells -/

/-- What a table is by its history: besides the agreement of its parts, the generation of
    a slot counts the retirements there, the handles name the tasks that live under them,
    and every slot is known to the history.  As long as no generation has come round, the
    handles that were given are distinct, and an empty slot has outgrown those that were
    given for it. -/
structure Tenancy (capacity levels : Nat) (log : List Deed) (t : TaskTable) : Prop where
  capacity : t.capacity = capacity
  levels : t.levels = levels
  tagged : t.bare.Tagged
  sized : t.links.size = t.slots.size
  room : t.slots.size ≤ t.capacity
  generation : ∀ i, t.generationAt i = UInt32.ofNat (retirements i log)
  named : ∀ h task, t.get? h = some task ↔ Lives log h task
  given : ∀ h ∈ given log, h.index < t.slots.size
  retired : ∀ h, .retired h ∈ log → h.index < t.slots.size
  left : ∀ i, i < t.slots.size → t.tenant? i = none → ∃ h, .retired h ∈ log ∧ h.index = i
  outgrown : (∀ i, retirements i log < 2 ^ 32) → ∀ h ∈ TaskTable.given log,
    h.generation.toNat < retirements h.index log
      ∨ h.generation.toNat = retirements h.index log ∧ t.tenant? h.index ≠ none
  nodup : (∀ i, retirements i log < 2 ^ 32) → (TaskTable.given log).Nodup

/-- An empty table has no history. -/
theorem tenancy_empty (capacity levels : Nat) :
    Tenancy capacity levels [] (empty capacity levels) where
  capacity := rfl
  levels := rfl
  tagged := tagged_empty capacity levels
  sized := rfl
  room := Nat.zero_le _
  generation := fun _ => rfl
  named := fun _ _ => iff_of_false (by rintro ⟨⟩) not_lives_nil
  given := by rintro h ⟨⟩
  retired := by rintro h ⟨⟩
  left := fun i hi => absurd hi (Nat.not_lt_zero i)
  outgrown := by rintro - h ⟨⟩
  nodup := fun _ => List.nodup_nil

section Steps

variable {capacity levels : Nat} {log : List Deed} (tenancy : Tenancy capacity levels log t)

include tenancy

/-- The slot of the vacancy was outgrown by all handles that were given for it, as long as
    no generation has come round. -/
theorem Tenancy.fresh (few : ∀ i, retirements i log < 2 ^ 32) (empty : t.tenant? i = none) :
    ⟨i, t.generationAt i⟩ ∉ TaskTable.given log := by
  intro hmem
  rcases tenancy.outgrown few _ hmem with hlt | ⟨-, hlive⟩
  · have hgeneration : (t.generationAt i).toNat = retirements i log := by
      rw [tenancy.generation, UInt32.toNat_ofNat_of_lt' (few i)]
    exact absurd hlt (hgeneration ▸ Nat.lt_irrefl _)
  · exact hlive empty

section Entering

variable (vacancy : t.bare.vacancy = some i)
  (bare : t'.bare = t.bare.occupy i (.ofSpec spec flags ⟨i, t.generationAt i⟩))

include vacancy bare

/-- A task that enters is named by its new handle, and the other handles name what they
    named. -/
theorem Tenancy.get?_enter (priority : spec.priority < t.levels) :
    t'.bare.Tagged ∧ t'.get? ⟨i, t.generationAt i⟩ = some (.ofSpec spec flags ⟨i, t.generationAt i⟩)
      ∧ ∀ h', h' ≠ ⟨i, t.generationAt i⟩ → t'.get? h' = t.get? h' := by
  have htagged : t'.bare.Tagged := by
    rw [bare]
    exact tenancy.tagged.occupy vacancy rfl priority rfl
  refine ⟨htagged, ?_, ?_⟩
  · rw [get?_bare, bare]
    exact Kernel.get?_occupy t.bare spec flags i
  · intro h' hne
    have htouches : Outline.TouchesOnly [⟨i, t.generationAt i⟩] t.bare t'.bare := by
      refine Outline.Confined.touchesOnly ?_ tenancy.tagged htagged rfl
      rw [bare]
      exact t.bare.confined_occupy i _
    rw [get?_bare, get?_bare]
    exact htouches.tasks h' (fun hmem => hne (List.mem_singleton.mp hmem))

/-- There is room for the task that enters. -/
theorem Tenancy.room_enter : t'.slots.size ≤ t'.capacity := by
  obtain ⟨hcapacity, -, -, -, (hsize : t'.slots.size = max t.slots.size (i + 1))⟩ :=
    of_bare bare rfl
  have hroom := tenancy.room
  rw [hcapacity, hsize]
  rcases tenancy.tagged.vacancy_cases vacancy with ⟨-, -, hlt, -⟩ | ⟨-, hi, hlt, -⟩
  · have hlt' : i < t.slots.size := hlt
    omega
  · have hi' : i = t.slots.size := hi
    have hlt' : t.slots.size < t.capacity := hlt
    omega

/-- A task lives under its handle from when it enters. -/
theorem Tenancy.named_enter (priority : spec.priority < t.levels) : t'.get? h = some task
    ↔ Lives (.entered ⟨i, t.generationAt i⟩ spec flags :: log) h task := by
  obtain ⟨-, hself, hothers⟩ := tenancy.get?_enter vacancy bare priority
  rw [lives_entered, ← tenancy.named]
  by_cases hh : h = ⟨i, t.generationAt i⟩
  · subst hh
    have hdead : t.get? ⟨i, t.generationAt i⟩ = none := by
      rw [get?_eq, if_pos rfl]
      exact tenancy.tagged.tenant_vacancy vacancy
    simp [hself, hdead, eq_comm]
  · rw [hothers h hh]
    simp [hh]

/-- A slot that is empty after a task has entered was empty before. -/
theorem Tenancy.left_enter {j : Nat} (lt : j < t'.slots.size) (empty : t'.tenant? j = none) :
    ∃ h, .retired h ∈ log ∧ h.index = j := by
  obtain ⟨-, -, -, (htenant : t'.tenant? = Function.update t.tenant? i (some _)),
    (hsize : t'.slots.size = max t.slots.size (i + 1))⟩ := of_bare bare rfl
  have hne : j ≠ i := by
    rintro rfl
    rw [htenant, Function.update_self] at empty
    cases empty
  rw [htenant, Function.update_of_ne hne] at empty
  have hold : j < t.slots.size := by
    rcases tenancy.tagged.vacancy_cases vacancy with ⟨-, -, hlt, -⟩ | ⟨-, hi, -, -⟩
    · have hlt' : i < t.slots.size := hlt
      omega
    · have hi' : i = t.slots.size := hi
      omega
  exact tenancy.left j hold empty

/-- The new handle has the generation of its slot, and the slot is not empty. -/
theorem Tenancy.outgrown_enter (few : ∀ i, retirements i log < 2 ^ 32) {h : Handle}
    (given : h ∈ TaskTable.given (.entered ⟨i, t.generationAt i⟩ spec flags :: log)) :
    h.generation.toNat < retirements h.index log
      ∨ h.generation.toNat = retirements h.index log ∧ t'.tenant? h.index ≠ none := by
  obtain ⟨-, -, -, (htenant : t'.tenant? = Function.update t.tenant? i (some _)), -⟩ :=
    of_bare bare rfl
  rw [htenant]
  rcases List.mem_cons.mp given with rfl | hold
  · refine Or.inr ⟨?_, ?_⟩
    · show (t.generationAt i).toNat = retirements i log
      rw [tenancy.generation, UInt32.toNat_ofNat_of_lt' (few i)]
    · rw [Function.update_self]
      rintro ⟨⟩
  · -- the slot that is entered was empty, so a handle not yet outgrown is of another slot
    refine (tenancy.outgrown few h hold).imp id fun ⟨hsame, hlive⟩ => ⟨hsame, ?_⟩
    have hne : h.index ≠ i := by
      rintro rfl
      exact hlive (tenancy.tagged.tenant_vacancy vacancy)
    rw [Function.update_of_ne hne]
    exact hlive

/-- The history of a table goes on with a task that enters. -/
theorem Tenancy.entered (priority : spec.priority < t.levels)
    (sized : t'.links.size = t'.slots.size) :
    Tenancy capacity levels (.entered ⟨i, t.generationAt i⟩ spec flags :: log) t' := by
  obtain ⟨hcapacity, hlevels, hgeneration, -,
    (hsize : t'.slots.size = max t.slots.size (i + 1))⟩ := of_bare bare rfl
  constructor
  case capacity => exact hcapacity.trans tenancy.capacity
  case levels => exact hlevels.trans tenancy.levels
  case tagged => exact (tenancy.get?_enter vacancy bare priority).1
  case sized => exact sized
  case room => exact tenancy.room_enter vacancy bare
  case generation =>
    intro j
    rw [hgeneration, retirements_entered]
    exact tenancy.generation j
  case named => exact fun _ _ => tenancy.named_enter vacancy bare priority
  case given =>
    intro h' hmem
    rcases List.mem_cons.mp hmem with rfl | hmem
    · show i < t'.slots.size
      omega
    · have := tenancy.given h' hmem
      omega
  case retired =>
    intro h' hmem
    have := tenancy.retired h' ((List.mem_cons.mp hmem).resolve_left (by rintro ⟨⟩))
    omega
  case left =>
    intro j hj hnone
    obtain ⟨h', hmem, hindex⟩ := tenancy.left_enter vacancy bare hj hnone
    exact ⟨h', List.mem_cons_of_mem _ hmem, hindex⟩
  case outgrown =>
    intro few h' hmem
    simp only [retirements_entered] at few ⊢
    exact tenancy.outgrown_enter vacancy bare few hmem
  case nodup =>
    intro few
    simp only [retirements_entered] at few
    -- an empty slot has outgrown every handle that was given of it
    have hfresh := tenancy.fresh few (tenancy.tagged.tenant_vacancy vacancy)
    exact List.nodup_cons.mpr ⟨hfresh, tenancy.nodup few⟩

end Entering

/-- A task enters, and has a handle that no live task has. -/
theorem Tenancy.enter (done : t.enter spec flags = .ok (h, t')) :
    Tenancy capacity levels (.entered h spec flags :: log) t'
      ∧ t.tenant? h.index = none ∧ t.generationAt h.index = h.generation
      ∧ ∀ h', h' ≠ h → t'.get? h' = t.get? h' := by
  obtain ⟨hpriority, hbegins⟩ := of_enter_ok done
  cases hvacancy : t.bare.vacancy with
  | none =>
      rw [enter_bare_full hpriority hbegins flags hvacancy] at done
      cases done
  | some i =>
      obtain ⟨t₁, hrun, hbare, hsized⟩ :=
        enter_bare tenancy.tagged tenancy.sized hpriority hbegins flags hvacancy
      obtain ⟨rfl, rfl⟩ := Prod.mk.inj (Except.ok.inj (hrun.symm.trans done))
      obtain ⟨-, -, hothers⟩ := tenancy.get?_enter hvacancy hbare hpriority
      exact ⟨tenancy.entered hvacancy hbare hpriority hsized,
        tenancy.tagged.tenant_vacancy hvacancy, rfl, hothers⟩

section Retiring

variable (live : t.get? h = some task) (bare : t'.bare = t.bare.vacate h.index)

include live bare

/-- A task that is retired lives no more under its handle. -/
theorem Tenancy.named_retire {h' : Handle} {task' : Task} :
    t'.get? h' = some task' ↔ Lives (.retired h :: log) h' task' := by
  obtain ⟨-, -, -, (htenant : t'.tenant? = Function.update t.tenant? h.index none), -⟩ :=
    of_bare bare rfl
  rw [lives_retired, ← tenancy.named]
  by_cases hh : h' = h
  · subst hh
    have hdead : t'.get? h' = none := by
      rw [get?_eq, htenant, Function.update_self]
      exact ite_self _
    simp [hdead]
  · have htouches : Outline.TouchesOnly [h] t.bare t'.bare := by
      rw [get?_bare] at live
      rw [bare]
      exact (t.bare.confined_vacate h.index).touchesOnly tenancy.tagged
        (tenancy.tagged.vacate (tenancy.tagged.get?_eq_some.mp live).1)
        (Outline.generation_of_get? live)
    have hsame := htouches.tasks h' (fun hmem => hh (List.mem_singleton.mp hmem))
    rw [← get?_bare, ← get?_bare] at hsame
    simp [hsame, hh]

omit live in
/-- The generation of the slot goes up by one. -/
theorem Tenancy.generation_retire (j : Nat) :
    t'.generationAt j = UInt32.ofNat (retirements j (.retired h :: log)) := by
  have hgeneration : t'.generationAt
      = Function.update t.generationAt h.index (t.generationAt h.index + 1) :=
    (of_bare bare rfl).2.2.1
  rw [hgeneration, Function.update_apply]
  by_cases hj : j = h.index
  · rw [if_pos hj, hj, retirements_retired_self, tenancy.generation, UInt32.ofNat_add]
    rfl
  · rw [if_neg hj, retirements_retired_of_ne hj]
    exact tenancy.generation j

omit live in
/-- The slot has outgrown all handles that were given for it. -/
theorem Tenancy.outgrown_retire (few : ∀ i, retirements i (.retired h :: log) < 2 ^ 32)
    {h' : Handle} (given : h' ∈ TaskTable.given log) :
    h'.generation.toNat < retirements h'.index (.retired h :: log)
      ∨ h'.generation.toNat = retirements h'.index (.retired h :: log)
        ∧ t'.tenant? h'.index ≠ none := by
  obtain ⟨-, -, -, (htenant : t'.tenant? = Function.update t.tenant? h.index none), -⟩ :=
    of_bare bare rfl
  have few' : ∀ i, retirements i log < 2 ^ 32 :=
    fun i => Nat.lt_of_le_of_lt (retirements_le i _ log) (few i)
  have hbefore := tenancy.outgrown few' h' given
  by_cases hindex : h'.index = h.index
  · rw [hindex] at hbefore ⊢
    rw [retirements_retired_self]
    omega
  · rw [retirements_retired_of_ne hindex, htenant, Function.update_of_ne hindex]
    exact hbefore

/-- The history of a table goes on with a task that is retired. -/
theorem Tenancy.vacated (sized : t'.links.size = t'.slots.size) :
    Tenancy capacity levels (.retired h :: log) t' := by
  obtain ⟨hcapacity, hlevels, -, (htenant : t'.tenant? = Function.update t.tenant? h.index none),
    (hsize : t'.slots.size = t.slots.size)⟩ := of_bare bare rfl
  have htask := tenant?_of_get? live
  constructor
  case capacity => exact hcapacity.trans tenancy.capacity
  case levels => exact hlevels.trans tenancy.levels
  case tagged =>
    rw [bare]
    exact tenancy.tagged.vacate htask
  case sized => exact sized
  case room =>
    rw [hsize, hcapacity]
    exact tenancy.room
  case generation => exact tenancy.generation_retire bare
  case named => exact fun _ _ => tenancy.named_retire live bare
  case given =>
    intro h' hmem
    rw [hsize]
    exact tenancy.given h' hmem
  case retired =>
    intro h' hmem
    rw [hsize]
    rcases List.mem_cons.mp hmem with heq | hmem
    · obtain rfl := Deed.retired.inj heq
      exact lt_of_tenant? htask
    · exact tenancy.retired h' hmem
  case left =>
    intro j hj hnone
    -- the slot that is left has this deed to show for it, any other an earlier one
    by_cases hindex : j = h.index
    · exact ⟨h, List.mem_cons_self, hindex.symm⟩
    · rw [htenant, Function.update_of_ne hindex] at hnone
      obtain ⟨h', hmem, hindex'⟩ := tenancy.left j (hsize ▸ hj) hnone
      exact ⟨h', List.mem_cons_of_mem _ hmem, hindex'⟩
  case outgrown => exact fun few _ hmem => tenancy.outgrown_retire bare few hmem
  case nodup =>
    intro few
    exact tenancy.nodup fun i => Nat.lt_of_le_of_lt (retirements_le i _ log) (few i)

end Retiring

/-- A task is retired, and no other is touched. -/
theorem Tenancy.retire (done : t.retire h = .ok (task, t')) :
    Tenancy capacity levels (.retired h :: log) t' := by
  cases hget : t.get? h with
  | none =>
      rw [retire_dead hget] at done
      cases done
  | some task₀ =>
      obtain ⟨t₁, hrun, hbare, hsized⟩ := retire_bare tenancy.tagged tenancy.sized hget
      obtain ⟨rfl, rfl⟩ := Prod.mk.inj (Except.ok.inj (hrun.symm.trans done))
      exact tenancy.vacated hget hbare hsized

/-- One more request is told by the history as well. -/
theorem Tenancy.proceed (r : Request) :
    Tenancy capacity levels (TaskTable.proceed (log, t) r).1 (TaskTable.proceed (log, t) r).2 := by
  cases r with
  | enter spec flags =>
      simp only [TaskTable.proceed, Request.run]
      cases hrun : t.enter spec flags with
      | ok r => exact (tenancy.enter hrun).1
      | error e => exact tenancy
  | retire h =>
      simp only [TaskTable.proceed, Request.run]
      cases hrun : t.retire h with
      | ok r => exact tenancy.retire hrun
      | error e => exact tenancy

end Steps

/-- Whatever is asked of a table, it is told by its history. -/
theorem tenancy_history (capacity levels : Nat) (requests : List Request) :
    Tenancy capacity levels (history capacity levels requests).1
      (history capacity levels requests).2 := by
  have hrun : ∀ (requests : List Request) (s : List Deed × TaskTable),
      Tenancy capacity levels s.1 s.2 →
        Tenancy capacity levels (requests.foldl proceed s).1 (requests.foldl proceed s).2 := by
    intro requests
    induction requests with
    | nil => exact fun s tenancy => tenancy
    | cons r rest ih =>
        intro s tenancy
        exact ih (proceed s r) (tenancy.proceed r)
  exact hrun requests _ (tenancy_empty capacity levels)

/-! ## What a table does, by its history -/

/-- A table of a capacity and a number of levels does what its history tells. -/
structure Registers (capacity levels : Nat) (log : List Deed) (t : TaskTable) : Prop where
  /-- A handle names the task that lives under it, and no other. -/
  named : ∀ h task, t.get? h = some task ↔ Lives log h task
  contained : ∀ h, t.contains h = true ↔ ∃ task, Lives log h task
  /-- A task that lives can be retired. -/
  retires : ∀ h task, Lives log h task →
    ∃ t', t.retire h = .ok ({ task with activity := .deleted }, t')
  /-- Any other handle is refused. -/
  refuses : ∀ h, (∀ task, ¬ Lives log h task) →
    t.find h = .error (.refused .unknownHandle) ∧ t.retire h = .error (.refused .unknownHandle)
  /-- A task that may enter does, as long as not all slots are taken. -/
  enters : ∀ spec flags, spec.priority < levels → spec.begins = .ready ∨ spec.begins = .suspended →
    t.liveCount < capacity ∧ (∃ h t', t.enter spec flags = .ok (h, t'))
      ∨ t.liveCount = capacity ∧ t.enter spec flags = .error (.refused .tableFull)
  /-- It has a handle that was never given before, and the others are not touched. -/
  fresh : ∀ spec flags h t', t.enter spec flags = .ok (h, t') →
    h ∉ given log ∧ h.index < capacity ∧ ∀ h', h' ≠ h → t'.get? h' = t.get? h'
  distinct : (given log).Nodup
  /-- The live tasks are counted. -/
  counted : t.liveCount = t.tasks.length
  living : t.liveCount = ((given log).filter t.contains).length
  /-- The vacant slots are those that were vacated and not taken since, each once. -/
  vacantOnce : t.vacant.Nodup
  vacant : ∀ i, i ∈ t.vacant
    ↔ (∃ h, .retired h ∈ log ∧ h.index = i) ∧ ∀ h task, Lives log h task → h.index ≠ i

section Reading

variable {capacity levels : Nat} {log : List Deed} (tenancy : Tenancy capacity levels log t)

include tenancy

theorem Tenancy.contains_iff : t.contains h = true ↔ ∃ task, Lives log h task := by
  simp only [contains, Option.isSome_iff_exists, tenancy.named]

/-- A task that may enter does, exactly as long as not all slots are taken. -/
theorem Tenancy.enters (flags : Flags) (priority : spec.priority < levels)
    (begins : spec.begins = .ready ∨ spec.begins = .suspended) :
    t.liveCount < capacity ∧ (∃ h t', t.enter spec flags = .ok (h, t'))
      ∨ t.liveCount = capacity ∧ t.enter spec flags = .error (.refused .tableFull) := by
  have hroom := tenancy.room
  rw [← tenancy.levels] at priority
  rw [← tenancy.capacity]
  -- live tasks and free slots make up the slots, which decides both cases
  have hlive : t.liveCount + t.vacant.length = t.slots.size := tenancy.tagged.live
  cases hvacancy : t.bare.vacancy with
  | none =>
      obtain ⟨hvacant, hfull⟩ := t.bare.vacancy_eq_none_iff.mp hvacancy
      have hnone : t.vacant = [] := hvacant
      have hfull' : ¬ t.slots.size < t.capacity := hfull
      rw [hnone, List.length_nil] at hlive
      exact Or.inr ⟨by omega, enter_bare_full priority begins flags hvacancy⟩
  | some i =>
      obtain ⟨t', hrun, -, -⟩ :=
        enter_bare tenancy.tagged tenancy.sized priority begins flags hvacancy
      refine Or.inl ⟨?_, _, t', hrun⟩
      rcases tenancy.tagged.vacancy_cases hvacancy with ⟨rest, hv, -, -⟩ | ⟨hv, -, hlt, -⟩
      · have hcons : t.vacant = i :: rest := hv
        rw [hcons, List.length_cons] at hlive
        omega
      · have hnone : t.vacant = [] := hv
        have hlt' : t.slots.size < t.capacity := hlt
        rw [hnone, List.length_nil] at hlive
        omega

/-- The live tasks go by the handles that were given and still name a task. -/
theorem Tenancy.living (distinct : (TaskTable.given log).Nodup) :
    t.tasks.length = ((TaskTable.given log).filter t.contains).length := by
  have hnodup : (t.tasks.map Task.handle).Nodup := t.nodup_handles tenancy.tagged.handle
  rw [← List.length_map (f := Task.handle)]
  refine ((List.perm_ext_iff_of_nodup hnodup (distinct.filter _)).mpr fun h => ?_).length_eq
  rw [List.mem_filter, List.mem_map, tasks_eq]
  constructor
  · rintro ⟨task, hmem, rfl⟩
    obtain ⟨i, -, htask⟩ := List.mem_filterMap.mp hmem
    have hget : t.get? task.handle = some task := by
      rw [get?_bare]
      exact tenancy.tagged.get?_handle htask
    have hlives := (tenancy.named _ _).mp hget
    exact ⟨hlives.given, tenancy.contains_iff.mpr ⟨task, hlives⟩⟩
  · rintro ⟨-, hcontains⟩
    obtain ⟨task, hlives⟩ := tenancy.contains_iff.mp hcontains
    have hget := (tenancy.named h task).mpr hlives
    have htask := tenant?_of_get? hget
    rw [get?_bare] at hget
    refine ⟨task, List.mem_filterMap.mpr ⟨h.index, ?_, htask⟩, ?_⟩
    · exact List.mem_range.mpr (lt_of_tenant? htask)
    · exact (tenancy.tagged.get?_eq_some.mp hget).2

/-- A slot is vacant when it was vacated and no task lives in it. -/
theorem Tenancy.mem_vacant : i ∈ t.vacant
    ↔ (∃ h, .retired h ∈ log ∧ h.index = i) ∧ ∀ h task, Lives log h task → h.index ≠ i := by
  have hvacant : i ∈ t.vacant ↔ i < t.slots.size ∧ t.tenant? i = none :=
    tenancy.tagged.mem_vacant i
  rw [hvacant]
  constructor
  · rintro ⟨hlt, hnone⟩
    refine ⟨tenancy.left i hlt hnone, ?_⟩
    rintro h task hlives rfl
    rw [tenant?_of_get? ((tenancy.named h task).mpr hlives)] at hnone
    cases hnone
  · rintro ⟨⟨h, hretired, rfl⟩, hempty⟩
    refine ⟨tenancy.retired h hretired, ?_⟩
    cases htask : t.tenant? h.index with
    | none => rfl
    | some task =>
        have hhandle : task.handle = ⟨h.index, t.generationAt h.index⟩ :=
          tenancy.tagged.handle htask
        have hget : t.get? task.handle = some task := by
          rw [get?_bare]
          exact tenancy.tagged.get?_handle htask
        refine absurd ?_ (hempty _ task ((tenancy.named _ _).mp hget))
        rw [hhandle]

/-- As long as no generation has come round, a table does what its history tells. -/
theorem Tenancy.registers (few : ∀ i, retirements i log < 2 ^ 32) :
    Registers capacity levels log t where
  named := tenancy.named
  contained := fun _ => tenancy.contains_iff
  retires := by
    intro h task hlives
    obtain ⟨t', hrun, -, -⟩ :=
      retire_bare tenancy.tagged tenancy.sized ((tenancy.named h task).mpr hlives)
    exact ⟨t', hrun⟩
  refuses := by
    intro h hdead
    have hget : t.get? h = none :=
      Option.eq_none_iff_forall_ne_some.mpr fun task hlive =>
        hdead task ((tenancy.named h task).mp hlive)
    exact ⟨find_error hget, retire_dead hget⟩
  enters := fun _ flags priority begins => tenancy.enters flags priority begins
  fresh := by
    intro spec flags h t' done
    obtain ⟨htenancy, hempty, hgeneration, hothers⟩ := tenancy.enter done
    refine ⟨?_, ?_, hothers⟩
    · have hfresh := tenancy.fresh few hempty
      rw [hgeneration] at hfresh
      exact hfresh
    · have hlt := htenancy.given h List.mem_cons_self
      have hroom := htenancy.room
      have hcapacity := htenancy.capacity
      omega
  distinct := tenancy.nodup few
  counted :=
    t.liveCount_eq tenancy.tagged.vacant_nodup tenancy.tagged.mem_vacant tenancy.tagged.live
  living := by
    rw [t.liveCount_eq tenancy.tagged.vacant_nodup tenancy.tagged.mem_vacant tenancy.tagged.live]
    exact tenancy.living (tenancy.nodup few)
  vacantOnce := tenancy.tagged.vacant_nodup
  vacant := fun _ => tenancy.mem_vacant

end Reading

end TaskTable

end PriorityScheduler
