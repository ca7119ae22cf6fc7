import PriorityScheduler.Proofs.Frames
import PriorityScheduler.Proofs.Postponing

/-! # No switch is forgotten, on outlines

    A switch is due when a ready task is above the running one, or when the
    running one is to be sent behind its peers.  An outline is PROMPT when it has
    the mark of a switch whenever one is due.

    Every choice leaves a prompt outline behind.  A call that makes no choice can
    only make a switch due where it compares priorities, and there it leaves the
    mark; a tick of an open scheduler answers instead, and its caller has to see
    to the choice. -/

namespace PriorityScheduler

open Function (update)
open Step (Leaves leaves_answer leaves_guarded)

/-- A call lets ticks pass, and answers whether a choice is to follow. -/
def Call.asks : Call → Bool
  | .tick => true
  | .elapse _ => true
  | _ => false

/-- A call makes a choice and nothing else. -/
def Call.chooses : Call → Bool
  | .choose => true
  | .planSwitch => true
  | .switch => true
  | _ => false

namespace Outline

variable {o o' : Outline} {i : Nat} {h : Handle} {task task' : Task}

/-- No task on a ready level is above the running one, and none is there while no
    task runs. -/
def Unbeaten (o : Outline) : Prop :=
  ∀ i task p, o.tenant i = some task → task.place = .ready p →
    ∃ q, o.runnerPriority = some q ∧ p ≤ q

/-- Every switch that is due has left its mark. -/
structure Prompt (o : Outline) : Prop where
  rotation : o.sendBehind = true → o.switchDue = true
  unbeaten : o.switchDue = false → o.Unbeaten

/-- With the mark of a switch nothing more is asked. -/
theorem prompt_of_due (due : o.switchDue = true) : o.Prompt := by
  refine ⟨fun _ => due, ?_⟩
  intro hdue
  rw [due] at hdue
  cases hdue

/-! ## The priority of the running task -/

/-- The priority of a task, if it runs. -/
def lead (task : Task) : Option Nat :=
  if task.activity = .running then some task.priority else none

theorem lead_of_ne (rests : task.activity ≠ .running) : lead task = none :=
  if_neg rests

theorem runnerPriority_eq (o : Outline) :
    o.runnerPriority = o.current.bind fun h => (o.get? h).bind lead := by
  simp only [runnerPriority, runner]
  cases o.current with
  | none => rfl
  | some h =>
      cases hget : o.get? h with
      | none => simp only [hget, Option.bind_some, Option.bind_none, Option.map_none]
      | some task =>
          simp only [hget, Option.bind_some, lead]
          by_cases hrun : task.activity = .running
          · rw [if_pos hrun, if_pos hrun, Option.bind_some, hget]
            rfl
          · rw [if_neg hrun, if_neg hrun]
            rfl

/-- The priority of the running task is read off the slots. -/
theorem runnerPriority_congr (current : o'.current = o.current)
    (generation : o'.generation = o.generation)
    (tenant : ∀ j, (o'.tenant j).bind lead = (o.tenant j).bind lead) :
    o'.runnerPriority = o.runnerPriority := by
  rw [runnerPriority_eq, runnerPriority_eq, current]
  refine congrArg _ (funext fun h => ?_)
  simp only [get?, generation]
  by_cases hg : o.generation h.index = h.generation
  · rw [if_pos hg, if_pos hg]
    exact tenant h.index
  · rw [if_neg hg, if_neg hg]

/-- A new record leaves the priority of the running task alone, if the task in the
    slot ran with the same priority before, or rested before and after. -/
theorem runnerPriority_update {new : Option Task} (current : o'.current = o.current)
    (generation : o'.generation = o.generation) (tenant : o'.tenant = update o.tenant i new)
    (same : new.bind lead = (o.tenant i).bind lead) : o'.runnerPriority = o.runnerPriority := by
  refine runnerPriority_congr current generation ?_
  intro j
  rw [tenant]
  by_cases hj : j = i
  · rw [hj, Function.update_self]
    exact same
  · rw [Function.update_of_ne hj]

/-- A task that rests and goes to another list, where it rests as well, leaves the priority of
    the running task alone. -/
theorem runnerPriority_reseat (o : Outline) (side : Side) (rested : (o.tenant i).bind lead = none)
    (rests : task.activity ≠ .running) :
    (o.reseat side i task).runnerPriority = o.runnerPriority := by
  refine runnerPriority_update rfl rfl (reseat_tenant ..) ?_
  rw [rested]
  exact lead_of_ne rests

/-- The task that runs, with its priority. -/
theorem runnerPriority_of_runner (running : o.runner = some h) (live : o.get? h = some task) :
    o.runnerPriority = some task.priority := by
  simp only [runnerPriority, running, Option.bind_some, live, Option.map_some]

/-- A priority that does not beat the running task is at most its own. -/
theorem beats_eq_false {priority : Nat} :
    o.beats priority = false ↔ ∃ q, o.runnerPriority = some q ∧ priority ≤ q := by
  simp only [beats]
  cases o.runnerPriority with
  | none => simp
  | some q => simp

/-- A priority that does not rival the running task does not beat it. -/
theorem beats_of_rivals {priority : Nat} (unrivalled : o.rivals priority = false) :
    o.beats priority = false := by
  simp only [rivals] at unrivalled
  simp only [beats]
  cases hrunner : o.runnerPriority with
  | none =>
      rw [hrunner] at unrivalled
      cases unrivalled
  | some q =>
      rw [hrunner] at unrivalled
      have hlt : priority < q := Nat.lt_of_not_le (of_decide_eq_false unrivalled)
      exact decide_eq_false (Nat.lt_asymm hlt)

/-! ## Prompt outlines -/

/-- No level above that of the running task holds a task. -/
theorem unbeaten_of_rows (tagged : o.Tagged) {q : Nat} (runner : o.runnerPriority = some q)
    (above : ∀ p, q < p → o.row (.ready p) = []) : o.Unbeaten := by
  intro i task p htask hplace
  refine ⟨q, runner, Nat.le_of_not_lt fun hlt => ?_⟩
  have hmem : i ∈ o.row (.ready p) :=
    (tagged.mem_row _ i).mpr ⟨(by rintro ⟨⟩), task, htask, hplace⟩
  rw [above p hlt] at hmem
  cases hmem

theorem unbeaten_of_empty (tagged : o.Tagged) (none : ∀ p, o.row (.ready p) = []) :
    o.Unbeaten := by
  intro i task p htask hplace
  have hmem : i ∈ o.row (.ready p) :=
    (tagged.mem_row _ i).mpr ⟨(by rintro ⟨⟩), task, htask, hplace⟩
  rw [none p] at hmem
  cases hmem

/-- Where no task beats the running one, the levels above it are empty. -/
theorem Unbeaten.rows (unbeaten : o.Unbeaten) (tagged : o.Tagged) {q : Nat}
    (runner : o.runnerPriority = some q) : ∀ p, q < p → o.row (.ready p) = [] := by
  intro p hlt
  rw [List.eq_nil_iff_forall_not_mem]
  intro i hi
  obtain ⟨-, task, htask, hplace⟩ := (tagged.mem_row _ i).mp hi
  obtain ⟨q', hq', hle⟩ := unbeaten i task p htask hplace
  rw [runner] at hq'
  obtain rfl := Option.some.inj hq'
  omega

/-- Where no task beats the running one and none runs, all levels are empty. -/
theorem Unbeaten.empty (unbeaten : o.Unbeaten) (tagged : o.Tagged)
    (none : o.runnerPriority = none) : ∀ p, o.row (.ready p) = [] := by
  intro p
  rw [List.eq_nil_iff_forall_not_mem]
  intro i hi
  obtain ⟨-, task, htask, hplace⟩ := (tagged.mem_row _ i).mp hi
  obtain ⟨q, hq, -⟩ := unbeaten i task p htask hplace
  rw [none] at hq
  cases hq

/-- With scheduling open, every ready task is at most as high as the running one. -/
theorem Unbeaten.ready (unbeaten : o.Unbeaten) (sound : o.Sound) (opened : o.depth = 0)
    (live : o.get? h = some task) (ready : task.activity = .ready) :
    ∃ q, o.runnerPriority = some q ∧ task.priority ≤ q := by
  have hlive := sound.live live
  have hfits := sound.settled.fits hlive
  rcases hfits.ready_iff.mp ready with ⟨p, hplace⟩ | hplace
  · rw [← hfits.level p hplace]
    exact unbeaten _ _ _ hlive hplace
  · exact absurd opened (hfits.postponed hplace)

/-- A new record beats the running task only if it stands on a level above. -/
theorem Unbeaten.update {new : Option Task} (unbeaten : o.Unbeaten)
    (runner : o'.runnerPriority = o.runnerPriority) (tenant : o'.tenant = update o.tenant i new)
    (fits : ∀ task p, new = some task → task.place = .ready p →
      ∃ q, o.runnerPriority = some q ∧ p ≤ q) : o'.Unbeaten := by
  intro j task p htask hplace
  rw [tenant] at htask
  rw [runner]
  by_cases hj : j = i
  · rw [hj, Function.update_self] at htask
    exact fits task p htask hplace
  · rw [Function.update_of_ne hj] at htask
    exact unbeaten j task p htask hplace

/-- A change keeps an outline prompt if it leaves the mark of every switch that it
    makes due. -/
theorem Prompt.change (prompt : o.Prompt) {wanted : Bool} (behind : o'.sendBehind = o.sendBehind)
    (due : o'.switchDue = (o.switchDue || wanted))
    (unbeaten : wanted = false → o.Unbeaten → o'.Unbeaten) : o'.Prompt := by
  constructor
  · intro hbehind
    rw [behind] at hbehind
    rw [due, prompt.rotation hbehind, Bool.true_or]
  · intro hdue
    rw [due, Bool.or_eq_false_iff] at hdue
    exact unbeaten hdue.2 (prompt.unbeaten hdue.1)

/-- A change without any mark keeps an outline prompt if no task beats the running
    one after it. -/
theorem Prompt.quiet (prompt : o.Prompt) (behind : o'.sendBehind = o.sendBehind)
    (due : o'.switchDue = o.switchDue) (unbeaten : o.Unbeaten → o'.Unbeaten) : o'.Prompt := by
  have hdue : o'.switchDue = (o.switchDue || false) := by
    rw [due, Bool.or_false]
  exact prompt.change behind hdue fun _ => unbeaten

/-- A task that rests and becomes ready leaves the mark of a switch if it beats the
    running one; while scheduling is suspended it is on no level. -/
theorem Prompt.makeReady (prompt : o.Prompt) {wanted : Bool}
    (rested : (o.tenant i).bind lead = none)
    (asked : o.depth = 0 → wanted = false → (o.makeReady i task).beats task.priority = false) :
    ((o.makeReady i task).wantSwitchIf wanted).Prompt := by
  have hrunner : (o.makeReady i task).runnerPriority = o.runnerPriority :=
    o.runnerPriority_reseat .back rested (by rintro ⟨⟩)
  have htenant : ((o.makeReady i task).wantSwitchIf wanted).tenant
      = update o.tenant i (some (o.readied task)) := rfl
  refine prompt.change rfl rfl fun hwanted hunbeaten => ?_
  refine hunbeaten.update hrunner htenant ?_
  rintro t p ht hplace
  obtain rfl := Option.some.inj ht
  have hplace' : o.readyPlace task = .ready p := hplace
  rcases o.readyPlace_cases task with ⟨hopen, heq⟩ | ⟨-, heq⟩
  · rw [heq] at hplace'
    obtain rfl := Place.ready.inj hplace'
    rw [← hrunner]
    exact beats_eq_false.mp (asked hopen hwanted)
  · rw [heq] at hplace'
    cases hplace'

/-- An outline stays prompt when a task that rests gets a record by which it rests on
    no ready level. -/
theorem Prompt.resting (prompt : o.Prompt) (current : o'.current = o.current)
    (generation : o'.generation = o.generation) (behind : o'.sendBehind = o.sendBehind)
    (due : o'.switchDue = o.switchDue) (tenant : o'.tenant = update o.tenant i (some task))
    (rested : (o.tenant i).bind lead = none) (rests : task.activity ≠ .running)
    (unready : ∀ p, task.place ≠ .ready p) : o'.Prompt := by
  have hrunner : o'.runnerPriority = o.runnerPriority := by
    refine runnerPriority_update current generation tenant ?_
    rw [rested]
    exact lead_of_ne rests
  refine prompt.quiet behind due fun hunbeaten => hunbeaten.update hrunner tenant ?_
  rintro t p ht hplace
  obtain rfl := Option.some.inj ht
  exact absurd hplace (unready p)

/-- A new record in its place keeps an outline prompt if it changes neither what the
    task does nor its priority. -/
theorem Prompt.put (prompt : o.Prompt) (live : o.tenant i = some task)
    (activity : task'.activity = task.activity) (priority : task'.priority = task.priority)
    (place : task'.place = task.place) : (o.put i task').Prompt := by
  have hrunner : (o.put i task').runnerPriority = o.runnerPriority := by
    refine runnerPriority_update rfl rfl (put_tenant ..) ?_
    rw [live]
    simp only [Option.bind_some, lead, activity, priority]
  refine prompt.quiet rfl rfl fun hunbeaten => ?_
  refine hunbeaten.update hrunner (put_tenant ..) ?_
  rintro t p ht hplace
  obtain rfl := Option.some.inj ht
  exact hunbeaten i task p live (place.symm.trans hplace)

/-! ## The life of a task -/

theorem Sound.rested (sound : o.Sound) (live : o.get? h = some task)
    (rests : task.activity ≠ .running) : (o.tenant h.index).bind lead = none := by
  rw [sound.live live]
  exact lead_of_ne rests

theorem Prompt.enroll (prompt : o.Prompt) (sound : o.Sound) {spec : TaskSpec} {flags : Flags}
    (done : o.enroll spec flags = .ok (h, o')) : o'.Prompt := by
  obtain ⟨-, i, hvacancy, rfl, hcase⟩ := of_enroll_ok done
  have hrested : (o.tenant i).bind lead = none := by
    rw [sound.tagged.tenant_vacancy hvacancy]
    rfl
  rcases hcase with ⟨-, rfl⟩ | ⟨hbegins, wanted, rfl, rfl⟩
  · refine prompt.resting rfl rfl rfl rfl (Function.update_idem ..) hrested ?_ ?_
    · rintro ⟨⟩
    · rintro p ⟨⟩
  · let task := Task.ofSpec spec flags ⟨i, o.generation i⟩
    have hrests : task.activity ≠ .running := by
      show spec.begins ≠ .running
      rw [hbegins]
      decide
    have hentered : (o.occupy i task).Prompt :=
      prompt.resting rfl rfl rfl rfl rfl hrested hrests (by rintro p ⟨⟩)
    refine hentered.makeReady ?_ ?_
    · show (update o.tenant i (some task) i).bind lead = none
      rw [Function.update_self]
      exact lead_of_ne hrests
    · intro hopen hwanted
      have hopen' : o.depth = 0 := hopen
      rw [decide_eq_true hopen', Bool.true_and] at hwanted
      exact hwanted

/-- A task that was not dispatched last leaves an outline prompt. -/
theorem Prompt.remove (prompt : o.Prompt) (sound : o.Sound)
    (done : o.remove h = .ok (false, o')) : o'.Prompt := by
  obtain ⟨task, hget, -, -, ⟨hwas, -⟩ | ⟨-, hother, rfl⟩⟩ := of_remove_ok done
  · cases hwas
  · have hrunner : (o.vacate h.index).runnerPriority = o.runnerPriority := by
      rw [runnerPriority_eq, runnerPriority_eq]
      show o.current.bind _ = _
      cases hcurrent : o.current with
      | none => rfl
      | some cur =>
          obtain ⟨t, hcur⟩ := sound.settled.current hcurrent
          have hne : cur ≠ h := by
            rintro rfl
            exact hother hcurrent
          rw [Option.bind_some, Option.bind_some, get?_vacate (sound.index_ne hcur hget hne.symm)]
    have htenant : (o.vacate h.index).tenant = update o.tenant h.index none := rfl
    refine prompt.quiet rfl rfl fun hunbeaten => hunbeaten.update hrunner htenant ?_
    rintro t p ⟨⟩

/-- A task that was not running is left out of scheduling. -/
theorem Prompt.shelve (prompt : o.Prompt) (sound : o.Sound)
    (done : o.shelve h = .ok (false, o')) : o'.Prompt := by
  obtain ⟨task, hget, -, ⟨-, -, rfl⟩ | ⟨-, -, hwas, rfl⟩⟩ := of_shelve_ok done
  · exact prompt
  · have hrests : task.activity ≠ .running := beq_eq_false_iff_ne.mp hwas.symm
    refine prompt.resting rfl rfl rfl rfl (reseat_tenant ..) (sound.rested hget hrests) ?_ ?_
    · rintro ⟨⟩
    · rintro p ⟨⟩

theorem Prompt.resume (prompt : o.Prompt) (sound : o.Sound) {wanted : Bool}
    (done : o.resume h = .ok (wanted, o')) : o'.Prompt := by
  obtain ⟨task, hget, ⟨hsuspended, rfl, rfl⟩ | ⟨-, -, rfl⟩⟩ := of_resume_ok done
  · have hrests : task.activity ≠ .running := by
      rw [hsuspended]
      decide
    refine prompt.makeReady (sound.rested hget hrests) fun hopen hwanted => ?_
    rw [decide_eq_true hopen, Bool.true_and] at hwanted
    exact beats_of_rivals hwanted
  · exact prompt

theorem Prompt.saveContext (prompt : o.Prompt) (sound : o.Sound) {context : Nat}
    (done : o.saveContext h context = .ok ((), o')) : o'.Prompt := by
  obtain ⟨task, hget, rfl⟩ := of_saveContext_ok done
  exact prompt.put (sound.live hget) rfl rfl rfl

theorem Prompt.wantSwitchIf (prompt : o.Prompt) (wanted : Bool) :
    (o.wantSwitchIf wanted).Prompt :=
  prompt.change rfl rfl fun _ hunbeaten => hunbeaten

/-- A running task leaves the mark of a switch when a ready task is above its new
    priority. -/
theorem Prompt.regrade_running (prompt : o.Prompt) (sound : o.Sound)
    (live : o.get? h = some task) (running : task.activity = .running) {priority : Nat}
    (tagged : (o.put h.index { task with priority := priority }).Tagged) {wanted : Bool}
    (above : wanted = (o.put h.index { task with priority := priority }).readyAbove priority) :
    ((o.put h.index { task with priority := priority }).wantSwitchIf wanted).Prompt := by
  have hfits := sound.settled.fits (sound.live live)
  have hself : (o.put h.index { task with priority := priority }).get? h
      = some { task with priority := priority } := get?_update_self live rfl rfl
  have hcurrent : o.current = some h := by
    rw [hfits.dispatched (hfits.running_iff.mp running), sound.handle_eq live]
  have hlead : (o.put h.index { task with priority := priority }).runnerPriority
      = some priority := by
    rw [runnerPriority_eq, show (o.put h.index _).current = o.current from rfl, hcurrent,
      Option.bind_some, hself]
    exact if_pos running
  cases wanted with
  | true => exact prompt_of_due (Bool.or_true _)
  | false =>
      have hunbeaten : (o.put h.index { task with priority := priority }).Unbeaten :=
        unbeaten_of_rows tagged hlead ((tagged.readyAbove_eq_false priority).mp above.symm)
      exact prompt.change rfl rfl fun _ _ => hunbeaten

/-- A ready task on a level leaves the mark of a switch when its new priority beats
    the running one. -/
theorem Prompt.regrade_queued (prompt : o.Prompt) (rested : (o.tenant i).bind lead = none)
    {priority : Nat} {wanted : Bool}
    (beaten : wanted = (o.reseat .back i
      { task with priority := priority, activity := .ready, place := .ready priority }).beats
        priority) :
    ((o.reseat .back i
      { task with priority := priority, activity := .ready, place := .ready priority }).wantSwitchIf
        wanted).Prompt := by
  have hrunner : (o.reseat .back i
      { task with priority := priority, activity := .ready, place := .ready priority }).runnerPriority
      = o.runnerPriority := o.runnerPriority_reseat .back rested (by rintro ⟨⟩)
  refine prompt.change rfl rfl fun hquiet hunbeaten => ?_
  refine hunbeaten.update hrunner (reseat_tenant o .back ..) ?_
  rintro t p ht hplace
  obtain rfl := Option.some.inj ht
  obtain rfl := Place.ready.inj hplace
  rw [← hrunner]
  exact beats_eq_false.mp (beaten.symm.trans hquiet)

/-- A task that gets a new priority leaves the mark of a switch if one is due: the
    running task when a ready one is above it now, a ready one when it beats the
    running one now, and any other not at all. -/
theorem Prompt.reprioritise (prompt : o.Prompt) (sound : o.Sound) {priority : Nat}
    {wanted : Bool} (done : o.reprioritise h priority = .ok (wanted, o')) : o'.Prompt := by
  obtain ⟨hlevels, task, hget, ⟨-, -, rfl⟩ | ⟨-, hwanted, rfl⟩⟩ := of_reprioritise_ok done
  · exact prompt
  have hfits := sound.settled.fits (sound.live hget)
  have htagged := (sound.regrade hget hlevels).tagged
  simp only [regradeWants] at hwanted
  -- only a task on a level changes its place with its priority
  by_cases hqueued : queued task = true
  · obtain ⟨level, hplace⟩ := (queued_iff task).mp hqueued
    have hready : task.activity = .ready := hfits.ready_iff.mpr (Or.inl ⟨level, hplace⟩)
    have hrests : task.activity ≠ .running := by
      rw [hready]
      rintro ⟨⟩
    have hregrade : o.regrade h.index task priority = o.reseat .back h.index
        { task with priority := priority, activity := .ready, place := .ready priority } :=
      if_pos hqueued
    rw [hregrade] at hwanted ⊢
    rw [hready, hqueued, Bool.true_and] at hwanted
    exact prompt.regrade_queued (sound.rested hget hrests) hwanted
  · have hregrade : o.regrade h.index task priority
        = o.put h.index { task with priority := priority } := if_neg hqueued
    rw [hregrade] at htagged hwanted ⊢
    by_cases hrun : task.activity = .running
    · rw [hrun] at hwanted
      exact prompt.regrade_running sound hget hrun htagged hwanted
    · refine Prompt.wantSwitchIf ?_ wanted
      refine prompt.resting rfl rfl rfl rfl (put_tenant ..) (sound.rested hget hrun) hrun ?_
      exact fun p hp => hqueued ((queued_iff task).mpr ⟨p, hp⟩)

/-! ## Waiting -/

theorem Prompt.block (prompt : o.Prompt) (sound : o.Sound) {ticks : Tick}
    (done : o.block h ticks = .ok ((), o')) : o'.Prompt := by
  obtain ⟨task, hget, -, -, -, ⟨-, rfl⟩ | ⟨-, rfl⟩⟩ := of_block_ok done
  · exact prompt
  · by_cases hrun : task.activity = .running
    · refine prompt_of_due ?_
      show (o.switchDue || task.activity == .running) = true
      rw [hrun]
      exact Bool.or_true _
    · obtain ⟨hblocked, hready, -⟩ := o.held_away task ticks
      refine Prompt.wantSwitchIf ?_ _
      refine prompt.resting rfl rfl rfl rfl (reseat_tenant ..) (sound.rested hget hrun) ?_ hready
      rw [hblocked]
      decide

theorem Prompt.endWait (prompt : o.Prompt) (sound : o.Sound) {early wanted : Bool}
    (done : o.endWait h early = .ok (wanted, o')) : o'.Prompt := by
  obtain ⟨task, hget, hblocked, rfl, rfl⟩ := of_endWait_ok done
  have hrests : task.activity ≠ .running := by
    rw [hblocked]
    decide
  refine prompt.makeReady (sound.rested hget hrests) fun hopen hwanted => ?_
  rw [decide_eq_true hopen, Bool.true_and] at hwanted
  exact hwanted

theorem Prompt.takeCutShort (prompt : o.Prompt) (sound : o.Sound) :
    o.takeCutShort.2.Prompt := by
  simp only [Outline.takeCutShort]
  cases hrun : o.runner.bind o.get? with
  | none => exact prompt
  | some task =>
      obtain ⟨-, hget⟩ := sound.of_running hrun
      dsimp only
      by_cases hcut : task.flags.cutShort = true
      · rw [if_pos hcut]
        exact prompt.put (sound.live hget) rfl rfl rfl
      · rw [if_neg hcut]
        exact prompt

/-! ## Suspensions -/

theorem Prompt.setDepth (prompt : o.Prompt) (depth : UInt32) : { o with depth := depth }.Prompt :=
  prompt.quiet rfl rfl fun hunbeaten => hunbeaten

/-- When the suspension ends, a postponed task that rivals the running one leaves the
    mark of a switch. -/
theorem Prompt.thawAll (prompt : o.Prompt) (sound : o.Sound) : o.thawAll.2.Prompt := by
  rcases o.thawAll_cases with ⟨-, heq⟩ | ⟨-, heq⟩ | ⟨-, heq⟩
  · rw [heq]
    exact prompt
  · rw [heq]
    exact prompt.setDepth _
  · rw [heq]
    -- calling in the postponed tasks does not touch the one that runs
    have hrunner : o.calledIn.runnerPriority = o.runnerPriority := by
      refine runnerPriority_congr rfl rfl ?_
      intro j
      rw [sound.calledIn_tenant]
      cases ht : o.tenant j with
      | none => rfl
      | some t =>
          show lead (called t) = lead t
          simp only [lead, called_activity (sound.settled.fits ht), called_priority]
    have hdue : (o.switchDue || o.postponedRivals) = (o.switchDue || o.postponedRivals) := rfl
    refine prompt.change rfl hdue fun hwanted hunbeaten => ?_
    intro i task p htask hplace
    show ∃ q, o.calledIn.runnerPriority = some q ∧ p ≤ q
    have htask' : o.calledIn.tenant i = some task := htask
    rw [sound.calledIn_tenant] at htask'
    rw [hrunner]
    obtain ⟨t, ht, rfl⟩ := Option.map_eq_some_iff.mp htask'
    by_cases hpostponed : t.place = .postponed
    · rw [show called t = onLevel t from if_pos hpostponed] at hplace
      obtain rfl := Place.ready.inj hplace
      -- a task that was postponed has been compared with the running one
      have hmem : i ∈ o.row .postponed :=
        (sound.tagged.mem_row _ i).mpr ⟨(by rintro ⟨⟩), t, ht, hpostponed⟩
      have hrivals := List.any_eq_false.mp hwanted i hmem
      rw [ht, Option.any_some, Bool.not_eq_true] at hrivals
      exact beats_eq_false.mp (beats_of_rivals hrivals)
    · rw [show called t = t from if_neg hpostponed] at hplace
      exact hunbeaten i t p ht hplace

/-- A ready task that beats the running one has left the mark of a switch if it is
    on a level, and rivals the running one among the postponed if not. -/
theorem Prompt.due_of_rival (prompt : o.Prompt) (sound : o.Sound)
    (live : o.get? h = some task) (ready : task.activity = .ready)
    (beats : o.beats task.priority = true) : (o.switchDue || o.postponedRivals) = true := by
  have hlive := sound.live live
  have hfits := sound.settled.fits hlive
  rcases hfits.ready_iff.mp ready with ⟨p, hplace⟩ | hplace
  · cases hdue : o.switchDue with
    | true => rfl
    | false =>
        obtain ⟨q, hq, hle⟩ := prompt.unbeaten hdue _ _ _ hlive hplace
        rw [hfits.level p hplace] at hle
        rw [beats_eq_false.mpr ⟨q, hq, hle⟩] at beats
        cases beats
  · -- a postponed task that beats the running one is a rival when it is called in
    have hrivals : o.rivals task.priority = true := by
      cases hrivals : o.rivals task.priority with
      | true => rfl
      | false =>
          rw [beats_of_rivals hrivals] at beats
          cases beats
    have hmem : h.index ∈ o.row .postponed :=
      (sound.tagged.mem_row _ _).mpr ⟨(by rintro ⟨⟩), task, hlive, hplace⟩
    have hany : o.postponedRivals = true := by
      refine List.any_eq_true.mpr ⟨h.index, hmem, ?_⟩
      rw [hlive]
      exact hrivals
    rw [hany, Bool.or_true]

/-- However a switch came to be wanted, the end of the suspension finds it. -/
theorem Prompt.due_of_wanted (prompt : o.Prompt) (sound : o.Sound)
    (wanted : o.switchDue = true ∨ o.sendBehind = true ∨ ∃ h task, o.get? h = some task
      ∧ task.activity = .ready ∧ o.beats task.priority = true) :
    (o.switchDue || o.postponedRivals) = true := by
  rcases wanted with hdue | hbehind | ⟨h, task, hget, hready, hbeats⟩
  · rw [hdue, Bool.true_or]
  · rw [prompt.rotation hbehind, Bool.true_or]
  · exact prompt.due_of_rival sound hget hready hbeats

/-- When the suspension of a prompt scheduler ends, the switch that a ready or
    postponed task above the running one asks for is marked. -/
theorem Prompt.thawAll_wanted (prompt : o.Prompt) (sound : o.Sound) (closed : o.depth ≠ 0)
    (opens : o.thawAll.2.depth = 0)
    (wanted : o.switchDue = true ∨ o.sendBehind = true ∨ ∃ h task, o.get? h = some task
      ∧ task.activity = .ready ∧ o.beats task.priority = true) :
    o.thawAll.1 = true ∧ o.thawAll.2.switchDue = true := by
  have hdue := prompt.due_of_wanted sound wanted
  rcases o.thawAll_cases with ⟨hopen, -⟩ | ⟨hdeep, heq⟩ | ⟨-, heq⟩
  · exact absurd hopen closed
  · -- an inner suspension ends, and scheduling stays suspended
    rw [heq] at opens
    exact absurd opens hdeep
  · rw [heq]
    exact ⟨hdue, hdue⟩

/-! ## Choices -/

/-- The task that is dispatched runs. -/
theorem Tagged.dispatch_runner (tagged : o.Tagged) (live : o.tenant i = some task) :
    (o.dispatch i task).runner = some task.handle
      ∧ (o.dispatch i task).runnerPriority = some task.priority := by
  have hindex : task.handle.index = i := by
    rw [tagged.handle live]
  have hself : (o.dispatch i task).get? task.handle
      = some { task with activity := .running, place := .unlinked } := by
    refine get?_update_self (tagged.get?_handle live) rfl ?_
    rw [hindex]
    rfl
  have hcurrent : (o.dispatch i task).current = some task.handle := rfl
  have hrunner : (o.dispatch i task).runner = some task.handle := by
    simp only [runner, hcurrent, hself]
    rfl
  refine ⟨hrunner, ?_⟩
  rw [runnerPriority_of_runner hrunner hself]

/-- The task that is dispatched leads every task on a level that is not above it. -/
theorem unbeaten_dispatch (tagged : o.Tagged) {p : Nat} (live : o.tenant i = some task)
    (level : p = task.priority) (top : o.IsTop p) : (o.dispatch i task).Unbeaten := by
  obtain ⟨-, hrunner⟩ := tagged.dispatch_runner live
  intro j t q ht hplace
  refine ⟨task.priority, hrunner, Nat.le_of_not_lt fun hlt => ?_⟩
  have ht' : update o.tenant i (some { task with activity := .running, place := .unlinked }) j
      = some t := ht
  by_cases hj : j = i
  · rw [hj, Function.update_self] at ht'
    obtain rfl := Option.some.inj ht'
    cases hplace
  · rw [Function.update_of_ne hj] at ht'
    have hmem : j ∈ o.row (.ready q) :=
      (tagged.mem_row _ j).mpr ⟨(by rintro ⟨⟩), t, ht', hplace⟩
    rw [top.2 q (by omega)] at hmem
    cases hmem

/-- The first task of a level has the priority of that level. -/
theorem Sound.level_of_row (sound : o.Sound) {p : Nat} {rest : List Nat}
    (row : o.row (.ready p) = i :: rest) (live : o.tenant i = some task) : p = task.priority := by
  exact (sound.settled.fits live).level p (sound.tagged.place_head row live)

/-- However a choice ends, it leaves a prompt outline behind. -/
theorem Sound.prompt_choose (sound : o.Sound) : Leaves Prompt (choose o) := by
  have hchoice := choose_choice sound.tagged sound.runnerFree
  generalize choose o = r at hchoice ⊢
  cases hchoice with
  | frozen _ _ => exact prompt_of_due rfl
  | barred _ _ => exact prompt_of_due rfl
  | starved _ _ none =>
      refine ⟨(by rintro ⟨⟩), fun _ => ?_⟩
      exact unbeaten_of_empty sound.cleared.tagged none
  | kept _ running live above _ =>
      refine ⟨(by rintro ⟨⟩), fun _ => ?_⟩
      exact unbeaten_of_rows sound.cleared.tagged (runnerPriority_of_runner running live) above
  | taken _ _ top row first =>
      refine ⟨(by rintro ⟨⟩), fun _ => ?_⟩
      exact unbeaten_dispatch sound.cleared.tagged first (sound.level_of_row row first) top
  | @replaced side p i rest task next _ running live top row first why =>
      refine ⟨(by rintro ⟨⟩), fun _ => ?_⟩
      have hunlinked : task.place = .unlinked := sound.runnerFree _ _ running live
      -- put at the back, the old task is below or beside the one that takes over
      have hwhy : side = .front ∧ task.priority < p ∨ side = .back ∧ p = task.priority := by
        rcases why with hfront | ⟨hback, hpeer, -⟩
        · exact Or.inl hfront
        · exact Or.inr ⟨hback, hpeer⟩
      obtain ⟨hsound, -⟩ := sound.cleared.putBack side running live
      obtain ⟨htop, rest', hrow⟩ := putBack_top sound.cleared.tagged live hunlinked top row hwhy
      have hfirst := sound.putBack_tenant side running live row first
      exact unbeaten_dispatch hsound.tagged hfirst (hsound.level_of_row hrow hfirst) htop

/-! ## Ticks -/

/-- A slice that is not over leaves the marks alone. -/
theorem chargeSlice_quiet {priority : Nat} (quiet : (o.chargeSlice priority).1 = false) :
    (o.chargeSlice priority).2.sendBehind = o.sendBehind := by
  simp only [chargeSlice] at quiet ⊢
  by_cases hturns : o.settings.takingTurns = true
  · rw [if_pos hturns] at quiet ⊢
    by_cases hempty : o.row (.ready priority) = []
    · rw [if_pos hempty]
    · rw [if_neg hempty] at quiet ⊢
      by_cases hover : o.settings.slice ≤ saturatingSucc o.sliceSpent
      · rw [if_pos hover] at quiet
        cases quiet
      · rw [if_neg hover]
  · rw [if_neg hturns]

/-- When no switch is wanted after a tick, none was wanted before, and no task beats
    the running one. -/
theorem judge_quiet (tagged : o.Tagged) (quiet : o.judge.1 = false) :
    o.switchDue = false ∧ o.judge.2.sendBehind = o.sendBehind ∧ o.judge.2.Unbeaten := by
  simp only [judge] at quiet ⊢
  cases hrunner : o.runnerPriority with
  | none =>
      simp only [hrunner, Bool.or_eq_false_iff] at quiet ⊢
      obtain ⟨hnone, hdue⟩ := quiet
      refine ⟨hdue, trivial, ?_⟩
      rcases tagged.topLevel_cases with ⟨-, hall⟩ | ⟨p, hsome, -⟩
      · exact unbeaten_of_empty tagged hall
      · rw [hsome] at hnone
        cases hnone
  | some p =>
      simp only [hrunner, Bool.or_eq_false_iff] at quiet ⊢
      -- neither the slice, nor a higher level, nor an earlier mark asks for a switch
      obtain ⟨⟨hslice, habove⟩, hdue⟩ := quiet
      obtain ⟨spent, behind, heq⟩ := o.chargeSlice_snd p
      refine ⟨?_, chargeSlice_quiet hslice, ?_⟩
      · rw [heq] at hdue
        exact hdue
      · have htagged : (o.chargeSlice p).2.Tagged := by
          rw [heq]
          exact tagged.congr rfl rfl rfl rfl rfl rfl rfl
        have hrunner' : (o.chargeSlice p).2.runnerPriority = some p := by
          rw [heq]
          exact hrunner
        exact unbeaten_of_rows htagged hrunner' ((htagged.readyAbove_eq_false p).mp habove)

/-- A tick is answered by the wish for a switch, or every switch that is due has left
    its mark. -/
theorem answerTick_prompt (tagged : o.Tagged) (preempts : o.settings.preemption = true)
    (rotation : o.sendBehind = true → o.switchDue = true) :
    o.answerTick.1 = true ∨ o.answerTick.2.Prompt := by
  obtain ⟨spent, behind, heq⟩ := o.judge_snd
  have hpreempts : o.judge.2.settings.preemption = true := by
    rw [heq]
    exact preempts
  have hquiet : o.judge.1 = false → o.judge.2.Prompt := by
    intro hjudge
    obtain ⟨hdue, hbehind, hunbeaten⟩ := judge_quiet tagged hjudge
    refine ⟨?_, fun _ => hunbeaten⟩
    intro hsend
    rw [hbehind] at hsend
    rw [rotation hsend] at hdue
    cases hdue
  simp only [answerTick]
  by_cases hopen : o.judge.2.depth = 0
  · rw [if_pos hopen]
    -- a wish for a switch is answered while scheduling is open, and marked while it is not
    cases hjudge : o.judge.1 with
    | true =>
        rw [hpreempts]
        exact Or.inl rfl
    | false => exact Or.inr (hquiet hjudge)
  · rw [if_neg hopen]
    cases hjudge : o.judge.1 with
    | true => exact Or.inr (prompt_of_due (Bool.or_true _))
    | false => exact Or.inr ((hquiet hjudge).wantSwitchIf false)

theorem Prompt.tick (prompt : o.Prompt) (sound : o.Sound)
    (preempts : o.settings.preemption = true) : o.tick.1 = true ∨ o.tick.2.Prompt := by
  obtain ⟨hsettings, -, -, hbehind, hdue, -⟩ := o.passed_rest
  have hpreempts : o.passed.settings.preemption = true := by
    rw [hsettings]
    exact preempts
  have hrotation : o.passed.sendBehind = true → o.passed.switchDue = true := by
    rw [hbehind, hdue]
    exact prompt.rotation
  exact answerTick_prompt sound.passed.tagged hpreempts hrotation

/-- Once a switch was wished for, the answer says so. -/
theorem elapseFrom_asked (n : Nat) (o : Outline) : (elapseFrom true n o).1 = true := by
  induction n generalizing o with
  | zero => rfl
  | succ n ih => exact ih o.tick.2

theorem Prompt.elapseFrom (prompt : o.Prompt) (sound : o.Sound)
    (preempts : o.settings.preemption = true) (n : Nat) (asked : Bool) :
    (Outline.elapseFrom asked n o).1 = true ∨ (Outline.elapseFrom asked n o).2.Prompt := by
  induction n generalizing o asked with
  | zero => exact Or.inr prompt
  | succ n ih =>
      rcases prompt.tick sound preempts with hasked | hprompt
      · refine Or.inl ?_
        show (Outline.elapseFrom (asked || o.tick.1) n o.tick.2).1 = true
        rw [hasked, Bool.or_true]
        exact elapseFrom_asked n o.tick.2
      · refine ih hprompt sound.tick ?_ _
        rw [o.tick_settings.1]
        exact preempts

/-! ## Steps that choose -/

/-- A step leaves prompt outlines behind, however it ends. -/
def Chooses {α : Type} (s : Step α) : Prop :=
  ∀ o : Outline, o.Sound → Leaves Prompt (s o)

theorem chooses_planSwitch : Chooses planSwitch :=
  fun _ sound => Step.leaves_planSwitch sound.prompt_choose

theorem chooses_switch : Chooses switch :=
  fun _ sound => Step.leaves_switch sound.prompt_choose

/-- The running task that lets its peers go first makes way for a choice. -/
theorem chooses_cede : Chooses cede := by
  intro o sound
  exact chooses_switch { o with sendBehind := true } (sound.remark _ _ true _ _)

/-- A task that has left the processor is replaced, or leaves the mark of a switch. -/
theorem chooses_replaceRunner : Chooses replaceRunner := by
  intro o sound
  show Leaves Prompt ((if (o.everDispatched && decide (o.depth = 0)) = true then
      switch >>= fun _ => pure ()
    else modify fun o => { o with switchDue := true } : Step Unit) o)
  by_cases hopen : (o.everDispatched && decide (o.depth = 0)) = true
  · rw [if_pos hopen]
    exact leaves_answer (chooses_switch o sound) fun _ _ => ⟨_, rfl⟩
  · rw [if_neg hopen]
    exact prompt_of_due rfl

/-! ## Calls -/

theorem Prompt.delete (prompt : o.Prompt) (sound : o.Sound) (h : Handle) :
    Leaves Prompt (Outline.delete h o) := by
  refine leaves_guarded prompt fun was o' done => ?_
  cases was with
  | true => exact chooses_replaceRunner o' (sound.remove done)
  | false => exact prompt.remove sound done

theorem Prompt.suspend (prompt : o.Prompt) (sound : o.Sound) (h : Handle) :
    Leaves Prompt (Outline.suspend h o) := by
  refine leaves_guarded prompt fun was o' done => ?_
  cases was with
  | true => exact chooses_replaceRunner o' (sound.shelve done)
  | false => exact prompt.shelve sound done

theorem Prompt.pause (prompt : o.Prompt) (sound : o.Sound) (ticks : Tick) :
    Leaves Prompt (Outline.pause ticks o) := by
  refine leaves_guarded prompt fun cur o' found => ?_
  obtain ⟨rfl, -⟩ := of_needRunner found
  by_cases hticks : ticks = 0
  · rw [if_pos hticks]
    exact leaves_answer (chooses_cede o' sound) fun _ _ => ⟨_, rfl⟩
  · rw [if_neg hticks]
    refine leaves_guarded prompt fun _ o₁ done => ?_
    exact leaves_answer (chooses_switch o₁ (sound.block done)) fun _ _ => ⟨_, rfl⟩

theorem Prompt.pausePeriod (prompt : o.Prompt) (sound : o.Sound) (anchor period : Tick) :
    Leaves Prompt (Outline.pausePeriod anchor period o) := by
  refine leaves_guarded prompt fun cur o' found => ?_
  obtain ⟨rfl, -⟩ := of_needRunner found
  show Leaves Prompt ((if periodAhead anchor period o'.now then _ else _ : Step _) o')
  by_cases hahead : periodAhead anchor period o'.now = true
  · rw [if_pos hahead]
    refine leaves_guarded prompt fun _ o₁ done => ?_
    exact leaves_answer (chooses_switch o₁ (sound.block done)) fun _ _ => ⟨_, rfl⟩
  · rw [if_neg hahead]
    exact leaves_answer (chooses_cede o' sound) fun _ _ => ⟨_, rfl⟩

/-- A call that lets no tick pass leaves a prompt outline behind. -/
theorem Prompt.run (prompt : o.Prompt) (sound : o.Sound) {c : Call} (timeless : c.asks = false) :
    Leaves Prompt (Outline.run c o) := by
  cases c with
  | create spec => exact leaves_guarded prompt fun _ _ done => prompt.enroll sound done
  | start entry =>
      refine leaves_answer (leaves_guarded prompt fun _ o' done => ?_) fun _ _ => ⟨_, rfl⟩
      exact (sound.enrollIdle done).prompt_choose
  | delete h => exact leaves_answer (prompt.delete sound h) fun _ _ => ⟨_, rfl⟩
  | suspend h => exact leaves_answer (prompt.suspend sound h) fun _ _ => ⟨_, rfl⟩
  | resume h => exact leaves_guarded prompt fun _ _ done => prompt.resume sound done
  | reprioritise h p => exact leaves_guarded prompt fun _ _ done => prompt.reprioritise sound done
  | saveContext h c => exact leaves_guarded prompt fun _ _ done => prompt.saveContext sound done
  | block h ticks => exact leaves_guarded prompt fun _ _ done => prompt.block sound done
  | pause ticks => exact leaves_answer (prompt.pause sound ticks) fun _ _ => ⟨_, rfl⟩
  | pausePeriod anchor period =>
      exact leaves_answer (prompt.pausePeriod sound anchor period) fun _ _ => ⟨_, rfl⟩
  | wake h => exact leaves_guarded prompt fun _ _ done => prompt.endWait sound done
  | cutShort h => exact leaves_guarded prompt fun _ _ done => prompt.endWait sound done
  | tick => cases timeless
  | elapse ticks => cases timeless
  | freezeAll => exact prompt.setDepth _
  | thawAll => exact prompt.thawAll sound
  | choose => exact leaves_answer sound.prompt_choose fun _ _ => ⟨_, rfl⟩
  | planSwitch => exact leaves_answer (chooses_planSwitch o sound) fun _ _ => ⟨_, rfl⟩
  | switch => exact leaves_answer (chooses_switch o sound) fun _ _ => ⟨_, rfl⟩
  | cede => exact leaves_answer (chooses_cede o sound) fun _ _ => ⟨_, rfl⟩
  | checkWait since remaining =>
      refine leaves_answer (leaves_answer (s := Step.always Outline.takeCutShort) ?_ ?_)
        fun _ _ => ⟨_, rfl⟩
      · exact prompt.takeCutShort sound
      · intro cut o'
        cases cut with
        | true => exact ⟨_, rfl⟩
        | false => exact ⟨_, rfl⟩

end Outline

end PriorityScheduler
