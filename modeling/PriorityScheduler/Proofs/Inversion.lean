import PriorityScheduler.Proofs.Routines
import PriorityScheduler.Proofs.Steps

/-! # What a step that is done has found and left behind

    One lemma for each step that can be refused: from the fact that it is done,
    the guards that it has passed and the outline that it leaves behind.  Later
    proofs take a step apart by these lemmas and never unfold it. -/

namespace PriorityScheduler

namespace Step

variable {α : Type} {o o' : Outline}

/-! ## Attempts -/

/-- An attempt ends with the value of its step, or with its refusal. -/
theorem of_attempt_ok {s : Step α} {r : Except Refusal α} (done : attempt s o = .ok r o') :
    (∃ a, r = .ok a ∧ s o = .ok a o')
      ∨ ∃ cause, r = .error cause ∧ s o = .error (.refused cause) o' := by
  simp only [attempt] at done
  cases hs : s o with
  | ok a o₁ =>
      rw [hs] at done
      obtain ⟨rfl, rfl⟩ := EStateM.Result.ok.inj done
      exact Or.inl ⟨a, rfl, rfl⟩
  | error e o₁ =>
      rw [hs] at done
      cases e with
      | refused cause =>
          obtain ⟨rfl, rfl⟩ := EStateM.Result.ok.inj done
          exact Or.inr ⟨cause, rfl, rfl⟩
      | fault what => cases done

/-- An attempt fails when its step stops the system. -/
theorem of_attempt_error {s : Step α} {e : Failure} (failed : attempt s o = .error e o') :
    ∃ what, e = .fault what ∧ s o = .error (.fault what) o' := by
  simp only [attempt] at failed
  cases hs : s o with
  | ok a o₁ =>
      rw [hs] at failed
      cases failed
  | error why o₁ =>
      rw [hs] at failed
      cases why with
      | refused cause => cases failed
      | fault what =>
          obtain ⟨rfl, rfl⟩ := EStateM.Result.error.inj failed
          exact ⟨what, rfl, rfl⟩

end Step

namespace Outline

variable {α : Type} {o o' : Outline} {h : Handle}

/-! ## Guards -/

theorem of_find_ok {f : Task → Except Refusal (α × Outline)} {r : α × Outline}
    (done : (o.find h >>= f) = .ok r) : ∃ task, o.get? h = some task ∧ f task = .ok r := by
  simp only [find] at done
  cases hget : o.get? h with
  | none =>
      rw [hget] at done
      cases done
  | some task =>
      rw [hget] at done
      exact ⟨task, rfl, done⟩

theorem of_replaceable_ok {out : Except Refusal (α × Outline)} {r : α × Outline}
    (done : (o.replaceable h >>= fun _ => out) = .ok r) :
    (o.depth = 0 ∨ o.runner ≠ some h) ∧ out = .ok r := by
  simp only [replaceable] at done
  by_cases hc : o.depth ≠ 0 ∧ o.runner = some h
  · rw [if_pos hc] at done
    cases done
  · rw [if_neg hc] at done
    rw [not_and_or, not_not] at hc
    exact ⟨hc, done⟩

/-- Of an alternative whose first part is a refusal the second part is done. -/
theorem of_refused_or {c : Prop} [Decidable c] {cause : Refusal}
    {out : Except Refusal (α × Outline)} {r : α × Outline}
    (done : (if c then .error cause else out) = .ok r) : ¬ c ∧ out = .ok r := by
  by_cases hc : c
  · rw [if_pos hc] at done
    cases done
  · rw [if_neg hc] at done
    exact ⟨hc, done⟩

/-! ## The life of a task -/

/-- A task that is made has moved into the vacancy, and is suspended or ready. -/
theorem of_enroll_ok {spec : TaskSpec} {flags : Flags} (done : o.enroll spec flags = .ok (h, o')) :
    spec.priority < o.settings.levels ∧ ∃ i, o.vacancy = some i ∧ h = ⟨i, o.generation i⟩
      ∧ (spec.begins = .suspended ∧ o' = (o.occupy i (.ofSpec spec flags h)).reseat .back i
            { Task.ofSpec spec flags h with activity := .suspended, place := .suspended }
        ∨ spec.begins = .ready ∧ ∃ wanted, o'
          = ((o.occupy i (.ofSpec spec flags h)).makeReady i (.ofSpec spec flags h)).wantSwitchIf
              wanted
          ∧ wanted = (decide (o.depth = 0)
            && ((o.occupy i (.ofSpec spec flags h)).makeReady i (.ofSpec spec flags h)).beats
              spec.priority)) := by
  simp only [enroll] at done
  obtain ⟨hpriority, done⟩ := of_refused_or done
  obtain ⟨hbegins, done⟩ := of_refused_or done
  refine ⟨Nat.lt_of_not_le hpriority, ?_⟩
  cases hvacancy : o.vacancy with
  | none =>
      rw [hvacancy] at done
      cases done
  | some i =>
      simp only [hvacancy] at done
      by_cases hsuspended : spec.begins = .suspended
      · rw [if_pos hsuspended] at done
        obtain ⟨rfl, rfl⟩ := Prod.mk.inj (Except.ok.inj done)
        exact ⟨i, rfl, rfl, Or.inl ⟨hsuspended, rfl⟩⟩
      · rw [if_neg hsuspended] at done
        obtain ⟨rfl, rfl⟩ := Prod.mk.inj (Except.ok.inj done)
        rw [not_and_or, not_not, not_not] at hbegins
        exact ⟨i, rfl, rfl, Or.inr ⟨hbegins.resolve_right hsuspended, _, rfl, rfl⟩⟩

/-- A task that is retired was not the idle one. -/
theorem of_remove_ok {was : Bool} (done : o.remove h = .ok (was, o')) :
    ∃ task, o.get? h = some task ∧ task.flags.idle = false ∧ (o.depth = 0 ∨ o.runner ≠ some h)
      ∧ (was = true ∧ o.current = some h
          ∧ o' = { o.vacate h.index with current := none, sliceSpent := 0 }
        ∨ was = false ∧ o.current ≠ some h ∧ o' = o.vacate h.index) := by
  obtain ⟨task, hget, done⟩ := of_find_ok done
  obtain ⟨hidle, done⟩ := of_refused_or done
  obtain ⟨hfree, done⟩ := of_replaceable_ok done
  refine ⟨task, hget, Bool.not_eq_true _ ▸ hidle, hfree, ?_⟩
  by_cases hcurrent : o.current = some h
  · rw [if_pos hcurrent] at done
    obtain ⟨rfl, rfl⟩ := Prod.mk.inj (Except.ok.inj done)
    exact Or.inl ⟨rfl, hcurrent, rfl⟩
  · rw [if_neg hcurrent] at done
    obtain ⟨rfl, rfl⟩ := Prod.mk.inj (Except.ok.inj done)
    exact Or.inr ⟨rfl, hcurrent, rfl⟩

/-- A task that is suspended was so before, or has been put on the list. -/
theorem of_shelve_ok {was : Bool} (done : o.shelve h = .ok (was, o')) :
    ∃ task, o.get? h = some task ∧ task.flags.idle = false
      ∧ (task.activity = .suspended ∧ was = false ∧ o' = o
        ∨ task.activity ≠ .suspended ∧ (o.depth = 0 ∨ o.runner ≠ some h)
          ∧ was = (task.activity == .running)
          ∧ o' = o.reseat .back h.index { task with activity := .suspended, place := .suspended }) := by
  obtain ⟨task, hget, done⟩ := of_find_ok done
  obtain ⟨hidle, done⟩ := of_refused_or done
  refine ⟨task, hget, Bool.not_eq_true _ ▸ hidle, ?_⟩
  by_cases hsuspended : task.activity = .suspended
  · rw [if_pos hsuspended] at done
    obtain ⟨rfl, rfl⟩ := Prod.mk.inj (Except.ok.inj done)
    exact Or.inl ⟨hsuspended, rfl, rfl⟩
  · rw [if_neg hsuspended] at done
    obtain ⟨hfree, done⟩ := of_replaceable_ok done
    obtain ⟨rfl, rfl⟩ := Prod.mk.inj (Except.ok.inj done)
    exact Or.inr ⟨hsuspended, hfree, rfl, rfl⟩

/-- A task that is resumed was suspended, or nothing has changed. -/
theorem of_resume_ok {wanted : Bool} (done : o.resume h = .ok (wanted, o')) :
    ∃ task, o.get? h = some task
      ∧ (task.activity = .suspended
          ∧ wanted = (decide (o.depth = 0) && (o.makeReady h.index task).rivals task.priority)
          ∧ o' = (o.makeReady h.index task).wantSwitchIf wanted
        ∨ task.activity ≠ .suspended ∧ wanted = false ∧ o' = o) := by
  obtain ⟨task, hget, done⟩ := of_find_ok done
  refine ⟨task, hget, ?_⟩
  by_cases hsuspended : task.activity = .suspended
  · rw [if_pos hsuspended] at done
    obtain ⟨rfl, rfl⟩ := Prod.mk.inj (Except.ok.inj done)
    exact Or.inl ⟨hsuspended, rfl, rfl⟩
  · rw [if_neg hsuspended] at done
    obtain ⟨rfl, rfl⟩ := Prod.mk.inj (Except.ok.inj done)
    exact Or.inr ⟨hsuspended, rfl, rfl⟩

/-- A task whose priority is changed has the new one, in its place or on its new
    level. -/
theorem of_reprioritise_ok {priority : Nat} {wanted : Bool}
    (done : o.reprioritise h priority = .ok (wanted, o')) :
    priority < o.settings.levels ∧ ∃ task, o.get? h = some task
      ∧ (task.priority = priority ∧ wanted = false ∧ o' = o
        ∨ task.priority ≠ priority
          ∧ wanted = (o.regrade h.index task priority).regradeWants task priority
          ∧ o' = (o.regrade h.index task priority).wantSwitchIf wanted) := by
  obtain ⟨hlevels, done⟩ := of_refused_or done
  obtain ⟨task, hget, done⟩ := of_find_ok done
  refine ⟨Nat.lt_of_not_le hlevels, task, hget, ?_⟩
  by_cases hsame : task.priority = priority
  · rw [if_pos hsame] at done
    obtain ⟨rfl, rfl⟩ := Prod.mk.inj (Except.ok.inj done)
    exact Or.inl ⟨hsame, rfl, rfl⟩
  · rw [if_neg hsame] at done
    obtain ⟨rfl, rfl⟩ := Prod.mk.inj (Except.ok.inj done)
    exact Or.inr ⟨hsame, rfl, rfl⟩

theorem of_saveContext_ok {context : Nat} (done : o.saveContext h context = .ok ((), o')) :
    ∃ task, o.get? h = some task ∧ o' = o.put h.index { task with context := context } := by
  obtain ⟨task, hget, done⟩ := of_find_ok done
  exact ⟨task, hget, (Prod.mk.inj (Except.ok.inj done)).2.symm⟩

/-! ## Waiting -/

/-- A task that is blocked was ready or running and is not the idle one. -/
theorem of_block_ok {ticks : Tick} (done : o.block h ticks = .ok ((), o')) :
    ∃ task, o.get? h = some task ∧ task.flags.idle = false
      ∧ (task.activity = .ready ∨ task.activity = .running) ∧ (o.depth = 0 ∨ o.runner ≠ some h)
      ∧ (ticks = 0 ∧ o' = o
        ∨ ticks ≠ 0 ∧ o' = (o.reseat .back h.index (o.held task ticks)).wantSwitchIf
            (task.activity == .running)) := by
  obtain ⟨task, hget, done⟩ := of_find_ok done
  obtain ⟨hguard, done⟩ := of_refused_or done
  obtain ⟨hfree, done⟩ := of_replaceable_ok done
  rw [not_or, not_and_or, not_not, not_not, Bool.not_eq_true] at hguard
  refine ⟨task, hget, hguard.1, hguard.2, hfree, ?_⟩
  by_cases hticks : ticks = 0
  · rw [if_pos hticks] at done
    exact Or.inl ⟨hticks, (Prod.mk.inj (Except.ok.inj done)).2.symm⟩
  · rw [if_neg hticks] at done
    exact Or.inr ⟨hticks, (Prod.mk.inj (Except.ok.inj done)).2.symm⟩

/-- A task whose wait is ended was blocked and is ready. -/
theorem of_endWait_ok {early wanted : Bool} (done : o.endWait h early = .ok (wanted, o')) :
    ∃ task, o.get? h = some task ∧ task.activity = .blocked
      ∧ wanted = (decide (o.depth = 0)
        && (o.makeReady h.index (unheld task early)).beats task.priority)
      ∧ o' = (o.makeReady h.index (unheld task early)).wantSwitchIf wanted := by
  obtain ⟨task, hget, done⟩ := of_find_ok done
  by_cases hblocked : task.activity = .blocked
  · rw [if_pos hblocked] at done
    obtain ⟨rfl, rfl⟩ := Prod.mk.inj (Except.ok.inj done)
    exact ⟨task, hget, hblocked, rfl, rfl⟩
  · rw [if_neg hblocked] at done
    cases done

/-! ## Choices -/

/-- The task that runs is the one dispatched last, it is live, and it runs. -/
theorem runner_eq_some (running : o.runner = some h) :
    o.current = some h ∧ ∃ task, o.get? h = some task ∧ task.activity = .running := by
  simp only [runner] at running
  cases hcur : o.current with
  | none =>
      rw [hcur] at running
      cases running
  | some cur =>
      rw [hcur] at running
      cases hget : o.get? cur with
      | none =>
          simp only [hget] at running
          cases running
      | some task =>
          simp only [hget] at running
          by_cases hrun : task.activity = .running
          · rw [if_pos hrun] at running
            obtain rfl := Option.some.inj running
            exact ⟨rfl, task, hget, hrun⟩
          · rw [if_neg hrun] at running
            cases running

/-- Looking for the running task changes nothing. -/
theorem of_needRunner (found : o.needRunner = .ok (h, o')) :
    o' = o ∧ o.runner = some h := by
  simp only [needRunner] at found
  cases hrunner : o.runner with
  | some cur =>
      simp only [hrunner, Except.ok.injEq, Prod.mk.injEq] at found
      exact ⟨found.2.symm, congrArg some found.1⟩
  | none =>
      rw [hrunner] at found
      cases found

/-- The task that runs is on no list. -/
def RunnerFree (o : Outline) : Prop :=
  ∀ h task, o.runner = some h → o.get? h = some task → task.place = .unlinked

/-- How a choice can end. -/
inductive Choice (o : Outline) : EStateM.Result Failure Outline Handle → Prop where
  /-- Scheduling is suspended, and the running task stays. -/
  | frozen {cur : Handle} (closed : o.depth ≠ 0) (running : o.runner = some cur) :
      Choice o (.ok cur { o with switchDue := true })
  /-- Scheduling is suspended, and no task may be dispatched. -/
  | barred (closed : o.depth ≠ 0) (idle : o.runner = none) :
      Choice o (.error (.refused .schedulerFrozen) { o with switchDue := true })
  /-- There is no task to dispatch. -/
  | starved (opened : o.depth = 0) (idle : o.runner = none) (none : ∀ p, o.row (.ready p) = []) :
      Choice o (.error (.refused .nothingReady) o.cleared)
  /-- No ready task is above the running one, and none has to be let go first. -/
  | kept {task : Task} (opened : o.depth = 0) (running : o.runner = some task.handle)
      (live : o.get? task.handle = some task)
      (above : ∀ p, task.priority < p → o.row (.ready p) = [])
      (peers : o.sendBehind = true → o.row (.ready task.priority) = []) :
      Choice o (.ok task.handle o.cleared)
  /-- No task runs, and the first of the highest level is dispatched. -/
  | taken {p i : Nat} {rest : List Nat} {next : Task} (opened : o.depth = 0)
      (idle : o.runner = none) (top : o.IsTop p) (row : o.row (.ready p) = i :: rest)
      (first : o.tenant i = some next) :
      Choice o (.ok next.handle (o.cleared.dispatch i next))
  /-- The running task makes room: for a task above it, and then it stays ahead of
      its peers, or for a peer, and then it goes behind them. -/
  | replaced {side : Side} {p i : Nat} {rest : List Nat} {task next : Task}
      (opened : o.depth = 0) (running : o.runner = some task.handle)
      (live : o.get? task.handle = some task) (top : o.IsTop p)
      (row : o.row (.ready p) = i :: rest) (first : o.tenant i = some next)
      (why : side = .front ∧ task.priority < p
        ∨ side = .back ∧ p = task.priority ∧ o.sendBehind = true) :
      Choice o (.ok next.handle ((o.cleared.putBack side task).dispatch i next))

/-- The first task of the highest level is dispatched. -/
theorem dispatchHighest_eq (tagged : o.Tagged) {p i : Nat} {rest : List Nat} {next : Task}
    (top : o.IsTop p) (row : o.row (.ready p) = i :: rest) (first : o.tenant i = some next) :
    dispatchHighest o = .ok next.handle (o.dispatch i next) := by
  have hindex : next.handle.index = i := by
    rw [tagged.handle first]
  simp only [dispatchHighest, dispatchFirst, tagged.topLevel_eq top, row, List.head?_cons,
    Option.bind_some, first, hindex]

/-- Putting the running task back leaves the first task of the highest level the
    first, if the level was occupied before. -/
theorem putBack_top (tagged : o.Tagged) {side : Side} {p i : Nat} {rest : List Nat} {task : Task}
    (live : o.get? task.handle = some task) (unlinked : task.place = .unlinked) (top : o.IsTop p)
    (row : o.row (.ready p) = i :: rest)
    (why : side = .front ∧ task.priority < p ∨ side = .back ∧ p = task.priority) :
    (o.putBack side task).IsTop p ∧ ∃ rest, (o.putBack side task).row (.ready p) = i :: rest := by
  have htask := (tagged.get?_eq_some.mp live).1
  have hfilter : ∀ q, (o.row q).filter (· ≠ task.handle.index) = o.row q :=
    fun q => filter_of_not_mem (tagged.not_mem_unlinked htask unlinked q)
  -- the task that is put back enters the row of its priority and no other
  have hother : ∀ p', p' ≠ task.priority →
      (o.putBack side task).row (.ready p') = o.row (.ready p') := by
    intro p' hne
    simp only [putBack]
    rw [reseat_row_of_ne (fun heq => hne (Place.ready.inj heq)), hfilter]
  have hle : task.priority ≤ p := by
    rcases why with ⟨-, hlt⟩ | ⟨-, rfl⟩
    · exact Nat.le_of_lt hlt
    · exact Nat.le_refl _
  have hrow : ∃ rest, (o.putBack side task).row (.ready p) = i :: rest := by
    rcases why with ⟨-, hlt⟩ | ⟨rfl, rfl⟩
    · -- put in front, it is below the top row; put at the back, it is behind the first of it
      rw [hother p (by omega)]
      exact ⟨rest, row⟩
    · refine ⟨rest ++ [task.handle.index], ?_⟩
      simp only [putBack]
      rw [reseat_row, if_pos rfl, hfilter, row]
      rfl
  refine ⟨⟨?_, ?_⟩, hrow⟩
  · obtain ⟨rest', hrest'⟩ := hrow
    rw [hrest']
    exact List.cons_ne_nil _ _
  · intro p' hp'
    rw [hother p' (by omega)]
    exact top.2 p' hp'

/-- Tags still agree when a choice forgets what it was wanted for. -/
theorem Tagged.cleared (tagged : o.Tagged) : o.cleared.Tagged :=
  tagged.congr rfl rfl rfl rfl rfl rfl rfl

/-- Tags still agree when the running task is put back. -/
theorem Tagged.putBack (tagged : o.Tagged) (side : Side) {task : Task}
    (live : o.get? task.handle = some task) : (o.putBack side task).Tagged := by
  have htask := (tagged.get?_eq_some.mp live).1
  have hpriority : task.priority < o.settings.levels := tagged.priority htask
  exact tagged.reseat side htask rfl hpriority (fun p hp => Place.ready.inj hp ▸ hpriority)

/-- Dispatching the first task of the highest level once the running one is back. -/
theorem dispatchHighest_putBack (tagged : o.Tagged) {side : Side} {p i : Nat} {rest : List Nat}
    {task next : Task} (live : o.get? task.handle = some task) (unlinked : task.place = .unlinked)
    (top : o.IsTop p) (row : o.row (.ready p) = i :: rest) (first : o.tenant i = some next)
    (why : side = .front ∧ task.priority < p ∨ side = .back ∧ p = task.priority) :
    dispatchHighest (o.cleared.putBack side task)
      = .ok next.handle ((o.cleared.putBack side task).dispatch i next) := by
  have htask := (tagged.get?_eq_some.mp live).1
  obtain ⟨htop, rest', hrow⟩ := putBack_top tagged.cleared live unlinked top row why
  refine dispatchHighest_eq (tagged.cleared.putBack side live) htop hrow ?_
  have hne : i ≠ task.handle.index := by
    rintro rfl
    refine tagged.not_mem_unlinked htask unlinked (.ready p) ?_
    rw [row]
    exact List.mem_cons_self
  show Function.update o.tenant task.handle.index _ i = _
  rw [Function.update_of_ne hne]
  exact first

/-- Every choice ends in one of these ways. -/
theorem choose_choice (tagged : o.Tagged) (free : o.RunnerFree) : Choice o (choose o) := by
  simp only [choose]
  by_cases hdepth : o.depth = 0
  · rw [if_pos hdepth]
    simp only [chooseOpen]
    cases hrunner : o.runner with
    | none =>
        show Choice o (dispatchHighest o.cleared)
        rcases tagged.topLevel_cases with ⟨hnone, hall⟩ | ⟨p, -, htop⟩
        · simp only [dispatchHighest]
          rw [tagged.cleared.topLevel_eq_none hall]
          exact .starved hdepth hrunner hall
        · obtain ⟨i, rest, hrow⟩ := List.exists_cons_of_ne_nil htop.1
          obtain ⟨next, hfirst⟩ := tagged.tenant_head hrow
          rw [dispatchHighest_eq tagged.cleared htop hrow hfirst]
          exact .taken hdepth hrunner htop hrow hfirst
    | some cur =>
        obtain ⟨-, task, hget, -⟩ := runner_eq_some hrunner
        obtain rfl : task.handle = cur := (tagged.get?_eq_some.mp hget).2
        have hunlinked : task.place = .unlinked := free _ task hrunner hget
        simp only [Option.bind_some, hget]
        rcases tagged.topLevel_cases with ⟨hnone, hall⟩ | ⟨p, hsome, htop⟩
        · rw [hnone]
          exact .kept hdepth hrunner hget (fun p _ => hall p) (fun _ => hall _)
        · obtain ⟨i, rest, hrow⟩ := List.exists_cons_of_ne_nil htop.1
          obtain ⟨next, hfirst⟩ := tagged.tenant_head hrow
          rw [hsome]
          -- above the running task anything goes first, and beside it only after a sending behind
          by_cases habove : task.priority < p
          · simp only [if_pos habove]
            rw [dispatchHighest_putBack tagged hget hunlinked htop hrow hfirst (Or.inl ⟨rfl, habove⟩)]
            exact .replaced hdepth hrunner hget htop hrow hfirst (Or.inl ⟨rfl, habove⟩)
          · simp only [if_neg habove]
            by_cases hbehind : p = task.priority ∧ o.sendBehind = true
            · rw [if_pos hbehind, dispatchHighest_putBack tagged hget hunlinked htop hrow hfirst
                (Or.inr ⟨rfl, hbehind.1⟩)]
              exact .replaced hdepth hrunner hget htop hrow hfirst (Or.inr ⟨rfl, hbehind⟩)
            · rw [if_neg hbehind]
              refine .kept hdepth hrunner hget (fun q hq => htop.2 q (by omega)) ?_
              intro hsend
              have hne : p ≠ task.priority := fun heq => hbehind ⟨heq, hsend⟩
              exact htop.2 _ (by omega)
  · rw [if_neg hdepth]
    cases hrunner : o.runner with
    | some cur => exact .frozen hdepth hrunner
    | none => exact .barred hdepth hrunner

end Outline

end PriorityScheduler
