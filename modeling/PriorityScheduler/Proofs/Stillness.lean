import PriorityScheduler.Proofs.Handover
import PriorityScheduler.Proofs.Stages
import PriorityScheduler.Proofs.WellFormed

/-! # A suspended scheduler stands still

    While scheduling is suspended the running task keeps the processor, and the
    levels of the ready queue only lose tasks.  A task that becomes ready meanwhile is
    postponed, behind those that did before.

    A call STIRS an outline when that is all it does: some slots RISE from other lists
    to the end of the postponed ones.  Every call of a suspended scheduler does, as
    long as it leaves scheduling suspended.  A history of such calls keeps a log of the
    tasks that became ready, and at its end the postponed tasks are those that were
    postponed before, as far as they are left, and behind them the log. -/

namespace PriorityScheduler

open Function (update)

/-- A call may have the platform swap tasks. -/
def Call.dispatches : Call → Bool
  | .delete _ => true
  | .suspend _ => true
  | .pause _ => true
  | .pausePeriod _ _ => true
  | .switch => true
  | .cede => true
  | _ => false

namespace Outline

variable {o o' o'' : Outline} {i : Nat} {risen called : List Nat} {h : Handle} {task task' : Task}

/-! ## What a call may do -/

/-- The slots of the delayed tasks, in the order in which these wake. -/
def wakeOrder (o : Outline) : List Nat :=
  o.row (.delayed o.cycle) ++ o.row (.delayed o.cycle.other)

/-- The running task stays, and all that happens on the lists of the ready tasks is
    that some leave and that some slots rise to the end of the postponed ones. -/
structure Stirs (o o' : Outline) (risen : List Nat) : Prop where
  runner : o'.runner = o.runner
  generation : ∀ {i task}, o'.tenant i = some task → o'.generation i = o.generation i
  leveled : ∀ {p i}, i ∈ o'.row (.ready p) → ∃ p', i ∈ o.row (.ready p')
  postponed : ∃ stays : Nat → Bool,
    o'.row .postponed = (o.row .postponed).filter stays ++ risen
  /-- A task that rises was not ready before. -/
  fresh : ∀ {i task}, i ∈ risen → o.tenant i = some task → task.activity ≠ .ready
  /-- Several tasks rise only together, from a wait, in the order in which they wake. -/
  inTurn : risen.length ≤ 1 ∨ risen <+: o.wakeOrder

/-- Scheduling is still suspended, and some slots have risen at most. -/
def Stirred (o o' : Outline) : Prop :=
  o'.depth ≠ 0 ∧ ∃ risen, Stirs o o' risen

/-- What rises is told by the tasks and the lists. -/
theorem Stirs.frame (stirs : Stirs o o' risen) (current : o''.current = o'.current)
    (generation : o''.generation = o'.generation) (tenant : o''.tenant = o'.tenant)
    (row : o''.row = o'.row) : Stirs o o'' risen := by
  obtain ⟨hrunner, hgeneration, hleveled, hpostponed, hfresh, hturn⟩ := stirs
  have hget : ∀ h, o'.current = some h → o''.get? h = o'.get? h :=
    fun h _ => get?_congr (congrFun generation _) (congrFun tenant _)
  refine ⟨(runner_congr current hget).trans hrunner, ?_, ?_, ?_, hfresh, hturn⟩
  · rw [tenant, generation]
    exact hgeneration
  · rw [row]
    exact hleveled
  · rw [row]
    exact hpostponed

/-- A change of the lists by which no slot rises. -/
theorem stirs_none (runner : o'.runner = o.runner)
    (generation : ∀ {j t}, o'.tenant j = some t → o'.generation j = o.generation j)
    (leveled : ∀ {p j}, j ∈ o'.row (.ready p) → ∃ p', j ∈ o.row (.ready p'))
    (postponed : ∃ stays : Nat → Bool, o'.row .postponed = (o.row .postponed).filter stays) :
    Stirs o o' [] := by
  obtain ⟨stays, hstays⟩ := postponed
  refine ⟨runner, generation, leveled, ⟨stays, ?_⟩, ?_, Or.inl (Nat.zero_le 1)⟩
  · rw [List.append_nil]
    exact hstays
  · intro j t hj
    cases hj

/-- No slot rises while the lists stay. -/
theorem stirs_of_row (runner : o'.runner = o.runner) (generation : o'.generation = o.generation)
    (row : o'.row = o.row) : Stirs o o' [] := by
  refine stirs_none runner (fun _ => congrFun generation _) ?_ ⟨fun _ => true, ?_⟩
  · rw [row]
    exact fun hj => ⟨_, hj⟩
  · rw [row, List.filter_true]

theorem stirs_refl (o : Outline) : Stirs o o [] :=
  stirs_of_row rfl rfl rfl

/-- No slot rises when one is taken off the lists of the ready tasks. -/
theorem stirs_away (runner : o'.runner = o.runner)
    (generation : ∀ {j t}, o'.tenant j = some t → o'.generation j = o.generation j)
    (away : ∀ q, q.activity = .ready → o'.row q = (o.row q).filter (· ≠ i)) : Stirs o o' [] := by
  refine stirs_none runner generation ?_ ⟨fun j => decide (j ≠ i), away _ rfl⟩
  intro p j hj
  rw [away _ rfl] at hj
  exact ⟨p, (List.mem_filter.mp hj).1⟩

/-- A task that was not ready rises when it is postponed. -/
theorem stirs_rise (runner : o'.runner = o.runner) (generation : o'.generation = o.generation)
    (row : ∀ q, o'.row q = (o.row q).filter (· ≠ i) ++ if q = .postponed then [i] else [])
    (fresh : ∀ t, o.tenant i = some t → t.activity ≠ .ready) : Stirs o o' [i] := by
  refine ⟨runner, fun _ => congrFun generation _, ?_, ⟨fun j => decide (j ≠ i), ?_⟩, ?_, ?_⟩
  · intro p j hj
    rw [row, if_neg (by rintro ⟨⟩), List.append_nil] at hj
    exact ⟨p, (List.mem_filter.mp hj).1⟩
  · rw [row, if_pos rfl]
  · intro j t hj ht
    rw [List.mem_singleton.mp hj] at ht
    exact fresh t ht
  · exact Or.inl (Nat.le_refl 1)

/-- While scheduling is suspended a task that becomes ready is postponed. -/
theorem makeReady_row_closed (closed : o.depth ≠ 0) (i : Nat) (task : Task) (q : Place) :
    (o.makeReady i task).row q
      = (o.row q).filter (· ≠ i) ++ if q = .postponed then [i] else [] := by
  rw [makeReady_row, show o.readyPlace task = .postponed from if_neg closed]

/-! ## Changes of one task -/

section Changes

variable (sound : o.Sound) (closed : o.depth ≠ 0)

include sound closed

theorem Sound.stirs_enroll {spec : TaskSpec} {flags : Flags}
    (done : o.enroll spec flags = .ok (h, o')) : Stirred o o' := by
  have hrunner := sound.enroll_runner done
  have hdepth := (lasts_enroll sound.tagged done).depth
  refine ⟨fun hopen => closed (hdepth.symm.trans hopen), ?_⟩
  obtain ⟨-, i, hvacancy, rfl, hcase⟩ := of_enroll_ok done
  rcases hcase with ⟨-, rfl⟩ | ⟨-, wanted, rfl, -⟩
  · refine ⟨[], stirs_away (i := i) hrunner (fun _ => rfl) ?_⟩
    intro q hq
    refine reseat_row_of_ne ?_
    rintro rfl
    cases hq
  · refine ⟨[i], stirs_rise hrunner rfl ?_ ?_⟩
    · exact makeReady_row_closed (o := o.occupy i _) closed i _
    · intro t ht
      rw [sound.tagged.tenant_vacancy hvacancy] at ht
      cases ht

theorem Sound.stirs_enrollIdle {entry : Nat} (done : o.enrollIdle entry = .ok ((), o')) :
    Stirred o o' := by
  obtain ⟨-, idle, o₁, hmade, rfl⟩ := of_enrollIdle_ok done
  obtain ⟨hclosed, risen, hstirs⟩ := sound.stirs_enroll closed hmade
  exact ⟨hclosed, risen, hstirs.frame rfl rfl rfl rfl⟩

/-- The running task cannot be retired, so no task that runs goes. -/
theorem Sound.stirs_remove {was : Bool} (done : o.remove h = .ok (was, o')) : Stirred o o' := by
  obtain ⟨task, hget, -, hfree, hcase⟩ := of_remove_ok done
  have hother : o.runner ≠ some h := hfree.resolve_left closed
  have hrests := sound.rests hget hother
  have hgeneration : ∀ {j t}, (o.vacate h.index).tenant j = some t →
      (o.vacate h.index).generation j = o.generation j := by
    intro j t ht
    exact Function.update_of_ne (of_update_none ht).1 _ _
  rcases hcase with ⟨-, hcurrent, rfl⟩ | ⟨-, hcurrent, rfl⟩
  · refine ⟨closed, [], stirs_away (i := h.index) ?_ hgeneration fun _ _ => rfl⟩
    have hnone : o.runner = none := by
      simp only [runner, hcurrent, hget, if_neg hrests]
    exact hnone.symm
  · refine ⟨closed, [], stirs_away (i := h.index) ?_ hgeneration fun _ _ => rfl⟩
    refine runner_congr rfl ?_
    intro cur hcur
    obtain ⟨t, ht⟩ := sound.settled.current hcur
    have hne : cur ≠ h := fun heq => hcurrent (heq ▸ hcur)
    exact get?_vacate (sound.index_ne ht hget hne.symm)

/-- The running task cannot be suspended. -/
theorem Sound.stirs_shelve {was : Bool} (done : o.shelve h = .ok (was, o')) : Stirred o o' := by
  obtain ⟨task, hget, -, ⟨-, -, rfl⟩ | ⟨-, hfree, -, rfl⟩⟩ := of_shelve_ok done
  · exact ⟨closed, [], stirs_refl _⟩
  · have hrests := sound.rests hget (hfree.resolve_left closed)
    refine ⟨closed, [], stirs_away (i := h.index) ?_ (fun _ => rfl) ?_⟩
    · refine runner_update rfl rfl rfl ?_
      rw [sound.live hget]
      simp [runs, hrests]
    · intro q hq
      refine reseat_row_of_ne ?_
      rintro rfl
      cases hq

/-- A task that was not ready and does not run is postponed. -/
theorem Sound.stirs_makeReady (live : o.get? h = some task) (resting : task.activity ≠ .running)
    (unready : task.activity ≠ .ready) (task' : Task) (wanted : Bool) :
    Stirred o ((o.makeReady h.index task').wantSwitchIf wanted) := by
  have hlive := sound.live live
  refine ⟨closed, [h.index], stirs_rise ?_ rfl (makeReady_row_closed closed h.index task') ?_⟩
  · refine runner_update rfl rfl rfl ?_
    rw [hlive]
    simp [runs, resting, readied]
  · intro t ht
    rw [hlive] at ht
    rw [← Option.some.inj ht]
    exact unready

theorem Sound.stirs_resume {wanted : Bool} (done : o.resume h = .ok (wanted, o')) :
    Stirred o o' := by
  obtain ⟨task, hget, ⟨hsuspended, -, rfl⟩ | ⟨-, -, rfl⟩⟩ := of_resume_ok done
  · refine sound.stirs_makeReady closed hget ?_ ?_ task wanted
    · rw [hsuspended]
      decide
    · rw [hsuspended]
      decide
  · exact ⟨closed, [], stirs_refl _⟩

theorem Sound.stirs_endWait {early wanted : Bool} (done : o.endWait h early = .ok (wanted, o')) :
    Stirred o o' := by
  obtain ⟨task, hget, hblocked, -, rfl⟩ := of_endWait_ok done
  refine sound.stirs_makeReady closed hget ?_ ?_ _ wanted
  · rw [hblocked]
    decide
  · rw [hblocked]
    decide

/-- The running task cannot be blocked. -/
theorem Sound.stirs_block {ticks : Tick} (done : o.block h ticks = .ok ((), o')) :
    Stirred o o' := by
  obtain ⟨task, hget, -, -, hfree, ⟨-, rfl⟩ | ⟨-, rfl⟩⟩ := of_block_ok done
  · exact ⟨closed, [], stirs_refl _⟩
  · have hrests := sound.rests hget (hfree.resolve_left closed)
    obtain ⟨hblocked, hunready, hpresent⟩ := o.held_away task ticks
    refine ⟨closed, [], stirs_away (i := h.index) ?_ (fun _ => rfl) ?_⟩
    · refine runner_update rfl rfl rfl ?_
      rw [sound.live hget]
      simp [runs, hrests, hblocked]
    · intro q hq
      refine reseat_row_of_ne ?_
      rintro rfl
      cases hplace : (o.held task ticks).place with
      | ready p => exact hunready p hplace
      | postponed => exact hpresent hplace
      | _ =>
          rw [hplace] at hq
          cases hq

/-- A record that is replaced while its task goes on as it did moves no slot. -/
theorem Sound.stirs_put (live : o.get? h = some task) (same : task'.activity = task.activity) :
    Stirred o (o.put h.index task') := by
  refine ⟨closed, [], stirs_of_row ?_ rfl rfl⟩
  refine runner_update rfl rfl rfl ?_
  rw [sound.live live]
  simp [runs, same]

/-- A task on a ready level may change to another level. -/
theorem Sound.stirs_regrade (live : o.get? h = some task) (priority : Nat) :
    Stirred o (o.regrade h.index task priority) := by
  have hlive := sound.live live
  simp only [Outline.regrade]
  by_cases hqueued : queued task = true
  · rw [if_pos hqueued]
    obtain ⟨p, hp⟩ := (queued_iff task).mp hqueued
    have hready : task.activity = .ready := (sound.settled.fits hlive).ready_iff.mpr (Or.inl ⟨p, hp⟩)
    have hmem : h.index ∈ o.row (.ready p) :=
      (sound.tagged.mem_row _ _).mpr ⟨(by rintro ⟨⟩), task, hlive, hp⟩
    refine ⟨closed, [], stirs_none ?_ (fun _ => rfl) ?_ ⟨fun j => decide (j ≠ h.index), ?_⟩⟩
    · refine runner_update rfl rfl rfl ?_
      rw [hlive]
      simp [runs, hready]
    · intro p' j hj
      rw [reseat_row] at hj
      -- it may enter the level of its new priority; it came from a level, so no task arrives
      by_cases hq : Place.ready p' = .ready priority
      · rw [if_pos hq] at hj
        rcases mem_enterRow.mp hj with ⟨rfl, -⟩ | hj
        · exact ⟨p, hmem⟩
        · exact ⟨p', (List.mem_filter.mp hj).1⟩
      · rw [if_neg hq] at hj
        exact ⟨p', (List.mem_filter.mp hj).1⟩
    · exact reseat_row_of_ne (by rintro ⟨⟩)
  · rw [if_neg hqueued]
    exact sound.stirs_put closed live rfl

theorem Sound.stirs_reprioritise {priority : Nat} {wanted : Bool}
    (done : o.reprioritise h priority = .ok (wanted, o')) : Stirred o o' := by
  obtain ⟨-, task, hget, ⟨-, -, rfl⟩ | ⟨-, -, rfl⟩⟩ := of_reprioritise_ok done
  · exact ⟨closed, [], stirs_refl _⟩
  · obtain ⟨hclosed, risen, hstirs⟩ := sound.stirs_regrade closed hget priority
    exact ⟨hclosed, risen, hstirs.frame rfl rfl rfl rfl⟩

theorem Sound.stirs_saveContext {context : Nat} (done : o.saveContext h context = .ok ((), o')) :
    Stirred o o' := by
  obtain ⟨task, hget, rfl⟩ := of_saveContext_ok done
  exact sound.stirs_put closed hget rfl

theorem Sound.stirs_takeCutShort : Stirred o o.takeCutShort.2 := by
  simp only [Outline.takeCutShort]
  cases hrunning : o.runner.bind o.get? with
  | none => exact ⟨closed, [], stirs_refl _⟩
  | some task =>
      dsimp only
      by_cases hcut : task.flags.cutShort = true
      · rw [if_pos hcut]
        exact sound.stirs_put closed (sound.of_running hrunning).2 rfl
      · rw [if_neg hcut]
        exact ⟨closed, [], stirs_refl _⟩

end Changes

/-! ## Ticks -/

/-- Between two outlines delayed tasks are called in the order in which they wake, and
    each is postponed. -/
structure Calls (o o' : Outline) (called : List Nat) : Prop where
  depth : o'.depth = o.depth
  runner : o'.runner = o.runner
  generation : o'.generation = o.generation
  levels : ∀ p, o'.row (.ready p) = o.row (.ready p)
  postponed : o'.row .postponed = o.row .postponed ++ called
  wakeOrder : o.wakeOrder = called ++ o'.wakeOrder

theorem Calls.trans {called' : List Nat} (first : Calls o o' called) (second : Calls o' o'' called') :
    Calls o o'' (called ++ called') where
  depth := second.depth.trans first.depth
  runner := second.runner.trans first.runner
  generation := second.generation.trans first.generation
  levels := fun p => (second.levels p).trans (first.levels p)
  postponed := by rw [second.postponed, first.postponed, List.append_assoc]
  wakeOrder := by rw [first.wakeOrder, second.wakeOrder, List.append_assoc]

/-- No task is called while the lists stay and the delayed tasks are in one order. -/
theorem calls_none (depth : o'.depth = o.depth) (runner : o'.runner = o.runner)
    (generation : o'.generation = o.generation) (row : o'.row = o.row)
    (wakeOrder : o'.wakeOrder = o.wakeOrder) : Calls o o' [] := by
  refine ⟨depth, runner, generation, ?_, ?_, wakeOrder.symm⟩
  · intro p
    rw [row]
  · rw [row, List.append_nil]

theorem Sound.calls_chargeRunner (sound : o.Sound) : Calls o o.chargeRunner [] := by
  rcases o.chargeRunner_cases with heq | ⟨task, hrunning, heq⟩
  · rw [heq]
    exact calls_none rfl rfl rfl rfl rfl
  · have hrunner := sound.chargeRunner_runner
    rw [heq] at hrunner ⊢
    exact calls_none rfl hrunner rfl rfl rfl

/-- When the counter wraps the two cycles change roles, and the one that ends is empty. -/
theorem Sound.calls_advance (sound : o.Sound) : Calls o o.advance [] := by
  rcases o.advance_cases with ⟨hwrap, heq⟩ | ⟨-, heq⟩
  · rw [heq]
    refine calls_none rfl rfl rfl rfl ?_
    simp only [Outline.wakeOrder, Cycle.other_other, sound.cycle_done hwrap, List.append_nil,
      List.nil_append]
  · rw [heq]
    exact calls_none rfl rfl rfl rfl rfl

/-- The tasks that are made ready while scheduling is suspended enter the row of the
    postponed ones and no other. -/
theorem Struck.wakeDue_row (struck : o.Struck) (closed : o.depth ≠ 0) (q : Place) :
    o.wakeDue.row q = (o.row q).filter (· ∉ o.due) ++ if q = .postponed then o.due else [] := by
  have hplace : ∀ t, o.readyPlace t = .postponed := fun t => if_neg closed
  show _ ++ o.due.filter _ = _
  refine congrArg _ ?_
  by_cases hq : q = .postponed
  · rw [if_pos hq, List.filter_eq_self]
    intro i hi
    obtain ⟨t, ht, -⟩ := struck.tagged.due.2 i hi
    simp [ht, hplace, hq]
  · rw [if_neg hq, List.filter_eq_nil_iff]
    intro i _
    cases o.tenant i with
    | none => simp
    | some t => simp [hplace, Ne.symm hq]

/-- The tasks whose tick has come are called. -/
theorem Struck.calls_wakeDue (struck : o.Struck) (closed : o.depth ≠ 0) :
    Calls o o.wakeDue o.due := by
  have hrow := struck.wakeDue_row closed
  have hdelayed : ∀ i ∈ o.due, i ∈ o.row (.delayed o.cycle) :=
    fun i hi => List.takeWhile_subset _ hi
  have hothers : ∀ q, q ≠ .delayed o.cycle → (o.row q).filter (· ∉ o.due) = o.row q := by
    intro q hq
    refine filter_of_disjoint fun i hi hdue => ?_
    exact struck.tagged.not_mem_of_mem hq hi (hdelayed i hdue)
  refine ⟨rfl, struck.wakeDue_runner, rfl, ?levels, ?postponed, ?wakeOrder⟩
  case levels =>
    intro p
    rw [hrow, hothers _ (by rintro ⟨⟩), if_neg (by rintro ⟨⟩), List.append_nil]
  case postponed =>
    rw [hrow, hothers _ (by rintro ⟨⟩), if_pos rfl]
  case wakeOrder =>
    have hcycle : o.wakeDue.cycle = o.cycle := rfl
    have hnext : Place.delayed o.cycle.other ≠ .delayed o.cycle :=
      fun heq => o.cycle.other_ne (Place.delayed.inj heq)
    -- those who are due are the head of the wake order, and the rest is its tail
    have hleft : (o.row (.delayed o.cycle)).filter (· ∉ o.due)
        = (o.row (.delayed o.cycle)).dropWhile fun i => decide (tickOf o.tenant i ≤ o.now) :=
      (dropWhile_eq_filter _ (struck.tagged.nodup _)).symm
    simp only [Outline.wakeOrder, hcycle, hrow, hothers _ hnext, hleft]
    rw [if_neg (by rintro ⟨⟩), if_neg (by rintro ⟨⟩), List.append_nil, List.append_nil,
      ← List.append_assoc]
    exact congrArg (· ++ _) List.takeWhile_append_dropWhile.symm

theorem Sound.calls_tick (sound : o.Sound) (closed : o.depth ≠ 0) :
    ∃ called, Calls o o.tick.2 called := by
  have hstruck := sound.chargeRunner.advance
  have hadvanced := sound.calls_chargeRunner.trans sound.chargeRunner.calls_advance
  have hwoken : Calls o o.passed _ :=
    hadvanced.trans (hstruck.calls_wakeDue fun hopen => closed (hadvanced.depth.symm.trans hopen))
  obtain ⟨spent, behind, due, heq⟩ := o.tick_passed
  rw [heq]
  exact ⟨_, hwoken.trans (calls_none rfl rfl rfl rfl rfl)⟩

/-- Any number of ticks call tasks in the order in which they wake. -/
theorem Sound.calls_elapse (sound : o.Sound) (closed : o.depth ≠ 0) (n : Nat) (asked : Bool) :
    ∃ called, Calls o (elapseFrom asked n o).2 called := by
  induction n generalizing o asked with
  | zero => exact ⟨[], calls_none rfl rfl rfl rfl rfl⟩
  | succ n ih =>
      obtain ⟨called, hfirst⟩ := sound.calls_tick closed
      have hclosed : o.tick.2.depth ≠ 0 := fun hopen => closed (hfirst.depth.symm.trans hopen)
      obtain ⟨called', hrest⟩ := ih sound.tick hclosed (asked || o.tick.1)
      exact ⟨called ++ called', hfirst.trans hrest⟩

/-- Tasks that are called rise from their waits. -/
theorem Calls.stirred (calls : Calls o o' called) (sound : o.Sound) (closed : o.depth ≠ 0) :
    Stirred o o' := by
  refine ⟨fun hopen => closed (calls.depth.symm.trans hopen), called, calls.runner,
    fun _ => congrFun calls.generation _, ?_, ⟨fun _ => true, ?_⟩, ?_, Or.inr ?_⟩
  · intro p i hi
    rw [calls.levels] at hi
    exact ⟨p, hi⟩
  · rw [calls.postponed, List.filter_true]
  · intro i t hi ht
    have hdelayed : ∃ c, i ∈ o.row (.delayed c) := by
      have hmem : i ∈ o.wakeOrder := by
        rw [calls.wakeOrder]
        exact List.mem_append_left _ hi
      rcases List.mem_append.mp hmem with hnow | hnext
      · exact ⟨_, hnow⟩
      · exact ⟨_, hnext⟩
    obtain ⟨c, hc⟩ := hdelayed
    obtain ⟨-, t', ht', hplace⟩ := (sound.tagged.mem_row _ _).mp hc
    rw [ht] at ht'
    obtain rfl := Option.some.inj ht'
    rw [(sound.settled.fits ht).blocked_iff.mpr (Or.inl ⟨c, hplace⟩)]
    decide
  · rw [calls.wakeOrder]
    exact List.prefix_append _ _

/-! ## Calls -/

/-- The first stage of a call stirs a suspended scheduler at most, unless it undoes a
    suspension. -/
theorem Sound.stirs_opens (sound : o.Sound) (closed : o.depth ≠ 0) {c : Call} (shut : c ≠ .thawAll)
    (opens : Opens c o o') : Stirred o o' := by
  cases opens with
  | nothing => exact ⟨closed, [], stirs_refl o⟩
  | enrolled _ done => exact sound.stirs_enroll closed done
  | enrolledIdle _ done => exact sound.stirs_enrollIdle closed done
  | removed _ done => exact sound.stirs_remove closed done
  | shelved _ done => exact sound.stirs_shelve closed done
  | resumed _ done => exact sound.stirs_resume closed done
  | regraded _ done => exact sound.stirs_reprioritise closed done
  | saved _ done => exact sound.stirs_saveContext closed done
  | blocked done => exact sound.stirs_block closed done
  | woken _ done => exact sound.stirs_endWait closed done
  | noticed => exact sound.stirs_takeCutShort closed
  | ticked =>
      obtain ⟨called, hcalls⟩ := sound.calls_tick closed
      exact hcalls.stirred sound closed
  | elapsed =>
      obtain ⟨called, hcalls⟩ := sound.calls_elapse closed _ false
      exact hcalls.stirred sound closed
  | frozen => exact ⟨saturatingSucc_ne_zero o.depth, [], stirs_of_row rfl rfl rfl⟩
  | thawed call => exact absurd call shut

/-- While scheduling is suspended a choice leaves a mark at most. -/
theorem Stirred.closes (stirred : Stirred o o') (closes : Closes o' o'') : Stirred o o'' := by
  obtain ⟨hclosed, risen, hstirs⟩ := stirred
  cases closes with
  | nothing => exact ⟨hclosed, risen, hstirs⟩
  | marked => exact ⟨hclosed, risen, hstirs.frame rfl rfl rfl rfl⟩
  | chosen behind choice =>
      simp only [choose] at choice
      rw [if_neg hclosed] at choice
      split at choice
      · obtain rfl := choice
        exact ⟨hclosed, risen, hstirs.frame rfl rfl rfl rfl⟩
      · obtain rfl := choice
        exact ⟨hclosed, risen, hstirs.frame rfl rfl rfl rfl⟩

/-- A call of a suspended scheduler stirs it at most, if it leaves scheduling
    suspended. -/
theorem Sound.stirs_call (sound : o.Sound) (closed : o.depth ≠ 0) {c : Call}
    {r : Except Refusal Reply} (ran : Step.attempt (run c) o = .ok r o') (closed' : o'.depth ≠ 0) :
    ∃ risen, Stirs o o' risen := by
  by_cases hthaw : c = .thawAll
  · rw [hthaw] at ran
    obtain ⟨-, rfl⟩ := EStateM.Result.ok.inj ran
    rcases o.thawAll_cases with ⟨hopen, -⟩ | ⟨hopen, heq⟩ | ⟨-, heq⟩
    · exact absurd hopen closed
    · rw [heq]
      exact ⟨[], stirs_of_row rfl rfl rfl⟩
    · rw [heq] at closed'
      exact absurd rfl closed'
  · obtain ⟨o₁, hopens, hcloses⟩ := staged_of_attempt ran
    exact ((sound.stirs_opens closed hthaw hopens).closes hcloses).2

/-! ## The tasks on the lists -/

section Rosters

variable (stirs : Stirs o o' risen) (sound : o.Sound) (sound' : o'.Sound)

include stirs sound'

/-- A slot on a list goes by the handle that it had. -/
theorem Stirs.named {q : Place} (hi : i ∈ o'.row q) : o'.named i = o.named i := by
  obtain ⟨-, task, htask, -⟩ := (sound'.tagged.mem_row q i).mp hi
  simp only [Outline.named, stirs.generation htask]

/-- No task comes onto a level that was not on one. -/
theorem Stirs.roster_ready {p : Nat} (hmem : h ∈ o'.roster (.ready p)) :
    ∃ p', h ∈ o.roster (.ready p') := by
  obtain ⟨i, hi, rfl⟩ := List.mem_map.mp hmem
  obtain ⟨p', hp'⟩ := stirs.leveled hi
  rw [stirs.named sound' hi]
  exact ⟨p', List.mem_map_of_mem hp'⟩

include sound

/-- Of the postponed tasks those stay that are still ready, and those that have risen
    are behind them. -/
theorem Stirs.roster_postponed :
    o'.roster .postponed = (o.roster .postponed).filter o'.isReady ++ risen.map o.named := by
  obtain ⟨stays, hrow⟩ := stirs.postponed
  have hnamed : o'.roster .postponed = (o'.row .postponed).map o.named := by
    refine List.map_congr_left fun i hi => ?_
    exact stirs.named sound' hi
  have hstays : ∀ i ∈ o.row .postponed, stays i = o'.isReady (o.named i) := by
    intro i hi
    rw [Bool.eq_iff_iff, sound'.isReady_iff]
    constructor
    · intro hstay
      have hmem : i ∈ o'.row .postponed := by
        rw [hrow]
        exact List.mem_append_left _ (List.mem_filter.mpr ⟨hi, hstay⟩)
      rw [hnamed]
      exact Or.inr (List.mem_map_of_mem hmem)
    · rintro (⟨p, hp⟩ | hmem)
      · -- a postponed task does not come onto a level
        obtain ⟨p', hp'⟩ := stirs.roster_ready sound' hp
        obtain ⟨j, hj, hji⟩ := List.mem_map.mp hp'
        obtain rfl := o.named_injective hji
        exact absurd hi (sound.tagged.not_mem_of_mem (by rintro ⟨⟩) hj)
      · rw [hnamed, hrow] at hmem
        obtain ⟨j, hj, hji⟩ := List.mem_map.mp hmem
        obtain rfl := o.named_injective hji
        rcases List.mem_append.mp hj with hkept | hrisen
        · exact (List.mem_filter.mp hkept).2
        · obtain ⟨-, t, ht, hplace⟩ := (sound.tagged.mem_row _ _).mp hi
          refine absurd ?_ (stirs.fresh hrisen ht)
          exact (sound.settled.fits ht).ready_iff.mpr (Or.inr hplace)
  rw [hnamed, hrow, List.map_append]
  refine congrArg (· ++ _) ?_
  simp only [roster, List.filter_map]
  exact congrArg _ (List.filter_congr hstays)

/-- The tasks that have risen are those that are ready and were not so before. -/
theorem Stirs.mem_risen :
    h ∈ risen.map o.named ↔ o.isReady h = false ∧ o'.isReady h = true := by
  have hpostponed := stirs.roster_postponed sound sound'
  constructor
  · intro hrisen
    have hready : o'.isReady h = true := by
      rw [sound'.isReady_iff, hpostponed]
      exact Or.inr (List.mem_append_right _ hrisen)
    refine ⟨?_, hready⟩
    obtain ⟨i, hi, rfl⟩ := List.mem_map.mp hrisen
    simp only [isReady, get?_named]
    cases ht : o.tenant i with
    | none => rfl
    | some t => simpa using stirs.fresh hi ht
  · rintro ⟨hunready, hready⟩
    have hbefore : ¬ ((∃ p, h ∈ o.roster (.ready p)) ∨ h ∈ o.roster .postponed) := by
      rw [← sound.isReady_iff, hunready]
      exact Bool.false_ne_true
    rcases sound'.isReady_iff.mp hready with ⟨p, hp⟩ | hmem
    · exact absurd (Or.inl (stirs.roster_ready sound' hp)) hbefore
    · rw [hpostponed] at hmem
      rcases List.mem_append.mp hmem with hkept | hrisen
      · exact absurd (Or.inr (List.mem_filter.mp hkept).1) hbefore
      · exact hrisen

end Rosters

end Outline

namespace Kernel

open Routine

variable {k k' : Kernel} {log : List Handle} {risen : List Nat}

/-! ## The log of a suspension -/

/-- The delayed tasks, in the order in which they wake. -/
def wakeOrder (k : Kernel) : List Handle :=
  k.handlesAt (.delayed k.delayed.current) ++ k.handlesAt (.delayed k.delayed.current.other)

/-- The tasks that were not ready in one kernel and are in the next: those that it
    woke, in the order in which they wake, and then any other. -/
def newlyReady (k k' : Kernel) : List Handle :=
  (k.wakeOrder ++ (k'.table.tasks.map Task.handle).filter (· ∉ k.wakeOrder)).filter
    fun h => !k.isReady h && k'.isReady h

/-- A history of calls between two kernels leaves scheduling suspended after each of
    them, and these are the tasks that became ready in it and stayed so, in the order in
    which they became ready. -/
inductive Stilled (k : Kernel) : List Handle → Kernel → Prop where
  | refl : Stilled k [] k
  | call {log : List Handle} {k' : Kernel} {c : Call} {p : Platform} {r : Except Refusal Reply}
      {m : Machine Kernel} (before : Stilled k log k') (ran : attempt c.run ⟨k', p⟩ = .ok r m)
      (closed : m.state.freeze.isOff = false) :
      Stilled k (log.filter m.state.isReady ++ k'.newlyReady m.state) m.state

/-- The delayed tasks go by the names of their slots. -/
theorem Intact.wakeOrder (intact : k.Intact) :
    k.wakeOrder = k.outline.wakeOrder.map k.outline.named := by
  simp only [Kernel.wakeOrder, intact.handlesAt, Outline.wakeOrder, List.map_append]
  rfl

theorem Intact.nodup_handles (intact : k.Intact) : (k.table.tasks.map Task.handle).Nodup :=
  k.table.nodup_handles intact.tagged.handle

/-- The tasks that a call makes ready are logged in the order in which they rise. -/
theorem Intact.newlyReady (intact : k.Intact) (sound : k.outline.Sound) (intact' : k'.Intact)
    (sound' : k'.outline.Sound) (stirs : k.outline.Stirs k'.outline risen) :
    k.newlyReady k' = risen.map k.outline.named := by
  have hmem : ∀ h, h ∈ k.newlyReady k' ↔ h ∈ risen.map k.outline.named := by
    intro h
    rw [stirs.mem_risen sound sound', Kernel.newlyReady, List.mem_filter, isReady_outline,
      isReady_outline, Bool.and_eq_true, Bool.not_eq_true', and_iff_right_iff_imp]
    rintro ⟨-, hready⟩
    obtain ⟨t, ht, -⟩ := Option.any_eq_true _ _ |>.mp hready
    rw [List.mem_append, List.mem_filter, decide_eq_true_eq]
    by_cases hwakes : h ∈ k.wakeOrder
    · exact Or.inl hwakes
    · refine Or.inr ⟨?_, hwakes⟩
      have hlive := sound'.live ht
      rw [← sound'.handle_eq ht, TaskTable.tasks_eq]
      refine List.mem_map_of_mem (List.mem_filterMap.mpr ⟨h.index, ?_, hlive⟩)
      exact List.mem_range.mpr (sound'.tagged.bound hlive)
  have hwakes : k.wakeOrder.Nodup := by
    rw [intact.wakeOrder]
    refine List.Nodup.map k.outline.named_injective (List.nodup_append.mpr ?_)
    refine ⟨sound.tagged.nodup _, sound.tagged.nodup _, ?_⟩
    rintro i hi j hj rfl
    refine sound.tagged.not_mem_of_mem ?_ hi hj
    exact fun heq => k.outline.cycle.other_ne (Place.delayed.inj heq).symm
  have hnodup : (k.newlyReady k').Nodup := by
    refine List.Nodup.filter _ (List.nodup_append.mpr ⟨hwakes, intact'.nodup_handles.filter _, ?_⟩)
    rintro h hh h' hh' rfl
    exact of_decide_eq_true (List.mem_filter.mp hh').2 hh
  have hrisen : (risen.map k.outline.named).Nodup := by
    have hpostponed := sound'.tagged.nodup_roster .postponed
    rw [stirs.roster_postponed sound sound'] at hpostponed
    exact hpostponed.sublist (List.sublist_append_right _ _)
  have hperm : (risen.map k.outline.named).Perm (k.newlyReady k') :=
    (List.perm_ext_iff_of_nodup hrisen hnodup).mpr fun h => (hmem h).symm
  -- both have the same tasks, so it is enough that those that rise are in the order of the log
  have hsublist : (risen.map k.outline.named).Sublist (k.newlyReady k') := by
    rcases stirs.inTurn with hshort | hearly
    · match risen, hshort with
      | [], _ => exact List.nil_sublist _
      | [i], _ =>
          refine List.singleton_sublist.mpr ((hmem _).mpr ?_)
          exact List.mem_map_of_mem List.mem_cons_self
    · have hself : (risen.map k.outline.named).filter (fun h => !k.isReady h && k'.isReady h)
          = risen.map k.outline.named := by
        rw [List.filter_eq_self]
        intro h hh
        exact (List.mem_filter.mp ((hmem h).mpr hh)).2
      rw [← hself]
      refine List.Sublist.filter _ (List.IsPrefix.sublist ?_)
      rw [intact.wakeOrder]
      exact (hearly.map _).trans (List.prefix_append _ _)
  exact (hsublist.eq_of_length hperm.length_eq).symm

/-! ## Calls that dispatch -/

/-- The platform is told to make no switch from a kernel on, however the routine ends. -/
def QuietFrom {α : Type} (k : Kernel) (r : Routine Kernel α) : Prop :=
  ∀ p : Platform, Ends r (fun _ n => n.platform.switches = p.switches)
    (fun _ n => n.platform.switches = p.switches) ⟨k, p⟩

theorem quietFrom_bind {α β : Type} {r : Routine Kernel β} {f : β → Routine Kernel α}
    (quiet : Quiet r) (rest : ∀ p b n, r ⟨k, p⟩ = .ok b n → QuietFrom n.state (f b)) :
    QuietFrom k (r >>= f) := by
  intro p
  have hfirst := quiet ⟨k, p⟩
  rw [ends_bind]
  simp only [Ends] at hfirst ⊢
  cases hr : r ⟨k, p⟩ with
  | ok b n =>
      rw [hr] at hfirst
      have hrest := rest p b n hr n.platform
      rwa [show n.platform.switches = p.switches from hfirst] at hrest
  | error e n =>
      rw [hr] at hfirst
      exact hfirst

/-- While scheduling is suspended no switch is planned. -/
theorem plans_none {m : Machine Kernel} (closed : m.state.freeze.isOff = false) :
    Ends planSwitch (fun plan _ => plan = none) (fun _ _ => True) m := by
  have hchoose : Ends choose (fun cur _ => m.state.current = some cur)
      (fun e _ => e = .refused .schedulerFrozen) m := by
    refine (ends_masked ..).mpr ?_
    show Ends (if m.state.freeze.isOff then _ else _) _ _ _
    rw [if_neg (by rw [closed]; exact Bool.false_ne_true)]
    cases hrunner : m.state.runner with
    | some cur => exact current_of_runner hrunner
    | none => exact rfl
  show Ends (attempt choose >>= _) _ _ m
  rw [ends_bind, ends_attempt]
  simp only [Ends] at hchoose ⊢
  cases hr : choose m with
  | ok cur n =>
      rw [hr] at hchoose
      simp only [if_pos (show some cur = m.state.current from hchoose.symm)]
      exact rfl
  | error e n =>
      rw [hr] at hchoose
      obtain rfl : e = .refused .schedulerFrozen := hchoose
      exact rfl

theorem quietFrom_switch (closed : k.freeze.isOff = false) : QuietFrom k switch := by
  refine quietFrom_bind quiet_planSwitch ?_
  intro p plan n hplan
  have hnone := plans_none (m := ⟨k, p⟩) closed
  simp only [Ends, hplan] at hnone
  obtain rfl : plan = none := hnone
  exact fun q => rfl

theorem quietFrom_cede (closed : k.freeze.isOff = false) : QuietFrom k cede := by
  refine quietFrom_bind (quiet_update _) ?_
  intro p u n hupdate
  obtain ⟨-, rfl⟩ := EStateM.Result.ok.inj hupdate
  exact quietFrom_switch closed

/-- A task that has left the processor is not replaced while scheduling is suspended. -/
theorem quietFrom_replaceRunner (closed : k.freeze.isOff = false) : QuietFrom k replaceRunner := by
  refine quietFrom_bind quiet_read ?_
  intro p k' n hread
  obtain ⟨rfl, rfl⟩ := EStateM.Result.ok.inj hread
  have hshut : ¬ (k.everDispatched && k.freeze.isOff) = true := by
    rw [closed, Bool.and_false]
    exact Bool.false_ne_true
  rw [if_neg hshut]
  exact fun q => quiet_update _ ⟨_, q⟩

/-- Telling the answer of a routine makes no switch. -/
theorem quietFrom_answer {α β : Type} {r : Routine Kernel β} (quiet : QuietFrom k r) (f : β → α) :
    QuietFrom k (r >>= fun b => pure (f b)) := by
  intro p
  have hfirst := quiet p
  rw [ends_bind]
  simp only [Ends] at hfirst ⊢
  cases hr : r ⟨k, p⟩ with
  | ok b n =>
      rw [hr] at hfirst
      exact hfirst
  | error e n =>
      rw [hr] at hfirst
      exact hfirst

/-- What lasts through a step lasts through the routine that obeys it. -/
theorem closed_of_obeys {α : Type} {r : Routine Kernel α}
    {f : Outline → Except Refusal (α × Outline)} (obeys : Obeys r k (f k.outline))
    (closed : k.freeze.isOff = false)
    (lasts : ∀ a o', f k.outline = .ok (a, o') → o'.depth = k.outline.depth) {p : Platform} {a : α}
    {n : Machine Kernel} (done : r ⟨k, p⟩ = .ok a n) : n.state.freeze.isOff = false := by
  obtain ⟨-, hdone⟩ := obeys.ok done
  rw [isOff_outline, lasts a _ hdone, ← isOff_outline]
  exact closed

/-- While scheduling is suspended no call makes a switch, of those that dispatch. -/
theorem Intact.quietFrom_run (intact : k.Intact) (closed : k.freeze.isOff = false) {c : Call}
    (dispatches : c.dispatches = true) : QuietFrom k c.run := by
  have hpure : ∀ (k' : Kernel), QuietFrom k' (pure ()) := fun k' q => quiet_pure () ⟨k', q⟩
  have hfound : ∀ {p : Platform} {cur : Handle} {n : Machine Kernel},
      needRunner ⟨k, p⟩ = .ok cur n → n.state.Intact ∧ n.state.freeze.isOff = false := by
    intro p cur n hn
    refine ⟨(intact.obeys_needRunner.ok hn).1, ?_⟩
    refine closed_of_obeys intact.obeys_needRunner closed (fun _ _ found => ?_) hn
    rw [(Outline.of_needRunner found).1]
  have hblocked : ∀ {k' : Kernel} {cur : Handle} {ticks : Tick} {p : Platform} {u : Unit}
      {n : Machine Kernel}, k'.Intact → k'.freeze.isOff = false → block cur ticks ⟨k', p⟩ = .ok u n →
      n.state.freeze.isOff = false := by
    intro k' cur ticks p u n hintact hclosed hn
    exact closed_of_obeys (f := (·.block cur ticks)) (hintact.obeys_block cur ticks) hclosed
      (fun _ _ done => (Outline.lasts_block done).depth) hn
  -- each call is quiet up to a switch, which scheduling that is suspended does not make
  cases c with
  | delete h =>
      refine quietFrom_answer (quietFrom_bind (quiet_remove h) fun p was n hn => ?_) _
      have hclosed := closed_of_obeys (f := (·.remove h)) (intact.obeys_remove h) closed
        (fun _ _ done => (Outline.lasts_remove done).depth) hn
      cases was with
      | true => exact quietFrom_replaceRunner hclosed
      | false => exact hpure n.state
  | suspend h =>
      refine quietFrom_answer (quietFrom_bind (quiet_shelve h) fun p was n hn => ?_) _
      have hclosed := closed_of_obeys (f := (·.shelve h)) (intact.obeys_shelve h) closed
        (fun _ _ done => (Outline.lasts_shelve done).depth) hn
      cases was with
      | true => exact quietFrom_replaceRunner hclosed
      | false => exact hpure n.state
  | pause ticks =>
      refine quietFrom_answer (quietFrom_bind (quiet_look _) fun p cur n hn => ?_) _
      obtain ⟨hintact, hclosed⟩ := hfound hn
      by_cases hticks : ticks = 0
      · rw [if_pos hticks]
        exact quietFrom_answer (quietFrom_cede hclosed) _
      · rw [if_neg hticks]
        refine quietFrom_bind (quiet_block cur ticks) fun q u z hz => ?_
        exact quietFrom_answer (quietFrom_switch (hblocked hintact hclosed hz)) _
  | pausePeriod anchor period =>
      refine quietFrom_answer (quietFrom_bind (quiet_look _) fun p cur n hn => ?_) _
      obtain ⟨hintact, hclosed⟩ := hfound hn
      refine quietFrom_bind quiet_read fun q k' z hread => ?_
      obtain ⟨rfl, rfl⟩ := EStateM.Result.ok.inj hread
      by_cases hahead : periodAhead anchor period n.state.now = true
      · rw [if_pos hahead]
        refine quietFrom_bind (quiet_block cur _) fun q' u z hz => ?_
        exact quietFrom_answer (quietFrom_switch (hblocked hintact hclosed hz)) _
      · rw [if_neg hahead]
        exact quietFrom_answer (quietFrom_cede hclosed) _
  | switch => exact quietFrom_answer (quietFrom_switch closed) _
  | cede => exact quietFrom_answer (quietFrom_cede closed) _
  | _ => cases dispatches

/-! ## Every suspension -/

theorem Stilled.reachable (stilled : Stilled k log k') (reachable : Reachable k) :
    Reachable k' := by
  induction stilled with
  | refl => exact reachable
  | call before ran closed ih => exact .call _ ih ran

theorem Stilled.closed (stilled : Stilled k log k') (closed : k.freeze.isOff = false) :
    k'.freeze.isOff = false := by
  cases stilled with
  | refl => exact closed
  | call before ran closed' => exact closed'

/-- Between two kernels the running task has stayed, no task has come onto a ready
    level, and those logged have been postponed behind what is left of the others. -/
structure StoodStill (k : Kernel) (log : List Handle) (k' : Kernel) : Prop where
  runner : k'.runner = k.runner
  leveled : ∀ {h p}, h ∈ k'.handlesAt (.ready p) → ∃ p', h ∈ k.handlesAt (.ready p')
  postponed : ∃ left, left.Sublist (k.handlesAt .postponed)
    ∧ k'.handlesAt .postponed = left ++ log

/-- One more call that leaves scheduling suspended. -/
theorem StoodStill.call (stood : StoodStill k log k') (reachable : Reachable k')
    (closed : k'.freeze.isOff = false) {c : Call} {p : Platform} {r : Except Refusal Reply}
    {m : Machine Kernel} (ran : attempt c.run ⟨k', p⟩ = .ok r m)
    (closed' : m.state.freeze.isOff = false) :
    StoodStill k (log.filter m.state.isReady ++ k'.newlyReady m.state) m.state := by
  obtain ⟨hintact, hsound⟩ := reachable.intact
  obtain ⟨hintact', hsound', hstep⟩ := hintact.of_call hsound ran
  rw [isOff_outline, decide_eq_false_iff_not] at closed closed'
  obtain ⟨risen, hstirs⟩ := hsound.stirs_call closed hstep closed'
  obtain ⟨hrunner, hleveled, left, hleft, hpostponed⟩ := stood
  have hready : m.state.isReady = m.state.outline.isReady := funext m.state.isReady_outline
  refine ⟨?_, ?_, left.filter m.state.isReady, List.filter_sublist.trans hleft, ?_⟩
  · rw [runner_outline, hstirs.runner, ← runner_outline, hrunner]
  · intro h q hmem
    rw [hintact'.handlesAt] at hmem
    obtain ⟨q', hq'⟩ := hstirs.roster_ready hsound' hmem
    rw [← hintact.handlesAt] at hq'
    exact hleveled hq'
  · rw [hintact'.handlesAt, hstirs.roster_postponed hsound hsound', ← hintact.handlesAt, hpostponed,
      List.filter_append, List.append_assoc, hready,
      hintact.newlyReady hsound hintact' hsound' hstirs]

/-- A suspended scheduler stands still.  Whatever is called, while scheduling stays
    suspended the running task is the same one, no task comes onto a ready level, and
    those that become ready are postponed in that order, behind what is left of those
    postponed before; and no call that dispatches has the platform swap tasks. -/
theorem suspended_stands_still (reachable : Reachable k) (closed : k.freeze.isOff = false)
    (stilled : Stilled k log k') :
    StoodStill k log k'
      ∧ ∀ (c : Call) (p : Platform) (m : Machine Kernel), c.dispatches = true →
          ((∃ a, c.run ⟨k', p⟩ = .ok a m) ∨ ∃ e, c.run ⟨k', p⟩ = .error e m) →
          m.platform.switches = p.switches := by
  constructor
  · induction stilled with
    | refl => exact ⟨rfl, fun hmem => ⟨_, hmem⟩, _, List.Sublist.refl _, (List.append_nil _).symm⟩
    | call before ran closed' ih =>
        exact ih.call (before.reachable reachable) (before.closed closed) ran closed'
  · intro c p m dispatches ended
    obtain ⟨hintact, -⟩ := (stilled.reachable reachable).intact
    have hquiet := hintact.quietFrom_run (stilled.closed closed) dispatches p
    simp only [Ends] at hquiet
    rcases ended with ⟨a, hrun⟩ | ⟨e, hrun⟩
    · rw [hrun] at hquiet
      exact hquiet
    · rw [hrun] at hquiet
      exact hquiet

/-- While a worker runs and scheduling is suspended, a spare task is resumed and then a
    sleeper wakes: both are postponed, in this order. -/
theorem suspended_stands_still_resume_wake :
    ∃ k k' : Kernel, Reachable k ∧ k.freeze.isOff = false ∧ k.runner = some ⟨0, 0⟩
      ∧ Stilled k [⟨2, 0⟩, ⟨1, 0⟩] k' ∧ StoodStill k [⟨2, 0⟩, ⟨1, 0⟩] k'
      ∧ ∀ p m a, Call.switch.run ⟨k', p⟩ = .ok a m → m.platform.switches = p.switches := by
  have hvalid : ({} : Settings).Valid := by decide
  have hdone : isDone (do
      let _ ← perform [.create { name := "worker", priority := 3 },
        .create { name := "sleeper", priority := 5 },
        .create { name := "spare", priority := 4, begins := .suspended }, .start 0, .pause 2, .freezeAll]
      let k ← read
      let _ ← attempt (Call.resume ⟨2, 0⟩).run
      let k₁ ← read
      let _ ← attempt (Call.elapse 3).run
      let k₂ ← read
      if k.freeze.isOff = false ∧ k.runner = some ⟨0, 0⟩ ∧ k₁.freeze.isOff = false
          ∧ k₂.freeze.isOff = false
          ∧ ([].filter k₁.isReady ++ k.newlyReady k₁).filter k₂.isReady ++ k₁.newlyReady k₂
            = [⟨2, 0⟩, ⟨1, 0⟩] then
        pure ()
      else
        refuse .invalidState) ⟨initial {}, {}⟩ = true := by
    decide +kernel
  obtain ⟨⟨⟩, n, hrun⟩ := of_isDone hdone
  obtain ⟨rs, m, hstarted, hrun⟩ := of_bind_ok hrun
  obtain ⟨k, m', hread, hrun⟩ := of_bind_ok hrun
  obtain ⟨rfl, rfl⟩ := EStateM.Result.ok.inj hread
  obtain ⟨r₁, m₁, hresumed, hrun⟩ := of_bind_ok hrun
  obtain ⟨k₁, m₁', hread, hrun⟩ := of_bind_ok hrun
  obtain ⟨rfl, rfl⟩ := EStateM.Result.ok.inj hread
  obtain ⟨r₂, m₂, helapsed, hrun⟩ := of_bind_ok hrun
  obtain ⟨k₂, m₂', hread, hrun⟩ := of_bind_ok hrun
  obtain ⟨rfl, rfl⟩ := EStateM.Result.ok.inj hread
  obtain ⟨⟨hclosed, hrunner, hclosed₁, hclosed₂, hlog⟩, -⟩ := of_unless_ok hrun
  have hinitial : Reachable (⟨initial {}, {}⟩ : Machine Kernel).state := .initial hvalid
  have hreachable : Reachable m.state := hinitial.perform hstarted
  have hstilled : Stilled m.state [⟨2, 0⟩, ⟨1, 0⟩] m₂.state := by
    rw [← hlog]
    exact .call (.call .refl hresumed hclosed₁) helapsed hclosed₂
  obtain ⟨hstood, hquiet⟩ := suspended_stands_still hreachable hclosed hstilled
  exact ⟨m.state, m₂.state, hreachable, hclosed, hrunner, hstilled, hstood,
    fun p m a hswitch => hquiet .switch p m rfl (Or.inl ⟨a, hswitch⟩)⟩

end Kernel

end PriorityScheduler
