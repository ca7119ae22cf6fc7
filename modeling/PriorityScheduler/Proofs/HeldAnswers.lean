import PriorityScheduler.Proofs.Promptness
import PriorityScheduler.Proofs.Rotation
import PriorityScheduler.Proofs.Stillness

/-! # Answers while scheduling is suspended

    Seven calls answer whether a switch should follow.  While scheduling is suspended
    none can follow, and six of the calls hold their answer back: they leave the mark of
    a switch, or postpone the task that is to be switched to, and answer no.

    The change of a priority does not ask if scheduling is suspended.  It answers yes
    whenever it would in an open scheduler, and whoever acts on the answer finds that
    the running task stays. -/

namespace PriorityScheduler

namespace Outline

variable {o o' : Outline} {c : Call} {b : Bool} {h : Handle} {task : Task} {priority : Nat}

/-! ## The calls that answer -/

/-- A call that answers whether a switch should follow, its answer, and what it leaves
    behind. -/
inductive Answers (o : Outline) : Call → Bool → Outline → Prop where
  | ticked : Answers o .tick o.tick.1 o.tick.2
  | elapsed (ticks : Tick) :
      Answers o (.elapse ticks) (elapseFrom false ticks.toNat o).1 (elapseFrom false ticks.toNat o).2
  | thawed : Answers o .thawAll o.thawAll.1 o.thawAll.2
  | woken {h : Handle} {b : Bool} {o' : Outline} (done : o.endWait h false = .ok (b, o')) :
      Answers o (.wake h) b o'
  | cutShort {h : Handle} {b : Bool} {o' : Outline} (done : o.endWait h true = .ok (b, o')) :
      Answers o (.cutShort h) b o'
  | resumed {h : Handle} {b : Bool} {o' : Outline} (done : o.resume h = .ok (b, o')) :
      Answers o (.resume h) b o'
  | regraded {h : Handle} {priority : Nat} {b : Bool} {o' : Outline}
      (done : o.reprioritise h priority = .ok (b, o')) : Answers o (.reprioritise h priority) b o'

/-- A step that tells its value in the reply is done when the reply is given. -/
theorem of_answer {s : Step Bool}
    (ran : (s >>= fun a => pure (Reply.answer a)) o = .ok (.answer b) o') :
    s o = .ok b o' := by
  obtain ⟨a, o₁, hstep, htold⟩ := of_bind_ok ran
  obtain ⟨hreply, rfl⟩ := EStateM.Result.ok.inj htold
  rw [hstep, Reply.answer.inj hreply]

/-- Only the seven calls give such an answer. -/
theorem answers_of_run (ran : run c o = .ok (.answer b) o') : Answers o c b o' := by
  cases c with
  | tick =>
      obtain ⟨rfl, rfl⟩ := EStateM.Result.ok.inj (of_answer ran)
      exact .ticked
  | elapse ticks =>
      obtain ⟨rfl, rfl⟩ := EStateM.Result.ok.inj (of_answer ran)
      exact .elapsed ticks
  | thawAll =>
      obtain ⟨rfl, rfl⟩ := EStateM.Result.ok.inj (of_answer ran)
      exact .thawed
  | wake h => exact .woken (Step.of_guarded_ok (of_answer ran))
  | cutShort h => exact .cutShort (Step.of_guarded_ok (of_answer ran))
  | resume h => exact .resumed (Step.of_guarded_ok (of_answer ran))
  | reprioritise h priority => exact .regraded (Step.of_guarded_ok (of_answer ran))
  | pausePeriod anchor period =>
      obtain ⟨⟨blocked, next⟩, o₁, -, htold⟩ := of_bind_ok ran
      cases htold
  | _ =>
      -- every other call tells something else
      obtain ⟨a, o₁, -, htold⟩ := of_bind_ok ran
      cases htold

/-! ## Six that hold it back -/

/-- A tick that passes while scheduling is suspended asks for nothing. -/
theorem tick_closed (closed : o.depth ≠ 0) : o.tick.1 = false := by
  obtain ⟨spent, behind, heq⟩ := o.passed.judge_snd
  have hclosed : ¬ o.passed.judge.2.depth = 0 := by
    rw [heq]
    exact fun hopen => closed (o.passed_rest.2.1.symm.trans hopen)
  show o.passed.answerTick.1 = false
  simp only [answerTick]
  rw [if_neg hclosed]

/-- Nor does any number of ticks. -/
theorem elapseFrom_closed (closed : o.depth ≠ 0) (n : Nat) : (elapseFrom false n o).1 = false := by
  induction n generalizing o with
  | zero => rfl
  | succ n ih =>
      have hclosed : o.tick.2.depth ≠ 0 := fun hopen => closed (o.tick_clock.2.2.symm.trans hopen)
      simp only [elapseFrom, tick_closed closed, Bool.or_false]
      exact ih hclosed

/-- While scheduling is suspended, and stays so, only a new priority is answered by yes. -/
theorem Answers.regraded_of_closed (answers : Answers o c true o') (closed : o.depth ≠ 0)
    (shut : c = .thawAll → o'.depth ≠ 0) :
    ∃ h priority, c = .reprioritise h priority ∧ o.reprioritise h priority = .ok (true, o') := by
  generalize hb : true = b at answers
  cases answers with
  | ticked =>
      rw [tick_closed closed] at hb
      cases hb
  | elapsed ticks =>
      rw [elapseFrom_closed closed] at hb
      cases hb
  | woken done =>
      obtain ⟨task, -, -, hwanted, -⟩ := of_endWait_ok done
      rw [← hb, decide_eq_false closed, Bool.false_and] at hwanted
      cases hwanted
  | cutShort done =>
      obtain ⟨task, -, -, hwanted, -⟩ := of_endWait_ok done
      rw [← hb, decide_eq_false closed, Bool.false_and] at hwanted
      cases hwanted
  | resumed done =>
      obtain ⟨task, -, ⟨-, hwanted, -⟩ | ⟨-, hwanted, -⟩⟩ := of_resume_ok done
      · rw [← hb, decide_eq_false closed, Bool.false_and] at hwanted
        cases hwanted
      · rw [← hb] at hwanted
        cases hwanted
  | thawed =>
      rcases o.thawAll_cases with ⟨hopen, -⟩ | ⟨-, heq⟩ | ⟨-, heq⟩
      · exact absurd hopen closed
      · rw [heq] at hb
        cases hb
      · have hshut := shut rfl
        rw [heq] at hshut
        exact absurd rfl hshut
  -- a change of priority does not ask whether scheduling goes on
  | regraded done => exact ⟨_, _, rfl, hb ▸ done⟩

/-! ## One that does not -/

/-- A priority beats the running task if it is above its own. -/
theorem beats_iff : o.beats priority = true ↔ ∀ q, o.runnerPriority = some q → q < priority := by
  simp only [beats]
  cases o.runnerPriority with
  | none => simp
  | some q => simp

/-- A task on a ready level wants a switch if its new priority beats the running task. -/
theorem Sound.regradeWants_queued (sound : o.Sound) (live : o.get? h = some task)
    (onLevel : queued task = true) :
    (o.regrade h.index task priority).regradeWants task priority = o.beats priority := by
  obtain ⟨p, hplace⟩ := (queued_iff task).mp onLevel
  have hready : task.activity = .ready :=
    (sound.settled.fits (sound.live live)).ready_iff.mpr (Or.inl ⟨p, hplace⟩)
  have hrunner : (o.reseat .back h.index
      { task with priority := priority, activity := .ready, place := .ready priority }).runnerPriority
      = o.runnerPriority :=
    o.runnerPriority_reseat .back (sound.rested live (by rw [hready]; rintro ⟨⟩)) (by rintro ⟨⟩)
  rw [show o.regrade h.index task priority = _ from if_pos onLevel]
  simp only [regradeWants, hready, onLevel, Bool.true_and, beats, hrunner]

/-- The rows of the ready tasks, and the priority of the one that runs, decide if a switch is
    wanted for a new priority; that scheduling is suspended does not matter. -/
theorem Sound.regradeWants_iff (sound : o.Sound) (live : o.get? h = some task) :
    (o.regrade h.index task priority).regradeWants task priority = true
      ↔ task.activity = .running ∧ (∃ p, priority < p ∧ o.row (.ready p) ≠ [])
        ∨ (∃ p, task.place = .ready p) ∧ ∀ q, o.runnerPriority = some q → q < priority := by
  have hfits := sound.settled.fits (sound.live live)
  rw [← queued_iff]
  by_cases hqueued : queued task = true
  · have hrests : task.activity ≠ .running := by
      obtain ⟨p, hplace⟩ := (queued_iff task).mp hqueued
      rw [ne_eq, hfits.running_iff, hplace]
      rintro ⟨⟩
    rw [sound.regradeWants_queued live hqueued, beats_iff]
    simp only [hrests, hqueued, false_and, true_and, false_or]
  · have habove : o.readyAbove priority = true ↔ ∃ p, priority < p ∧ o.row (.ready p) ≠ [] := by
      rw [← Bool.not_eq_false, sound.tagged.readyAbove_eq_false]
      simp only [not_forall, exists_prop, ne_eq]
    -- a task on no level keeps its place, so the levels are as they were
    have hlevels : (o.regrade h.index task priority).readyAbove priority = o.readyAbove priority := by
      rw [show o.regrade h.index task priority = _ from if_neg hqueued]
      rfl
    rw [or_iff_left fun hboth => hqueued hboth.1, ← habove, ← hlevels]
    cases hactivity : task.activity with
    | running => simp only [regradeWants, hactivity, true_and]
    | ready => simp [regradeWants, hactivity, hqueued]
    | _ => simp [regradeWants, hactivity]

/-- A yes that is given while scheduling is suspended leaves the mark of a switch, and the
    running task where it is. -/
theorem Sound.of_regraded_closed (sound : o.Sound) (closed : o.depth ≠ 0)
    (done : o.reprioritise h priority = .ok (true, o')) :
    o'.depth ≠ 0 ∧ o'.switchDue = true ∧ o'.runner = o.runner := by
  obtain ⟨hclosed', risen, hstirs⟩ := sound.stirs_reprioritise closed done
  obtain ⟨-, task, -, ⟨-, hnone, -⟩ | ⟨-, -, hleft⟩⟩ := of_reprioritise_ok done
  · cases hnone
  · refine ⟨hclosed', ?_, hstirs.runner⟩
    rw [hleft]
    exact Bool.or_true _

/-- A choice that is made while scheduling is suspended keeps the running task. -/
theorem of_choose_closed {next : Handle} (closed : o.depth ≠ 0)
    (chosen : choose o = .ok next o') : o.runner = some next := by
  simp only [choose] at chosen
  rw [if_neg closed] at chosen
  cases hrunner : o.runner with
  | none =>
      rw [hrunner] at chosen
      cases chosen
  | some cur =>
      rw [hrunner] at chosen
      exact congrArg some (EStateM.Result.ok.inj chosen).1

end Outline

namespace Kernel

open Routine

variable {k : Kernel} {c : Call} {b : Bool} {h : Handle} {priority : Nat}

/-- A new priority by which a switch should follow in an open scheduler: that of the running
    task, if it is below a ready task by then; or that of a task on a ready level, if it is
    above the running one by then. -/
def Displaces (k : Kernel) (h : Handle) (priority : Nat) : Prop :=
  priority < k.settings.levels ∧ ∃ task, k.table.get? h = some task ∧ task.priority ≠ priority
    ∧ (task.activity = .running ∧ (∃ p, priority < p ∧ k.handlesAt (.ready p) ≠ [])
      ∨ (∃ p, task.place = .ready p)
        ∧ ∀ r running, k.runner = some r → k.table.get? r = some running →
          running.priority < priority)

/-- A change of priority is answered by yes exactly if the new one displaces the running
    task. -/
theorem Intact.displaces_iff (intact : k.Intact) (sound : k.outline.Sound) :
    (∃ o', k.outline.reprioritise h priority = .ok (true, o')) ↔ k.Displaces h priority := by
  have hrunner : (∀ q, k.outline.runnerPriority = some q → q < priority)
      ↔ ∀ r running, k.runner = some r → k.table.get? r = some running →
        running.priority < priority := by
    constructor
    · intro hbeaten r running hr hget
      rw [runner_outline] at hr
      rw [get?_outline] at hget
      exact hbeaten _ (Outline.runnerPriority_of_runner hr hget)
    · intro hbeaten q hq
      obtain ⟨running, hrunning, rfl⟩ := Option.map_eq_some_iff.mp hq
      obtain ⟨r, hr, hget⟩ := Option.bind_eq_some_iff.mp hrunning
      rw [← runner_outline] at hr
      rw [← get?_outline] at hget
      exact hbeaten r running hr hget
  have hlevels : (∃ p, priority < p ∧ k.outline.row (.ready p) ≠ [])
      ↔ ∃ p, priority < p ∧ k.handlesAt (.ready p) ≠ [] := by
    simp only [intact.handlesAt, ne_eq, k.outline.roster_eq_nil]
  constructor
  · rintro ⟨o', done⟩
    obtain ⟨hvalid, task, hget, ⟨-, hnone, -⟩ | ⟨hother, hwanted, -⟩⟩ := Outline.of_reprioritise_ok done
    · cases hnone
    · have hwants := (sound.regradeWants_iff hget).mp hwanted.symm
      rw [hrunner, hlevels] at hwants
      exact ⟨hvalid, task, (get?_outline ..).trans hget, hother, hwants⟩
  · rintro ⟨hvalid, task, hget, hother, hdisplaces⟩
    rw [← hrunner, ← hlevels] at hdisplaces
    rw [get?_outline] at hget
    have hwants := (sound.regradeWants_iff hget).mpr hdisplaces
    refine ⟨(k.outline.regrade h.index task priority).wantSwitchIf true, ?_⟩
    simp only [Outline.reprioritise, Outline.find, hget]
    rw [if_neg (show ¬ k.outline.settings.levels ≤ priority from Nat.not_le_of_lt hvalid)]
    show (if task.priority = priority then _ else _) = _
    rw [if_neg hother]
    show Except.ok (_, _) = _
    rw [hwants]

theorem Intact.choose_closed (intact : k.Intact) (sound : k.outline.Sound)
    (closed : k.outline.depth ≠ 0) {q : Platform} {next : Handle} {n : Machine Kernel}
    (chosen : choose ⟨k, q⟩ = .ok next n) : k.runner = some next := by
  obtain ⟨-, hchoice⟩ := (intact.enacts_choose sound.runnerFree).ok chosen
  rw [runner_outline]
  exact Outline.of_choose_closed closed hchoice

/-- While scheduling is suspended the answer that a switch should follow is held back, except
    after a new priority.  Let one of the seven calls that answer so be made in a reachable
    kernel whose scheduling is suspended, and let it stay so.  The answer is yes exactly if the
    call gives a task a new priority that displaces the running one.  It is in vain: the mark
    of a switch is left, and a choice keeps the running task or is refused. -/
theorem answer_held_back_unless_regraded (reachable : Reachable k)
    (closed : k.freeze.isOff = false) {p : Platform} {m : Machine Kernel}
    (ran : attempt c.run ⟨k, p⟩ = .ok (.ok (.answer b)) m)
    (shut : c = .thawAll → m.state.freeze.isOff = false) :
    (b = true ↔ ∃ h priority, c = .reprioritise h priority ∧ k.Displaces h priority)
      ∧ (b = true → m.state.switchDue = true
        ∧ ∀ q next n, choose ⟨m.state, q⟩ = .ok next n → k.runner = some next) := by
  obtain ⟨hintact, hsound⟩ := reachable.intact
  obtain ⟨hintact', hsound', hstep⟩ := hintact.of_call hsound ran
  have hrun : Outline.run c k.outline = .ok (.answer b) m.state.outline := by
    rcases Step.of_attempt_ok hstep with ⟨a, ha, hrun⟩ | ⟨cause, hcause, -⟩
    · rw [Except.ok.inj ha]
      exact hrun
    · cases hcause
  have hanswers := Outline.answers_of_run hrun
  rw [isOff_outline, decide_eq_false_iff_not] at closed
  have hshut : c = .thawAll → m.state.outline.depth ≠ 0 := by
    intro hcall
    have hclosed := shut hcall
    rwa [isOff_outline, decide_eq_false_iff_not] at hclosed
  refine ⟨⟨?regraded, ?displaces⟩, ?vain⟩
  case regraded =>
    rintro rfl
    obtain ⟨h, priority, hcall, hdone⟩ := hanswers.regraded_of_closed closed hshut
    exact ⟨h, priority, hcall, (hintact.displaces_iff hsound).mp ⟨_, hdone⟩⟩
  case displaces =>
    rintro ⟨h, priority, rfl, hdisplaces⟩
    obtain ⟨o', hdone⟩ := (hintact.displaces_iff hsound).mpr hdisplaces
    cases hanswers with
    | regraded done =>
        rw [hdone] at done
        exact (Prod.mk.inj (Except.ok.inj done)).1.symm
  case vain =>
    rintro rfl
    obtain ⟨h, priority, -, hdone⟩ := hanswers.regraded_of_closed closed hshut
    obtain ⟨hclosed', hdue, hrunner⟩ := hsound.of_regraded_closed closed hdone
    refine ⟨hdue, fun q next n hchosen => ?_⟩
    rw [← hintact'.choose_closed hsound' hclosed' hchosen, runner_outline, runner_outline, hrunner]

/-- A worker that suspends scheduling and then sinks below a ready peer is told to switch, and
    keeps the processor if it does as it is told. -/
theorem answer_held_back_unless_regraded_sunk :
    ∃ (k : Kernel) (p : Platform) (m : Machine Kernel), Reachable k ∧ k.freeze.isOff = false
      ∧ k.runner = some ⟨0, 0⟩
      ∧ attempt (Call.reprioritise ⟨0, 0⟩ 1).run ⟨k, p⟩ = .ok (.ok (.answer true)) m
      ∧ k.Displaces ⟨0, 0⟩ 1 ∧ m.state.switchDue = true
      ∧ ∀ q next n, choose ⟨m.state, q⟩ = .ok next n → k.runner = some next := by
  have hvalid : ({} : Settings).Valid := by decide
  have hdone : isDone (do
      let _ ← perform [.create { name := "worker", priority := 3 },
        .create { name := "peer", priority := 2 }, .start 0, .freezeAll]
      let k ← read
      if k.freeze.isOff = false ∧ k.runner = some ⟨0, 0⟩ then
        let r ← attempt (Call.reprioritise ⟨0, 0⟩ 1).run
        if r = .ok (.answer true) then pure () else refuse .invalidState
      else
        refuse .invalidState) ⟨initial {}, {}⟩ = true := by
    decide +kernel
  obtain ⟨⟨⟩, n, hrun⟩ := of_isDone hdone
  obtain ⟨rs, m₀, hfrozen, hrun⟩ := of_bind_ok hrun
  obtain ⟨k, m₁, hread, hrun⟩ := of_bind_ok hrun
  obtain ⟨rfl, rfl⟩ := EStateM.Result.ok.inj hread
  obtain ⟨⟨hclosed, hrunner⟩, hrun⟩ := of_unless_ok hrun
  obtain ⟨r, m, hanswered, hrun⟩ := of_bind_ok hrun
  obtain ⟨rfl, -⟩ := of_unless_ok hrun
  have hinitial : Reachable (⟨initial {}, {}⟩ : Machine Kernel).state := .initial hvalid
  have hreachable : Reachable m₀.state := hinitial.perform hfrozen
  obtain ⟨hanswer, hvain⟩ := answer_held_back_unless_regraded hreachable hclosed
    (p := m₀.platform) hanswered (fun hthaw => nomatch hthaw)
  obtain ⟨h, priority, hcall, hdisplaces⟩ := hanswer.mp rfl
  obtain ⟨rfl, rfl⟩ := Call.reprioritise.inj hcall
  obtain ⟨hdue, hstays⟩ := hvain rfl
  exact ⟨m₀.state, m₀.platform, m, hreachable, hclosed, hrunner, hanswered, hdisplaces, hdue,
    hstays⟩

end Kernel

end PriorityScheduler
