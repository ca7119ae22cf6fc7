import PriorityScheduler.Proofs.Lasting
import PriorityScheduler.Proofs.Promptness
import PriorityScheduler.Proofs.Reachability
import PriorityScheduler.Proofs.Stages

/-! # No preemption is forgotten

    A scheduler is ATTENDED when its caller lets a choice follow at once on every
    tick that is answered by the wish for a switch.  Between the calls of such a
    run an open scheduler either has the mark of a switch or has no reason for
    one: a choice would keep the running task and change nothing.

    What becomes due while scheduling is suspended is not lost either.  The mark
    lasts until the suspension ends, and the tasks that were postponed are then
    compared with the running one. -/

namespace PriorityScheduler

namespace Outline

variable {o o' : Outline}

/-! ## Calls -/

/-- A call leaves a prompt outline behind, if it does not answer with the wish for a
    switch after a tick. -/
theorem Prompt.call (prompt : o.Prompt) (sound : o.Sound) (preempts : o.settings.preemption = true)
    {c : Call} {r : Except Refusal Reply} (ran : Step.attempt (Outline.run c) o = .ok r o')
    (unasked : c.asks = true → r ≠ .ok (.answer true)) : o'.Prompt := by
  cases hasks : c.asks with
  | false => exact leaves_of_attempt (prompt.run sound hasks) ran
  | true =>
      have hquiet := unasked hasks
      cases c with
      | tick =>
          obtain ⟨rfl, rfl⟩ := EStateM.Result.ok.inj ran
          rcases prompt.tick sound preempts with hasked | hprompt
          · exact absurd (congrArg (fun b => Except.ok (Reply.answer b)) hasked) hquiet
          · exact hprompt
      | elapse ticks =>
          obtain ⟨rfl, rfl⟩ := EStateM.Result.ok.inj ran
          rcases prompt.elapseFrom sound preempts ticks.toNat false with hasked | hprompt
          · exact absurd (congrArg (fun b => Except.ok (Reply.answer b)) hasked) hquiet
          · exact hprompt
      | _ => cases hasks

/-- A call that makes a choice leaves a prompt outline behind, whatever was due
    before. -/
theorem Sound.prompt_call (sound : o.Sound) {c : Call} (chooses : c.chooses = true)
    {r : Except Refusal Reply} (ran : Step.attempt (Outline.run c) o = .ok r o') : o'.Prompt := by
  have hleaves : Step.Leaves Prompt (run c o) := by
    cases c with
    | choose => exact Step.leaves_answer sound.prompt_choose fun _ _ => ⟨_, rfl⟩
    | planSwitch => exact Step.leaves_answer (chooses_planSwitch o sound) fun _ _ => ⟨_, rfl⟩
    | switch => exact Step.leaves_answer (chooses_switch o sound) fun _ _ => ⟨_, rfl⟩
    | _ => cases chooses
  exact leaves_of_attempt hleaves ran

/-- At the beginning no switch is due. -/
theorem prompt_of_empty (none : ∀ i, o.tenant i = none) (behind : o.sendBehind = false) :
    o.Prompt := by
  constructor
  · intro hbehind
    rw [behind] at hbehind
    cases hbehind
  · intro _ i task p htask _
    rw [none i] at htask
    cases htask

end Outline

namespace Kernel

open Routine

variable {k : Kernel}

/-! ## Attended runs -/

/-- The kernels between the steps of a run with preemption, on any platform, in which
    a call that lets ticks pass and answers that a switch is wanted is one step with
    the choice that follows. -/
inductive Attended : Kernel → Prop where
  | initial {s : Settings} (valid : s.Valid) (preempts : s.preemption = true) :
      Attended (initial s)
  | call {k : Kernel} (c : Call) {p : Platform} {r : Except Refusal Reply} {m : Machine Kernel}
      (before : Attended k) (ran : attempt c.run ⟨k, p⟩ = .ok r m)
      (unasked : c.asks = true → r ≠ .ok (.answer true)) : Attended m.state
  | heeded {k : Kernel} (c c' : Call) {p p' : Platform} {r : Except Refusal Reply}
      {m m' : Machine Kernel} (before : Attended k) (asks : c.asks = true)
      (ran : attempt c.run ⟨k, p⟩ = .ok (.ok (.answer true)) m) (chooses : c'.chooses = true)
      (ran' : attempt c'.run ⟨m.state, p'⟩ = .ok r m') : Attended m'.state

/-- A history without ticks is attended. -/
theorem Attended.perform {calls : List Call} {m m' : Machine Kernel}
    {rs : List (Except Refusal Reply)} (before : Attended m.state)
    (timeless : ∀ c ∈ calls, c.asks = false) (ran : Kernel.perform calls m = .ok rs m') :
    Attended m'.state := by
  induction calls generalizing m rs with
  | nil =>
      obtain ⟨-, rfl⟩ := EStateM.Result.ok.inj ran
      exact before
  | cons c rest ih =>
      obtain ⟨r, n, hfirst, hrest⟩ := of_bind_ok ran
      obtain ⟨rs', n', hothers, hdone⟩ := of_bind_ok hrest
      obtain ⟨-, rfl⟩ := EStateM.Result.ok.inj hdone
      have hc : c.asks = false := timeless c List.mem_cons_self
      have hnext : Attended n.state := by
        refine .call c before hfirst ?_
        rw [hc]
        rintro ⟨⟩
      exact ih hnext (fun c' hc' => timeless c' (List.mem_cons_of_mem c hc')) hothers

/-- An attended kernel is reachable. -/
theorem Attended.reachable (attended : Attended k) : Reachable k := by
  induction attended with
  | initial valid _ => exact .initial valid
  | call c _ ran _ ih => exact .call c ih ran
  | heeded c c' _ _ ran _ ran' ih => exact .call c' (.call c ih ran) ran'

/-- No call changes the settings of a reachable kernel. -/
theorem Intact.settings_of_call {c : Call} {p : Platform} {r : Except Refusal Reply}
    {m : Machine Kernel} (intact : k.Intact) (sound : k.outline.Sound)
    (ran : attempt c.run ⟨k, p⟩ = .ok r m) : m.state.settings = k.settings := by
  obtain ⟨-, -, hstep⟩ := intact.of_call sound ran
  have hkept := (Outline.kept_settings k.settings).run (c := c) trivial
  exact ((Step.keeps_attempt hkept).ok ⟨sound, rfl⟩ hstep).2

/-- An attended kernel preempts, and has a prompt outline. -/
theorem Attended.prompt (attended : Attended k) :
    k.settings.preemption = true ∧ k.outline.Prompt := by
  induction attended with
  | @initial s _ preempts =>
      exact ⟨preempts, Outline.prompt_of_empty (tenant_initial s) rfl⟩
  | @call k c p r m before ran unasked ih =>
      obtain ⟨hintact, hsound⟩ := before.reachable.intact
      obtain ⟨-, -, hstep⟩ := hintact.of_call hsound ran
      rw [hintact.settings_of_call hsound ran]
      exact ⟨ih.1, ih.2.call hsound ih.1 hstep unasked⟩
  | @heeded k c c' p p' r m m' before asks ran chooses ran' ih =>
      obtain ⟨hintact, hsound⟩ := before.reachable.intact
      obtain ⟨hintact₁, hsound₁, -⟩ := hintact.of_call hsound ran
      obtain ⟨-, -, hstep⟩ := hintact₁.of_call hsound₁ ran'
      rw [hintact₁.settings_of_call hsound₁ ran', hintact.settings_of_call hsound ran]
      exact ⟨ih.1, hsound₁.prompt_call chooses hstep⟩

/-! ## Kernels without a reason to switch -/

/-- No switch is due: a choice keeps the running task and changes nothing. -/
structure Calm (k : Kernel) : Prop where
  /-- A choice answers the running task and leaves the kernel as it is. -/
  stays : ∀ {cur : Handle}, k.runner = some cur → ∀ p : Platform,
    ∃ p', choose ⟨k, p⟩ = .ok cur ⟨k, p'⟩
  /-- No ready task is above the running one. -/
  below : ∀ {cur task}, k.runner = some cur → k.table.get? cur = some task →
    ∀ {h other}, k.table.get? h = some other → other.activity = .ready →
      other.priority ≤ task.priority
  /-- The running task is not to be sent behind its peers. -/
  noRotation : k.sendBehind = false
  /-- While no task runs, none is ready. -/
  empty : k.runner = none → k.ready.isEmpty = true ∧ ∀ p, k.slotsAt (.ready p) = []

/-- A choice keeps the running task if no ready one is above it, and none beside it in case
    the task is to go behind its peers.  All that changes are the marks of a switch. -/
theorem Intact.choose_keeps (intact : k.Intact) {cur : Handle} {task : Task}
    (opened : k.freeze.isOff = true) (running : k.runner = some cur)
    (live : k.table.get? cur = some task) (above : k.outline.readyAbove task.priority = false)
    (alone : k.sendBehind = true → k.outline.row (.ready task.priority) = []) (p : Platform) :
    ∃ p', choose ⟨k, p⟩ = .ok cur ⟨{ k with switchDue := false, sendBehind := false }, p'⟩ := by
  have hfind : k.table.find cur = .ok task := TaskTable.find_ok live
  have hleads : Leads choose k
      (fun a k' => a = cur ∧ k' = { k with switchDue := false, sendBehind := false })
      (fun _ _ => False) := by
    refine leads_masked (leads_bind (leads_read ?_))
    rw [if_pos opened]
    refine leads_bind (leads_update ?_)
    simp only [running]
    refine leads_bind (leads_look_ok hfind ?_)
    rw [intact.topLevel]
    rcases intact.tagged.topLevel_cases with ⟨hnone, -⟩ | ⟨top, hsome, htop⟩
    · rw [hnone]
      exact leads_pure ⟨rfl, rfl⟩
    · rw [hsome]
      simp only [Outline.readyAbove, hsome] at above
      -- if it is to go behind its peers it has none, so its level is not the highest one
      have hstays : ¬ (top = task.priority ∧ k.sendBehind = true) := by
        rintro ⟨rfl, hbehind⟩
        exact htop.1 (alone hbehind)
      simp only [if_neg (of_decide_eq_false above), if_neg hstays]
      exact leads_pure ⟨rfl, rfl⟩
  cases hend : choose ⟨k, p⟩ with
  | ok a m =>
      obtain ⟨rfl, hstate⟩ := hleads.ok hend
      exact ⟨m.platform, by rw [← hstate]⟩
  | error e m => exact absurd (hleads.error hend) id

/-- A choice between tasks none of which is due keeps the running one, and changes nothing. -/
theorem Intact.choose_stays (intact : k.Intact) {cur : Handle} {task : Task}
    (opened : k.freeze.isOff = true) (due : k.switchDue = false) (behind : k.sendBehind = false)
    (running : k.runner = some cur) (live : k.table.get? cur = some task)
    (above : k.outline.readyAbove task.priority = false) (p : Platform) :
    ∃ p', choose ⟨k, p⟩ = .ok cur ⟨k, p'⟩ := by
  -- no mark is set, so clearing the marks changes nothing
  have hsame : ({ k with switchDue := false, sendBehind := false } : Kernel) = k := by
    cases k
    cases due
    cases behind
    rfl
  have halone : k.sendBehind = true → k.outline.row (.ready task.priority) = [] := by
    rw [behind]
    rintro ⟨⟩
  obtain ⟨p', hchosen⟩ := intact.choose_keeps opened running live above halone p
  exact ⟨p', hsame ▸ hchosen⟩

/-- A prompt scheduler that is open and has no mark of a switch has no reason for
    one. -/
theorem Intact.calm (intact : k.Intact) (sound : k.outline.Sound) (prompt : k.outline.Prompt)
    (opened : k.freeze.isOff = true) (due : k.switchDue = false) : k.Calm := by
  have hunbeaten : k.outline.Unbeaten := prompt.unbeaten due
  have hdepth : k.outline.depth = 0 := by
    rw [isOff_outline] at opened
    exact of_decide_eq_true opened
  -- a rotation that is asked for has left the mark of a switch
  have hbehind : k.sendBehind = false := by
    cases hbehind : k.sendBehind with
    | false => rfl
    | true => exact (prompt.rotation hbehind).symm.trans due
  have hlead : ∀ {cur task}, k.runner = some cur → k.table.get? cur = some task →
      k.outline.runnerPriority = some task.priority := by
    intro cur task hrunner hget
    rw [runner_outline] at hrunner
    rw [get?_outline] at hget
    exact Outline.runnerPriority_of_runner hrunner hget
  refine ⟨?_, ?_, hbehind, ?_⟩
  · intro cur hrunner p
    have hrunner' := hrunner
    rw [runner_outline] at hrunner'
    obtain ⟨-, task, hget, -⟩ := Outline.runner_eq_some hrunner'
    rw [← get?_outline] at hget
    refine intact.choose_stays opened due hbehind hrunner hget ?_ p
    rw [sound.tagged.readyAbove_eq_false]
    exact hunbeaten.rows sound.tagged (hlead hrunner hget)
  · intro cur task hrunner hget h other hother hready
    rw [get?_outline] at hother
    obtain ⟨q, hq, hle⟩ := hunbeaten.ready sound hdepth hother hready
    rw [hlead hrunner hget] at hq
    obtain rfl := Option.some.inj hq
    exact hle
  · intro hrunner
    have hnone : k.outline.runnerPriority = none := by
      rw [runner_outline] at hrunner
      simp only [Outline.runnerPriority, hrunner, Option.bind_none, Option.map_none]
    have hempty := hunbeaten.empty sound.tagged hnone
    refine ⟨?_, hempty⟩
    rw [intact.isEmpty, sound.tagged.topLevel_eq_none hempty]
    rfl

/-! ## What becomes due while scheduling is suspended -/

/-- A switch is due, or will be once the postponed tasks are called in. -/
def WantsSwitch (k : Kernel) : Prop :=
  k.switchDue = true ∨ k.sendBehind = true ∨ ∃ h task, k.table.get? h = some task
    ∧ task.activity = .ready ∧ k.beatsRunner task.priority = true

/-- The kernels that calls lead to from a kernel, each of them made while scheduling
    is suspended. -/
inductive Meanwhile (k : Kernel) : Kernel → Prop where
  | refl : Meanwhile k k
  | call {k' : Kernel} (c : Call) {p : Platform} {r : Except Refusal Reply} {m : Machine Kernel}
      (before : Meanwhile k k') (closed : k'.freeze.isOff = false)
      (ran : attempt c.run ⟨k', p⟩ = .ok r m) : Meanwhile k m.state

/-- The mark of a switch lasts while scheduling is suspended, and through the call
    that ends the suspension. -/
theorem Meanwhile.due {k' : Kernel} (meanwhile : Meanwhile k k') (intact : k.Intact)
    (sound : k.outline.Sound) (due : k.switchDue = true) :
    (k'.Intact ∧ k'.outline.Sound) ∧ k'.switchDue = true := by
  induction meanwhile with
  | refl => exact ⟨⟨intact, sound⟩, due⟩
  | call c _ closed ran ih =>
      obtain ⟨⟨hintact, hsound⟩, hdue⟩ := ih
      obtain ⟨hintact₁, hsound₁, hstep⟩ := hintact.of_call hsound ran
      rw [isOff_outline] at closed
      exact ⟨⟨hintact₁, hsound₁⟩,
        Outline.call_due hsound (of_decide_eq_false closed) hdue hstep⟩

/-! ## No preemption is forgotten -/

/-- No preemption is forgotten.  Between the steps of an attended run, an open
    scheduler without the mark of a switch would keep the running task and change
    nothing, and with no running task it has no ready one.  A switch that is due
    when a suspension ends is marked then, and a mark made before lasts until
    then. -/
theorem no_preemption_forgotten (attended : Attended k) :
    (k.freeze.isOff = true → k.switchDue = false → k.Calm)
      ∧ (∀ (p : Platform) (r : Except Refusal Reply) (m : Machine Kernel),
          k.freeze.isOff = false → k.WantsSwitch → attempt Call.thawAll.run ⟨k, p⟩ = .ok r m →
          m.state.freeze.isOff = true → r = .ok (.answer true) ∧ m.state.switchDue = true)
      ∧ ∀ k', Meanwhile k k' → k.switchDue = true → k'.switchDue = true := by
  obtain ⟨hintact, hsound⟩ := attended.reachable.intact
  obtain ⟨-, hprompt⟩ := attended.prompt
  refine ⟨hintact.calm hsound hprompt, ?_, ?_⟩
  · intro p r m hclosed hwanted ran hopened
    obtain ⟨-, -, hstep⟩ := hintact.of_call hsound ran
    obtain ⟨rfl, hstate⟩ := EStateM.Result.ok.inj hstep
    rw [isOff_outline] at hclosed hopened
    have hopens : k.outline.thawAll.2.depth = 0 := by
      rw [hstate]
      exact of_decide_eq_true hopened
    simp only [WantsSwitch, get?_outline, beatsRunner_outline] at hwanted
    obtain ⟨hanswer, hdue⟩ :=
      hprompt.thawAll_wanted hsound (of_decide_eq_false hclosed) hopens hwanted
    rw [hstate] at hdue
    exact ⟨congrArg (fun b => Except.ok (Reply.answer b)) hanswer, hdue⟩
  · exact fun k' meanwhile hdue => (meanwhile.due hintact hsound hdue).2

/-- A running worker has nothing to fear, until a rival is made while scheduling is
    suspended; the end of the suspension marks the switch to the rival. -/
theorem no_preemption_forgotten_rival :
    ∃ (k k' : Kernel) (p : Platform) (r : Except Refusal Reply) (m : Machine Kernel),
      Attended k ∧ k.freeze.isOff = true ∧ k.switchDue = false ∧ k.runner = some ⟨0, 0⟩ ∧ k.Calm
        ∧ Attended k' ∧ k'.freeze.isOff = false ∧ k'.WantsSwitch
        ∧ attempt Call.thawAll.run ⟨k', p⟩ = .ok r m ∧ m.state.freeze.isOff = true
        ∧ r = .ok (.answer true) ∧ m.state.switchDue = true := by
  have hvalid : ({} : Settings).Valid := by decide
  have hdone : isDone (do
      let _ ← perform [.create { name := "worker", priority := 1 }, .start 0]
      let k ← read
      if k.freeze.isOff = true ∧ k.switchDue = false ∧ k.runner = some ⟨0, 0⟩ then
        let _ ← perform [.freezeAll, .create { name := "rival", priority := 3 }]
        let k' ← read
        if k'.freeze.isOff = false ∧ ((k'.table.get? ⟨2, 0⟩).any fun task =>
            decide (task.activity = .ready) && k'.beatsRunner task.priority) = true then
          let _ ← attempt Call.thawAll.run
          let k'' ← read
          if k''.freeze.isOff = true then pure () else refuse .invalidState
        else
          refuse .invalidState
      else
        refuse .invalidState) ⟨initial {}, {}⟩ = true := by
    decide +kernel
  -- the history is run once, and read backwards here
  obtain ⟨⟨⟩, n, hrun⟩ := of_isDone hdone
  obtain ⟨rs, m, hstarted, hrun⟩ := of_bind_ok hrun
  obtain ⟨k, m₁, hread, hrun⟩ := of_bind_ok hrun
  obtain ⟨rfl, rfl⟩ := EStateM.Result.ok.inj hread
  obtain ⟨⟨hopened, hdue, hrunner⟩, hrun⟩ := of_unless_ok hrun
  obtain ⟨rs', m', hfrozen, hrun⟩ := of_bind_ok hrun
  obtain ⟨k', m₂, hread', hrun⟩ := of_bind_ok hrun
  obtain ⟨rfl, rfl⟩ := EStateM.Result.ok.inj hread'
  obtain ⟨⟨hclosed, hrival⟩, hrun⟩ := of_unless_ok hrun
  obtain ⟨r, m'', hthawed, hrun⟩ := of_bind_ok hrun
  obtain ⟨k'', m₃, hread'', hrun⟩ := of_bind_ok hrun
  obtain ⟨rfl, rfl⟩ := EStateM.Result.ok.inj hread''
  obtain ⟨hreopened, -⟩ := of_unless_ok hrun
  have hattended : Attended m.state :=
    Attended.perform (.initial hvalid rfl) (by simp [Call.asks]) hstarted
  have hattended' : Attended m'.state := hattended.perform (by simp [Call.asks]) hfrozen
  have hwanted : m'.state.WantsSwitch := by
    obtain ⟨task, hget, hready⟩ := (Option.any_eq_true ..).mp hrival
    rw [Bool.and_eq_true, decide_eq_true_eq] at hready
    exact Or.inr (Or.inr ⟨⟨2, 0⟩, task, hget, hready.1, hready.2⟩)
  obtain ⟨hcalm, -, -⟩ := no_preemption_forgotten hattended
  obtain ⟨-, hmarked, -⟩ := no_preemption_forgotten hattended'
  obtain ⟨hanswer, hdue'⟩ := hmarked m'.platform r m'' hclosed hwanted hthawed hreopened
  exact ⟨m.state, m'.state, m'.platform, r, m'', hattended, hopened, hdue, hrunner,
    hcalm hopened hdue, hattended', hclosed, hwanted, hthawed, hreopened, hanswer, hdue'⟩

end Kernel

end PriorityScheduler
