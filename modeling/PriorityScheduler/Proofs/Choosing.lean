import PriorityScheduler.Proofs.Attendance
import PriorityScheduler.Proofs.Neighbours

/-! # A choice takes a highest task and loses none

    While scheduling goes on, a choice either keeps the running task or ELECTS the first
    task of the highest level, and then the running one, if there is one, goes back to
    the level of its priority.  Whichever it is, no other task is touched, nobody is
    lost, and no ready task is above the one that runs; so the next choice, if nothing
    happens in between, is the same one and changes nothing. -/

namespace PriorityScheduler

open Function (update)
open Routine

namespace Outline

variable {o o' : Outline} {t h : Handle} {i p : Nat} {rest : List Nat} {task next : Task}

/-! ## The running task -/

/-- No task is found to run exactly when no live task runs. -/
theorem Sound.runner_eq_none_iff (sound : o.Sound) :
    o.runner = none ↔ ∀ h task, o.get? h = some task → task.activity ≠ .running := by
  constructor
  · intro hnone h task hget
    refine sound.rests hget ?_
    rw [hnone]
    rintro ⟨⟩
  · intro hrests
    cases hrunner : o.runner with
    | none => rfl
    | some h =>
        obtain ⟨-, task, hget, hrunning⟩ := runner_eq_some hrunner
        exact absurd hrunning (hrests h task hget)

/-! ## What an election is -/

/-- A task is elected: it runs, no level above its priority holds a task, and it was the
    first of the highest level unless it ran before.  The task that ran before is back
    on the level of its priority, and no other is touched. -/
structure Elects (o : Outline) (t : Handle) (o' : Outline) : Prop
    extends TouchesOnly (t :: o.runner.toList) o o' where
  running : o'.runner = some t
  highest : ∀ task, o'.get? t = some task → ∀ p, task.priority < p → o'.row (.ready p) = []
  first : o.runner ≠ some t → ∃ p rest, o.roster (.ready p) = t :: rest
    ∧ ∀ p', p < p' → o.roster (.ready p') = []
  displaced : ∀ cur task, o.runner = some cur → o.get? cur = some task → cur ≠ t →
    o'.get? cur = some { task with activity := .ready, place := .ready task.priority }

theorem confined_dispatch (o : Outline) (i : Nat) (task : Task) :
    Confined i o (o.dispatch i task) :=
  have reseated := o.confined_reseat .back i { task with activity := .running, place := .unlinked }
  ⟨reseated.tenant, reseated.generation, reseated.row, reseated.self⟩

/-- The slot of a running task that is put back is the only one to change. -/
theorem confined_putBack (o : Outline) (side : Side) (task : Task) :
    Confined task.handle.index o (o.putBack side task) :=
  o.confined_reseat side task.handle.index _

/-- The first of the highest level is named by the slot that it is in. -/
theorem Tagged.roster_top (tagged : o.Tagged) (top : o.IsTop p) (row : o.row (.ready p) = i :: rest)
    (first : o.tenant i = some next) : ∃ p rest, o.roster (.ready p) = next.handle :: rest
      ∧ ∀ p', p < p' → o.roster (.ready p') = [] := by
  refine ⟨p, rest.map o.named, ?_, ?_⟩
  · simp only [roster, row, List.map_cons, named, tagged.handle first]
  · intro p' hp'
    simp only [roster, top.2 p' hp', List.map_nil]

section Dispatch

variable (sound : o.Sound) (linked : ∀ {j t}, o.tenant j = some t → t.place ≠ .unlinked)
  (top : o.IsTop p) (row : o.row (.ready p) = i :: rest) (first : o.tenant i = some next)

include sound linked first

/-- A dispatched task is the one that runs. -/
theorem Sound.dispatch_runner :
    (o.dispatch i next).get? next.handle = some { next with activity := .running, place := .unlinked }
      ∧ (o.dispatch i next).runner = some next.handle := by
  have hsound := sound.dispatch first linked
  let task : Task := { next with activity := .running, place := .unlinked }
  have hself : (o.dispatch i next).tenant i = some task := Function.update_self ..
  have hrunner : (o.dispatch i next).runner = some task.handle :=
    hsound.runner_of_unlinked hself rfl
  exact ⟨hsound.tagged.get?_handle hself, hrunner⟩

/-- To dispatch a task is to touch only this one. -/
theorem Sound.dispatch_touchesOnly : TouchesOnly [next.handle] o (o.dispatch i next) := by
  have hsound := sound.dispatch first linked
  have hindex : next.handle.index = i := congrArg Handle.index (sound.tagged.handle first)
  have hconfined : Confined next.handle.index o (o.dispatch i next) := by
    rw [hindex]
    exact o.confined_dispatch i next
  exact hconfined.touchesOnly sound.tagged hsound.tagged
    (generation_of_get? (sound.tagged.get?_handle first))

include top row

/-- The first of the highest level is dispatched, and no ready task is above it. -/
theorem Sound.dispatch_highest {task : Task} {p' : Nat}
    (live : (o.dispatch i next).get? next.handle = some task) (above : task.priority < p') :
    (o.dispatch i next).row (.ready p') = [] := by
  obtain ⟨hself, -⟩ := sound.dispatch_runner linked first
  obtain rfl := Option.some.inj (hself.symm.trans live)
  have hlevel : p = next.priority := sound.level_of_row row first
  have hempty : o.row (.ready p') = [] := top.2 p' (hlevel ▸ above)
  show (o.reseat .back i { next with activity := .running, place := .unlinked }).row (.ready p') = []
  rw [reseat_row_of_ne (by rintro ⟨⟩), hempty]
  rfl

end Dispatch

/-! ## How a choice elects -/

/-- A running task that no ready one is above stays elected. -/
theorem elects_kept (running : o.runner = some task.handle) (live : o.get? task.handle = some task)
    (above : ∀ p, task.priority < p → o.row (.ready p) = []) :
    Elects o task.handle o.cleared := by
  refine ⟨⟨fun _ _ => rfl, fun _ => rfl⟩, running, ?highest, ?first, ?displaced⟩
  case highest =>
    intro task' hget p hp
    obtain rfl := Option.some.inj (live.symm.trans hget)
    exact above p hp
  case first => exact fun hother => absurd running hother
  case displaced =>
    intro cur _ hrunner _ hne
    rw [running] at hrunner
    exact absurd (Option.some.inj hrunner).symm hne

/-- While no task runs, the first of the highest level is elected. -/
theorem Sound.elects_taken (sound : o.Sound) (idle : o.runner = none) (top : o.IsTop p)
    (row : o.row (.ready p) = i :: rest) (first : o.tenant i = some next) :
    Elects o next.handle (o.cleared.dispatch i next) := by
  have hlinked : ∀ {j t}, o.cleared.tenant j = some t → t.place ≠ .unlinked :=
    fun live => sound.linked_of_idle idle live
  obtain ⟨-, hrunning⟩ := sound.cleared.dispatch_runner hlinked first
  obtain ⟨htasks, horder⟩ := sound.cleared.dispatch_touchesOnly hlinked first
  have htouches : TouchesOnly [next.handle] o (o.cleared.dispatch i next) := ⟨htasks, horder⟩
  refine ⟨htouches.mono ?sub, hrunning, ?highest, ?first, ?displaced⟩
  case sub => exact List.cons_subset_cons _ (List.nil_subset _)
  case highest =>
    exact fun _ hget _ hp => sound.cleared.dispatch_highest hlinked top row first hget hp
  case first => exact fun _ => sound.tagged.roster_top top row first
  case displaced =>
    intro cur _ hrunner
    rw [idle] at hrunner
    cases hrunner

/-- A running task that makes room goes back to its level, and the first of the highest
    level is elected. -/
theorem Sound.elects_replaced (sound : o.Sound) {side : Side}
    (running : o.runner = some task.handle) (live : o.get? task.handle = some task)
    (top : o.IsTop p) (row : o.row (.ready p) = i :: rest) (first : o.tenant i = some next)
    (why : side = .front ∧ task.priority < p ∨ side = .back ∧ p = task.priority) :
    Elects o next.handle ((o.cleared.putBack side task).dispatch i next) := by
  obtain ⟨hsound, hlinked⟩ := sound.cleared.putBack side running live
  have hfirst := sound.putBack_tenant side running live row first
  have hunlinked : task.place = .unlinked := sound.runnerFree _ _ running live
  obtain ⟨htop, rest', hrow⟩ := putBack_top sound.tagged.cleared live hunlinked top row why
  obtain ⟨-, hrunning⟩ := hsound.dispatch_runner hlinked hfirst
  obtain ⟨htasks, horder⟩ := (o.cleared.confined_putBack side task).touchesOnly
    sound.cleared.tagged hsound.tagged (generation_of_get? live)
  have hback : TouchesOnly [task.handle] o (o.cleared.putBack side task) := ⟨htasks, horder⟩
  have htouches := hsound.dispatch_touchesOnly hlinked hfirst
  -- two changes, each confined to a slot: the task that ran, and then the one elected
  refine ⟨(hback.mono ?sub).trans (htouches.mono ?sub'), hrunning, ?highest, ?first, ?displaced⟩
  case sub =>
    rw [running]
    exact List.subset_cons_self _ _
  case sub' => exact List.cons_subset_cons _ (List.nil_subset _)
  case highest =>
    exact fun _ hget _ hp => hsound.dispatch_highest hlinked htop hrow hfirst hget hp
  case first => exact fun _ => sound.tagged.roster_top top row first
  case displaced =>
    intro cur task' hrunner hget hne
    rw [running] at hrunner
    obtain rfl := Option.some.inj hrunner
    obtain rfl := Option.some.inj (live.symm.trans hget)
    rw [htouches.tasks _ (fun hmem => hne (List.mem_singleton.mp hmem))]
    exact get?_update_self (o := o) live rfl rfl

/-- A choice of an open scheduler that has a task to run elects one, and forgets what it
    was wanted for. -/
theorem Sound.choose_elects (sound : o.Sound) (opened : o.depth = 0)
    (chosen : choose o = .ok t o') :
    Elects o t o' ∧ o'.depth = 0 ∧ o'.switchDue = false ∧ o'.sendBehind = false := by
  have hchoice := choose_choice sound.tagged sound.runnerFree
  rw [chosen] at hchoice
  cases hchoice with
  | frozen closed _ => exact absurd opened closed
  | kept _ running live above _ => exact ⟨elects_kept running live above, opened, rfl, rfl⟩
  | taken _ idle top row first =>
      exact ⟨sound.elects_taken idle top row first, opened, rfl, rfl⟩
  | @replaced side p i rest task next _ running live top row first why =>
      have hwhy : side = .front ∧ task.priority < p ∨ side = .back ∧ p = task.priority :=
        why.imp id fun behind => ⟨behind.1, behind.2.1⟩
      exact ⟨sound.elects_replaced running live top row first hwhy, opened, rfl, rfl⟩

end Outline

namespace Kernel

variable {k k' : Kernel} {t h : Handle}

/-! ## Running and ready tasks -/

/-- A task runs, or is in the ready queue. -/
def Runnable (k : Kernel) (h : Handle) : Prop :=
  k.runner = some h ∨ ∃ p, h ∈ k.handlesAt (.ready p)

/-- No task runs, and the ready queue is empty. -/
def Deserted (k : Kernel) : Prop :=
  (∀ h task, k.table.get? h = some task → task.activity ≠ .running)
    ∧ ∀ p, k.handlesAt (.ready p) = []

/-- While scheduling goes on, the tasks that run or are in the ready queue are those that
    their records call so. -/
theorem Intact.runnable_iff (intact : k.Intact) (sound : k.outline.Sound)
    (opened : k.outline.depth = 0) : k.Runnable h
      ↔ ∃ task, k.outline.get? h = some task
        ∧ (task.activity = .running ∨ task.activity = .ready) := by
  simp only [Runnable, intact.handlesAt, sound.tagged.mem_roster, runner_outline]
  constructor
  · rintro (hrunner | ⟨p, -, task, hget, hplace⟩)
    · obtain ⟨-, task, hget, hrunning⟩ := Outline.runner_eq_some hrunner
      exact ⟨task, hget, Or.inl hrunning⟩
    · have hfits := sound.settled.fits (sound.live hget)
      exact ⟨task, hget, Or.inr (hfits.ready_iff.mpr (Or.inl ⟨p, hplace⟩))⟩
  · rintro ⟨task, hget, hrunning | hready⟩
    · refine Or.inl (Classical.byContradiction fun hother => ?_)
      exact sound.rests hget hother hrunning
    · have hfits := sound.settled.fits (sound.live hget)
      rcases hfits.ready_iff.mp hready with ⟨p, hplace⟩ | hplace
      · exact Or.inr ⟨p, (by rintro ⟨⟩), task, hget, hplace⟩
      · exact absurd opened (hfits.postponed hplace)

theorem Intact.deserted_iff (intact : k.Intact) (sound : k.outline.Sound) :
    k.Deserted ↔ k.outline.runner = none ∧ ∀ p, k.outline.row (.ready p) = [] := by
  simp only [Deserted, get?_outline, sound.runner_eq_none_iff, intact.handlesAt, Outline.roster,
    List.map_eq_nil_iff]

/-! ## Choices -/

/-- A task is elected, and nobody is lost.  It was dispatched last and is the only one
    that runs, no task that is left in the ready queue is above it, and it was the first
    of the highest level unless it ran before.  Those that run or are in the ready queue
    are the same ones; a task that ran before is back on the level of its priority; no
    other is touched; and to choose again is to choose the same task and to change
    nothing. -/
structure Elects (k : Kernel) (t : Handle) (k' : Kernel) : Prop
    extends TouchesOnly (t :: k.runner.toList) k k' where
  current : k'.current = some t
  only : ∀ h, (∃ task, k'.table.get? h = some task ∧ task.activity = .running) ↔ h = t
  highest : ∀ task, k'.table.get? t = some task → ∀ p h other, h ∈ k'.handlesAt (.ready p) →
    k'.table.get? h = some other → other.priority ≤ task.priority
  runnable : ∀ h, k'.Runnable h ↔ k.Runnable h
  first : k.runner ≠ some t → ∃ p rest, k.handlesAt (.ready p) = t :: rest
    ∧ ∀ p', p < p' → k.handlesAt (.ready p') = []
  displaced : ∀ cur task, k.runner = some cur → k.table.get? cur = some task → cur ≠ t →
    k'.table.get? cur = some { task with activity := .ready, place := .ready task.priority }
      ∧ cur ∈ k'.handlesAt (.ready task.priority)
  again : ∀ p, ∃ p', choose ⟨k', p⟩ = .ok t ⟨k', p'⟩

section Elections

variable (intact : k.Intact) (sound : k.outline.Sound) (intact' : k'.Intact)
  (sound' : k'.outline.Sound) (elects : Outline.Elects k.outline t k'.outline)

include intact' sound' elects in
/-- A running task that makes room is put back on the level of its priority. -/
theorem Intact.displaced_elects {cur : Handle} (running : k.outline.runner = some cur)
    (other : cur ≠ t) : ∃ task, k.outline.get? cur = some task
      ∧ k'.outline.get? cur = some { task with activity := .ready, place := .ready task.priority }
      ∧ cur ∈ k'.handlesAt (.ready task.priority) := by
  obtain ⟨-, task, hget, -⟩ := Outline.runner_eq_some running
  have hback := elects.displaced cur task running hget other
  refine ⟨task, hget, hback, ?_⟩
  rw [intact'.handlesAt, sound'.tagged.mem_roster]
  exact ⟨(by rintro ⟨⟩), _, hback, rfl⟩

include intact sound intact' sound' elects in
/-- The tasks that run or are in the ready queue are those from before. -/
theorem Intact.runnable_elects (opened : k.outline.depth = 0) (opened' : k'.outline.depth = 0)
    (h : Handle) : k'.Runnable h ↔ k.Runnable h := by
  have helected : k'.Runnable t := Or.inl ((runner_outline k').trans elects.running)
  have hbefore : k.Runnable t := by
    simp only [Runnable, runner_outline, intact.handlesAt]
    by_cases hsame : k.outline.runner = some t
    · exact Or.inl hsame
    · obtain ⟨p, rest, hroster, -⟩ := elects.first hsame
      exact Or.inr ⟨p, hroster ▸ List.mem_cons_self⟩
  by_cases helect : h = t
  · subst helect
    exact iff_of_true helected hbefore
  by_cases hrunner : k.outline.runner = some h
  · obtain ⟨task, -, -, hlevel⟩ := intact'.displaced_elects sound' elects hrunner helect
    exact iff_of_true (Or.inr ⟨_, hlevel⟩) (Or.inl ((runner_outline k).trans hrunner))
  · have hother : h ∉ t :: k.outline.runner.toList := by
      rw [List.mem_cons, Option.mem_toList, not_or]
      exact ⟨helect, hrunner⟩
    rw [intact'.runnable_iff sound' opened', intact.runnable_iff sound opened,
      elects.tasks h hother]

include intact sound intact' sound' elects in
/-- What an election is on outlines it is on kernels, if the marks of a switch are taken
    away. -/
theorem Intact.elects_of_outline (opened : k.outline.depth = 0) (opened' : k'.outline.depth = 0)
    (due : k'.switchDue = false) (behind : k'.sendBehind = false) : Elects k t k' := by
  obtain ⟨hcurrent, task, hget, hrunning⟩ := Outline.runner_eq_some elects.running
  refine ⟨?touches, hcurrent, ?only, ?highest, ?runnable, ?first, ?displaced, ?again⟩
  case touches =>
    rw [runner_outline]
    exact intact.touchesOnly intact' elects.toTouchesOnly
  case only =>
    intro h
    simp only [get?_outline]
    constructor
    · rintro ⟨other, hother, hruns⟩
      refine Classical.byContradiction fun hne => ?_
      refine sound'.rests hother (fun hrunner => hne ?_) hruns
      exact Option.some.inj (hrunner.symm.trans elects.running)
    · rintro rfl
      exact ⟨task, hget, hrunning⟩
  case highest =>
    intro task' hget' p h other hmem hother
    rw [get?_outline] at hget' hother
    rw [intact'.handlesAt, sound'.tagged.mem_roster] at hmem
    obtain ⟨-, other', hother', hplace⟩ := hmem
    obtain rfl := Option.some.inj (hother'.symm.trans hother)
    -- a task that is listed higher would be ready above the one elected
    have hlevel := (sound'.settled.fits (sound'.live hother)).level p hplace
    refine Nat.le_of_not_lt fun habove => ?_
    have hempty := elects.highest task' hget' p (hlevel ▸ habove)
    have hrow := (sound'.tagged.mem_row (.ready p) h.index).mpr
      ⟨(by rintro ⟨⟩), other', sound'.live hother, hplace⟩
    rw [hempty] at hrow
    cases hrow
  case runnable => exact intact.runnable_elects sound intact' sound' elects opened opened'
  case first =>
    simp only [runner_outline, intact.handlesAt]
    exact elects.first
  case displaced =>
    intro cur task' hrunner hget' hne
    rw [runner_outline] at hrunner
    obtain ⟨task'', hget'', hback, hlevel⟩ :=
      intact'.displaced_elects sound' elects hrunner hne
    rw [get?_outline, hget''] at hget'
    obtain rfl := Option.some.inj hget'
    rw [get?_outline]
    exact ⟨hback, hlevel⟩
  case again =>
    intro p
    have hopen : k'.freeze.isOff = true := by
      rw [isOff_outline]
      exact decide_eq_true opened'
    refine intact'.choose_stays hopen due behind ((runner_outline k').trans elects.running)
      ((get?_outline k' t).trans hget) ?_ p
    exact (sound'.tagged.readyAbove_eq_false task.priority).mpr (elects.highest task hget)

end Elections

/-- A choice takes a highest task and loses none.  While scheduling goes on it is refused
    exactly when no task runs and the ready queue is empty; in every other case it elects
    a task. -/
theorem choice_loses_none (reachable : Reachable k) (opened : k.freeze.isOff = true)
    (p : Platform) :
    ((∃ m, choose ⟨k, p⟩ = .error (.refused .nothingReady) m) ↔ k.Deserted)
      ∧ (¬ k.Deserted → ∃ t m, choose ⟨k, p⟩ = .ok t m ∧ Elects k t m.state) := by
  obtain ⟨hintact, hsound⟩ := reachable.intact
  have hopened : k.outline.depth = 0 := by
    rw [isOff_outline] at opened
    exact of_decide_eq_true opened
  have henacts := hintact.enacts_choose hsound.runnerFree
  rw [hintact.deserted_iff hsound]
  cases hrun : choose ⟨k, p⟩ with
  | ok t m =>
      obtain ⟨hintact', hchosen⟩ := henacts.ok hrun
      have hsound' := Outline.keeps_sound_choose.ok hsound hchosen
      obtain ⟨helects, hopened', hdue, hbehind⟩ := hsound.choose_elects hopened hchosen
      have helected :=
        hintact.elects_of_outline hsound hintact' hsound' helects hopened hopened' hdue hbehind
      refine ⟨⟨(by rintro ⟨m, ⟨⟩⟩), ?_⟩, fun _ => ⟨t, m, rfl, helected⟩⟩
      rintro ⟨hidle, hempty⟩
      have hother : k.outline.runner ≠ some t := by
        rw [hidle]
        rintro ⟨⟩
      obtain ⟨p, rest, hroster, -⟩ := helects.first hother
      simp only [Outline.roster, hempty, List.map_nil] at hroster
      cases hroster
  | error e m =>
      obtain ⟨-, hfailed⟩ := henacts.error hrun
      have hchoice := Outline.choose_choice hsound.tagged hsound.runnerFree
      generalize Outline.choose k.outline = r at hfailed hchoice
      cases hchoice with
      | barred closed _ => exact absurd hopened closed
      | starved _ idle none =>
          obtain ⟨rfl, -⟩ := EStateM.Result.error.inj hfailed
          exact ⟨iff_of_true ⟨m, rfl⟩ ⟨idle, none⟩, fun hdeserted => absurd ⟨idle, none⟩ hdeserted⟩
      | _ => cases hfailed

/-- A worker runs when an urgent task and one of the worker's peers are made: the urgent
    task is elected, and the worker is ready again. -/
theorem choice_loses_none_urgent :
    ∃ (k : Kernel) (p : Platform) (m : Machine Kernel), Reachable k ∧ k.freeze.isOff = true
      ∧ ¬ k.Deserted ∧ k.runner = some ⟨0, 0⟩ ∧ choose ⟨k, p⟩ = .ok ⟨2, 0⟩ m
      ∧ Elects k ⟨2, 0⟩ m.state ∧ ⟨0, 0⟩ ∈ m.state.handlesAt (.ready 1) := by
  have hvalid : ({} : Settings).Valid := by decide
  have hdone : isDone (do
      let _ ← perform [.create { name := "worker", priority := 1 }, .start 0,
        .create { name := "urgent", priority := 3 }, .create { name := "peer", priority := 1 }]
      let k ← read
      let t ← choose
      if k.freeze.isOff = true ∧ k.runner = some ⟨0, 0⟩
          ∧ (k.table.get? ⟨0, 0⟩).map Task.priority = some 1 ∧ t = ⟨2, 0⟩ then
        pure ()
      else
        refuse .invalidState) ⟨initial {}, {}⟩ = true := by
    decide +kernel
  obtain ⟨⟨⟩, n, hrun⟩ := of_isDone hdone
  obtain ⟨rs, m, hstarted, hrun⟩ := of_bind_ok hrun
  obtain ⟨k, m', hread, hrun⟩ := of_bind_ok hrun
  obtain ⟨rfl, rfl⟩ := EStateM.Result.ok.inj hread
  obtain ⟨t, m'', hchosen, hrun⟩ := of_bind_ok hrun
  obtain ⟨⟨hopened, hrunner, hpriority, rfl⟩, -⟩ := of_unless_ok hrun
  obtain ⟨task, hget, hlevel⟩ := Option.map_eq_some_iff.mp hpriority
  have hinitial : Reachable (⟨initial {}, {}⟩ : Machine Kernel).state := .initial hvalid
  have hreachable : Reachable m.state := hinitial.perform hstarted
  obtain ⟨-, helects⟩ := choice_loses_none hreachable hopened m.platform
  have hpeopled : ¬ m.state.Deserted := by
    obtain ⟨hintact, hsound⟩ := hreachable.intact
    rw [hintact.deserted_iff hsound, ← runner_outline, hrunner]
    rintro ⟨⟨⟩, -⟩
  obtain ⟨t, m₂, hchosen', helected⟩ := helects hpeopled
  obtain ⟨rfl, rfl⟩ := EStateM.Result.ok.inj (hchosen.symm.trans hchosen')
  obtain ⟨-, hback⟩ := helected.displaced ⟨0, 0⟩ task hrunner hget (by decide)
  rw [hlevel] at hback
  exact ⟨m.state, m.platform, m'', hreachable, hopened, hpeopled, hrunner, hchosen, helected, hback⟩

end Kernel

end PriorityScheduler
