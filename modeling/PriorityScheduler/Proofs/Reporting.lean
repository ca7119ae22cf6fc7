import PriorityScheduler.Proofs.Choosing
import PriorityScheduler.Proofs.Handover

/-! # What a start reports

    A port saves the registers of the task that a switch names as the outgoing one.  DUE
    is a switch when the task dispatched last changes, out of the one before and into the
    one after; and `switch` makes exactly the switch that is due.

    A start does not ask what was dispatched last.  It makes one switch in every case, out
    of none and into the task that it answers: the switch that is due if no task had been
    dispatched, and otherwise one that leaves out the outgoing task, or that leads into the
    task that runs already. -/

namespace PriorityScheduler

open Routine

/-! ## Due switches -/

/-- The switch that is due when the task dispatched last changes from one to another: none
    if it stays the same, and none if there is no task to switch to. -/
def dueSwitches (outgoing : Option Handle) : Option Handle → List (Option Handle × Handle)
  | none => []
  | some incoming => if some incoming = outgoing then [] else [(outgoing, incoming)]

theorem dueSwitches_self (last : Option Handle) : dueSwitches last last = [] := by
  cases last with
  | none => rfl
  | some task => exact if_pos rfl

/-- The switch out of none and into a task is due exactly if none was dispatched before. -/
theorem dueSwitches_eq_fresh {outgoing : Option Handle} {incoming : Handle} :
    dueSwitches outgoing (some incoming) = [(none, incoming)] ↔ outgoing = none := by
  simp only [dueSwitches]
  by_cases hsame : some incoming = outgoing
  · rw [if_pos hsame]
    exact iff_of_false (by rintro ⟨⟩) (hsame ▸ Option.some_ne_none incoming)
  · rw [if_neg hsame, List.singleton_inj, Prod.mk.injEq]
    exact and_iff_left rfl

/-- The switch that an event is, if it is one. -/
def Event.switch? : Event → Option (Option Handle × Handle)
  | .switched outgoing incoming => some (outgoing, incoming)
  | .deleted _ => none

/-- The switches of a platform are those among its events. -/
theorem Platform.switches_eq_events (p : Platform) :
    p.switches = p.events.filterMap Event.switch? := by
  simp only [switches, events, List.filterMap_filterMap]
  congr 1
  funext e
  cases e with
  | log record => cases record <;> rfl
  | _ => rfl

/-- Events that come to the same come to the same switches. -/
theorem Platform.switches_append {p q : Platform} {l : List Event}
    (events : q.events = p.events ++ l) :
    q.switches = p.switches ++ l.filterMap Event.switch? := by
  rw [switches_eq_events, switches_eq_events, events, List.filterMap_append]

namespace Kernel

variable {k : Kernel} {entry : Nat} {first : Handle} {m n : Machine Kernel}

/-- Choosing and switching makes exactly the switch that is due. -/
theorem switches_of_switch {next : Option Handle} (done : switch m = .ok next n) :
    n.platform.switches
      = m.platform.switches ++ dueSwitches m.state.current n.state.current := by
  obtain ⟨plan, m₁, hplan, hrest⟩ := of_bind_ok done
  have hplanned := plans_planSwitch m
  simp only [Does, Ends, hplan] at hplanned
  obtain ⟨hevents, hplanned⟩ := hplanned
  cases plan with
  | none =>
      obtain ⟨-, rfl⟩ := EStateM.Result.ok.inj hrest
      rw [show m₁.state.current = m.state.current from hplanned, dueSwitches_self,
        List.append_nil, Platform.switches_eq_events, hevents, ← Platform.switches_eq_events]
  | some plan =>
      obtain ⟨outgoing, incoming⟩ := plan
      obtain ⟨hout, hproper, hcurrent⟩ := hplanned
      obtain ⟨-, rfl⟩ := EStateM.Result.ok.inj hrest
      have hnoted : (m₁.platform.note (.switch outgoing incoming)).events
          = m.platform.events ++ [.switched outgoing incoming] := by
        rw [← hevents]
        exact m₁.platform.events_note _
      have hdue : dueSwitches m.state.current m₁.state.current = [(outgoing, incoming)] := by
        simp only [dueSwitches, hcurrent, ← hout, if_neg (Ne.symm hproper)]
      rw [hdue]
      exact Platform.switches_append hnoted

/-- A start that is done makes one switch, out of none and into the task that it answers. -/
theorem switches_of_start (started : start entry m = .ok first n) :
    n.platform.switches = m.platform.switches ++ [(none, first)] := by
  obtain ⟨hevents, -⟩ := of_start_ok started
  exact Platform.switches_append hevents

end Kernel

/-! ## The task that loses the processor -/

namespace Outline

variable {o o' : Outline} {entry : Nat} {first cur : Handle}

/-- A start that is done while scheduling is suspended answers the task that runs. -/
theorem Sound.start_frozen (sound : o.Sound) (closed : o.depth ≠ 0)
    (started : start entry o = .ok first o') : o.runner = some first := by
  obtain ⟨⟨⟩, o₁, hguard, hchosen⟩ := of_bind_ok started
  have hmade := Step.of_guarded_ok hguard
  have hsound := sound.enrollIdle hmade
  obtain ⟨hdepth, hrunner⟩ := sound.enrollIdle_rest hmade
  have hchoice := choose_choice hsound.tagged hsound.runnerFree
  rw [hchosen] at hchoice
  rw [← hrunner]
  cases hchoice with
  | frozen _ running => exact running
  | kept opened => exact absurd (hdepth.symm.trans opened) closed
  | taken opened => exact absurd (hdepth.symm.trans opened) closed
  | replaced opened => exact absurd (hdepth.symm.trans opened) closed

/-- A task that runs when a start answers another one is ready afterwards. -/
theorem Sound.start_displaces (sound : o.Sound) (started : start entry o = .ok first o')
    (running : o.runner = some cur) (other : cur ≠ first) :
    ∃ task, o'.get? cur = some task ∧ task.activity = .ready
      ∧ task.place = .ready task.priority := by
  obtain ⟨⟨⟩, o₁, hguard, hchosen⟩ := of_bind_ok started
  have hmade := Step.of_guarded_ok hguard
  have hsound := sound.enrollIdle hmade
  obtain ⟨hdepth, hrunner⟩ := sound.enrollIdle_rest hmade
  by_cases hopened : o.depth = 0
  · obtain ⟨helects, -⟩ := hsound.choose_elects (hdepth.trans hopened) hchosen
    have hrunning : o₁.runner = some cur := hrunner.trans running
    obtain ⟨-, task, hget, -⟩ := runner_eq_some hrunning
    exact ⟨_, helects.displaced cur task hrunning hget other, rfl, rfl⟩
  · have hfirst := sound.start_frozen hopened started
    exact absurd (Option.some.inj (running.symm.trans hfirst)) other

end Outline

namespace Kernel

variable {k : Kernel} {entry : Nat} {first : Handle} {m n : Machine Kernel}

/-! ## Every start -/

/-- What a start that is done has told the platform, and what it has left out. -/
structure StartReport (k : Kernel) (p : Platform) (first : Handle) (m : Machine Kernel) :
    Prop where
  /-- One switch is made, out of none and into the task that is answered. -/
  told : m.platform.switches = p.switches ++ [(none, first)]
  current : m.state.current = some first
  /-- It is the switch that is due exactly if no task was dispatched last. -/
  due : m.platform.switches = p.switches ++ dueSwitches k.current m.state.current
    ↔ k.current = none
  /-- While scheduling is suspended it leads into the task that runs already. -/
  frozen : k.freeze.isOff = false → k.current = some first
  /-- A task that ran and is not answered has lost the processor without being named as
      the outgoing one. -/
  displaced : ∀ cur, k.runner = some cur → cur ≠ first →
    ∃ task, m.state.table.get? cur = some task ∧ task.activity = .ready
      ∧ cur ∈ m.state.handlesAt (.ready task.priority)

/-- A start reports no outgoing task.  Whatever was dispatched last in a reachable kernel,
    a start that is done makes one switch out of none; that is the switch that is due
    exactly if nothing was.  Choosing and switching makes the due one in every case. -/
theorem start_reports_no_outgoing (reachable : Reachable k) (p : Platform) :
    (∀ (entry : Nat) (first : Handle) (m : Machine Kernel),
        start entry ⟨k, p⟩ = .ok first m → StartReport k p first m)
      ∧ ∀ (next : Option Handle) (n : Machine Kernel), switch ⟨k, p⟩ = .ok next n →
        n.platform.switches = p.switches ++ dueSwitches k.current n.state.current := by
  obtain ⟨hintact, hsound⟩ := reachable.intact
  refine ⟨fun entry first m started => ?_, fun next n done => switches_of_switch done⟩
  obtain ⟨hintact', hstep⟩ := (hintact.enacts_start hsound entry).ok started
  obtain ⟨-, hsound', -⟩ := reachable.started started
  obtain ⟨-, hcurrent⟩ := of_start_ok started
  have htold := switches_of_start started
  refine ⟨htold, hcurrent, ?due, ?frozen, ?displaced⟩
  case due =>
    rw [htold, hcurrent, List.append_cancel_left_eq, eq_comm, dueSwitches_eq_fresh]
  case frozen =>
    rw [isOff_outline, decide_eq_false_iff_not]
    intro hclosed
    have hrunner := hsound.start_frozen hclosed hstep
    rw [← runner_outline] at hrunner
    exact current_of_runner hrunner
  case displaced =>
    intro cur hrunner hother
    rw [runner_outline] at hrunner
    obtain ⟨task, hget, hready, hplace⟩ := hsound.start_displaces hstep hrunner hother
    refine ⟨task, (get?_outline _ _).trans hget, hready, ?_⟩
    rw [hintact'.handlesAt, hsound'.tagged.mem_roster]
    exact ⟨(by rintro ⟨⟩), task, hget, hplace⟩

/-- A worker has been dispatched by a switch when an urgent task is made: the start puts
    the worker back and does not name it as the outgoing task. -/
theorem start_reports_no_outgoing_dispatched :
    ∃ (k : Kernel) (p : Platform) (m : Machine Kernel), Reachable k ∧ k.runner = some ⟨0, 0⟩
      ∧ start 0 ⟨k, p⟩ = .ok ⟨1, 0⟩ m ∧ StartReport k p ⟨1, 0⟩ m
      ∧ dueSwitches k.current m.state.current = [(some ⟨0, 0⟩, ⟨1, 0⟩)]
      ∧ m.platform.switches = p.switches ++ [(none, ⟨1, 0⟩)] := by
  have hvalid : ({} : Settings).Valid := by decide
  have hdone : isDone (do
      let _ ← perform [.create { name := "worker", priority := 1 }, .switch,
        .create { name := "urgent", priority := 3 }]
      let k ← read
      let first ← start 0
      if k.runner = some ⟨0, 0⟩ ∧ first = ⟨1, 0⟩ then
        pure ()
      else
        refuse .invalidState) ⟨initial {}, {}⟩ = true := by
    decide +kernel
  obtain ⟨⟨⟩, n, hrun⟩ := of_isDone hdone
  obtain ⟨rs, m₀, hdispatched, hrun⟩ := of_bind_ok hrun
  obtain ⟨k, m', hread, hrun⟩ := of_bind_ok hrun
  obtain ⟨rfl, rfl⟩ := EStateM.Result.ok.inj hread
  obtain ⟨first, m, hstarted, hrun⟩ := of_bind_ok hrun
  obtain ⟨⟨hrunner, rfl⟩, -⟩ := of_unless_ok hrun
  have hinitial : Reachable (⟨initial {}, {}⟩ : Machine Kernel).state := .initial hvalid
  have hreachable : Reachable m₀.state := hinitial.perform hdispatched
  obtain ⟨hstarts, -⟩ := start_reports_no_outgoing hreachable m₀.platform
  have hreport := hstarts 0 ⟨1, 0⟩ m hstarted
  refine ⟨m₀.state, m₀.platform, m, hreachable, hrunner, hstarted, hreport, ?_, hreport.told⟩
  rw [current_of_runner hrunner, hreport.current]
  rfl

end Kernel

end PriorityScheduler
