import PriorityScheduler.Proofs.Choosing
import PriorityScheduler.Proofs.Slices
import PriorityScheduler.Proofs.StaleHandles

/-! # Going behind one's peers

    A running task that cedes, or whose slice is used up, is SENT BEHIND: the next choice
    is to put it at the tail of its level.  The choice does so only if no higher level
    holds a task.  Otherwise the task is displaced from above, which puts it at the head
    of its level, and that it was to go behind its peers is forgotten. -/

namespace PriorityScheduler

open Routine

namespace Outline

variable {o o' : Outline} {r next : Handle} {task : Task} {i p : Nat} {rest : List Nat}

/-! ## Lines and rosters -/

/-- A task that is put back at the front is the first on its level. -/
theorem Sound.putBack_front (sound : o.Sound) (running : o.runner = some task.handle) :
    (o.putBack .front task).row (.ready task.priority)
      = task.handle.index :: o.row (.ready task.priority) := by
  simp only [Outline.putBack, reseat_row, filter_of_not_mem (sound.runner_not_mem running _),
    if_true, enterRow]

/-- A task that is put back at the back is the last on its level. -/
theorem Sound.putBack_back (sound : o.Sound) (running : o.runner = some task.handle) :
    (o.putBack .back task).row (.ready task.priority)
      = o.row (.ready task.priority) ++ [task.handle.index] := by
  simp only [Outline.putBack, reseat_row, filter_of_not_mem (sound.runner_not_mem running _),
    if_true, enterRow]

/-- The roster of a level is empty exactly when no task is queued there. -/
theorem roster_eq_nil (o : Outline) (q : Place) : o.roster q = [] ↔ o.row q = [] := by
  simp only [roster, List.map_eq_nil_iff]

/-- During a tick those who are queued keep their places, and others may join behind. -/
theorem Sound.roster_tick (sound : o.Sound) (p : Nat) :
    o.roster (.ready p) <+: o.tick.2.roster (.ready p) := by
  obtain ⟨spent, behind, due, heq⟩ := o.tick_passed
  have hstay : ∀ i ∈ o.row (.ready p), i ∉ o.chargeRunner.advance.due := by
    intro i hi
    rw [← o.charged_rest.1] at hi
    exact sound.chargeRunner.advance.not_mem_due hi
  have hrow : o.row (.ready p) <+: o.tick.2.row (.ready p) := by
    have hfilter := filter_of_disjoint hstay
    rw [← o.charged_rest.1] at hfilter ⊢
    rw [heq]
    show _ <+: (o.chargeRunner.advance.row (.ready p)).filter _ ++ _
    rw [hfilter]
    exact List.prefix_append _ _
  have hnamed : o.tick.2.named = o.named := by
    funext i
    simp only [named, o.tick_generation]
  simp only [roster, hnamed]
  exact hrow.map o.named

/-! ## How a running task gives way -/

/-- A running task gives way to another one.  It goes behind its peers if no level above
    its own holds a task, and is put ahead of them if one does; and it is no longer to go
    behind them. -/
structure GivesWay (o : Outline) (r : Handle) (p : Nat) (next : Handle) (o' : Outline) :
    Prop where
  runner : o'.runner = some next
  other : next ≠ r
  ready : ∃ task, o'.get? r = some task ∧ task.activity = .ready ∧ task.priority = p
  behind : (∀ p', p < p' → o.roster (.ready p') = []) →
    ∃ rest, o.roster (.ready p) = next :: rest ∧ o'.roster (.ready p) = rest ++ [r]
  ahead : ∀ p', p < p' → o.roster (.ready p') ≠ [] →
    o'.roster (.ready p) = r :: o.roster (.ready p)
  forgotten : o'.sendBehind = false

section Replaced

variable {next : Task} (sound : o.Sound) (running : o.runner = some task.handle)
  (live : o.get? task.handle = some task) (row : o.row (.ready p) = i :: rest)

include sound running row in
/-- The first task of a level is not in the slot of the running one. -/
theorem Sound.head_ne_runner : i ≠ task.handle.index := by
  rintro rfl
  refine sound.runner_not_mem running (.ready p) ?_
  rw [row]
  exact List.mem_cons_self

include sound running live row

/-- A task that is displaced from above is put ahead of its peers. -/
theorem Sound.roster_displaced (above : task.priority < p) :
    ((o.cleared.putBack .front task).dispatch i next).roster (.ready task.priority)
      = task.handle :: o.roster (.ready task.priority) := by
  have hfront := sound.cleared.putBack_front running
  have hhead : i ∈ o.row (.ready p) := row ▸ List.mem_cons_self
  have hlevels : Place.ready p ≠ .ready task.priority := by
    intro heq
    exact absurd (Place.ready.inj heq) (Nat.ne_of_gt above)
  -- the task that is dispatched leaves a higher level
  have hstays : i ∉ (o.cleared.putBack .front task).row (.ready task.priority) := by
    rw [hfront, List.mem_cons, not_or]
    exact ⟨sound.head_ne_runner running row, sound.tagged.not_mem_of_mem hlevels hhead⟩
  show (((o.cleared.putBack .front task).dispatch i next).row _).map o.named = _
  rw [dispatch_line, filter_of_not_mem hstays, hfront, List.map_cons, named_of_get? live]
  rfl

/-- A task that is displaced by the first of its peers is put behind the others. -/
theorem Sound.roster_rotated (first : o.tenant i = some next) (level : p = task.priority) :
    o.roster (.ready p) = next.handle :: rest.map o.named
      ∧ ((o.cleared.putBack .back task).dispatch i next).roster (.ready p)
        = rest.map o.named ++ [task.handle] := by
  have hnext : o.named i = next.handle := (sound.tagged.handle first).symm
  subst level
  have hback := sound.cleared.putBack_back running
  have hnodup := sound.tagged.nodup (.ready task.priority)
  rw [row] at hnodup
  have hstay : i ∉ rest ++ [task.handle.index] := by
    rw [List.mem_append, List.mem_singleton, not_or]
    exact ⟨(List.nodup_cons.mp hnodup).1, sound.head_ne_runner running row⟩
  constructor
  · rw [roster, row, List.map_cons, hnext]
  · show (((o.cleared.putBack .back task).dispatch i next).row _).map o.named = _
    rw [dispatch_line, hback, show o.cleared.row (.ready task.priority) = i :: rest from row,
      List.cons_append, List.filter_cons_of_neg (by simp), filter_of_not_mem hstay,
      List.map_append, List.map_singleton, named_of_get? live]

end Replaced

/-- A running task that is to go behind its peers gives way. -/
theorem Sound.choose_givesWay (sound : o.Sound) (opened : o.depth = 0)
    (running : o.runner = some r) (live : o.get? r = some task)
    (peers : o.row (.ready task.priority) ≠ []) (behind : o.sendBehind = true) :
    ∃ next o', choose o = .ok next o' ∧ GivesWay o r task.priority next o' := by
  have hchoice := choose_choice sound.tagged sound.runnerFree
  have helects := fun next o' (chosen : choose o = .ok next o') => sound.choose_elects opened chosen
  generalize choose o = res at hchoice helects ⊢
  cases hchoice with
  | frozen closed => exact absurd opened closed
  | barred closed => exact absurd opened closed
  | starved _ idle =>
      rw [running] at idle
      cases idle
  | taken _ idle =>
      rw [running] at idle
      cases idle
  -- it is kept only if it is alone on its level
  | kept _ running' live' _ alone =>
      obtain rfl := Option.some.inj (running.symm.trans running')
      obtain rfl := Option.some.inj (live.symm.trans live')
      exact absurd (alone behind) peers
  | @replaced side p i rest task' next _ running' live' top row first why =>
      obtain rfl := Option.some.inj (running.symm.trans running')
      obtain rfl := Option.some.inj (live.symm.trans live')
      obtain ⟨hchosen, -, -, hforgotten⟩ := helects _ _ rfl
      have hother : next.handle ≠ task.handle := by
        intro heq
        refine sound.head_ne_runner running row ?_
        rw [← heq, sound.tagged.handle first]
      refine ⟨next.handle, _, rfl, hchosen.running, hother, ?ready, ?behind, ?ahead, hforgotten⟩
      case ready =>
        exact ⟨_, hchosen.displaced _ task running live hother.symm, rfl, rfl⟩
      case behind =>
        intro hnone
        -- a task from a higher level displaces it, one from its own level follows it
        obtain ⟨rfl, habove⟩ | ⟨rfl, rfl, -⟩ := why
        · have hempty := (o.roster_eq_nil _).mp (hnone p habove)
          rw [row] at hempty
          cases hempty
        · exact ⟨_, sound.roster_rotated running live row first rfl⟩
      case ahead =>
        intro p' hp' hheld
        obtain ⟨rfl, habove⟩ | ⟨rfl, rfl, -⟩ := why
        · exact sound.roster_displaced running live row habove
        · exact absurd ((o.roster_eq_nil _).mpr (top.2 p' hp')) hheld

/-! ## What sends a task behind -/

/-- A choice of another task than the one dispatched last is a switch. -/
theorem switch_of_choose (chosen : choose o = .ok next o') (moves : o.current ≠ some next) :
    switch o = .ok (some next) o' := by
  have hplan : planSwitch o = .ok (some (o.current, next)) o' := by
    simp only [planSwitch, chosen, if_neg (Ne.symm moves)]
  show EStateM.bind _ _ o = _
  simp only [EStateM.bind, hplan]
  rfl

/-- A running task that is to go behind its peers gives way by a switch as well. -/
theorem GivesWay.switch (gives : GivesWay o r p next o') (running : o.runner = some r)
    (chosen : choose o = .ok next o') : Outline.switch o = .ok (some next) o' := by
  refine switch_of_choose chosen ?_
  rw [(runner_eq_some running).1]
  exact fun heq => gives.other (Option.some.inj heq).symm

/-- A running task that cedes gives way, if another one is queued on its level. -/
theorem Sound.cede_givesWay (sound : o.Sound) (opened : o.depth = 0)
    (running : o.runner = some r) (live : o.get? r = some task)
    (peers : o.row (.ready task.priority) ≠ []) :
    ∃ next o', cede o = .ok (some next) o' ∧ GivesWay o r task.priority next o' := by
  have hsound : { o with sendBehind := true }.Sound := sound.remark _ _ true _ _
  obtain ⟨next, o', hchosen, hgives⟩ := hsound.choose_givesWay opened running live peers rfl
  refine ⟨next, o', ?_, ?_⟩
  · exact hgives.switch running hchosen
  · exact ⟨hgives.runner, hgives.other, hgives.ready, hgives.behind, hgives.ahead, hgives.forgotten⟩

/-- A tick that uses up the slice of the running task asks for a switch and sends the task
    behind its peers, if there is one by then. -/
theorem Sound.tick_slice_ends (sound : o.Sound) (opened : o.depth = 0)
    (turns : o.settings.takingTurns = true) (preempts : o.settings.preemption = true)
    (running : o.runner = some r) (live : o.get? r = some task)
    (last : o.settings.slice ≤ saturatingSucc o.sliceSpent)
    (peers : o.tick.2.row (.ready task.priority) ≠ []) :
    o.tick.1 = true ∧ o.tick.2.sendBehind = true := by
  obtain ⟨spent, behind, due, heq⟩ := o.tick_passed
  rw [heq] at peers
  have hsettings := o.passed_rest.1
  have hrunner := sound.passed_runnerPriority running live
  have hturns : o.passed.settings.takingTurns = true := hsettings ▸ turns
  rw [tick_open opened preempts]
  simp only [judge, hrunner]
  rcases chargeSlice_cases hturns task.priority with ⟨hnone, -⟩ | ⟨-, ⟨-, heq⟩ | ⟨hlt, -⟩⟩
  · exact absurd hnone peers
  · rw [heq]
    exact ⟨rfl, rfl⟩
  · rw [hsettings, o.passed_spent] at hlt
    exact absurd hlt (UInt32.not_lt.mpr last)

end Outline

namespace Kernel

variable {k k' : Kernel} {r next : Handle} {task : Task} {p : Nat}

/-- The next tick is the last one of a slice, and may ask for a switch. -/
structure SliceEnds (k : Kernel) : Prop where
  turns : k.settings.takingTurns = true
  preempts : k.settings.preemption = true
  last : k.settings.slice ≤ saturatingSucc k.sliceSpent

/-- A running task gives way to another one.  It goes to the tail of its level if no level
    above holds a task, and to the head if one does; it is last on its level in the first
    case only.  In both cases it is no longer to go behind its peers. -/
structure GivesWay (k : Kernel) (r : Handle) (p : Nat) (next : Handle) (k' : Kernel) :
    Prop where
  runner : k'.runner = some next
  other : next ≠ r
  ready : ∃ task, k'.table.get? r = some task ∧ task.activity = .ready ∧ task.priority = p
  behind : (∀ p', p < p' → k.handlesAt (.ready p') = []) →
    ∃ rest, k.handlesAt (.ready p) = next :: rest ∧ k'.handlesAt (.ready p) = rest ++ [r]
  ahead : ∀ p', p < p' → k.handlesAt (.ready p') ≠ [] →
    k'.handlesAt (.ready p) = r :: k.handlesAt (.ready p)
  last : (∃ line, k'.handlesAt (.ready p) = line ++ [r])
    ↔ ∀ p', p < p' → k.handlesAt (.ready p') = []
  forgotten : k'.sendBehind = false

/-- What giving way is on outlines it is on kernels, if others are queued on the level. -/
theorem Intact.givesWay (intact : k.Intact) (intact' : k'.Intact) (sound' : k'.outline.Sound)
    (gives : Outline.GivesWay k.outline r p next k'.outline)
    (peers : k.outline.row (.ready p) ≠ []) : GivesWay k r p next k' := by
  have hahead : ∀ p', p < p' → k.handlesAt (.ready p') ≠ [] →
      k'.handlesAt (.ready p) = r :: k.handlesAt (.ready p) := by
    simp only [intact.handlesAt, intact'.handlesAt]
    exact gives.ahead
  have hbehind : (∀ p', p < p' → k.handlesAt (.ready p') = []) →
      ∃ rest, k.handlesAt (.ready p) = next :: rest ∧ k'.handlesAt (.ready p) = rest ++ [r] := by
    simp only [intact.handlesAt, intact'.handlesAt]
    exact gives.behind
  refine ⟨(runner_outline k').trans gives.runner, gives.other, ?ready, hbehind, hahead, ?last,
    gives.forgotten⟩
  case ready =>
    obtain ⟨task, hget, hready, hlevel⟩ := gives.ready
    exact ⟨task, (get?_outline k' r).trans hget, hready, hlevel⟩
  case last =>
    constructor
    · rintro ⟨line, hline⟩ p' hp'
      refine Classical.byContradiction fun hheld => ?_
      -- the first of the level would be the last as well, though others stand behind it
      have hline' := hahead p' hp' hheld
      have hnodup : (k'.handlesAt (.ready p)).Nodup := by
        rw [intact'.handlesAt]
        exact sound'.tagged.nodup_roster _
      rw [hline'] at hline hnodup
      have hnot := (List.nodup_cons.mp hnodup).1
      cases line with
      | nil =>
          have hnone : k.handlesAt (.ready p) = [] := (List.cons.inj hline).2
          rw [intact.handlesAt, k.outline.roster_eq_nil] at hnone
          exact peers hnone
      | cons x line =>
          refine hnot ?_
          rw [(List.cons.inj hline).2]
          exact List.mem_append_right _ List.mem_cons_self
    · intro hnone
      obtain ⟨rest, -, hline⟩ := hbehind hnone
      exact ⟨rest, hline⟩

section GivingWay

variable (intact : k.Intact) (sound : k.outline.Sound) (opened : k.outline.depth = 0)
  (running : k.outline.runner = some r) (live : k.outline.get? r = some task)
  (peers : k.outline.row (.ready task.priority) ≠ [])

include intact sound opened running live peers

/-- A kernel whose running task cedes lets it give way. -/
theorem Intact.cede_givesWay (pl : Platform) :
    ∃ next m, cede ⟨k, pl⟩ = .ok (some next) m ∧ GivesWay k r task.priority next m.state := by
  obtain ⟨next, o, hcede, hgives⟩ := sound.cede_givesWay opened running live peers
  obtain ⟨m, hran, rfl⟩ := (intact.enacts_cede sound.runnerFree).of_ok hcede pl
  obtain ⟨hintact', -⟩ := (intact.enacts_cede sound.runnerFree).ok hran
  have hsound' := (Step.keeps_cede Outline.keeps_sound_choose fun h => h.remark _ _ true _ _).ok
    sound hcede
  exact ⟨next, m, hran, intact.givesWay hintact' hsound' hgives peers⟩

/-- A running task that is to go behind its peers gives way at the next choice, and at
    the next switch. -/
theorem Intact.choose_givesWay (behind : k.sendBehind = true) (pl : Platform) :
    ∃ next, (∃ m, choose ⟨k, pl⟩ = .ok next m ∧ GivesWay k r task.priority next m.state)
      ∧ ∃ m, switch ⟨k, pl⟩ = .ok (some next) m ∧ GivesWay k r task.priority next m.state := by
  obtain ⟨next, o, hchosen, hgives⟩ := sound.choose_givesWay opened running live peers behind
  have hsound' := Outline.keeps_sound_choose.ok sound hchosen
  have henacts := intact.enacts_choose sound.runnerFree
  obtain ⟨m, hran, rfl⟩ := henacts.of_ok hchosen pl
  obtain ⟨hintact', -⟩ := henacts.ok hran
  have hswitch := hgives.switch running hchosen
  have henacts' := intact.enacts_switch sound.runnerFree
  obtain ⟨m', hran', hsame⟩ := henacts'.of_ok hswitch pl
  obtain ⟨hintact'', -⟩ := henacts'.ok hran'
  refine ⟨next, ⟨m, hran, intact.givesWay hintact' hsound' hgives peers⟩, m', hran', ?_⟩
  exact intact.givesWay hintact'' (hsame ▸ hsound') (hsame ▸ hgives) peers

end GivingWay

/-- A task is sent behind its peers unless it is displaced from above.  Let a task run in
    a reachable kernel while scheduling goes on.  If it cedes while another is queued on
    its level, or if a tick uses up its slice while another is queued there and a choice
    or a switch comes next, then it gives way: it goes to the tail of its level if no
    level above holds a task at that moment, and otherwise to the head, ahead of those
    that it was to go behind. -/
theorem sent_behind_unless_outranked (reachable : Reachable k) (opened : k.freeze.isOff = true)
    (running : k.runner = some r) (live : k.table.get? r = some task) (pl : Platform) :
    (k.handlesAt (.ready task.priority) ≠ [] →
        ∃ next m, cede ⟨k, pl⟩ = .ok (some next) m ∧ GivesWay k r task.priority next m.state)
      ∧ ∃ asked m, tick ⟨k, pl⟩ = .ok asked m ∧ m.state.runner = some r
        ∧ k.handlesAt (.ready task.priority) <+: m.state.handlesAt (.ready task.priority)
        ∧ (k.SliceEnds → m.state.handlesAt (.ready task.priority) ≠ [] → asked = true
          ∧ ∃ next, (∃ n, choose m = .ok next n ∧ GivesWay m.state r task.priority next n.state)
            ∧ ∃ n, switch m = .ok (some next) n
              ∧ GivesWay m.state r task.priority next n.state) := by
  obtain ⟨hintact, hsound⟩ := reachable.intact
  rw [isOff_outline, decide_eq_true_iff] at opened
  rw [runner_outline] at running
  rw [get?_outline] at live
  have hpeers : ∀ {k : Kernel}, k.Intact → k.handlesAt (.ready task.priority) ≠ [] →
      k.outline.row (.ready task.priority) ≠ [] := by
    intro k intact peers
    rwa [intact.handlesAt, ne_eq, k.outline.roster_eq_nil] at peers
  constructor
  · intro peers
    exact hintact.cede_givesWay hsound opened running live (hpeers hintact peers) pl
  · have henacts := hintact.enacts_tick hsound.cycle_done
    obtain ⟨m, hran, hleft⟩ := henacts.of_ok (rfl : Step.always Outline.tick _ = _) pl
    obtain ⟨hintact', -⟩ := henacts.ok hran
    have hsound' : m.state.outline.Sound := hleft ▸ hsound.tick
    have hrunning : m.state.outline.runner = some r := by
      rw [hleft]
      exact hsound.tick_runner.trans running
    refine ⟨_, m, hran, (runner_outline _).trans hrunning, ?queued, ?expired⟩
    case queued =>
      rw [hintact.handlesAt, hintact'.handlesAt, hleft]
      exact hsound.roster_tick _
    case expired =>
      intro ends peers
      have hline := hpeers hintact' peers
      obtain ⟨task', hget, hpriority, -⟩ := hsound.tick_counts live
      obtain ⟨hasked, hbehind⟩ := hsound.tick_slice_ends opened ends.turns ends.preempts running live
        ends.last (hleft ▸ hline)
      rw [← hleft] at hget hbehind
      have hopened : m.state.outline.depth = 0 := by
        rw [hleft]
        exact hsound.holdsLines_tick.depth.trans opened
      rw [← hpriority] at hline ⊢
      exact ⟨hasked, hintact'.choose_givesWay hsound' hopened hrunning hget hline hbehind m.platform⟩

/-- The tick that uses up a worker's slice ends the pause of its guard: the guard runs, and
    the worker stands ahead of the peer that waits on its level. -/
theorem sent_behind_unless_outranked_guard :
    ∃ (k : Kernel) (pl : Platform) (m n : Machine Kernel), Reachable k
      ∧ k.runner = some ⟨0, 0⟩ ∧ k.SliceEnds ∧ tick ⟨k, pl⟩ = .ok true m
      ∧ m.state.handlesAt (.ready 2) = [⟨1, 0⟩] ∧ m.state.handlesAt (.ready 3) = [⟨2, 0⟩]
      ∧ switch m = .ok (some ⟨2, 0⟩) n ∧ GivesWay m.state ⟨0, 0⟩ 2 ⟨2, 0⟩ n.state
      ∧ n.state.handlesAt (.ready 2) = [⟨0, 0⟩, ⟨1, 0⟩] := by
  have hvalid : ({} : Settings).Valid := by decide
  have hdone : isDone (do
      let _ ← perform [.create { name := "worker", priority := 2 },
        .create { name := "peer", priority := 2 }, .create { name := "guard", priority := 3 },
        .start 0, .pause 1]
      let k ← read
      let _ ← tick
      let k' ← read
      let next ← switch
      if (k.freeze.isOff = true ∧ k.runner = some ⟨0, 0⟩
          ∧ (k.table.get? ⟨0, 0⟩).map Task.priority = some 2)
          ∧ (k.settings.takingTurns = true ∧ k.settings.preemption = true
            ∧ k.settings.slice ≤ saturatingSucc k.sliceSpent)
          ∧ k'.handlesAt (.ready 2) = [⟨1, 0⟩] ∧ k'.handlesAt (.ready 3) = [⟨2, 0⟩]
          ∧ next = some ⟨2, 0⟩ then
        pure ()
      else
        refuse .invalidState) ⟨initial {}, {}⟩ = true := by
    decide +kernel
  obtain ⟨⟨⟩, n, hrun⟩ := of_isDone hdone
  obtain ⟨rs, m₀, hpaused, hrun⟩ := of_bind_ok hrun
  obtain ⟨k, m₁, hread, hrun⟩ := of_bind_ok hrun
  obtain ⟨rfl, rfl⟩ := EStateM.Result.ok.inj hread
  obtain ⟨asked, m, htick, hrun⟩ := of_bind_ok hrun
  obtain ⟨k', m₁, hread, hrun⟩ := of_bind_ok hrun
  obtain ⟨rfl, rfl⟩ := EStateM.Result.ok.inj hread
  obtain ⟨next, m₂, hswitch, hrun⟩ := of_bind_ok hrun
  obtain ⟨⟨⟨hopened, hrunner, hpriority⟩, ⟨hturns, hpreempts, hlast⟩, hpeer, hguard, rfl⟩, -⟩ :=
    of_unless_ok hrun
  obtain ⟨task, hget, hlevel⟩ := Option.map_eq_some_iff.mp hpriority
  have hinitial : Reachable (⟨initial {}, {}⟩ : Machine Kernel).state := .initial hvalid
  have hreachable : Reachable m₀.state := hinitial.perform hpaused
  have hends : m₀.state.SliceEnds := ⟨hturns, hpreempts, hlast⟩
  obtain ⟨-, asked', m', htick', -, -, hexpired⟩ :=
    sent_behind_unless_outranked hreachable hopened hrunner hget m₀.platform
  obtain ⟨rfl, rfl⟩ := EStateM.Result.ok.inj (htick.symm.trans htick')
  rw [hlevel, hpeer] at hexpired
  obtain ⟨rfl, next, -, n', hswitch', hgives⟩ := hexpired hends (List.cons_ne_nil _ _)
  obtain ⟨hnext, rfl⟩ := EStateM.Result.ok.inj (hswitch.symm.trans hswitch')
  obtain rfl := Option.some.inj hnext
  have hahead := hgives.ahead 3 (by decide) (hguard ▸ List.cons_ne_nil _ _)
  rw [hpeer] at hahead
  exact ⟨m₀.state, m₀.platform, m, m₂, hreachable, hrunner, hends, htick, hpeer, hguard, hswitch,
    hgives, hahead⟩

end Kernel

end PriorityScheduler
