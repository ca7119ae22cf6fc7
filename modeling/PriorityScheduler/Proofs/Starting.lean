import PriorityScheduler.Proofs.Lasting
import PriorityScheduler.Proofs.Refusals
import PriorityScheduler.Proofs.Rosters
import PriorityScheduler.Proofs.Standby

/-! # Starting a scheduler

    A start makes the idle task, remembers it, and then has a first task chosen.
    The first of these steps can be refused, and then nothing has changed.  The
    choice can be refused as well: scheduling may be suspended while no task runs.
    By then the idle task is made, and a start that finds one is refused, so what
    has been begun can never be brought to an end. -/

namespace PriorityScheduler

open Function (update)

namespace Routine

variable {σ α β : Type}

/-- If the routine fails, the platform was told to make no switch. -/
def FailsQuietly (r : Routine σ α) : Prop :=
  ∀ {m : Machine σ} {e : Failure} {n : Machine σ}, r m = .error e n →
    n.platform.switches = m.platform.switches

theorem Quiet.failsQuietly {r : Routine σ α} (quiet : Quiet r) : FailsQuietly r :=
  quiet.error

/-- What comes after a quiet part fails quietly if it does so by itself. -/
theorem failsQuietly_bind {r : Routine σ β} {f : β → Routine σ α} (quiet : Quiet r)
    (fails : ∀ b, FailsQuietly (f b)) : FailsQuietly (r >>= f) := by
  intro m e n failed
  rcases of_bind_error failed with hfirst | ⟨b, z, hfirst, hrest⟩
  · exact quiet.error hfirst
  · exact (fails b hrest).trans (quiet.ok hfirst)

end Routine

namespace Outline

variable {o o' : Outline} {h : Handle} {entry : Nat}

/-! ## The idle task -/

/-- A new task finds a slot exactly when fewer tasks are live than there may be. -/
theorem Tagged.vacancy_isSome (tagged : o.Tagged) (room : o.size ≤ o.settings.capacity) :
    o.vacancy.isSome = true ↔ o.liveCount < o.settings.capacity := by
  have hlive := tagged.live
  simp only [vacancy]
  cases hvacant : o.vacant with
  | cons i rest =>
      rw [hvacant, List.length_cons] at hlive
      simp only [Option.isSome_some, true_iff]
      omega
  | nil =>
      rw [hvacant, List.length_nil] at hlive
      by_cases hroom : o.size < o.settings.capacity
      · simp only [if_pos hroom, Option.isSome_some, true_iff]
        omega
      · simp only [if_neg hroom, Option.isSome_none, Bool.false_eq_true, false_iff]
        omega

/-- The idle task is refused if there is one, or if there is no slot for it. -/
theorem enrollIdle_cases (o : Outline) (levels : 0 < o.settings.levels) (entry : Nat) :
    (o.idle ≠ none ∧ o.enrollIdle entry = .error .invalidState)
      ∨ (o.vacancy = none ∧ o.enrollIdle entry = .error .tableFull)
      ∨ (o.idle = none ∧ o.vacancy.isSome = true ∧ ∃ o', o.enrollIdle entry = .ok ((), o')) := by
  simp only [enrollIdle]
  cases hidle : o.idle with
  | some idle => exact Or.inl ⟨Option.some_ne_none idle, rfl⟩
  | none =>
      right
      simp only [enroll, idlePriority, Nat.not_le.mpr levels, if_false, ne_eq, not_true_eq_false,
        false_and, Option.isSome_none, Bool.false_eq_true]
      cases hvacancy : o.vacancy with
      | none => exact Or.inl ⟨rfl, rfl⟩
      | some i => exact Or.inr ⟨trivial, rfl, _, rfl⟩

/-- The idle task has moved into a free slot and is ready, or postponed while
    scheduling is suspended. -/
theorem of_enrollIdle (done : o.enrollIdle entry = .ok ((), o')) :
    ∃ i task wanted, o.vacancy = some i ∧ task.handle = o.named i ∧ task.place = .unlinked
      ∧ task.name = o.settings.idleName ∧ task.flags.idle = true
      ∧ wanted = (decide (o.depth = 0) && ((o.occupy i task).makeReady i task).beats idlePriority)
      ∧ o' = { ((o.occupy i task).makeReady i task).wantSwitchIf wanted with
          idle := some (o.named i) } := by
  obtain ⟨-, idle, o'', hmade, rfl⟩ := of_enrollIdle_ok done
  obtain ⟨-, i, hvacancy, rfl, ⟨hbegins, -⟩ | ⟨-, wanted, rfl, hwanted⟩⟩ := of_enroll_ok hmade
  · cases hbegins
  · exact ⟨i, _, wanted, hvacancy, rfl, rfl, rfl, rfl, hwanted, rfl⟩

/-- Making the idle task leaves the suspension and the running task alone. -/
theorem Sound.enrollIdle_rest (sound : o.Sound) (done : o.enrollIdle entry = .ok ((), o')) :
    o'.depth = o.depth ∧ o'.runner = o.runner := by
  obtain ⟨-, idle, o'', hmade, rfl⟩ := of_enrollIdle_ok done
  have hrunner : o''.runner = o.runner := sound.enroll_runner hmade
  exact ⟨(lasts_enroll sound.tagged hmade).depth, hrunner⟩

/-! ## Refused starts -/

/-- A start is refused before it has changed anything, or because scheduling is
    suspended and no task runs, when the idle task has been made. -/
theorem Sound.of_start_refused (sound : o.Sound) (watched : o.Watched none)
    (levels : 0 < o.settings.levels) {cause : Refusal}
    (refused : start entry o = .error (.refused cause) o') :
    (cause ≠ .schedulerFrozen ∧ o.enrollIdle entry = .error cause)
      ∨ (cause = .schedulerFrozen ∧ o.depth ≠ 0 ∧ o.runner = none
        ∧ ∃ o₁, o.enrollIdle entry = .ok ((), o₁) ∧ o' = { o₁ with switchDue := true }) := by
  rcases of_bind_error refused with hfirst | ⟨⟨⟩, o₁, hfirst, hchoose⟩
  · rcases o.enrollIdle_cases levels entry with ⟨-, heq⟩ | ⟨-, heq⟩ | ⟨-, -, o₁, heq⟩
    · rw [Step.guarded_error (f := (·.enrollIdle entry)) heq] at hfirst
      cases hfirst
      exact Or.inl ⟨by decide, heq⟩
    · rw [Step.guarded_error (f := (·.enrollIdle entry)) heq] at hfirst
      cases hfirst
      exact Or.inl ⟨by decide, heq⟩
    · rw [Step.guarded_ok (f := (·.enrollIdle entry)) heq] at hfirst
      cases hfirst
  · have hmade := Step.of_guarded_ok hfirst
    have hsound := sound.enrollIdle hmade
    obtain ⟨hdepth, hrunner⟩ := sound.enrollIdle_rest hmade
    -- the idle task is there by now, so the choice does not fail for want of a task
    obtain ⟨-, idle, _, -, heq⟩ := of_enrollIdle_ok hmade
    have hwatched : o₁.Watched (some idle) := by
      refine ⟨(watched.enrollIdle hmade).alert, fun hknown => ?_⟩
      rw [heq]
      exact hknown
    have hchoice := choose_choice hsound.tagged hsound.runnerFree
    rw [hchoose] at hchoice
    cases hchoice with
    | starved => exact absurd hchoose (hwatched.choose_ne hsound _)
    | barred closed none =>
        exact Or.inr ⟨rfl, hdepth ▸ closed, hrunner.symm.trans none, o₁, hmade, rfl⟩

/-- A start that finds no running task while scheduling is suspended is refused. -/
theorem Sound.start_barred (sound : o.Sound) (closed : o.depth ≠ 0) (none : o.runner = none)
    (done : o.enrollIdle entry = .ok ((), o')) :
    start entry o = .error (.refused .schedulerFrozen) { o' with switchDue := true } := by
  obtain ⟨hdepth, hrunner⟩ := sound.enrollIdle_rest done
  have hguard : Step.guarded (·.enrollIdle entry) o = .ok () o' := Step.guarded_ok done
  have hchoose : choose o' = .error (.refused .schedulerFrozen) { o' with switchDue := true } := by
    simp only [choose, hdepth, if_neg closed, hrunner, none]
  show EStateM.bind _ _ _ = _
  simp only [EStateM.bind, hguard, hchoose]

end Outline

namespace Kernel

open Routine

variable {k : Kernel} {entry : Nat}

/-! ## What is left behind -/

/-- The idle task has been made and postponed, and a switch is due; no other task
    and no other list has changed. -/
structure HalfStarted (k k' : Kernel) (h : Handle) : Prop where
  remembered : k.idle = none ∧ k'.idle = some h
  /-- The idle task is new and live. -/
  made : k.table.get? h = none ∧ ∃ task, k'.table.get? h = some task
    ∧ task.name = k.settings.idleName ∧ task.flags.idle = true ∧ task.place = .postponed
  others : ∀ h', h' ≠ h → k'.table.get? h' = k.table.get? h'
  liveCount : k'.table.liveCount = k.table.liveCount + 1
  postponed : k'.handlesAt .postponed = k.handlesAt .postponed ++ [h]
  lists : ∀ q, q ≠ .postponed → k'.handlesAt q = k.handlesAt q
  current : k'.current = k.current
  marked : k'.switchDue = true

/-- The outline that a refused start leaves behind tells what has changed. -/
theorem Intact.halfStarted {k' : Kernel} {o : Outline} (intact : k.Intact) (intact' : k'.Intact)
    (closed : k.outline.depth ≠ 0) (done : k.outline.enrollIdle entry = .ok ((), o))
    (left : k'.outline = { o with switchDue := true }) : ∃ h, HalfStarted k k' h := by
  obtain ⟨hidle, -⟩ := Outline.of_enrollIdle_ok done
  obtain ⟨i, task, wanted, hvacancy, hhandle, hunlinked, hname, hmark, -, rfl⟩ :=
    Outline.of_enrollIdle done
  have hnone := intact.tagged.tenant_vacancy hvacancy
  have hplace : k.outline.readyPlace task = .postponed := if_neg closed
  have hfresh : ∀ q, (k.outline.row q).filter (· ≠ i) = k.outline.row q := by
    intro q
    refine filter_of_not_mem fun hi => ?_
    obtain ⟨-, t, ht, -⟩ := (intact.tagged.mem_row q i).mp hi
    rw [hnone] at ht
    cases ht
  have hgeneration : k'.outline.generation = k.outline.generation := by
    rw [left]
    rfl
  have htenant : k'.outline.tenant
      = update (update k.outline.tenant i (some task)) i (some (k.outline.readied task)) := by
    rw [left]
    rfl
  have hnamed : k'.outline.named = k.outline.named := by
    funext j
    simp only [Outline.named, hgeneration]
  have hrow : ∀ q, k'.outline.row q
      = k.outline.row q ++ if q = .postponed then [i] else [] := by
    intro q
    have hready := Outline.makeReady_row (k.outline.occupy i task) i task q
    rw [show (k.outline.occupy i task).readyPlace task = .postponed from hplace] at hready
    rw [left]
    refine hready.trans ?_
    rw [show (k.outline.occupy i task).row q = k.outline.row q from rfl, hfresh q]
  refine ⟨k.outline.named i, ⟨hidle, ?_⟩, ⟨?_, k.outline.readied task, ?_, hname, hmark, hplace⟩,
    ?_, ?_, ?_, ?_, ?_, ?_⟩
  · exact congrArg Outline.idle left
  · rw [get?_outline, Outline.get?_named]
    exact hnone
  · rw [get?_outline, ← hnamed, Outline.get?_named, htenant]
    exact Function.update_self ..
  · intro h' hne
    rw [get?_outline, get?_outline]
    by_cases hi : h'.index = i
    · -- another handle of the slot is stale before and after
      have hstale : k.outline.generation h'.index ≠ h'.generation := by
        intro hg
        refine hne ?_
        rw [← hi]
        simp only [Outline.named, hg]
      simp only [Outline.get?, hgeneration, if_neg hstale]
    · refine Outline.get?_congr (congrFun hgeneration _) ?_
      rw [htenant, Function.update_of_ne hi, Function.update_of_ne hi]
  · exact congrArg Outline.liveCount left
  · rw [intact.handlesAt, intact'.handlesAt]
    simp only [Outline.roster, hrow, hnamed, if_true, List.map_append, List.map_cons, List.map_nil]
  · intro q hq
    rw [intact.handlesAt, intact'.handlesAt]
    simp only [Outline.roster, hrow, hnamed, if_neg hq, List.append_nil]
  · exact congrArg Outline.current left
  · exact congrArg Outline.switchDue left

/-! ## Every refused start -/

/-- A start that fails has made no switch. -/
theorem start_failsQuietly (entry : Nat) : FailsQuietly (start entry) := by
  refine failsQuietly_bind quiet_read fun k => ?_
  by_cases hidle : k.idle.isSome = true
  · rw [if_pos hidle]
    exact (quiet_refuse _).failsQuietly
  · rw [if_neg hidle]
    refine failsQuietly_bind (quiet_enroll _ _) fun idle => failsQuietly_bind (quiet_update _) fun _ => ?_
    refine failsQuietly_bind quiet_read fun k => failsQuietly_bind (quiet_log _) fun _ => ?_
    refine failsQuietly_bind quiet_choose fun first => ?_
    rintro m e n ⟨⟩

/-- A start that is refused its idle task leaves the kernel as it was. -/
theorem Intact.start_same (intact : k.Intact) {p : Platform} {cause : Refusal} {m : Machine Kernel}
    (refused : start entry ⟨k, p⟩ = .error (.refused cause) m) {cause' : Refusal}
    (unmade : k.outline.enrollIdle entry = .error cause') : m.state = k := by
  rcases of_bind_error refused with hread | ⟨k', n, hread, hrest⟩
  · cases hread
  · obtain ⟨rfl, rfl⟩ := EStateM.Result.ok.inj hread
    by_cases hidle : k.idle.isSome = true
    · rw [if_pos hidle] at hrest
      cases hrest
      rfl
    · rw [if_neg hidle] at hrest
      rcases of_bind_error hrest with hmade | ⟨idle, n, hmade, -⟩
      · exact ((intact.obeys_enroll _ _).error hmade).1
      · obtain ⟨-, hdone⟩ := (intact.obeys_enroll _ _).ok hmade
        simp only [Outline.enrollIdle] at unmade
        rw [if_neg (show ¬ k.outline.idle.isSome = true from hidle)] at unmade
        rw [show k.outline.settings.idleName = k.settings.idleName from rfl, hdone] at unmade
        cases unmade

/-- A start that finds an idle task is refused. -/
theorem start_refused (idle : k.idle.isSome = true) (entry : Nat) (p : Platform) :
    start entry ⟨k, p⟩ = .error (.refused .invalidState) ⟨k, p⟩ := by
  simp only [start, bind, EStateM.bind, Routine.read, idle, if_true]
  rfl

/-- Once there is an idle task, every history of calls is answered to its end, and
    a start after it is refused. -/
theorem Intact.start_again (intact : k.Intact) (sound : k.outline.Sound) {h : Handle}
    (watched : k.outline.Watched (some h)) (calls : List Call) (p q : Platform) (entry : Nat) :
    ∃ rs m, perform calls ⟨k, p⟩ = .ok rs m
      ∧ start entry ⟨m.state, q⟩ = .error (.refused .invalidState) ⟨m.state, q⟩ := by
  obtain ⟨rs, o', hperform, -, hwatched⟩ := watched.perform_done sound calls
  obtain ⟨m, hran, rfl⟩ := (intact.enacts_perform sound calls).of_ok hperform p
  have hidle : m.state.idle = some h := hwatched.known rfl
  exact ⟨rs, m, hran, start_refused (Option.isSome_of_eq_some hidle) entry q⟩

/-- The table of a reachable kernel has no more slots than the settings allow. -/
theorem Reachable.room (reachable : Reachable k) :
    k.outline.size ≤ k.outline.settings.capacity := by
  induction reachable with
  | initial valid => exact Nat.zero_le _
  | call c before ran ih =>
      obtain ⟨hintact, hsound⟩ := before.intact
      obtain ⟨-, -, hstep⟩ := hintact.of_call hsound ran
      have hkeeps := Step.keeps_attempt (Outline.kept_room.run (c := c) trivial)
      exact (hkeeps.ok ⟨hsound, ih⟩ hstep).2

/-- A start can be refused halfway.  It is refused because scheduling is suspended
    exactly if it finds no idle task, a free slot and no running task meanwhile; then
    the idle task is made, postponed and remembered all the same, and no start after
    that is ever done.  Refused for another cause it has changed nothing, and in no
    case has it made a switch. -/
theorem start_refused_halfway (reachable : Reachable k) (entry : Nat) (p : Platform) :
    (∀ (cause : Refusal) (m : Machine Kernel), start entry ⟨k, p⟩ = .error (.refused cause) m →
        m.platform.switches = p.switches
          ∧ (cause ≠ .schedulerFrozen → m.state = k)
          ∧ (cause = .schedulerFrozen → (∃ h, HalfStarted k m.state h)
            ∧ ∀ calls q q' entry', ∃ rs n, perform calls ⟨m.state, q⟩ = .ok rs n
              ∧ start entry' ⟨n.state, q'⟩ = .error (.refused .invalidState) ⟨n.state, q'⟩))
      ∧ ((∃ m, start entry ⟨k, p⟩ = .error (.refused .schedulerFrozen) m)
          ↔ k.idle = none ∧ k.freeze.isOff = false ∧ k.runner = none
            ∧ k.table.liveCount < k.settings.capacity) := by
  obtain ⟨hintact, hsound⟩ := reachable.intact
  have hwatched := reachable.watched
  have hlevels : 0 < k.outline.settings.levels := hintact.threaded.valid.1.1
  have hslot := hsound.tagged.vacancy_isSome reachable.room
  constructor
  · intro cause m refused
    obtain ⟨hintact', hstep⟩ := (hintact.enacts_start hsound entry).error refused
    refine ⟨start_failsQuietly entry refused, ?_⟩
    rcases hsound.of_start_refused hwatched hlevels hstep with
      ⟨hcause, hunmade⟩ | ⟨rfl, hclosed, -, o, hmade, hleft⟩
    · exact ⟨fun _ => hintact.start_same refused hunmade, fun hfrozen => absurd hfrozen hcause⟩
    · refine ⟨fun hne => absurd rfl hne, fun _ => ?_⟩
      obtain ⟨h, hhalf⟩ := hintact.halfStarted hintact' hclosed hmade hleft
      have hsound' : m.state.outline.Sound := by
        rw [hleft]
        exact (hsound.enrollIdle hmade).remark _ _ _ true _
      have hwatched' : m.state.outline.Watched (some h) := by
        refine ⟨?_, fun hknown => Option.some.inj hknown ▸ hhalf.remembered.2⟩
        rw [hleft]
        exact (hwatched.enrollIdle hmade).alert
      exact ⟨⟨h, hhalf⟩, hintact'.start_again hsound' hwatched'⟩
  · rw [isOff_outline, decide_eq_false_iff_not, runner_outline]
    constructor
    · rintro ⟨m, refused⟩
      obtain ⟨-, hstep⟩ := (hintact.enacts_start hsound entry).error refused
      rcases hsound.of_start_refused hwatched hlevels hstep with
        ⟨hcause, -⟩ | ⟨-, hclosed, hrunner, o, hmade, -⟩
      · exact absurd rfl hcause
      · obtain ⟨i, -, -, hvacancy, -⟩ := Outline.of_enrollIdle hmade
        refine ⟨(Outline.of_enrollIdle_ok hmade).1, hclosed, hrunner, hslot.mp ?_⟩
        rw [hvacancy]
        rfl
    · rintro ⟨hidle, hclosed, hrunner, hlive⟩
      rcases k.outline.enrollIdle_cases hlevels entry with ⟨hthere, -⟩ | ⟨hfull, -⟩ | ⟨-, -, o, hmade⟩
      · exact absurd hidle hthere
      · rw [← Option.not_isSome_iff_eq_none] at hfull
        exact absurd (hslot.mpr hlive) hfull
      · have hstep := hsound.start_barred hclosed hrunner hmade
        cases hend : start entry ⟨k, p⟩ with
        | ok a m =>
            obtain ⟨-, hsame⟩ := (hintact.enacts_start hsound entry).ok hend
            rw [hstep] at hsame
            cases hsame
        | error e m =>
            obtain ⟨-, hsame⟩ := (hintact.enacts_start hsound entry).error hend
            rw [hstep] at hsame
            obtain ⟨rfl, -⟩ := EStateM.Result.error.inj hsame
            exact ⟨m, rfl⟩

/-- Begun while scheduling is suspended, a start leaves the idle task behind, and the
    next one is refused for it although scheduling goes on by then. -/
theorem start_refused_halfway_frozen :
    ∃ (k : Kernel) (m : Machine Kernel), Reachable k ∧ k.idle = none ∧ k.runner = none
      ∧ start 0 ⟨k, {}⟩ = .error (.refused .schedulerFrozen) m ∧ m.platform.switches = []
      ∧ (∃ h, HalfStarted k m.state h)
      ∧ ∃ rs n, perform [.thawAll] ⟨m.state, {}⟩ = .ok rs n
        ∧ start 0 ⟨n.state, {}⟩ = .error (.refused .invalidState) ⟨n.state, {}⟩ := by
  have hvalid : ({} : Settings).Valid := by decide
  have hdone : isDone (do
      let _ ← perform [.freezeAll]
      let k ← read
      if k.idle = none ∧ k.freeze.isOff = false ∧ k.runner = none
          ∧ k.table.liveCount < k.settings.capacity then
        pure ()
      else
        refuse .invalidState) ⟨initial {}, {}⟩ = true := by
    decide +kernel
  obtain ⟨⟨⟩, n, hrun⟩ := of_isDone hdone
  obtain ⟨rs, m₀, hfrozen, hrun⟩ := of_bind_ok hrun
  obtain ⟨k, m₁, hread, hrun⟩ := of_bind_ok hrun
  obtain ⟨rfl, rfl⟩ := EStateM.Result.ok.inj hread
  obtain ⟨⟨hidle, hclosed, hrunner, hlive⟩, -⟩ := of_unless_ok hrun
  have hinitial : Reachable (⟨initial {}, {}⟩ : Machine Kernel).state := .initial hvalid
  have hreachable : Reachable m₀.state := hinitial.perform hfrozen
  obtain ⟨hcases, hiff⟩ := start_refused_halfway hreachable 0 {}
  obtain ⟨m, hrefused⟩ := hiff.mpr ⟨hidle, hclosed, hrunner, hlive⟩
  obtain ⟨hswitches, -, hleft⟩ := hcases _ m hrefused
  obtain ⟨hhalf, hagain⟩ := hleft rfl
  exact ⟨m₀.state, m, hreachable, hidle, hrunner, hrefused, hswitches, hhalf,
    hagain [.thawAll] {} {} 0⟩

end Kernel

end PriorityScheduler
