import PriorityScheduler.Proofs.Lasting
import PriorityScheduler.Proofs.WellFormed

/-! # Counts and indices in range

    A scheduler keeps counts in words and finds lists by index.  The level of a
    ready task, and every level that the map of occupied levels marks, is the index
    of a list, so no list is looked up beside the table of them and no bit beside
    the map.  The numbers of slots, of live tasks and of tasks on a list are below
    the number of slots that the settings allow, which a word holds.

    Two numbers are counted down: the depth of the suspension, by the end of a
    suspension, and the ticks that are left of a wait, by a check of the wait.
    Neither is counted down below zero.

    With the conditions that are checked on the way, which name a fault each, this
    leaves one way in which a scheduler stops. -/

namespace PriorityScheduler

/-! ## Counting down -/

/-- A word that is not zero can be counted down. -/
theorem toNat_sub_one {a : UInt32} (some : a ≠ 0) : (a - 1).toNat = a.toNat - 1 := by
  have hpos : 0 < a.toNat := by
    refine Nat.pos_of_ne_zero ?_
    intro hzero
    exact some (UInt32.toNat_inj.mp hzero)
  exact UInt32.toNat_sub_of_le _ _ (UInt32.le_iff_toNat_le.mpr hpos)

/-- The end of a suspension takes one off the depth, if there is one. -/
theorem Outline.depth_thawAll (o : Outline) :
    o.thawAll.2.depth.toNat = o.depth.toNat - 1 := by
  by_cases hzero : o.depth = 0
  · rw [thawAll, if_pos hzero, hzero]
    rfl
  · rcases o.thawAll_cases with ⟨hnone, -⟩ | ⟨-, heq⟩ | ⟨hlast, heq⟩
    · exact absurd hnone hzero
    · rw [heq]
      exact toNat_sub_one hzero
    · rw [heq, hlast]
      rfl

/-- A check of a wait leaves no more ticks than there were. -/
theorem Moment.remaining_checkWait (now since : Moment) (remaining : Tick) :
    (now.checkWait since remaining).remaining ≤ remaining := by
  have hzero : (0 : Tick) ≤ remaining := UInt32.le_iff_toNat_le.mpr (Nat.zero_le _)
  simp only [checkWait]
  by_cases hforever : remaining = waitForever
  · rw [if_pos hforever]
    exact UInt32.le_refl remaining
  · rw [if_neg hforever]
    by_cases hturn : since.wraps ≠ now.wraps ∧ since.tick ≤ now.tick
    · rw [if_pos hturn]
      exact hzero
    · rw [if_neg hturn]
      by_cases hleft : now.tick - since.tick < remaining
      · rw [if_pos hleft]
        -- less has elapsed than was left, so the difference does not wrap
        have hle := UInt32.le_of_lt hleft
        rw [UInt32.le_iff_toNat_le, UInt32.toNat_sub_of_le _ _ hle]
        omega
      · rw [if_neg hleft]
        exact hzero

namespace Outline

/-- A check of a wait is answered, and leaves no more ticks than there were. -/
theorem checkWait_done (o : Outline) (since : Moment) (remaining : Tick) :
    ∃ v, checkWait since remaining o = .ok v o.takeCutShort.2 ∧ v.remaining ≤ remaining := by
  simp only [checkWait, bind, EStateM.bind, Step.always]
  by_cases hcut : o.takeCutShort.1 = true
  · rw [if_pos hcut]
    exact ⟨_, rfl, UInt32.le_refl remaining⟩
  · rw [if_neg hcut]
    exact ⟨_, rfl, Moment.remaining_checkWait _ since remaining⟩

end Outline

namespace Kernel

open Routine

variable {k : Kernel}

/-! ## Kernels in range -/

/-- The counts of a kernel fit in words, and its indices are those of lists. -/
structure InRange (k : Kernel) : Prop where
  /-- There are no more slots than the settings allow, and a word counts them. -/
  slots : k.table.slots.size ≤ k.settings.capacity ∧ k.settings.capacity ≤ maxCapacity
  live : k.table.liveCount ≤ k.table.slots.size
  /-- No list is longer than there are live tasks. -/
  lists : ∀ q, k.countAt q ≤ k.table.liveCount
  /-- The map has a bit for every level. -/
  levels : k.ready.levels.size ≤ maxLevels
  /-- Every priority, every level that a record names and every level that the map
      finds is the index of a level. -/
  priority : ∀ {i task}, k.table.tenant? i = some task → task.priority < k.ready.levels.size
  level : ∀ {i task p}, k.table.tenant? i = some task → task.place = .ready p →
    p < k.ready.levels.size
  top : ∀ {p}, k.ready.topLevel = some p → p < k.ready.levels.size

/-- No list of an intact kernel is longer than there are live tasks. -/
theorem Intact.countAt_le (intact : k.Intact) (q : Place) : k.countAt q ≤ k.table.liveCount := by
  have hlength : k.countAt q = (k.slotsAt q).length := (intact.threaded.holds q).length
  by_cases hq : q = .unlinked
  · rw [hlength, hq, slotsAt_unlinked]
    exact Nat.zero_le _
  · rw [hlength, intact.census hq, intact.liveCount]
    exact List.length_filter_le _ _

/-- An intact kernel with room in its table is in range. -/
theorem Intact.inRange (intact : k.Intact)
    (room : k.table.slots.size ≤ k.settings.capacity) : k.InRange where
  slots := ⟨room, intact.threaded.valid.2.1.2⟩
  live := by
    have hlive : k.table.liveCount + k.table.vacant.length = k.table.slots.size :=
      intact.tagged.live
    omega
  lists := intact.countAt_le
  levels := by
    rw [intact.threaded.levels]
    exact intact.threaded.valid.1.2
  priority htask := by
    rw [intact.threaded.levels]
    exact intact.tagged.priority htask
  level htask hplace := by
    rw [intact.threaded.levels]
    exact intact.tagged.level htask hplace
  top := by
    intro p htop
    rcases intact.threaded.topLevel with ⟨hnone, -⟩ | ⟨p', hsome, hoccupied, -⟩
    · rw [hnone] at htop
      cases htop
    · rw [hsome] at htop
      obtain rfl := Option.some.inj htop
      rw [intact.threaded.levels]
      -- levels beyond the last one are empty, and the highest one is not
      by_contra hbeyond
      exact hoccupied (intact.tagged.row_ready (Nat.le_of_not_lt hbeyond))

/-! ## Calls that count down -/

/-- The end of a suspension takes one off the depth, if there is one. -/
theorem Intact.depth_of_thawAll (intact : k.Intact) (sound : k.outline.Sound) {p : Platform}
    {r : Except Refusal Reply} {m : Machine Kernel}
    (ran : attempt Call.thawAll.run ⟨k, p⟩ = .ok r m) :
    m.state.freeze.depth.toNat = k.freeze.depth.toNat - 1 := by
  obtain ⟨-, -, hstep⟩ := intact.of_call sound ran
  obtain ⟨-, hstate⟩ := EStateM.Result.ok.inj hstep
  have hdepth := k.outline.depth_thawAll
  rw [hstate] at hdepth
  exact hdepth

/-- A check of a wait is answered, and leaves no more ticks than there were. -/
theorem Intact.remaining_of_checkWait (intact : k.Intact) (sound : k.outline.Sound)
    {since : Moment} {remaining : Tick} {p : Platform} {r : Except Refusal Reply}
    {m : Machine Kernel} (ran : attempt (Call.checkWait since remaining).run ⟨k, p⟩ = .ok r m) :
    ∃ v, r = .ok (.verdict v) ∧ v.remaining ≤ remaining := by
  obtain ⟨-, -, hstep⟩ := intact.of_call sound ran
  obtain ⟨v, hdone, hle⟩ := k.outline.checkWait_done since remaining
  rcases Step.of_attempt_ok hstep with ⟨reply, rfl, hrun⟩ | ⟨cause, -, hrun⟩
  · obtain ⟨v', o', hdone', hreply⟩ := of_bind_ok hrun
    rw [hdone] at hdone'
    obtain ⟨rfl, rfl⟩ := EStateM.Result.ok.inj hdone'
    obtain ⟨rfl, -⟩ := EStateM.Result.ok.inj hreply
    exact ⟨v, rfl, hle⟩
  · rcases of_bind_error hrun with hrun | ⟨v', o', -, hreply⟩
    · rw [hdone] at hrun
      cases hrun
    · cases hreply

/-! ## Every history -/

/-- Whatever calls are made of a scheduler of accepted settings, it stops in one
    way only, and says so.  However the history ends, the counts and indices are
    in range, and neither the end of a suspension nor a check of a wait counts
    below zero from there. -/
theorem perform_in_range {s : Settings} (accepted : s.check = .ok ()) (p : Platform)
    (calls : List Call) :
    (∀ e m, perform calls ⟨initial s, p⟩ = .error e m →
        (∃ what, e = .fault what ∧ what = .halted .nothingReady
          ∧ what.message = "scheduler halted: no ready task to dispatch")
        ∧ m.state.InRange)
      ∧ ∀ rs m, perform calls ⟨initial s, p⟩ = .ok rs m → m.state.InRange
          ∧ (∀ q r m', attempt Call.thawAll.run ⟨m.state, q⟩ = .ok r m' →
              m'.state.freeze.depth.toNat = m.state.freeze.depth.toNat - 1)
          ∧ ∀ q since remaining r m',
              attempt (Call.checkWait since remaining).run ⟨m.state, q⟩ = .ok r m' →
                ∃ v, r = .ok (.verdict v) ∧ v.remaining ≤ remaining := by
  have hvalid : s.Valid := s.check_eq_ok_iff.mp accepted
  have hintact := intact_initial hvalid
  have hsound := sound_initial hvalid
  have hkept : Step.Keeps (fun o => o.Sound ∧ o.size ≤ o.settings.capacity)
      (Outline.perform calls) :=
    Outline.kept_room.perform fun _ _ => trivial
  have hroom : (initial s).outline.size ≤ (initial s).outline.settings.capacity :=
    Nat.zero_le _
  constructor
  · intro e m hrun
    obtain ⟨hintact', hfailed⟩ := (hintact.enacts_perform hsound calls).error hrun
    have hroom' := (hkept.error ⟨hsound, hroom⟩ hfailed).2
    obtain rfl := Outline.perform_error hsound hfailed
    exact ⟨⟨_, rfl, rfl, rfl⟩, hintact'.inRange hroom'⟩
  · intro rs m hrun
    obtain ⟨hintact', hsound', hdone⟩ := hintact.of_perform hsound hrun
    have hroom' := (hkept.ok ⟨hsound, hroom⟩ hdone).2
    refine ⟨hintact'.inRange hroom', ?_, ?_⟩
    · intro q r m' hthawed
      exact hintact'.depth_of_thawAll hsound' hthawed
    · intro q since remaining r m' hchecked
      exact hintact'.remaining_of_checkWait hsound' hchecked

/-- A scheduler without any task stops when a switch is to be made.  One whose
    start is refused goes on, suspended once. -/
theorem perform_in_range_default :
    ({} : Settings).check = .ok ()
      ∧ ∃ e m rs m', perform [.switch] ⟨initial {}, {}⟩ = .error e m
        ∧ (∃ what, e = .fault what ∧ what = .halted .nothingReady
          ∧ what.message = "scheduler halted: no ready task to dispatch")
        ∧ m.state.InRange
        ∧ perform [.freezeAll, .start 0, .block ⟨7, 2⟩ 5] ⟨initial {}, {}⟩ = .ok rs m'
        ∧ m'.state.InRange
        ∧ (∀ q r m'', attempt Call.thawAll.run ⟨m'.state, q⟩ = .ok r m'' →
            m''.state.freeze.depth.toNat = m'.state.freeze.depth.toNat - 1)
        ∧ ∀ q since remaining r m'',
            attempt (Call.checkWait since remaining).run ⟨m'.state, q⟩ = .ok r m'' →
              ∃ v, r = .ok (.verdict v) ∧ v.remaining ≤ remaining := by
  have haccepted : ({} : Settings).check = .ok () :=
    ({} : Settings).check_eq_ok_iff.mpr (by decide)
  have hstops : isDone (perform [.switch]) ⟨initial {}, {}⟩ = false := by
    decide +kernel
  have hgoes : isDone (perform [.freezeAll, .start 0, .block ⟨7, 2⟩ 5]) ⟨initial {}, {}⟩ = true := by
    decide +kernel
  obtain ⟨hfails, -⟩ := perform_in_range haccepted {} [.switch]
  obtain ⟨-, hdone⟩ := perform_in_range haccepted {} [.freezeAll, .start 0, .block ⟨7, 2⟩ 5]
  obtain ⟨e, m, hfailed⟩ := of_not_isDone hstops
  obtain ⟨rs, m', hran⟩ := of_isDone hgoes
  obtain ⟨hwhat, hrange⟩ := hfails e m hfailed
  obtain ⟨hrange', hthaw, hcheck⟩ := hdone rs m' hran
  exact ⟨haccepted, e, m, rs, m', hfailed, hwhat, hrange, hran, hrange', hthaw, hcheck⟩

end Kernel

end PriorityScheduler
