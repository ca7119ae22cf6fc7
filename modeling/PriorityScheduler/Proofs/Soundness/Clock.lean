import PriorityScheduler.Proofs.Soundness

/-! # Sound outlines, tick by tick

    A tick moves the counter and then makes ready the tasks whose tick has come.
    In between an outline is STRUCK: a task of the present cycle may be due now,
    and one of the next cycle still comes before the counter.  When the counter
    wraps no task is left in the cycle that ends, and the two cycles change
    roles. -/

namespace PriorityScheduler

open Function (update)

namespace Outline

variable {o : Outline} {i : Nat} {l : List Nat} {h : Handle} {task : Task} {f : Task → Task}

/-! ## The counter -/

/-- A count that does not wrap with its next step goes up by one. -/
theorem toNat_succ {a : UInt32} (wrap : a + 1 ≠ 0) : (a + 1).toNat = a.toNat + 1 := by
  have ha := a.toNat_lt
  have hne : a.toNat + 1 ≠ 2 ^ 32 := by
    intro hmax
    refine wrap (UInt32.toNat_inj.mp ?_)
    rw [UInt32.toNat_add, UInt32.toNat_one, hmax]
    rfl
  rw [UInt32.toNat_add, UInt32.toNat_one, Nat.mod_eq_of_lt (by omega)]

/-- A count that wraps with its next step is the last one. -/
theorem toNat_of_succ_eq_zero {a : UInt32} (wrap : a + 1 = 0) : a.toNat = 0xFFFFFFFF := by
  have ha := a.toNat_lt
  have hzero := congrArg UInt32.toNat wrap
  rw [UInt32.toNat_add, UInt32.toNat_one, UInt32.toNat_zero] at hzero
  omega

/-- A count below another is at most the other after one more step. -/
theorem succ_le_of_lt {a b : UInt32} (hlt : a < b) : a + 1 ≤ b := by
  rw [UInt32.lt_iff_toNat_lt] at hlt
  have hb := b.toNat_lt
  rw [UInt32.le_iff_toNat_le, UInt32.toNat_add, UInt32.toNat_one, Nat.mod_eq_of_lt (by omega)]
  exact hlt

/-- A count is below one more, unless that wraps. -/
theorem lt_succ_of_lt {a b : UInt32} (hlt : a < b) (wrap : b + 1 ≠ 0) : a < b + 1 := by
  rw [UInt32.lt_iff_toNat_lt] at hlt ⊢
  rw [toNat_succ wrap]
  omega

/-- No count is above the one that wraps with its next step. -/
theorem not_lt_of_succ_eq_zero {a b : UInt32} (wrap : a + 1 = 0) : ¬ a < b := by
  have hmax := toNat_of_succ_eq_zero wrap
  have hb := b.toNat_lt
  rw [UInt32.lt_iff_toNat_lt]
  omega

/-! ## Several tasks at once -/

/-- A change of a record that leaves alone what the scheduler goes by. -/
structure Mild (f : Task → Task) : Prop where
  handle : ∀ t, (f t).handle = t.handle
  priority : ∀ t, (f t).priority = t.priority
  idle : ∀ t, (f t).flags.idle = t.flags.idle

theorem mild_id : Mild id :=
  ⟨fun _ => rfl, fun _ => rfl, fun _ => rfl⟩

theorem mild_timedOut : Mild timedOut :=
  ⟨fun _ => rfl, fun _ => rfl, fun _ => rfl⟩

/-- The task in a slot has become ready, or is the one that was there. -/
theorem makeAllReady_tenant_cases (live : (o.makeAllReady f l).tenant i = some task) :
    (i ∈ l ∧ ∃ t, o.tenant i = some t ∧ task = o.readied (f t))
      ∨ (i ∉ l ∧ o.tenant i = some task) := by
  by_cases hi : i ∈ l
  · rw [show (o.makeAllReady f l).tenant i = (o.tenant i).map (fun t => o.readied (f t))
      from if_pos hi] at live
    obtain ⟨t, ht, rfl⟩ := Option.map_eq_some_iff.mp live
    exact Or.inl ⟨hi, t, ht, rfl⟩
  · rw [show (o.makeAllReady f l).tenant i = o.tenant i from if_neg hi] at live
    exact Or.inr ⟨hi, live⟩

/-- A handle names the same task, which has become ready or is as it was. -/
theorem makeAllReady_get? (live : o.get? h = some task) :
    (o.makeAllReady f l).get? h
      = some (if h.index ∈ l then o.readied (f task) else task) := by
  unfold get? at live ⊢
  by_cases hg : o.generation h.index = h.generation
  · rw [if_pos hg] at live
    show (if o.generation h.index = h.generation then
      if h.index ∈ l then (o.tenant h.index).map _ else o.tenant h.index else none) = _
    rw [if_pos hg, live]
    by_cases hi : h.index ∈ l
    · rw [if_pos hi, if_pos hi]
      rfl
    · rw [if_neg hi, if_neg hi]
  · rw [if_neg hg] at live
    cases live

/-- Tags agree after tasks have become ready. -/
theorem Tagged.makeAllReady (tagged : o.Tagged) (mild : Mild f) (nodup : l.Nodup)
    (live : ∀ i ∈ l, ∃ t, o.tenant i = some t) : (o.makeAllReady f l).Tagged := by
  induction l generalizing o with
  | nil =>
      rw [makeAllReady_nil]
      exact tagged
  | cons i rest ih =>
      obtain ⟨hfresh, hnodup⟩ := List.nodup_cons.mp nodup
      obtain ⟨t, ht⟩ := live i List.mem_cons_self
      have hpriority : (o.readied (f t)).priority < o.settings.levels := by
        show (f t).priority < _
        rw [mild.priority]
        exact tagged.priority ht
      rw [makeAllReady_cons ht hfresh]
      refine ih ?_ hnodup ?_
      · refine tagged.reseat .back ht (mild.handle t) hpriority ?_
        intro p hp
        rw [(o.fits_readied (f t)).level p hp]
        exact hpriority
      · intro j hj
        rw [tenant_makeReady hfresh hj]
        exact live j (List.mem_cons_of_mem i hj)

/-- No task is delayed by being made ready. -/
theorem makeAllReady_row_delayed (o : Outline) (f : Task → Task) (l : List Nat) (c : Cycle) :
    (o.makeAllReady f l).row (.delayed c) = (o.row (.delayed c)).filter (· ∉ l) := by
  have hnone : l.filter (fun i => (o.tenant i).any fun task =>
      decide (o.readyPlace (f task) = .delayed c)) = [] := by
    rw [List.filter_eq_nil_iff]
    intro i _
    cases o.tenant i with
    | none => rintro ⟨⟩
    | some t =>
        have hne : o.readyPlace (f t) ≠ .delayed c := o.readied_ne_delayed (f t) c
        simpa using hne
  show _ ++ l.filter _ = _
  rw [hnone, List.append_nil]

/-- The delayed tasks that stay are still in order. -/
theorem InOrder.makeAllReady (inOrder : o.InOrder) : (o.makeAllReady f l).InOrder := by
  intro c
  rw [makeAllReady_row_delayed]
  refine ((inOrder c).filter _).imp_of_mem ?_
  intro x y hx hy hle
  have htick : ∀ j ∈ (o.row (.delayed c)).filter (· ∉ l),
      tickOf (o.makeAllReady f l).tenant j = tickOf o.tenant j := by
    intro j hj
    have hj' : j ∉ l := of_decide_eq_true (List.mem_filter.mp hj).2
    simp only [tickOf]
    rw [show (o.makeAllReady f l).tenant j = o.tenant j from if_neg hj']
  rw [htick x hx, htick y hy]
  exact hle

/-- The records fit after tasks have become ready, if those of the other tasks
    did. -/
theorem settled_makeAllReady (mild : Mild f)
    (current : ∀ {h}, o.current = some h → ∃ task, o.get? h = some task)
    (idle : ∀ {h}, o.idle = some h → ∃ task, o.get? h = some task ∧ task.flags.idle = true)
    (flagged : ∀ {i task}, o.tenant i = some task → task.flags.idle = true →
      o.idle = some task.handle)
    (fits : ∀ {i task}, i ∉ l → o.tenant i = some task → o.Fits task) :
    (o.makeAllReady f l).Settled := by
  constructor
  case fits =>
    intro i t ht
    rcases makeAllReady_tenant_cases ht with ⟨-, t', -, rfl⟩ | ⟨hi, ht⟩
    · exact (o.fits_readied (f t')).congr rfl rfl
    · exact (fits hi ht).congr rfl rfl
  case current =>
    intro h hh
    obtain ⟨t, ht⟩ := current hh
    exact ⟨_, makeAllReady_get? ht⟩
  case idle =>
    intro h hh
    obtain ⟨t, ht, hflag⟩ := idle hh
    refine ⟨_, makeAllReady_get? ht, ?_⟩
    by_cases hi : h.index ∈ l
    · rw [if_pos hi]
      show (f t).flags.idle = true
      rw [mild.idle]
      exact hflag
    · rw [if_neg hi]
      exact hflag
  case flagged =>
    intro i t ht hflag
    rcases makeAllReady_tenant_cases ht with ⟨-, t', ht', rfl⟩ | ⟨-, ht⟩
    · have hflag' : t'.flags.idle = true := by
        rw [← mild.idle t']
        exact hflag
      show o.idle = some (f t').handle
      rw [mild.handle]
      exact flagged ht' hflag'
    · exact flagged ht hflag

/-! ## The counter goes on -/

/-- The counter has moved, and the tasks whose tick has come are still to be made
    ready. -/
structure Struck (o : Outline) : Prop where
  tagged : o.Tagged
  settled : o.Settled
  inOrder : o.InOrder
  ahead : ∀ {i task}, o.tenant i = some task → task.place = .delayed o.cycle →
    o.now ≤ task.wakeTick
  behind : ∀ {i task}, o.tenant i = some task → task.place = .delayed o.cycle.other →
    task.wakeTick < o.now

/-- When the counter is about to wrap, no task is left in the present cycle. -/
theorem Sound.cycle_done (sound : o.Sound) (wrap : o.now + 1 = 0) :
    o.row (.delayed o.cycle) = [] := by
  refine List.eq_nil_iff_forall_not_mem.mpr ?_
  intro i hi
  obtain ⟨-, t, ht, hplace⟩ := (sound.tagged.mem_row _ i).mp hi
  exact not_lt_of_succ_eq_zero wrap ((sound.timed ht).ahead hplace)

/-- The counter moves into the next cycle when it wraps, and else stays in the
    present one. -/
theorem advance_cases (o : Outline) :
    (o.now + 1 = 0 ∧ o.advance = { o with now := 0, cycle := o.cycle.other, wraps := o.wraps + 1 })
      ∨ (o.now + 1 ≠ 0 ∧ o.advance = { o with now := o.now + 1 }) := by
  simp only [advance]
  by_cases hwrap : o.now + 1 = 0
  · rw [if_pos hwrap]
    exact Or.inl ⟨hwrap, rfl⟩
  · rw [if_neg hwrap]
    exact Or.inr ⟨hwrap, rfl⟩

theorem Sound.advance (sound : o.Sound) : o.advance.Struck := by
  obtain ⟨hfits, hcurrent, hidle, hflagged⟩ := sound.settled
  rcases o.advance_cases with ⟨hwrap, heq⟩ | ⟨hwrap, heq⟩
  · rw [heq]
    refine ⟨sound.tagged.congr rfl rfl rfl rfl rfl rfl rfl, ⟨?_, hcurrent, hidle, hflagged⟩,
      sound.inOrder, ?_, ?_⟩
    · exact fun ht => (hfits ht).congr rfl rfl
    · intro i t _ _
      exact UInt32.le_iff_toNat_le.mpr (Nat.zero_le _)
    · intro i t ht hplace
      rw [show ({ o with now := 0, cycle := o.cycle.other, wraps := o.wraps + 1 } : Outline).cycle
        = o.cycle.other from rfl, Cycle.other_other] at hplace
      exact absurd ((sound.timed ht).ahead hplace) (not_lt_of_succ_eq_zero hwrap)
  · rw [heq]
    refine ⟨sound.tagged.congr rfl rfl rfl rfl rfl rfl rfl, ⟨?_, hcurrent, hidle, hflagged⟩,
      sound.inOrder, ?_, ?_⟩
    · exact fun ht => (hfits ht).congr rfl rfl
    · intro i t ht hplace
      exact succ_le_of_lt ((sound.timed ht).ahead hplace)
    · intro i t ht hplace
      exact lt_succ_of_lt ((sound.timed ht).behind hplace) hwrap

/-- The tasks whose tick has come are distinct and live. -/
theorem Tagged.due (tagged : o.Tagged) :
    o.due.Nodup ∧ ∀ i ∈ o.due, ∃ t, o.tenant i = some t ∧ t.place = .delayed o.cycle := by
  refine ⟨(tagged.nodup _).sublist (List.takeWhile_sublist _), ?_⟩
  intro i hi
  exact ((tagged.mem_row _ i).mp (List.takeWhile_subset _ hi)).2

/-- Once the tasks whose tick has come are ready, the outline is sound. -/
theorem Struck.wakeDue (struck : o.Struck) : o.wakeDue.Sound := by
  obtain ⟨hnodup, hlive⟩ := struck.tagged.due
  have hlive' : ∀ i ∈ o.due, ∃ t, o.tenant i = some t := by
    intro i hi
    obtain ⟨t, ht, -⟩ := hlive i hi
    exact ⟨t, ht⟩
  refine ⟨struck.tagged.makeAllReady mild_timedOut hnodup hlive', ?_, struck.inOrder.makeAllReady, ?_⟩
  · exact settled_makeAllReady mild_timedOut struck.settled.current
      struck.settled.idle struck.settled.flagged (fun _ ht => struck.settled.fits ht)
  · intro i t ht
    rcases makeAllReady_tenant_cases ht with ⟨-, t', -, rfl⟩ | ⟨hi, ht⟩
    · exact timed_of_ne (o.readied_ne_delayed (timedOut t'))
    · refine ⟨?_, fun hplace => struck.behind ht hplace⟩
      intro hplace
      have hmem : i ∈ o.row (.delayed o.cycle) :=
        (struck.tagged.mem_row _ i).mpr ⟨(by rintro ⟨⟩), t, ht, hplace⟩
      have htick : tickOf o.tenant i = t.wakeTick := by
        simp only [tickOf]
        rw [ht]
      refine UInt32.not_le.mp ?_
      intro hle
      refine hi ((mem_due (struck.inOrder _) i).mpr ⟨hmem, ?_⟩)
      rw [htick]
      exact hle

/-! ## The whole tick -/

/-- The task that runs, read off the handle, is live under its own handle. -/
theorem Sound.of_running (sound : o.Sound) (running : o.runner.bind o.get? = some task) :
    o.runner = some task.handle ∧ o.get? task.handle = some task := by
  obtain ⟨h, hrunner, hget⟩ := Option.bind_eq_some_iff.mp running
  obtain rfl := sound.handle_eq hget
  exact ⟨hrunner, hget⟩

theorem Sound.chargeRunner (sound : o.Sound) : o.chargeRunner.Sound := by
  rcases o.chargeRunner_cases with heq | ⟨t, hrun, heq⟩
  · rw [heq]
    exact sound
  · obtain ⟨-, hget⟩ := sound.of_running hrun
    have ht := sound.live hget
    have hpriority : t.priority < o.settings.levels := sound.tagged.priority ht
    rw [heq]
    refine sound.put ht rfl rfl hpriority rfl rfl rfl ?_
    exact (sound.settled.fits ht).level

/-- Measuring the slice changes marks only. -/
theorem chargeSlice_snd (o : Outline) (priority : Nat) : ∃ spent behind,
    (o.chargeSlice priority).2 = { o with sliceSpent := spent, sendBehind := behind } := by
  unfold chargeSlice
  split
  · split
    · exact ⟨0, o.sendBehind, rfl⟩
    · dsimp only
      split
      · exact ⟨_, true, rfl⟩
      · exact ⟨_, o.sendBehind, rfl⟩
  · exact ⟨o.sliceSpent, o.sendBehind, rfl⟩

/-- Judging a tick changes marks only. -/
theorem judge_snd (o : Outline) : ∃ spent behind,
    o.judge.2 = { o with sliceSpent := spent, sendBehind := behind } := by
  simp only [judge]
  cases o.runnerPriority with
  | none => exact ⟨o.sliceSpent, o.sendBehind, rfl⟩
  | some p => exact o.chargeSlice_snd p

/-- Answering a tick changes marks only. -/
theorem answerTick_snd (o : Outline) : ∃ spent behind due,
    o.answerTick.2 = { o with sliceSpent := spent, sendBehind := behind, switchDue := due } := by
  obtain ⟨spent, behind, heq⟩ := o.judge_snd
  unfold answerTick
  dsimp only
  rw [heq]
  split
  · exact ⟨spent, behind, o.switchDue, rfl⟩
  · exact ⟨spent, behind, _, rfl⟩

/-- What a tick does, apart from the marks of a switch and the slice. -/
def passed (o : Outline) : Outline :=
  o.chargeRunner.advance.wakeDue

/-- The answer of a tick changes marks and the slice alone. -/
theorem tick_passed (o : Outline) : ∃ spent behind due,
    o.tick.2 = { o.passed with sliceSpent := spent, sendBehind := behind, switchDue := due } :=
  o.passed.answerTick_snd

/-- A tick passes without a touch to the settings, the suspension, the present task,
    the marks and the number of slots. -/
theorem passed_rest (o : Outline) :
    o.passed.settings = o.settings ∧ o.passed.depth = o.depth ∧ o.passed.current = o.current
      ∧ o.passed.sendBehind = o.sendBehind ∧ o.passed.switchDue = o.switchDue
      ∧ o.passed.size = o.size := by
  have hadvance : ∀ o : Outline, o.advance.settings = o.settings ∧ o.advance.depth = o.depth
      ∧ o.advance.current = o.current ∧ o.advance.sendBehind = o.sendBehind
      ∧ o.advance.switchDue = o.switchDue ∧ o.advance.size = o.size := by
    intro o
    rcases o.advance_cases with ⟨-, heq⟩ | ⟨-, heq⟩
    · rw [heq]
      exact ⟨rfl, rfl, rfl, rfl, rfl, rfl⟩
    · rw [heq]
      exact ⟨rfl, rfl, rfl, rfl, rfl, rfl⟩
  rcases o.chargeRunner_cases with heq | ⟨task, -, heq⟩
  · rw [passed, heq]
    exact hadvance o
  · rw [passed, heq]
    exact hadvance (o.put task.handle.index { task with runTicks := task.runTicks + 1 })

/-- A tick leaves the settings and the number of slots alone. -/
theorem tick_settings (o : Outline) :
    o.tick.2.settings = o.settings ∧ o.tick.2.size = o.size := by
  obtain ⟨spent, behind, due, heq⟩ := o.tick_passed
  obtain ⟨hsettings, -, -, -, -, hsize⟩ := o.passed_rest
  rw [heq]
  exact ⟨hsettings, hsize⟩

theorem Sound.passed (sound : o.Sound) : o.passed.Sound :=
  sound.chargeRunner.advance.wakeDue

theorem Sound.tick (sound : o.Sound) : o.tick.2.Sound := by
  obtain ⟨spent, behind, due, heq⟩ := o.tick_passed
  rw [heq]
  exact sound.passed.remark _ spent behind due _

end Outline

end PriorityScheduler
