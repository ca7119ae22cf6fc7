import PriorityScheduler.Proofs.Arrivals
import PriorityScheduler.Proofs.RoundRobin

/-! # The next wake-up

    The head of the list of the present cycle wakes next.  Every other task of the cycle wakes
    with it or later, and the tasks of the other cycle wake after the counter has wrapped.  So
    the ticks up to the one before the head's wake nobody and leave the lists as they are, and
    the head's tick WAKES the tasks of the cycle that wait for it and no others: those stand at
    the front of the list, in the order in which they were blocked, and go in this order to the
    ends of their levels, or of the postponed tasks.

    If the list of the present cycle is empty, no tick wakes anybody until the counter wraps. -/

namespace PriorityScheduler

open Routine

namespace Outline

variable {o o' o'' : Outline} {h : Handle} {task : Task} {c : Cycle} {w : Tick} {n : Nat}

/-! ## How far away a wake-up is -/

/-- The tick at which the first task of the present cycle wakes. -/
def earliest (o : Outline) : Option Tick :=
  (o.row (.delayed o.cycle)).head?.map (tickOf o.tenant)

/-- A tick that was already shown is not shown before the counter has wrapped. -/
theorem le_toNat_sub {a b : UInt32} (earlier : a < b) : 2 ^ 32 - b.toNat ≤ (a - b).toNat := by
  have hb := b.toNat_lt
  have hlt := UInt32.lt_iff_toNat_lt.mp earlier
  rw [UInt32.toNat_sub]
  omega

/-- The cycles are two. -/
theorem eq_or_other (o : Outline) (c : Cycle) : c = o.cycle ∨ c = o.cycle.other := by
  cases c <;> cases o.cycle <;> simp [Cycle.other]

/-- No task wakes for a while if none of the present cycle does, and the counter does not wrap. -/
theorem Sound.noneWakes (sound : o.Sound) (present : ∀ h task, o.get? h = some task →
      task.place = .delayed o.cycle → n < task.wakeTick.toNat - o.now.toNat)
    (unwrapped : o.now.toNat + n < 2 ^ 32) : o.NoneWakes n := by
  intro h task c hget hplace
  have htimed := sound.timed (sound.live hget)
  rcases o.eq_or_other c with rfl | rfl
  · rw [UInt32.toNat_sub_of_le _ _ (UInt32.le_of_lt (htimed.ahead hplace))]
    exact present h task hget hplace
  · -- a task of the other cycle waits for a tick that this cycle has shown already
    have hfar := le_toNat_sub (htimed.behind hplace)
    omega

/-- Without a task of the present cycle nobody wakes before the counter wraps. -/
theorem Sound.noneWakes_of_none (sound : o.Sound) (none : o.earliest = none)
    (unwrapped : o.now.toNat + n < 2 ^ 32) : o.NoneWakes n := by
  have hempty : o.row (.delayed o.cycle) = [] := by
    rw [earliest, Option.map_eq_none_iff, List.head?_eq_none_iff] at none
    exact none
  refine sound.noneWakes (fun h task hget hplace => ?_) unwrapped
  have hmem := (sound.tagged.mem_row (.delayed o.cycle) h.index).mpr
    ⟨(by rintro ⟨⟩), task, sound.live hget, hplace⟩
  rw [hempty] at hmem
  cases hmem

/-- The first task of the present cycle wakes later, and no task wakes before it. -/
theorem Sound.of_earliest (sound : o.Sound) (first : o.earliest = some w) :
    o.now < w ∧ o.NoneWakes (w.toNat - o.now.toNat - 1)
      ∧ ∃ h ∈ o.roster (.delayed o.cycle), o.wakeAt h = some w := by
  obtain ⟨i, hhead, hw⟩ := Option.map_eq_some_iff.mp first
  obtain ⟨rest, hrow⟩ := List.head?_eq_some_iff.mp hhead
  have hi : i ∈ o.row (.delayed o.cycle) := by
    rw [hrow]
    exact List.mem_cons_self
  obtain ⟨-, task, htask, hplace⟩ := (sound.tagged.mem_row _ i).mp hi
  have hwake : task.wakeTick = w := by
    rw [← hw]
    simp only [tickOf, htask]
  have hahead : o.now < w := hwake ▸ (sound.timed htask).ahead hplace
  have hlt := UInt32.lt_iff_toNat_lt.mp hahead
  have hbound := w.toNat_lt
  refine ⟨hahead, sound.noneWakes ?_ (by omega), o.named i, List.mem_map_of_mem hi, ?_⟩
  · intro h t hget hdelayed
    have hmem := (sound.tagged.mem_row _ h.index).mpr
      ⟨(by rintro ⟨⟩), t, sound.live hget, hdelayed⟩
    have hkey : tickOf o.tenant h.index = t.wakeTick := by
      simp only [tickOf, sound.live hget]
    -- the list is in order of ticks and begins with `w`
    have hle : w.toNat ≤ t.wakeTick.toNat := by
      have horder := sound.inOrder o.cycle
      rw [hrow] at horder hmem
      rw [← hw, ← hkey, ← UInt32.le_iff_toNat_le]
      rcases List.mem_cons.mp hmem with heq | hrest
      · rw [heq]
        exact UInt32.le_refl _
      · exact (List.pairwise_cons.mp horder).1 _ hrest
    omega
  · rw [wakeAt, get?_named, htask, Option.map_some, hwake]

/-! ## Ticks up to it -/

/-- What a number of ticks leave that wake nobody. -/
structure Idles (n : Nat) (o o' : Outline) : Prop where
  sound : o'.Sound
  moment : o'.moment = o.moment.after n
  row : o'.row = o.row
  generation : o'.generation = o.generation
  depth : o'.depth = o.depth
  cycle : o.now.toNat + n < 2 ^ 32 → o'.cycle = o.cycle
  thins : Thins o o'

theorem Sound.idles_zero (sound : o.Sound) : Idles 0 o o :=
  ⟨sound, o.moment.after_zero.symm, rfl, rfl, rfl, fun _ => rfl, .refl o⟩

/-- A tick of a clock that does not wrap stays in the cycle. -/
theorem tick_cycle (unwrapped : o.now.toNat + 1 < 2 ^ 32) : o.tick.2.cycle = o.cycle := by
  obtain ⟨-, hcycle, -⟩ := o.tick_clock
  rcases o.advance_cases with ⟨hwrap, -⟩ | ⟨-, heq⟩
  · have hlast := toNat_of_succ_eq_zero hwrap
    omega
  · rw [hcycle, heq]

theorem Sound.idles_tick (sound : o.Sound) (quiet : o.NoneWakes (n + 1)) : Idles 1 o o.tick.2 := by
  obtain ⟨spent, behind, due, heq⟩ := o.tick_passed
  have hrow : o.tick.2.row = o.row := by
    rw [heq]
    exact sound.passed_row quiet
  exact ⟨sound.tick, o.tick_moment, hrow, o.tick_generation, o.tick_clock.2.2, o.tick_cycle,
    sound.thins_tick⟩

theorem Idles.trans {a b : Nat} (idles : Idles a o o') (idles' : Idles b o' o'') :
    Idles (a + b) o o'' where
  sound := idles'.sound
  moment := by rw [idles'.moment, idles.moment, Moment.after_after]
  row := idles'.row.trans idles.row
  generation := idles'.generation.trans idles.generation
  depth := idles'.depth.trans idles.depth
  cycle := by
    intro hunwrapped
    have hnow : o'.now = (o.moment.after a).tick := congrArg Moment.tick idles.moment
    refine (idles'.cycle ?_).trans (idles.cycle (by omega))
    rw [hnow, Moment.tick_toNat_after]
    show (o.now.toNat + a) % 2 ^ 32 + b < 2 ^ 32
    omega
  thins := idles.thins.trans idles'.thins

/-- Ticks that wake nobody pass. -/
theorem Sound.perform_quiet (sound : o.Sound) (quiet : o.NoneWakes n) :
    ∃ rs o', perform (List.replicate n .tick) o = .ok rs o' ∧ Idles n o o' := by
  induction n generalizing o with
  | zero => exact ⟨[], o, rfl, sound.idles_zero⟩
  | succ n ih =>
      have hfirst : Step.attempt (run .tick) o = .ok (.ok (.answer o.tick.1)) o.tick.2 := rfl
      obtain ⟨rs, o', hrest, hidles⟩ := ih sound.tick (quiet.tick sound)
      refine ⟨.ok (.answer o.tick.1) :: rs, o', ?_, ?_⟩
      · rw [List.replicate_succ]
        simp only [perform, bind, EStateM.bind, hfirst, hrest]
        rfl
      · rw [Nat.add_comm]
        exact (sound.idles_tick quiet).trans hidles

/-! ## The tick itself -/

/-- The tasks that the next tick wakes. -/
def woken (o : Outline) : List Handle :=
  o.chargeRunner.advance.due.map o.named

/-- What a tick leaves alone before and after it wakes tasks. -/
theorem charged_tick (o : Outline) : o.chargeRunner.advance.cycle = o.tick.2.cycle
    ∧ o.chargeRunner.advance.now = o.tick.2.now
    ∧ o.chargeRunner.advance.generation = o.generation
    ∧ o.chargeRunner.advance.depth = o.depth := by
  have hgeneration := o.tick_generation
  have hdepth := o.tick_clock.2.2
  obtain ⟨spent, behind, due, heq⟩ := o.tick_passed
  rw [heq] at hgeneration hdepth ⊢
  exact ⟨rfl, rfl, hgeneration, hdepth⟩

section Tick

variable (sound : o.Sound)

include sound

/-- A tick finds the delayed tasks as they were. -/
theorem Sound.charged_delayed {i : Nat} (mem : i ∈ o.row (.delayed c)) :
    ∃ task, o.tenant i = some task ∧ o.chargeRunner.advance.tenant i = some task
      ∧ task.place = .delayed c := by
  have hstruck := sound.chargeRunner.advance
  rw [← o.charged_rest.1] at mem
  obtain ⟨-, task, htask, hplace⟩ := (hstruck.tagged.mem_row _ i).mp mem
  have hlive := sound.of_delayed_charged ((get?_named _ i).trans htask) hplace
  exact ⟨task, sound.live hlive, htask, hplace⟩

/-- A tick wakes the tasks of its cycle that wait for it, and no others. -/
theorem Sound.mem_woken : h ∈ o.woken
    ↔ h ∈ o.roster (.delayed o.tick.2.cycle) ∧ o.wakeAt h = some o.tick.2.now := by
  have hstruck := sound.chargeRunner.advance
  obtain ⟨hcycle, hnow, -, -⟩ := o.charged_tick
  have hdue : ∀ {i}, i ∈ o.row (.delayed o.tick.2.cycle) →
      (i ∈ o.chargeRunner.advance.due ↔ o.wakeAt (o.named i) = some o.tick.2.now) := by
    intro i hi
    obtain ⟨task, htask, hcharged, hplace⟩ := sound.charged_delayed hi
    rw [← hcycle] at hplace
    refine (hstruck.mem_due ((get?_named _ i).trans hcharged)).trans ?_
    rw [hnow, wakeAt, get?_named, htask, Option.map_some, Option.some.injEq, and_iff_right hplace]
  have hrow : ∀ {i}, i ∈ o.chargeRunner.advance.due → i ∈ o.row (.delayed o.tick.2.cycle) := by
    intro i hi
    rw [← o.charged_rest.1, ← hcycle]
    exact List.takeWhile_subset _ hi
  constructor
  · intro hmem
    obtain ⟨i, hi, rfl⟩ := List.mem_map.mp hmem
    exact ⟨List.mem_map_of_mem (hrow hi), (hdue (hrow hi)).mp hi⟩
  · rintro ⟨hmem, hwake⟩
    obtain ⟨i, hi, rfl⟩ := List.mem_map.mp hmem
    exact List.mem_map_of_mem ((hdue hi).mpr hwake)

omit sound in
/-- They are woken in the order in which they stand. -/
theorem woken_sublist (o : Outline) : o.woken.Sublist (o.roster (.delayed o.tick.2.cycle)) := by
  rw [← o.charged_tick.1, roster, ← o.charged_rest.1]
  exact (List.takeWhile_sublist _).map o.named

/-- Each goes to the end of the list of its place, and no other joins. -/
theorem Sound.roster_woken {q : Place} (undelayed : ∀ c, q ≠ .delayed c) :
    o.tick.2.roster q = o.roster q
      ++ o.woken.filter fun h => (o.get? h).any fun task => decide (o.readyPlace task = q) := by
  have hstruck := sound.chargeRunner.advance
  obtain ⟨-, -, -, hdepth⟩ := o.charged_tick
  -- a list of another kind has none of the tasks that are due
  have hstays : ∀ i ∈ o.row q, i ∉ o.chargeRunner.advance.due := by
    intro i hi hdue
    rw [← o.charged_rest.1] at hi
    exact hstruck.tagged.not_mem_of_mem (undelayed _) hi (List.takeWhile_subset _ hdue)
  have hnamed : o.tick.2.named = o.named := by
    funext i
    simp only [named, o.tick_generation]
  obtain ⟨spent, behind, due, heq⟩ := o.tick_passed
  have hrow : o.tick.2.row q = o.row q ++ o.chargeRunner.advance.due.filter fun i =>
      (o.tenant i).any fun task => decide (o.readyPlace task = q) := by
    rw [heq]
    show (o.chargeRunner.advance.row q).filter (· ∉ o.chargeRunner.advance.due) ++ _ = _
    rw [o.charged_rest.1, filter_of_disjoint hstays]
    refine congrArg _ (List.filter_congr fun i hi => ?_)
    have hi : i ∈ o.row (.delayed o.chargeRunner.advance.cycle) := by
      rw [← o.charged_rest.1]
      exact List.takeWhile_subset _ hi
    obtain ⟨task, htask, hcharged, -⟩ := sound.charged_delayed hi
    rw [htask, hcharged, Option.any_some, Option.any_some, readyPlace, readyPlace, hdepth]
    rfl
  rw [roster, hnamed, hrow, List.map_append, woken, List.filter_map]
  refine congrArg _ (congrArg _ (List.filter_congr fun i _ => ?_))
  rw [Function.comp_apply, get?_named]

/-- While scheduling goes on each goes to the level of its priority. -/
theorem Sound.roster_ready_woken (p : Nat) : o.tick.2.roster (.ready p) = o.roster (.ready p)
    ++ if o.depth = 0 then
      o.woken.filter fun h => (o.get? h).any fun task => decide (task.priority = p)
    else [] := by
  rw [sound.roster_woken (by rintro c ⟨⟩)]
  refine congrArg _ ?_
  by_cases hopen : o.depth = 0
  · simp only [readyPlace, if_pos hopen, Place.ready.injEq]
  · simp only [readyPlace, if_neg hopen, reduceCtorEq, decide_false]
    rw [List.filter_eq_nil_iff]
    intro h _
    cases o.get? h <;> exact Bool.false_ne_true

/-- While scheduling is suspended all are postponed. -/
theorem Sound.roster_postponed_woken : o.tick.2.roster .postponed = o.roster .postponed
    ++ if o.depth = 0 then [] else o.woken := by
  rw [sound.roster_woken (by rintro c ⟨⟩)]
  refine congrArg _ ?_
  by_cases hopen : o.depth = 0
  · simp only [readyPlace, if_pos hopen, reduceCtorEq, decide_false]
    rw [List.filter_eq_nil_iff]
    intro h _
    cases o.get? h <;> exact Bool.false_ne_true
  · simp only [readyPlace, if_neg hopen, decide_true]
    rw [List.filter_eq_self]
    intro h hwoken
    obtain ⟨-, task, hget, -⟩ := sound.tagged.mem_roster.mp (sound.mem_woken.mp hwoken).1
    rw [hget]
    rfl

/-- A task is ready after a tick if it was, or if the tick has woken it. -/
theorem Sound.isReady_tick : o.tick.2.isReady h = true ↔ o.isReady h = true ∨ h ∈ o.woken := by
  have hready := fun p => sound.roster_woken (q := .ready p) (by rintro c ⟨⟩)
  rw [sound.tick.isReady_iff, sound.isReady_iff, sound.roster_woken (by rintro c ⟨⟩)]
  simp only [hready, List.mem_append, List.mem_filter]
  constructor
  · rintro (⟨p, hold | ⟨hwoken, -⟩⟩ | hold | ⟨hwoken, -⟩)
    · exact Or.inl (Or.inl ⟨p, hold⟩)
    · exact Or.inr hwoken
    · exact Or.inl (Or.inr hold)
    · exact Or.inr hwoken
  · rintro ((⟨p, hold⟩ | hold) | hwoken)
    · exact Or.inl ⟨p, Or.inl hold⟩
    · exact Or.inr (Or.inl hold)
    · obtain ⟨-, task, hget, -⟩ := sound.tagged.mem_roster.mp (sound.mem_woken.mp hwoken).1
      rcases o.readyPlace_cases task with ⟨-, hplace⟩ | ⟨-, hplace⟩
      · exact Or.inl ⟨task.priority, Or.inr ⟨hwoken, by simp [hget, hplace]⟩⟩
      · exact Or.inr (Or.inr ⟨hwoken, by simp [hget, hplace]⟩)

end Tick

/-- Lists that are idled over are as they were. -/
theorem Idles.roster (idles : Idles n o o') (q : Place) : o'.roster q = o.roster q := by
  have hnamed : o'.named = o.named := by
    funext i
    simp only [named, idles.generation]
  rw [Outline.roster, Outline.roster, idles.row, hnamed]

theorem Idles.isReady (idles : Idles n o o') (sound : o.Sound) (h : Handle) :
    o'.isReady h = o.isReady h := by
  rw [Bool.eq_iff_iff, idles.sound.isReady_iff, sound.isReady_iff]
  simp only [idles.roster]

/-- When all ticks but one have passed up to the first wake-up, the last one is the tick at which
    the first task wakes, and wakes those of the cycle that wait for it. -/
theorem Idles.woken (idles : Idles (w.toNat - o.now.toNat - 1) o o') (ahead : o.now < w) :
    o'.tick.2.now = w
      ∧ (∀ h, h ∈ o'.woken ↔ h ∈ o.roster (.delayed o.cycle) ∧ o.wakeAt h = some w)
      ∧ o'.woken.Sublist (o.roster (.delayed o.cycle)) := by
  have hlt := UInt32.lt_iff_toNat_lt.mp ahead
  have hbound := w.toNat_lt
  have hnow : o'.now.toNat + 1 = w.toNat := by
    have hmoment : o'.now = (o.moment.after (w.toNat - o.now.toNat - 1)).tick :=
      congrArg Moment.tick idles.moment
    rw [hmoment, Moment.tick_toNat_after]
    show (o.now.toNat + _) % 2 ^ 32 + 1 = _
    omega
  have hcycle : o'.tick.2.cycle = o.cycle :=
    (o'.tick_cycle (by omega)).trans (idles.cycle (by omega))
  have hlast : o'.tick.2.now = w := by
    have hmoment : o'.tick.2.now = (o'.moment.after 1).tick := congrArg Moment.tick o'.tick_moment
    rw [← UInt32.toNat_inj, hmoment, Moment.tick_toNat_after]
    show (o'.now.toNat + 1) % 2 ^ 32 = _
    omega
  refine ⟨hlast, fun h => ?_, ?_⟩
  · rw [idles.sound.mem_woken, hcycle, hlast, idles.roster]
    refine and_congr_right fun hmem => ?_
    rw [idles.thins.wakeAt o.cycle h ((idles.roster _).symm ▸ hmem)]
  · rw [← idles.roster, ← hcycle]
    exact o'.woken_sublist

end Outline

namespace Kernel

variable {log : List Episode} {k k' : Kernel} {w : Tick} {n : Nat} {h : Handle}

/-! ## Read off a kernel -/

theorem Intact.nextWakeUp (intact : k.Intact) : k.nextWakeUp = k.outline.earliest := by
  have hhead := (intact.threaded.holds (.delayed k.delayed.current)).head
  show (k.chain (.delayed k.delayed.current)).head.map (DelayQueue.orderTick k.table) = _
  rw [hhead]
  rfl

/-- A number of ticks pass, and all lists are as they were. -/
def QuietFor (n : Nat) (m : Machine Kernel) : Prop :=
  ∃ rs m', perform (List.replicate n .tick) m = .ok rs m'
    ∧ m'.state.now = m.state.now + UInt32.ofNat n
    ∧ (∀ h, m'.state.isReady h = m.state.isReady h)
    ∧ ∀ q, m'.state.handlesAt q = m.state.handlesAt q

/-- The given tasks are made ready, in turn, and no others.  They go to the ends of their levels,
    or of the list of the postponed tasks while scheduling is suspended. -/
structure MakesReady (woken : List Handle) (k k' : Kernel) : Prop where
  ready : ∀ h, k'.isReady h = true ↔ k.isReady h = true ∨ h ∈ woken
  levels : ∀ q, k'.handlesAt (.ready q) = k.handlesAt (.ready q) ++ if k.freeze.isOff = true then
    woken.filter fun h => (k.table.get? h).any fun task => decide (task.priority = q) else []
  postponed : k'.handlesAt .postponed
    = k.handlesAt .postponed ++ if k.freeze.isOff = true then [] else woken

/-- Ticks that wake nobody pass, and leave all lists as they were. -/
theorem Intact.idles (intact : k.Intact) (sound : k.outline.Sound) (quiet : k.outline.NoneWakes n)
    (p : Platform) : ∃ rs m, perform (List.replicate n .tick) ⟨k, p⟩ = .ok rs m
      ∧ m.state.Intact ∧ k.outline.Idles n m.state.outline := by
  obtain ⟨rs, o, hran, hidles⟩ := sound.perform_quiet quiet
  obtain ⟨m, hperformed, rfl⟩ := (intact.enacts_perform sound _).of_ok hran p
  exact ⟨rs, m, hperformed, (intact.of_perform sound hperformed).1, hidles⟩

theorem Intact.quietFor (intact : k.Intact) (sound : k.outline.Sound)
    (quiet : k.outline.NoneWakes n) (p : Platform) : QuietFor n ⟨k, p⟩ := by
  obtain ⟨rs, m, hran, hintact, hidles⟩ := intact.idles sound quiet p
  refine ⟨rs, m, hran, congrArg Moment.tick hidles.moment, fun h => ?_, fun q => ?_⟩
  · rw [isReady_outline, isReady_outline]
    exact hidles.isReady sound h
  · rw [hintact.handlesAt, intact.handlesAt]
    exact hidles.roster q

/-- A tick makes ready the tasks that it wakes. -/
theorem Intact.makesReady (intact : k.Intact) (sound : k.outline.Sound) (intact' : k'.Intact)
    (ticked : k'.outline = k.outline.tick.2) : MakesReady k.outline.woken k k' := by
  constructor
  case ready =>
    intro h
    rw [isReady_outline, isReady_outline, ticked]
    exact sound.isReady_tick
  case levels =>
    intro q
    rw [intact'.handlesAt, intact.handlesAt, ticked, sound.roster_ready_woken, isOff_outline,
      show k.table.get? = k.outline.get? from funext (get?_outline k)]
    simp only [decide_eq_true_eq]
  case postponed =>
    rw [intact'.handlesAt, intact.handlesAt, ticked, sound.roster_postponed_woken, isOff_outline]
    simp only [decide_eq_true_eq]

/-- The next wake-up is foretold.  If a tick is, it is later than the present one; the ticks up to
    the one before it make no task ready, and that tick makes ready exactly the tasks of the
    present cycle that wait for it, in the order in which they were blocked.  If none is, no tick
    makes a task ready before the counter wraps. -/
theorem nextWakeUp_foretells (recounts : Recounts log k) (p : Platform) :
    (∀ w, k.nextWakeUp = some w → k.now < w
      ∧ (∀ n < w.toNat - k.now.toNat, QuietFor n ⟨k, p⟩)
      ∧ ∃ rs m asked m' woken,
        perform (List.replicate (w.toNat - k.now.toNat - 1) .tick) ⟨k, p⟩ = .ok rs m
          ∧ tick m = .ok asked m' ∧ m'.state.now = w ∧ woken ≠ []
          ∧ (∀ h, h ∈ woken ↔ ∃ task, k.table.get? h = some task
            ∧ task.place = .delayed k.delayed.current ∧ task.wakeTick = w)
          ∧ woken.Pairwise (fun h h' => sinceBlocked log h' < sinceBlocked log h)
          ∧ MakesReady woken m.state m'.state)
    ∧ (k.nextWakeUp = none → ∀ n, k.now.toNat + n < 2 ^ 32 → QuietFor n ⟨k, p⟩) := by
  obtain ⟨hintact, hsound⟩ := (reachable_iff_recounts.mpr ⟨log, recounts⟩).intact
  rw [hintact.nextWakeUp]
  refine ⟨fun w hfirst => ?foretold, fun hnone n hunwrapped => ?unforetold⟩
  case unforetold =>
    exact hintact.quietFor hsound (hsound.noneWakes_of_none hnone hunwrapped) p
  case foretold =>
    obtain ⟨hahead, hquiet, first, hmem, hwake⟩ := hsound.of_earliest hfirst
    refine ⟨hahead, fun n hn => ?_, ?_⟩
    · refine hintact.quietFor hsound (fun h task c hget hplace => ?_) p
      exact Nat.lt_of_le_of_lt (Nat.le_sub_one_of_lt hn) (hquiet h task c hget hplace)
    · obtain ⟨rs, m, hran, hintact', hidles⟩ := hintact.idles hsound hquiet p
      obtain ⟨hnow, hwoken, hsublist⟩ := hidles.woken hahead
      have henacts := hintact'.enacts_tick hidles.sound.cycle_done
      obtain ⟨m', hticked, hlast⟩ := henacts.of_ok rfl m.platform
      obtain ⟨hintact'', -⟩ := henacts.ok hticked
      refine ⟨rs, m, _, m', m.state.outline.woken, hran, hticked, ?now, ?some, fun h => ?mem, ?order,
        hintact'.makesReady hidles.sound hintact'' hlast⟩
      case now =>
        show m'.state.outline.now = w
        rw [hlast]
        exact hnow
      case some =>
        exact List.ne_nil_of_mem ((hwoken first).mpr ⟨hmem, hwake⟩)
      case mem =>
        rw [hwoken, get?_outline, hsound.tagged.mem_roster, Outline.wakeAt]
        constructor
        · rintro ⟨⟨-, task, hget, hplace⟩, hw⟩
          rw [hget, Option.map_some] at hw
          exact ⟨task, hget, hplace, Option.some.inj hw⟩
        · rintro ⟨task, hget, hplace, rfl⟩
          exact ⟨⟨(by rintro ⟨⟩), task, hget, hplace⟩, congrArg (Option.map Task.wakeTick) hget⟩
      case order =>
        refine ((recounts.arrived _).sublist hsublist).imp_of_mem ?_
        intro h h' hh hh' hlt
        exact hlt (((hwoken h).mp hh).2.trans ((hwoken h').mp hh').2.symm)

/-- Two peers wait for one tick.  The first was blocked before the counter wrapped and the second
    afterwards, and a task that was to wake between them was let off.  One tick wakes nobody, and
    the next one both peers in turn. -/
theorem nextWakeUp_foretells_across_wrap :
    ∃ (log : List Episode) (k : Kernel) (p : Platform) (rs : List (Except Refusal Reply))
        (m m' : Machine Kernel) (asked : Bool) (woken : List Handle),
      Recounts log k ∧ k.now = 0 ∧ k.nextWakeUp = some 2 ∧ QuietFor 1 ⟨k, p⟩
        ∧ perform [.tick] ⟨k, p⟩ = .ok rs m ∧ tick m = .ok asked m' ∧ m'.state.now = 2
        ∧ woken.Pairwise (fun h h' => sinceBlocked log h' < sinceBlocked log h)
        ∧ MakesReady woken m.state m'.state
        ∧ m.state.handlesAt (.ready 1) = []
        ∧ m'.state.handlesAt (.ready 1) = [⟨0, 0⟩, ⟨1, 0⟩] := by
  have hvalid : ({ firstTick := 0xFFFFFFFE } : Settings).Valid := by decide
  have hdone : isDone (do
      let _ ← perform [.create { name := "early", priority := 1 },
        .create { name := "late", priority := 1 }, .create { name := "freed", priority := 2 },
        .block ⟨0, 0⟩ 4, .block ⟨2, 0⟩ 4, .tick, .tick, .block ⟨1, 0⟩ 2, .cutShort ⟨2, 0⟩]
      let k ← read
      let _ ← perform [.tick]
      let k₁ ← read
      let _ ← tick
      let k₂ ← read
      if k.now = 0 ∧ k.nextWakeUp = some 2 ∧ k₁.handlesAt (.ready 1) = []
          ∧ k₂.handlesAt (.ready 1) = [⟨0, 0⟩, ⟨1, 0⟩] then
        pure ()
      else
        refuse .invalidState) ⟨initial { firstTick := 0xFFFFFFFE }, {}⟩ = true := by
    decide +kernel
  obtain ⟨⟨⟩, n, hrun⟩ := of_isDone hdone
  obtain ⟨rs₀, m₀, hperformed, hrun⟩ := of_bind_ok hrun
  obtain ⟨k, m₁, hread, hrun⟩ := of_bind_ok hrun
  obtain ⟨rfl, rfl⟩ := EStateM.Result.ok.inj hread
  obtain ⟨rs, m₁, hquiet, hrun⟩ := of_bind_ok hrun
  obtain ⟨k₁, m₂, hread, hrun⟩ := of_bind_ok hrun
  obtain ⟨rfl, rfl⟩ := EStateM.Result.ok.inj hread
  obtain ⟨asked, m₂, hticked, hrun⟩ := of_bind_ok hrun
  obtain ⟨k₂, m₃, hread, hrun⟩ := of_bind_ok hrun
  obtain ⟨rfl, rfl⟩ := EStateM.Result.ok.inj hread
  obtain ⟨⟨hnow, hfirst, hbefore, hafter⟩, -⟩ := of_unless_ok hrun
  have hinitial : Recounts [] (⟨initial { firstTick := 0xFFFFFFFE }, {}⟩ : Machine Kernel).state :=
    .initial hvalid
  obtain ⟨later, -, hrecounts⟩ := hinitial.perform hperformed
  obtain ⟨-, hidle, rs', m, asked', m', woken, hran, hlast, hw, -, -, horder, hmakes⟩ :=
    (nextWakeUp_foretells hrecounts m₀.platform).1 2 hfirst
  rw [hnow] at hidle hran
  obtain ⟨rfl, rfl⟩ := EStateM.Result.ok.inj (hquiet.symm.trans hran)
  obtain ⟨rfl, rfl⟩ := EStateM.Result.ok.inj (hticked.symm.trans hlast)
  exact ⟨_, m₀.state, m₀.platform, rs, m₁, m₂, asked, woken, hrecounts, hnow, hfirst,
    hidle 1 (by decide), hquiet, hticked, hw, horder, hmakes, hbefore, hafter⟩

end Kernel

end PriorityScheduler
