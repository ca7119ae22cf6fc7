import PriorityScheduler.Proofs.Periods

/-! # The ends of periods

    A pause until the end of a period blocks the running task for the ticks that are left.
    That number is never zero, and it is the one that asks to block for ever in a single
    case: when a period of the largest length begins at the present tick.  In every other
    case the task is delayed until the end of the period and wakes with the tick that shows
    it; in that one it waits ENDLESSLY, and no tick wakes it. -/

namespace PriorityScheduler

open Routine
open Step (Leaves)

/-! ## The ticks that are left -/

section Left

variable {anchor period now : Tick}

/-- The ticks that are left of a period are those of the period less those that have
    passed. -/
theorem toNat_left (ahead : periodAhead anchor period now = true) :
    (anchor + period - now).toNat + (now - anchor).toNat = period.toNat := by
  have hnow := now.toNat_lt
  have hanchor := anchor.toNat_lt
  have hperiod := period.toNat_lt
  have hpassed := UInt32.lt_iff_toNat_lt.mp ((periodAhead_iff anchor period now).mp ahead)
  rw [UInt32.toNat_sub] at hpassed ⊢
  rw [UInt32.toNat_sub, UInt32.toNat_add]
  omega

/-- There is a tick left until an end that lies ahead. -/
theorem left_pos (ahead : periodAhead anchor period now = true) :
    0 < (anchor + period - now).toNat := by
  have hleft := toNat_left ahead
  have hpassed := UInt32.lt_iff_toNat_lt.mp ((periodAhead_iff anchor period now).mp ahead)
  omega

/-- The number of ticks that are left asks to block for ever only at the beginning of a
    period of the largest length. -/
theorem left_eq_waitForever (ahead : periodAhead anchor period now = true) :
    anchor + period - now = waitForever ↔ anchor = now ∧ period = waitForever := by
  have hleft := toNat_left ahead
  have hperiod := period.toNat_lt
  have hmax : waitForever.toNat = 2 ^ 32 - 1 := rfl
  constructor
  · intro hforever
    rw [hforever, hmax] at hleft
    have hpassed : (now - anchor).toNat = (0 : Tick).toNat := by
      show _ = 0
      omega
    have hsame := UInt32.toNat_inj.mp hpassed
    have hbegins : now = anchor := by
      rw [← UInt32.sub_add_cancel now anchor, hsame, UInt32.zero_add]
    exact ⟨hbegins.symm, UInt32.toNat_inj.mp (by omega)⟩
  · rintro ⟨rfl, rfl⟩
    rw [UInt32.add_comm, UInt32.add_sub_cancel]

end Left

namespace Outline

variable {o o₁ o' : Outline} {h : Handle} {c : Call} {task : Task} {i : Nat}

/-! ## Endless waits -/

/-- A task waits, and no tick is set for it to wake at. -/
def Endless (o : Outline) (h : Handle) : Prop :=
  ∃ task, o.get? h = some task ∧ task.place = .waiting

/-- The wait goes on while the record does. -/
theorem Endless.frame (endless : o.Endless h) (kept : o'.get? h = o.get? h) : o'.Endless h := by
  obtain ⟨task, hget, hplace⟩ := endless
  exact ⟨task, kept.trans hget, hplace⟩

theorem Endless.wantSwitchIf (endless : o.Endless h) (wanted : Bool) :
    (o.wantSwitchIf wanted).Endless h :=
  endless.frame rfl

/-- A task that waits is apart from every slot whose task does not. -/
theorem Endless.index_ne (endless : o.Endless h) (sound : o.Sound) (other : o.tenant i = some task)
    (activity : task.activity ≠ .blocked) : h.index ≠ i := by
  obtain ⟨task', hget, hplace⟩ := endless
  refine sound.index_ne_of_place hget other ?_
  rw [hplace]
  exact fun hwaits => activity ((sound.settled.fits other).blocked_iff.mpr (Or.inr hwaits))

/-- A tick does not end a wait for which none is set. -/
theorem Endless.tick (endless : o.Endless h) (sound : o.Sound) : o.tick.2.Endless h := by
  obtain ⟨task, hget, hplace⟩ := endless
  have hlinked : task.place ≠ .unlinked := by
    rw [hplace]
    rintro ⟨⟩
  have hundue : ¬ (task.place = .delayed o.advance.cycle ∧ task.wakeTick = o.advance.now) := by
    rw [hplace]
    rintro ⟨⟨⟩, -⟩
  have htick := sound.tick_get? hget hlinked
  rw [if_neg hundue] at htick
  exact ⟨task, htick, hplace⟩

section Steps

variable (sound : o.Sound) (endless : o.Endless h)

include sound endless

/-- A task that waits is not the one that runs. -/
theorem Endless.index_ne_runner (running : o.runner = some task.handle)
    (live : o.get? task.handle = some task) : h.index ≠ task.handle.index := by
  obtain ⟨-, t, ht, hrunning⟩ := runner_eq_some running
  obtain rfl := Option.some.inj (live.symm.trans ht)
  refine endless.index_ne sound (sound.live live) ?_
  rw [hrunning]
  decide

/-- A new task moves into another slot. -/
theorem Endless.enroll {spec : TaskSpec} {flags : Flags} {h' : Handle}
    (done : o.enroll spec flags = .ok (h', o')) : o'.Endless h := by
  obtain ⟨task, hget, -⟩ := id endless
  obtain ⟨-, i, hvacancy, rfl, ⟨-, rfl⟩ | ⟨-, wanted, rfl, -⟩⟩ := of_enroll_ok done
  · have hi := sound.index_ne_of_vacancy hget hvacancy
    exact endless.frame ((get?_reseat hi .back).trans (get?_occupy_of_ne hi))
  · have hi := sound.index_ne_of_vacancy hget hvacancy
    have hready : ((o.occupy i (.ofSpec spec flags ⟨i, o.generation i⟩)).makeReady i
        (.ofSpec spec flags ⟨i, o.generation i⟩)).Endless h :=
      endless.frame ((get?_makeReady hi).trans (get?_occupy_of_ne hi))
    exact hready.wantSwitchIf wanted

/-- A task that waits may be given another priority, and waits on. -/
theorem Endless.reprioritise {h' : Handle} {priority : Nat} {wanted : Bool}
    (done : o.reprioritise h' priority = .ok (wanted, o')) : o'.Endless h := by
  obtain ⟨task, hget, hplace⟩ := id endless
  obtain ⟨-, task', hget', ⟨-, -, rfl⟩ | ⟨-, -, rfl⟩⟩ := of_reprioritise_ok done
  · exact endless
  · by_cases hsame : h' = h
    · subst hsame
      obtain rfl := Option.some.inj (hget.symm.trans hget')
      -- a task that waits is on no level, so only its record changes
      have hqueued : ¬ queued task = true := by
        rw [queued_iff, hplace]
        rintro ⟨p, ⟨⟩⟩
      have hput : (o.regrade h'.index task priority).get? h'
          = some { task with priority := priority } := by
        simp only [regrade, if_neg hqueued]
        exact get?_update_self hget rfl rfl
      exact ⟨_, hput, hplace⟩
    · exact endless.frame (get?_regrade (sound.index_ne hget hget' hsame) priority)

/-- A task that waits may have its context saved, and waits on. -/
theorem Endless.saveContext {h' : Handle} {context : Nat}
    (done : o.saveContext h' context = .ok ((), o')) : o'.Endless h := by
  obtain ⟨task, hget, hplace⟩ := id endless
  obtain ⟨task', hget', rfl⟩ := of_saveContext_ok done
  by_cases hsame : h' = h
  · subst hsame
    obtain rfl := Option.some.inj (hget.symm.trans hget')
    exact ⟨{ task with context := context }, get?_update_self hget rfl rfl, hplace⟩
  · exact endless.frame (get?_put (sound.index_ne hget hget' hsame))

/-- A task that is blocked was ready or running, so it is another one. -/
theorem Endless.block {h' : Handle} {ticks : Tick} (done : o.block h' ticks = .ok ((), o')) :
    o'.Endless h := by
  obtain ⟨task', hget', -, hactive, -, ⟨-, rfl⟩ | ⟨-, rfl⟩⟩ := of_block_ok done
  · exact endless
  · have hactivity : task'.activity ≠ .blocked := by
      rcases hactive with hready | hrunning
      · rw [hready]
        decide
      · rw [hrunning]
        decide
    have hi := endless.index_ne sound (sound.live hget') hactivity
    have hheld : (o.reseat .back h'.index (o.held task' ticks)).Endless h :=
      endless.frame (get?_reseat hi .back)
    exact hheld.wantSwitchIf _

theorem Endless.thawAll : o.thawAll.2.Endless h := by
  obtain ⟨task, hget, hplace⟩ := id endless
  rcases o.thawAll_cases with ⟨-, heq⟩ | ⟨-, heq⟩ | ⟨-, heq⟩
  · rw [heq]
    exact endless
  · rw [heq]
    exact endless.frame rfl
  · have hnot : h.index ∉ o.row .postponed := by
      refine sound.index_not_mem hget ?_
      rw [hplace]
      rintro ⟨⟩
    rw [heq]
    exact endless.frame (get?_makeAllReady (o := { o with depth := 0 }) hnot)

theorem Endless.takeCutShort : o.takeCutShort.2.Endless h := by
  simp only [Outline.takeCutShort]
  cases hrun : o.runner.bind o.get? with
  | none => exact endless
  | some task' =>
      obtain ⟨hrunner, hget'⟩ := sound.of_running hrun
      dsimp only
      split
      · exact endless.frame (get?_put (endless.index_ne_runner sound hrunner hget'))
      · exact endless

/-- What opens a call that is not about the task leaves it to wait. -/
theorem Endless.opens (spared : c.Spares h) (opens : Opens c o o₁) : o₁.Endless h := by
  obtain ⟨task, hget, -⟩ := id endless
  cases opens with
  | nothing => exact endless
  | enrolled _ done => exact endless.enroll sound done
  | enrolledIdle _ done =>
      obtain ⟨-, idle, o₂, hmade, rfl⟩ := of_enrollIdle_ok done
      exact (endless.enroll sound hmade).frame rfl
  | removed call done =>
      rw [call] at spared
      obtain ⟨task', hget', -, -, hcase⟩ := of_remove_ok done
      have hi := sound.index_ne hget hget' spared
      rcases hcase with ⟨-, -, rfl⟩ | ⟨-, -, rfl⟩
      · exact endless.frame (get?_vacate hi)
      · exact endless.frame (get?_vacate hi)
  | shelved call done =>
      rw [call] at spared
      obtain ⟨task', hget', -, ⟨-, -, rfl⟩ | ⟨-, -, -, rfl⟩⟩ := of_shelve_ok done
      · exact endless
      · exact endless.frame (get?_reseat (sound.index_ne hget hget' spared) .back)
  | @resumed h' wanted _ _ done =>
      obtain ⟨task', hget', ⟨hsuspended, -, rfl⟩ | ⟨-, -, rfl⟩⟩ := of_resume_ok done
      · have hi := endless.index_ne sound (sound.live hget') (by rw [hsuspended]; decide)
        have hready : (o.makeReady h'.index task').Endless h := endless.frame (get?_makeReady hi)
        exact hready.wantSwitchIf wanted
      · exact endless
  | regraded _ done => exact endless.reprioritise sound done
  | saved _ done => exact endless.saveContext sound done
  | blocked done => exact endless.block sound done
  | @woken h' early wanted _ call done =>
      obtain ⟨task', hget', -, -, rfl⟩ := of_endWait_ok done
      -- whether it is a wake or a wait cut short, the call is about another task
      have hne : h' ≠ h := by
        rw [call] at spared
        cases early with
        | false => exact spared
        | true => exact spared
      have hready : (o.makeReady h'.index (unheld task' early)).Endless h :=
        endless.frame (get?_makeReady (sound.index_ne hget hget' hne))
      exact hready.wantSwitchIf wanted
  | noticed => exact endless.takeCutShort sound
  | ticked => exact endless.tick sound
  | elapsed =>
      exact (Step.elapseFrom_keeps (I := fun o => o.Sound ∧ o.Endless h)
        (fun both => ⟨both.1.tick, both.2.tick both.1⟩) _ _ ⟨sound, endless⟩).2
  | frozen => exact endless.frame rfl
  | thawed => exact endless.thawAll sound

end Steps

/-- A choice moves tasks that are ready or running only. -/
theorem keeps_endless_choose : Step.Keeps (fun o => o.Sound ∧ o.Endless h) choose := by
  rintro o ⟨sound, endless⟩
  obtain ⟨task, hget, hplace⟩ := id endless
  have hsound := keeps_sound_choose o sound
  have hhead : ∀ {p i rest}, o.row (.ready p) = i :: rest → h.index ≠ i := by
    intro p i rest hrow heq
    refine sound.index_not_mem hget (q := .ready p) ?_ ?_
    · rw [hplace]
      rintro ⟨⟩
    · rw [hrow, heq]
      exact List.mem_cons_self
  have hchoice := choose_choice sound.tagged sound.runnerFree
  generalize choose o = r at hsound hchoice ⊢
  cases hchoice with
  | frozen => exact ⟨hsound, endless.frame rfl⟩
  | barred => exact ⟨hsound, endless.frame rfl⟩
  | starved => exact ⟨hsound, endless.frame rfl⟩
  | kept => exact ⟨hsound, endless.frame rfl⟩
  | taken _ _ _ row => exact ⟨hsound, endless.frame (get?_dispatch (hhead row))⟩
  | replaced _ running live _ row =>
      have hi := endless.index_ne_runner sound running live
      exact ⟨hsound, endless.frame ((get?_dispatch (hhead row)).trans (get?_putBack hi _))⟩

theorem Endless.closes (endless : o.Endless h) (sound : o.Sound) (closes : Closes o o') :
    o'.Endless h := by
  cases closes with
  | nothing => exact endless
  | marked => exact endless.frame rfl
  | chosen behind choice =>
      have hsound : { o with sendBehind := behind }.Sound := sound.remark _ _ behind _ _
      have hendless : { o with sendBehind := behind }.Endless h := endless.frame rfl
      exact ((keeps_endless_choose _ ⟨hsound, hendless⟩).of_eq choice).2

/-- Over a history that is not about the task it waits on, however many ticks pass. -/
theorem Endless.perform (endless : o.Endless h) (sound : o.Sound) {calls : List Call}
    (spared : ∀ c ∈ calls, c.Spares h) {rs : List (Except Refusal Reply)}
    (ran : Outline.perform calls o = .ok rs o') : o'.Endless h := by
  induction calls generalizing o rs with
  | nil =>
      obtain ⟨-, rfl⟩ := EStateM.Result.ok.inj ran
      exact endless
  | cons c rest ih =>
      obtain ⟨r, o₁, hfirst, hrest⟩ := of_bind_ok ran
      obtain ⟨rs', o₂, hothers, hdone⟩ := of_bind_ok hrest
      obtain ⟨-, rfl⟩ := EStateM.Result.ok.inj hdone
      obtain ⟨o₃, hopens, hcloses⟩ := staged_of_attempt hfirst
      have hopened := endless.opens sound (spared c List.mem_cons_self) hopens
      have hclosed := hopened.closes (sound.opens hopens) hcloses
      have hsound := (Step.keeps_attempt (kept_sound.run trivial)).ok sound hfirst
      exact ih hclosed hsound (fun c' hc' => spared c' (List.mem_cons_of_mem c hc')) hothers

/-- A task that is blocked for ever waits endlessly. -/
theorem endless_block (done : o.block h waitForever = .ok ((), o')) : o'.Endless h := by
  obtain ⟨task, hget, -, -, -, ⟨hzero, -⟩ | ⟨-, rfl⟩⟩ := of_block_ok done
  · cases hzero
  · exact ⟨o.held task waitForever, get?_update_self hget rfl rfl, by simp only [held, if_true]⟩

/-! ## Pauses until the end of a period -/

/-- A pause whose end lay ahead has blocked the running task for the ticks that were left,
    and switched. -/
theorem of_pausePeriod_ahead {anchor period next : Tick}
    (paused : pausePeriod anchor period o = .ok (true, next) o') :
    next = anchor + period ∧ periodAhead anchor period o.now = true
      ∧ ∃ cur o₁ r, o.runner = some cur ∧ o.block cur (next - o.now) = .ok ((), o₁)
        ∧ switch o₁ = .ok r o' := by
  obtain ⟨cur, o₁, hfound, hrest⟩ := of_bind_ok paused
  obtain ⟨rfl, hrunner⟩ := of_needRunner (Step.of_guarded_ok hfound)
  change (if periodAhead anchor period o₁.now = true then _ else _ : Step _) o₁ = _ at hrest
  by_cases hahead : periodAhead anchor period o₁.now = true
  · rw [if_pos hahead] at hrest
    obtain ⟨⟨⟩, o₂, hblock, hrest⟩ := of_bind_ok hrest
    obtain ⟨r, o₃, hswitch, hanswer⟩ := of_bind_ok hrest
    obtain ⟨hpair, rfl⟩ := EStateM.Result.ok.inj hanswer
    obtain ⟨-, rfl⟩ := Prod.mk.inj hpair
    exact ⟨rfl, hahead, cur, o₂, r, hrunner, Step.of_guarded_ok hblock, hswitch⟩
  · rw [if_neg hahead] at hrest
    obtain ⟨r, o₃, -, hanswer⟩ := of_bind_ok hrest
    obtain ⟨hpair, -⟩ := EStateM.Result.ok.inj hanswer
    cases (Prod.mk.inj hpair).1

/-- After a pause whose end lay ahead the task that ran awaits that end, or waits endlessly
    if the period began at the present tick and has the largest length. -/
theorem Sound.pausePeriod_ahead {anchor period next : Tick} (sound : o.Sound)
    (paused : pausePeriod anchor period o = .ok (true, next) o') :
    next = anchor + period ∧ ∃ cur, o.runner = some cur
      ∧ (¬ (anchor = o.now ∧ period = waitForever) → o'.Awaits cur next (next - o.now).toNat)
      ∧ (anchor = o.now → period = waitForever → o'.Endless cur) := by
  obtain ⟨rfl, hahead, cur, o₁, r, hrunner, hblock, hswitch⟩ := of_pausePeriod_ahead paused
  have hsound := sound.block hblock
  refine ⟨rfl, cur, hrunner, fun hother => ?_, fun hbegins hlargest => ?_⟩
  · have hsome : anchor + period - o.now ≠ 0 := by
      intro hzero
      have hpos := left_pos hahead
      rw [hzero] at hpos
      cases hpos
    have hbounded : anchor + period - o.now ≠ waitForever := fun hforever =>
      hother ((left_eq_waitForever hahead).mp hforever)
    have hawaits := awaits_block hsome hbounded hblock
    rw [UInt32.add_comm, UInt32.sub_add_cancel] at hawaits
    exact ((Step.keeps_switch keeps_awaits_choose).ok ⟨hsound, hawaits⟩ hswitch).2
  · rw [(left_eq_waitForever hahead).mpr ⟨hbegins, hlargest⟩] at hblock
    have hendless := endless_block hblock
    exact ((Step.keeps_switch keeps_endless_choose).ok ⟨hsound, hendless⟩ hswitch).2

end Outline

namespace Kernel

variable {k : Kernel} {m : Machine Kernel} {h : Handle} {wake : Tick} {left : Nat}

/-! ## On time, or never -/

/-- A task wakes on time.  It is delayed until a tick that the counter does not show yet,
    through every history that is not about the task and lets fewer ticks pass than are
    left; and the call that lets the last of them pass makes it ready, when the counter
    shows that tick. -/
def WakesOnTime (m : Machine Kernel) (h : Handle) (wake : Tick) (left : Nat) : Prop :=
  ∀ (calls : List Call) (rs : List (Except Refusal Reply)) (m' : Machine Kernel),
    (∀ c ∈ calls, c.Spares h) → perform calls m = .ok rs m' → ticksIn calls < left →
    m'.state.DelayedUntil h wake ∧ m'.state.now ≠ wake
      ∧ ∀ c : Call, left ≤ ticksIn calls + c.ticks → ∃ r m'', attempt c.run m' = .ok r m''
        ∧ m''.state.ReadyByTimeout h m'.state.freeze.isOff
        ∧ (ticksIn calls + c.ticks = left → m''.state.now = wake)

/-- A task is blocked for ever: it stands on the list of those that wait for no tick. -/
def BlockedForever (k : Kernel) (h : Handle) : Prop :=
  ∃ task, k.table.get? h = some task ∧ task.activity = .blocked ∧ task.place = .waiting
    ∧ h ∈ k.handlesAt .waiting

/-- A task never wakes by itself: it is blocked for ever after every history that is not
    about it. -/
def NeverWakes (m : Machine Kernel) (h : Handle) : Prop :=
  ∀ (calls : List Call) (rs : List (Except Refusal Reply)) (m' : Machine Kernel),
    (∀ c ∈ calls, c.Spares h) → perform calls m = .ok rs m' → m'.state.BlockedForever h

/-- A task that awaits its tick wakes on time. -/
theorem Intact.wakesOnTime (intact : m.state.Intact) (sound : m.state.outline.Sound)
    (awaits : m.state.outline.Awaits h wake left) (reaches : m.state.now + UInt32.ofNat left = wake)
    (bounded : left < 2 ^ 32) : WakesOnTime m h wake left := by
  intro calls rs m' spared ran early
  obtain ⟨hintact, hsound, hperform⟩ := intact.of_perform sound ran
  have hnow := intact.now_perform sound ran
  have hawaits := awaits.perform sound spared hperform early
  refine ⟨hintact.delayedUntil hsound hawaits, ?_, ?_⟩
  · intro hreached
    rw [hnow, ← reaches] at hreached
    -- fewer ticks than a turn of the counter have passed, so equal readings are equal counts
    have hticks := congrArg UInt32.toNat ((UInt32.add_right_inj _).mp hreached)
    rw [UInt32.toNat_ofNat_of_lt' (early.trans bounded), UInt32.toNat_ofNat_of_lt' bounded] at hticks
    omega
  · intro c hlast
    have hticks : c.ticks ≠ 0 := by omega
    have hspares : c.Spares h := by
      rcases ticks_cases hticks with rfl | ⟨n, rfl⟩
      · trivial
      · trivial
    obtain ⟨r, m'', hcall, hgate⟩ := hintact.ticks_done hsound hticks m'.platform
    obtain ⟨hintact', -, hstep⟩ := hintact.of_call hsound hcall
    have hover := hawaits.call hsound hspares hstep
    rw [if_neg (by omega)] at hover
    refine ⟨r, m'', hcall, hgate ▸ hintact'.readyByTimeout hover, ?_⟩
    rintro rfl
    rw [hintact.now_call hsound hcall, hnow, ← reaches, UInt32.ofNat_add, UInt32.add_assoc]

/-- A task that waits endlessly never wakes by itself. -/
theorem Intact.neverWakes (intact : m.state.Intact) (sound : m.state.outline.Sound)
    (endless : m.state.outline.Endless h) : NeverWakes m h := by
  intro calls rs m' spared ran
  obtain ⟨hintact, hsound, hperform⟩ := intact.of_perform sound ran
  obtain ⟨task, hget, hplace⟩ := endless.perform sound spared hperform
  refine ⟨task, (get?_outline _ h).trans hget, ?_, hplace, ?_⟩
  · exact (hsound.settled.fits (hsound.live hget)).blocked_iff.mpr (Or.inr hplace)
  · rw [← hplace]
    exact hintact.mem_handlesAt hget (by rw [hplace]; rintro ⟨⟩)

/-- A pause until the end of a period blocks until then, with one exception.  If a pause on
    a reachable kernel answers that the end lay ahead, the task that ran wakes on time, with
    the tick that shows the end; but if the period began at the present tick and has the
    largest length, the task is blocked for ever, and does not wake when the counter comes
    to show the end. -/
theorem period_ends_on_time (reachable : Reachable k) {anchor period next : Tick} {p : Platform}
    (paused : pausePeriod anchor period ⟨k, p⟩ = .ok (true, next) m) :
    next = anchor + period ∧ 0 < (next - k.now).toNat ∧ ∃ cur, k.runner = some cur
      ∧ (¬ (anchor = k.now ∧ period = waitForever) →
        WakesOnTime m cur next (next - k.now).toNat)
      ∧ (anchor = k.now → period = waitForever → NeverWakes m cur
        ∧ ∃ r m', attempt (Call.elapse (next - k.now)).run m = .ok r m' ∧ m'.state.now = next) := by
  obtain ⟨hintact, hsound⟩ := reachable.intact
  have hcall := attempt_pausePeriod paused
  obtain ⟨hintact', hsound', -⟩ := hintact.of_call hsound hcall
  have hfree := fun h ticks o (done : k.outline.block h ticks = .ok ((), o)) =>
    (hsound.block done).runnerFree
  obtain ⟨-, hstep⟩ := (hintact.enacts_pausePeriod anchor period hsound.runnerFree hfree).ok paused
  obtain ⟨rfl, cur, hrunner, hawaits, hendless⟩ := hsound.pausePeriod_ahead hstep
  obtain ⟨-, hahead, -⟩ := Outline.of_pausePeriod_ahead hstep
  have hnow : m.state.now = k.now :=
    (hintact.now_call hsound hcall).trans (UInt32.add_zero _)
  -- the pause itself lets no tick pass
  have hend : m.state.now + UInt32.ofNat (anchor + period - k.now).toNat = anchor + period := by
    rw [hnow, UInt32.ofNat_toNat, UInt32.add_comm, UInt32.sub_add_cancel]
  have hleft := left_pos hahead
  refine ⟨rfl, hleft, cur, (runner_outline k).trans hrunner, fun hother => ?_,
    fun hbegins hlargest => ⟨?_, ?_⟩⟩
  · exact hintact'.wakesOnTime hsound' (hawaits hother) hend (UInt32.toNat_lt _)
  · exact hintact'.neverWakes hsound' (hendless hbegins hlargest)
  · have hticks : (Call.elapse (anchor + period - k.now)).ticks ≠ 0 := Nat.ne_of_gt hleft
    obtain ⟨r, m', hran, -⟩ := hintact'.ticks_done hsound' hticks m.platform
    exact ⟨r, m', hran, (hintact'.now_call hsound' hran).trans hend⟩

/-- At the first tick a worker that paused for a period of five ticks, begun just before the
    counter wrapped, wakes four ticks later; one that pauses for the largest period, begun at
    that tick, is blocked for ever. -/
theorem period_ends_on_time_largest :
    ∃ (k : Kernel) (m m' : Machine Kernel), Reachable k ∧ k.now = 0
      ∧ pausePeriod 0xFFFFFFFF 5 ⟨k, {}⟩ = .ok (true, 4) m ∧ WakesOnTime m ⟨0, 0⟩ 4 4
      ∧ pausePeriod 0 waitForever ⟨k, {}⟩ = .ok (true, waitForever) m'
      ∧ NeverWakes m' ⟨0, 0⟩ ∧ m'.state.BlockedForever ⟨0, 0⟩ := by
  have hvalid : ({} : Settings).Valid := by decide
  have hdone : isDone (do
      let _ ← perform [.create { name := "worker", priority := 1 }, .start 0]
      let k ← read
      if k.now = 0 ∧ k.runner = some ⟨0, 0⟩
          ∧ isDone (do
            if (← pausePeriod 0xFFFFFFFF 5) = (true, 4) then pure () else refuse .invalidState)
              ⟨k, {}⟩ = true
          ∧ isDone (do
            if (← pausePeriod 0 waitForever) = (true, waitForever) then pure ()
              else refuse .invalidState) ⟨k, {}⟩ = true then
        pure ()
      else
        refuse .invalidState) ⟨initial {}, {}⟩ = true := by
    decide +kernel
  obtain ⟨⟨⟩, n, hrun⟩ := of_isDone hdone
  obtain ⟨rs, m₀, hstarted, hrun⟩ := of_bind_ok hrun
  obtain ⟨k, m₁, hread, hrun⟩ := of_bind_ok hrun
  obtain ⟨rfl, rfl⟩ := EStateM.Result.ok.inj hread
  obtain ⟨⟨hnow, hrunner, hshort, hlong⟩, -⟩ := of_unless_ok hrun
  obtain ⟨⟨⟩, m₂, hshort⟩ := of_isDone hshort
  obtain ⟨answer, m, hshort, hanswer⟩ := of_bind_ok hshort
  obtain ⟨rfl, -⟩ := of_unless_ok hanswer
  obtain ⟨⟨⟩, m₃, hlong⟩ := of_isDone hlong
  obtain ⟨answer, m', hlong, hanswer⟩ := of_bind_ok hlong
  obtain ⟨rfl, -⟩ := of_unless_ok hanswer
  have hinitial : Reachable (⟨initial {}, {}⟩ : Machine Kernel).state := .initial hvalid
  have hreachable : Reachable m₀.state := hinitial.perform hstarted
  obtain ⟨-, -, cur, hcur, hwakes, -⟩ := period_ends_on_time hreachable hshort
  obtain rfl := Option.some.inj (hrunner.symm.trans hcur)
  obtain ⟨-, -, cur, hcur, -, hnever⟩ := period_ends_on_time hreachable hlong
  obtain rfl := Option.some.inj (hrunner.symm.trans hcur)
  rw [hnow] at hwakes hnever
  obtain ⟨hnever, -⟩ := hnever rfl rfl
  exact ⟨m₀.state, m, m', hreachable, hnow, hshort, hwakes (by decide), hlong, hnever,
    hnever [] [] m' (by simp) rfl⟩

end Kernel

end PriorityScheduler
