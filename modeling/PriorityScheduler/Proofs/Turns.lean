import PriorityScheduler.Proofs.Slices

/-! # How long a peer is passed over

    A run takes TURNS: a turn is a call, or a tick that asks for a switch together with
    that switch.  A turn begins with ticks, all of them counted for the task that runs
    then, and a choice may come after them.

    While one task waits in line, a peer runs for no more ticks than it has credit.  That
    is one slice at most in the beginning.  A peer that is displaced by a task above it goes
    to the head of its line with a new slice, and so gets back what it has used of the old
    one: less than a slice, unless that slice was used up just then. -/

namespace PriorityScheduler

open Step (Leaves)

/-- A call neither changes a priority nor makes a choice that its caller is to act on. -/
def Call.plain : Call → Bool
  | .reprioritise _ _ => false
  | .choose => false
  | .planSwitch => false
  | _ => true

namespace Outline

variable {o o' o₁ : Outline} {p n : Nat} {a b h : Handle} {task task' : Task}

/-! ## Turns -/

/-- The first part of a turn: a number of ticks pass, counted for the running task and
    paid from its credit. -/
structure Begun (o : Outline) (n : Nat) (o' : Outline) : Prop where
  settings : o'.settings = o.settings
  depth : o'.depth = o.depth
  runner : ∀ {h}, o'.runner = some h → o.runner = some h
  record : ∀ {h task task'}, o.get? h = some task → o'.get? h = some task' →
    task'.priority = task.priority
      ∧ task'.runTicks = task.runTicks + UInt32.ofNat (if o.runner = some h then n else 0)
  spent : ∀ {a b p}, o.Peers a b p → o'.runner = some a →
    o'.sliceSpent.toNat = o.sliceSpent.toNat + n
  credit : ∀ {a b p}, o.Peers a b p →
    o'.credit a b p + (if o.runner = some a then n else 0) ≤ o.credit a b p

/-- A turn, in which a number of ticks pass and a choice may follow. -/
structure Turned (o : Outline) (n : Nat) (o' : Outline) : Prop where
  settings : o'.settings = o.settings
  depth : o'.depth = o.depth
  inSlice : o'.sliceSpent < o.settings.slice
  record : ∀ {h task task'}, o.get? h = some task → o'.get? h = some task' →
    task'.priority = task.priority
      ∧ task'.runTicks = task.runTicks + UInt32.ofNat (if o.runner = some h then n else 0)
  credit : ∀ {a b p}, o.Peers a b p → b.index ∈ o'.row (.ready p) →
    (∃ task, o'.get? a = some task) → o'.credit a b p + (if o.runner = some a then n else 0)
      ≤ o.credit a b p
        + if displaced o o' a then min o.settings.slice.toNat (o.sliceSpent.toNat + n) else 0

theorem Timeless.begun (timeless : Timeless o o') (sound : o.Sound) : Begun o 0 o' := by
  refine ⟨timeless.settings, timeless.depth, timeless.runner, fun hget hget' => ?_,
    fun _ hrunner => congrArg UInt32.toNat (timeless.slice hrunner), fun peers => ?_⟩
  · rw [ite_self]
    obtain ⟨hpriority, hcount⟩ := timeless.record hget hget'
    exact ⟨hpriority, hcount.trans (UInt32.add_zero _).symm⟩
  · rw [ite_self]
    exact timeless.credit_le sound peers.queued

theorem Elapses.begun {n : Nat} (elapses : Elapses o n o') : Begun o n o' := by
  refine ⟨elapses.settings, elapses.depth, fun hrunner => elapses.runner ▸ hrunner,
    fun hget hget' => ?_, fun peers hrunner => elapses.spent peers (elapses.runner ▸ hrunner),
    elapses.credit⟩
  obtain ⟨task', hsome, hpriority, hcount⟩ := elapses.record hget
  rw [hget'] at hsome
  rw [Option.some.inj hsome]
  exact ⟨hpriority, hcount⟩

section Closing

variable {n : Nat} (begun : Begun o n o₁)

include begun

/-- A turn may end without a choice. -/
theorem Begun.turned (inSlice : o₁.sliceSpent < o.settings.slice) : Turned o n o₁ := by
  refine ⟨begun.settings, begun.depth, inSlice, begun.record, fun peers _ _ => ?_⟩
  exact Nat.le_trans (begun.credit peers) (Nat.le_add_right ..)

/-- A turn may end with a choice. -/
theorem Begun.chosen (sound : o.Sound) (positive : 0 < o.settings.slice) (inTime : o₁.InTime)
    (chosen : Chosen o₁ o') : Turned o n o' := by
  have hsettings := begun.settings
  refine ⟨chosen.settings.trans hsettings, chosen.depth.trans begun.depth, ?_, ?_, ?_⟩
  · rw [← hsettings] at positive ⊢
    exact chosen.inSlice positive inTime
  · intro h task task' hget hget'
    obtain ⟨task₁, hget₁, hpriority, hcount⟩ := chosen.recalls h task' hget'
    obtain ⟨hpriority₁, hcount₁⟩ := begun.record hget hget₁
    exact ⟨hpriority.trans hpriority₁, hcount.trans hcount₁⟩
  · rintro a b p peers queued ⟨task', hget'⟩
    obtain ⟨task, hget, hpriority⟩ := peers.peer
    obtain ⟨task₁, hget₁, -⟩ := chosen.recalls a task' hget'
    -- the waiting task has been in line all the time, since it did not run before
    have hline : b.index ∈ o₁.row (.ready p) := by
      rcases chosen.queued queued with hline | ⟨h, hrunner, hindex⟩
      · exact hline
      · refine absurd peers.queued ?_
        rw [← hindex]
        exact sound.runner_not_mem (begun.runner hrunner) _
    have hpeers : o₁.Peers a b p :=
      ⟨peers.apart, hline, task₁, hget₁, (begun.record hget hget₁).1.trans hpriority⟩
    have hbegun := begun.credit peers
    have hchosen := chosen.credit hpeers queued
    by_cases hd : displaced o₁ o' a = true
    · rw [if_pos hd] at hchosen
      simp only [displaced, Bool.and_eq_true, decide_eq_true_eq] at hd
      obtain ⟨hrunner, haway⟩ := hd
      have hdisplaced : displaced o o' a = true := by
        simp only [displaced, Bool.and_eq_true, decide_eq_true_eq]
        exact ⟨begun.runner hrunner, haway⟩
      -- it ran to the end of the ticks, so these are part of the slice that it has used
      have hused : o₁.used = min o.settings.slice.toNat (o.sliceSpent.toNat + n) := by
        rw [used, hsettings, begun.spent peers hrunner]
      rw [if_pos hdisplaced, ← hused]
      omega
    · rw [if_neg hd] at hchosen
      omega

end Closing

/-! ## Calls -/

/-- What a call does that lets ticks pass. -/
theorem attempt_asks {c : Call} (asks : c.asks = true) (o : Outline) :
    Step.attempt (run c) o = .ok (.ok (.answer (elapseFrom false c.ticks o).1))
      (elapseFrom false c.ticks o).2 := by
  cases c with
  | tick => rfl
  | elapse ticks => rfl
  | _ => cases asks

section Calls

variable (sound : o.Sound) (opened : o.depth = 0) (turns : o.settings.takingTurns = true)
  (preempts : o.settings.preemption = true) (inSlice : o.sliceSpent < o.settings.slice)

include sound opened inSlice

/-- A call that lets no tick pass is a turn, if it does not suspend scheduling. -/
theorem Sound.turned_timeless {c : Call} {r : Except Refusal Reply} (asks : c.asks = false)
    (plain : c.plain = true) (goesOn : c ≠ .freezeAll)
    (ran : Step.attempt (run c) o = .ok r o') : Turned o 0 o' := by
  have hpositive : 0 < o.settings.slice := UInt32.lt_of_le_of_lt UInt32.zero_le inSlice
  have hlevel : ∀ h p, c ≠ .reprioritise h p := by
    rintro h p rfl
    cases plain
  obtain ⟨o₁, hopens, hcloses⟩ := staged_of_attempt ran
  have htimeless := sound.timeless_opens opened asks hlevel goesOn hopens
  have hslice : o₁.sliceSpent < o.settings.slice := by
    rcases htimeless.spent with heq | heq
    · rw [heq]
      exact inSlice
    · rw [heq]
      exact hpositive
  cases hcloses with
  | nothing => exact (htimeless.begun sound).turned hslice
  | marked =>
      have hmarked := htimeless.remark o₁.idle o₁.sendBehind true
      exact (hmarked.begun sound).turned hslice
  | chosen behind choice =>
      have hmarked := htimeless.remark o₁.idle behind o₁.switchDue
      have hsound : { o₁ with sendBehind := behind }.Sound :=
        (sound.opens hopens).remark _ _ behind _ _
      have hchosen := (hsound.chosen (htimeless.depth.trans opened)).of_eq choice
      refine (hmarked.begun sound).chosen sound hpositive (Or.inl ?_) hchosen
      show o₁.sliceSpent < o₁.settings.slice
      rw [htimeless.settings]
      exact hslice

include turns preempts

/-- A call that lets ticks pass is a turn, if it does not ask for a switch. -/
theorem Sound.turned_unasked {c : Call} (asks : c.asks = true) {r : Except Refusal Reply}
    (ran : Step.attempt (run c) o = .ok r o') (unasked : r ≠ .ok (.answer true)) :
    Turned o c.ticks o' := by
  rw [attempt_asks asks] at ran
  obtain ⟨rfl, rfl⟩ := EStateM.Result.ok.inj ran
  have hquiet : (elapseFrom false c.ticks o).1 = false := by
    cases hasked : (elapseFrom false c.ticks o).1 with
    | false => rfl
    | true =>
        rw [hasked] at unasked
        exact absurd rfl unasked
  obtain ⟨helapses, hslice⟩ :=
    sound.elapses_unasked opened turns preempts inSlice c.ticks hquiet
  rw [helapses.settings] at hslice
  exact helapses.begun.turned hslice

/-- A call whose last tick asks for a switch is a turn together with that switch. -/
theorem Sound.turned_heeded {c : Call} (asks : c.asks = true) {r r' : Except Refusal Reply}
    (ran : Step.attempt (run c) o = .ok r o₁) (last : c.ticks = n + 1)
    (unasked : (elapseFrom false n o).1 = false)
    (switched : Step.attempt (run .switch) o₁ = .ok r' o') : Turned o c.ticks o' := by
  have hpositive : 0 < o.settings.slice := UInt32.lt_of_le_of_lt UInt32.zero_le inSlice
  rw [attempt_asks asks, last] at ran
  obtain ⟨-, rfl⟩ := EStateM.Result.ok.inj ran
  obtain ⟨helapses, hinTime⟩ := sound.elapses_asked opened turns preempts inSlice n unasked
  have hchoice := Step.leaves_switch (helapses.sound.chosen (helapses.depth.trans opened))
  have hchosen : Leaves (Chosen _) (run .switch (elapseFrom false (n + 1) o).2) :=
    Step.leaves_answer hchoice fun _ _ => ⟨_, rfl⟩
  rw [last]
  exact helapses.begun.chosen sound hpositive hinTime (leaves_of_attempt hchosen switched)

end Calls

end Outline

namespace Kernel

open Routine

/-! ## Runs -/

/-- One turn of a run, and the ticks that pass in it. -/
inductive Turn (k : Kernel) : Nat → Kernel → Prop where
  /-- A call after which no tick asks for a switch. -/
  | call {c : Call} {p : Platform} {r : Except Refusal Reply} {m : Machine Kernel}
      (plain : c.plain = true) (ran : attempt c.run ⟨k, p⟩ = .ok r m)
      (unasked : c.asks = true → r ≠ .ok (.answer true)) : Turn k c.ticks m.state
  /-- Ticks of which the last one asks for a switch, and none before it, and the switch. -/
  | heeded {c : Call} {p : Platform} {r : Except Refusal Reply} {m m' m₀ : Machine Kernel} {n : Nat}
      (asks : c.asks = true) (ran : attempt c.run ⟨k, p⟩ = .ok (.ok (.answer true)) m)
      (last : c.ticks = n + 1) (unasked : elapseFrom false n ⟨k, p⟩ = .ok false m₀)
      (switched : attempt Call.switch.run m = .ok r m') : Turn k c.ticks m'.state

/-- The kernels between the turns of a run in which scheduling is never suspended. -/
inductive Orderly (s : Settings) : Kernel → Prop where
  | initial : Orderly s (initial s)
  | turn {k k' : Kernel} {t : Nat} (before : Orderly s k) (turn : Turn k t k')
      (opened : k'.freeze.isOff = true) : Orderly s k'

/-- A task that ran has made room for one above it. -/
def displaced (k k' : Kernel) (a : Handle) : Bool :=
  decide (k.runner = some a) && (k'.table.get? a).any fun task =>
    decide (task.activity = .ready) && k'.runnerPriority.any fun q => decide (task.priority < q)

/-- Scheduling goes on, and while one task is live another one waits on a level. -/
def Waiting (k : Kernel) (a b : Handle) (p : Nat) : Prop :=
  k.freeze.isOff = true ∧ b ∈ k.handlesAt (.ready p) ∧ (k.table.get? a).isSome = true

instance (k : Kernel) (a b : Handle) (p : Nat) : Decidable (k.Waiting a b p) :=
  inferInstanceAs (Decidable (_ ∧ _))

/-- A number of ticks use up the slice of the task that runs. -/
def usesUp (k : Kernel) (t : Nat) : Bool :=
  decide (k.settings.slice.toNat ≤ k.sliceSpent.toNat + t)

/-- In the turns between two kernels one task waits on a level and is not dispatched,
    while another one runs for a number of ticks and is displaced a number of times.  The
    turns that displace it before its slice is used up are counted first, and those apart
    in which the slice is used up as well. -/
inductive PassedOver (a b : Handle) (p : Nat) (k : Kernel) : Nat → Nat → Nat → Kernel → Prop where
  | refl : PassedOver a b p k 0 0 0 k
  | turn {g n l t : Nat} {k' k'' : Kernel} (before : PassedOver a b p k g n l k')
      (turn : Turn k' t k'') (waiting : k''.Waiting a b p) :
      PassedOver a b p k (g + if k'.runner = some a then t else 0)
        (n + if displaced k' k'' a && !k'.usesUp t then 1 else 0)
        (l + if displaced k' k'' a && k'.usesUp t then 1 else 0) k''

variable {k k' k'' : Kernel} {s : Settings} {a b : Handle} {p g n l t : Nat}

theorem displaced_outline (k k' : Kernel) (a : Handle) :
    displaced k k' a = Outline.displaced k.outline k'.outline a := by
  simp only [displaced, Outline.displaced, runner_outline, get?_outline, runnerPriority_outline]

/-- A kernel between the turns of a run with time slices and preemption: the slice is
    not used up. -/
structure InTurn (k : Kernel) : Prop where
  intact : k.Intact
  sound : k.outline.Sound
  opened : k.outline.depth = 0
  turns : k.outline.settings.takingTurns = true
  preempts : k.outline.settings.preemption = true
  inSlice : k.outline.sliceSpent < k.outline.settings.slice

/-- A turn leads from one such kernel to another. -/
theorem InTurn.turned (inTurn : k.InTurn) (intact : k'.Intact) (sound : k'.outline.Sound)
    (turned : Outline.Turned k.outline t k'.outline) : k'.InTurn := by
  refine ⟨intact, sound, turned.depth.trans inTurn.opened, ?_, ?_, ?_⟩
  · rw [turned.settings]
    exact inTurn.turns
  · rw [turned.settings]
    exact inTurn.preempts
  · rw [turned.settings]
    exact turned.inSlice

/-- A call that lets no tick pass leads to a kernel between turns, if it does not suspend
    scheduling. -/
theorem InTurn.call (inTurn : k.InTurn) {c : Call} {p : Platform} {r : Except Refusal Reply}
    {m : Machine Kernel} (asks : c.asks = false) (plain : c.plain = true) (goesOn : c ≠ .freezeAll)
    (ran : attempt c.run ⟨k, p⟩ = .ok r m) :
    m.state.InTurn ∧ Outline.Turned k.outline 0 m.state.outline := by
  obtain ⟨hintact, hsound, hopened, -, -, hslice⟩ := id inTurn
  obtain ⟨hintact', hsound', hstep⟩ := hintact.of_call hsound ran
  have hturned := hsound.turned_timeless hopened hslice asks plain goesOn hstep
  exact ⟨inTurn.turned hintact' hsound' hturned, hturned⟩

/-- Each turn that leaves scheduling open leads to a kernel between turns. -/
theorem Turn.turned (turn : Turn k t k') (inTurn : k.InTurn) (opened : k'.freeze.isOff = true) :
    k'.InTurn ∧ Outline.Turned k.outline t k'.outline := by
  obtain ⟨hintact, hsound, hopened, hturns, hpreempts, hslice⟩ := id inTurn
  cases turn with
  | @call c p r m plain ran unasked =>
      obtain ⟨hintact', hsound', hstep⟩ := hintact.of_call hsound ran
      cases hasks : c.asks with
      | true =>
          have hturned := hsound.turned_unasked hopened hturns hpreempts hslice hasks hstep
            (unasked hasks)
          exact ⟨inTurn.turned hintact' hsound' hturned, hturned⟩
      | false =>
          have hgoesOn : c ≠ .freezeAll := by
            rintro rfl
            obtain ⟨-, heq⟩ := EStateM.Result.ok.inj hstep
            rw [isOff_outline, decide_eq_true_eq, ← heq] at opened
            exact Outline.saturatingSucc_ne_zero _ opened
          have htimeless : c.ticks = 0 := by
            cases c <;> first | rfl | cases hasks
          rw [htimeless]
          exact inTurn.call hasks plain hgoesOn ran
  | @heeded c p r m m' m₀ n asks ran last unasked switched =>
      obtain ⟨hintact₁, hsound₁, hstep⟩ := hintact.of_call hsound ran
      obtain ⟨hintact', hsound', hswitch⟩ := hintact₁.of_call hsound₁ switched
      obtain ⟨-, helapsed⟩ := (hintact.enacts_elapseFrom hsound n false).ok unasked
      have hquiet : (Outline.elapseFrom false n k.outline).1 = false :=
        (EStateM.Result.ok.inj helapsed).1
      have hturned :=
        hsound.turned_heeded hopened hturns hpreempts hslice asks hstep last hquiet hswitch
      exact ⟨inTurn.turned hintact' hsound' hturned, hturned⟩

/-- Between the turns of a run the slice is not used up. -/
theorem Orderly.inTurn (orderly : Orderly s k) (valid : s.Valid) (turns : s.takingTurns = true)
    (preempts : s.preemption = true) : k.InTurn ∧ k.outline.settings = s := by
  induction orderly with
  | initial =>
      have hpositive : (0 : UInt32) < s.slice :=
        UInt32.lt_of_le_of_ne UInt32.zero_le (Ne.symm valid.2.2)
      exact ⟨⟨intact_initial valid, sound_initial valid, rfl, turns, preempts, hpositive⟩, rfl⟩
  | turn before turn opened ih =>
      obtain ⟨hinTurn, hturn⟩ := turn.turned ih.1 opened
      exact ⟨hinTurn, hturn.settings.trans ih.2⟩

/-- A history in which no tick passes is orderly, if it only makes calls that are turns and
    never suspends scheduling. -/
theorem Orderly.perform {m m' : Machine Kernel} (before : Orderly s m.state) (valid : s.Valid)
    (turns : s.takingTurns = true) (preempts : s.preemption = true) {calls : List Call}
    {rs : List (Except Refusal Reply)}
    (allowed : ∀ c ∈ calls, c.asks = false ∧ c.plain = true ∧ c ≠ .freezeAll)
    (ran : Kernel.perform calls m = .ok rs m') : Orderly s m'.state := by
  induction calls generalizing m rs with
  | nil =>
      obtain ⟨-, rfl⟩ := EStateM.Result.ok.inj ran
      exact before
  | cons c rest ih =>
      obtain ⟨r, m₁, hfirst, hrest⟩ := of_bind_ok ran
      obtain ⟨rs', m₂, hothers, hdone⟩ := of_bind_ok hrest
      obtain ⟨-, rfl⟩ := EStateM.Result.ok.inj hdone
      obtain ⟨hasks, hplain, hgoesOn⟩ := allowed c List.mem_cons_self
      obtain ⟨hinTurn, -⟩ := (before.inTurn valid turns preempts).1.call hasks hplain hgoesOn hfirst
      have hopened : m₁.state.freeze.isOff = true := by
        rw [isOff_outline]
        exact decide_eq_true hinTurn.opened
      have hturn : Turn m.state c.ticks m₁.state := by
        refine .call hplain hfirst ?_
        rw [hasks]
        rintro ⟨⟩
      exact ih (.turn before hturn hopened) (fun c' hc' => allowed c' (List.mem_cons_of_mem c hc'))
        hothers

/-! ## How long a peer is passed over -/

/-- What a peer has run for by the time is paid from its credit and from what it got back
    each time that it was displaced: a whole slice if the slice was used up, and less if it
    was not. -/
structure Paid (k : Kernel) (a b : Handle) (p g n l : Nat) (task : Task) (k' : Kernel) : Prop where
  inTurn : k'.InTurn
  settings : k'.outline.settings = k.outline.settings
  peers : k'.outline.Peers a b p
  record : ∃ task', k'.table.get? a = some task' ∧ task'.priority = task.priority
    ∧ task'.runTicks = task.runTicks + UInt32.ofNat g
  credit : k'.outline.credit a b p + g ≤ k.outline.credit a b p
    + n * (k.outline.settings.slice.toNat - 1) + l * k.outline.settings.slice.toNat

/-- What a displaced task gets back in a turn of so many ticks is a slice at most, and less
    if the slice is not used up. -/
theorem back_le_displacements (settings : k'.outline.settings = k.outline.settings) (d : Bool) :
    (n * (k.outline.settings.slice.toNat - 1) + l * k.outline.settings.slice.toNat)
        + (if d then min k'.outline.settings.slice.toNat (k'.outline.sliceSpent.toNat + t) else 0)
      ≤ (n + if d && !k'.usesUp t then 1 else 0) * (k.outline.settings.slice.toNat - 1)
        + (l + if d && k'.usesUp t then 1 else 0) * k.outline.settings.slice.toNat := by
  have hused : k'.usesUp t
      = decide (k'.outline.settings.slice.toNat ≤ k'.outline.sliceSpent.toNat + t) := rfl
  rw [hused, settings]
  cases d with
  | false => exact Nat.le_refl _
  | true =>
      by_cases hup : k.outline.settings.slice.toNat ≤ k'.outline.sliceSpent.toNat + t
      · simp only [hup, decide_true, Bool.and_true, Bool.not_true, if_true, Bool.and_false,
          Bool.false_eq_true, if_false, Nat.add_mul, Nat.one_mul, Nat.zero_mul]
        omega
      · simp only [hup, decide_false, Bool.and_true, Bool.not_false, if_true, Bool.and_false,
          Bool.false_eq_true, if_false, Nat.add_mul, Nat.one_mul, Nat.zero_mul]
        omega

/-- A turn is paid for. -/
theorem Paid.turn {task : Task} (paid : Paid k a b p g n l task k') (turn : Turn k' t k'')
    (waiting : k''.Waiting a b p) :
    Paid k a b p (g + if k'.runner = some a then t else 0)
      (n + if displaced k' k'' a && !k'.usesUp t then 1 else 0)
      (l + if displaced k' k'' a && k'.usesUp t then 1 else 0) task k'' := by
  obtain ⟨hopened, hqueued, hlive⟩ := waiting
  obtain ⟨hinTurn, hsettings, hpeers, ⟨task', hget', hpriority', hcount'⟩, hcredit⟩ := paid
  obtain ⟨hinTurn', hturn⟩ := turn.turned hinTurn hopened
  obtain ⟨task'', hget''⟩ := Option.isSome_iff_exists.mp hlive
  rw [get?_outline] at hget' hget''
  rw [hinTurn'.intact.handlesAt] at hqueued
  have hline : b.index ∈ k''.outline.row (.ready p) := by
    obtain ⟨i, hi, rfl⟩ := List.mem_map.mp hqueued
    exact hi
  obtain ⟨hpriority, hcount⟩ := hturn.record hget' hget''
  refine ⟨hinTurn', hturn.settings.trans hsettings, ⟨hpeers.apart, hline, task'', hget'', ?_⟩,
    ⟨task'', (get?_outline ..).trans hget'', hpriority.trans hpriority', ?_⟩, ?_⟩
  · obtain ⟨t, ht, hp⟩ := hpeers.peer
    rw [hget'] at ht
    rw [hpriority, Option.some.inj ht, hp]
  · rw [hcount, hcount', runner_outline, UInt32.ofNat_add, UInt32.add_assoc]
  · have hturned := hturn.credit hpeers hline ⟨task'', hget''⟩
    have hback := back_le_displacements (n := n) (l := l) (t := t) hsettings (displaced k' k'' a)
    rw [← displaced_outline, ← runner_outline] at hturned
    omega

/-- A waiting peer is passed over for a bounded time.  Let time slices and preemption be
    on, and a run be made of turns in which scheduling is never suspended, no priority is
    changed, and every tick that asks for a switch is heeded at once.  While a task waits
    on a level without being dispatched, any other task of the same priority runs for no
    more ticks than one slice, one tick less than a slice for each time that it is displaced
    meanwhile by a task above it before its slice is used up, and one slice for each time
    that it is displaced when its slice is used up. -/
theorem peer_passed_over {s : Settings} (valid : s.Valid) (turns : s.takingTurns = true)
    (preempts : s.preemption = true) {k k' : Kernel} (orderly : Orderly s k) {a b : Handle}
    (other : a ≠ b) {p g n l : Nat} (queued : b ∈ k.handlesAt (.ready p)) {task : Task}
    (live : k.table.get? a = some task) (peer : task.priority = p)
    (passed : PassedOver a b p k g n l k') :
    g ≤ s.slice.toNat + n * (s.slice.toNat - 1) + l * s.slice.toNat
      ∧ ∃ task', k'.table.get? a = some task'
        ∧ task'.priority = p ∧ task'.runTicks = task.runTicks + UInt32.ofNat g := by
  obtain ⟨hinTurn, hsettings⟩ := orderly.inTurn valid turns preempts
  have hget := live
  rw [get?_outline] at hget
  have hpaid : Paid k a b p g n l task k' := by
    induction passed with
    | refl =>
        rw [hinTurn.intact.handlesAt] at queued
        obtain ⟨-, waiting, hwaiting, -⟩ := hinTurn.sound.tagged.mem_roster.mp queued
        obtain ⟨i, hi, rfl⟩ := List.mem_map.mp queued
        have hapart := hinTurn.sound.index_ne hget hwaiting (Ne.symm other)
        refine ⟨hinTurn, rfl, ⟨hapart, hi, task, hget, peer⟩, ⟨task, live, rfl, ?_⟩, ?_⟩
        · exact (UInt32.add_zero _).symm
        · omega
    | turn before turn waiting ih => exact ih.turn turn waiting
  obtain ⟨task', hget', hpriority, hcount⟩ := hpaid.record
  refine ⟨?_, task', hget', hpriority.trans peer, hcount⟩
  have hcredit := hpaid.credit
  have hslice := k.outline.credit_le_slice a b p
  rw [hsettings] at hcredit hslice
  omega

/-! ### A peer that is displaced -/

/-- A tick that asks for a switch is one turn with it. -/
theorem turn_of_tick {m m₁ m₂ : Machine Kernel} {r : Except Refusal Reply}
    (asked : attempt Call.tick.run m = .ok (.ok (.answer true)) m₁)
    (switched : attempt Call.switch.run m₁ = .ok r m₂) : Turn m.state 1 m₂.state :=
  .heeded rfl asked rfl rfl switched

/-- A turn in which the peer runs and is displaced before its slice is used up. -/
theorem PassedOver.displacing (before : PassedOver a b p k g n l k') (turn : Turn k' t k'')
    (waiting : k''.Waiting a b p) (away : displaced k' k'' a = true)
    (early : k'.usesUp t = false) : PassedOver a b p k (g + t) (n + 1) l k'' := by
  have hrunner : k'.runner = some a := by
    rw [displaced, Bool.and_eq_true, decide_eq_true_eq] at away
    exact away.1
  have hpassed := before.turn turn waiting
  rw [if_pos hrunner, away, early] at hpassed
  exact hpassed

/-- A turn in which no tick passes and the peer is not displaced. -/
theorem PassedOver.resting (before : PassedOver a b p k g n l k') (turn : Turn k' 0 k'')
    (waiting : k''.Waiting a b p) (stays : displaced k' k'' a = false) :
    PassedOver a b p k g n l k'' := by
  have hpassed := before.turn turn waiting
  rw [ite_self, stays] at hpassed
  exact hpassed

/-- With slices of two ticks, a worker is displaced by a guard after one tick, three times
    over, and all the time another task waits beside it. -/
theorem passedOver_thrice :
    ∃ (k k' : Kernel) (task task' : Task), Orderly { slice := 2 } k
      ∧ ⟨1, 0⟩ ∈ k.handlesAt (.ready 2) ∧ k.table.get? ⟨0, 0⟩ = some task ∧ task.priority = 2
      ∧ PassedOver ⟨0, 0⟩ ⟨1, 0⟩ 2 k 3 3 0 k'
      ∧ k'.table.get? ⟨0, 0⟩ = some task' ∧ task'.runTicks = task.runTicks + 3 := by
  have hvalid : ({ slice := 2 } : Settings).Valid := by decide
  let calls : List Call := [.create { name := "worker", priority := 2 },
    .create { name := "waiter", priority := 2 }, .create { name := "guard", priority := 3 },
    .start 0, .pause 1]
  have hdone : isDone (do
      let _ ← perform calls
      let k ← read
      let r₁ ← attempt Call.tick.run
      let _ ← attempt Call.switch.run
      let k₁ ← read
      let _ ← attempt (Call.pause 1).run
      let k₂ ← read
      let r₃ ← attempt Call.tick.run
      let _ ← attempt Call.switch.run
      let k₃ ← read
      let _ ← attempt (Call.pause 1).run
      let k₄ ← read
      let r₅ ← attempt Call.tick.run
      let _ ← attempt Call.switch.run
      let k₅ ← read
      if (r₁ = .ok (.answer true) ∧ r₃ = .ok (.answer true) ∧ r₅ = .ok (.answer true))
          ∧ (∀ k' ∈ [k, k₁, k₂, k₃, k₄, k₅], k'.Waiting ⟨0, 0⟩ ⟨1, 0⟩ 2)
          ∧ (k.table.get? ⟨0, 0⟩).any (fun task => task.priority = 2 ∧ task.runTicks = 0) = true
          ∧ (k₅.table.get? ⟨0, 0⟩).any (fun task => task.runTicks = 3) = true
          ∧ (displaced k k₁ ⟨0, 0⟩ = true ∧ displaced k₁ k₂ ⟨0, 0⟩ = false
            ∧ displaced k₂ k₃ ⟨0, 0⟩ = true ∧ displaced k₃ k₄ ⟨0, 0⟩ = false
            ∧ displaced k₄ k₅ ⟨0, 0⟩ = true)
          ∧ (∀ k' ∈ [k, k₂, k₄], k'.usesUp 1 = false) then
        pure ()
      else
        refuse .invalidState) ⟨initial { slice := 2 }, {}⟩ = true := by
    decide +kernel
  obtain ⟨⟨⟩, z, hrun⟩ := of_isDone hdone
  obtain ⟨rs, m, hstarted, hrun⟩ := of_bind_ok hrun
  obtain ⟨k, _, hread, hrun⟩ := of_bind_ok hrun
  obtain ⟨rfl, rfl⟩ := EStateM.Result.ok.inj hread
  obtain ⟨r₁, n₁, htick₁, hrun⟩ := of_bind_ok hrun
  obtain ⟨_, m₁, hswitch₁, hrun⟩ := of_bind_ok hrun
  obtain ⟨k₁, _, hread, hrun⟩ := of_bind_ok hrun
  obtain ⟨rfl, rfl⟩ := EStateM.Result.ok.inj hread
  obtain ⟨_, m₂, hpause₂, hrun⟩ := of_bind_ok hrun
  obtain ⟨k₂, _, hread, hrun⟩ := of_bind_ok hrun
  obtain ⟨rfl, rfl⟩ := EStateM.Result.ok.inj hread
  obtain ⟨r₃, n₃, htick₃, hrun⟩ := of_bind_ok hrun
  obtain ⟨_, m₃, hswitch₃, hrun⟩ := of_bind_ok hrun
  obtain ⟨k₃, _, hread, hrun⟩ := of_bind_ok hrun
  obtain ⟨rfl, rfl⟩ := EStateM.Result.ok.inj hread
  obtain ⟨_, m₄, hpause₄, hrun⟩ := of_bind_ok hrun
  obtain ⟨k₄, _, hread, hrun⟩ := of_bind_ok hrun
  obtain ⟨rfl, rfl⟩ := EStateM.Result.ok.inj hread
  obtain ⟨r₅, n₅, htick₅, hrun⟩ := of_bind_ok hrun
  obtain ⟨_, m₅, hswitch₅, hrun⟩ := of_bind_ok hrun
  obtain ⟨k₅, _, hread, hrun⟩ := of_bind_ok hrun
  obtain ⟨rfl, rfl⟩ := EStateM.Result.ok.inj hread
  obtain ⟨⟨⟨rfl, rfl, rfl⟩, hwaiting, hpeer, hran,
    ⟨haway₁, hstays₂, haway₃, hstays₄, haway₅⟩, hearly⟩, -⟩ := of_unless_ok hrun
  simp only [List.forall_mem_cons] at hwaiting hearly
  obtain ⟨hw, hw₁, hw₂, hw₃, hw₄, hw₅, -⟩ := hwaiting
  obtain ⟨hearly₁, hearly₃, hearly₅, -⟩ := hearly
  obtain ⟨task, hget, hpeer⟩ := (Option.any_eq_true _ _).mp hpeer
  obtain ⟨task', hget', hran⟩ := (Option.any_eq_true _ _).mp hran
  obtain ⟨hpriority, hfresh⟩ := of_decide_eq_true hpeer
  have horderly : Orderly { slice := 2 } m.state := by
    refine Orderly.perform (m := ⟨initial { slice := 2 }, {}⟩) .initial hvalid rfl rfl ?_ hstarted
    decide
  have hpause : ∀ {m m' : Machine Kernel} {r : Except Refusal Reply},
      attempt (Call.pause 1).run m = .ok r m' → Turn m.state 0 m'.state :=
    fun hran => Turn.call rfl hran (by rintro ⟨⟩)
  have hpassed : PassedOver ⟨0, 0⟩ ⟨1, 0⟩ 2 m.state 3 3 0 m₅.state := by
    refine PassedOver.displacing ?_ (turn_of_tick htick₅ hswitch₅) hw₅ haway₅ hearly₅
    refine PassedOver.resting ?_ (hpause hpause₄) hw₄ hstays₄
    refine PassedOver.displacing ?_ (turn_of_tick htick₃ hswitch₃) hw₃ haway₃ hearly₃
    refine PassedOver.resting ?_ (hpause hpause₂) hw₂ hstays₂
    exact PassedOver.displacing .refl (turn_of_tick htick₁ hswitch₁) hw₁ haway₁ hearly₁
  refine ⟨m.state, m₅.state, task, task', horderly, hw.2.1, hget, hpriority, hpassed, hget', ?_⟩
  rw [of_decide_eq_true hran, hfresh]
  rfl

/-- The worker that was displaced three times has run for three ticks. -/
theorem peer_passed_over_thrice :
    ∃ (k k' : Kernel) (task task' : Task), Orderly { slice := 2 } k
      ∧ ⟨1, 0⟩ ∈ k.handlesAt (.ready 2) ∧ k.table.get? ⟨0, 0⟩ = some task
      ∧ PassedOver ⟨0, 0⟩ ⟨1, 0⟩ 2 k 3 3 0 k' ∧ 3 ≤ (2 : UInt32).toNat + 3 * ((2 : UInt32).toNat - 1) + 0 * (2 : UInt32).toNat
      ∧ k'.table.get? ⟨0, 0⟩ = some task' ∧ task'.runTicks = task.runTicks + 3 := by
  obtain ⟨k, k', task, -, horderly, hqueued, hget, hpriority, hpassed, -⟩ := passedOver_thrice
  obtain ⟨hbound, task', hget', -, hcount⟩ := peer_passed_over (by decide) rfl rfl horderly
    (by decide) hqueued hget hpriority hpassed
  exact ⟨k, k', task, task', horderly, hqueued, hget, hpassed, hbound, hget', hcount⟩

/-- One slice is not enough for that: a waiting task is passed over for longer when its
    peer is displaced again and again. -/
theorem peer_passed_over_longer :
    ¬ ∀ (s : Settings) (k k' : Kernel) (a b : Handle) (p g n l : Nat) (task : Task), s.Valid →
      s.takingTurns = true → s.preemption = true → Orderly s k → a ≠ b →
      b ∈ k.handlesAt (.ready p) → k.table.get? a = some task → task.priority = p →
      PassedOver a b p k g n l k' →
      ∃ task', k'.table.get? a = some task' ∧ ∃ ran : Nat, ran ≤ s.slice.toNat
        ∧ task'.runTicks = task.runTicks + UInt32.ofNat ran := by
  intro claim
  obtain ⟨k, k', task, task', horderly, hqueued, hget, hpriority, hpassed, hget', hcount⟩ :=
    passedOver_thrice
  obtain ⟨t, ht, ran, hran, hsum⟩ := claim { slice := 2 } k k' _ _ 2 3 3 0 task (by decide) rfl rfl
    horderly (by decide) hqueued hget hpriority hpassed
  rw [hget'] at ht
  obtain rfl := Option.some.inj ht
  rw [hcount] at hsum
  have hthree := congrArg UInt32.toNat ((UInt32.add_right_inj _).mp hsum)
  rw [UInt32.toNat_ofNat', show (3 : UInt32).toNat = 3 from rfl] at hthree
  have htwo : ran ≤ 2 := hran
  omega

end Kernel

end PriorityScheduler
