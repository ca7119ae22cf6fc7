import PriorityScheduler.Proofs.Ghost
import PriorityScheduler.Proofs.Reachability

/-! # A refusal leaves no trace

    A call is refused before it has changed anything, and before the platform was
    told to make a switch.  Most calls change a kernel in several steps, each of
    which could be refused on its own; on a kernel that is intact none but the
    checks at the beginning is.

    Three things are put together.  A QUIET routine tells the platform to make no
    switch.  A FIRM one is never refused; that holds of all that switches.  A
    routine is CLEAN on a state when a refusal leaves that state and makes no
    switch: a quiet routine that obeys a step is, and so is one that goes on firmly
    once a clean part is done. -/

namespace PriorityScheduler

namespace Platform

/-- The switches that the platform was told to make, the first one first. -/
def switches (p : Platform) : List (Option Handle × Handle) :=
  p.effects.toList.filterMap fun
    | .switch outgoing incoming => some (outgoing, incoming)
    | _ => none

theorem switches_log (p : Platform) (r : Record) : (p.note (.log r)).switches = p.switches := by
  simp [switches, note]

theorem switches_mask (p : Platform) : p.mask.switches = p.switches := by
  simp [switches, mask, note]

theorem switches_restore (p : Platform) (saved : Bool) :
    (p.restore saved).switches = p.switches := by
  simp [switches, restore, note]

end Platform

namespace Routine

variable {σ γ α β : Type}

/-! ## Quiet routines -/

/-- Between two machines the platform is told to make no switch. -/
abbrev Unswitched (m n : Machine σ) : Prop :=
  n.platform.switches = m.platform.switches

theorem unswitched_refl (m : Machine σ) : Unswitched m m :=
  rfl

/-- The platform is told to make no switch, however the routine ends. -/
abbrev Quiet (r : Routine σ α) : Prop := Always Unswitched r

theorem quiet_pure (a : α) : Quiet (pure a : Routine σ α) :=
  fun _ => rfl

theorem quiet_read : Quiet (read : Routine σ σ) :=
  fun _ => rfl

theorem quiet_update (f : σ → σ) : Quiet (update f) :=
  fun _ => rfl

theorem quiet_refuse (cause : Refusal) : Quiet (refuse cause : Routine σ α) :=
  fun _ => rfl

theorem quiet_log (r : Record) : Quiet (log r : Routine σ Unit) :=
  fun m => m.platform.switches_log r

theorem quiet_look (f : σ → Except Failure α) : Quiet (look f) :=
  always_look unswitched_refl f

theorem quiet_apply (f : σ → Except Failure σ) : Quiet (apply f) :=
  always_apply unswitched_refl fun _ => rfl

theorem quiet_applyGet (f : σ → Except Failure (α × σ)) : Quiet (applyGet f) :=
  always_applyGet unswitched_refl fun _ => rfl

/-- Quiet routines in sequence are quiet. -/
theorem quiet_bind {r : Routine σ β} {f : β → Routine σ α} (h : Quiet r)
    (hf : ∀ b, Quiet (f b)) : Quiet (r >>= f) :=
  always_bind h hf fun first rest => rest.trans first

/-- A quiet part that is done first if a condition holds. -/
theorem quiet_first {c : Prop} [Decidable c] {r : Routine σ Unit} {f : Unit → Routine σ α}
    (h : Quiet r) (hf : ∀ u, Quiet (f u)) : Quiet (if c then r >>= f else f ()) :=
  always_ite (quiet_bind h hf) (hf ())

/-- Interrupts are held off without a switch. -/
theorem quiet_masked {body : Routine σ α} (h : Quiet body) : Quiet (masked body) := by
  refine always_masked ?_ h
  intro m n inside
  exact (n.platform.switches_restore _).trans (inside.trans m.platform.switches_mask)

theorem quiet_stop (what : Fault) : Quiet (stop what : Routine σ α) :=
  fun _ => rfl

/-! ## Firm routines -/

/-- The routine is never refused; it ends by a fault if it is not done. -/
def Firm (r : Routine σ α) : Prop :=
  ∀ s, Leads r s (fun _ _ => True) fun e _ => ∃ what, e = .fault what

theorem firm_pure (a : α) : Firm (pure a : Routine σ α) :=
  fun _ => leads_pure trivial

theorem firm_update (f : σ → σ) : Firm (update f) :=
  fun _ => leads_update trivial

theorem firm_switchTo (outgoing : Option Handle) (incoming : Handle) :
    Firm (switchTo outgoing incoming : Routine σ Unit) :=
  fun _ => leads_switchTo trivial

theorem firm_read : Firm (read : Routine σ σ) :=
  fun _ => leads_read trivial

/-- Firm routines in sequence are firm. -/
theorem firm_bind {r : Routine σ β} {f : β → Routine σ α} (h : Firm r) (hf : ∀ b, Firm (f b)) :
    Firm (r >>= f) :=
  fun s => leads_bind ((h s).mono (fun b s' _ => hf b s') fun _ _ => id)

theorem firm_ite {c : Prop} [Decidable c] {r r' : Routine σ α} (h : Firm r) (h' : Firm r') :
    Firm (if c then r else r') :=
  iteInduction (fun _ => h) fun _ => h'

/-- An attempt hands every refusal back as a value. -/
theorem firm_attempt (body : Routine σ α) : Firm (attempt body) := by
  refine fun s => leads_attempt (leads_any body (fun _ _ => trivial) ?_)
  rintro (cause | what) s'
  · trivial
  · exact ⟨what, rfl⟩

theorem firm_beside {r : Routine σ α} (h : Firm r) : Firm (beside r : Routine (σ × γ) α) :=
  fun x => leads_beside (h x.1)

/-! ## Clean refusals -/

/-- A refusal, on any platform, leaves the state as it was and makes no switch. -/
def Clean (r : Routine σ α) (s : σ) : Prop :=
  ∀ (p : Platform) (cause : Refusal) (m : Machine σ), r ⟨s, p⟩ = .error (.refused cause) m →
    m.state = s ∧ m.platform.switches = p.switches

theorem Firm.clean {r : Routine σ α} (firm : Firm r) (s : σ) : Clean r s := by
  intro p cause m refused
  obtain ⟨what, hwhat⟩ := (firm s).error refused
  cases hwhat

/-- What goes on firmly after a clean part is clean. -/
theorem clean_bind_firm {r : Routine σ β} {f : β → Routine σ α} {s : σ} (clean : Clean r s)
    (firm : ∀ b, Firm (f b)) : Clean (r >>= f) s := by
  intro p cause m refused
  rcases of_bind_error refused with hfirst | ⟨b, n, -, hrest⟩
  · exact clean p cause m hfirst
  · obtain ⟨what, hwhat⟩ := (firm b n.state).error hrest
    cases hwhat

/-- Looking something up changes nothing. -/
theorem clean_look {f : σ → Except Failure β} {g : β → Routine σ α} {s : σ}
    (clean : ∀ b, f s = .ok b → Clean (g b) s) : Clean (look f >>= g) s := by
  intro p cause m refused
  have hrefused : EStateM.bind (look f) g ⟨s, p⟩ = .error (.refused cause) m := refused
  simp only [EStateM.bind, look] at hrefused
  cases hf : f s with
  | ok b =>
      rw [hf] at hrefused
      exact clean b hf p cause m hrefused
  | error e =>
      rw [hf] at hrefused
      obtain ⟨-, rfl⟩ := EStateM.Result.error.inj hrefused
      exact ⟨rfl, rfl⟩

theorem clean_read {g : σ → Routine σ α} {s : σ} (clean : Clean (g s) s) :
    Clean (read >>= g) s :=
  fun p cause m refused => clean p cause m refused

theorem clean_ite {c : Prop} [Decidable c] {r r' : Routine σ α} {s : σ} (h : Clean r s)
    (h' : Clean r' s) : Clean (if c then r else r') s :=
  iteInduction (motive := fun r => Clean r s) (fun _ => h) fun _ => h'

/-- Beside a ghost, a refusal leaves the ghost as it was as well. -/
theorem Clean.beside {r : Routine σ α} {s : σ} (clean : Clean r s) (g : γ) :
    Clean (beside r) (s, g) := by
  intro p cause m refused
  simp only [Routine.beside, Machine.forget] at refused
  cases hr : r ⟨s, p⟩ with
  | ok a n =>
      rw [hr] at refused
      cases refused
  | error e n =>
      rw [hr] at refused
      obtain ⟨rfl, rfl⟩ := EStateM.Result.error.inj refused
      obtain ⟨hstate, hswitches⟩ := clean p cause n hr
      exact ⟨congrArg (·, g) hstate, hswitches⟩

/-- Looking something up beside a ghost changes nothing. -/
theorem clean_beside_look {f : σ → Except Failure β} {h : β → Routine (σ × γ) α} {s : σ} {g : γ}
    (clean : ∀ b, f s = .ok b → Clean (h b) (s, g)) :
    Clean (Routine.beside (look f) >>= h) (s, g) := by
  have hlook : (Routine.beside (look f) : Routine (σ × γ) β) = look fun x => f x.1 := by
    funext m
    simp only [Routine.beside, look, Machine.forget]
    cases f m.state.1 with
    | ok b => rfl
    | error e => rfl
  rw [hlook]
  exact clean_look clean

end Routine

open Routine

namespace Kernel

variable {k : Kernel}

/-! ## Routines that do not switch -/

theorem quiet_enroll (spec : TaskSpec) (flags : Flags) : Quiet (enroll spec flags) := by
  refine quiet_masked (quiet_bind (quiet_applyGet _) fun h => always_ite ?_ ?_)
  · exact quiet_bind (quiet_apply _) fun _ => quiet_bind (quiet_log _) fun _ => quiet_pure _
  · refine quiet_bind (quiet_apply _) fun _ => quiet_bind (quiet_update _) fun _ => ?_
    exact quiet_bind (quiet_log _) fun _ => quiet_pure _

theorem quiet_remove (h : Handle) : Quiet (remove h) := by
  refine quiet_masked (quiet_bind (quiet_look _) fun task => always_ite (quiet_refuse _) ?_)
  refine quiet_bind (quiet_look _) fun _ => quiet_bind (quiet_apply _) fun _ => ?_
  refine quiet_bind (quiet_applyGet _) fun task => quiet_bind (quiet_log _) fun _ => ?_
  refine quiet_bind quiet_read fun k => always_ite ?_ (quiet_pure _)
  exact quiet_bind (quiet_update _) fun _ => quiet_pure _

theorem quiet_shelve (h : Handle) : Quiet (shelve h) := by
  refine quiet_masked (quiet_bind (quiet_look _) fun task => always_ite (quiet_refuse _) ?_)
  refine always_ite (quiet_pure _) (quiet_bind (quiet_look _) fun _ => ?_)
  refine quiet_bind (quiet_apply _) fun _ => quiet_bind (quiet_apply _) fun _ => ?_
  exact quiet_bind (quiet_log _) fun _ => quiet_pure _

theorem quiet_resume (h : Handle) : Quiet (resume h) := by
  refine quiet_masked (quiet_bind (quiet_look _) fun task => always_ite ?_ (quiet_pure _))
  refine quiet_bind (quiet_apply _) fun _ => quiet_bind (quiet_apply _) fun _ => ?_
  refine quiet_bind (quiet_log _) fun _ => quiet_bind quiet_read fun k => ?_
  exact quiet_bind (quiet_update _) fun _ => quiet_pure _

theorem quiet_saveContext (h : Handle) (context : Nat) : Quiet (saveContext h context) :=
  quiet_apply _

theorem quiet_block (h : Handle) (ticks : Tick) : Quiet (block h ticks) := by
  refine quiet_masked (quiet_bind (quiet_look _) fun task => always_ite (quiet_refuse _) ?_)
  refine quiet_bind (quiet_look _) fun _ => always_ite (quiet_pure _) ?_
  refine quiet_bind (quiet_apply _) fun _ => quiet_bind (quiet_apply _) fun _ => always_ite ?_ ?_
  · refine quiet_bind (quiet_apply _) fun _ => quiet_bind (quiet_log _) fun _ => ?_
    exact quiet_update _
  · refine quiet_bind (quiet_apply _) fun _ => quiet_bind quiet_read fun k => ?_
    exact quiet_bind (quiet_log _) fun _ => quiet_update _

theorem quiet_endWait (h : Handle) (early : Bool) : Quiet (endWait h early) := by
  refine quiet_masked (quiet_bind (quiet_look _) fun task => always_ite ?_ (quiet_refuse _))
  refine quiet_bind (quiet_apply _) fun _ => quiet_bind (quiet_apply _) fun _ => ?_
  refine quiet_bind (quiet_apply _) fun _ => quiet_bind quiet_read fun k => ?_
  refine quiet_bind (quiet_update _) fun _ => quiet_bind (quiet_log _) fun _ => quiet_pure _

theorem quiet_reprioritise (h : Handle) (priority : Nat) : Quiet (reprioritise h priority) := by
  refine quiet_bind quiet_read fun k => always_ite (quiet_refuse _) (quiet_masked ?_)
  refine quiet_bind (quiet_look _) fun task => always_ite (quiet_pure _) ?_
  refine quiet_first (quiet_apply _) fun _ => quiet_bind (quiet_apply _) fun _ => ?_
  refine quiet_first (quiet_apply _) fun _ => quiet_bind (quiet_log _) fun _ => ?_
  exact quiet_bind quiet_read fun k => quiet_bind (quiet_update _) fun _ => quiet_pure _

theorem quiet_dispatchHighest : Quiet dispatchHighest := by
  refine quiet_bind (quiet_applyGet _) ?_
  rintro (_ | next)
  · exact quiet_refuse _
  · refine quiet_bind (quiet_apply _) fun _ => quiet_bind (quiet_update _) fun _ => ?_
    exact quiet_bind (quiet_log _) fun _ => quiet_pure _

/-- A choice is made without a switch, which is for its callers to make. -/
theorem quiet_choose : Quiet choose := by
  refine quiet_masked (quiet_bind quiet_read fun k => always_ite ?_ ?_)
  · refine quiet_bind (quiet_update _) fun _ => ?_
    cases k.runner with
    | none => exact quiet_dispatchHighest
    | some cur =>
        refine quiet_bind (quiet_look _) fun task => ?_
        cases k.ready.topLevel with
        | none => exact quiet_pure _
        | some top =>
            refine always_ite ?_ (always_ite ?_ (quiet_pure _))
            · exact quiet_bind (quiet_apply _) fun _ => quiet_dispatchHighest
            · exact quiet_bind (quiet_apply _) fun _ => quiet_dispatchHighest
  · refine quiet_bind (quiet_update _) fun _ => ?_
    cases k.runner with
    | none => exact quiet_refuse _
    | some cur => exact quiet_pure _

theorem quiet_planSwitch : Quiet planSwitch := by
  have hstill : ∀ cause, Quiet (standStill cause : Routine Kernel (Option (Option Handle × Handle))) :=
    fun cause => quiet_bind (quiet_log _) fun _ => quiet_stop _
  refine quiet_bind quiet_read fun k => quiet_bind (always_attempt quiet_choose) ?_
  rintro (cause | incoming)
  · cases cause with
    | schedulerFrozen => exact quiet_pure _
    | _ => exact hstill _
  · exact always_ite (quiet_pure _) (quiet_pure _)

/-! ## Routines that are never refused -/

theorem firm_standStill {α : Type} (cause : Refusal) : Firm (standStill cause : Routine Kernel α) :=
  fun _ => leads_bind (leads_log (leads_stop ⟨_, rfl⟩))

theorem firm_planSwitch : Firm planSwitch := by
  refine firm_bind firm_read fun k => firm_bind (firm_attempt _) ?_
  rintro (cause | incoming)
  · cases cause with
    | schedulerFrozen => exact firm_pure _
    | _ => exact firm_standStill _
  · exact firm_ite (firm_pure _) (firm_pure _)

theorem firm_switch : Firm switch := by
  refine firm_bind firm_planSwitch ?_
  rintro (_ | ⟨outgoing, incoming⟩)
  · exact firm_pure _
  · exact firm_bind (firm_switchTo _ _) fun _ => firm_pure _

theorem firm_cede : Firm cede :=
  firm_bind (firm_update _) fun _ => firm_switch

theorem firm_replaceRunner : Firm replaceRunner := by
  refine firm_bind firm_read fun k => firm_ite ?_ (firm_update _)
  exact firm_bind firm_switch fun _ => firm_pure _

/-! ## Calls -/

/-- A quiet routine that obeys a step is clean. -/
theorem Obeys.clean {α : Type} {r : Routine Kernel α} {out : Except Refusal (α × Outline)}
    (obeys : Obeys r k out) (quiet : Quiet r) : Clean r k := by
  intro p cause m refused
  obtain ⟨hsame, -⟩ := obeys.error refused
  have hquiet := quiet ⟨k, p⟩
  simp only [Ends] at hquiet
  rw [refused] at hquiet
  exact ⟨hsame, hquiet⟩

theorem Intact.clean_create (intact : k.Intact) (spec : TaskSpec) : Clean (create spec) k :=
  (intact.obeys_enroll spec {}).clean (quiet_enroll spec {})

theorem Intact.clean_delete (intact : k.Intact) (h : Handle) : Clean (delete h) k := by
  refine clean_bind_firm ((intact.obeys_remove h).clean (quiet_remove h)) fun was => ?_
  exact firm_ite firm_replaceRunner (firm_pure ())

theorem Intact.clean_suspend (intact : k.Intact) (h : Handle) : Clean (suspend h) k := by
  refine clean_bind_firm ((intact.obeys_shelve h).clean (quiet_shelve h)) fun was => ?_
  exact firm_ite firm_replaceRunner (firm_pure ())

theorem Intact.clean_block (intact : k.Intact) (h : Handle) (ticks : Tick) :
    Clean (block h ticks) k :=
  (intact.obeys_block h ticks).clean (quiet_block h ticks)

theorem Intact.clean_endWait (intact : k.Intact) (h : Handle) (early : Bool) :
    Clean (endWait h early) k :=
  (intact.obeys_endWait h early).clean (quiet_endWait h early)

theorem Intact.clean_pause (intact : k.Intact) (ticks : Tick) : Clean (pause ticks) k := by
  refine clean_look fun cur _ => clean_ite ?_ ?_
  · exact (firm_bind firm_cede fun _ => firm_pure ()).clean k
  · refine clean_bind_firm (intact.clean_block cur ticks) fun _ => ?_
    exact firm_bind firm_switch fun _ => firm_pure ()

theorem Intact.clean_pausePeriod (intact : k.Intact) (anchor period : Tick) :
    Clean (pausePeriod anchor period) k := by
  refine clean_look fun cur _ => clean_read (clean_ite ?_ ?_)
  · refine clean_bind_firm (intact.clean_block cur _) fun _ => ?_
    exact firm_bind firm_switch fun _ => firm_pure _
  · exact (firm_bind firm_cede fun _ => firm_pure _).clean k

theorem Intact.clean_reprioritise (intact : k.Intact) (h : Handle) (priority : Nat) :
    Clean (reprioritise h priority) k :=
  (intact.obeys_reprioritise h priority).clean (quiet_reprioritise h priority)

end Kernel

/-- Whether a call is refused only by the checks it begins with. -/
def Call.checksFirst : Call → Bool
  | .create _ => true
  | .delete _ => true
  | .suspend _ => true
  | .resume _ => true
  | .reprioritise _ _ => true
  | .saveContext _ _ => true
  | .block _ _ => true
  | .pause _ => true
  | .pausePeriod _ _ => true
  | .wake _ => true
  | .cutShort _ => true
  | _ => false

namespace Kernel

variable {k : Kernel}

/-- A call that checks first is clean on an intact kernel. -/
theorem Intact.clean_run (intact : k.Intact) {c : Call} (checks : c.checksFirst = true) :
    Clean c.run k := by
  cases c with
  | create spec => exact clean_bind_firm (intact.clean_create spec) fun _ => firm_pure _
  | delete h => exact clean_bind_firm (intact.clean_delete h) fun _ => firm_pure _
  | suspend h => exact clean_bind_firm (intact.clean_suspend h) fun _ => firm_pure _
  | resume h =>
      refine clean_bind_firm ?_ fun _ => firm_pure _
      exact (intact.obeys_resume h).clean (quiet_resume h)
  | reprioritise h p => exact clean_bind_firm (intact.clean_reprioritise h p) fun _ => firm_pure _
  | saveContext h context =>
      refine clean_bind_firm ?_ fun _ => firm_pure _
      exact (intact.obeys_saveContext h context).clean (quiet_saveContext h context)
  | block h ticks => exact clean_bind_firm (intact.clean_block h ticks) fun _ => firm_pure _
  | pause ticks => exact clean_bind_firm (intact.clean_pause ticks) fun _ => firm_pure _
  | pausePeriod anchor period =>
      exact clean_bind_firm (intact.clean_pausePeriod anchor period) fun _ => firm_pure _
  | wake h => exact clean_bind_firm (intact.clean_endWait h false) fun _ => firm_pure _
  | cutShort h => exact clean_bind_firm (intact.clean_endWait h true) fun _ => firm_pure _
  | _ => cases checks

/-! ## The caller's anchor -/

/-- Block the running task until the end of a `period` begun at the caller's
    anchor, which is kept beside the kernel and moves on by a period.  Answers
    whether that time still lay ahead. -/
def pauseInPlace (period : Tick) : Routine (Kernel × Tick) Bool := do
  let cur ← beside needRunner
  let (k, anchor) ← read
  let finish := anchor + period
  if periodAhead anchor period k.now then
    beside (block cur (finish - k.now))
    mark fun _ => finish
    let _ ← beside switch
    return true
  else
    mark fun _ => finish
    let _ ← beside cede
    return false

/-- To move the anchor in place is to keep the anchor that the pause answers. -/
theorem forget_pauseInPlace (period anchor : Tick) (m : Machine Kernel) :
    forgetEnd ((do
        let blocked ← pauseInPlace period
        return (blocked, (← read).2)) (m.withGhost anchor))
      = pausePeriod anchor period m := by
  simp only [pauseInPlace, bind_assoc]
  refine forget_beside_bind fun cur n => ?_
  show forgetEnd (((if periodAhead anchor period n.state.now = true then _ else _ :
    Routine (Kernel × Tick) Bool) >>= _) (n.withGhost anchor))
      = (if periodAhead anchor period n.state.now = true then _ else _ :
        Routine Kernel (Bool × Tick)) n
  -- on either branch the mark moves the anchor to the end that the pause answers
  by_cases hahead : periodAhead anchor period n.state.now = true
  · rw [if_pos hahead, if_pos hahead]
    simp only [bind_assoc]
    refine forget_beside_bind fun _ n' => ?_
    exact forget_beside_bind (g := anchor + period) (m := n') fun _ _ => rfl
  · rw [if_neg hahead, if_neg hahead]
    simp only [bind_assoc]
    exact forget_beside_bind (g := anchor + period) (m := n) fun _ _ => rfl

theorem Intact.clean_pauseInPlace (intact : k.Intact) (anchor period : Tick) :
    Clean (pauseInPlace period) (k, anchor) := by
  refine clean_beside_look fun cur _ => clean_read (clean_ite ?_ ?_)
  · refine clean_bind_firm ((intact.clean_block cur _).beside anchor) fun _ => ?_
    refine firm_bind (firm_update _) fun _ => ?_
    exact firm_bind (firm_beside firm_switch) fun _ => firm_pure _
  · refine (firm_bind (firm_update _) fun _ => ?_).clean (k, anchor)
    exact firm_bind (firm_beside firm_cede) fun _ => firm_pure _

/-! ## Every refusal -/

/-- A refusal leaves no trace.  Whatever a call that checks first is asked on a
    reachable kernel, if it is refused the kernel is as it was before, and the
    platform was told to make no switch; and the caller of a periodic pause keeps
    the anchor. -/
theorem refusal_leaves_no_trace (reachable : Reachable k) (p : Platform) (cause : Refusal) :
    (∀ (c : Call) (m : Machine Kernel), c.checksFirst = true →
        c.run ⟨k, p⟩ = .error (.refused cause) m →
        m.state = k ∧ m.platform.switches = p.switches)
      ∧ ∀ (anchor period : Tick) (m : Machine (Kernel × Tick)),
        pauseInPlace period ⟨(k, anchor), p⟩ = .error (.refused cause) m →
        m.state = (k, anchor) ∧ m.platform.switches = p.switches := by
  obtain ⟨hintact, -⟩ := reachable.intact
  constructor
  · intro c m checks refused
    exact hintact.clean_run checks p cause m refused
  · intro anchor period m refused
    exact hintact.clean_pauseInPlace anchor period p cause m refused

/-- While scheduling is suspended the running worker can neither be deleted nor wait
    for the end of a period begun at tick 3. -/
theorem refusal_leaves_no_trace_frozen :
    ∃ (k : Kernel) (m : Machine Kernel) (m' : Machine (Kernel × Tick)),
      Reachable k ∧ k.runner = some ⟨0, 0⟩
        ∧ (Call.delete ⟨0, 0⟩).run ⟨k, {}⟩ = .error (.refused .schedulerFrozen) m
        ∧ m.state = k ∧ m.platform.switches = []
        ∧ pauseInPlace 10 ⟨(k, 3), {}⟩ = .error (.refused .schedulerFrozen) m'
        ∧ m'.state = (k, 3) ∧ m'.platform.switches = [] := by
  have hvalid : ({} : Settings).Valid := by decide
  have hdone : isDone (do
      let _ ← perform [.create { name := "worker", priority := 1 }, .start 0, .elapse 3, .freezeAll]
      let k ← read
      if k.runner = some ⟨0, 0⟩
          ∧ (Call.delete ⟨0, 0⟩).run.refusal? ⟨k, {}⟩ = some .schedulerFrozen
          ∧ (pauseInPlace 10).refusal? ⟨(k, 3), {}⟩ = some .schedulerFrozen then
        pure ()
      else
        refuse .invalidState) ⟨initial {}, {}⟩ = true := by
    decide +kernel
  obtain ⟨⟨⟩, n, hrun⟩ := of_isDone hdone
  obtain ⟨rs, m₀, hstarted, hrun⟩ := of_bind_ok hrun
  obtain ⟨k, m₁, hread, hrun⟩ := of_bind_ok hrun
  obtain ⟨rfl, rfl⟩ := EStateM.Result.ok.inj hread
  obtain ⟨⟨hrunner, hdelete, hpause⟩, -⟩ := of_unless_ok hrun
  obtain ⟨m, hdelete⟩ := of_refusal? hdelete
  obtain ⟨m', hpause⟩ := of_refusal? hpause
  have hinitial : Reachable (⟨initial {}, {}⟩ : Machine Kernel).state := .initial hvalid
  have hreachable : Reachable m₀.state := hinitial.perform hstarted
  obtain ⟨hcall, hanchor⟩ := refusal_leaves_no_trace hreachable {} .schedulerFrozen
  obtain ⟨hstate, hswitches⟩ := hcall _ m rfl hdelete
  obtain ⟨hstate', hswitches'⟩ := hanchor 3 10 m' hpause
  exact ⟨m₀.state, m, m', hreachable, hrunner, hdelete, hstate, hswitches, hpause, hstate',
    hswitches'⟩

end Kernel

end PriorityScheduler
