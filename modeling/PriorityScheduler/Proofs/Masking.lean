import PriorityScheduler.Proofs.Routines
import PriorityScheduler.SharedKernel.Call

/-! # Masks and switches

    A routine that holds off interrupts has to go back to what the platform answered,
    on every way out of it; and it must not have the platform swap tasks in between,
    for the task that comes in would go on with interrupts held off.

    Effects are BRACKETED when each mask has its restore, with the answer of that mask,
    and what lies between the two is bracketed again and holds no switch.  A routine EMITS
    effects of a kind when those that it adds to the platform, however it ends, are of that
    kind, and interrupts come through afterwards as they did before.

    Every operation emits bracketed effects: each piece of a routine does, and a kind of
    effects that JOINS, one after the other, is emitted by a sequence if both of its parts
    emit it.  What only reads and changes the state emits records at most, so that its
    effects are of every such kind; ticks are of that sort. -/

namespace PriorityScheduler

/-! ## Kinds of effects -/

/-- Masks and restores are nested pairs, and no switch lies within a pair.  The flag says
    whether all of the effects lie within one. -/
inductive Bracketed : Bool → List Effect → Prop where
  | nil {held : Bool} : Bracketed held []
  | log {held : Bool} (record : Record) {rest : List Effect} (after : Bracketed held rest) :
      Bracketed held (.log record :: rest)
  | switch (outgoing : Option Handle) (incoming : Handle) {rest : List Effect}
      (after : Bracketed false rest) : Bracketed false (.switch outgoing incoming :: rest)
  | pair {held : Bool} (answer : Bool) {inside rest : List Effect}
      (within : Bracketed true inside) (after : Bracketed held rest) :
      Bracketed held (.mask answer :: (inside ++ .restore answer :: rest))

/-- Records and nothing else. -/
def Logs (effects : List Effect) : Prop :=
  ∀ e ∈ effects, ∃ record, e = .log record

/-- A kind of effects that admits records, and two lists of effects one after the other. -/
structure Joins (P : List Effect → Prop) : Prop where
  nil : P []
  log : ∀ record, P [.log record]
  append : ∀ {l l' : List Effect}, P l → P l' → P (l ++ l')

theorem joins_logs : Joins Logs where
  nil := fun _ hmem => absurd hmem List.not_mem_nil
  log := fun record _ hmem => ⟨record, List.mem_singleton.mp hmem⟩
  append := fun h h' e hmem => (List.mem_append.mp hmem).elim (h e) (h' e)

/-- What is bracketed may follow what is bracketed. -/
theorem Bracketed.append {held : Bool} {l l' : List Effect} (h : Bracketed held l)
    (h' : Bracketed held l') : Bracketed held (l ++ l') := by
  induction h with
  | nil => exact h'
  | log record _ ih => exact .log record (ih h')
  | switch outgoing incoming _ ih => exact .switch outgoing incoming (ih h')
  | pair answer within _ _ ih =>
      rw [List.cons_append, List.append_assoc, List.cons_append]
      exact .pair answer within (ih h')

theorem joins_bracketed (held : Bool) : Joins (Bracketed held) where
  nil := .nil
  log := fun record => .log record .nil
  append := Bracketed.append

/-! ### What brackets rule out -/

/-- Within a pair there is no switch. -/
theorem Bracketed.no_switch {l : List Effect} (h : Bracketed true l) (outgoing : Option Handle)
    (incoming : Handle) : .switch outgoing incoming ∉ l := by
  generalize hheld : true = held at h
  induction h with
  | nil => exact List.not_mem_nil
  | log record _ ih => simpa using ih hheld
  | switch _ _ _ _ => cases hheld
  | pair answer _ _ ihWithin ihAfter => simpa using ⟨ihWithin rfl, ihAfter hheld⟩

/-- A switch lies outside all pairs: what comes before it is bracketed, and so is what
    comes after it. -/
theorem Bracketed.around_switch {before after : List Effect} {outgoing : Option Handle}
    {incoming : Handle} (h : Bracketed false (before ++ .switch outgoing incoming :: after)) :
    Bracketed false before ∧ Bracketed false after := by
  generalize hheld : false = held at h
  generalize hl : before ++ .switch outgoing incoming :: after = l at h
  induction h generalizing before with
  | nil => exact absurd hl (by simp)
  | log record _ ih =>
      cases before with
      | nil => cases hl
      | cons e before =>
          obtain ⟨rfl, htail⟩ := List.cons.inj hl
          exact (ih hheld htail).imp_left (.log record)
  | switch outgoing' incoming' hrest ih =>
      cases before with
      | nil =>
          obtain ⟨-, rfl⟩ := List.cons.inj hl
          exact ⟨.nil, hrest⟩
      | cons e before =>
          obtain ⟨rfl, htail⟩ := List.cons.inj hl
          exact (ih hheld htail).imp_left (.switch outgoing' incoming')
  | pair answer within hrest _ ih =>
      cases before with
      | nil => cases hl
      | cons e before =>
          obtain ⟨rfl, htail⟩ := List.cons.inj hl
          -- the switch is not in the pair, so it comes after the restore
          rcases List.append_eq_append_iff.mp htail with ⟨gap, hinside, hgap⟩ | ⟨gap, hbefore, hgap⟩
          · cases gap with
            | nil => cases hgap
            | cons e gap =>
                obtain ⟨rfl, -⟩ := List.cons.inj hgap
                refine absurd ?_ (within.no_switch outgoing incoming)
                rw [hinside]
                exact List.mem_append_right _ List.mem_cons_self
          · cases gap with
            | nil => cases hgap
            | cons e gap =>
                obtain ⟨rfl, hrest⟩ := List.cons.inj hgap
                rw [hbefore]
                exact (ih hheld hrest.symm).imp_left (.pair answer within)

/-! ## Emission -/

/-- Between two platforms effects of a kind are added, and interrupts come through at the
    end as they did at the beginning. -/
def Platform.Adds (P : List Effect → Prop) (p q : Platform) : Prop :=
  q.canMask = p.canMask ∧ q.interruptsOn = p.interruptsOn
    ∧ ∃ added, P added ∧ q.effects.toList = p.effects.toList ++ added

namespace Platform

variable {P : List Effect → Prop} {p q : Platform}

theorem adds_nothing (joins : Joins P) (p : Platform) : p.Adds P p :=
  ⟨rfl, rfl, [], joins.nil, (List.append_nil _).symm⟩

theorem adds_note {e : Effect} (p : Platform) (one : P [e]) : p.Adds P (p.note e) :=
  ⟨rfl, rfl, [e], one, Array.toList_push⟩

theorem Adds.trans {r : Platform} (joins : Joins P) (h : p.Adds P q) (h' : q.Adds P r) :
    p.Adds P r := by
  obtain ⟨hcan, hon, added, hadded, heffects⟩ := h
  obtain ⟨hcan', hon', added', hadded', heffects'⟩ := h'
  refine ⟨hcan'.trans hcan, hon'.trans hon, added ++ added', joins.append hadded hadded', ?_⟩
  rw [heffects', heffects, List.append_assoc]

/-- A mask and its restore are a pair around what is added meanwhile. -/
theorem Adds.restored {held : Bool} (h : p.mask.Adds (Bracketed true) q) :
    p.Adds (Bracketed held) (q.restore p.maskAnswer) := by
  obtain ⟨hcan, hon, added, hadded, heffects⟩ := h
  have hcan : q.canMask = p.canMask := hcan
  refine ⟨hcan, ?_, _, .pair p.maskAnswer hadded .nil, ?_⟩
  · show (if q.canMask then p.maskAnswer else q.interruptsOn) = p.interruptsOn
    rw [hcan, hon]
    exact p.interruptsOn_restore_mask
  · have hrestored : (q.restore p.maskAnswer).effects.toList
        = q.effects.toList ++ [.restore p.maskAnswer] := Array.toList_push
    have hmasked : p.mask.effects.toList = p.effects.toList ++ [.mask p.maskAnswer] :=
      Array.toList_push
    rw [hrestored, heffects, hmasked]
    simp only [List.append_assoc, List.cons_append, List.nil_append]

end Platform

namespace Routine

variable {σ α β : Type}

/-- However the routine ends, it has added effects of a kind. -/
abbrev Emits (P : List Effect → Prop) (r : Routine σ α) : Prop :=
  Always (fun m n => m.platform.Adds P n.platform) r

/-- A masked routine is a pair around what its body emits. -/
theorem emits_masked {held : Bool} {body : Routine σ α} (h : Emits (Bracketed true) body) :
    Emits (Bracketed held) (masked body) :=
  always_masked Platform.Adds.restored h

/-- A switch may be made outside all pairs. -/
theorem emits_switchTo (outgoing : Option Handle) (incoming : Handle) :
    Emits (Bracketed false) (switchTo outgoing incoming : Routine σ Unit) :=
  fun m => m.platform.adds_note (.switch outgoing incoming .nil)

end Routine

open Routine

namespace Joins

variable {σ α β : Type} {P : List Effect → Prop} (joins : Joins P)
include joins

theorem pure (a : α) : Emits P (Pure.pure a : Routine σ α) :=
  fun m => m.platform.adds_nothing joins

theorem read : Emits P (Routine.read : Routine σ σ) :=
  fun m => m.platform.adds_nothing joins

theorem refuse (cause : Refusal) : Emits P (Routine.refuse cause : Routine σ α) :=
  fun m => m.platform.adds_nothing joins

theorem stop (what : Fault) : Emits P (Routine.stop what : Routine σ α) :=
  fun m => m.platform.adds_nothing joins

theorem update (f : σ → σ) : Emits P (Routine.update f) :=
  fun m => m.platform.adds_nothing joins

theorem look (f : σ → Except Failure α) : Emits P (Routine.look f) :=
  always_look (fun m => m.platform.adds_nothing joins) f

theorem apply (f : σ → Except Failure σ) : Emits P (Routine.apply f) :=
  always_apply (fun m => m.platform.adds_nothing joins) fun _ => Platform.adds_nothing joins _

theorem applyGet (f : σ → Except Failure (α × σ)) : Emits P (Routine.applyGet f) :=
  always_applyGet (fun m => m.platform.adds_nothing joins) fun _ => Platform.adds_nothing joins _

theorem record (r : Record) : Emits P (Routine.log r : Routine σ Unit) :=
  fun m => m.platform.adds_note (joins.log r)

/-- A sequence emits what both of its parts do. -/
theorem bind {r : Routine σ β} {f : β → Routine σ α} (h : Emits P r) (hf : ∀ b, Emits P (f b)) :
    Emits P (r >>= f) :=
  always_bind h hf (Platform.Adds.trans joins)

/-- Telling the answer of a routine has no effect. -/
theorem answer {r : Routine σ β} (h : Emits P r) (f : β → α) :
    Emits P (r >>= fun b => Pure.pure (f b)) :=
  joins.bind h fun b => joins.pure (f b)

/-- A part that is done first if a condition holds. -/
theorem first {c : Prop} [Decidable c] {r : Routine σ Unit} {f : Unit → Routine σ α}
    (h : Emits P r) (hf : ∀ u, Emits P (f u)) : Emits P (if c then r >>= f else f ()) :=
  always_ite (joins.bind h hf) (hf ())

/-! ## Routines without masks and switches -/

open Kernel

theorem dispatchHighest : Emits P Kernel.dispatchHighest := by
  refine joins.bind (joins.applyGet _) ?_
  rintro (_ | next)
  · exact joins.refuse _
  · refine joins.bind (joins.apply _) fun _ => joins.bind (joins.update _) fun _ => ?_
    exact joins.answer (joins.record _) _

theorem wakeDue (h : Handle) : Emits P (Kernel.wakeDue h) := by
  refine joins.bind (joins.update _) fun _ => joins.bind (always_attempt (joins.apply _)) ?_
  rintro (cause | ⟨⟩)
  · exact joins.bind joins.read fun k => joins.record _
  · exact joins.pure ()

theorem wakeAllDue (due : List Handle) : Emits P (Kernel.wakeAllDue due) := by
  induction due with
  | nil => exact joins.pure ()
  | cons h rest ih => exact joins.bind (joins.wakeDue h) fun _ => ih

theorem wrapClock : Emits P Kernel.wrapClock :=
  joins.bind (joins.apply _) fun _ => joins.bind (joins.update _) fun _ => joins.record _

/-- A tick adds records at most. -/
theorem tick : Emits P Kernel.tick := by
  refine joins.bind (joins.update _) fun _ => joins.bind (joins.update _) fun _ => ?_
  refine joins.bind joins.read fun k => joins.first joins.wrapClock fun _ => ?_
  refine joins.bind (joins.applyGet _) fun due => joins.bind (joins.wakeAllDue due) fun _ => ?_
  refine always_ite (joins.bind joins.read fun k => ?_) (joins.applyGet _)
  exact joins.bind (joins.record _) fun _ => joins.applyGet _

theorem elapseFrom (asked : Bool) (n : Nat) : Emits P (Kernel.elapseFrom asked n) := by
  induction n generalizing asked with
  | zero => exact joins.pure asked
  | succ n ih => exact joins.bind joins.tick fun now => ih (asked || now)

theorem elapse (ticks : Tick) : Emits P (Kernel.elapse ticks) :=
  joins.elapseFrom false ticks.toNat

theorem freezeAll : Emits P Kernel.freezeAll :=
  joins.bind (joins.update _) fun _ => joins.bind joins.read fun _ => joins.record _

theorem callIn (running : Option Nat) (wanted : Bool) (l : List Handle) :
    Emits P (Kernel.callIn running wanted l) := by
  induction l generalizing wanted with
  | nil => exact joins.pure wanted
  | cons h rest ih =>
      refine joins.bind (always_attempt (joins.apply _)) ?_
      rintro (cause | ⟨⟩)
      · exact joins.bind (joins.record _) fun _ => ih wanted
      · exact joins.bind joins.read fun k => ih _

theorem checkWait (since : Moment) (remaining : Tick) :
    Emits P (Kernel.checkWait since remaining) :=
  joins.bind (joins.applyGet _) fun _ =>
    always_ite (joins.pure _) (joins.bind joins.read fun _ => joins.pure _)

end Joins

/-! ## Routines that hold off interrupts -/

namespace Kernel

section Masked

variable {held : Bool}

theorem brackets_enroll (spec : TaskSpec) (flags : Flags) :
    Emits (Bracketed held) (enroll spec flags) := by
  have inside := joins_bracketed true
  refine emits_masked (inside.bind (inside.applyGet _) fun h => always_ite ?_ ?_)
  · exact inside.bind (inside.apply _) fun _ => inside.answer (inside.record _) _
  · refine inside.bind (inside.apply _) fun _ => inside.bind (inside.update _) fun _ => ?_
    exact inside.answer (inside.record _) _

theorem brackets_remove (h : Handle) : Emits (Bracketed held) (remove h) := by
  have inside := joins_bracketed true
  refine emits_masked (inside.bind (inside.look _) fun task => always_ite (inside.refuse _) ?_)
  refine inside.bind (inside.look _) fun _ => inside.bind (inside.apply _) fun _ => ?_
  refine inside.bind (inside.applyGet _) fun task => inside.bind (inside.record _) fun _ => ?_
  exact inside.bind inside.read fun k =>
    always_ite (inside.answer (inside.update _) _) (inside.pure _)

theorem brackets_shelve (h : Handle) : Emits (Bracketed held) (shelve h) := by
  have inside := joins_bracketed true
  refine emits_masked (inside.bind (inside.look _) fun task => always_ite (inside.refuse _) ?_)
  refine always_ite (inside.pure _) (inside.bind (inside.look _) fun _ => ?_)
  refine inside.bind (inside.apply _) fun _ => inside.bind (inside.apply _) fun _ => ?_
  exact inside.answer (inside.record _) _

theorem brackets_resume (h : Handle) : Emits (Bracketed held) (resume h) := by
  have inside := joins_bracketed true
  refine emits_masked (inside.bind (inside.look _) fun task => always_ite ?_ (inside.pure _))
  refine inside.bind (inside.apply _) fun _ => inside.bind (inside.apply _) fun _ => ?_
  refine inside.bind (inside.record _) fun _ => inside.bind inside.read fun k => ?_
  exact inside.answer (inside.update _) _

theorem brackets_reprioritise (h : Handle) (priority : Nat) :
    Emits (Bracketed held) (reprioritise h priority) := by
  have inside := joins_bracketed true
  have around := joins_bracketed held
  refine around.bind around.read fun k => always_ite (around.refuse _) (emits_masked ?_)
  refine inside.bind (inside.look _) fun task => always_ite (inside.pure _) ?_
  refine inside.first (inside.apply _) fun _ => inside.bind (inside.apply _) fun _ => ?_
  refine inside.first (inside.apply _) fun _ => inside.bind (inside.record _) fun _ => ?_
  exact inside.bind inside.read fun k => inside.answer (inside.update _) _

theorem brackets_block (h : Handle) (ticks : Tick) : Emits (Bracketed held) (block h ticks) := by
  have inside := joins_bracketed true
  refine emits_masked (inside.bind (inside.look _) fun task => always_ite (inside.refuse _) ?_)
  refine inside.bind (inside.look _) fun _ => always_ite (inside.pure _) ?_
  refine inside.bind (inside.apply _) fun _ => inside.bind (inside.apply _) fun _ => ?_
  refine always_ite ?_ ?_
  · refine inside.bind (inside.apply _) fun _ => ?_
    exact inside.bind (inside.record _) fun _ => inside.update _
  · refine inside.bind (inside.apply _) fun _ => inside.bind inside.read fun k => ?_
    exact inside.bind (inside.record _) fun _ => inside.update _

theorem brackets_endWait (h : Handle) (early : Bool) :
    Emits (Bracketed held) (endWait h early) := by
  have inside := joins_bracketed true
  refine emits_masked (inside.bind (inside.look _) fun task => always_ite ?_ (inside.refuse _))
  refine inside.bind (inside.apply _) fun _ => inside.bind (inside.apply _) fun _ => ?_
  refine inside.bind (inside.apply _) fun _ => inside.bind inside.read fun k => ?_
  exact inside.bind (inside.update _) fun _ => inside.answer (inside.record _) _

theorem brackets_thawAll : Emits (Bracketed held) thawAll := by
  have inside := joins_bracketed true
  refine emits_masked (inside.bind (always_attempt (inside.apply _)) ?_)
  rintro (cause | ⟨⟩)
  · exact inside.answer (inside.record _) _
  · refine inside.bind inside.read fun k => always_ite ?_ (inside.pure _)
    refine inside.bind (inside.applyGet _) fun taken => ?_
    refine inside.bind (inside.callIn _ _ taken) fun wanted => ?_
    exact inside.bind (inside.record _) fun _ => inside.answer (inside.update _) _

theorem brackets_choose : Emits (Bracketed held) choose := by
  have inside := joins_bracketed true
  refine emits_masked (inside.bind inside.read fun k => always_ite ?_ ?_)
  · refine inside.bind (inside.update _) fun _ => ?_
    cases k.runner with
    | none => exact inside.dispatchHighest
    | some cur =>
        refine inside.bind (inside.look _) fun task => ?_
        cases k.ready.topLevel with
        | none => exact inside.pure cur
        | some top =>
            refine always_ite ?_ (always_ite ?_ (inside.pure cur))
            · exact inside.bind (inside.apply _) fun _ => inside.dispatchHighest
            · exact inside.bind (inside.apply _) fun _ => inside.dispatchHighest
  · refine inside.bind (inside.update _) fun _ => ?_
    cases k.runner with
    | none => exact inside.refuse _
    | some cur => exact inside.pure cur

theorem brackets_planSwitch : Emits (Bracketed held) planSwitch := by
  have around := joins_bracketed held
  refine around.bind around.read fun k => around.bind (always_attempt brackets_choose) ?_
  rintro (cause | incoming)
  · cases cause with
    | schedulerFrozen => exact around.pure none
    | _ => exact around.bind (around.record _) fun _ => around.stop _
  · exact always_ite (around.pure none) (around.pure _)

end Masked

/-! ## Routines that make a switch -/

theorem brackets_switch : Emits (Bracketed false) switch := by
  have outside := joins_bracketed false
  refine outside.bind brackets_planSwitch ?_
  rintro (_ | ⟨outgoing, incoming⟩)
  · exact outside.pure none
  · exact outside.answer (emits_switchTo outgoing incoming) _

theorem brackets_cede : Emits (Bracketed false) cede :=
  (joins_bracketed false).bind ((joins_bracketed false).update _) fun _ => brackets_switch

theorem brackets_replaceRunner : Emits (Bracketed false) replaceRunner := by
  have outside := joins_bracketed false
  refine outside.bind outside.read fun k => always_ite ?_ (outside.update _)
  exact outside.answer brackets_switch _

theorem brackets_start (entry : Nat) : Emits (Bracketed false) (start entry) := by
  have outside := joins_bracketed false
  refine outside.bind outside.read fun k => always_ite (outside.refuse _) ?_
  refine outside.bind (brackets_enroll _ _) fun idle => outside.bind (outside.update _) fun _ => ?_
  refine outside.bind outside.read fun k => outside.bind (outside.record _) fun _ => ?_
  exact outside.bind brackets_choose fun first => outside.answer (emits_switchTo none first) _

theorem brackets_delete (h : Handle) : Emits (Bracketed false) (delete h) :=
  (joins_bracketed false).bind (brackets_remove h) fun _ =>
    always_ite brackets_replaceRunner ((joins_bracketed false).pure _)

theorem brackets_suspend (h : Handle) : Emits (Bracketed false) (suspend h) :=
  (joins_bracketed false).bind (brackets_shelve h) fun _ =>
    always_ite brackets_replaceRunner ((joins_bracketed false).pure _)

theorem brackets_pause (ticks : Tick) : Emits (Bracketed false) (pause ticks) := by
  have outside := joins_bracketed false
  refine outside.bind (outside.look _) fun cur => always_ite (outside.answer brackets_cede _) ?_
  exact outside.bind (brackets_block cur ticks) fun _ => outside.answer brackets_switch _

theorem brackets_pausePeriod (anchor period : Tick) :
    Emits (Bracketed false) (pausePeriod anchor period) := by
  have outside := joins_bracketed false
  refine outside.bind (outside.look _) fun cur => outside.bind outside.read fun k => ?_
  refine always_ite ?_ (outside.answer brackets_cede _)
  exact outside.bind (brackets_block cur _) fun _ => outside.answer brackets_switch _

/-! ## Calls -/

/-- The effects of every call are bracketed. -/
theorem brackets_call (c : Call) : Emits (Bracketed false) c.run := by
  have outside := joins_bracketed false
  cases c with
  | create spec => exact outside.answer (brackets_enroll spec {}) _
  | start entry => exact outside.answer (brackets_start entry) _
  | delete h => exact outside.answer (brackets_delete h) _
  | suspend h => exact outside.answer (brackets_suspend h) _
  | resume h => exact outside.answer (brackets_resume h) _
  | reprioritise h priority => exact outside.answer (brackets_reprioritise h priority) _
  | saveContext h context => exact outside.answer (outside.apply _) _
  | block h ticks => exact outside.answer (brackets_block h ticks) _
  | pause ticks => exact outside.answer (brackets_pause ticks) _
  | pausePeriod anchor period => exact outside.answer (brackets_pausePeriod anchor period) _
  | wake h => exact outside.answer (brackets_endWait h false) _
  | cutShort h => exact outside.answer (brackets_endWait h true) _
  | tick => exact outside.answer outside.tick _
  | elapse ticks => exact outside.answer (outside.elapse ticks) _
  | freezeAll => exact outside.answer outside.freezeAll _
  | thawAll => exact outside.answer brackets_thawAll _
  | choose => exact outside.answer brackets_choose _
  | planSwitch => exact outside.answer brackets_planSwitch _
  | switch => exact outside.answer brackets_switch _
  | cede => exact outside.answer brackets_cede _
  | checkWait since remaining => exact outside.answer (outside.checkWait since remaining) _

/-- So are those of every history of calls, also of one that a fault ends. -/
theorem brackets_perform (calls : List Call) : Emits (Bracketed false) (perform calls) := by
  have outside := joins_bracketed false
  induction calls with
  | nil => exact outside.pure []
  | cons c rest ih =>
      exact outside.bind (always_attempt (brackets_call c)) fun r => outside.answer ih _

end Kernel

/-! ## Shared kernels -/

namespace SharedKernel

section Locks

variable {P : List Effect → Prop} (joins : Joins P)
include joins

theorem emits_onKernel {α : Type} {body : Routine Kernel α} (h : Emits P body) :
    Emits P (onKernel body) := by
  intro m
  simp only [Ends, onKernel]
  cases m.state.kernel with
  | none => exact m.platform.adds_nothing joins
  | some k =>
      simp only
      cases hb : body ⟨k, m.platform⟩ with
      | ok a n => exact h.ok hb
      | error e n => exact h.error hb

theorem emits_tryLock : Emits P tryLock :=
  joins.bind joins.read fun _ => always_ite (joins.pure _) (joins.answer (joins.update _) _)

theorem emits_lock : Emits P lock :=
  joins.bind (emits_tryLock joins) fun _ => always_ite (joins.pure _) (joins.stop _)

theorem emits_unlock : Emits P unlock :=
  joins.update _

theorem emits_takeMissed : Emits P takeMissed :=
  joins.bind joins.read fun _ => joins.answer (joins.update _) _

theorem emits_applyMissed : Emits P applyMissed := by
  refine joins.bind (emits_takeMissed joins) fun missed => always_ite (joins.pure _) ?_
  refine joins.answer (emits_onKernel joins ?_) _
  exact joins.bind (joins.elapse missed) fun _ => always_ite (joins.update _) (joins.pure _)

theorem emits_passTick : Emits P passTick := by
  refine joins.bind joins.read fun _ => always_ite (joins.pure _) ?_
  refine joins.bind (emits_takeMissed joins) fun missed => emits_onKernel joins ?_
  exact joins.bind (joins.elapse missed) fun _ => joins.answer joins.tick _

/-- The timer interrupt that only ticks adds records at most. -/
theorem emits_interrupt : Emits P interrupt := by
  refine joins.bind (emits_tryLock joins) fun _ => always_ite ?_ ?_
  · refine joins.bind (emits_passTick joins) fun _ => ?_
    exact joins.answer (emits_unlock joins) _
  · exact joins.answer (joins.update _) _

theorem emits_putIn (k : Kernel) : Emits P (putIn k) := by
  refine joins.bind (emits_lock joins) fun _ => joins.bind joins.read fun _ => ?_
  exact joins.bind (joins.update _) fun _ => joins.answer (emits_unlock joins) _

theorem emits_takeOut : Emits P takeOut := by
  refine joins.bind (emits_lock joins) fun _ => joins.bind joins.read fun _ => ?_
  exact joins.bind (joins.update _) fun _ => joins.answer (emits_unlock joins) _

theorem emits_withKernel {α : Type} {body : Routine SharedKernel α} (h : Emits P body) :
    Emits P (withKernel body) := by
  have henter : Emits P enter := by
    refine joins.bind (emits_lock joins) fun _ => joins.bind joins.read fun _ => ?_
    exact always_ite (joins.pure _) (joins.answer (emits_unlock joins) _)
  have hleave : Emits P leave :=
    joins.bind (emits_applyMissed joins) fun _ => emits_unlock joins
  refine joins.bind henter fun _ => always_ite ?_ (joins.pure _)
  exact joins.bind h fun _ => joins.answer hleave _

theorem emits_tryWithKernel {α : Type} {body : Routine SharedKernel α} (h : Emits P body) :
    Emits P (tryWithKernel body) := by
  have henter : Emits P tryEnter := by
    refine joins.bind (emits_tryLock joins) fun _ => always_ite ?_ (joins.pure _)
    refine joins.bind joins.read fun _ => ?_
    exact always_ite (joins.pure _) (joins.answer (emits_unlock joins) _)
  refine joins.bind henter fun _ => always_ite ?_ (joins.pure _)
  exact joins.bind h fun _ => joins.answer (emits_unlock joins) _

end Locks

theorem brackets_makeSwitch (switch : Option (Option Handle × Handle)) :
    Emits (Bracketed false) (makeSwitch switch) := by
  rcases switch with _ | ⟨outgoing, incoming⟩
  · exact (joins_bracketed false).pure ()
  · exact emits_switchTo outgoing incoming

theorem brackets_interruptAndSwitch : Emits (Bracketed false) interruptAndSwitch := by
  have outside := joins_bracketed false
  refine outside.bind (emits_tryLock outside) fun _ => always_ite ?_ ?_
  · refine outside.bind (emits_passTick outside) fun _ => always_ite ?_ ?_
    · refine outside.bind (emits_onKernel outside Kernel.brackets_planSwitch) fun switch => ?_
      refine outside.bind (emits_unlock outside) fun _ => ?_
      exact outside.answer (brackets_makeSwitch _) _
    · exact outside.answer (emits_unlock outside) _
  · exact outside.answer (outside.update _) _

theorem brackets_switchNow : Emits (Bracketed false) switchNow := by
  have outside := joins_bracketed false
  refine outside.bind (emits_lock outside) fun _ => outside.bind outside.read fun _ => ?_
  refine always_ite ?_ (outside.answer (emits_unlock outside) _)
  refine outside.bind (emits_applyMissed outside) fun _ => ?_
  refine outside.bind (emits_onKernel outside Kernel.brackets_planSwitch) fun switch => ?_
  refine outside.bind (emits_unlock outside) fun _ => ?_
  exact outside.answer (brackets_makeSwitch _) _

mutual

/-- Inner calls are run whether or not they find the lock taken. -/
theorem brackets_inner : (c : InnerCall) → Emits (Bracketed false) c.run
  | .kernel c =>
      (joins_bracketed false).answer
        (emits_onKernel (joins_bracketed false) (always_attempt (Kernel.brackets_call c))) _
  | .interrupt => (joins_bracketed false).answer (emits_interrupt (joins_bracketed false)) _
  | .interruptAndSwitch => (joins_bracketed false).answer brackets_interruptAndSwitch _
  | .tryWith body =>
      (joins_bracketed false).answer
        (emits_tryWithKernel (joins_bracketed false) (brackets_innerAll body)) _

theorem brackets_innerAll :
    (body : List InnerCall) → Emits (Bracketed false) (InnerCall.runAll body)
  | [] => (joins_bracketed false).pure ()
  | c :: rest => (joins_bracketed false).bind (brackets_inner c) fun _ => brackets_innerAll rest

end

/-- The effects of every operation on a shared kernel are bracketed. -/
theorem brackets_call (c : SharedCall) : Emits (Bracketed false) c.run := by
  have outside := joins_bracketed false
  cases c with
  | putIn k => exact outside.answer (emits_putIn outside k) _
  | takeOut => exact outside.answer (emits_takeOut outside) _
  | withKernel body => exact outside.answer (emits_withKernel outside (brackets_innerAll body)) _
  | tryWithKernel body =>
      exact outside.answer (emits_tryWithKernel outside (brackets_innerAll body)) _
  | interrupt => exact outside.answer (emits_interrupt outside) _
  | interruptAndSwitch => exact outside.answer brackets_interruptAndSwitch _
  | switchNow => exact outside.answer brackets_switchNow _

theorem brackets_perform (calls : List SharedCall) :
    Emits (Bracketed false) (SharedKernel.perform calls) := by
  have outside := joins_bracketed false
  induction calls with
  | nil => exact outside.pure []
  | cons c rest ih => exact outside.bind (brackets_call c) fun r => outside.answer ih _

end SharedKernel

/-! ## Interrupts and switches -/

/-- Interrupts are never held off across a switch, nor after a call.  Whatever the state and
    the platform, whatever the arguments, and whether the call is done, is refused or meets
    a fault: the masks and restores that it adds are nested pairs, each restore with the
    answer of its own mask; every pair is closed when the call ends; no switch lies within
    one; and interrupts come through afterwards as they did before.  The same holds of the
    operations on a shared kernel, of those that make a switch among them.  A tick, and any
    number of ticks, adds nothing but records. -/
theorem interrupts_restored :
    (∀ c : Call, Emits (Bracketed false) c.run)
      ∧ (∀ c : SharedCall, Emits (Bracketed false) c.run)
      ∧ Emits Logs Kernel.tick ∧ ∀ ticks : Tick, Emits Logs (Kernel.elapse ticks) :=
  ⟨Kernel.brackets_call, SharedKernel.brackets_call, joins_logs.tick, joins_logs.elapse⟩

end PriorityScheduler
