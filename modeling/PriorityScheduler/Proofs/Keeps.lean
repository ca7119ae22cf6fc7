import PriorityScheduler.Proofs.Steps

/-! # What steps keep

    A step keeps a property when the property holds after it, however it ends, if
    it held before.  A property that the basic steps keep is kept by every call
    and by every history of calls.

    Some properties are kept only by part of the calls, and then the steps that
    matter are asked about for these calls alone. -/

namespace PriorityScheduler

namespace Step

variable {α β : Type} {I : Outline → Prop}

/-- What holds of the outline that a step leaves behind, however it ends. -/
def Leaves (I : Outline → Prop) (r : EStateM.Result Failure Outline α) : Prop :=
  match r with
  | .ok _ o' => I o'
  | .error _ o' => I o'

/-- What a step leaves behind is what it has left behind. -/
theorem Leaves.of_eq {r : EStateM.Result Failure Outline α} {o' : Outline} (leaves : Leaves I r)
    (left : Leaves (· = o') r) : I o' := by
  cases r with
  | ok a o₁ => exact (show o₁ = o' from left) ▸ leaves
  | error e o₁ => exact (show o₁ = o' from left) ▸ leaves

theorem Leaves.mono {J : Outline → Prop} {r : EStateM.Result Failure Outline α}
    (leaves : Leaves I r) (weaker : ∀ {o}, I o → J o) : Leaves J r := by
  cases r with
  | ok a o => exact weaker leaves
  | error e o => exact weaker leaves

/-- However the step ends, what held before it holds after it. -/
def Keeps (I : Outline → Prop) (s : Step α) : Prop :=
  ∀ o, I o → Leaves I (s o)

theorem Keeps.ok {s : Step α} (h : Keeps I s) {o o' : Outline} {a : α} (ho : I o)
    (hs : s o = .ok a o') : I o' := by
  have := h o ho
  rw [hs] at this
  exact this

theorem Keeps.error {s : Step α} (h : Keeps I s) {o o' : Outline} {e : Failure} (ho : I o)
    (hs : s o = .error e o') : I o' := by
  have := h o ho
  rw [hs] at this
  exact this

/-! ## Putting steps together -/

theorem keeps_pure (a : α) : Keeps I (pure a) :=
  fun _ h => h

theorem keeps_bind {s : Step β} {f : β → Step α} (h : Keeps I s) (hf : ∀ b, Keeps I (f b)) :
    Keeps I (s >>= f) := by
  intro o ho
  show Leaves I (EStateM.bind s f o)
  simp only [EStateM.bind]
  cases hr : s o with
  | ok b o' => exact hf b o' (h.ok ho hr)
  | error e o' => exact h.error ho hr

/-- Telling the answer of a step changes nothing. -/
theorem keeps_answer {s : Step β} (h : Keeps I s) (f : β → α) :
    Keeps I (s >>= fun b => pure (f b)) :=
  keeps_bind h fun b => keeps_pure (f b)

theorem keeps_get : Keeps I get :=
  fun _ h => h

theorem keeps_modify {f : Outline → Outline} (h : ∀ o, I o → I (f o)) :
    Keeps I (modify f : Step Unit) :=
  fun o ho => h o ho

theorem keeps_ite {c : Prop} [Decidable c] {s s' : Step α} (h : Keeps I s) (h' : Keeps I s') :
    Keeps I (if c then s else s') := by
  by_cases hc : c
  · rw [if_pos hc]
    exact h
  · rw [if_neg hc]
    exact h'

theorem keeps_guarded {f : Outline → Except Refusal (α × Outline)}
    (h : ∀ o a o', I o → f o = .ok (a, o') → I o') : Keeps I (guarded f) := by
  intro o ho
  simp only [guarded]
  cases hf : f o with
  | ok r => exact h o r.1 r.2 ho hf
  | error cause => exact ho

theorem keeps_always {f : Outline → α × Outline} (h : ∀ o, I o → I (f o).2) :
    Keeps I (always f) :=
  fun o ho => h o ho

theorem keeps_attempt {s : Step α} (h : Keeps I s) : Keeps I (attempt s) := by
  intro o ho
  simp only [attempt]
  cases hr : s o with
  | ok a o' => exact h.ok ho hr
  | error e o' =>
      cases e with
      | refused cause => exact h.error ho hr
      | fault what => exact h.error ho hr

/-- What is done with the answer of a step does not matter. -/
theorem leaves_answer {s : Step α} {f : α → Step β} {o : Outline} (leaves : Leaves I (s o))
    (answers : ∀ a o', ∃ b, f a o' = .ok b o') : Leaves I ((s >>= f) o) := by
  show Leaves I (EStateM.bind s f o)
  simp only [EStateM.bind]
  generalize s o = r at leaves ⊢
  cases r with
  | ok a o' =>
      obtain ⟨b, hb⟩ := answers a o'
      show Leaves I (f a o')
      rw [hb]
      exact leaves
  | error e o' => exact leaves

/-- What holds before a step that can be refused holds after it, if what follows the
    step leads there. -/
theorem leaves_guarded {f : Outline → Except Refusal (α × Outline)} {rest : α → Step β}
    {o : Outline} (before : I o) (done : ∀ a o', f o = .ok (a, o') → Leaves I (rest a o')) :
    Leaves I ((guarded f >>= rest) o) := by
  show Leaves I (EStateM.bind (guarded f) rest o)
  simp only [EStateM.bind, guarded]
  cases hf : f o with
  | ok r => exact done r.1 r.2 hf
  | error cause => exact before

/-! ## Choices -/

/-- A planned switch leaves what its choice leaves. -/
theorem leaves_planSwitch {o : Outline} (choose : Leaves I (Outline.choose o)) :
    Leaves I (Outline.planSwitch o) := by
  simp only [Outline.planSwitch]
  generalize Outline.choose o = r at choose ⊢
  cases r with
  | ok incoming o' => exact choose
  | error e o' =>
      cases e with
      | refused cause => cases cause <;> exact choose
      | fault what => exact choose

theorem leaves_switch {o : Outline} (choose : Leaves I (Outline.choose o)) :
    Leaves I (Outline.switch o) := by
  refine leaves_answer (leaves_planSwitch choose) ?_
  intro plan o'
  cases plan with
  | none => exact ⟨_, rfl⟩
  | some plan => exact ⟨_, rfl⟩

section Choices

variable (choose : Keeps I Outline.choose)

include choose

theorem keeps_planSwitch : Keeps I Outline.planSwitch :=
  fun o ho => leaves_planSwitch (choose o ho)

theorem keeps_switch : Keeps I Outline.switch :=
  fun o ho => leaves_switch (choose o ho)

theorem keeps_cede (sendBehind : ∀ {o : Outline}, I o → I { o with sendBehind := true }) :
    Keeps I Outline.cede :=
  keeps_bind (keeps_modify fun _ => sendBehind) fun _ => keeps_switch choose

theorem keeps_replaceRunner (wantSwitch : ∀ {o : Outline}, I o → I { o with switchDue := true }) :
    Keeps I Outline.replaceRunner := by
  refine keeps_bind keeps_get fun o => keeps_ite ?_ (keeps_modify fun _ => wantSwitch)
  exact keeps_bind (keeps_switch choose) fun _ => keeps_pure _

end Choices

/-! ## The basic steps -/

/-- The basic steps keep a property, as far as the calls that are allowed go. -/
structure Kept (I : Outline → Prop) (allowed : Call → Prop) : Prop where
  enroll : ∀ {o spec h o'}, I o → o.enroll spec {} = .ok (h, o') → I o'
  enrollIdle : ∀ {o entry o'}, I o → o.enrollIdle entry = .ok ((), o') → I o'
  remove : ∀ {o h was o'}, allowed (.delete h) → I o → o.remove h = .ok (was, o') → I o'
  shelve : ∀ {o h was o'}, allowed (.suspend h) → I o → o.shelve h = .ok (was, o') → I o'
  resume : ∀ {o h wanted o'}, I o → o.resume h = .ok (wanted, o') → I o'
  reprioritise : ∀ {o h priority wanted o'}, I o →
    o.reprioritise h priority = .ok (wanted, o') → I o'
  saveContext : ∀ {o h context o'}, I o → o.saveContext h context = .ok ((), o') → I o'
  block : ∀ {o h ticks o'}, I o → o.block h ticks = .ok ((), o') → I o'
  endWait : ∀ {o h early wanted o'}, allowed (if early then .cutShort h else .wake h) → I o →
    o.endWait h early = .ok (wanted, o') → I o'
  choose : Keeps I Outline.choose
  sendBehind : ∀ {o}, I o → I { o with sendBehind := true }
  wantSwitch : ∀ {o}, I o → I { o with switchDue := true }
  freezeAll : ∀ {o}, I o → I o.freezeAll.2
  thawAll : ∀ {o}, allowed .thawAll → I o → I o.thawAll.2
  tick : ∀ {o}, allowed .tick → I o → I o.tick.2
  elapse : ∀ {o ticks}, allowed (.elapse ticks) → I o →
    I (Outline.elapseFrom false ticks.toNat o).2
  takeCutShort : ∀ {o}, I o → I o.takeCutShort.2

/-- What a tick keeps is kept by any number of them. -/
theorem elapseFrom_keeps (tick : ∀ {o : Outline}, I o → I o.tick.2) (n : Nat) (asked : Bool)
    {o : Outline} (ho : I o) : I (Outline.elapseFrom asked n o).2 := by
  induction n generalizing asked o with
  | zero => exact ho
  | succ n ih => exact ih _ (tick ho)

namespace Kept

variable {allowed : Call → Prop} (kept : Kept I allowed)

include kept

theorem switch : Keeps I Outline.switch :=
  keeps_switch kept.choose

theorem cede : Keeps I Outline.cede :=
  keeps_cede kept.choose kept.sendBehind

theorem replaceRunner : Keeps I Outline.replaceRunner :=
  keeps_replaceRunner kept.choose kept.wantSwitch

theorem delete {h : Handle} (hc : allowed (.delete h)) : Keeps I (Outline.delete h) :=
  keeps_bind (keeps_guarded fun _ _ _ => kept.remove hc) fun _ =>
    keeps_ite kept.replaceRunner (keeps_pure _)

theorem suspend {h : Handle} (hc : allowed (.suspend h)) : Keeps I (Outline.suspend h) :=
  keeps_bind (keeps_guarded fun _ _ _ => kept.shelve hc) fun _ =>
    keeps_ite kept.replaceRunner (keeps_pure _)

omit kept in
theorem needRunner : Keeps I (guarded Outline.needRunner) := by
  refine keeps_guarded fun o a o' ho hs => ?_
  simp only [Outline.needRunner] at hs
  cases hrunner : o.runner with
  | some h =>
      rw [hrunner] at hs
      rw [← (Prod.mk.inj (Except.ok.inj hs)).2]
      exact ho
  | none =>
      rw [hrunner] at hs
      cases hs

theorem pause (ticks : Tick) : Keeps I (Outline.pause ticks) := by
  refine keeps_bind needRunner fun cur => keeps_ite ?_ ?_
  · exact keeps_bind kept.cede fun _ => keeps_pure _
  · refine keeps_bind (keeps_guarded fun _ _ _ => kept.block) fun _ => ?_
    exact keeps_bind kept.switch fun _ => keeps_pure _

theorem pausePeriod (anchor period : Tick) : Keeps I (Outline.pausePeriod anchor period) := by
  refine keeps_bind needRunner fun cur => keeps_bind keeps_get fun o => keeps_ite ?_ ?_
  · refine keeps_bind (keeps_guarded fun _ _ _ => kept.block) fun _ => ?_
    exact keeps_bind kept.switch fun _ => keeps_pure _
  · exact keeps_bind kept.cede fun _ => keeps_pure _

theorem checkWait (since : Moment) (remaining : Tick) :
    Keeps I (Outline.checkWait since remaining) := by
  refine keeps_bind (keeps_always fun _ => kept.takeCutShort) fun _ => keeps_ite ?_ ?_
  · exact keeps_pure _
  · exact keeps_bind keeps_get fun _ => keeps_pure _

/-- A property that the basic steps keep is kept by every allowed call. -/
theorem run {c : Call} (hc : allowed c) : Keeps I (Outline.run c) := by
  cases c with
  | create spec => exact keeps_answer (keeps_guarded fun _ _ _ => kept.enroll) _
  | start entry =>
      refine keeps_answer (keeps_bind (keeps_guarded fun _ _ _ => kept.enrollIdle) fun _ => ?_) _
      exact kept.choose
  | delete h => exact keeps_answer (kept.delete hc) _
  | suspend h => exact keeps_answer (kept.suspend hc) _
  | resume h => exact keeps_answer (keeps_guarded fun _ _ _ => kept.resume) _
  | reprioritise h p => exact keeps_answer (keeps_guarded fun _ _ _ => kept.reprioritise) _
  | saveContext h c => exact keeps_answer (keeps_guarded fun _ _ _ => kept.saveContext) _
  | block h ticks => exact keeps_answer (keeps_guarded fun _ _ _ => kept.block) _
  | pause ticks => exact keeps_answer (kept.pause ticks) _
  | pausePeriod anchor period => exact keeps_answer (kept.pausePeriod anchor period) _
  | wake h =>
      exact keeps_answer (keeps_guarded (f := (·.endWait h false)) fun _ _ _ => kept.endWait hc) _
  | cutShort h =>
      exact keeps_answer (keeps_guarded (f := (·.endWait h true)) fun _ _ _ => kept.endWait hc) _
  | tick => exact keeps_answer (keeps_always fun _ => kept.tick hc) _
  | elapse ticks => exact keeps_answer (keeps_always fun _ => kept.elapse hc) _
  | freezeAll => exact keeps_answer (keeps_always fun _ => kept.freezeAll) _
  | thawAll => exact keeps_answer (keeps_always fun _ => kept.thawAll hc) _
  | choose => exact keeps_answer kept.choose _
  | planSwitch => exact keeps_answer (keeps_planSwitch kept.choose) _
  | switch => exact keeps_answer kept.switch _
  | cede => exact keeps_answer kept.cede _
  | checkWait since remaining => exact keeps_answer (kept.checkWait since remaining) _

/-- It is kept by every history of such calls as well. -/
theorem perform {calls : List Call} (hcalls : ∀ c ∈ calls, allowed c) :
    Keeps I (Outline.perform calls) := by
  induction calls with
  | nil => exact keeps_pure _
  | cons c rest ih =>
      refine keeps_bind (keeps_attempt (kept.run (hcalls c List.mem_cons_self))) fun _ => ?_
      refine keeps_bind (ih ?_) fun _ => keeps_pure _
      exact fun c' hc' => hcalls c' (List.mem_cons_of_mem c hc')

end Kept

end Step

end PriorityScheduler
