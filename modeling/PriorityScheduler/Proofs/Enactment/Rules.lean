import PriorityScheduler.Proofs.Inversion
import PriorityScheduler.Proofs.Routines
import PriorityScheduler.Proofs.Traffic

/-! # Routines enact steps

    A routine ENACTS a step of outlines on a kernel when, on every platform, both
    end alike, and the kernel that the routine leaves behind is intact again and
    has the outline that the step leaves behind.

    Every routine of the kernel enacts the step of its name; the modules beside
    this one prove it.  Most routines OBEY an outcome that can be a refusal: then
    nothing at all is changed. -/

namespace PriorityScheduler

open Routine

namespace Outline

variable {o : Outline} {h : Handle} {task task' : Task}

/-! ## Looking up after a change -/

theorem find_ok (live : o.get? h = some task) : o.find h = .ok task := by
  simp only [find]
  rw [live]

theorem find_error (dead : o.get? h = none) : o.find h = .error .unknownHandle := by
  simp only [find]
  rw [dead]

/-- Vacating a slot undoes what was done to it and the lists it is on. -/
theorem vacate_reseat (o : Outline) (side : Side) (i : Nat) (task : Task)
    (unlinked : task.place = .unlinked) : (o.reseat side i task).vacate i = o.vacate i := by
  ext1 <;> try rfl
  · exact Function.update_idem ..
  · funext q
    show ((o.reseat side i task).row q).filter (· ≠ i) = (o.row q).filter (· ≠ i)
    rw [reseat_row, unlinked]
    by_cases hq : q = .unlinked
    · rw [if_pos hq, hq]
      show ((o.row .unlinked).filter (· ≠ i)).filter (· ≠ i) = _
      rw [List.filter_filter]
      simp
    · rw [if_neg hq, List.filter_filter]
      simp

end Outline

namespace Step

variable {α : Type} {f : Outline → Except Refusal (α × Outline)} {o o' : Outline}

theorem guarded_ok {a : α} (h : f o = .ok (a, o')) : guarded f o = .ok a o' := by
  simp only [guarded]
  rw [h]

theorem of_guarded_ok {a : α} (h : guarded f o = .ok a o') : f o = .ok (a, o') := by
  simp only [guarded] at h
  cases hf : f o with
  | ok r =>
      obtain ⟨b, o''⟩ := r
      rw [hf] at h
      obtain ⟨rfl, rfl⟩ := EStateM.Result.ok.inj h
      rfl
  | error cause =>
      rw [hf] at h
      cases h

theorem guarded_error {cause : Refusal} (h : f o = .error cause) :
    guarded f o = .error (.refused cause) o := by
  simp only [guarded]
  rw [h]

end Step

namespace Kernel

variable {α β : Type} {k k' : Kernel}

/-- On every platform the routine ends on the kernel as the step ends on its
    outline. -/
def Enacts (r : Routine Kernel α) (s : Step α) (k : Kernel) : Prop :=
  Leads r k (fun a k' => k'.Intact ∧ s k.outline = .ok a k'.outline)
    (fun e k' => k'.Intact ∧ s k.outline = .error e k'.outline)

/-- A step that is done tells how the routine ends. -/
theorem Enacts.of_ok {r : Routine Kernel α} {s : Step α} {a : α} {o : Outline}
    (enacts : Enacts r s k) (done : s k.outline = .ok a o) (p : Platform) :
    ∃ m, r ⟨k, p⟩ = .ok a m ∧ m.state.outline = o := by
  cases hend : r ⟨k, p⟩ with
  | ok a' m =>
      obtain ⟨-, hsame⟩ := enacts.ok hend
      rw [done] at hsame
      obtain ⟨rfl, rfl⟩ := EStateM.Result.ok.inj hsame
      exact ⟨m, rfl, rfl⟩
  | error e m =>
      obtain ⟨-, hsame⟩ := enacts.error hend
      rw [done] at hsame
      cases hsame

/-- A step that fails tells how the routine ends. -/
theorem Enacts.of_error {r : Routine Kernel α} {s : Step α} {e : Failure} {o : Outline}
    (enacts : Enacts r s k) (failed : s k.outline = .error e o) (p : Platform) :
    ∃ m, r ⟨k, p⟩ = .error e m ∧ m.state.outline = o := by
  cases hend : r ⟨k, p⟩ with
  | ok a m =>
      obtain ⟨-, hsame⟩ := enacts.ok hend
      rw [failed] at hsame
      cases hsame
  | error e' m =>
      obtain ⟨-, hsame⟩ := enacts.error hend
      rw [failed] at hsame
      obtain ⟨rfl, rfl⟩ := EStateM.Result.error.inj hsame
      exact ⟨m, rfl, rfl⟩

/-! ## Putting steps together -/

theorem enacts_pure (intact : k.Intact) (a : α) : Enacts (pure a) (pure a) k :=
  leads_pure ⟨intact, rfl⟩

/-- A sequence enacts the sequence of the steps. -/
theorem enacts_bind {r : Routine Kernel β} {s : Step β} {f : β → Routine Kernel α}
    {g : β → Step α} (h : Enacts r s k)
    (hf : ∀ b k', k'.Intact → s k.outline = .ok b k'.outline → Enacts (f b) (g b) k') :
    Enacts (r >>= f) (s >>= g) k := by
  refine leads_bind (h.mono ?_ ?_)
  · rintro b k' ⟨hintact, hs⟩
    refine (hf b k' hintact hs).mono ?_ ?_
    · rintro a k'' ⟨hintact', hg⟩
      refine ⟨hintact', ?_⟩
      show EStateM.bind s g k.outline = _
      simp only [EStateM.bind]
      rw [hs]
      exact hg
    · rintro e k'' ⟨hintact', hg⟩
      refine ⟨hintact', ?_⟩
      show EStateM.bind s g k.outline = _
      simp only [EStateM.bind]
      rw [hs]
      exact hg
  · rintro e k' ⟨hintact, hs⟩
    refine ⟨hintact, ?_⟩
    show EStateM.bind s g k.outline = _
    simp only [EStateM.bind]
    rw [hs]

/-- Telling the answer of a routine is telling that of the step. -/
theorem enacts_answer {r : Routine Kernel β} {s : Step β} (h : Enacts r s k) (f : β → α) :
    Enacts (r >>= fun b => pure (f b)) (s >>= fun b => pure (f b)) k :=
  enacts_bind h fun b _ hintact _ => enacts_pure hintact (f b)

theorem enacts_masked {r : Routine Kernel α} {s : Step α} (h : Enacts r s k) :
    Enacts (masked r) s k :=
  leads_masked h

/-- Handing back a refusal is enacted by handing back the step's refusal. -/
theorem enacts_attempt {r : Routine Kernel α} {s : Step α} (h : Enacts r s k) :
    Enacts (attempt r) (Step.attempt s) k := by
  refine leads_attempt (h.mono ?_ ?_)
  · rintro a k' ⟨hintact, hs⟩
    refine ⟨hintact, ?_⟩
    simp only [Step.attempt]
    rw [hs]
  · rintro e k' ⟨hintact, hs⟩
    cases e with
    | refused cause =>
        refine ⟨hintact, ?_⟩
        simp only [Step.attempt]
        rw [hs]
    | fault what =>
        refine ⟨hintact, ?_⟩
        simp only [Step.attempt]
        rw [hs]

/-- A change of the counters and marks is enacted by that change of the outline. -/
theorem enacts_update {f : Kernel → Kernel} {g : Outline → Outline} (intact : (f k).Intact)
    (outline : (f k).outline = g k.outline) :
    Enacts (Routine.update f) (modify g) k := by
  refine leads_update ⟨intact, ?_⟩
  rw [outline]
  rfl

/-- A look at the state is enacted by the same look at the outline. -/
theorem enacts_read {f : Kernel → Routine Kernel α} {g : Outline → Step α}
    (h : Enacts (f k) (g k.outline) k) : Enacts (read >>= f) (get >>= g) k :=
  leads_bind (leads_read h)

theorem enacts_ite {c : Prop} [Decidable c] {r r' : Routine Kernel α} {s s' : Step α}
    (h : c → Enacts r s k) (h' : ¬ c → Enacts r' s' k) :
    Enacts (if c then r else r') (if c then s else s') k := by
  by_cases hc : c
  · rw [if_pos hc, if_pos hc]
    exact h hc
  · rw [if_neg hc, if_neg hc]
    exact h' hc

/-- A routine that is always done enacts the step that its ends agree with. -/
theorem enacts_always {r : Routine Kernel α} {f : Outline → α × Outline}
    (h : Leads r k (fun a k' => k'.Intact ∧ f k.outline = (a, k'.outline)) (fun _ _ => False)) :
    Enacts r (Step.always f) k := by
  refine h.mono ?_ (fun _ _ hfalse => hfalse.elim)
  rintro a k' ⟨hintact, hf⟩
  refine ⟨hintact, ?_⟩
  simp only [Step.always]
  rw [hf]

/-! ## Steps that can be refused -/

/-- On every platform the routine ends as the outcome says, and a refusal leaves
    the kernel as it was. -/
def Obeys (r : Routine Kernel α) (k : Kernel) (out : Except Refusal (α × Outline)) : Prop :=
  Leads r k (fun a k' => k'.Intact ∧ out = .ok (a, k'.outline))
    (fun e k' => k' = k ∧ ∃ cause, e = .refused cause ∧ out = .error cause)

/-- A routine that obeys a step enacts it. -/
theorem Obeys.enacts {r : Routine Kernel α} (f : Outline → Except Refusal (α × Outline))
    (intact : k.Intact) (h : Obeys r k (f k.outline)) : Enacts r (Step.guarded f) k := by
  refine h.mono ?_ ?_
  · rintro a k' ⟨hintact, hf⟩
    exact ⟨hintact, Step.guarded_ok hf⟩
  · rintro e k' ⟨rfl, cause, rfl, hf⟩
    exact ⟨intact, Step.guarded_error hf⟩

theorem obeys_refuse {cause : Refusal} : Obeys (refuse cause : Routine Kernel α) k (.error cause) :=
  leads_refuse ⟨rfl, cause, rfl, rfl⟩

theorem obeys_pure (intact : k.Intact) {a : α} : Obeys (pure a) k (.ok (a, k.outline)) :=
  leads_pure ⟨intact, rfl⟩

theorem obeys_masked {r : Routine Kernel α} {out : Except Refusal (α × Outline)}
    (h : Obeys r k out) : Obeys (masked r) k out :=
  leads_masked h

theorem obeys_ite {c : Prop} [Decidable c] {r r' : Routine Kernel α}
    {out out' : Except Refusal (α × Outline)} (h : c → Obeys r k out)
    (h' : ¬ c → Obeys r' k out') : Obeys (if c then r else r') k (if c then out else out') := by
  by_cases hc : c
  · rw [if_pos hc, if_pos hc]
    exact h hc
  · rw [if_neg hc, if_neg hc]
    exact h' hc

/-- The task that a handle names is found in the outline. -/
theorem obeys_find {h : Handle} {f : Task → Routine Kernel α}
    {out : Task → Except Refusal (α × Outline)}
    (found : ∀ task, k.outline.get? h = some task → Obeys (f task) k (out task)) :
    Obeys (look (fun k => k.table.find h) >>= f) k (k.outline.find h >>= out) := by
  cases hget : k.outline.get? h with
  | none =>
      rw [Outline.find_error hget]
      have hrun : k.table.find h = .error (.refused .unknownHandle) :=
        TaskTable.find_error ((get?_outline k h).trans hget)
      exact leads_bind (leads_look_error hrun ⟨rfl, _, rfl, rfl⟩)
  | some task =>
      rw [Outline.find_ok hget]
      have hrun : k.table.find h = .ok task := TaskTable.find_ok ((get?_outline k h).trans hget)
      exact leads_bind (leads_look_ok hrun (found task hget))

theorem isOff_outline (k : Kernel) : k.freeze.isOff = decide (k.outline.depth = 0) := by
  show (k.freeze.depth == 0) = decide (k.freeze.depth = 0)
  rw [Bool.eq_iff_iff, beq_iff_eq, decide_eq_true_iff]

/-- While scheduling is suspended the running task has to stay. -/
theorem obeys_replaceable {h : Handle} {r : Routine Kernel α}
    {out : Except Refusal (α × Outline)} (free : Obeys r k out) :
    Obeys (look (fun k => k.ensureReplaceable h) >>= fun _ => r) k
      (k.outline.replaceable h >>= fun _ => out) := by
  have hguard : (!k.freeze.isOff && k.runner = some h) = true
      ↔ k.outline.depth ≠ 0 ∧ k.outline.runner = some h := by
    rw [isOff_outline, runner_outline]
    simp
  simp only [Outline.replaceable]
  by_cases hc : k.outline.depth ≠ 0 ∧ k.outline.runner = some h
  · rw [if_pos hc]
    have hrun : k.ensureReplaceable h = .error (.refused .schedulerFrozen) := if_pos (hguard.mpr hc)
    exact leads_bind (leads_look_error hrun ⟨rfl, _, rfl, rfl⟩)
  · rw [if_neg hc]
    have hrun : k.ensureReplaceable h = .ok () := if_neg (fun h' => hc (hguard.mp h'))
    exact leads_bind (leads_look_ok hrun free)

/-! ## Marks -/

/-- Remembering a switch keeps a kernel intact and is seen in its outline. -/
theorem Intact.wantSwitchIf (intact : k.Intact) (wanted : Bool) :
    (k.wantSwitchIf wanted).Intact
      ∧ (k.wantSwitchIf wanted).outline = k.outline.wantSwitchIf wanted := by
  cases wanted with
  | false =>
      refine ⟨intact, ?_⟩
      show k.outline = { k.outline with switchDue := k.outline.switchDue || false }
      rw [Bool.or_false]
  | true =>
      refine ⟨intact.congr rfl rfl rfl (fun q => by cases q <;> rfl), ?_⟩
      show { k.outline with switchDue := true }
        = { k.outline with switchDue := k.outline.switchDue || true }
      rw [Bool.or_true]

end Kernel

end PriorityScheduler
