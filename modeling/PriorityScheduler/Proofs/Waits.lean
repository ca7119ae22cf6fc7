import PriorityScheduler.Proofs.Delays
import PriorityScheduler.Proofs.Neighbours
import PriorityScheduler.Proofs.Stages

/-! # What a call does to waits

    A blocked task carries no mark of an ending.  The call that RELEASES it leaves one: a
    tick marks it as timed out, a wait that is cut short is marked so, and every other
    call leaves none.  Until the task is blocked again the marks stay, but the second one
    is used up when the task itself asks about its wait.

    A call changes one task, or else REWRITES records without a touch to waits and marks;
    only ticks rewrite the records of many and end waits.  So what a call does to the
    marks of a task is known from the record before it. -/

namespace PriorityScheduler

open Function (update)
open Step (Leaves)

/-- Whether a call makes the idle task. -/
def Call.starts : Call → Bool
  | .start _ => true
  | _ => false

/-- Whether a call asks if a wait is over. -/
def Call.checks : Call → Bool
  | .checkWait _ _ => true
  | _ => false

namespace Task

variable {t t' t'' : Task}

/-- While it is blocked, a task has no mark of an ending. -/
def Unmarked (t : Task) : Prop :=
  t.activity = .blocked → t.flags.timedOut = false ∧ t.flags.cutShort = false

/-- A new record of a task tells the same of its waits. -/
def SameWait (t t' : Task) : Prop :=
  (t'.activity = .blocked ↔ t.activity = .blocked) ∧ t'.flags = t.flags

/-- A new record of a task tells the same of its waits, or that the last one timed out. -/
def Expires (t t' : Task) : Prop :=
  SameWait t t' ∨ t.activity = .blocked ∧ t'.activity ≠ .blocked
    ∧ t'.flags = { t.flags with timedOut := true }

theorem SameWait.refl (t : Task) : SameWait t t :=
  ⟨Iff.rfl, rfl⟩

theorem SameWait.trans (same : SameWait t t') (same' : SameWait t' t'') : SameWait t t'' :=
  ⟨same'.1.trans same.1, same'.2.trans same.2⟩

/-- Neither of two records is of a blocked task, and the flags are the same. -/
theorem sameWait_of_active (active : t.activity ≠ .blocked) (active' : t'.activity ≠ .blocked)
    (flags : t'.flags = t.flags) : SameWait t t' :=
  ⟨iff_of_false active' active, flags⟩

/-- A wait that has timed out does not do so again. -/
theorem Expires.trans (expires : Expires t t') (expires' : Expires t' t'') : Expires t t'' := by
  rcases expires with hsame | ⟨hblocked, hactive, hflags⟩
  · rcases expires' with hsame' | ⟨hblocked', hactive', hflags'⟩
    · exact Or.inl (hsame.trans hsame')
    · refine Or.inr ⟨hsame.1.mp hblocked', hactive', ?_⟩
      rw [hflags', hsame.2]
  · rcases expires' with hsame' | ⟨hblocked', -, -⟩
    · exact Or.inr ⟨hblocked, fun hagain => hactive (hsame'.1.mp hagain), hsame'.2.trans hflags⟩
    · exact absurd hblocked' hactive

/-- What becomes of the marks of a task in a call.  A task that waits afterwards has
    none; one that waited before is marked by what has released it; any other keeps its
    marks, up to one that is used up. -/
structure Carries (c : Call) (h : Handle) (used : Prop) (t t' : Task) : Prop where
  idle : t'.flags.idle = t.flags.idle
  waiting : t'.Unmarked
  released : t.activity = .blocked → t'.activity ≠ .blocked →
    (t'.flags.timedOut = true ↔ 0 < c.ticks) ∧ (t'.flags.cutShort = true ↔ c = .cutShort h)
  kept : t.activity ≠ .blocked → t'.activity ≠ .blocked →
    t'.flags.timedOut = t.flags.timedOut
      ∧ (t'.flags.cutShort = true ↔ t.flags.cutShort = true ∧ ¬ used)

variable {c : Call} {h : Handle} {used : Prop}

/-- The marks are carried on by a record that tells the same of waits. -/
theorem Carries.sameWait (carries : Carries c h used t t') (same : SameWait t' t'') :
    Carries c h used t t'' := by
  obtain ⟨hwait, hflags⟩ := same
  refine ⟨?_, ?_, ?_, ?_⟩
  · rw [hflags]
    exact carries.idle
  · intro hblocked
    rw [hflags]
    exact carries.waiting (hwait.mp hblocked)
  · intro hblocked hactive
    rw [hflags]
    exact carries.released hblocked (fun h' => hactive (hwait.mpr h'))
  · intro hbefore hactive
    rw [hflags]
    exact carries.kept hbefore (fun h' => hactive (hwait.mpr h'))

/-- Nothing becomes of the marks of a task that waits as before. -/
theorem SameWait.carries (same : SameWait t t') (unmarked : t.Unmarked) (unused : ¬ used) :
    Carries c h used t t' := by
  refine Carries.sameWait ⟨rfl, unmarked, ?_, ?_⟩ same
  · exact fun hblocked hactive => absurd hblocked hactive
  · exact fun _ _ => ⟨rfl, (and_iff_left unused).symm⟩

/-- A task whose wait is ended is marked by the call that ends it. -/
theorem carries_of_released (blocked : t.activity = .blocked) (active : t'.activity ≠ .blocked)
    (idle : t'.flags.idle = t.flags.idle) (timedOut : t'.flags.timedOut = true ↔ 0 < c.ticks)
    (cutShort : t'.flags.cutShort = true ↔ c = .cutShort h) : Carries c h used t t' :=
  ⟨idle, fun hagain => absurd hagain active, fun _ _ => ⟨timedOut, cutShort⟩,
    fun hnot => absurd blocked hnot⟩

/-- The marks of a task that is blocked are taken away. -/
theorem carries_of_blocked (active : t.activity ≠ .blocked) (blocked : t'.activity = .blocked)
    (idle : t'.flags.idle = t.flags.idle)
    (marks : t'.flags.timedOut = false ∧ t'.flags.cutShort = false) : Carries c h used t t' :=
  ⟨idle, fun _ => marks, fun hblocked => absurd hblocked active, fun _ hnot => absurd blocked hnot⟩

/-- A task that does not wait keeps its marks, up to one that is used up. -/
theorem carries_of_active (active : t.activity ≠ .blocked) (active' : t'.activity ≠ .blocked)
    (idle : t'.flags.idle = t.flags.idle) (timedOut : t'.flags.timedOut = t.flags.timedOut)
    (cutShort : t'.flags.cutShort = true ↔ t.flags.cutShort = true ∧ ¬ used) :
    Carries c h used t t' :=
  ⟨idle, fun hblocked => absurd hblocked active', fun hblocked => absurd hblocked active,
    fun _ _ => ⟨timedOut, cutShort⟩⟩

/-- A task whose wait times out is marked so. -/
theorem Expires.carries (expires : Expires t t') (unmarked : t.Unmarked) (unused : ¬ used)
    (ticks : 0 < c.ticks) : Carries c h used t t' := by
  rcases expires with hsame | ⟨hblocked, hactive, hflags⟩
  · exact hsame.carries unmarked unused
  · have huncut : ¬ c = .cutShort h := by
      rintro rfl
      exact absurd ticks (Nat.lt_irrefl 0)
    refine carries_of_released hblocked hactive ?_ ?_ ?_
    · rw [hflags]
    · rw [hflags]
      exact iff_of_true rfl ticks
    · rw [hflags]
      exact iff_of_false (Bool.eq_false_iff.mp (unmarked hblocked).2) huncut

end Task

namespace Outline

variable {c : Call} {o o' o'' o₁ : Outline} {R : Task → Task → Prop} {i : Nat} {h : Handle}
  {t t' : Task}

/-! ## Rewriting records -/

/-- Tasks neither come nor go, and the record of each is related to the one before. -/
structure Rewrites (R : Task → Task → Prop) (o o' : Outline) : Prop where
  generation : o'.generation = o.generation
  empty : ∀ i, o.tenant i = none → o'.tenant i = none
  live : ∀ i t, o.tenant i = some t → ∃ t', o'.tenant i = some t' ∧ R t t'

theorem Rewrites.trans (rewrites : Rewrites R o o') (rewrites' : Rewrites R o' o'')
    (trans : ∀ {t t' t''}, R t t' → R t' t'' → R t t'') : Rewrites R o o'' := by
  refine ⟨rewrites'.generation.trans rewrites.generation,
    fun i hempty => rewrites'.empty i (rewrites.empty i hempty), fun i t hlive => ?_⟩
  obtain ⟨t₁, hlive₁, hfirst⟩ := rewrites.live i t hlive
  obtain ⟨t₂, hlive₂, hsecond⟩ := rewrites'.live i t₁ hlive₁
  exact ⟨t₂, hlive₂, trans hfirst hsecond⟩

/-- What is related in the slots is related under the handles. -/
theorem Rewrites.get? (rewrites : Rewrites R o o') (h : Handle) :
    (o.get? h = none ∧ o'.get? h = none)
      ∨ ∃ t t', o.get? h = some t ∧ o'.get? h = some t' ∧ R t t' := by
  simp only [Outline.get?, rewrites.generation]
  by_cases hg : o.generation h.index = h.generation
  · rw [if_pos hg, if_pos hg]
    cases hlive : o.tenant h.index with
    | none => exact Or.inl ⟨rfl, rewrites.empty _ hlive⟩
    | some t =>
        obtain ⟨t', hlive', hrel⟩ := rewrites.live _ t hlive
        exact Or.inr ⟨t, t', rfl, hlive', hrel⟩
  · rw [if_neg hg, if_neg hg]
    exact Or.inl ⟨rfl, rfl⟩

/-- No record is rewritten where slots and generations stay. -/
theorem rewrites_of_tenant (refl : ∀ t, R t t) (generation : o'.generation = o.generation)
    (tenant : o'.tenant = o.tenant) : Rewrites R o o' := by
  refine ⟨generation, ?_, ?_⟩
  · rw [tenant]
    exact fun _ hempty => hempty
  · rw [tenant]
    exact fun i t hlive => ⟨t, hlive, refl t⟩

/-- Then every record tells the same of waits. -/
theorem untouched (generation : o'.generation = o.generation) (tenant : o'.tenant = o.tenant) :
    Rewrites Task.SameWait o o' :=
  rewrites_of_tenant Task.SameWait.refl generation tenant

/-- One record is rewritten. -/
theorem rewrites_of_update (refl : ∀ t, R t t) (live : o.tenant i = some t) (related : R t t')
    (generation : o'.generation = o.generation) (tenant : o'.tenant = update o.tenant i (some t')) :
    Rewrites R o o' := by
  refine ⟨generation, fun j hempty => ?_, fun j t₁ hlive => ?_⟩
  · have hj : j ≠ i := by
      rintro rfl
      rw [live] at hempty
      cases hempty
    rw [tenant, Function.update_of_ne hj]
    exact hempty
  · rw [tenant, Function.update_apply]
    by_cases hj : j = i
    · subst hj
      obtain rfl := Option.some.inj (live.symm.trans hlive)
      exact ⟨t', if_pos rfl, related⟩
    · exact ⟨t₁, (if_neg hj).trans hlive, refl t₁⟩

/-- The records of the tasks that become ready are rewritten. -/
theorem rewrites_makeAllReady {f : Task → Task} {l : List Nat} (refl : ∀ t, R t t)
    (related : ∀ i t, i ∈ l → o.tenant i = some t → R t (o.readied (f t))) :
    Rewrites R o (o.makeAllReady f l) := by
  refine ⟨rfl, fun i hempty => ?_, fun i t hlive => ?_⟩
  · show (if i ∈ l then (o.tenant i).map _ else o.tenant i) = none
    rw [hempty]
    exact ite_self _
  · show ∃ t', (if i ∈ l then (o.tenant i).map _ else o.tenant i) = some t' ∧ _
    rw [hlive]
    by_cases hi : i ∈ l
    · exact ⟨_, if_pos hi, related i t hi hlive⟩
    · exact ⟨t, if_neg hi, refl t⟩

/-! ## What a call does to waits -/

/-- A task asks by a call whether its wait is over. -/
def Notices (o : Outline) (c : Call) (h : Handle) : Prop :=
  c.checks = true ∧ o.runner = some h

/-- What becomes of the marks of all tasks in a call: a task that is made is not blocked
    and has no mark of an ending, and the marks of the others are carried on. -/
structure Accounts (c : Call) (o o' : Outline) : Prop where
  made : ∀ h t', o.get? h = none → o'.get? h = some t' →
    t'.activity ≠ .blocked ∧ t'.flags = { idle := c.starts }
  carried : ∀ h t t', o.get? h = some t → o'.get? h = some t' → t.Unmarked →
    Task.Carries c h (o.Notices c h) t t'

/-- A call that rewrites records carries the marks on, if the new records do. -/
theorem Rewrites.accounts (rewrites : Rewrites R o o')
    (carries : ∀ h t t', R t t' → t.Unmarked →
      Task.Carries c h (o.Notices c h) t t') : Accounts c o o' := by
  refine ⟨fun h t' hnone hlive => ?_, fun h t t' hbefore hafter hunmarked => ?_⟩
  · rcases rewrites.get? h with ⟨-, hnone'⟩ | ⟨t, t₁, hbefore, -, -⟩
    · rw [hnone'] at hlive
      cases hlive
    · rw [hnone] at hbefore
      cases hbefore
  · rcases rewrites.get? h with ⟨hnone, -⟩ | ⟨t₁, t₂, hbefore', hafter', hrel⟩
    · rw [hbefore] at hnone
      cases hnone
    · obtain rfl := Option.some.inj (hbefore.symm.trans hbefore')
      obtain rfl := Option.some.inj (hafter.symm.trans hafter')
      exact carries h t t' hrel hunmarked

/-- A later change that tells the same of waits changes nothing in the account. -/
theorem Accounts.rewrites (accounts : Accounts c o o₁) (rewrites : Rewrites Task.SameWait o₁ o') :
    Accounts c o o' := by
  refine ⟨fun h t' hnone hlive => ?_, fun h t t' hbefore hafter hunmarked => ?_⟩
  · rcases rewrites.get? h with ⟨-, hnone'⟩ | ⟨t₁, t₂, hmiddle, hafter, hwait, hflags⟩
    · rw [hnone'] at hlive
      cases hlive
    · obtain rfl := Option.some.inj (hlive.symm.trans hafter)
      obtain ⟨hactive, hmarks⟩ := accounts.made h t₁ hnone hmiddle
      exact ⟨fun hblocked => hactive (hwait.mp hblocked), hflags.trans hmarks⟩
  · rcases rewrites.get? h with ⟨-, hnone'⟩ | ⟨t₁, t₂, hmiddle, hafter', hsame⟩
    · rw [hnone'] at hafter
      cases hafter
    · obtain rfl := Option.some.inj (hafter.symm.trans hafter')
      exact (accounts.carried h t t₁ hbefore hmiddle hunmarked).sameWait hsame

/-- A call that touches one task is accounted for by what it does to this one. -/
theorem accounts_of_touchesOnly (touches : TouchesOnly [h] o o')
    (unused : ∀ h', h' ≠ h → ¬ o.Notices c h')
    (made : ∀ t', o.get? h = none → o'.get? h = some t' →
      t'.activity ≠ .blocked ∧ t'.flags = { idle := c.starts })
    (carried : ∀ t t', o.get? h = some t → o'.get? h = some t' → t.Unmarked →
      Task.Carries c h (o.Notices c h) t t') : Accounts c o o' := by
  have hothers : ∀ h', h' ≠ h → o'.get? h' = o.get? h' :=
    fun h' hne => touches.tasks h' (fun hmem => hne (List.mem_singleton.mp hmem))
  refine ⟨fun h' t' hnone hlive => ?_, fun h' t t' hbefore hafter hunmarked => ?_⟩
  · by_cases hh : h' = h
    · subst hh
      exact made t' hnone hlive
    · rw [hothers h' hh, hnone] at hlive
      cases hlive
  · by_cases hh : h' = h
    · subst hh
      exact carried t t' hbefore hafter hunmarked
    · rw [hothers h' hh, hbefore] at hafter
      obtain rfl := Option.some.inj hafter
      exact (Task.SameWait.refl t).carries hunmarked (unused h' hh)

/-- A call that gives one task a new record is accounted for by the two records. -/
theorem Sound.accounts_rewritten (sound : o.Sound) (sound' : o'.Sound) (live : o.get? h = some t)
    (unused : ∀ h', h' ≠ h → ¬ o.Notices c h')
    (confined : Confined h.index o o') (generation : o'.generation = o.generation)
    (tenant : o'.tenant = update o.tenant h.index (some t'))
    (carries : t.Unmarked → Task.Carries c h (o.Notices c h) t t') :
    Accounts c o o' := by
  have hself : o'.get? h = some t' := get?_update_self live generation tenant
  refine accounts_of_touchesOnly
    (confined.touchesOnly sound.tagged sound'.tagged (generation_of_get? live)) unused ?_ ?_
  · intro _ hnone
    rw [live] at hnone
    cases hnone
  · intro t₁ t₂ hbefore hafter hunmarked
    obtain rfl := Option.some.inj (live.symm.trans hbefore)
    obtain rfl := Option.some.inj (hself.symm.trans hafter)
    exact carries hunmarked

/-- A task that is made is not blocked and has the flags it is made with. -/
theorem enroll_tenant {spec : TaskSpec} {flags : Flags} (done : o.enroll spec flags = .ok (h, o')) :
    ∃ t, o'.tenant h.index = some t ∧ t.activity ≠ .blocked ∧ t.flags = flags := by
  obtain ⟨-, i, -, rfl, ⟨-, rfl⟩ | ⟨-, wanted, rfl, -⟩⟩ := of_enroll_ok done
  · exact ⟨_, Function.update_self .., (by rintro ⟨⟩), rfl⟩
  · exact ⟨_, Function.update_self .., (by rintro ⟨⟩), rfl⟩

/-- A task that is blocked has no mark of an ending. -/
theorem held_unmarked (o : Outline) (t : Task) (ticks : Tick) :
    (o.held t ticks).flags.timedOut = false ∧ (o.held t ticks).flags.cutShort = false := by
  simp only [held]
  by_cases hforever : ticks = waitForever
  · rw [if_pos hforever]
    exact ⟨rfl, rfl⟩
  · rw [if_neg hforever]
    exact ⟨rfl, rfl⟩

section Unasked

variable (unasked : c.checks = false)

include unasked

theorem not_notices_of_unasked : ¬ o.Notices c h := by
  rintro ⟨hasked, -⟩
  rw [unasked] at hasked
  cases hasked

theorem Rewrites.accounts_sameWait (rewrites : Rewrites Task.SameWait o o') : Accounts c o o' :=
  rewrites.accounts fun _ _ _ hsame hunmarked =>
    hsame.carries hunmarked (not_notices_of_unasked unasked)

/-! ## The first stage -/

theorem Sound.accounts_enroll {spec : TaskSpec} (sound : o.Sound) (tagged' : o'.Tagged)
    (done : o.enroll spec { idle := c.starts } = .ok (h, o')) : Accounts c o o' := by
  obtain ⟨hnone, halone⟩ := sound.enroll_alone tagged' done
  obtain ⟨t, htenant, hactive, hflags⟩ := enroll_tenant done
  refine accounts_of_touchesOnly halone.toTouchesOnly
    (fun _ _ => not_notices_of_unasked unasked) ?_ ?_
  · intro t' _ hlive
    obtain rfl := Option.some.inj (htenant.symm.trans (tagged'.get?_eq_some.mp hlive).1)
    exact ⟨hactive, hflags⟩
  · intro t _ hbefore
    rw [hnone] at hbefore
    cases hbefore

theorem Sound.accounts_remove {was : Bool} (sound : o.Sound)
    (done : o.remove h = .ok (was, o')) : Accounts c o o' := by
  have hsound := sound.remove done
  obtain ⟨task, hget, -, -, hcase⟩ := of_remove_ok done
  have hconfined : Confined h.index o o' := by
    obtain ⟨htenant, hgeneration, hrow, hself⟩ := o.confined_vacate h.index
    rcases hcase with ⟨-, -, rfl⟩ | ⟨-, -, rfl⟩
    · exact ⟨htenant, hgeneration, hrow, hself⟩
    · exact ⟨htenant, hgeneration, hrow, hself⟩
  -- the slot is left empty, so the handle of the task names none whatever the generation
  have hgone : ∀ t', o'.get? h ≠ some t' := by
    intro t' hlive
    have htenant := hsound.live hlive
    have hempty : o'.tenant h.index = none := by
      rcases hcase with ⟨-, -, rfl⟩ | ⟨-, -, rfl⟩
      · exact Function.update_self ..
      · exact Function.update_self ..
    rw [hempty] at htenant
    cases htenant
  refine accounts_of_touchesOnly
    (hconfined.touchesOnly sound.tagged hsound.tagged (generation_of_get? hget))
    (fun _ _ => not_notices_of_unasked unasked) ?_ ?_
  · exact fun t' _ hlive => absurd hlive (hgone t')
  · exact fun _ t' _ hlive => absurd hlive (hgone t')

/-- A blocked task that is suspended leaves its wait without a mark. -/
theorem Sound.accounts_shelve {was : Bool} (sound : o.Sound) (unticked : c.ticks = 0)
    (uncut : c ≠ .cutShort h) (done : o.shelve h = .ok (was, o')) : Accounts c o o' := by
  have hsound := sound.shelve done
  obtain ⟨t, hget, -, ⟨-, -, rfl⟩ | ⟨-, -, -, rfl⟩⟩ := of_shelve_ok done
  · exact (untouched rfl rfl).accounts_sameWait unasked
  · refine sound.accounts_rewritten hsound hget
      (fun _ _ => not_notices_of_unasked unasked)
      (o.confined_reseat .back h.index _) rfl rfl ?_
    intro hunmarked
    by_cases hblocked : t.activity = .blocked
    · obtain ⟨htimed, hcut⟩ := hunmarked hblocked
      refine Task.carries_of_released hblocked (by rintro ⟨⟩) rfl ?_ ?_
      · exact iff_of_false (Bool.eq_false_iff.mp htimed) (unticked ▸ Nat.lt_irrefl 0)
      · exact iff_of_false (Bool.eq_false_iff.mp hcut) uncut
    · refine Task.SameWait.carries ?_ hunmarked (not_notices_of_unasked unasked)
      exact Task.sameWait_of_active hblocked (by rintro ⟨⟩) rfl

/-- A task that is blocked has its marks taken away. -/
theorem Sound.accounts_block {ticks : Tick} (sound : o.Sound)
    (done : o.block h ticks = .ok ((), o')) : Accounts c o o' := by
  have hsound := sound.block done
  obtain ⟨t, hget, -, hactivity, -, ⟨-, rfl⟩ | ⟨-, rfl⟩⟩ := of_block_ok done
  · exact (untouched rfl rfl).accounts_sameWait unasked
  · have hactive : t.activity ≠ .blocked := by
      rcases hactivity with hready | hrunning
      · rw [hready]
        rintro ⟨⟩
      · rw [hrunning]
        rintro ⟨⟩
    refine sound.accounts_rewritten hsound hget
      (fun _ _ => not_notices_of_unasked unasked)
      ((o.confined_reseat .back h.index _).wantSwitchIf _) rfl rfl fun _ => ?_
    obtain ⟨hblocked, -⟩ := o.held_away t ticks
    obtain ⟨-, hidle, -⟩ := o.held_keeps t ticks
    exact Task.carries_of_blocked hactive hblocked hidle (o.held_unmarked t ticks)

/-- A task that is woken, or whose wait is cut short, is marked by the call. -/
theorem Sound.accounts_endWait {early wanted : Bool} (sound : o.Sound)
    (call : c = if early then .cutShort h else .wake h)
    (done : o.endWait h early = .ok (wanted, o')) : Accounts c o o' := by
  have hsound := sound.endWait done
  obtain ⟨t, hget, hblocked, -, rfl⟩ := of_endWait_ok done
  refine sound.accounts_rewritten hsound hget
      (fun _ _ => not_notices_of_unasked unasked)
    ((o.confined_reseat .back h.index _).wantSwitchIf wanted) rfl rfl fun hunmarked => ?_
  obtain ⟨-, hcut⟩ := hunmarked hblocked
  refine Task.carries_of_released hblocked (by rintro ⟨⟩) rfl ?_ ?_
  · refine iff_of_false (by rintro ⟨⟩) ?_
    subst call
    cases early with
    | true => exact Nat.lt_irrefl 0
    | false => exact Nat.lt_irrefl 0
  · show (t.flags.cutShort || early) = true ↔ _
    rw [hcut, Bool.false_or, call]
    cases early with
    | true => exact iff_of_true rfl rfl
    | false => exact iff_of_false (by rintro ⟨⟩) (by rintro ⟨⟩)

end Unasked

/-! ### Ticks -/

/-- A tick ends waits, and marks those that it ends as timed out. -/
theorem Sound.tick_expires (sound : o.Sound) : Rewrites Task.Expires o o.tick.2 := by
  obtain ⟨spent, behind, due, heq⟩ := o.tick_passed
  have hrefl : ∀ t, Task.Expires t t := fun t => Or.inl (.refl t)
  have hcharged : Rewrites Task.Expires o o.chargeRunner := by
    rcases o.chargeRunner_cases with hsame | ⟨t, hrun, hput⟩
    · rw [hsame]
      exact rewrites_of_tenant hrefl rfl rfl
    · obtain ⟨-, hget⟩ := sound.of_running hrun
      have hcounted : Task.Expires t { t with runTicks := t.runTicks + 1 } :=
        Or.inl ⟨Iff.rfl, rfl⟩
      rw [hput]
      exact rewrites_of_update hrefl (sound.live hget) hcounted rfl rfl
  have hadvanced : Rewrites Task.Expires o.chargeRunner o.chargeRunner.advance := by
    rcases o.chargeRunner.advance_cases with ⟨-, hnow⟩ | ⟨-, hnow⟩
    · rw [hnow]
      exact rewrites_of_tenant hrefl rfl rfl
    · rw [hnow]
      exact rewrites_of_tenant hrefl rfl rfl
  -- so far no wait has ended; those that end now are of the tasks whose tick has come
  have hstruck := sound.chargeRunner.advance
  have hwoken : Rewrites Task.Expires o.chargeRunner.advance o.passed := by
    refine rewrites_makeAllReady hrefl fun i t hi hlive => Or.inr ⟨?_, (by rintro ⟨⟩), rfl⟩
    obtain ⟨t', hlive', hplace⟩ := hstruck.tagged.due.2 i hi
    obtain rfl := Option.some.inj (hlive.symm.trans hlive')
    rw [(hstruck.settled.fits hlive).activity, hplace]
    rfl
  have hpassed := (hcharged.trans hadvanced Task.Expires.trans).trans hwoken Task.Expires.trans
  rw [heq]
  exact ⟨hpassed.generation, hpassed.empty, hpassed.live⟩

theorem Sound.elapse_expires (sound : o.Sound) (n : Nat) (asked : Bool) :
    Rewrites Task.Expires o (elapseFrom asked n o).2 := by
  refine (Step.elapseFrom_keeps (I := fun o' => o'.Sound ∧ Rewrites Task.Expires o o') ?_ n asked
    ⟨sound, ?_⟩).2
  · rintro o' ⟨hsound, hrewrites⟩
    exact ⟨hsound.tick, hrewrites.trans hsound.tick_expires Task.Expires.trans⟩
  · exact rewrites_of_tenant (fun t => Or.inl (.refl t)) rfl rfl

/-- Ticks account for the waits that they end. -/
theorem Rewrites.accounts_expires (rewrites : Rewrites Task.Expires o o')
    (unasked : c.checks = false) (ticks : 0 < c.ticks) : Accounts c o o' :=
  rewrites.accounts fun _ _ _ hexpires hunmarked =>
    hexpires.carries hunmarked (not_notices_of_unasked unasked) ticks

/-! ### Calls that end no wait -/

/-- A task that is resumed was not blocked and is not. -/
theorem Sound.resume_sameWait {wanted : Bool} (sound : o.Sound)
    (done : o.resume h = .ok (wanted, o')) : Rewrites Task.SameWait o o' := by
  obtain ⟨t, hget, ⟨hsuspended, -, rfl⟩ | ⟨-, -, rfl⟩⟩ := of_resume_ok done
  · have hactive : t.activity ≠ .blocked := ne_of_eq_of_ne hsuspended (by decide)
    have hsame : Task.SameWait t (o.readied t) :=
      Task.sameWait_of_active hactive (by rintro ⟨⟩) rfl
    exact rewrites_of_update Task.SameWait.refl (sound.live hget) hsame rfl rfl
  · exact untouched rfl rfl

/-- A new priority does not end a wait. -/
theorem Sound.reprioritise_sameWait {priority : Nat} {wanted : Bool} (sound : o.Sound)
    (done : o.reprioritise h priority = .ok (wanted, o')) : Rewrites Task.SameWait o o' := by
  obtain ⟨-, t, hget, ⟨-, -, rfl⟩ | ⟨-, -, rfl⟩⟩ := of_reprioritise_ok done
  · exact untouched rfl rfl
  · have hlive := sound.live hget
    by_cases hqueued : queued t = true
    · obtain ⟨p, hplace⟩ := (queued_iff t).mp hqueued
      have hready := (sound.settled.fits hlive).ready_iff.mpr (Or.inl ⟨p, hplace⟩)
      have hsame : Task.SameWait t
          { t with priority := priority, activity := .ready, place := .ready priority } :=
        Task.sameWait_of_active (ne_of_eq_of_ne hready (by decide)) (by rintro ⟨⟩) rfl
      simp only [Outline.regrade, if_pos hqueued]
      exact rewrites_of_update Task.SameWait.refl hlive hsame rfl rfl
    · have hsame : Task.SameWait t { t with priority := priority } := ⟨Iff.rfl, rfl⟩
      simp only [Outline.regrade, if_neg hqueued]
      exact rewrites_of_update Task.SameWait.refl hlive hsame rfl rfl

theorem Sound.saveContext_sameWait {context : Nat} (sound : o.Sound)
    (done : o.saveContext h context = .ok ((), o')) : Rewrites Task.SameWait o o' := by
  obtain ⟨t, hget, rfl⟩ := of_saveContext_ok done
  have hsame : Task.SameWait t { t with context := context } := ⟨Iff.rfl, rfl⟩
  exact rewrites_of_update Task.SameWait.refl (sound.live hget) hsame rfl rfl

/-- Tasks that are called in were postponed and not blocked. -/
theorem Sound.thawAll_sameWait (sound : o.Sound) : Rewrites Task.SameWait o o.thawAll.2 := by
  rcases o.thawAll_cases with ⟨-, heq⟩ | ⟨-, heq⟩ | ⟨-, heq⟩
  · rw [heq]
    exact untouched rfl rfl
  · rw [heq]
    exact untouched rfl rfl
  · have hcalled : Rewrites Task.SameWait { o with depth := 0 }
        ({ o with depth := 0 }.makeAllReady id (o.row .postponed)) := by
      refine rewrites_makeAllReady Task.SameWait.refl fun i t hi hlive => ?_
      have hplace : t.place = .postponed := sound.tagged.place_of_mem hi hlive
      have hready := (sound.settled.fits hlive).ready_iff.mpr (Or.inr hplace)
      exact Task.sameWait_of_active (ne_of_eq_of_ne hready (by decide)) (by rintro ⟨⟩) rfl
    rw [heq]
    exact ⟨hcalled.generation, hcalled.empty, hcalled.live⟩

/-- The first of a ready level is not blocked, and is not once it is dispatched. -/
theorem Sound.dispatched_sameWait (sound : o.Sound) {p : Nat} {rest : List Nat}
    (row : o.row (.ready p) = i :: rest) (first : o.tenant i = some t) :
    Task.SameWait t { t with activity := .running, place := .unlinked } := by
  have hplace : t.place = .ready p := sound.tagged.place_head row first
  have hready := (sound.settled.fits first).ready_iff.mpr (Or.inl ⟨p, hplace⟩)
  exact Task.sameWait_of_active (ne_of_eq_of_ne hready (by decide)) (by rintro ⟨⟩) rfl

/-- The task that runs is not blocked. -/
theorem runner_active (running : o.runner = some h) (live : o.get? h = some t) :
    t.activity ≠ .blocked := by
  obtain ⟨-, t', hget, hrunning⟩ := runner_eq_some running
  obtain rfl := Option.some.inj (live.symm.trans hget)
  exact ne_of_eq_of_ne hrunning (by decide)

/-- A task that goes from the ready queue to the processor, or the other way round, is
    not blocked. -/
theorem Sound.choose_sameWait (sound : o.Sound) :
    Leaves (Rewrites Task.SameWait o) (choose o) := by
  have hchoice := choose_choice sound.tagged sound.runnerFree
  generalize choose o = r at hchoice ⊢
  cases hchoice with
  | frozen => exact untouched rfl rfl
  | barred => exact untouched rfl rfl
  | starved => exact untouched rfl rfl
  | kept => exact untouched rfl rfl
  | taken _ _ _ row first =>
      have hnext := sound.dispatched_sameWait row first
      exact rewrites_of_update Task.SameWait.refl first hnext rfl rfl
  | @replaced side p i rest task next _ running live top row first why =>
      have hback : Task.SameWait task
          { task with activity := .ready, place := .ready task.priority } :=
        Task.sameWait_of_active (runner_active running live) (by rintro ⟨⟩) rfl
      -- two records change: that of the task put back, and that of the one dispatched
      have hreplaced : Rewrites Task.SameWait o (o.cleared.putBack side task) :=
        rewrites_of_update Task.SameWait.refl (sound.live live) hback rfl rfl
      have hnext := sound.dispatched_sameWait row first
      have htenant := sound.cleared.putBack_tenant side running live row first
      refine hreplaced.trans ?_ Task.SameWait.trans
      exact rewrites_of_update Task.SameWait.refl htenant hnext rfl rfl

theorem Sound.closes_sameWait (sound : o.Sound) (closes : Closes o o') :
    Rewrites Task.SameWait o o' :=
  sound.of_closes closes (fun _ _ _ => untouched rfl rfl) Sound.choose_sameWait
    fun first second => first.trans second Task.SameWait.trans

/-! ### All calls -/

/-- The first stage of a call that does not ask is accounted for. -/
theorem Sound.accounts_opens (sound : o.Sound) (opens : Opens c o o') (unasked : c.checks = false) :
    Accounts c o o' := by
  have hsound := sound.opens opens
  cases opens with
  | nothing => exact (untouched rfl rfl).accounts_sameWait unasked
  | enrolled call done =>
      subst call
      exact sound.accounts_enroll rfl hsound.tagged done
  | enrolledIdle call done =>
      subst call
      obtain ⟨-, idle, o₁, hmade, rfl⟩ := of_enrollIdle_ok done
      have htagged : o₁.Tagged := hsound.tagged.congr rfl rfl rfl rfl rfl rfl rfl
      exact (sound.accounts_enroll rfl htagged hmade).rewrites
        (untouched rfl rfl)
  | removed _ done => exact sound.accounts_remove unasked done
  | shelved call done =>
      subst call
      exact sound.accounts_shelve rfl rfl (by rintro ⟨⟩) done
  | resumed _ done => exact (sound.resume_sameWait done).accounts_sameWait unasked
  | regraded _ done => exact (sound.reprioritise_sameWait done).accounts_sameWait unasked
  | saved _ done => exact (sound.saveContext_sameWait done).accounts_sameWait unasked
  | blocked done => exact sound.accounts_block unasked done
  | woken call done => exact sound.accounts_endWait unasked call done
  | noticed call =>
      subst call
      cases unasked
  | ticked call =>
      subst call
      exact sound.tick_expires.accounts_expires rfl Nat.one_pos
  | @elapsed ticks call =>
      subst call
      -- to let no tick pass ends no wait, though the call is one that lets ticks pass
      rcases Nat.eq_zero_or_pos ticks.toNat with hzero | hpos
      · rw [hzero]
        exact (untouched rfl rfl).accounts_sameWait rfl
      · exact (sound.elapse_expires ticks.toNat false).accounts_expires rfl hpos
  | frozen =>
      have hfrozen : Rewrites Task.SameWait o o.freezeAll.2 := untouched rfl rfl
      exact hfrozen.accounts_sameWait unasked
  | thawed => exact sound.thawAll_sameWait.accounts_sameWait unasked

/-- To ask about its wait uses up a mark of the task that runs. -/
theorem Sound.accounts_takeCutShort (sound : o.Sound) (asked : c.checks = true) :
    Accounts c o o.takeCutShort.2 := by
  have hsound := sound.takeCutShort
  cases hrun : o.runner.bind o.get? with
  | none =>
      have hunnoticed : ∀ h, ¬ o.Notices c h := by
        rintro h ⟨-, hrunner⟩
        obtain ⟨-, t, hget, -⟩ := runner_eq_some hrunner
        rw [hrunner, Option.bind_some, hget] at hrun
        cases hrun
      have hsame : o.takeCutShort.2 = o := by
        simp only [Outline.takeCutShort, hrun]
      rw [hsame]
      exact (untouched rfl rfl).accounts
        fun h _ _ hwait hunmarked => hwait.carries hunmarked (hunnoticed h)
  | some t =>
      obtain ⟨hrunner, hget⟩ := sound.of_running hrun
      have hothers : ∀ h', h' ≠ t.handle → ¬ o.Notices c h' := by
        rintro h' hne ⟨-, hrunner'⟩
        exact hne (Option.some.inj (hrunner'.symm.trans hrunner))
      have hactive : t.activity ≠ .blocked := runner_active hrunner hget
      have hnoticed : o.Notices c t.handle := ⟨asked, hrunner⟩
      by_cases hcut : t.flags.cutShort = true
      · have hput : o.takeCutShort.2
            = o.put t.handle.index { t with flags := { t.flags with cutShort := false } } := by
          simp only [Outline.takeCutShort, hrun, if_pos hcut]
        rw [hput] at hsound ⊢
        refine sound.accounts_rewritten hsound hget hothers (o.confined_put _ _) rfl rfl fun _ => ?_
        refine Task.carries_of_active hactive hactive rfl rfl ?_
        exact iff_of_false (by rintro ⟨⟩) (fun hkept => hkept.2 hnoticed)
      · -- there is no mark to use up, and the record is as if written again
        have hsame : o.takeCutShort.2 = o := by
          simp only [Outline.takeCutShort, hrun, if_neg hcut]
        have htenant : o.tenant = update o.tenant t.handle.index (some t) := by
          rw [← sound.live hget]
          exact (Function.update_eq_self _ o.tenant).symm
        rw [hsame]
        refine sound.accounts_rewritten sound hget hothers (.refl _ o) rfl htenant fun _ => ?_
        refine Task.carries_of_active hactive hactive rfl rfl ?_
        exact iff_of_false hcut (fun hkept => hcut hkept.1)

/-- Every call is accounted for. -/
theorem Sound.accounts_call (sound : o.Sound) {r : Except Refusal Reply}
    (ran : Step.attempt (run c) o = .ok r o') : Accounts c o o' := by
  cases hchecks : c.checks with
  | false =>
      obtain ⟨o₁, hopens, hcloses⟩ := staged_of_attempt ran
      exact (sound.accounts_opens hopens hchecks).rewrites
        ((sound.opens hopens).closes_sameWait hcloses)
  | true =>
      cases c with
      | checkWait since remaining =>
          refine leaves_of_attempt (leaves_checkWait since remaining ?_) ran
          exact sound.accounts_takeCutShort hchecks
      | _ => cases hchecks

end Outline

end PriorityScheduler
