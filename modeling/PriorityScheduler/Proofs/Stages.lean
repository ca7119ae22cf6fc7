import PriorityScheduler.Proofs.Lasting

/-! # The two stages of a call

    A call does one thing first: to a task, to the clock, or to the suspension.  Then it
    is done, or it leaves the mark of a switch, or it makes a choice.  What holds of all
    calls can so be proved of the first stage, one step at a time, and of a choice.  That
    is done here for what a call CONSERVES, if it is not made to change it. -/

namespace PriorityScheduler

open Step (Leaves)

namespace Outline

variable {c : Call} {o o₁ o' : Outline}

/-- What the first stage of a call leaves behind. -/
inductive Opens (c : Call) (o : Outline) : Outline → Prop where
  | nothing : Opens c o o
  | enrolled {spec h} {o' : Outline} (call : c = .create spec)
      (done : o.enroll spec {} = .ok (h, o')) : Opens c o o'
  | enrolledIdle {entry} {o' : Outline} (call : c = .start entry)
      (done : o.enrollIdle entry = .ok ((), o')) : Opens c o o'
  | removed {h was} {o' : Outline} (call : c = .delete h) (done : o.remove h = .ok (was, o')) :
      Opens c o o'
  | shelved {h was} {o' : Outline} (call : c = .suspend h) (done : o.shelve h = .ok (was, o')) :
      Opens c o o'
  | resumed {h wanted} {o' : Outline} (call : c = .resume h)
      (done : o.resume h = .ok (wanted, o')) : Opens c o o'
  | regraded {h priority wanted} {o' : Outline} (call : c = .reprioritise h priority)
      (done : o.reprioritise h priority = .ok (wanted, o')) : Opens c o o'
  | saved {h context} {o' : Outline} (call : c = .saveContext h context)
      (done : o.saveContext h context = .ok ((), o')) : Opens c o o'
  | blocked {h ticks} {o' : Outline} (done : o.block h ticks = .ok ((), o')) : Opens c o o'
  | woken {h early wanted} {o' : Outline} (call : c = if early then .cutShort h else .wake h)
      (done : o.endWait h early = .ok (wanted, o')) : Opens c o o'
  | noticed {since remaining} (call : c = .checkWait since remaining) : Opens c o o.takeCutShort.2
  | ticked (call : c = .tick) : Opens c o o.tick.2
  | elapsed {ticks} (call : c = .elapse ticks) : Opens c o (elapseFrom false ticks.toNat o).2
  | frozen (call : c = .freezeAll) : Opens c o o.freezeAll.2
  | thawed (call : c = .thawAll) : Opens c o o.thawAll.2

/-- What the second stage of a call leaves behind. -/
inductive Closes (o : Outline) : Outline → Prop where
  | nothing : Closes o o
  | marked : Closes o { o with switchDue := true }
  | chosen {o' : Outline} (behind : Bool)
      (choice : Leaves (· = o') (choose { o with sendBehind := behind })) : Closes o o'

/-- What a call leaves behind, stage by stage. -/
def Staged (c : Call) (o o' : Outline) : Prop :=
  ∃ o₁, Opens c o o₁ ∧ Closes o₁ o'

theorem Opens.staged (opens : Opens c o o') : Staged c o o' :=
  ⟨o', opens, .nothing⟩

/-- The first stage keeps an outline sound. -/
theorem Sound.opens (sound : o.Sound) (opens : Opens c o o') : o'.Sound := by
  cases opens with
  | nothing => exact sound
  | enrolled _ done => exact kept_sound.enroll sound done
  | enrolledIdle _ done => exact sound.enrollIdle done
  | removed _ done => exact sound.remove done
  | shelved _ done => exact sound.shelve done
  | resumed _ done => exact sound.resume done
  | regraded _ done => exact sound.reprioritise done
  | saved _ done => exact sound.saveContext done
  | blocked done => exact sound.block done
  | woken _ done => exact sound.endWait done
  | noticed => exact sound.takeCutShort
  | ticked => exact sound.tick
  | elapsed => exact Step.elapseFrom_keeps (fun sound => sound.tick) _ _ sound
  | frozen => exact sound.freezeAll
  | thawed => exact sound.thawAll

/-! ## The second stage -/

/-- A relation holds over the second stage if it allows for marks and holds over a choice. -/
theorem Sound.of_closes {R : Outline → Outline → Prop} (sound : o.Sound) (closes : Closes o o')
    (marks : ∀ (o : Outline) behind due, R o { o with sendBehind := behind, switchDue := due })
    (chosen : ∀ {o : Outline}, o.Sound → Leaves (R o) (Outline.choose o))
    (trans : ∀ {o o₁ o'}, R o o₁ → R o₁ o' → R o o') : R o o' := by
  cases closes with
  | nothing => exact marks o o.sendBehind o.switchDue
  | marked => exact marks o o.sendBehind true
  | chosen behind choice =>
      have hsound : { o with sendBehind := behind }.Sound := sound.remark _ _ behind _ _
      exact trans (marks o behind o.switchDue) ((chosen hsound).of_eq choice)

section Closing

variable (opens : Opens c o o₁)

include opens

theorem Opens.choose (behind : Bool) :
    Leaves (Staged c o) (Outline.choose { o₁ with sendBehind := behind }) := by
  cases hr : Outline.choose { o₁ with sendBehind := behind } with
  | ok next o' =>
      refine ⟨o₁, opens, .chosen behind ?_⟩
      rw [hr]
      rfl
  | error e o' =>
      refine ⟨o₁, opens, .chosen behind ?_⟩
      rw [hr]
      rfl

theorem Opens.switch : Leaves (Staged c o) (Outline.switch o₁) :=
  Step.leaves_switch (opens.choose o₁.sendBehind)

theorem Opens.cede : Leaves (Staged c o) (Outline.cede o₁) :=
  Step.leaves_switch (o := { o₁ with sendBehind := true }) (opens.choose true)

theorem Opens.replaceRunner : Leaves (Staged c o) (Outline.replaceRunner o₁) := by
  show Leaves (Staged c o) ((if (o₁.everDispatched && decide (o₁.depth = 0)) = true then
      Outline.switch >>= fun _ => pure ()
    else modify fun o => { o with switchDue := true } : Step Unit) o₁)
  by_cases hopen : (o₁.everDispatched && decide (o₁.depth = 0)) = true
  · rw [if_pos hopen]
    exact Step.leaves_answer opens.switch fun _ _ => ⟨_, rfl⟩
  · rw [if_neg hopen]
    exact ⟨o₁, opens, .marked⟩

/-- A task that has left the processor is replaced, and any other is not. -/
theorem Opens.replaceIf (was : Bool) :
    Leaves (Staged c o) ((if was = true then Outline.replaceRunner else pure ()) o₁) := by
  cases was with
  | true => exact opens.replaceRunner
  | false => exact opens.staged

end Closing

/-! ## Calls -/

/-- A task that pauses is blocked before a choice is made, or lets its peers go first. -/
theorem staged_pause (ticks : Tick) : Leaves (Staged c o) (pause ticks o) := by
  refine Step.leaves_guarded Opens.nothing.staged fun cur o' found => ?_
  obtain ⟨rfl, -⟩ := of_needRunner found
  by_cases hticks : ticks = 0
  · rw [if_pos hticks]
    exact Step.leaves_answer Opens.nothing.cede fun _ _ => ⟨_, rfl⟩
  · rw [if_neg hticks]
    refine Step.leaves_guarded Opens.nothing.staged fun _ o₁ done => ?_
    exact Step.leaves_answer (Opens.blocked done).switch fun _ _ => ⟨_, rfl⟩

theorem staged_pausePeriod (anchor period : Tick) :
    Leaves (Staged c o) (pausePeriod anchor period o) := by
  refine Step.leaves_guarded Opens.nothing.staged fun cur o' found => ?_
  obtain ⟨rfl, -⟩ := of_needRunner found
  show Leaves (Staged c o') ((if periodAhead anchor period o'.now then _ else _ : Step _) o')
  by_cases hahead : periodAhead anchor period o'.now = true
  · rw [if_pos hahead]
    refine Step.leaves_guarded Opens.nothing.staged fun _ o₁ done => ?_
    exact Step.leaves_answer (Opens.blocked done).switch fun _ _ => ⟨_, rfl⟩
  · rw [if_neg hahead]
    exact Step.leaves_answer Opens.nothing.cede fun _ _ => ⟨_, rfl⟩

/-- What holds once a mark is used up holds after a task has asked about its wait. -/
theorem leaves_checkWait {I : Outline → Prop} (since : Moment) (remaining : Tick)
    (taken : I o.takeCutShort.2) : Leaves I (run (.checkWait since remaining) o) := by
  refine Step.leaves_answer (Step.leaves_answer (s := Step.always Outline.takeCutShort) taken ?_)
    fun _ _ => ⟨_, rfl⟩
  intro cut o'
  cases cut with
  | true => exact ⟨_, rfl⟩
  | false => exact ⟨_, rfl⟩

/-- Every call has the two stages. -/
theorem staged_run (c : Call) (o : Outline) : Leaves (Staged c o) (run c o) := by
  have hself : Staged c o o := Opens.nothing.staged
  cases c with
  | create spec => exact Step.leaves_guarded hself fun _ _ done => (Opens.enrolled rfl done).staged
  | start entry =>
      refine Step.leaves_answer (Step.leaves_guarded hself fun _ o₁ done => ?_) fun _ _ => ⟨_, rfl⟩
      exact (Opens.enrolledIdle rfl done).choose o₁.sendBehind
  | delete h =>
      refine Step.leaves_answer (Step.leaves_guarded hself fun was o₁ done => ?_) fun _ _ => ⟨_, rfl⟩
      exact (Opens.removed rfl done).replaceIf was
  | suspend h =>
      refine Step.leaves_answer (Step.leaves_guarded hself fun was o₁ done => ?_) fun _ _ => ⟨_, rfl⟩
      exact (Opens.shelved rfl done).replaceIf was
  | resume h => exact Step.leaves_guarded hself fun _ _ done => (Opens.resumed rfl done).staged
  | reprioritise h p =>
      exact Step.leaves_guarded hself fun _ _ done => (Opens.regraded rfl done).staged
  | saveContext h context =>
      exact Step.leaves_guarded hself fun _ _ done => (Opens.saved rfl done).staged
  | block h ticks => exact Step.leaves_guarded hself fun _ _ done => (Opens.blocked done).staged
  | pause ticks => exact Step.leaves_answer (staged_pause ticks) fun _ _ => ⟨_, rfl⟩
  | pausePeriod anchor period =>
      exact Step.leaves_answer (staged_pausePeriod anchor period) fun _ _ => ⟨_, rfl⟩
  | wake h =>
      exact Step.leaves_guarded (f := (·.endWait h false)) hself fun _ _ done =>
        Opens.staged (.woken (if_neg Bool.false_ne_true).symm done)
  | cutShort h =>
      exact Step.leaves_guarded (f := (·.endWait h true)) hself fun _ _ done =>
        Opens.staged (.woken (if_pos rfl).symm done)
  | tick => exact (Opens.ticked rfl).staged
  | elapse ticks => exact (Opens.elapsed rfl).staged
  | freezeAll => exact (Opens.frozen rfl).staged
  | thawAll => exact (Opens.thawed rfl).staged
  | choose => exact Step.leaves_answer (Opens.nothing.choose o.sendBehind) fun _ _ => ⟨_, rfl⟩
  | planSwitch =>
      exact Step.leaves_answer (Step.leaves_planSwitch (Opens.nothing.choose o.sendBehind))
        fun _ _ => ⟨_, rfl⟩
  | switch => exact Step.leaves_answer Opens.nothing.switch fun _ _ => ⟨_, rfl⟩
  | cede => exact Step.leaves_answer Opens.nothing.cede fun _ _ => ⟨_, rfl⟩
  | checkWait since remaining =>
      exact leaves_checkWait since remaining (Opens.noticed rfl).staged

/-- What a call leaves behind is what its attempt leaves behind. -/
theorem leaves_of_attempt {I : Outline → Prop} {r : Except Refusal Reply}
    (leaves : Leaves I (run c o)) (ran : Step.attempt (run c) o = .ok r o') : I o' := by
  rcases Step.of_attempt_ok ran with ⟨a, -, hrun⟩ | ⟨cause, -, hrun⟩
  · rw [hrun] at leaves
    exact leaves
  · rw [hrun] at leaves
    exact leaves

/-- A call that ends has gone through its stages. -/
theorem staged_of_attempt {r : Except Refusal Reply} (ran : Step.attempt (run c) o = .ok r o') :
    Staged c o o' :=
  leaves_of_attempt (staged_run c o) ran

/-! ## What a call conserves -/

/-- Only a deletion vacates a slot, only two calls change how often scheduling is suspended,
    and only ticks move the clock. -/
structure Conserves (c : Call) (o o' : Outline) : Prop where
  generation : (∀ h, c ≠ .delete h) → o'.generation = o.generation
  depth : c ≠ .freezeAll → c ≠ .thawAll → o'.depth = o.depth
  clock : c ≠ .tick → (∀ ticks, c ≠ .elapse ticks) → o'.now = o.now ∧ o'.wraps = o.wraps

theorem Conserves.trans (first : Conserves c o o₁) (second : Conserves c o₁ o') :
    Conserves c o o' where
  generation keeps := (second.generation keeps).trans (first.generation keeps)
  depth freeze thaw := (second.depth freeze thaw).trans (first.depth freeze thaw)
  clock tick elapse :=
    have hfirst := first.clock tick elapse
    have hsecond := second.clock tick elapse
    ⟨hsecond.1.trans hfirst.1, hsecond.2.trans hfirst.2⟩

theorem conserves_of_eq (generation : o'.generation = o.generation) (depth : o'.depth = o.depth)
    (now : o'.now = o.now) (wraps : o'.wraps = o.wraps) : Conserves c o o' :=
  ⟨fun _ => generation, fun _ _ => depth, fun _ _ => ⟨now, wraps⟩⟩

theorem Stays.conserves (stays : Stays o o') : Conserves c o o' :=
  conserves_of_eq stays.generation stays.depth stays.now stays.wraps

theorem conserves_regrade (o : Outline) (i : Nat) (task : Task) (priority : Nat) :
    Conserves c o (o.regrade i task priority) := by
  simp only [regrade]
  by_cases hqueued : queued task = true
  · rw [if_pos hqueued]
    exact conserves_of_eq rfl rfl rfl rfl
  · rw [if_neg hqueued]
    exact conserves_of_eq rfl rfl rfl rfl

theorem conserves_enroll {spec : TaskSpec} {flags : Flags} {h : Handle}
    (done : o.enroll spec flags = .ok (h, o')) : Conserves c o o' := by
  obtain ⟨-, -, -, -, ⟨-, rfl⟩ | ⟨-, -, rfl, -⟩⟩ := of_enroll_ok done
  · exact conserves_of_eq rfl rfl rfl rfl
  · exact conserves_of_eq rfl rfl rfl rfl

/-- The first stage of a call conserves what the call does. -/
theorem Opens.conserves (opens : Opens c o o₁) : Conserves c o o₁ := by
  cases opens with
  | nothing => exact (Stays.refl o).conserves
  | enrolled _ done => exact conserves_enroll done
  | enrolledIdle _ done =>
      obtain ⟨-, _, _, hmade, rfl⟩ := of_enrollIdle_ok done
      exact (conserves_enroll hmade).trans (conserves_of_eq rfl rfl rfl rfl)
  | @removed h _ _ call done =>
      refine ⟨fun keeps => absurd call (keeps h), fun _ _ => (lasts_remove done).depth, ?_⟩
      intro _ _
      obtain ⟨-, -, -, -, ⟨-, -, rfl⟩ | ⟨-, -, rfl⟩⟩ := of_remove_ok done
      · exact ⟨rfl, rfl⟩
      · exact ⟨rfl, rfl⟩
  | shelved _ done =>
      obtain ⟨-, -, -, ⟨-, -, rfl⟩ | ⟨-, -, -, rfl⟩⟩ := of_shelve_ok done
      · exact (Stays.refl _).conserves
      · exact conserves_of_eq rfl rfl rfl rfl
  | resumed _ done =>
      obtain ⟨-, -, ⟨-, -, rfl⟩ | ⟨-, -, rfl⟩⟩ := of_resume_ok done
      · exact conserves_of_eq rfl rfl rfl rfl
      · exact (Stays.refl _).conserves
  | regraded _ done =>
      obtain ⟨-, _, -, ⟨-, -, rfl⟩ | ⟨-, -, rfl⟩⟩ := of_reprioritise_ok done
      · exact (Stays.refl _).conserves
      · exact (o.conserves_regrade ..).trans (conserves_of_eq rfl rfl rfl rfl)
  | saved _ done =>
      obtain ⟨-, -, rfl⟩ := of_saveContext_ok done
      exact conserves_of_eq rfl rfl rfl rfl
  | blocked done =>
      obtain ⟨-, -, -, -, -, ⟨-, rfl⟩ | ⟨-, rfl⟩⟩ := of_block_ok done
      · exact (Stays.refl _).conserves
      · exact conserves_of_eq rfl rfl rfl rfl
  | woken _ done =>
      obtain ⟨-, -, -, -, rfl⟩ := of_endWait_ok done
      exact conserves_of_eq rfl rfl rfl rfl
  | noticed =>
      simp only [takeCutShort]
      split
      · exact (Stays.refl _).conserves
      · split
        · exact conserves_of_eq rfl rfl rfl rfl
        · exact (Stays.refl _).conserves
  | ticked call =>
      exact ⟨fun _ => o.tick_generation, fun _ _ => o.lasts_tick.depth, fun tick => absurd call tick⟩
  | @elapsed ticks call =>
      have hkept := Step.elapseFrom_keeps
        (I := fun o' => o'.generation = o.generation ∧ o'.depth = o.depth)
        (fun {o'} same => ⟨o'.tick_generation.trans same.1, o'.lasts_tick.depth.trans same.2⟩)
        ticks.toNat false ⟨rfl, rfl⟩
      exact ⟨fun _ => hkept.1, fun _ _ => hkept.2, fun _ elapse => absurd call (elapse ticks)⟩
  | frozen call => exact ⟨fun _ => rfl, fun freeze => absurd call freeze, fun _ _ => ⟨rfl, rfl⟩⟩
  | thawed call =>
      rcases o.thawAll_cases with ⟨-, heq⟩ | ⟨-, heq⟩ | ⟨-, heq⟩
      · rw [heq]
        exact (Stays.refl o).conserves
      · rw [heq]
        exact ⟨fun _ => rfl, fun _ thaw => absurd call thaw, fun _ _ => ⟨rfl, rfl⟩⟩
      · rw [heq]
        exact ⟨fun _ => rfl, fun _ thaw => absurd call thaw, fun _ _ => ⟨rfl, rfl⟩⟩

theorem Sound.staged_conserves (sound : o.Sound) (staged : Staged c o o') : Conserves c o o' := by
  obtain ⟨o₁, hopens, hcloses⟩ := staged
  have hstays := (sound.opens hopens).of_closes hcloses stays_remark Sound.choose_stays Stays.trans
  exact hopens.conserves.trans hstays.conserves

/-- A call that ends conserves all that it is not made to change. -/
theorem Sound.conserves_call (sound : o.Sound) {r : Except Refusal Reply}
    (ran : Step.attempt (run c) o = .ok r o') : Conserves c o o' :=
  sound.staged_conserves (staged_of_attempt ran)

end Outline

end PriorityScheduler
