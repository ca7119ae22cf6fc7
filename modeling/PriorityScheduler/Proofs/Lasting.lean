import PriorityScheduler.Proofs.Frames

/-! # What lasts through a call

    No call changes the settings, and the table never has more slots than they
    allow.  While scheduling is suspended the mark of a switch lasts as well: a
    choice that is put off leaves it, and only the end of the suspension goes on
    from there. -/

namespace PriorityScheduler

namespace Outline

variable {o o' : Outline} {h : Handle}

/-- The settings, the suspension, the mark of a switch and the room in the table
    last from one outline to another. -/
structure Lasts (o o' : Outline) : Prop where
  settings : o'.settings = o.settings
  depth : o'.depth = o.depth
  due : o.switchDue = true → o'.switchDue = true
  room : o.size ≤ o.settings.capacity → o'.size ≤ o.settings.capacity

theorem Lasts.refl (o : Outline) : Lasts o o :=
  ⟨rfl, rfl, id, id⟩

/-- They last when one more mark is left at most. -/
theorem lasts_of_or {wanted : Bool} (settings : o'.settings = o.settings)
    (depth : o'.depth = o.depth) (due : o'.switchDue = (o.switchDue || wanted))
    (room : o.size ≤ o.settings.capacity → o'.size ≤ o.settings.capacity) : Lasts o o' := by
  refine ⟨settings, depth, ?_, room⟩
  intro hdue
  rw [due, hdue, Bool.true_or]

/-! ## Steps -/

/-- A task moves into a slot that there is, or into a new one while there is room. -/
theorem lasts_enroll (tagged : o.Tagged) {spec : TaskSpec} {flags : Flags}
    (done : o.enroll spec flags = .ok (h, o')) : Lasts o o' := by
  obtain ⟨-, i, hvacancy, -, hcase⟩ := of_enroll_ok done
  have hroom : o.size ≤ o.settings.capacity → max o.size (i + 1) ≤ o.settings.capacity := by
    intro hle
    rcases tagged.vacancy_cases hvacancy with ⟨rest, -, hlt, -, -⟩ | ⟨-, rfl, hlt, -⟩
    · omega
    · omega
  rcases hcase with ⟨-, rfl⟩ | ⟨-, wanted, rfl, -⟩
  · exact ⟨rfl, rfl, id, hroom⟩
  · exact lasts_of_or rfl rfl rfl hroom

theorem lasts_enrollIdle (tagged : o.Tagged) {entry : Nat}
    (done : o.enrollIdle entry = .ok ((), o')) : Lasts o o' := by
  obtain ⟨-, idle, o'', hmade, rfl⟩ := of_enrollIdle_ok done
  obtain ⟨hsettings, hdepth, hdue, hroom⟩ := lasts_enroll tagged hmade
  exact ⟨hsettings, hdepth, hdue, hroom⟩

theorem lasts_remove {was : Bool} (done : o.remove h = .ok (was, o')) : Lasts o o' := by
  obtain ⟨-, -, -, -, ⟨-, -, rfl⟩ | ⟨-, -, rfl⟩⟩ := of_remove_ok done
  · exact ⟨rfl, rfl, id, id⟩
  · exact ⟨rfl, rfl, id, id⟩

theorem lasts_shelve {was : Bool} (done : o.shelve h = .ok (was, o')) : Lasts o o' := by
  obtain ⟨-, -, -, ⟨-, -, rfl⟩ | ⟨-, -, -, rfl⟩⟩ := of_shelve_ok done
  · exact .refl _
  · exact ⟨rfl, rfl, id, id⟩

theorem lasts_resume {wanted : Bool} (done : o.resume h = .ok (wanted, o')) : Lasts o o' := by
  obtain ⟨-, -, ⟨-, -, rfl⟩ | ⟨-, -, rfl⟩⟩ := of_resume_ok done
  · exact lasts_of_or rfl rfl rfl id
  · exact .refl _

theorem lasts_regrade (o : Outline) (i : Nat) (task : Task) (priority : Nat) :
    Lasts o (o.regrade i task priority) := by
  simp only [regrade]
  by_cases hqueued : queued task = true
  · rw [if_pos hqueued]
    exact ⟨rfl, rfl, id, id⟩
  · rw [if_neg hqueued]
    exact ⟨rfl, rfl, id, id⟩

theorem lasts_reprioritise {priority : Nat} {wanted : Bool}
    (done : o.reprioritise h priority = .ok (wanted, o')) : Lasts o o' := by
  obtain ⟨-, task, -, ⟨-, -, rfl⟩ | ⟨-, -, rfl⟩⟩ := of_reprioritise_ok done
  · exact .refl _
  · obtain ⟨hsettings, hdepth, hdue, hroom⟩ := o.lasts_regrade h.index task priority
    refine ⟨hsettings, hdepth, fun hwas => ?_, hroom⟩
    exact Bool.or_eq_true_iff.mpr (Or.inl (hdue hwas))

theorem lasts_saveContext {context : Nat} (done : o.saveContext h context = .ok ((), o')) :
    Lasts o o' := by
  obtain ⟨-, -, rfl⟩ := of_saveContext_ok done
  exact ⟨rfl, rfl, id, id⟩

theorem lasts_block {ticks : Tick} (done : o.block h ticks = .ok ((), o')) : Lasts o o' := by
  obtain ⟨-, -, -, -, -, ⟨-, rfl⟩ | ⟨-, rfl⟩⟩ := of_block_ok done
  · exact .refl _
  · exact lasts_of_or rfl rfl rfl id

theorem lasts_endWait {early wanted : Bool} (done : o.endWait h early = .ok (wanted, o')) :
    Lasts o o' := by
  obtain ⟨-, -, -, -, rfl⟩ := of_endWait_ok done
  exact lasts_of_or rfl rfl rfl id

theorem lasts_takeCutShort (o : Outline) : Lasts o o.takeCutShort.2 := by
  simp only [takeCutShort]
  cases o.runner.bind o.get? with
  | none => exact .refl _
  | some task =>
      dsimp only
      by_cases hcut : task.flags.cutShort = true
      · rw [if_pos hcut]
        exact ⟨rfl, rfl, id, id⟩
      · rw [if_neg hcut]
        exact .refl _

/-- The mark of a switch lasts through a tick, which adds to it at most. -/
theorem lasts_tick (o : Outline) : Lasts o o.tick.2 := by
  obtain ⟨-, -, hdepth⟩ := o.tick_clock
  obtain ⟨hsettings, hsize⟩ := o.tick_settings
  refine ⟨hsettings, hdepth, fun hwas => ?_, fun hle => hsize.trans_le hle⟩
  obtain ⟨-, -, -, -, hdue, -⟩ := o.passed_rest
  obtain ⟨spent, behind, heq⟩ := o.passed.judge_snd
  show o.passed.answerTick.2.switchDue = true
  simp only [answerTick, heq]
  by_cases hopen : o.passed.depth = 0
  · rw [if_pos hopen]
    exact hdue.trans hwas
  · rw [if_neg hopen]
    exact Bool.or_eq_true_iff.mpr (Or.inl (hdue.trans hwas))

/-! ## Calls -/

/-- What lasts along with the settings, the suspension and the mark of a switch is
    kept by every call that keeps it where it chooses, suspends or ends a
    suspension. -/
theorem kept_of_lasting {I : Outline → Prop} {allowed : Call → Prop}
    (lasting : ∀ {o o'}, Lasts o o' → I o → I o')
    (chosen : ∀ {o}, o.Sound → I o → Step.Leaves I (choose o))
    (frozen : ∀ {o}, I o → I o.freezeAll.2)
    (thawed : ∀ {o}, allowed .thawAll → I o → I o.thawAll.2) :
    Step.Kept (fun o => o.Sound ∧ I o) allowed where
  enroll := fun ⟨sound, ho⟩ done =>
    ⟨kept_sound.enroll sound done, lasting (lasts_enroll sound.tagged done) ho⟩
  enrollIdle := fun ⟨sound, ho⟩ done =>
    ⟨sound.enrollIdle done, lasting (lasts_enrollIdle sound.tagged done) ho⟩
  remove := fun _ ⟨sound, ho⟩ done => ⟨sound.remove done, lasting (lasts_remove done) ho⟩
  shelve := fun _ ⟨sound, ho⟩ done => ⟨sound.shelve done, lasting (lasts_shelve done) ho⟩
  resume := fun ⟨sound, ho⟩ done => ⟨sound.resume done, lasting (lasts_resume done) ho⟩
  reprioritise := fun ⟨sound, ho⟩ done =>
    ⟨sound.reprioritise done, lasting (lasts_reprioritise done) ho⟩
  saveContext := fun ⟨sound, ho⟩ done =>
    ⟨sound.saveContext done, lasting (lasts_saveContext done) ho⟩
  block := fun ⟨sound, ho⟩ done => ⟨sound.block done, lasting (lasts_block done) ho⟩
  endWait := fun _ ⟨sound, ho⟩ done => ⟨sound.endWait done, lasting (lasts_endWait done) ho⟩
  choose := by
    rintro o ⟨sound, ho⟩
    have hsound := keeps_sound_choose o sound
    have hchosen := chosen sound ho
    generalize choose o = r at hsound hchosen ⊢
    cases r with
    | ok cur o' => exact ⟨hsound, hchosen⟩
    | error e o' => exact ⟨hsound, hchosen⟩
  sendBehind := by
    rintro o ⟨sound, ho⟩
    have hlasts : Lasts o { o with sendBehind := true } := ⟨rfl, rfl, id, id⟩
    exact ⟨kept_sound.sendBehind sound, lasting hlasts ho⟩
  wantSwitch := by
    rintro o ⟨sound, ho⟩
    have hlasts : Lasts o { o with switchDue := true } := ⟨rfl, rfl, fun _ => rfl, id⟩
    exact ⟨kept_sound.wantSwitch sound, lasting hlasts ho⟩
  freezeAll := fun ⟨sound, ho⟩ => ⟨sound.freezeAll, frozen ho⟩
  thawAll := fun hc ⟨sound, ho⟩ => ⟨sound.thawAll, thawed hc ho⟩
  tick := fun _ ⟨sound, ho⟩ => ⟨sound.tick, lasting (lasts_tick _) ho⟩
  elapse := by
    intro o ticks _ hboth
    refine Step.elapseFrom_keeps (I := fun o => o.Sound ∧ I o) ?_ _ _ hboth
    rintro o ⟨sound, ho⟩
    exact ⟨sound.tick, lasting o.lasts_tick ho⟩
  takeCutShort := fun ⟨sound, ho⟩ => ⟨sound.takeCutShort, lasting (lasts_takeCutShort _) ho⟩

/-- What goes by the settings and the number of slots is kept by every call, if it
    is kept by more slots for which there is room. -/
theorem kept_of_room {P : Settings → Nat → Prop}
    (room : ∀ {s size size'}, (size ≤ s.capacity → size' ≤ s.capacity) → P s size → P s size') :
    Step.Kept (fun o => o.Sound ∧ P o.settings o.size) fun _ => True := by
  refine kept_of_lasting ?_ ?_ id ?_
  · intro o o' lasts ho
    rw [lasts.settings]
    exact room lasts.room ho
  · intro o sound ho
    refine sound.choose_stays.mono fun stays => ?_
    rw [stays.settings, stays.size]
    exact ho
  · intro o _ ho
    rcases o.thawAll_cases with ⟨-, heq⟩ | ⟨-, heq⟩ | ⟨-, heq⟩
    · rw [heq]
      exact ho
    · rw [heq]
      exact ho
    · rw [heq]
      exact ho

/-- No call changes the settings. -/
theorem kept_settings (s : Settings) :
    Step.Kept (fun o => o.Sound ∧ o.settings = s) fun _ => True :=
  kept_of_room (P := fun s' _ => s' = s) fun _ same => same

/-- No call makes the table larger than the settings allow. -/
theorem kept_room : Step.Kept (fun o => o.Sound ∧ o.size ≤ o.settings.capacity) fun _ => True :=
  kept_of_room (P := fun s size => size ≤ s.capacity) fun room hle => room hle

/-- While scheduling is suspended no call takes the mark of a switch away, if it does
    not end the suspension. -/
theorem kept_marked : Step.Kept
    (fun o => o.Sound ∧ o.depth ≠ 0 ∧ o.switchDue = true) fun c => c ≠ .thawAll := by
  refine kept_of_lasting ?_ ?_ ?_ ?_
  · rintro o o' lasts ⟨hclosed, hdue⟩
    exact ⟨fun hopen => hclosed (lasts.depth.symm.trans hopen), lasts.due hdue⟩
  · rintro o sound ⟨hclosed, -⟩
    simp only [choose]
    rw [if_neg hclosed]
    cases o.runner with
    | some cur => exact ⟨hclosed, rfl⟩
    | none => exact ⟨hclosed, rfl⟩
  · rintro o ⟨-, hdue⟩
    exact ⟨saturatingSucc_ne_zero o.depth, hdue⟩
  · exact fun hc _ => absurd rfl hc

/-- The end of a suspension leaves the mark as well. -/
theorem thawAll_due (o : Outline) (due : o.switchDue = true) : o.thawAll.2.switchDue = true := by
  rcases o.thawAll_cases with ⟨-, heq⟩ | ⟨-, heq⟩ | ⟨-, heq⟩
  · rw [heq]
    exact due
  · rw [heq]
    exact due
  · rw [heq]
    exact Bool.or_eq_true_iff.mpr (Or.inl due)

/-- A call of a suspended scheduler leaves the mark of a switch. -/
theorem call_due {c : Call} {r : Except Refusal Reply} (sound : o.Sound) (closed : o.depth ≠ 0)
    (due : o.switchDue = true) (ran : Step.attempt (run c) o = .ok r o') :
    o'.switchDue = true := by
  by_cases hthaw : c = .thawAll
  · rw [hthaw] at ran
    obtain ⟨-, rfl⟩ := EStateM.Result.ok.inj ran
    exact o.thawAll_due due
  · exact ((Step.keeps_attempt (kept_marked.run hthaw)).ok ⟨sound, closed, due⟩ ran).2.2

end Outline

end PriorityScheduler
