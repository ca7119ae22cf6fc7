import PriorityScheduler.Proofs.Stages
import PriorityScheduler.Proofs.Tenancy

/-! # Handles are never used again

    A handle names a task by its slot and the generation of the slot, and only to delete
    the task raises the generation.  So once a task was deleted its handle is refused by
    every call, whoever lives in the slot by then, until the generation has come round;
    and what holds of a table over its whole history says that no handle is given twice
    before that. -/

namespace PriorityScheduler

open Routine

/-- Whether a call that is answered so has vacated a slot. -/
def Call.vacates (i : Nat) : Call → Except Refusal Reply → Bool
  | .delete h, .ok _ => h.index == i
  | _, _ => false

/-- How often a slot was vacated by calls that were answered so. -/
def vacations (i : Nat) (calls : List Call) (rs : List (Except Refusal Reply)) : Nat :=
  (calls.zip rs).countP fun answered => answered.1.vacates i answered.2

namespace Outline

variable {c : Call} {o o' : Outline} {h : Handle}

/-! ## Generations -/

/-- A task that is deleted was live, and the generation of its slot is raised. -/
theorem Sound.delete_generation (sound : o.Sound) {a : Reply}
    (done : run (.delete h) o = .ok a o') :
    o.generation h.index = h.generation
      ∧ o'.generation = Function.update o.generation h.index (o.generation h.index + 1) := by
  have hrun : (Outline.delete h >>= fun _ => pure Reply.done) o = .ok a o' := done
  obtain ⟨⟨⟩, o₂, hdelete, hanswer⟩ := of_bind_ok hrun
  obtain ⟨-, rfl⟩ := EStateM.Result.ok.inj hanswer
  have hstages : (Step.guarded (·.remove h) >>= fun was =>
      if was = true then Outline.replaceRunner else pure ()) o = .ok () o₂ := hdelete
  obtain ⟨was, o₁, hremove, hrest⟩ := of_bind_ok hstages
  have hremoved := Step.of_guarded_ok hremove
  have hgeneration : o₁.generation
      = Function.update o.generation h.index (o.generation h.index + 1) := by
    obtain ⟨-, -, -, -, ⟨-, -, rfl⟩ | ⟨-, -, rfl⟩⟩ := of_remove_ok hremoved
    · rfl
    · rfl
  obtain ⟨task, hget, -⟩ := of_remove_ok hremoved
  -- what follows is a choice at most
  have hstaged := Opens.replaceIf (c := .choose) (o := o₁) .nothing was
  rw [hrest] at hstaged
  refine ⟨generation_of_get? hget, ?_⟩
  rw [← hgeneration]
  exact ((sound.remove hremoved).staged_conserves hstaged).generation (by rintro h ⟨⟩)

/-! ## Calls made for a task that is not live -/

/-- A step that is refused ends what it begins. -/
theorem refused_bind {α β : Type} {f : Outline → Except Refusal (α × Outline)}
    {rest : α → Step β} {cause : Refusal} (refused : f o = .error cause) :
    (Step.guarded f >>= rest) o = .error (.refused cause) o := by
  show EStateM.bind (Step.guarded f) rest o = _
  simp only [EStateM.bind, Step.guarded_error refused]

/-- To look for a task that is not live is to be refused. -/
theorem find_bind_error {α : Type} {f : Task → Except Refusal α} (dead : o.get? h = none) :
    (o.find h >>= f) = .error .unknownHandle := by
  rw [find_error dead]
  rfl

/-- A call made for a task that is not live is refused. -/
theorem run_dead (dead : o.get? h = none) (subject : c.subject = some h)
    (level : ∀ q, c = .reprioritise h q → q < o.settings.levels) :
    run c o = .error (.refused .unknownHandle) o := by
  cases c with
  | delete h' =>
      obtain rfl := Option.some.inj subject
      simp only [run, delete, bind_assoc]
      exact refused_bind (find_bind_error dead)
  | suspend h' =>
      obtain rfl := Option.some.inj subject
      simp only [run, suspend, bind_assoc]
      exact refused_bind (find_bind_error dead)
  | resume h' =>
      obtain rfl := Option.some.inj subject
      exact refused_bind (find_bind_error dead)
  | reprioritise h' q =>
      obtain rfl := Option.some.inj subject
      refine refused_bind ?_
      simp only [reprioritise, if_neg (Nat.not_le_of_lt (level q rfl))]
      exact find_bind_error dead
  | saveContext h' context =>
      obtain rfl := Option.some.inj subject
      exact refused_bind (find_bind_error dead)
  | block h' ticks =>
      obtain rfl := Option.some.inj subject
      exact refused_bind (find_bind_error dead)
  | wake h' =>
      obtain rfl := Option.some.inj subject
      exact refused_bind (find_bind_error dead)
  | cutShort h' =>
      obtain rfl := Option.some.inj subject
      exact refused_bind (find_bind_error dead)
  | _ => cases subject

end Outline

namespace Kernel

variable {k : Kernel} {c : Call} {h : Handle} {i : Nat}

/-- A call raises the generation of a slot exactly when it vacates the slot. -/
theorem Intact.generation_call (intact : k.Intact) (sound : k.outline.Sound) {p : Platform}
    {r : Except Refusal Reply} {m : Machine Kernel} (ran : attempt c.run ⟨k, p⟩ = .ok r m)
    (i : Nat) : m.state.table.generationAt i
      = k.table.generationAt i + if c.vacates i r = true then 1 else 0 := by
  by_cases hdelete : ∃ h, c = .delete h
  · obtain ⟨h, rfl⟩ := hdelete
    rcases of_attempt_ok ran with ⟨a, rfl, hrun⟩ | ⟨cause, rfl, hrun⟩
    · obtain ⟨-, hstep⟩ := (intact.enacts_run sound _).ok hrun
      obtain ⟨-, hraised⟩ := sound.delete_generation hstep
      have hgeneration := congrFun hraised i
      rw [Function.update_apply] at hgeneration
      show m.state.table.generationAt i = _ + if (h.index == i) = true then 1 else 0
      by_cases hi : i = h.index
      · subst hi
        rw [if_pos (beq_self_eq_true _)]
        rw [if_pos rfl] at hgeneration
        exact hgeneration
      · rw [if_neg (fun heq => hi (eq_of_beq heq).symm)]
        rw [if_neg hi] at hgeneration
        exact hgeneration.trans (UInt32.add_zero _).symm
    · -- a refused deletion leaves the kernel as it is
      obtain ⟨hsame, -⟩ := intact.clean_run (c := .delete h) rfl p cause m hrun
      rw [hsame]
      exact (UInt32.add_zero _).symm
  · have hkeeps : ∀ h, c ≠ .delete h := fun h heq => hdelete ⟨h, heq⟩
    obtain ⟨-, -, hstep⟩ := intact.of_call sound ran
    have hsame := (sound.conserves_call hstep).generation hkeeps
    -- no other call vacates a slot, whatever its answer
    have hvacates : c.vacates i r = false := by
      cases c with
      | delete h => exact absurd rfl (hkeeps h)
      | _ => rfl
    rw [hvacates]
    exact (congrFun hsame i).trans (UInt32.add_zero _).symm

/-- A history raises the generation of a slot as often as it vacates the slot. -/
theorem Intact.generation_perform {calls : List Call} {rs : List (Except Refusal Reply)}
    {m m' : Machine Kernel} (intact : m.state.Intact) (sound : m.state.outline.Sound)
    (ran : perform calls m = .ok rs m') (i : Nat) : m'.state.table.generationAt i
      = m.state.table.generationAt i + UInt32.ofNat (vacations i calls rs) := by
  induction calls generalizing m rs with
  | nil =>
      obtain ⟨rfl, rfl⟩ := EStateM.Result.ok.inj ran
      exact (UInt32.add_zero _).symm
  | cons c rest ih =>
      obtain ⟨r, n, hfirst, hrest⟩ := of_bind_ok ran
      obtain ⟨rs', n', hothers, hdone⟩ := of_bind_ok hrest
      obtain ⟨rfl, rfl⟩ := EStateM.Result.ok.inj hdone
      obtain ⟨hintact, hsound, -⟩ := intact.of_call sound hfirst
      rw [ih hintact hsound hothers, intact.generation_call sound hfirst i, UInt32.add_assoc]
      refine congrArg _ ?_
      simp only [vacations, List.zip_cons_cons, List.countP_cons]
      rw [UInt32.ofNat_add, UInt32.add_comm]
      refine congrArg _ ?_
      split
      · rfl
      · rfl

/-- A generation that was raised does not come round at once. -/
theorem raised_ne {g : UInt32} {n : Nat} (few : n + 1 < 2 ^ 32) : g + 1 + UInt32.ofNat n ≠ g := by
  intro heq
  have hcount : (UInt32.ofNat n).toNat = n := UInt32.toNat_ofNat_of_lt' (Nat.lt_of_succ_lt few)
  have hone : (1 : UInt32).toNat = 1 := rfl
  have hlt := g.toNat_lt
  have hnat := congrArg UInt32.toNat heq
  rw [UInt32.toNat_add, UInt32.toNat_add, hcount, hone] at hnat
  omega

/-- A handle is refused everywhere: it names no task, and every call made for it is
    refused as unknown, to give it a priority included if there is such a priority. -/
structure Expired (h : Handle) (k : Kernel) : Prop where
  unnamed : k.table.find h = .error (.refused .unknownHandle)
  refused : ∀ (c : Call) (p : Platform), c.subject = some h →
    (∀ q, c = .reprioritise h q → q < k.settings.levels) →
      ∃ m, attempt c.run ⟨k, p⟩ = .ok (.error .unknownHandle) m ∧ m.state = k

theorem Intact.expired (intact : k.Intact) (sound : k.outline.Sound)
    (dead : k.table.get? h = none) : Expired h k := by
  refine ⟨TaskTable.find_error dead, fun c p subject level => ?_⟩
  have hdead : k.outline.get? h = none := (get?_outline k h).symm.trans dead
  obtain ⟨m, hrun, -⟩ :=
    (intact.enacts_run sound c).of_error (Outline.run_dead hdead subject level) p
  have hchecks : c.checksFirst = true := by
    cases c with
    | delete | suspend | resume | reprioritise | saveContext | block | wake | cutShort => rfl
    | _ => cases subject
  obtain ⟨hsame, -⟩ := intact.clean_run hchecks p .unknownHandle m hrun
  refine ⟨m, ?_, hsame⟩
  simp only [attempt, hrun]

/-- Handles are not used again before the generation of a slot has come round.  Whatever
    is asked of a table, as long as no slot was vacated 2 ^ 32 times it does what its
    history tells.  So once a task was deleted its handle is refused for good, whatever
    is called in between. -/
theorem handles_not_reused :
    (∀ (capacity levels : Nat) (requests : List TaskTable.Request),
        (∀ i, TaskTable.retirements i (TaskTable.history capacity levels requests).1 < 2 ^ 32) →
        TaskTable.Registers capacity levels (TaskTable.history capacity levels requests).1
          (TaskTable.history capacity levels requests).2)
      ∧ ∀ (k : Kernel) (h : Handle) (p : Platform) (m : Machine Kernel), Reachable k →
        attempt (Call.delete h).run ⟨k, p⟩ = .ok (.ok .done) m →
        ∀ (calls : List Call) (rs : List (Except Refusal Reply)) (m' : Machine Kernel),
          perform calls m = .ok rs m' → vacations h.index calls rs + 1 < 2 ^ 32 →
            Expired h m'.state := by
  constructor
  · intro capacity levels requests few
    exact (TaskTable.tenancy_history capacity levels requests).registers few
  · intro k h p m reachable deleted calls rs m' ran few
    obtain ⟨hintact, hsound⟩ := reachable.intact
    obtain ⟨hintact₁, hsound₁, hstep⟩ := hintact.of_call hsound deleted
    obtain ⟨hintact', hsound', -⟩ := hintact₁.of_perform hsound₁ ran
    refine hintact'.expired hsound' ?_
    have hnamed : k.table.generationAt h.index = h.generation := by
      rcases of_attempt_ok deleted with ⟨a, -, hrun⟩ | ⟨cause, hrefused, -⟩
      · obtain ⟨-, hstep⟩ := (hintact.enacts_run hsound _).ok hrun
        exact (hsound.delete_generation hstep).1
      · cases hrefused
    have hvacated : m.state.table.generationAt h.index = h.generation + 1 := by
      rw [hintact.generation_call hsound deleted h.index, hnamed]
      exact congrArg _ (if_pos (beq_self_eq_true h.index))
    have hraised := hintact₁.generation_perform hsound₁ ran h.index
    rw [hvacated] at hraised
    rw [TaskTable.get?_eq, if_neg]
    rw [hraised]
    exact raised_ne few

/-- A task moves into the slot of one that was deleted, in a table with one slot and in a
    scheduler with two: the old handle is refused, and the new one has the next
    generation. -/
theorem handles_not_reused_successor :
    ∃ (log : List TaskTable.Deed) (t : TaskTable) (k : Kernel) (p : Platform)
      (m m' : Machine Kernel),
      TaskTable.history 1 10 [.enter { name := "old", priority := 1 } {}, .retire ⟨0, 0⟩,
          .enter { name := "new", priority := 1 } {}] = (log, t)
        ∧ TaskTable.Registers 1 10 log t ∧ TaskTable.given log = [⟨0, 1⟩, ⟨0, 0⟩]
        ∧ t.find ⟨0, 0⟩ = .error (.refused .unknownHandle)
        ∧ Reachable k ∧ attempt (Call.delete ⟨1, 0⟩).run ⟨k, p⟩ = .ok (.ok .done) m
        ∧ perform [.create { name := "new", priority := 1 }] m = .ok [.ok (.task ⟨1, 1⟩)] m'
        ∧ Expired ⟨1, 0⟩ m'.state := by
  obtain ⟨hregisters, hexpired⟩ := handles_not_reused
  have hvalid : ({ capacity := 2 } : Settings).Valid := by decide
  have hdone : isDone (do
      let _ ← perform [.start 0, .create { name := "old", priority := 1 }]
      let deleted ← attempt (Call.delete ⟨1, 0⟩).run
      let made ← perform [.create { name := "new", priority := 1 }]
      if deleted = .ok .done ∧ made = [.ok (.task ⟨1, 1⟩)] then pure () else refuse .invalidState)
        ⟨initial { capacity := 2 }, {}⟩ = true := by
    decide +kernel
  obtain ⟨⟨⟩, n, hrun⟩ := of_isDone hdone
  obtain ⟨rs, m₀, hstarted, hrun⟩ := of_bind_ok hrun
  obtain ⟨deleted, m, hdeleted, hrun⟩ := of_bind_ok hrun
  obtain ⟨made, m', hmade, hrun⟩ := of_bind_ok hrun
  obtain ⟨⟨rfl, rfl⟩, -⟩ := of_unless_ok hrun
  have hinitial : Reachable (⟨initial { capacity := 2 }, {}⟩ : Machine Kernel).state :=
    .initial hvalid
  have hreachable : Reachable m₀.state := hinitial.perform hstarted
  have hgone := hexpired m₀.state ⟨1, 0⟩ m₀.platform m hreachable hdeleted _ _ m' hmade (by decide)
  have hlog : (TaskTable.history 1 10 [.enter { name := "old", priority := 1 } {},
      .retire ⟨0, 0⟩, .enter { name := "new", priority := 1 } {}]).1
      = [.entered ⟨0, 1⟩ { name := "new", priority := 1 } {}, .retired ⟨0, 0⟩,
        .entered ⟨0, 0⟩ { name := "old", priority := 1 } {}] := by
    decide +kernel
  have htable := hregisters 1 10 [.enter { name := "old", priority := 1 } {}, .retire ⟨0, 0⟩,
    .enter { name := "new", priority := 1 } {}] (by
      intro i
      rw [hlog]
      exact Nat.lt_of_le_of_lt List.countP_le_length (by decide))
  rw [hlog] at htable
  have hdead : ∀ task, ¬ TaskTable.Lives [.entered ⟨0, 1⟩ { name := "new", priority := 1 } {},
      .retired ⟨0, 0⟩, .entered ⟨0, 0⟩ { name := "old", priority := 1 } {}] ⟨0, 0⟩ task := by
    intro task
    rw [TaskTable.lives_entered, TaskTable.lives_retired]
    simp
  exact ⟨_, _, m₀.state, m₀.platform, m, m', Prod.ext hlog rfl, htable, rfl,
    (htable.refuses _ hdead).1, hreachable, hdeleted, hmade, hgone⟩

end Kernel

end PriorityScheduler
