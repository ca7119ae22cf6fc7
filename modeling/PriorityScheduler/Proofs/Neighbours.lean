import PriorityScheduler.Proofs.Refusals
import PriorityScheduler.Proofs.Rosters

/-! # An operation on one task leaves all others alone

    All lists run through links that lie side by side, so to move one task is to write to
    the slots of its neighbours as well.  On outlines this is not seen any more: a change
    is CONFINED to a slot when every other slot holds what it held, and every row is the
    same without that slot.

    Read by handle, such a change TOUCHES ONLY one task: the handles of all others name
    the records that they named, and all others stand on their lists in the order in
    which they stood. -/

namespace PriorityScheduler

open Function (update)
open Routine

/-- The task that a call is made for. -/
def Call.subject : Call → Option Handle
  | .delete h => some h
  | .suspend h => some h
  | .resume h => some h
  | .reprioritise h _ => some h
  | .saveContext h _ => some h
  | .block h _ => some h
  | .wake h => some h
  | .cutShort h => some h
  | _ => none

namespace Outline

variable {o o' o'' : Outline} {i : Nat} {h : Handle} {l l' : List Handle} {task task' : Task}

/-! ## Changes of one slot -/

/-- A change is confined to a slot, which keeps its generation or is left empty. -/
structure Confined (i : Nat) (o o' : Outline) : Prop where
  tenant : ∀ j, j ≠ i → o'.tenant j = o.tenant j
  generation : ∀ j, j ≠ i → o'.generation j = o.generation j
  row : ∀ q, (o'.row q).filter (· ≠ i) = (o.row q).filter (· ≠ i)
  self : o'.generation i = o.generation i ∨ o'.tenant i = none

theorem Confined.refl (i : Nat) (o : Outline) : Confined i o o :=
  ⟨fun _ _ => rfl, fun _ _ => rfl, fun _ => rfl, Or.inl rfl⟩

theorem confined_put (o : Outline) (i : Nat) (task : Task) : Confined i o (o.put i task) :=
  ⟨fun _ hj => Function.update_of_ne hj _ _, fun _ _ => rfl, fun _ => rfl, Or.inl rfl⟩

/-- Without its own slot a row is as it was before the slot was moved. -/
theorem reseat_row_filter (o : Outline) (side : Side) (i : Nat) (task : Task) (q : Place) :
    ((o.reseat side i task).row q).filter (· ≠ i) = (o.row q).filter (· ≠ i) := by
  rw [reseat_row]
  by_cases hq : q = task.place
  · rw [if_pos hq, filter_enterRow]
  · rw [if_neg hq, filter_of_not_mem (not_mem_filter_ne _ i)]

theorem confined_reseat (o : Outline) (side : Side) (i : Nat) (task : Task) :
    Confined i o (o.reseat side i task) :=
  ⟨fun _ hj => Function.update_of_ne hj _ _, fun _ _ => rfl, o.reseat_row_filter side i task,
    Or.inl rfl⟩

theorem confined_occupy (o : Outline) (i : Nat) (task : Task) : Confined i o (o.occupy i task) :=
  ⟨fun _ hj => Function.update_of_ne hj _ _, fun _ _ => rfl, fun _ => rfl, Or.inl rfl⟩

theorem confined_vacate (o : Outline) (i : Nat) : Confined i o (o.vacate i) := by
  refine ⟨fun _ hj => Function.update_of_ne hj _ _, fun _ hj => Function.update_of_ne hj _ _, ?_,
    Or.inr (Function.update_self ..)⟩
  exact fun q => filter_of_not_mem (not_mem_filter_ne (o.row q) i)

theorem confined_regrade (o : Outline) (i : Nat) (task : Task) (priority : Nat) :
    Confined i o (o.regrade i task priority) := by
  simp only [regrade]
  by_cases hqueued : queued task = true
  · rw [if_pos hqueued]
    exact o.confined_reseat .back i _
  · rw [if_neg hqueued]
    exact o.confined_put i _

/-- Two changes of a slot are one, if the first is not that a task leaves it. -/
theorem Confined.trans (confined : Confined i o o') (confined' : Confined i o' o'')
    (same : o'.generation i = o.generation i) : Confined i o o'' :=
  ⟨fun j hj => (confined'.tenant j hj).trans (confined.tenant j hj),
    fun j hj => (confined'.generation j hj).trans (confined.generation j hj),
    fun q => (confined'.row q).trans (confined.row q),
    confined'.self.imp_left fun hself => hself.trans same⟩

theorem Confined.wantSwitchIf (confined : Confined i o o') (wanted : Bool) :
    Confined i o (o'.wantSwitchIf wanted) :=
  ⟨confined.tenant, confined.generation, confined.row, confined.self⟩

/-! ## Changes of some tasks -/

/-- The handles of all but some tasks name what they named, and all others stand on
    their lists in the order in which they stood. -/
structure TouchesOnly (l : List Handle) (o o' : Outline) : Prop where
  tasks : ∀ h, h ∉ l → o'.get? h = o.get? h
  order : ∀ q, (o'.roster q).filter (· ∉ l) = (o.roster q).filter (· ∉ l)

theorem TouchesOnly.refl (l : List Handle) (o : Outline) : TouchesOnly l o o :=
  ⟨fun _ _ => rfl, fun _ => rfl⟩

theorem TouchesOnly.trans (touches : TouchesOnly l o o') (touches' : TouchesOnly l o' o'') :
    TouchesOnly l o o'' :=
  ⟨fun h hl => (touches'.tasks h hl).trans (touches.tasks h hl),
    fun q => (touches'.order q).trans (touches.order q)⟩

/-- A list is the same without more, if it is the same without some. -/
theorem TouchesOnly.mono (touches : TouchesOnly l o o') (sub : l ⊆ l') : TouchesOnly l' o o' := by
  refine ⟨fun h hl => touches.tasks h (fun hmem => hl (sub hmem)), ?_⟩
  have hfilter : ∀ r : List Handle, r.filter (· ∉ l') = (r.filter (· ∉ l)).filter (· ∉ l') := by
    intro r
    rw [List.filter_filter]
    refine List.filter_congr fun h _ => ?_
    by_cases hl : h ∈ l
    · simp [sub hl]
    · simp [hl]
  intro q
  rw [hfilter, touches.order q, ← hfilter]

/-- No other handle names the task in a slot than the one of its generation. -/
theorem get?_eq_none_of_named (named : o.generation h.index = h.generation ∨ o.tenant h.index = none)
    {h' : Handle} (index : h'.index = h.index) (ne : h' ≠ h) : o.get? h' = none := by
  simp only [get?, index]
  rcases named with hgeneration | hempty
  · rw [hgeneration, if_neg]
    intro hsame
    obtain ⟨i, g⟩ := h
    obtain ⟨i', g'⟩ := h'
    obtain rfl : i' = i := index
    obtain rfl : g = g' := hsame
    exact ne rfl
  · rw [hempty]
    exact ite_self _

/-- The roster of a place without one task is read off the row without its slot. -/
theorem Tagged.roster_filter (tagged : o.Tagged)
    (named : o.generation h.index = h.generation ∨ o.tenant h.index = none) (q : Place) :
    (o.roster q).filter (· ∉ [h]) = ((o.row q).filter (· ≠ h.index)).map o.named := by
  simp only [roster, List.filter_map]
  refine congrArg _ (List.filter_congr fun j hj => ?_)
  obtain ⟨-, task, htask, -⟩ := (tagged.mem_row q j).mp hj
  refine decide_eq_decide.mpr ?_
  show o.named j ∉ [h] ↔ j ≠ h.index
  rw [List.mem_singleton]
  constructor
  · rintro hne rfl
    have hnone : o.get? (o.named h.index) = none := get?_eq_none_of_named named rfl hne
    rw [get?_named, htask] at hnone
    cases hnone
  · rintro hne rfl
    exact hne rfl

/-- A change that is confined to the slot of a task touches only this task. -/
theorem Confined.touchesOnly (confined : Confined h.index o o') (tagged : o.Tagged)
    (tagged' : o'.Tagged) (named : o.generation h.index = h.generation) :
    TouchesOnly [h] o o' := by
  have hnamed' : o'.generation h.index = h.generation ∨ o'.tenant h.index = none := by
    rcases confined.self with hsame | hempty
    · exact Or.inl (hsame.trans named)
    · exact Or.inr hempty
  constructor
  · -- another handle into the same slot has another generation, and names no task at all
    intro h' hl
    have hne : h' ≠ h := fun heq => hl (List.mem_singleton.mpr heq)
    by_cases hindex : h'.index = h.index
    · rw [get?_eq_none_of_named (Or.inl named) hindex hne,
        get?_eq_none_of_named hnamed' hindex hne]
    · exact get?_congr (confined.generation _ hindex) (confined.tenant _ hindex)
  · intro q
    rw [tagged.roster_filter (Or.inl named), tagged'.roster_filter hnamed', confined.row q]
    refine List.map_congr_left fun j hj => ?_
    have hne : j ≠ h.index := of_decide_eq_true (List.mem_filter.mp hj).2
    simp only [Outline.named, confined.generation j hne]

/-! ## Calls made for one task -/

/-- A call for one task does nothing to the others, the clock and the gate. -/
structure LeavesAlone (h : Handle) (o o' : Outline) : Prop extends TouchesOnly [h] o o' where
  current : o'.current = o.current
  now : o'.now = o.now
  depth : o'.depth = o.depth

theorem LeavesAlone.refl (h : Handle) (o : Outline) : LeavesAlone h o o :=
  ⟨.refl _ o, rfl, rfl, rfl⟩

/-- The generation of a slot is that of the handle to the task in it. -/
theorem generation_of_get? (live : o.get? h = some task) : o.generation h.index = h.generation :=
  congrArg Handle.generation (named_of_get? live)

/-- A change of the slot of a live task leaves the others alone. -/
theorem Sound.leavesAlone (sound : o.Sound) (sound' : o'.Sound) (live : o.get? h = some task)
    (confined : Confined h.index o o') (current : o'.current = o.current) (now : o'.now = o.now)
    (depth : o'.depth = o.depth) : LeavesAlone h o o' :=
  ⟨confined.touchesOnly sound.tagged sound'.tagged (generation_of_get? live), current, now, depth⟩

section Steps

variable (sound : o.Sound)

include sound

/-- A task that is made is a new one, and the others are left alone. -/
theorem Sound.enroll_alone {spec : TaskSpec} {flags : Flags} (tagged' : o'.Tagged)
    (done : o.enroll spec flags = .ok (h, o')) : o.get? h = none ∧ LeavesAlone h o o' := by
  obtain ⟨-, i, hvacancy, rfl, hcase⟩ := of_enroll_ok done
  refine ⟨?_, ?_⟩
  · simp only [get?, sound.tagged.tenant_vacancy hvacancy]
    exact ite_self _
  · have hconfined : ∀ task', Confined i o
        ((o.occupy i (.ofSpec spec flags ⟨i, o.generation i⟩)).reseat .back i task') :=
      fun task' => (o.confined_occupy i _).trans (confined_reseat _ .back i task') rfl
    rcases hcase with ⟨-, rfl⟩ | ⟨-, wanted, rfl, -⟩
    · exact ⟨(hconfined _).touchesOnly sound.tagged tagged' rfl, rfl, rfl, rfl⟩
    · exact ⟨((hconfined _).wantSwitchIf wanted).touchesOnly sound.tagged tagged' rfl,
        rfl, rfl, rfl⟩

/-- A task that was not dispatched last is retired, and is not replaced. -/
theorem Sound.remove_alone {was : Bool} (other : o.current ≠ some h)
    (done : o.remove h = .ok (was, o')) : was = false ∧ LeavesAlone h o o' := by
  have hsound := sound.remove done
  obtain ⟨task, hget, -, -, ⟨-, hcurrent, -⟩ | ⟨rfl, -, rfl⟩⟩ := of_remove_ok done
  · exact absurd hcurrent other
  · exact ⟨rfl, sound.leavesAlone hsound hget (o.confined_vacate h.index) rfl rfl rfl⟩

/-- A task that was not dispatched last is put aside, and is not replaced. -/
theorem Sound.shelve_alone {was : Bool} (other : o.current ≠ some h)
    (done : o.shelve h = .ok (was, o')) : was = false ∧ LeavesAlone h o o' := by
  have hsound := sound.shelve done
  obtain ⟨task, hget, -, ⟨-, rfl, rfl⟩ | ⟨-, -, rfl, rfl⟩⟩ := of_shelve_ok done
  · exact ⟨rfl, .refl h o'⟩
  · have hrests : task.activity ≠ .running :=
      sound.rests hget (fun hrunner => other (runner_eq_some hrunner).1)
    refine ⟨?_, sound.leavesAlone hsound hget (o.confined_reseat .back h.index _) rfl rfl rfl⟩
    exact beq_eq_false_iff_ne.mpr hrests

theorem Sound.resume_alone {wanted : Bool} (done : o.resume h = .ok (wanted, o')) :
    LeavesAlone h o o' := by
  have hsound := sound.resume done
  obtain ⟨task, hget, ⟨-, -, rfl⟩ | ⟨-, -, rfl⟩⟩ := of_resume_ok done
  · exact sound.leavesAlone hsound hget ((o.confined_reseat .back h.index _).wantSwitchIf wanted)
      rfl rfl rfl
  · exact .refl h o'

theorem Sound.reprioritise_alone {priority : Nat} {wanted : Bool}
    (done : o.reprioritise h priority = .ok (wanted, o')) : LeavesAlone h o o' := by
  have hsound := sound.reprioritise done
  obtain ⟨-, task, hget, ⟨-, -, rfl⟩ | ⟨-, -, rfl⟩⟩ := of_reprioritise_ok done
  · exact .refl h o'
  · have hconfined := (o.confined_regrade h.index task priority).wantSwitchIf wanted
    simp only [Outline.regrade] at hconfined hsound ⊢
    by_cases hqueued : queued task = true
    · rw [if_pos hqueued] at hconfined hsound ⊢
      exact sound.leavesAlone hsound hget hconfined rfl rfl rfl
    · rw [if_neg hqueued] at hconfined hsound ⊢
      exact sound.leavesAlone hsound hget hconfined rfl rfl rfl

theorem Sound.saveContext_alone {context : Nat} (done : o.saveContext h context = .ok ((), o')) :
    LeavesAlone h o o' := by
  have hsound := sound.saveContext done
  obtain ⟨task, hget, rfl⟩ := of_saveContext_ok done
  exact sound.leavesAlone hsound hget (o.confined_put h.index _) rfl rfl rfl

theorem Sound.block_alone {ticks : Tick} (done : o.block h ticks = .ok ((), o')) :
    LeavesAlone h o o' := by
  have hsound := sound.block done
  obtain ⟨task, hget, -, -, -, ⟨-, rfl⟩ | ⟨-, rfl⟩⟩ := of_block_ok done
  · exact .refl h o'
  · exact sound.leavesAlone hsound hget ((o.confined_reseat .back h.index _).wantSwitchIf _)
      rfl rfl rfl

theorem Sound.endWait_alone {early wanted : Bool} (done : o.endWait h early = .ok (wanted, o')) :
    LeavesAlone h o o' := by
  have hsound := sound.endWait done
  obtain ⟨task, hget, -, -, rfl⟩ := of_endWait_ok done
  exact sound.leavesAlone hsound hget ((o.confined_reseat .back h.index _).wantSwitchIf wanted)
    rfl rfl rfl

end Steps

end Outline

/-- A step that can be refused ends without a fault, if what follows it does. -/
theorem Step.attempt_guarded {α β : Type} {I : Outline → Prop}
    {f : Outline → Except Refusal (α × Outline)} {rest : α → Step β} {o : Outline} (before : I o)
    (done : ∀ a o', f o = .ok (a, o') → I o' ∧ ∃ b, rest a o' = .ok b o') :
    ∃ r o', Step.attempt (Step.guarded f >>= rest) o = .ok r o' ∧ I o' := by
  cases hf : f o with
  | ok r =>
      obtain ⟨hI, b, hb⟩ := done r.1 r.2 hf
      refine ⟨.ok b, r.2, ?_, hI⟩
      simp only [Step.attempt, bind, EStateM.bind, Step.guarded, hf, hb]
  | error cause =>
      refine ⟨.error cause, o, ?_, before⟩
      simp only [Step.attempt, bind, EStateM.bind, Step.guarded, hf]

/-- A call made for a task other than the one dispatched last meets no fault, and leaves
    all others alone. -/
theorem Outline.Sound.run_alone {o : Outline} {c : Call} {h : Handle} (sound : o.Sound)
    (subject : c.subject = some h) (other : o.current ≠ some h) :
    ∃ r o', Step.attempt (Outline.run c) o = .ok r o' ∧ Outline.LeavesAlone h o o' := by
  have hself := Outline.LeavesAlone.refl h o
  cases c with
  | delete h' =>
      -- a guarded body either is refused, which changes nothing, or is done
      obtain rfl := Option.some.inj subject
      simp only [Outline.run, Outline.delete, bind_assoc]
      refine Step.attempt_guarded hself fun was o' done => ?_
      obtain ⟨rfl, halone⟩ := sound.remove_alone other done
      exact ⟨halone, _, rfl⟩
  | suspend h' =>
      obtain rfl := Option.some.inj subject
      simp only [Outline.run, Outline.suspend, bind_assoc]
      refine Step.attempt_guarded hself fun was o' done => ?_
      obtain ⟨rfl, halone⟩ := sound.shelve_alone other done
      exact ⟨halone, _, rfl⟩
  | resume h' =>
      obtain rfl := Option.some.inj subject
      exact Step.attempt_guarded hself fun _ _ done => ⟨sound.resume_alone done, _, rfl⟩
  | reprioritise h' priority =>
      obtain rfl := Option.some.inj subject
      exact Step.attempt_guarded hself fun _ _ done => ⟨sound.reprioritise_alone done, _, rfl⟩
  | saveContext h' context =>
      obtain rfl := Option.some.inj subject
      exact Step.attempt_guarded hself fun _ _ done => ⟨sound.saveContext_alone done, _, rfl⟩
  | block h' ticks =>
      obtain rfl := Option.some.inj subject
      exact Step.attempt_guarded hself fun _ _ done => ⟨sound.block_alone done, _, rfl⟩
  | wake h' =>
      obtain rfl := Option.some.inj subject
      exact Step.attempt_guarded hself fun _ _ done => ⟨sound.endWait_alone done, _, rfl⟩
  | cutShort h' =>
      obtain rfl := Option.some.inj subject
      exact Step.attempt_guarded hself fun _ _ done => ⟨sound.endWait_alone done, _, rfl⟩
  | _ => cases subject

namespace Kernel

variable {k k' : Kernel} {h : Handle}

/-! ## Read off a kernel -/

/-- The handles of all but some tasks name the records that they named, and all others
    stand on their lists in the order in which they stood. -/
structure TouchesOnly (l : List Handle) (k k' : Kernel) : Prop where
  tasks : ∀ h, h ∉ l → k'.table.get? h = k.table.get? h
  order : ∀ q, (k'.handlesAt q).filter (· ∉ l) = (k.handlesAt q).filter (· ∉ l)

theorem Intact.touchesOnly {l : List Handle} (intact : k.Intact) (intact' : k'.Intact)
    (touches : Outline.TouchesOnly l k.outline k'.outline) : TouchesOnly l k k' := by
  constructor
  · intro h hl
    rw [get?_outline, get?_outline]
    exact touches.tasks h hl
  · intro q
    rw [intact.handlesAt, intact'.handlesAt]
    exact touches.order q

/-- Only one task is touched, and neither the task dispatched last nor the tick nor the
    suspensions of the scheduler. -/
structure LeavesAlone (h : Handle) (k k' : Kernel) : Prop extends TouchesOnly [h] k k' where
  current : k'.current = k.current
  now : k'.now = k.now
  depth : k'.freeze.depth = k.freeze.depth

theorem Intact.leavesAlone (intact : k.Intact) (intact' : k'.Intact)
    (alone : Outline.LeavesAlone h k.outline k'.outline) : LeavesAlone h k k' :=
  ⟨intact.touchesOnly intact' alone.toTouchesOnly, alone.current, alone.now, alone.depth⟩

/-- An operation on one task leaves all others alone.  A call made for a task that was
    not dispatched last, be it done or refused, leaves the record of every other task and
    the order of all others on every list; a task that is made is a new one and leaves
    them alone as well, and if it is refused nothing has changed. -/
theorem others_left_alone (reachable : Reachable k) (p : Platform) :
    (∀ (h : Handle) (c : Call), c.subject = some h → k.current ≠ some h →
        ∃ r m, attempt c.run ⟨k, p⟩ = .ok r m ∧ LeavesAlone h k m.state)
      ∧ ∀ spec : TaskSpec,
        (∃ h m, (Call.create spec).run ⟨k, p⟩ = .ok (.task h) m ∧ k.table.get? h = none
            ∧ LeavesAlone h k m.state)
          ∨ ∃ cause m, (Call.create spec).run ⟨k, p⟩ = .error (.refused cause) m ∧ m.state = k := by
  obtain ⟨hintact, hsound⟩ := reachable.intact
  constructor
  · intro h c subject other
    obtain ⟨r, o', hstep, halone⟩ := hsound.run_alone subject other
    obtain ⟨m, hrun, rfl⟩ := (enacts_attempt (hintact.enacts_run hsound c)).of_ok hstep p
    obtain ⟨hintact', -, -⟩ := hintact.of_call hsound hrun
    exact ⟨r, m, hrun, hintact.leavesAlone hintact' halone⟩
  · intro spec
    have hmade := hintact.obeys_enroll spec {}
    cases hrun : create spec ⟨k, p⟩ with
    | ok h m =>
        obtain ⟨hintact', hdone⟩ := hmade.ok hrun
        have hsound' : m.state.outline.Sound := Outline.kept_sound.enroll hsound hdone
        obtain ⟨hfresh, halone⟩ := hsound.enroll_alone hsound'.tagged hdone
        rw [← get?_outline] at hfresh
        refine Or.inl ⟨h, m, ?_, hfresh, hintact.leavesAlone hintact' halone⟩
        simp only [Call.run, bind, EStateM.bind, hrun]
        rfl
    | error e m =>
        obtain ⟨hsame, cause, rfl, -⟩ := hmade.error hrun
        refine Or.inr ⟨cause, m, ?_, hsame⟩
        simp only [Call.run, bind, EStateM.bind, hrun]

/-- Of three tasks on one level the middle one is blocked: the first and the last stay, in
    this order. -/
theorem others_left_alone_middle :
    ∃ (k : Kernel) (r : Except Refusal Reply) (m : Machine Kernel), Reachable k
      ∧ k.current = some ⟨3, 0⟩ ∧ k.handlesAt (.ready 1) = [⟨0, 0⟩, ⟨1, 0⟩, ⟨2, 0⟩]
      ∧ attempt (Call.block ⟨1, 0⟩ 5).run ⟨k, {}⟩ = .ok r m ∧ LeavesAlone ⟨1, 0⟩ k m.state
      ∧ (m.state.handlesAt (.ready 1)).filter (· ∉ [(⟨1, 0⟩ : Handle)]) = [⟨0, 0⟩, ⟨2, 0⟩] := by
  have hvalid : ({} : Settings).Valid := by decide
  have hdone : isDone (do
      let _ ← perform [.create { name := "first", priority := 1 },
        .create { name := "middle", priority := 1 }, .create { name := "last", priority := 1 },
        .create { name := "worker", priority := 2 }, .start 0]
      let k ← read
      if k.current = some ⟨3, 0⟩ ∧ k.handlesAt (.ready 1) = [⟨0, 0⟩, ⟨1, 0⟩, ⟨2, 0⟩] then
        pure ()
      else
        refuse .invalidState) ⟨initial {}, {}⟩ = true := by
    decide +kernel
  obtain ⟨⟨⟩, n, hrun⟩ := of_isDone hdone
  obtain ⟨rs, m, hstarted, hrun⟩ := of_bind_ok hrun
  obtain ⟨k, m', hread, hrun⟩ := of_bind_ok hrun
  obtain ⟨rfl, rfl⟩ := EStateM.Result.ok.inj hread
  obtain ⟨⟨hcurrent, hlevel⟩, -⟩ := of_unless_ok hrun
  have hinitial : Reachable (⟨initial {}, {}⟩ : Machine Kernel).state := .initial hvalid
  have hreachable : Reachable m.state := hinitial.perform hstarted
  have hother : m.state.current ≠ some ⟨1, 0⟩ := by
    rw [hcurrent]
    decide
  obtain ⟨halone, -⟩ := others_left_alone hreachable {}
  obtain ⟨r, m'', hblocked, hleft⟩ := halone ⟨1, 0⟩ (.block ⟨1, 0⟩ 5) rfl hother
  refine ⟨m.state, r, m'', hreachable, hcurrent, hlevel, hblocked, hleft, ?_⟩
  rw [hleft.order, hlevel]
  decide

end Kernel

end PriorityScheduler
