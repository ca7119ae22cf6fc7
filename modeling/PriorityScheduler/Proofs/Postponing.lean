import PriorityScheduler.Proofs.Frames

/-! # Postponed tasks, called in

    While scheduling is suspended a task that becomes ready is postponed.  An
    outline with its postponed tasks CALLED IN is what would be left if the
    suspension ended at once: each of them stands behind the other tasks of its
    level, in the order in which they became ready.

    Calling in commutes with every change that a suspended scheduler makes for a
    task other than the running one.  So whether a task is postponed first and
    called in later, or made ready at once, makes no difference in the end. -/

namespace PriorityScheduler

open Function (update)

namespace Outline

variable {o : Outline} {i : Nat} {h : Handle} {task : Task}

/-! ## Calling in -/

/-- The outline once its postponed tasks are called in. -/
def calledIn (o : Outline) : Outline :=
  { o with depth := 0 }.makeAllReady id (o.row .postponed)

/-- The record of a task once it is called in. -/
def onLevel (task : Task) : Task :=
  { task with activity := .ready, place := .ready task.priority }

theorem calledIn_tenant (o : Outline) (i : Nat) : o.calledIn.tenant i
    = if i ∈ o.row .postponed then (o.tenant i).map onLevel else o.tenant i := by
  show (if i ∈ o.row .postponed then (o.tenant i).map _ else o.tenant i) = _
  rfl

theorem calledIn_row (o : Outline) (q : Place) : o.calledIn.row q
    = (o.row q).filter (· ∉ o.row .postponed)
      ++ (o.row .postponed).filter fun i => (o.tenant i).any fun t => decide (.ready t.priority = q) :=
  rfl

/-- Only ready levels gain from calling in. -/
theorem calledIn_row_of_ne {q : Place} (hq : ∀ p, q ≠ .ready p) :
    o.calledIn.row q = (o.row q).filter (· ∉ o.row .postponed) := by
  have hnone : (o.row .postponed).filter (fun i => (o.tenant i).any fun t =>
      decide (.ready t.priority = q)) = [] := by
    rw [List.filter_eq_nil_iff]
    intro j _
    cases o.tenant j with
    | none => rintro ⟨⟩
    | some t =>
        have hne : Place.ready t.priority ≠ q := fun heq => hq t.priority heq.symm
        simpa using hne
  rw [calledIn_row, hnone, List.append_nil]

/-- Nothing changes when no task is postponed and scheduling goes on. -/
theorem calledIn_eq_self (opened : o.depth = 0) (none : o.row .postponed = []) :
    o.calledIn = o := by
  have hself : { o with depth := 0 } = o := by
    rw [← opened]
  rw [calledIn, none, makeAllReady_nil, hself]

/-- Calling in does not touch the ticks that tasks wait for. -/
theorem tickOf_calledIn (o : Outline) : tickOf o.calledIn.tenant = tickOf o.tenant := by
  funext j
  simp only [tickOf, calledIn_tenant]
  by_cases hj : j ∈ o.row .postponed
  · rw [if_pos hj]
    cases o.tenant j <;> rfl
  · rw [if_neg hj]

/-! ## Changes that commute with calling in -/

/-- A task that is made ready is called in along with those before it. -/
theorem calledIn_makeReady (closed : o.depth ≠ 0) (i : Nat) (task : Task) :
    (o.makeReady i task).calledIn = o.calledIn.makeReady i task := by
  have hplace : o.readyPlace task = .postponed := if_neg closed
  have hrow : ∀ q, (o.makeReady i task).row q
      = (o.row q).filter (· ≠ i) ++ if q = .postponed then [i] else [] := by
    intro q
    rw [makeReady_row, hplace]
  have hpostponed : (o.makeReady i task).row .postponed
      = (o.row .postponed).filter (· ≠ i) ++ [i] := hrow .postponed
  have hmem : ∀ j, j ∈ (o.makeReady i task).row .postponed
      ↔ j ∈ o.row .postponed ∧ j ≠ i ∨ j = i := by
    intro j
    rw [hpostponed]
    simp
  ext1 <;> try rfl
  · funext j
    rw [calledIn_tenant]
    show _ = update o.calledIn.tenant i (some (o.calledIn.readied task)) j
    by_cases hj : j = i
    · subst hj
      rw [if_pos ((hmem j).mpr (Or.inr rfl)), Function.update_self]
      show Option.map _ (update o.tenant j _ j) = _
      rw [Function.update_self]
      rfl
    · rw [Function.update_of_ne hj, calledIn_tenant]
      show (if j ∈ _ then Option.map _ (update o.tenant i _ j) else update o.tenant i _ j) = _
      rw [Function.update_of_ne hj]
      by_cases hold : j ∈ o.row .postponed
      · rw [if_pos ((hmem j).mpr (Or.inl ⟨hold, hj⟩)), if_pos hold]
      · rw [if_neg hold, if_neg]
        rw [hmem]
        rintro (⟨hold', -⟩ | hj')
        · exact hold hold'
        · exact hj hj'
  · funext q
    have hothers : ∀ j, j ≠ i → (o.makeReady i task).tenant j = o.tenant j :=
      fun j hj => Function.update_of_ne hj _ _
    rw [makeReady_row, calledIn_row, calledIn_row, hpostponed, hrow q, List.filter_append,
      List.filter_append, List.filter_append, List.append_assoc, List.append_assoc]
    -- those that were on the row, the one on its way, and those called in before it
    refine congrArg₂ (· ++ ·) ?_ ?_
    · rw [List.filter_filter, List.filter_filter]
      refine List.filter_congr ?_
      intro j _
      by_cases hj : j = i <;> simp [hj]
    · have hgone : (if q = .postponed then [i] else []).filter
          (· ∉ (o.row .postponed).filter (· ≠ i) ++ [i]) = [] := by
        split <;> simp
      rw [hgone, List.nil_append]
      refine congrArg₂ (· ++ ·) ?_ ?_
      · rw [List.filter_filter, List.filter_filter]
        refine List.filter_congr ?_
        intro j _
        by_cases hj : j = i
        · simp [hj]
        · rw [hothers j hj]
          simp [hj]
      · have hself : (o.makeReady i task).tenant i = some (o.readied task) :=
          Function.update_self ..
        have hpriority : (o.readied task).priority = task.priority := rfl
        have hready : o.calledIn.readyPlace task = .ready task.priority := rfl
        rw [hready, List.filter_singleton, hself, Option.any_some, hpriority]
        by_cases hq : q = .ready task.priority
        · rw [if_pos hq, hq]
          simp
        · rw [if_neg hq, decide_eq_false (Ne.symm hq)]
          rfl

/-- What is left of the rows when a slot is taken off them, and called in. -/
theorem filter_calledIn_row {o' : Outline} (q : Place)
    (postponed : o'.row .postponed = (o.row .postponed).filter (· ≠ i))
    (others : ∀ j, j ≠ i → o'.tenant j = o.tenant j) :
    ((o.row q).filter (· ≠ i)).filter (· ∉ o'.row .postponed)
        ++ (o'.row .postponed).filter (fun j => (o'.tenant j).any fun t =>
          decide (.ready t.priority = q))
      = (o.calledIn.row q).filter (· ≠ i) := by
  rw [calledIn_row, postponed, List.filter_append]
  refine congrArg₂ (· ++ ·) ?_ ?_
  · rw [List.filter_filter, List.filter_filter]
    refine List.filter_congr ?_
    intro j _
    by_cases hj : j = i <;> simp [hj]
  · rw [List.filter_filter, List.filter_filter]
    refine List.filter_congr ?_
    intro j _
    by_cases hj : j = i
    · simp [hj]
    · rw [others j hj]
      simp [hj]

/-- A slot gets a new record before or after calling in, if it is not postponed
    any more. -/
theorem calledIn_tenant_update {o' : Outline} {new : Option Task}
    (postponed : o'.row .postponed = (o.row .postponed).filter (· ≠ i))
    (tenant : o'.tenant = update o.tenant i new) :
    o'.calledIn.tenant = update o.calledIn.tenant i new := by
  funext j
  rw [calledIn_tenant, postponed, tenant]
  by_cases hj : j = i
  · subst hj
    rw [Function.update_self, Function.update_self, if_neg (by simp)]
  · rw [Function.update_of_ne hj, Function.update_of_ne hj, calledIn_tenant]
    by_cases hold : j ∈ o.row .postponed
    · rw [if_pos (List.mem_filter.mpr ⟨hold, decide_eq_true hj⟩), if_pos hold]
    · rw [if_neg (fun hmem => hold (List.mem_filter.mp hmem).1), if_neg hold]

/-- A task that leaves scheduling, or begins to wait, does so before or after the
    others are called in. -/
theorem calledIn_reseat (tagged : o.Tagged) (side : Side) (i : Nat)
    (unready : ∀ p, task.place ≠ .ready p) (present : task.place ≠ .postponed) :
    (o.reseat side i task).calledIn = o.calledIn.reseat side i task := by
  have hpostponed : (o.reseat side i task).row .postponed = (o.row .postponed).filter (· ≠ i) :=
    reseat_row_of_ne present.symm
  have htenant : (o.reseat side i task).calledIn.tenant = update o.calledIn.tenant i (some task) :=
    calledIn_tenant_update hpostponed rfl
  ext1 <;> try rfl
  · exact htenant
  · funext q
    by_cases hq : q = task.place
    · -- the list it enters is not one to which postponed tasks are called
      have hlevel : ∀ p, q ≠ .ready p := fun p heq => unready p (hq.symm.trans heq)
      have hpresent : ∀ j ∈ o.row q, j ∉ o.row .postponed :=
        fun j hj => tagged.not_mem_of_mem (fun heq => present (hq.symm.trans heq)) hj
      have hrow : o.calledIn.row q = o.row q := by
        rw [calledIn_row_of_ne hlevel, filter_of_disjoint hpresent]
      have hkey : tickOf (update o.calledIn.tenant i (some task))
          = tickOf (update o.tenant i (some task)) := by
        funext j
        by_cases hj : j = i
        · subst hj
          simp only [tickOf, Function.update_self]
        · rw [tickOf_update_of_ne _ hj, tickOf_update_of_ne _ hj, tickOf_calledIn]
      rw [calledIn_row_of_ne hlevel, hpostponed, reseat_row o.calledIn, if_pos hq, hrow, hkey,
        reseat_row o, if_pos hq]
      refine filter_of_disjoint ?_
      intro j hj hmem
      obtain ⟨hold, hne⟩ := List.mem_filter.mp hmem
      rcases mem_enterRow.mp hj with ⟨rfl, -⟩ | hj
      · simp at hne
      · exact hpresent j (List.mem_filter.mp hj).1 hold
    · rw [reseat_row_of_ne hq, ← filter_calledIn_row q hpostponed
        (fun j hj => Function.update_of_ne hj _ _), calledIn_row, reseat_row_of_ne hq]

/-- A task leaves for good before or after the others are called in. -/
theorem calledIn_vacate (o : Outline) (i : Nat) : (o.vacate i).calledIn = o.calledIn.vacate i := by
  have hpostponed : (o.vacate i).row .postponed = (o.row .postponed).filter (· ≠ i) := rfl
  have htenant : (o.vacate i).calledIn.tenant = update o.calledIn.tenant i none :=
    calledIn_tenant_update hpostponed rfl
  ext1 <;> try rfl
  · exact htenant
  · funext q
    show (o.vacate i).calledIn.row q = (o.calledIn.row q).filter (· ≠ i)
    rw [← filter_calledIn_row q hpostponed (fun j hj => Function.update_of_ne hj _ _), calledIn_row]
    rfl

/-- A slot that is on no list gets a new record before or after calling in. -/
theorem calledIn_of_update (o' : Outline) {new : Option Task} (absent : i ∉ o.row .postponed)
    (row : o'.row = o.row) (tenant : o'.tenant = update o.tenant i new) :
    o'.calledIn.tenant = update o.calledIn.tenant i new ∧ o'.calledIn.row = o.calledIn.row := by
  have hpostponed : o'.row .postponed = (o.row .postponed).filter (· ≠ i) := by
    rw [row, filter_of_not_mem absent]
  refine ⟨calledIn_tenant_update hpostponed tenant, ?_⟩
  funext q
  rw [calledIn_row, calledIn_row, row]
  refine congrArg _ (List.filter_congr ?_)
  intro j hj
  have hne : j ≠ i := fun heq => absent (heq ▸ hj)
  rw [tenant, Function.update_of_ne hne]

theorem calledIn_put (absent : i ∉ o.row .postponed) :
    (o.put i task).calledIn = o.calledIn.put i task := by
  obtain ⟨htenant, hrow⟩ := calledIn_of_update (o.put i task) absent rfl rfl
  ext1 <;> first | rfl | assumption

/-- A task moves in before or after the others are called in. -/
theorem calledIn_occupy (absent : i ∉ o.row .postponed) :
    (o.occupy i task).calledIn = o.calledIn.occupy i task := by
  obtain ⟨htenant, hrow⟩ := calledIn_of_update (o.occupy i task) absent rfl rfl
  ext1 <;> first | rfl | assumption

/-- Tasks that are made ready one after the other are called in along with those
    before them. -/
theorem calledIn_makeAllReady {f : Task → Task} {l : List Nat} (closed : o.depth ≠ 0)
    (nodup : l.Nodup)
    (live : ∀ i ∈ l, i ∉ o.row .postponed ∧ ∃ t, o.tenant i = some t) :
    (o.makeAllReady f l).calledIn = o.calledIn.makeAllReady f l := by
  induction l generalizing o with
  | nil => rw [makeAllReady_nil, makeAllReady_nil]
  | cons i rest ih =>
      obtain ⟨hfresh, hnodup⟩ := List.nodup_cons.mp nodup
      obtain ⟨habsent, t, ht⟩ := live i List.mem_cons_self
      have hcalled : o.calledIn.tenant i = some t := by
        rw [calledIn_tenant, if_neg habsent]
        exact ht
      rw [makeAllReady_cons ht hfresh, makeAllReady_cons hcalled hfresh,
        ← calledIn_makeReady closed]
      refine ih closed hnodup ?_
      intro j hj
      have hne : j ≠ i := fun heq => hfresh (heq ▸ hj)
      obtain ⟨habsent', t', ht'⟩ := live j (List.mem_cons_of_mem i hj)
      refine ⟨?_, t', (Function.update_of_ne hne _ _).trans ht'⟩
      rw [makeReady_row, show o.readyPlace (f t) = .postponed from if_neg closed, if_pos rfl,
        List.mem_append, List.mem_filter, List.mem_singleton]
      rintro (⟨hold, -⟩ | heq)
      · exact habsent' hold
      · exact hne heq

/-! ## Reading while tasks are postponed -/

/-- The record of a task once it is called in, if it is postponed. -/
def called (task : Task) : Task :=
  if task.place = .postponed then onLevel task else task

theorem called_of_activity {o : Outline} (fits : o.Fits task) (activity : task.activity ≠ .ready) :
    called task = task := by
  refine if_neg (fun hplace => activity ?_)
  exact fits.ready_iff.mpr (Or.inr hplace)

/-- A task that is called in does what it did. -/
theorem called_activity {o : Outline} (fits : o.Fits task) :
    (called task).activity = task.activity := by
  by_cases hplace : task.place = .postponed
  · rw [show called task = onLevel task from if_pos hplace]
    exact (fits.ready_iff.mpr (Or.inr hplace)).symm
  · rw [show called task = task from if_neg hplace]

theorem called_flags (task : Task) : (called task).flags = task.flags := by
  by_cases hplace : task.place = .postponed
  · rw [show called task = onLevel task from if_pos hplace]
    rfl
  · rw [show called task = task from if_neg hplace]

theorem called_priority (task : Task) : (called task).priority = task.priority := by
  by_cases hplace : task.place = .postponed
  · rw [show called task = onLevel task from if_pos hplace]
    rfl
  · rw [show called task = task from if_neg hplace]

theorem calledIn_generation (o : Outline) : o.calledIn.generation = o.generation :=
  rfl

/-- The task in a slot is called in exactly if its record says that it is
    postponed. -/
theorem Sound.calledIn_tenant (sound : o.Sound) (i : Nat) :
    o.calledIn.tenant i = (o.tenant i).map called := by
  rw [Outline.calledIn_tenant]
  cases ht : o.tenant i with
  | none => rw [Option.map_none, Option.map_none, ite_self]
  | some t =>
      by_cases hplace : t.place = .postponed
      · have hmem : i ∈ o.row .postponed :=
          (sound.tagged.mem_row _ i).mpr ⟨(by rintro ⟨⟩), t, ht, hplace⟩
        rw [if_pos hmem, Option.map_some, Option.map_some,
          show called t = onLevel t from if_pos hplace]
      · have hnot : i ∉ o.row .postponed := sound.tagged.not_mem_row ht (Ne.symm hplace)
        rw [if_neg hnot, Option.map_some, show called t = t from if_neg hplace]

theorem Sound.calledIn_get? (sound : o.Sound) (h : Handle) :
    o.calledIn.get? h = (o.get? h).map called := by
  simp only [get?, calledIn_generation, sound.calledIn_tenant]
  by_cases hg : o.generation h.index = h.generation
  · rw [if_pos hg, if_pos hg]
  · rw [if_neg hg, if_neg hg]
    rfl

/-- The same task runs. -/
theorem Sound.calledIn_runner (sound : o.Sound) : o.calledIn.runner = o.runner := by
  simp only [runner, sound.calledIn_get?, show o.calledIn.current = o.current from rfl]
  cases o.current with
  | none => rfl
  | some h =>
      cases hget : o.get? h with
      | none => simp only [Option.map_none, hget]
      | some t =>
          simp only [Option.map_some, hget, called_activity (sound.settled.fits (sound.live hget))]

/-- Tasks that wait for a tick are called by it before or after the others are
    called in. -/
theorem calledIn_wakeDue (tagged : o.Tagged) (closed : o.depth ≠ 0) :
    o.wakeDue.calledIn = o.calledIn.wakeDue := by
  have hpresent : ∀ i ∈ o.row (.delayed o.cycle), i ∉ o.row .postponed :=
    fun i hi => tagged.not_mem_of_mem (by rintro ⟨⟩) hi
  have hunready : ∀ p, Place.delayed o.cycle ≠ .ready p := by
    rintro p ⟨⟩
  have hrow : o.calledIn.row (.delayed o.cycle) = o.row (.delayed o.cycle) := by
    rw [calledIn_row_of_ne hunready, filter_of_disjoint hpresent]
  have hdue : o.calledIn.due = o.due := by
    show (o.calledIn.row (.delayed o.cycle)).takeWhile
      (fun i => decide (tickOf o.calledIn.tenant i ≤ o.now)) = _
    rw [hrow, tickOf_calledIn]
    rfl
  obtain ⟨hnodup, hlive⟩ := tagged.due
  show (o.makeAllReady timedOut o.due).calledIn = o.calledIn.makeAllReady timedOut o.calledIn.due
  rw [hdue]
  refine calledIn_makeAllReady closed hnodup ?_
  intro i hi
  obtain ⟨t, ht, -⟩ := hlive i hi
  exact ⟨hpresent i (List.takeWhile_subset _ hi), t, ht⟩

theorem calledIn_advance (o : Outline) : o.advance.calledIn = o.calledIn.advance := by
  have hnow : o.calledIn.now = o.now := rfl
  simp only [advance, hnow]
  by_cases hwrap : o.now + 1 = 0
  · rw [if_pos hwrap, if_pos hwrap]
    rfl
  · rw [if_neg hwrap, if_neg hwrap]
    rfl

/-- The tick is counted for the same task. -/
theorem Sound.calledIn_chargeRunner (sound : o.Sound) :
    o.chargeRunner.calledIn = o.calledIn.chargeRunner := by
  simp only [Outline.chargeRunner, sound.calledIn_runner]
  cases hrunner : o.runner with
  | none => rfl
  | some h =>
      obtain ⟨-, task, hget, hrunning⟩ := runner_eq_some hrunner
      obtain rfl : task.handle = h := sound.handle_eq hget
      have hlive := sound.live hget
      have hunlinked := sound.runnerFree _ _ hrunner hget
      have hcalled : called task = task := by
        refine if_neg ?_
        rw [hunlinked]
        rintro ⟨⟩
      have habsent : task.handle.index ∉ o.row .postponed :=
        sound.tagged.not_mem_unlinked hlive hunlinked .postponed
      simp only [Option.bind_some, sound.calledIn_get?, hget, Option.map_some, hcalled]
      exact calledIn_put habsent

end Outline

end PriorityScheduler
