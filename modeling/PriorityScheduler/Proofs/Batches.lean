import PriorityScheduler.Proofs.Steps

/-! # Several tasks at once

    A tick, and the end of a suspension of the scheduler, make a number of tasks
    ready.  `makeAllReady` says what comes of it in one go; here it is taken apart
    into one task after the other, and the tasks whose tick has come are told
    from those that have to wait on. -/

namespace PriorityScheduler

namespace Outline

variable {o : Outline} {i : Nat} {l : List Nat} {task : Task}

/-! ## From the one list to the other -/

/-- A task that becomes ready stands last on its row. -/
theorem enterRow_readyPlace (o : Outline) (key : Nat → Tick) (task : Task) (i : Nat)
    (l : List Nat) : enterRow key .back (o.readyPlace task) i l = l ++ [i] := by
  simp only [readyPlace]
  by_cases h : o.depth = 0
  · rw [if_pos h]
    rfl
  · rw [if_neg h]
    rfl

/-- The rows after a task has become ready. -/
theorem makeReady_row (o : Outline) (i : Nat) (task : Task) (q : Place) :
    (o.makeReady i task).row q
      = (o.row q).filter (· ≠ i) ++ if q = o.readyPlace task then [i] else [] := by
  simp only [makeReady]
  rw [reseat_row]
  by_cases hq : q = o.readyPlace task
  · rw [if_pos (show q = (o.readied task).place from hq), if_pos hq, hq]
    exact enterRow_readyPlace ..
  · rw [if_neg hq, if_neg (show ¬ q = (o.readied task).place from hq), List.append_nil]

/-- Of tasks that were called off their lists, one is made ready: the others are
    still called off, and the one has gone straight from list to list. -/
theorem makeReady_liftAll {f : Task → Task} (live : o.tenant i = some task) (fresh : i ∉ l)
    (keeps : f { task with place := .unlinked } = { f task with place := .unlinked }) :
    (o.liftAll (i :: l)).makeReady i (f { task with place := .unlinked })
      = (o.makeReady i (f task)).liftAll l := by
  have hplace : (o.liftAll (i :: l)).readyPlace (f { task with place := .unlinked })
      = o.readyPlace (f task) := by
    rw [keeps]
    rfl
  ext1 <;> try rfl
  · funext j
    show Function.update (o.liftAll (i :: l)).tenant i (some _) j
      = if j ∈ l then (Function.update o.tenant i (some _) j).map _ else _
    by_cases hj : j = i
    · subst hj
      rw [Function.update_self, if_neg fresh]
      show _ = Function.update o.tenant j (some _) j
      rw [Function.update_self, keeps]
      rfl
    · rw [Function.update_of_ne hj, Function.update_of_ne hj]
      show (if j ∈ i :: l then _ else _) = if j ∈ l then _ else Function.update o.tenant i _ j
      rw [Function.update_of_ne hj]
      simp [hj]
  · funext q
    show ((o.liftAll (i :: l)).makeReady i _).row q = ((o.makeReady i _).row q).filter (· ∉ l)
    rw [makeReady_row, makeReady_row, hplace, List.filter_append]
    refine congrArg₂ (· ++ ·) ?_ ?_
    · -- every row loses the same slots, whichever goes first
      show ((o.row q).filter (· ∉ i :: l)).filter (· ≠ i) = _
      rw [List.filter_filter, List.filter_filter]
      refine List.filter_congr ?_
      intro j _
      by_cases hj : j = i <;> simp [hj]
    · by_cases hq : q = o.readyPlace (f task)
      · rw [if_pos hq, List.filter_cons_of_pos (by simpa using fresh)]
        rfl
      · rw [if_neg hq]
        rfl

/-- Making several tasks ready begins with the first of them. -/
theorem makeAllReady_cons {f : Task → Task} (live : o.tenant i = some task) (fresh : i ∉ l) :
    o.makeAllReady f (i :: l) = (o.makeReady i (f task)).makeAllReady f l := by
  have hne : ∀ j ∈ l, j ≠ i := fun j hj h => fresh (h ▸ hj)
  ext1 <;> try rfl
  · funext j
    show (if j ∈ i :: l then _ else _)
      = if j ∈ l then (Function.update o.tenant i (some _) j).map _
        else Function.update o.tenant i (some _) j
    by_cases hj : j = i
    · subst hj
      rw [if_pos List.mem_cons_self, if_neg fresh, Function.update_self, live]
      rfl
    · rw [Function.update_of_ne hj]
      simp [hj]
      rfl
  · funext q
    show (o.row q).filter (· ∉ i :: l) ++ (i :: l).filter _
      = ((o.makeReady i (f task)).row q).filter (· ∉ l) ++ l.filter _
    rw [makeReady_row, List.filter_append, List.append_assoc]
    refine congrArg₂ (· ++ ·) ?_ ?_
    · rw [List.filter_filter]
      refine List.filter_congr ?_
      intro j _
      by_cases hj : j = i <;> simp [hj]
    · -- the slot that goes first stands before the others on the row it enters
      have hrest : l.filter (fun j => (o.tenant j).any fun t => decide (o.readyPlace (f t) = q))
          = l.filter (fun j => ((o.makeReady i (f task)).tenant j).any fun t =>
              decide ((o.makeReady i (f task)).readyPlace (f t) = q)) := by
        refine List.filter_congr ?_
        intro j hj
        show _ = (Function.update o.tenant i (some _) j).any _
        rw [Function.update_of_ne (hne j hj)]
        rfl
      rw [← hrest]
      by_cases hq : q = o.readyPlace (f task)
      · rw [if_pos hq, List.filter_cons_of_pos (by rw [live]; simp [hq]),
          List.filter_cons_of_pos (by simpa using fresh)]
        rfl
      · rw [if_neg hq, List.filter_cons_of_neg (by rw [live]; simp [Ne.symm hq])]
        rfl

/-- Counting a tick for the running task changes a record at most. -/
theorem chargeRunner_cases (o : Outline) :
    o.chargeRunner = o ∨ ∃ task, o.runner.bind o.get? = some task ∧ o.chargeRunner
      = o.put task.handle.index { task with runTicks := task.runTicks + 1 } := by
  simp only [chargeRunner]
  cases o.runner.bind o.get? with
  | none => exact Or.inl rfl
  | some task => exact Or.inr ⟨task, rfl, rfl⟩

/-- A record that is written just before a task becomes ready is overwritten. -/
theorem makeReady_put (o : Outline) (i : Nat) (task task' : Task) :
    (o.put i task').makeReady i task = o.makeReady i task := by
  have htenant : (o.put i task').tenant = Function.update o.tenant i (some task') := rfl
  ext1 <;> try rfl
  · exact Function.update_idem ..
  · funext q
    rw [makeReady_row, makeReady_row]
    rfl

theorem handles_cons (live : o.tenant i = some task) :
    o.handles (i :: l) = task.handle :: o.handles l := by
  simp only [handles]
  rw [List.filterMap_cons_some (by rw [live]; rfl)]

/-- The records in other slots stay. -/
theorem tenant_makeReady (fresh : i ∉ l) {j : Nat} (hj : j ∈ l) :
    (o.makeReady i task).tenant j = o.tenant j := by
  have hne : j ≠ i := fun h => fresh (h ▸ hj)
  exact Function.update_of_ne hne _ _

/-- The other tasks keep their handles. -/
theorem handles_makeReady (fresh : i ∉ l) : (o.makeReady i task).handles l = o.handles l := by
  refine List.filterMap_congr ?_
  intro j hj
  rw [tenant_makeReady fresh hj]

/-- Making no task ready changes nothing. -/
theorem makeAllReady_nil (o : Outline) (f : Task → Task) : o.makeAllReady f [] = o := by
  ext1 <;> try rfl
  · funext q
    show (o.row q).filter (· ∉ []) ++ [].filter _ = o.row q
    simp

/-- Calling no task off its list changes nothing. -/
theorem liftAll_nil (o : Outline) : o.liftAll [] = o := by
  ext1 <;> try rfl
  · funext q
    show (o.row q).filter (· ∉ []) = o.row q
    simp

/-! ## Those that are called -/

/-- What is left of a list of distinct slots is what was not called. -/
theorem dropWhile_eq_filter (d : Nat → Bool) {l : List Nat} (nodup : l.Nodup) :
    l.dropWhile d = l.filter (· ∉ l.takeWhile d) := by
  have hsplit := List.takeWhile_append_dropWhile (p := d) (l := l)
  rw [← hsplit, List.nodup_append] at nodup
  obtain ⟨-, -, hdisjoint⟩ := nodup
  have hcalled : (l.takeWhile d).filter (· ∉ l.takeWhile d) = [] := by
    rw [List.filter_eq_nil_iff]
    intro j hj
    simp [hj]
  have hleft : (l.dropWhile d).filter (· ∉ l.takeWhile d) = l.dropWhile d := by
    refine filter_of_disjoint ?_
    intro j hj hj'
    exact hdisjoint j hj' j hj rfl
  calc l.dropWhile d
      = (l.takeWhile d).filter (· ∉ l.takeWhile d) ++ (l.dropWhile d).filter (· ∉ l.takeWhile d) := by
        rw [hcalled, hleft, List.nil_append]
    _ = l.filter (· ∉ l.takeWhile d) := by
        rw [← List.filter_append, hsplit]

/-- Of a list in the order of its keys, those up to a bound come first. -/
theorem mem_takeWhile_of_sorted {key : Nat → Tick} {now : Tick} {l : List Nat} {j : Nat}
    (sorted : l.Pairwise fun x y => key x ≤ key y) (hj : j ∈ l) (reached : key j ≤ now) :
    j ∈ l.takeWhile fun x => decide (key x ≤ now) := by
  induction l with
  | nil => cases hj
  | cons x rest ih =>
      obtain ⟨hfirst, hrest⟩ := List.pairwise_cons.mp sorted
      have hx : key x ≤ now := by
        rcases List.mem_cons.mp hj with rfl | hj'
        · exact reached
        · exact UInt32.le_trans (hfirst j hj') reached
      have htake : (x :: rest).takeWhile (fun x => decide (key x ≤ now))
          = x :: rest.takeWhile fun x => decide (key x ≤ now) :=
        List.takeWhile_cons_of_pos (decide_eq_true hx)
      rw [htake, List.mem_cons]
      rcases List.mem_cons.mp hj with rfl | hj'
      · exact Or.inl rfl
      · exact Or.inr (ih hrest hj')

/-- When the list of the present cycle is in order, the tasks whose tick has come
    are all called, and no others. -/
theorem mem_due (sorted : (o.row (.delayed o.cycle)).Pairwise
      fun i j => tickOf o.tenant i ≤ tickOf o.tenant j) (j : Nat) :
    j ∈ o.due ↔ j ∈ o.row (.delayed o.cycle) ∧ tickOf o.tenant j ≤ o.now := by
  constructor
  · intro hj
    exact ⟨List.takeWhile_subset _ hj, of_decide_eq_true (List.all_eq_true.mp List.all_takeWhile j hj)⟩
  · rintro ⟨hj, hreached⟩
    exact mem_takeWhile_of_sorted sorted hj hreached

end Outline

end PriorityScheduler
