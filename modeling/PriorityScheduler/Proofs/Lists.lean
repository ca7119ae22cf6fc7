import Mathlib.Data.List.Sort

/-! # Lists that get longer and shorter

    What is used of lists by those that chains hold and by those that are read off a
    kernel.  An element is taken out by a filter.  It is put in by its key immediately
    before the first one whose key is greater; the list need not be in order for that, but
    where it is, it stays in order, and the new element comes behind its equals. -/

namespace PriorityScheduler

/-! ## Taking out -/

section Filter

variable {α : Type} [DecidableEq α] {x : α} {l : List α}

/-- A list is as it was without an element that it lacks. -/
theorem filter_of_not_mem (fresh : x ∉ l) : l.filter (· ≠ x) = l := by
  rw [List.filter_eq_self]
  intro y hy
  exact decide_eq_true (fun heq => fresh (heq ▸ hy))

/-- Without its first element a list of distinct ones is its tail. -/
theorem filter_head (nodup : (x :: l).Nodup) : (x :: l).filter (· ≠ x) = l := by
  rw [List.filter_cons_of_neg (by simp), filter_of_not_mem (List.nodup_cons.mp nodup).1]

end Filter

/-! ## Putting in by key -/

/-- Insertion by key passes by the nodes whose keys are not greater. -/
theorem orderedInsert_append {key : Nat → UInt32} {a b : List Nat} {i j : Nat}
    (passed : ∀ x ∈ a, ¬ key i < key x) (found : key i < key j) :
    (a ++ j :: b).orderedInsert (fun x y => key x < key y) i = a ++ i :: j :: b := by
  induction a with
  | nil =>
      rw [List.nil_append, List.orderedInsert_cons, if_pos found]
      rfl
  | cons x rest ih =>
      rw [List.cons_append, List.orderedInsert_cons, if_neg (passed x List.mem_cons_self),
        ih (fun y hy => passed y (List.mem_cons_of_mem x hy))]
      rfl

/-- Insertion by key ends behind a list in which no key is greater. -/
theorem orderedInsert_concat {key : Nat → UInt32} {l : List Nat} {i : Nat}
    (passed : ∀ x ∈ l, ¬ key i < key x) :
    l.orderedInsert (fun x y => key x < key y) i = l ++ [i] := by
  induction l with
  | nil => rfl
  | cons x rest ih =>
      rw [List.orderedInsert_cons, if_neg (passed x List.mem_cons_self),
        ih (fun y hy => passed y (List.mem_cons_of_mem x hy))]
      rfl

/-- What is so of any two nodes of a list that is in the order of its keys stays so when one is
    put in by its key, if it is so of this one and those on either side of it. -/
theorem pairwise_orderedInsert {key : Nat → UInt32} {R : Nat → Nat → Prop} {l : List Nat} {i : Nat}
    (sorted : l.Pairwise fun x y => key x ≤ key y) (related : l.Pairwise R)
    (behind : ∀ x ∈ l, key x ≤ key i → R x i) (ahead : ∀ x ∈ l, key i < key x → R i x) :
    (l.orderedInsert (fun x y => key x < key y) i).Pairwise R := by
  induction l with
  | nil => exact List.pairwise_singleton _ i
  | cons x rest ih =>
      obtain ⟨hfirst, hrest⟩ := List.pairwise_cons.mp sorted
      obtain ⟨hfirst', hrest'⟩ := List.pairwise_cons.mp related
      rw [List.orderedInsert_cons]
      by_cases hlt : key i < key x
      · rw [if_pos hlt, List.pairwise_cons]
        refine ⟨?_, related⟩
        intro y hy
        rcases List.mem_cons.mp hy with rfl | hmem
        · exact ahead y hy hlt
        · exact ahead y hy (UInt32.lt_of_lt_of_le hlt (hfirst y hmem))
      · rw [if_neg hlt, List.pairwise_cons]
        refine ⟨?_, ih hrest hrest' (fun y hy => behind y (List.mem_cons_of_mem x hy))
          (fun y hy => ahead y (List.mem_cons_of_mem x hy))⟩
        intro y hy
        rcases (List.mem_orderedInsert _).mp hy with rfl | hy
        · exact behind x List.mem_cons_self (UInt32.not_lt.mp hlt)
        · exact hfirst' y hy

/-- A list in the order of its keys stays so when one is put in by its key. -/
theorem sorted_orderedInsert (key : Nat → UInt32) {l : List Nat} {i : Nat}
    (sorted : l.Pairwise fun x y => key x ≤ key y) :
    (l.orderedInsert (fun x y => key x < key y) i).Pairwise fun x y => key x ≤ key y :=
  pairwise_orderedInsert sorted sorted (fun _ _ hle => hle) fun _ _ hlt => UInt32.le_of_lt hlt

/-- Of a list in the order of its keys, what is put in by its key comes behind those whose key
    is not greater and ahead of the others. -/
theorem orderedInsert_eq_filter {key : Nat → UInt32} {l : List Nat} {i : Nat}
    (sorted : l.Pairwise fun x y => key x ≤ key y) :
    l.orderedInsert (fun x y => key x < key y) i
      = l.filter (fun x => decide (key x ≤ key i))
        ++ i :: l.filter fun x => decide (key i < key x) := by
  induction l with
  | nil => rfl
  | cons x rest ih =>
      obtain ⟨hfirst, hrest⟩ := List.pairwise_cons.mp sorted
      rw [List.orderedInsert_cons]
      by_cases hlt : key i < key x
      · -- the keys only rise, so behind one that is greater all are
        have hpassed : ∀ y ∈ x :: rest, key i < key y := by
          intro y hy
          rcases List.mem_cons.mp hy with rfl | hy
          · exact hlt
          · exact UInt32.lt_of_lt_of_le hlt (hfirst y hy)
        have hnone : (x :: rest).filter (fun y => decide (key y ≤ key i)) = [] := by
          refine List.filter_eq_nil_iff.mpr ?_
          intro y hy
          simpa using hpassed y hy
        have hall : (x :: rest).filter (fun y => decide (key i < key y)) = x :: rest :=
          List.filter_eq_self.mpr fun y hy => decide_eq_true (hpassed y hy)
        rw [if_pos hlt, hnone, hall, List.nil_append]
      · have hle : key x ≤ key i := UInt32.not_lt.mp hlt
        rw [if_neg hlt, ih hrest]
        simp [hle, UInt32.not_lt.mpr hle]

/-- Of a list in the order of its keys, the elements with any one key are in the order of their
    arrival: what is put in by its key comes behind its equals. -/
theorem filter_orderedInsert {key : Nat → UInt32} {l : List Nat} {i : Nat}
    (sorted : l.Pairwise fun x y => key x ≤ key y) (k : UInt32) :
    (l.orderedInsert (fun x y => key x < key y) i).filter (fun x => decide (key x = k))
      = (l ++ [i]).filter fun x => decide (key x = k) := by
  rw [orderedInsert_eq_filter sorted, ← List.singleton_append, List.filter_append,
    List.filter_append, List.filter_append, List.filter_filter, List.filter_filter]
  by_cases hlt : key i < k
  · -- the equals of that key all come behind the new element, which is none of them
    have hbefore : l.filter (fun x => decide (key x = k) && decide (key x ≤ key i)) = [] := by
      refine List.filter_eq_nil_iff.mpr ?_
      intro x _
      simp only [Bool.and_eq_true, decide_eq_true_eq, not_and]
      rintro rfl
      exact UInt32.not_le.mpr hlt
    have hself : [i].filter (fun x => decide (key x = k)) = [] :=
      List.filter_cons_of_neg (by simpa using UInt32.ne_of_lt hlt)
    have hbehind : l.filter (fun x => decide (key x = k) && decide (key i < key x))
        = l.filter fun x => decide (key x = k) := by
      refine List.filter_congr fun x _ => ?_
      by_cases hx : key x = k
      · simp [hx, hlt]
      · simp [hx]
    rw [hbefore, hself, hbehind, List.append_nil, List.nil_append, List.nil_append]
  · have hle : k ≤ key i := UInt32.not_lt.mp hlt
    have hbefore : l.filter (fun x => decide (key x = k) && decide (key x ≤ key i))
        = l.filter fun x => decide (key x = k) := by
      refine List.filter_congr fun x _ => ?_
      by_cases hx : key x = k
      · simp [hx, hle]
      · simp [hx]
    have hbehind : l.filter (fun x => decide (key x = k) && decide (key i < key x)) = [] := by
      refine List.filter_eq_nil_iff.mpr ?_
      intro x _
      simp only [Bool.and_eq_true, decide_eq_true_eq, not_and]
      rintro rfl
      exact hlt
    rw [hbefore, hbehind, List.append_nil]

end PriorityScheduler
