import PriorityScheduler.Proofs.Outline
import PriorityScheduler.Proofs.Threading

/-! # What the task table's operations do

    The table is read by slot (`tenant?`, `generationAt`) and by handle (`get?`).
    Each operation is described by what it changes of these, and of the links:
    a write changes one record, entering and retiring change one slot, and
    calling tasks off the front of a chain takes off the tasks that are due and
    no others. -/

namespace PriorityScheduler

namespace TaskTable

/-! ## Reading -/

/-- A handle names the task in its slot unless the slot was vacated since. -/
theorem get?_eq (t : TaskTable) (h : Handle) :
    t.get? h = if t.generationAt h.index = h.generation then t.tenant? h.index else none := by
  unfold get? generationAt tenant?
  cases t.slots[h.index]? with
  | none => simp
  | some slot => rfl

/-- The task that a handle names is in the slot of the handle. -/
theorem tenant?_of_get? {t : TaskTable} {h : Handle} {task : Task} (live : t.get? h = some task) :
    t.tenant? h.index = some task := by
  rw [get?_eq] at live
  by_cases hg : t.generationAt h.index = h.generation
  · rw [if_pos hg] at live
    exact live
  · rw [if_neg hg] at live
    cases live

theorem lt_of_tenant? {t : TaskTable} {i : Nat} {task : Task} (h : t.tenant? i = some task) :
    i < t.slots.size := by
  unfold tenant? at h
  cases hs : t.slots[i]? with
  | none =>
      rw [hs] at h
      cases h
  | some slot => exact (Array.getElem?_eq_some_iff.mp hs).1

theorem find_ok {t : TaskTable} {h : Handle} {task : Task} (live : t.get? h = some task) :
    t.find h = .ok task := by
  simp only [find]
  rw [live]

theorem find_error {t : TaskTable} {h : Handle} (dead : t.get? h = none) :
    t.find h = .error (.refused .unknownHandle) := by
  simp only [find]
  rw [dead]
  rfl

theorem findUnlinked_ok {t : TaskTable} {h : Handle} {task : Task} (live : t.get? h = some task)
    (place : task.place = .unlinked) : t.findUnlinked h = .ok task := by
  simp only [findUnlinked]
  rw [find_ok live]
  show (if task.place = .unlinked then _ else _) = _
  rw [if_pos place]
  rfl

/-! ## Writing -/

@[simp] theorem size_put (t : TaskTable) (i : Nat) (task : Task) :
    (t.put i task).slots.size = t.slots.size := by
  simp [put]

@[simp] theorem generationAt_put (t : TaskTable) (i : Nat) (task : Task) :
    (t.put i task).generationAt = t.generationAt := by
  funext j
  simp only [generationAt, put]
  rw [Array.getElem?_modify]
  by_cases hj : i = j
  · rw [if_pos hj]
    cases t.slots[j]? <;> rfl
  · rw [if_neg hj]

/-- A write changes the record in its slot, and no other. -/
theorem tenant?_put {t : TaskTable} {i : Nat} (task : Task) (h : i < t.slots.size) :
    (t.put i task).tenant? = Function.update t.tenant? i (some task) := by
  funext j
  by_cases hj : j = i
  · subst hj
    rw [Function.update_self]
    exact tenant?_put_self t task h
  · rw [Function.update_of_ne hj]
    exact tenant?_put_of_ne t task (Ne.symm hj)

/-- The second table differs from the first in its records and links at most. -/
structure SameSlots (t t' : TaskTable) : Prop where
  size : t'.slots.size = t.slots.size
  generation : t'.generationAt = t.generationAt
  vacant : t'.vacant = t.vacant
  liveCount : t'.liveCount = t.liveCount
  capacity : t'.capacity = t.capacity
  levels : t'.levels = t.levels

/-- A write and a change of links keep the slots. -/
theorem sameSlots_put (t : TaskTable) (i : Nat) (task : Task) (links : LinkTable) :
    SameSlots t { t.put i task with links := links } :=
  ⟨size_put t i task, generationAt_put t i task, rfl, rfl, rfl, rfl⟩

theorem SameSlots.trans {t t' t'' : TaskTable} (h : SameSlots t t') (h' : SameSlots t' t'') :
    SameSlots t t'' :=
  ⟨h'.size.trans h.size, h'.generation.trans h.generation, h'.vacant.trans h.vacant,
    h'.liveCount.trans h.liveCount, h'.capacity.trans h.capacity, h'.levels.trans h.levels⟩

/-- A change of links keeps the slots. -/
theorem sameSlots_links (t : TaskTable) (links : LinkTable) :
    SameSlots t { t with links := links } :=
  ⟨rfl, rfl, rfl, rfl, rfl, rfl⟩

/-! ## Moving slots between chains -/

/-- A slot of the chain can be taken off it. -/
theorem unlinkFrom_ok {t : TaskTable} {c : Chain} {l : List Nat} {i : Nat}
    (holds : c.Holds t.links l) (hi : i ∈ l) :
    ∃ c' links, t.unlinkFrom c i = .ok (c', { t with links := links })
      ∧ c'.Holds links (l.filter (· ≠ i)) ∧ LinkTable.Rewired t.links links l := by
  obtain ⟨c', links, herase, hholds, hrewired, -⟩ := holds.erase hi
  refine ⟨c', links, ?_, hholds, hrewired⟩
  simp only [unlinkFrom]
  rw [herase]
  rfl

/-- The records after slots were taken off their lists. -/
def lifted (tenant : Nat → Option Task) (l : List Nat) (i : Nat) : Option Task :=
  if i ∈ l then (tenant i).map fun task => { task with place := .unlinked } else tenant i

theorem lifted_nil (tenant : Nat → Option Task) : lifted tenant [] = tenant := rfl

/-- The first slot is taken off its list, and then the others. -/
theorem lifted_cons {tenant : Nat → Option Task} {i : Nat} {task : Task} {l : List Nat}
    (live : tenant i = some task) (fresh : i ∉ l) :
    lifted (Function.update tenant i (some { task with place := .unlinked })) l
      = lifted tenant (i :: l) := by
  funext j
  simp only [lifted]
  by_cases hj : j = i
  · rw [hj, if_neg fresh, if_pos List.mem_cons_self, Function.update_self, live]
    rfl
  · simp [hj]

theorem callUpTo_nil {t : TaskTable} {c : Chain} {n : Nat} {due : TaskTable → Nat → Bool}
    (holds : c.Holds t.links []) : callUpTo n due t c = .ok ([], c, t) := by
  unfold callUpTo
  rw [holds.head]
  rfl

/-- Nothing is called off a chain whose first slot is not due. -/
theorem callUpTo_stop {t : TaskTable} {c : Chain} {n i : Nat} {rest : List Nat}
    {due : TaskTable → Nat → Bool} (holds : c.Holds t.links (i :: rest)) (undue : due t i = false) :
    callUpTo n due t c = .ok ([], c, t) := by
  unfold callUpTo
  rw [holds.head]
  show (if due t i = true then _ else _) = _
  rw [undue]
  rfl

/-- A first slot that is due is called off, and then those behind it. -/
theorem callUpTo_call {t : TaskTable} {c c₁ : Chain} {n i : Nat} {rest : List Nat} {task : Task}
    {links : LinkTable} {due : TaskTable → Nat → Bool} {hs : List Handle} {c' : Chain}
    {t' : TaskTable} (holds : c.Holds t.links (i :: rest)) (isDue : due t i = true)
    (unlink : t.unlinkFrom c i = .ok (c₁, { t with links := links }))
    (live : t.tenant? i = some task)
    (call : callUpTo n due
      ({ t with links := links }.put i { task with place := .unlinked }) c₁ = .ok (hs, c', t')) :
    callUpTo (n + 1) due t c = .ok (task.handle :: hs, c', t') := by
  have hlive : ({ t with links := links } : TaskTable).tenant? i = some task := live
  unfold callUpTo
  rw [holds.head]
  show (if due t i = true then _ else _) = _
  rw [isDue, if_pos rfl]
  simp only [unlink, bind, Except.bind, hlive, call]
  rfl

/-- Calling tasks off a chain takes off the longest front part that is due: its
    tasks are answered in order and left unlinked, and the rest of the chain
    stays.  Whether a slot is due may depend on the wake ticks only. -/
theorem callUpTo_ok (due : TaskTable → Nat → Bool) (d : Nat → Bool) :
    ∀ (l : List Nat) (t : TaskTable) (c : Chain), c.Holds t.links l →
      (∀ i ∈ l, ∃ task, t.tenant? i = some task) →
      (∀ t' : TaskTable, (∀ j, (t'.tenant? j).map Task.wakeTick = (t.tenant? j).map Task.wakeTick) →
        ∀ i ∈ l, due t' i = d i) →
      ∃ c' t', callUpTo l.length due t c
          = .ok ((l.takeWhile d).filterMap (fun i => (t.tenant? i).map Task.handle), c', t')
        ∧ c'.Holds t'.links (l.dropWhile d) ∧ LinkTable.Rewired t.links t'.links l
        ∧ t'.tenant? = lifted t.tenant? (l.takeWhile d) ∧ SameSlots t t' := by
  intro l
  induction l with
  | nil =>
      intro t c holds _ _
      exact ⟨c, t, callUpTo_nil holds, holds, ⟨rfl, fun _ _ => rfl⟩, (lifted_nil _).symm,
        sameSlots_links t t.links⟩
  | cons i rest ih =>
      intro t c holds live agree
      have hdue : due t i = d i := agree t (fun _ => rfl) i List.mem_cons_self
      obtain ⟨task, htask⟩ := live i List.mem_cons_self
      obtain ⟨hnot, -⟩ := List.nodup_cons.mp holds.nodup
      cases hd : d i with
      | false =>
          rw [List.takeWhile_cons_of_neg (by simp [hd]), List.dropWhile_cons_of_neg (by simp [hd])]
          exact ⟨c, t, callUpTo_stop holds (hdue.trans hd), holds, ⟨rfl, fun _ _ => rfl⟩,
            (lifted_nil _).symm, sameSlots_links t t.links⟩
      | true =>
          rw [List.takeWhile_cons_of_pos hd, List.dropWhile_cons_of_pos hd]
          obtain ⟨c₁, links₁, hunlink, hholds₁, hrewired₁⟩ :=
            unlinkFrom_ok holds (i := i) List.mem_cons_self
          rw [filter_head holds.nodup] at hholds₁
          let t₂ : TaskTable := { t with links := links₁ }.put i { task with place := .unlinked }
          have htenant₂ : t₂.tenant?
              = Function.update t.tenant? i (some { task with place := .unlinked }) :=
            tenant?_put (t := { t with links := links₁ }) _ (lt_of_tenant? htask)
          have hrest : ∀ j ∈ rest, t₂.tenant? j = t.tenant? j := by
            intro j hj
            have hji : j ≠ i := fun h => hnot (h ▸ hj)
            rw [htenant₂, Function.update_of_ne hji]
          -- taking a slot off its list does not change by which tick it wakes
          have hwake : ∀ j, (t₂.tenant? j).map Task.wakeTick = (t.tenant? j).map Task.wakeTick := by
            intro j
            rw [htenant₂, Function.update_apply]
            by_cases hj : j = i
            · rw [if_pos hj, hj, htask]
              rfl
            · rw [if_neg hj]
          have hlive : ∀ j ∈ rest, ∃ task, t₂.tenant? j = some task := by
            intro j hj
            rw [hrest j hj]
            exact live j (List.mem_cons_of_mem i hj)
          obtain ⟨c', t', hcall, hholds', hrewired', htenant', hsame'⟩ :=
            ih t₂ c₁ hholds₁ hlive (fun t'' hwake'' j hj =>
              agree t'' (fun x => (hwake'' x).trans (hwake x)) j (List.mem_cons_of_mem i hj))
          refine ⟨c', t', ?_, hholds', ?_, ?_, (sameSlots_put t i _ links₁).trans hsame'⟩
          · rw [List.length_cons, callUpTo_call holds (hdue.trans hd) hunlink htask hcall,
              List.filterMap_cons_some (by rw [htask]; rfl)]
            refine congrArg (fun hs => Except.ok (task.handle :: hs, c', t')) ?_
            refine List.filterMap_congr ?_
            intro j hj
            rw [hrest j (List.takeWhile_subset _ hj)]
          · exact hrewired₁.trans (hrewired'.mono (fun j hj => List.mem_cons_of_mem i hj))
          · rw [htenant', htenant₂]
            exact lifted_cons htask (fun hi => hnot (List.takeWhile_subset _ hi))

/-! ## Coming and going -/

/-- The slot that is free for the next task: the latest vacated one, or a new one
    while the table may still grow. -/
def Room (t : TaskTable) (i : Nat) : Prop :=
  (∃ rest, t.vacant = i :: rest ∧ i < t.slots.size)
    ∨ (t.vacant = [] ∧ i = t.slots.size ∧ t.slots.size < t.capacity)

/-- The free slot is allotted, and a new one is empty. -/
theorem allot_ok {t : TaskTable} {i : Nat} (room : t.Room i)
    (sized : t.links.size = t.slots.size) :
    ∃ t', t.allot = .ok (i, t') ∧ i < t'.slots.size ∧ t'.tenant? = t.tenant?
      ∧ t'.generationAt = t.generationAt ∧ t'.slots.size = max t.slots.size (i + 1)
      ∧ t'.vacant = t.vacant.tail ∧ t'.liveCount = t.liveCount ∧ t'.capacity = t.capacity
      ∧ t'.levels = t.levels ∧ t'.links.size = t'.slots.size
      ∧ ∀ j, t'.links.get j = t.links.get j := by
  simp only [allot]
  rcases room with ⟨rest, hv, hlt⟩ | ⟨hv, rfl, hroom⟩
  · -- a slot that was vacated is taken again
    rw [hv]
    refine ⟨{ t with vacant := rest }, rfl, hlt, rfl, rfl, ?_, rfl, rfl, rfl, rfl, sized,
      fun _ => rfl⟩
    show t.slots.size = _
    omega
  · -- a new slot comes last, without a task and without neighbours
    rw [hv]
    refine ⟨{ t with slots := t.slots.push {}, links := t.links.push }, ?_, ?_, ?_, ?_, ?_, hv, rfl,
      rfl, rfl, ?_, fun j => LinkTable.get_push ..⟩
    · show (if t.slots.size < t.capacity then _ else _) = _
      rw [if_pos hroom, hv]
    · show t.slots.size < (t.slots.push {}).size
      rw [Array.size_push]
      exact Nat.lt_succ_self _
    · funext j
      simp only [tenant?]
      show (t.slots.push {})[j]?.bind Slot.task = _
      rw [Array.getElem?_push]
      by_cases hj : j = t.slots.size
      · rw [if_pos hj, hj, Array.getElem?_eq_none (Nat.le_refl _)]
        rfl
      · rw [if_neg hj]
    · funext j
      simp only [generationAt]
      show ((t.slots.push {})[j]?.map Slot.generation).getD 0 = _
      rw [Array.getElem?_push]
      by_cases hj : j = t.slots.size
      · rw [if_pos hj, hj, Array.getElem?_eq_none (Nat.le_refl _)]
        rfl
      · rw [if_neg hj]
    · show (t.slots.push {}).size = _
      rw [Array.size_push]
      omega
    · show t.links.push.size = (t.slots.push {}).size
      rw [LinkTable.size_push, Array.size_push, sized]

/-- A task that begins ready or suspended begins in no other way. -/
theorem not_otherwise {spec : TaskSpec} (begins : spec.begins = .ready ∨ spec.begins = .suspended) :
    ¬ (spec.begins ≠ .ready ∧ spec.begins ≠ .suspended) := by
  rintro ⟨hready, hsuspended⟩
  rcases begins with h | h
  · exact hready h
  · exact hsuspended h

/-- A task with a priority that exists, and that begins as a task can, moves into
    the slot that is free for it. -/
theorem enter_ok {t : TaskTable} {spec : TaskSpec} (flags : Flags) {i : Nat}
    (priority : spec.priority < t.levels) (begins : spec.begins = .ready ∨ spec.begins = .suspended)
    (room : t.Room i) (sized : t.links.size = t.slots.size) :
    ∃ t', t.enter spec flags = .ok (⟨i, t.generationAt i⟩, t')
      ∧ t'.tenant? = Function.update t.tenant? i
          (some (Task.ofSpec spec flags ⟨i, t.generationAt i⟩))
      ∧ t'.generationAt = t.generationAt ∧ t'.slots.size = max t.slots.size (i + 1)
      ∧ t'.vacant = t.vacant.tail ∧ t'.liveCount = t.liveCount + 1 ∧ t'.capacity = t.capacity
      ∧ t'.levels = t.levels ∧ t'.links.size = t'.slots.size
      ∧ ∀ j, j ≠ i → t'.links.get j = t.links.get j := by
  obtain ⟨t₁, hallot, hlt, htenant, hgen, hsize, hvacant, hlive, hcap, hlev, hlinks, hget⟩ :=
    allot_ok room sized
  -- the slot is at the generation that it had before it was allotted
  have hslot : t₁.slots[i]? = some t₁.slots[i] := Array.getElem?_eq_getElem hlt
  have hg : t₁.slots[i].generation = t.generationAt i := by
    rw [← hgen]
    simp only [generationAt]
    rw [hslot]
    rfl
  refine ⟨{ t₁.put i (.ofSpec spec flags ⟨i, t.generationAt i⟩) with
    links := t₁.links.set i {}
    liveCount := t₁.liveCount + 1 }, ?_, ?_, ?_, ?_, hvacant, ?_, hcap, hlev, ?_, ?_⟩
  · simp only [enter]
    rw [if_neg (Nat.not_le_of_lt priority), if_neg (not_otherwise begins), hallot]
    simp only [bind, Except.bind, hslot]
    rw [← hg]
    rfl
  · rw [← htenant]
    exact tenant?_put _ hlt
  · rw [← hgen]
    exact generationAt_put ..
  · rw [← hsize]
    exact size_put ..
  · rw [← hlive]
  · show (t₁.links.set i {}).size = (t₁.put i _).slots.size
    rw [LinkTable.size_set, size_put]
    exact hlinks
  · intro j hj
    exact (LinkTable.get_set_of_ne _ _ (Ne.symm hj)).trans (hget j)

/-- No task enters a table that has no slot left. -/
theorem enter_full {t : TaskTable} {spec : TaskSpec} {flags : Flags}
    (priority : spec.priority < t.levels) (begins : spec.begins = .ready ∨ spec.begins = .suspended)
    (vacant : t.vacant = []) (full : ¬ t.slots.size < t.capacity) :
    t.enter spec flags = .error (.refused .tableFull) := by
  have hallot : t.allot = .error (.refused .tableFull) := by
    simp only [allot]
    rw [vacant]
    show (if t.slots.size < t.capacity then _ else _) = _
    rw [if_neg full]
    rfl
  simp only [enter]
  rw [if_neg (Nat.not_le_of_lt priority), if_neg (not_otherwise begins), hallot]
  rfl

/-- A task on no list can be retired; its slot is vacated. -/
theorem retire_ok {t : TaskTable} {h : Handle} {task : Task} (live : t.get? h = some task)
    (place : task.place = .unlinked) (counted : 0 < t.liveCount) :
    ∃ t', t.retire h = .ok ({ task with activity := .deleted }, t')
      ∧ t'.tenant? = Function.update t.tenant? h.index none
      ∧ t'.generationAt
          = Function.update t.generationAt h.index (t.generationAt h.index + 1)
      ∧ t'.slots.size = t.slots.size ∧ t'.vacant = h.index :: t.vacant
      ∧ t'.liveCount = t.liveCount - 1 ∧ t'.capacity = t.capacity ∧ t'.levels = t.levels
      ∧ t'.links.size = t.links.size
      ∧ ∀ j, j ≠ h.index → t'.links.get j = t.links.get j := by
  have htenant : t.tenant? h.index = some task := tenant?_of_get? live
  have hlt : h.index < t.slots.size := lt_of_tenant? htenant
  have hslot : ∀ j, (t.slots.modify h.index fun slot => ⟨slot.generation + 1, none⟩)[j]?
      = if j = h.index then some ⟨t.slots[h.index].generation + 1, none⟩ else t.slots[j]? := by
    intro j
    rw [Array.getElem?_modify]
    by_cases hj : h.index = j
    · subst hj
      rw [if_pos rfl, if_pos rfl, Array.getElem?_eq_getElem hlt]
      rfl
    · rw [if_neg hj, if_neg (Ne.symm hj)]
  obtain ⟨others, hothers⟩ := Nat.exists_eq_succ_of_ne_zero (Nat.pos_iff_ne_zero.mp counted)
  -- the next generation begins at once, so the handle that leaves names no slot
  refine ⟨{ t with
    slots := t.slots.modify h.index fun slot => ⟨slot.generation + 1, none⟩
    links := t.links.set h.index {}
    vacant := h.index :: t.vacant
    liveCount := others }, ?_, ?_, ?_, ?_, rfl, ?_, rfl, rfl, ?_, ?_⟩
  · simp only [retire]
    rw [find_ok live]
    show (if task.place = .unlinked then _ else _) = _
    rw [if_pos place, hothers]
    rfl
  · funext j
    unfold tenant?
    show (t.slots.modify h.index _)[j]?.bind Slot.task = _
    rw [hslot, Function.update_apply]
    split
    · rfl
    · rfl
  · funext j
    unfold generationAt
    show ((t.slots.modify h.index _)[j]?.map Slot.generation).getD 0 = _
    rw [hslot, Function.update_apply, Array.getElem?_eq_getElem hlt]
    split
    · rfl
    · rfl
  · exact Array.size_modify ..
  · show others = t.liveCount - 1
    omega
  · exact LinkTable.size_set ..
  · intro j hj
    exact LinkTable.get_set_of_ne _ _ (Ne.symm hj)

end TaskTable

end PriorityScheduler
