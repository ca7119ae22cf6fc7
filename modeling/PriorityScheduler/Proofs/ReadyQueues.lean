import PriorityScheduler.Proofs.Queues
import PriorityScheduler.Proofs.Traffic

/-! # A ready queue over its whole history

    A ready queue keeps a chain for every level, and beside them a map of the levels that
    hold a task, by which it finds the highest of them.  The history alone tells what each
    level holds: its LINE is what the insertions at either end come to, with all tasks left
    out that were erased or taken since.

    The map is a cache of the lines.  It is written whenever a level gains a task, and when
    a level has lost its last one; so the level that it finds is the highest priority of a
    ready task, over every history. -/

namespace PriorityScheduler

/-- A list with one more at one end. -/
def Side.join {α : Type} (side : Side) (x : α) (l : List α) : List α :=
  match side with
  | .front => x :: l
  | .back => l ++ [x]

/-- Whether a record says that the task is on a ready level. -/
def Task.queued (task : Task) : Bool :=
  match task.place with
  | .ready _ => true
  | _ => false

theorem Side.mem_join {α : Type} {side : Side} {x y : α} {l : List α} :
    y ∈ side.join x l ↔ y = x ∨ y ∈ l := by
  cases side with
  | front => exact List.mem_cons
  | back => simp [Side.join, or_comm]

theorem Side.map_join {α β : Type} (f : α → β) (side : Side) (x : α) (l : List α) :
    (side.join x l).map f = side.join (f x) (l.map f) := by
  cases side with
  | front => rfl
  | back => exact List.map_append

theorem Side.join_ne_nil {α : Type} (side : Side) (x : α) (l : List α) : side.join x l ≠ [] :=
  List.ne_nil_of_mem (mem_join.mpr (Or.inl rfl))

theorem Task.queued_iff {task : Task} : task.queued = true ↔ ∃ p, task.place = .ready p := by
  simp only [Task.queued]
  cases task.place <;> simp

namespace ReadyQueue

/-! ## Requests and deeds -/

/-- What can be asked of a ready queue. -/
inductive Request where
  | insert (side : Side) (h : Handle)
  | erase (h : Handle)
  | takeFirst
  deriving DecidableEq, Repr

/-- A request that was done. -/
inductive Deed where
  | inserted (side : Side) (h : Handle) (level : Nat)
  | erased (h : Handle)
  /-- The first task was taken, if there was one. -/
  | taken (first : Option Handle)
  deriving DecidableEq, Repr

/-- Do what is asked.  A task is inserted at the level of its priority. -/
def Request.run : Request → ReadyQueue × TaskTable → Except Failure (Deed × ReadyQueue × TaskTable)
  | .insert side h, (q, t) => do
      let s ← q.insert side t h
      return (.inserted side h (((t.get? h).map Task.priority).getD 0), s)
  | .erase h, (q, t) => do
      let s ← q.erase t h
      return (.erased h, s)
  | .takeFirst, (q, t) => do
      let (first, s) ← q.takeFirst t
      return (.taken first, s)

/-- The tasks of a level by the history: those that were inserted there, at the end at which
    they were, without those that left it since. -/
def line (p : Nat) : List Deed → List Handle
  | [] => []
  | .inserted side h level :: log => if level = p then side.join h (line p log) else line p log
  | .erased h :: log => (line p log).filter (· ≠ h)
  | .taken first :: log => (line p log).filter fun h => some h ≠ first

/-! ## What each operation does -/

variable {q : ReadyQueue} {t : TaskTable} {h : Handle} {task : Task} {p n : Nat} {side : Side}

theorem ready_injective : Function.Injective Place.ready :=
  fun _ _ heq => Place.ready.inj heq

theorem levelAt_set (q : ReadyQueue) (chain : Chain) (occupied : BitVec 64)
    (level : p < q.levels.size) :
    (⟨q.levels.setIfInBounds p chain, occupied⟩ : ReadyQueue).levelAt
      = Function.update q.levelAt p chain := by
  funext p'
  rw [Kernel.levelAt_set chain occupied q p p' level, Function.update_apply]

/-- A level that exists. -/
theorem getElem?_levels (level : p < q.levels.size) : q.levels[p]? = some (q.levelAt p) := by
  rw [levelAt, Array.getElem?_eq_getElem level]
  rfl

/-- A node that is put at one end of a chain stands at that end of the list. -/
theorem holds_addAt {c : Chain} {links : LinkTable} {l : List Nat} {i : Nat}
    (holds : c.Holds links l) (side : Side) (fresh : i ∉ l) (bound : i < links.size) :
    (c.addAt side links i).1.Holds (c.addAt side links i).2 (side.join i l)
      ∧ LinkTable.Rewired links (c.addAt side links i).2 (i :: l) := by
  cases side with
  | front => exact holds.addFirst fresh bound
  | back => exact holds.addLast fresh bound

/-! ### Refusals -/

theorem insert_stale (dead : t.get? h = none) :
    q.insert side t h = .error (.refused .unknownHandle) := by
  simp only [insert, TaskTable.findUnlinked_stale dead]
  rfl

theorem insert_linked (live : t.get? h = some task) (linked : task.place ≠ .unlinked) :
    q.insert side t h = .error (.refused .invalidState) := by
  simp only [insert, TaskTable.findUnlinked_linked live linked]
  rfl

theorem erase_stale (dead : t.get? h = none) :
    q.erase t h = .error (.refused .unknownHandle) := by
  simp only [erase, TaskTable.find_error dead]
  rfl

theorem erase_away (live : t.get? h = some task) (away : ∀ p, task.place ≠ .ready p) :
    q.erase t h = .error (.refused .invalidState) := by
  simp only [erase, TaskTable.find_ok live, bind, Except.bind]
  cases hplace : task.place with
  | ready p => exact absurd hplace (away p)
  | _ => rfl

/-! ### What is done -/

/-- What is seen of a ready queue: the tasks of each level and the records. -/
structure Shows (q : ReadyQueue) (t : TaskTable) (lists : Nat → List Handle)
    (records : Handle → Option Task) : Prop where
  lists : ∀ p, q.handlesAt t p = lists p
  records : t.get? = records

/-- The parts of a ready queue of `n` levels agree: it seats the ready tasks, and the map marks
    the levels that hold one. -/
structure Mapped (n : Nat) (q : ReadyQueue) (t : TaskTable) : Prop where
  seated : t.Seated Place.ready q.levelAt
  marked : ∀ p, q.occupied.getLsbD p = true ↔ q.handlesAt t p ≠ []
  levels : q.levels.size = n
  priority : ∀ {h task}, t.get? h = some task → task.priority < n
  /-- A ready task is at the level of its priority. -/
  ranked : ∀ {h task p}, t.get? h = some task → task.place = .ready p →
    p = task.priority ∧ task.activity = .ready

section Operations

variable (mapped : Mapped n q t)

include mapped

theorem Mapped.level_lt (live : t.get? h = some task) (place : task.place = .ready p) : p < n := by
  obtain ⟨rfl, -⟩ := mapped.ranked live place
  exact mapped.priority live

/-- One record is replaced along with the chain of one level. -/
theorem Mapped.replace {t' : TaskTable} {chain : Chain} (occupied : BitVec 64) {l : List Handle}
    {task' : Task} (level : p < n)
    (seated : t'.Seated Place.ready (Function.update q.levelAt p chain)
      ∧ (fun p' => t'.handlesOn (Function.update q.levelAt p chain p'))
        = Function.update (fun p' => t.handlesOn (q.levelAt p')) p l)
    (records : t'.get? = Function.update t.get? h (some task'))
    (priority : task'.priority < n)
    (ranked : ∀ p', task'.place = .ready p' → p' = task'.priority ∧ task'.activity = .ready)
    (marked : ∀ p', occupied.getLsbD p' = true
      ↔ if p' = p then l ≠ [] else q.occupied.getLsbD p' = true) :
    Mapped n ⟨q.levels.setIfInBounds p chain, occupied⟩ t'
      ∧ Shows ⟨q.levels.setIfInBounds p chain, occupied⟩ t' (Function.update (q.handlesAt t) p l)
          (Function.update t.get? h (some task')) := by
  have hlevel : p < q.levels.size := mapped.levels ▸ level
  -- the level that is written is the chain at which the tasks are seated
  rw [← levelAt_set q chain occupied hlevel] at seated
  obtain ⟨hseated, hlists⟩ := seated
  have hlists : ∀ p', handlesAt ⟨q.levels.setIfInBounds p chain, occupied⟩ t' p'
      = Function.update (q.handlesAt t) p l p' := congrFun hlists
  refine ⟨⟨hseated, ?marked, ?levels, ?priority, ?ranked⟩, hlists, records⟩
  case marked =>
    intro p'
    rw [hlists, marked, Function.update_apply]
    by_cases hp : p' = p
    · simp [hp]
    · simp only [if_neg hp]
      exact mapped.marked p'
  case levels => exact (Array.size_setIfInBounds ..).trans mapped.levels
  case priority =>
    intro h' task'' hlive
    rw [records, Function.update_apply] at hlive
    by_cases hh : h' = h
    · rw [if_pos hh] at hlive
      exact Option.some.inj hlive ▸ priority
    · rw [if_neg hh] at hlive
      exact mapped.priority hlive
  case ranked =>
    intro h' task'' p' hlive hplace
    rw [records, Function.update_apply] at hlive
    by_cases hh : h' = h
    · rw [if_pos hh] at hlive
      obtain rfl := Option.some.inj hlive
      exact ranked p' hplace
    · rw [if_neg hh] at hlive
      exact mapped.ranked hlive hplace

/-- An unlinked task is inserted at one end of the level of its priority. -/
theorem Mapped.insert_ok (few : n ≤ 64) (side : Side) (live : t.get? h = some task)
    (unlinked : task.place = .unlinked) :
    ∃ q' t', q.insert side t h = .ok (q', t') ∧ Mapped n q' t'
      ∧ Shows q' t'
          (Function.update (q.handlesAt t) task.priority
            (side.join h (q.handlesAt t task.priority)))
          (Function.update t.get? h
            (some { task with activity := .ready, place := .ready task.priority })) := by
  let p := task.priority
  let task' : Task := { task with activity := .ready, place := .ready p }
  have hp : p < n := mapped.priority live
  have hp64 : p < 64 := Nat.lt_of_lt_of_le hp few
  have htenant := TaskTable.tenant?_of_get? live
  have hadded := holds_addAt (mapped.seated.holds p) side
    (mapped.seated.not_mem_unlinked htenant unlinked p)
    (mapped.seated.kept.sized ▸ TaskTable.lt_of_tenant? htenant)
  have hseated := mapped.seated.enter task' live unlinked rfl rfl hadded fun i => Side.mem_join
  rw [Side.map_join, TaskTable.handleAt_of_get? live, ← mapped.seated.handlesOn] at hseated
  refine ⟨_, _, ?_, mapped.replace (q.occupied ||| BitVec.twoPow 64 p) hp hseated
    (TaskTable.get?_amend live task' _) hp ?_ ?_⟩
  · simp only [insert, TaskTable.findUnlinked_ok live unlinked, bind, Except.bind,
      getElem?_levels (mapped.levels.symm ▸ hp : p < q.levels.size), p]
    -- the map has a bit for the level, so the write that marks it is in range
    rw [if_pos hp64]
    rfl
  · intro p' hplace
    exact ⟨(Place.ready.inj hplace).symm, rfl⟩
  · intro p'
    rw [Kernel.getLsbD_mark _ hp64]
    by_cases hp' : p' = p
    · rw [if_pos hp', if_pos hp']
      exact iff_of_true rfl (side.join_ne_nil h _)
    · rw [if_neg hp', if_neg hp']

/-- A ready task is taken off its level, and the mark of the level is taken back with the last
    one. -/
theorem Mapped.erase_ok (few : n ≤ 64) (live : t.get? h = some task)
    (place : task.place = .ready p) :
    ∃ q' t', q.erase t h = .ok (q', t') ∧ Mapped n q' t'
      ∧ Shows q' t' (Function.update (q.handlesAt t) p ((q.handlesAt t p).filter (· ≠ h)))
          (Function.update t.get? h (some { task with place := .unlinked })) := by
  have hp : p < n := mapped.level_lt live place
  have hp64 : p < 64 := Nat.lt_of_lt_of_le hp few
  have hpriority : task.priority < n := mapped.priority live
  obtain ⟨chain, links, hunlink, hseated⟩ := mapped.seated.leave live place
  -- the test of the chain that is left is a test of the list it holds
  have hempty : chain.isEmpty = decide ((q.handlesAt t p).filter (· ≠ h) = []) := by
    have hlength := hseated.1.length p
    rw [congrFun hseated.2 p, Function.update_self, Function.update_self] at hlength
    simp only [Chain.isEmpty, hlength]
    show _ = decide ((t.handlesOn (q.levelAt p)).filter (· ≠ h) = [])
    cases (t.handlesOn (q.levelAt p)).filter (· ≠ h) <;> simp
  let occupied : BitVec 64 :=
    if chain.isEmpty then q.occupied &&& ~~~(BitVec.twoPow 64 p) else q.occupied
  refine ⟨_, t.amend h.index { task with place := .unlinked } links, ?_,
    mapped.replace occupied hp hseated (TaskTable.get?_amend live _ _)
      hpriority (by rintro p' ⟨⟩) ?_⟩
  · simp only [erase, TaskTable.find_ok live, bind, Except.bind, place,
      getElem?_levels (mapped.levels.symm ▸ hp : p < q.levels.size)]
    rw [hunlink]
    show (if chain.isEmpty = true then (if p < 64 then _ else _) else _) = _
    rw [if_pos hp64]
    show _ = Except.ok (ReadyQueue.mk _ (if chain.isEmpty = true then _ else _), _)
    cases chain.isEmpty <;> rfl
  · intro p'
    show BitVec.getLsbD (if chain.isEmpty = true then _ else _) p' = true ↔ _
    rw [hempty]
    by_cases hnil : (q.handlesAt t p).filter (· ≠ h) = []
    · rw [if_pos (decide_eq_true hnil), Kernel.getLsbD_unmark _ hp64]
      by_cases hp' : p' = p
      · rw [if_pos hp', if_pos hp']
        exact iff_of_false Bool.false_ne_true (not_not_intro hnil)
      · rw [if_neg hp', if_neg hp']
    · rw [if_neg (by simpa using hnil)]
      by_cases hp' : p' = p
      · rw [if_pos hp', hp', mapped.marked]
        -- some task is left, so the level was marked before as well
        refine iff_of_true ?_ hnil
        intro hall
        rw [hall] at hnil
        exact hnil rfl
      · rw [if_neg hp']

/-! ### Reading -/

theorem Mapped.mem_handlesAt (p : Nat) (h : Handle) :
    h ∈ q.handlesAt t p ↔ ∃ task, t.get? h = some task ∧ task.place = .ready p :=
  mapped.seated.mem_handlesOn p h

/-- The level that the map finds is the highest one that holds a task. -/
theorem Mapped.topLevel_cases :
    (q.topLevel = none ∧ ∀ p, q.handlesAt t p = [])
      ∨ ∃ p, q.topLevel = some p ∧ q.handlesAt t p ≠ [] ∧ ∀ p', p < p' → q.handlesAt t p' = [] := by
  have hunmarked : ∀ p, q.occupied.getLsbD p = false → q.handlesAt t p = [] := by
    intro p hmark
    by_contra hne
    rw [(mapped.marked p).mpr hne] at hmark
    cases hmark
  rcases Kernel.topLevel_marked q with ⟨hnone, hall⟩ | ⟨p, hsome, hmark, habove⟩
  · exact Or.inl ⟨hnone, fun p => hunmarked p (hall p)⟩
  · exact Or.inr ⟨p, hsome, (mapped.marked p).mp hmark, fun p' hp' => hunmarked p' (habove p' hp')⟩

/-- It is the highest priority of a ready task. -/
theorem Mapped.topLevel_iff (p : Nat) : q.topLevel = some p
    ↔ (∃ h task, t.get? h = some task ∧ task.queued = true ∧ task.priority = p)
      ∧ ∀ h task, t.get? h = some task → task.queued = true → task.priority ≤ p := by
  have hmem : ∀ {h task}, t.get? h = some task → task.queued = true →
      h ∈ q.handlesAt t task.priority := by
    intro h task hlive hqueued
    obtain ⟨p', hplace⟩ := Task.queued_iff.mp hqueued
    obtain ⟨rfl, -⟩ := mapped.ranked hlive hplace
    exact (mapped.mem_handlesAt _ h).mpr ⟨task, hlive, hplace⟩
  have hfirst : ∀ {p}, q.handlesAt t p ≠ [] →
      ∃ h task, t.get? h = some task ∧ task.queued = true ∧ task.priority = p := by
    intro p hne
    obtain ⟨h, hh⟩ := List.exists_mem_of_ne_nil _ hne
    obtain ⟨task, hlive, hplace⟩ := (mapped.mem_handlesAt p h).mp hh
    exact ⟨h, task, hlive, Task.queued_iff.mpr ⟨p, hplace⟩, (mapped.ranked hlive hplace).1.symm⟩
  rcases mapped.topLevel_cases with ⟨hnone, hall⟩ | ⟨top, hsome, hne, habove⟩
  · rw [hnone]
    refine iff_of_false (by rintro ⟨⟩) ?_
    rintro ⟨⟨h, task, hlive, hqueued, -⟩, -⟩
    have hin := hmem hlive hqueued
    rw [hall] at hin
    cases hin
  · -- a ready task of a higher priority would be on a level that is empty
    have hgreatest : ∀ h task, t.get? h = some task → task.queued = true → task.priority ≤ top := by
      intro h task hlive hqueued
      by_contra hlt
      have hin := hmem hlive hqueued
      rw [habove _ (Nat.lt_of_not_le hlt)] at hin
      cases hin
    rw [hsome]
    constructor
    · intro heq
      obtain rfl := Option.some.inj heq
      exact ⟨hfirst hne, hgreatest⟩
    · rintro ⟨⟨h, task, hlive, hqueued, rfl⟩, hbound⟩
      obtain ⟨h', task', hlive', hqueued', htop⟩ := hfirst hne
      have hle := hbound h' task' hlive' hqueued'
      exact congrArg some (Nat.le_antisymm (htop ▸ hle) (hgreatest h task hlive hqueued))

/-- The map is empty when no task is ready. -/
theorem Mapped.topLevel_none_iff :
    q.topLevel = none ↔ ∀ h task, t.get? h = some task → task.queued = false := by
  rcases mapped.topLevel_cases with ⟨hnone, hall⟩ | ⟨p, hsome, hne, -⟩
  · refine iff_of_true hnone ?_
    intro h task hlive
    rw [← Bool.not_eq_true, Task.queued_iff]
    rintro ⟨p, hplace⟩
    have hin := (mapped.mem_handlesAt p h).mpr ⟨task, hlive, hplace⟩
    rw [hall] at hin
    cases hin
  · refine iff_of_false (by rw [hsome]; rintro ⟨⟩) ?_
    intro hall
    obtain ⟨h, hh⟩ := List.exists_mem_of_ne_nil _ hne
    obtain ⟨task, hlive, hplace⟩ := (mapped.mem_handlesAt p h).mp hh
    have hqueued := Task.queued_iff.mpr ⟨p, hplace⟩
    rw [hall h task hlive] at hqueued
    cases hqueued

/-- The first task is the head of the level that the map finds. -/
theorem Mapped.first?_eq :
    q.first? t = .ok (q.topLevel.bind fun p => (q.handlesAt t p).head?) := by
  rcases mapped.topLevel_cases with ⟨hnone, -⟩ | ⟨p, hsome, hne, -⟩
  · simp only [first?, hnone]
    rfl
  · obtain ⟨h, rest, hlist⟩ := List.exists_cons_of_ne_nil hne
    obtain ⟨task, hlive, hplace⟩ :=
      (mapped.mem_handlesAt p h).mp (hlist ▸ List.mem_cons_self)
    have hhead := mapped.seated.head p
    rw [show t.handlesOn (q.levelAt p) = h :: rest from hlist] at hhead
    have hlevel : p < q.levels.size := mapped.levels.symm ▸ mapped.level_lt hlive hplace
    have htenant := TaskTable.tenant?_of_get? hlive
    have hhandle : task.handle = h := by
      rw [mapped.seated.kept.handle htenant]
      exact TaskTable.handleAt_of_get? hlive
    simp only [first?, hsome, getElem?_levels hlevel, hhead, Option.bind_some, hlist,
      List.head?_cons, Option.map_some, htenant, hhandle]

/-- Without the first task of a level the others are left. -/
theorem Mapped.filter_first {first : Handle} {rest : List Handle}
    (list : q.handlesAt t p = first :: rest) : (q.handlesAt t p).filter (· ≠ first) = rest := by
  have hnodup := mapped.seated.nodup_handlesOn p
  rw [show t.handlesOn (q.levelAt p) = first :: rest from list] at hnodup
  rw [list, filter_head hnodup]

/-- The first task of the highest level that holds one is taken. -/
theorem Mapped.takeFirst_ok (few : n ≤ 64) {first : Handle} {rest : List Handle}
    (top : q.topLevel = some p) (list : q.handlesAt t p = first :: rest) :
    ∃ task q' t', t.get? first = some task ∧ task.place = .ready p
      ∧ q.takeFirst t = .ok (some first, q', t') ∧ Mapped n q' t'
      ∧ Shows q' t' (Function.update (q.handlesAt t) p rest)
          (Function.update t.get? first (some { task with place := .unlinked })) := by
  obtain ⟨task, hlive, hplace⟩ := (mapped.mem_handlesAt p first).mp (list ▸ List.mem_cons_self)
  obtain ⟨q', t', hrun, hmapped, hshows⟩ := mapped.erase_ok few hlive hplace
  rw [mapped.filter_first list] at hshows
  refine ⟨task, q', t', hlive, hplace, ?_, hmapped, hshows⟩
  have hfirst : q.first? t = .ok (some first) := by
    rw [mapped.first?_eq, top, Option.bind_some, list, List.head?_cons]
  simp only [takeFirst, hfirst, hrun, bind, Except.bind]
  rfl

end Operations

/-! ### Counting -/

/-- The levels are the chains of all numbers below their count. -/
theorem levels_eq (q : ReadyQueue) :
    q.levels.toList = (List.range q.levels.size).map q.levelAt := by
  refine List.ext_getElem (by simp) ?_
  intro p hp _
  rw [Array.length_toList] at hp
  rw [List.getElem_map, List.getElem_range, Array.getElem_toList, levelAt,
    Array.getElem?_eq_getElem hp]
  rfl

/-- The levels together are as long as there are ready tasks. -/
theorem Mapped.count_eq (mapped : Mapped n q t) :
    q.count = (t.tasks.filter Task.queued).length := by
  let rows := (List.range n).flatMap fun p => (q.levelAt p).toList t.links
  have hcount : q.count = rows.length := by
    simp only [count, levels_eq, mapped.levels, rows, List.length_flatMap, List.map_map]
    refine congrArg List.sum (List.map_congr_left fun p _ => ?_)
    exact (mapped.seated.holds p).length
  -- a slot is on one level at most, and once
  have hnodup : rows.Nodup := by
    refine List.nodup_flatMap.mpr ⟨fun p _ => (mapped.seated.holds p).nodup, ?_⟩
    refine List.nodup_range.imp ?_
    intro p p' hne i hi hi'
    exact mapped.seated.not_mem_of_mem hne hi hi'
  rw [hcount, TaskTable.length_filter_tasks]
  -- both lists are without repetitions, so they are as long if they have the same members
  refine ((List.perm_ext_iff_of_nodup hnodup (List.nodup_range.filter _)).mpr ?_).length_eq
  intro i
  rw [List.mem_flatMap, List.mem_filter, Option.any_eq_true]
  constructor
  · rintro ⟨p, -, hi⟩
    obtain ⟨task, hlive, hplace⟩ := (mapped.seated.mem p i).mp hi
    exact ⟨List.mem_range.mpr (TaskTable.lt_of_tenant? hlive), task, hlive,
      Task.queued_iff.mpr ⟨p, hplace⟩⟩
  · rintro ⟨-, task, hlive, hqueued⟩
    obtain ⟨p, hplace⟩ := Task.queued_iff.mp hqueued
    rw [← TaskTable.get?_handleAt] at hlive
    refine ⟨p, List.mem_range.mpr (mapped.level_lt hlive hplace), ?_⟩
    rw [TaskTable.get?_handleAt] at hlive
    exact (mapped.seated.mem p i).mpr ⟨task, hlive, hplace⟩

/-! ## What the history tells -/

/-- What a ready queue and its table are by their history: their parts agree, and each level
    holds its line. -/
structure Accounts (n : Nat) (log : List Deed) (q : ReadyQueue) (t : TaskTable) : Prop
    extends Mapped n q t where
  lines : ∀ p, q.handlesAt t p = line p log

section Deeds

variable {log : List Deed} {q' : ReadyQueue} {t' : TaskTable}

/-- No task of another level leaves it when one leaves its own. -/
theorem Mapped.filter_ne (mapped : Mapped n q t) (live : t.get? h = some task)
    (place : task.place = .ready p) (p' : Nat) :
    Function.update (q.handlesAt t) p ((q.handlesAt t p).filter (· ≠ h)) p'
      = (q.handlesAt t p').filter (· ≠ h) := by
  rw [Function.update_apply]
  by_cases hp : p' = p
  · rw [if_pos hp, hp]
  · rw [if_neg hp]
    refine (List.filter_eq_self.mpr ?_).symm
    intro x hx
    refine decide_eq_true ?_
    rintro rfl
    obtain ⟨task', hlive, hplace⟩ := (mapped.mem_handlesAt p' x).mp hx
    obtain rfl := Option.some.inj (live.symm.trans hlive)
    exact hp (Place.ready.inj (hplace.symm.trans place))

/-- The history accounts for the queue after every request that is done. -/
theorem Accounts.deed (accounts : Accounts n log q t) (few : n ≤ 64) {r : Request} {deed : Deed}
    (done : r.run (q, t) = .ok (deed, q', t')) : Accounts n (deed :: log) q' t' := by
  have hlines := accounts.lines
  cases r with
  | insert side h =>
      cases hlive : t.get? h with
      | none =>
          simp only [Request.run, insert_stale hlive] at done
          cases done
      | some task =>
          by_cases hplace : task.place = .unlinked
          · obtain ⟨q₁, t₁, hrun, hmapped, hshows⟩ := accounts.insert_ok few side hlive hplace
            simp only [Request.run, hrun, hlive] at done
            cases done
            refine ⟨hmapped, fun p => ?_⟩
            rw [hshows.lists, Function.update_apply, hlines, hlines]
            simp only [line, Option.map_some, Option.getD_some]
            by_cases hp : p = task.priority
            · rw [if_pos hp, if_pos hp.symm, hp]
            · rw [if_neg hp, if_neg (Ne.symm hp)]
          · simp only [Request.run, insert_linked hlive hplace] at done
            cases done
  | erase h =>
      cases hlive : t.get? h with
      | none =>
          simp only [Request.run, erase_stale hlive] at done
          cases done
      | some task =>
          by_cases haway : ∀ p, task.place ≠ .ready p
          · simp only [Request.run, erase_away hlive haway] at done
            cases done
          · obtain ⟨p, hplace⟩ := not_forall.mp haway
            have hplace : task.place = .ready p := not_not.mp hplace
            obtain ⟨q₁, t₁, hrun, hmapped, hshows⟩ := accounts.erase_ok few hlive hplace
            simp only [Request.run, hrun] at done
            cases done
            refine ⟨hmapped, fun p' => ?_⟩
            rw [hshows.lists, accounts.filter_ne hlive hplace, hlines]
            rfl
  | takeFirst =>
      -- on an empty queue the taking is done as well, and takes nothing
      rcases accounts.topLevel_cases with ⟨hnone, -⟩ | ⟨p, hsome, hne, -⟩
      · simp only [Request.run, takeFirst_none hnone] at done
        cases done
        refine ⟨accounts.toMapped, fun p => ?_⟩
        rw [hlines, line]
        exact (List.filter_eq_self.mpr fun x _ => by simp).symm
      · obtain ⟨first, rest, hlist⟩ := List.exists_cons_of_ne_nil hne
        obtain ⟨task, q₁, t₁, hlive, hplace, hrun, hmapped, hshows⟩ :=
          accounts.takeFirst_ok few hsome hlist
        simp only [Request.run, hrun] at done
        cases done
        refine ⟨hmapped, fun p' => ?_⟩
        rw [hshows.lists, ← accounts.filter_first hlist, accounts.filter_ne hlive hplace, hlines]
        simp [line]

end Deeds

/-- What a ready queue and its table do, and what the history tells of them. -/
structure Ranking (log : List Deed) (q : ReadyQueue) (t : TaskTable) : Prop where
  /-- A level holds its line, which are the tasks whose records name the level, each once; they
      are ready, and the level is that of their priority. -/
  lines : ∀ p, q.handlesAt t p = line p log
  listed : ∀ p h, h ∈ q.handlesAt t p ↔ ∃ task, t.get? h = some task ∧ task.place = .ready p
  once : ∀ p, (q.handlesAt t p).Nodup
  ranked : ∀ {h task p}, t.get? h = some task → task.place = .ready p →
    p = task.priority ∧ task.activity = .ready
  /-- The map marks the levels that hold a task. -/
  marked : ∀ p, q.occupied.getLsbD p = true ↔ q.handlesAt t p ≠ []
  /-- The level that it finds is the highest priority of a ready task, if there is one. -/
  top : ∀ p, q.topLevel = some p
    ↔ (∃ h task, t.get? h = some task ∧ task.queued = true ∧ task.priority = p)
      ∧ ∀ h task, t.get? h = some task → task.queued = true → task.priority ≤ p
  idle : q.topLevel = none ↔ ∀ h task, t.get? h = some task → task.queued = false
  /-- What comes next is the head of that level. -/
  first : q.first? t = .ok (q.topLevel.bind fun p => (q.handlesAt t p).head?)
  takes : ∀ {p}, q.topLevel = some p → ∃ first rest task q' t',
    q.handlesAt t p = first :: rest ∧ t.get? first = some task
      ∧ q.takeFirst t = .ok (some first, q', t')
      ∧ Shows q' t' (Function.update (q.handlesAt t) p rest)
          (Function.update t.get? first (some { task with place := .unlinked }))
  takesNone : q.topLevel = none → q.takeFirst t = .ok (none, q, t)
  /-- The ready tasks are counted, those of each level and all of them. -/
  countAt : ∀ p, q.countAt p = (q.handlesAt t p).length
  count : q.count = (t.tasks.filter Task.queued).length
  /-- An unlinked task can be inserted at either end of the level of its priority. -/
  inserts : ∀ {h task}, t.get? h = some task → task.place = .unlinked → ∀ side,
    ∃ q' t', q.insert side t h = .ok (q', t')
      ∧ Shows q' t'
          (Function.update (q.handlesAt t) task.priority
            (side.join h (q.handlesAt t task.priority)))
          (Function.update t.get? h
            (some { task with activity := .ready, place := .ready task.priority }))
  /-- A ready task can be erased, and all others stay. -/
  erases : ∀ {h task p}, t.get? h = some task → task.place = .ready p →
    ∃ q' t', q.erase t h = .ok (q', t')
      ∧ Shows q' t' (Function.update (q.handlesAt t) p ((q.handlesAt t p).filter (· ≠ h)))
          (Function.update t.get? h (some { task with place := .unlinked }))
  /-- All else is refused. -/
  stale : ∀ {h}, t.get? h = none → (∀ side, q.insert side t h = .error (.refused .unknownHandle))
    ∧ q.erase t h = .error (.refused .unknownHandle)
  linked : ∀ {h task}, t.get? h = some task → task.place ≠ .unlinked →
    ∀ side, q.insert side t h = .error (.refused .invalidState)
  away : ∀ {h task}, t.get? h = some task → (∀ p, task.place ≠ .ready p) →
    q.erase t h = .error (.refused .invalidState)

/-- A queue of which the history accounts does what the history tells. -/
theorem Accounts.ranking {log : List Deed} (accounts : Accounts n log q t) (few : n ≤ 64) :
    Ranking log q t where
  lines := accounts.lines
  listed := accounts.mem_handlesAt
  once := accounts.seated.nodup_handlesOn
  ranked := accounts.ranked
  marked := accounts.marked
  top := accounts.topLevel_iff
  idle := accounts.topLevel_none_iff
  first := accounts.first?_eq
  takes := by
    intro p htop
    rcases accounts.topLevel_cases with ⟨hnone, -⟩ | ⟨p', hsome, hne, -⟩
    · cases hnone.symm.trans htop
    · obtain rfl := Option.some.inj (hsome.symm.trans htop)
      obtain ⟨first, rest, hlist⟩ := List.exists_cons_of_ne_nil hne
      obtain ⟨task, q', t', hlive, -, hrun, -, hshows⟩ := accounts.takeFirst_ok few htop hlist
      exact ⟨first, rest, task, q', t', hlist, hlive, hrun, hshows⟩
  takesNone := takeFirst_none
  countAt := accounts.seated.length
  count := accounts.count_eq
  inserts := by
    intro h task hlive hunlinked side
    obtain ⟨q', t', hrun, -, hshows⟩ := accounts.insert_ok few side hlive hunlinked
    exact ⟨q', t', hrun, hshows⟩
  erases := by
    intro h task p hlive hplace
    obtain ⟨q', t', hrun, -, hshows⟩ := accounts.erase_ok few hlive hplace
    exact ⟨q', t', hrun, hshows⟩
  stale := fun dead => ⟨fun _ => insert_stale dead, erase_stale dead⟩
  linked := fun live linked _ => insert_linked live linked
  away := erase_away

/-- A ready queue is a priority queue of lines, over its whole history.  Start with an empty one
    of at most 64 levels, over any table in which no task is ready and all priorities lie below
    the number of levels, and make any requests: to insert at either end and to erase under any
    handles, and to take the first task.  Then each level holds its line, the map marks the
    levels that hold a task, so that what comes next is the head of the highest priority, and of
    the next request it is known whether it is done, and what it leaves. -/
theorem ranking_chronicle {t : TaskTable} (few : n ≤ 64) (kept : t.Kept)
    (priorities : ∀ {i task}, t.tenant? i = some task → task.priority < n)
    (unready : ∀ {i task}, t.tenant? i = some task → ∀ p, task.place ≠ .ready p)
    (requests : List Request) :
    Ranking (chronicle Request.run (empty n, t) requests).1
      (chronicle Request.run (empty n, t) requests).2.1
      (chronicle Request.run (empty n, t) requests).2.2 := by
  have hlevels : (empty n).levelAt = fun _ => {} := by
    funext p
    simp only [levelAt, empty, Array.getElem?_replicate]
    by_cases hp : p < n <;> simp [hp]
  have hseated := TaskTable.seated_empty ready_injective (fun _ => by rintro ⟨⟩) kept unready
  rw [← hlevels] at hseated
  have hempty : ∀ p, (empty n).handlesAt t p = [] := by
    intro p
    rw [handlesAt, hseated.handlesOn, hlevels, (Chain.holds_empty t.links).toList_eq]
    rfl
  have hstart : Accounts n [] (empty n) t := by
    refine ⟨⟨hseated, ?marked, Array.size_replicate, ?priority, ?ranked⟩, hempty⟩
    case marked =>
      intro p
      rw [hempty]
      exact iff_of_false (by simp [empty]) (fun hne => hne rfl)
    case priority => exact fun hlive => priorities (TaskTable.tenant?_of_get? hlive)
    case ranked =>
      intro h task p hlive hplace
      exact absurd hplace (unready (TaskTable.tenant?_of_get? hlive) p)
  have haccounts : Accounts n (chronicle Request.run (empty n, t) requests).1
      (chronicle Request.run (empty n, t) requests).2.1
      (chronicle Request.run (empty n, t) requests).2.2 :=
    chronicle_induction (P := fun log s => Accounts n log s.1 s.2) Request.run (empty n, t) hstart
      (fun accounts done => accounts.deed few done) requests
  exact haccounts.ranking few

/-- The lowest and the highest of 64 levels.  A task that is put in front of its peer is taken
    before it, a level that has lost its last task is passed by until it is entered again, and a
    stale handle and a task that is queued already are refused. -/
theorem ranking_chronicle_ends :
    ∃ (t : TaskTable) (requests : List Request),
      t.Kept ∧ (∀ {i task}, t.tenant? i = some task → task.priority < 64)
        ∧ (∀ {i task}, t.tenant? i = some task → ∀ p, task.place ≠ .ready p)
        ∧ (chronicle Request.run (empty 64, t) requests).1
          = [.taken none, .taken (some ⟨0, 0⟩), .taken (some ⟨2, 0⟩),
            .inserted .back ⟨2, 0⟩ 63, .erased ⟨2, 0⟩, .taken (some ⟨1, 0⟩),
            .inserted .front ⟨1, 0⟩ 63, .inserted .back ⟨2, 0⟩ 63, .inserted .back ⟨0, 0⟩ 0]
        ∧ Ranking (chronicle Request.run (empty 64, t) requests).1
            (chronicle Request.run (empty 64, t) requests).2.1
            (chronicle Request.run (empty 64, t) requests).2.2 := by
  let entries : List TaskTable.Request := [.enter { name := "low", priority := 0 } {},
    .enter { name := "high", priority := 63 } {}, .enter { name := "peer", priority := 63 } {}]
  obtain ⟨hkept, hunlinked⟩ := TaskTable.kept_history 3 64 entries
  obtain ⟨t, ht⟩ : ∃ t, t = (TaskTable.history 3 64 entries).2 := ⟨_, rfl⟩
  rw [← ht] at hkept hunlinked
  have hunready : ∀ {i task}, t.tenant? i = some task → ∀ p, task.place ≠ .ready p := by
    intro i task hlive p heq
    cases (hunlinked hlive).symm.trans heq
  have hpriorities : ∀ {i task}, t.tenant? i = some task → task.priority < 64 := by
    have hall : ∀ task ∈ t.tasks, task.priority < 64 := by
      rw [ht]
      decide +kernel
    intro i task hlive
    refine hall task ?_
    rw [TaskTable.tasks_eq]
    exact List.mem_filterMap.mpr ⟨i, List.mem_range.mpr (TaskTable.lt_of_tenant? hlive), hlive⟩
  refine ⟨t, [.insert .back ⟨0, 0⟩, .insert .back ⟨2, 0⟩, .insert .front ⟨1, 0⟩,
    .insert .back ⟨1, 0⟩, .takeFirst, .erase ⟨2, 0⟩, .erase ⟨2, 0⟩, .erase ⟨2, 1⟩,
    .insert .back ⟨2, 0⟩, .takeFirst, .takeFirst, .takeFirst], hkept, hpriorities, hunready, ?_,
    ranking_chronicle (by decide) hkept hpriorities hunready _⟩
  rw [ht]
  decide +kernel

end ReadyQueue

end PriorityScheduler
