import PriorityScheduler.Proofs.Queues

/-! # A delay queue over its whole history

    A delay queue keeps two chains over a table of tasks, and what each of them holds is
    told by the history alone.  A task WAITS for a tick, in a cycle, when the latest deed
    that concerns it is its insertion for that tick and cycle; the deeds that end its wait
    are its erasure and a drain that takes it.

    The chain of a cycle holds the tasks that wait in it, by the ticks at which they wake,
    and those of one tick in the order of their insertion.  A drain takes the front part
    that is due.  So each insertion that is done is undone by one deed, and by no other. -/

namespace PriorityScheduler

namespace DelayQueue

/-! ## Requests and deeds -/

/-- What can be asked of a delay queue. -/
inductive Request where
  | insert (h : Handle) (wake now : Tick)
  | erase (h : Handle)
  | takeDue (now : Tick)
  | turnOver
  deriving DecidableEq, Repr

/-- A request that was done. -/
inductive Deed where
  | inserted (h : Handle) (wake : Tick) (cycle : Cycle)
  | erased (h : Handle)
  | taken (due : List Handle)
  | turned
  deriving DecidableEq, Repr

/-- The cycle in which a task wakes, seen from the tick `now`. -/
def cycleOf (q : DelayQueue) (wake now : Tick) : Cycle :=
  if wake < now then q.upcoming else q.current

/-- Do what is asked. -/
def Request.run :
    Request → DelayQueue × TaskTable → Except Failure (Deed × DelayQueue × TaskTable)
  | .insert h wake now, (q, t) => do
      let s ← q.insert t h wake now
      return (.inserted h wake (q.cycleOf wake now), s)
  | .erase h, (q, t) => do
      let s ← q.erase t h
      return (.erased h, s)
  | .takeDue now, (q, t) => do
      let (due, s) ← q.takeDue t now
      return (.taken due, s)
  | .turnOver, (q, t) => do
      let q ← q.turnOver
      return (.turned, q, t)

/-- Whether a deed inserts a task. -/
def Deed.inserts (h : Handle) : Deed → Bool
  | .inserted h' _ _ => h' == h
  | _ => false

/-- Whether a deed ends the wait of a task. -/
def Deed.releases (h : Handle) : Deed → Bool
  | .erased h' => h' == h
  | .taken due => decide (h ∈ due)
  | _ => false

/-- Whether a deed inserts a task or ends its wait. -/
def Deed.concerns (h : Handle) (deed : Deed) : Bool :=
  deed.inserts h || deed.releases h

/-- The latest deed that concerns a task is its insertion, for a tick and a cycle. -/
def Waits (log : List Deed) (h : Handle) (wake : Tick) (cycle : Cycle) : Prop :=
  log.find? (Deed.concerns h) = some (.inserted h wake cycle)

/-- How many deeds there were since a task was inserted last. -/
def sinceInserted (log : List Deed) (h : Handle) : Nat :=
  log.findIdx (Deed.inserts h)

/-- A task is inserted only if it does not wait, and its wait is ended only if it does, and
    then once. -/
def Deed.Fits (log : List Deed) : Deed → Prop
  | .inserted h _ _ => ∀ wake cycle, ¬ Waits log h wake cycle
  | .erased h => ∃ wake cycle, Waits log h wake cycle
  | .taken due => due.Nodup ∧ ∀ h ∈ due, ∃ wake cycle, Waits log h wake cycle
  | .turned => True

/-- Every deed fits those before it. -/
def Orderly : List Deed → Prop
  | [] => True
  | deed :: log => deed.Fits log ∧ Orderly log

/-- The tick at which the task of a handle wakes. -/
def tickAt (t : TaskTable) (h : Handle) : Tick := orderTick t h.index

/-- One task wakes before another one: at an earlier tick, or at the same one, if it was
    inserted first. -/
def Before (log : List Deed) (t : TaskTable) (h h' : Handle) : Prop :=
  tickAt t h < tickAt t h'
    ∨ tickAt t h = tickAt t h' ∧ sinceInserted log h' < sinceInserted log h

section Logs

variable {log : List Deed} {h h' : Handle} {wake wake' : Tick} {c c' : Cycle} {due : List Handle}

theorem waits_inserted : Waits (.inserted h' wake' c' :: log) h wake c
    ↔ (h = h' ∧ wake = wake' ∧ c = c') ∨ h ≠ h' ∧ Waits log h wake c := by
  simp only [Waits]
  by_cases hh : h' = h
  · subst hh
    rw [List.find?_cons_of_pos (by simp [Deed.concerns, Deed.inserts])]
    simp [eq_comm]
  · rw [List.find?_cons_of_neg (by simp [Deed.concerns, Deed.inserts, Deed.releases, hh])]
    simp [Ne.symm hh]

theorem waits_erased : Waits (.erased h' :: log) h wake c ↔ h ≠ h' ∧ Waits log h wake c := by
  simp only [Waits]
  by_cases hh : h' = h
  · subst hh
    rw [List.find?_cons_of_pos (by simp [Deed.concerns, Deed.releases])]
    simp
  · rw [List.find?_cons_of_neg (by simp [Deed.concerns, Deed.inserts, Deed.releases, hh])]
    simp [Ne.symm hh]

theorem waits_taken : Waits (.taken due :: log) h wake c ↔ h ∉ due ∧ Waits log h wake c := by
  simp only [Waits]
  by_cases hh : h ∈ due
  · rw [List.find?_cons_of_pos (by simp [Deed.concerns, Deed.releases, hh])]
    simp [hh]
  · rw [List.find?_cons_of_neg (by simp [Deed.concerns, Deed.inserts, Deed.releases, hh])]
    simp [hh]

theorem waits_turned : Waits (.turned :: log) h wake c ↔ Waits log h wake c := by
  simp only [Waits]
  rw [List.find?_cons_of_neg (by simp [Deed.concerns, Deed.inserts, Deed.releases])]

/-- The first deed after an insertion that concerns the task ends its wait; until then it
    waits. -/
theorem Orderly.undone {later : List Deed}
    (orderly : Orderly (later ++ .inserted h wake c :: log)) :
    match later.reverse.find? (Deed.concerns h) with
    | some deed => deed.releases h = true
    | none => Waits (later ++ .inserted h wake c :: log) h wake c := by
  induction later with
  | nil => exact waits_inserted.mpr (Or.inl ⟨rfl, rfl, rfl⟩)
  | cons deed rest ih =>
      obtain ⟨hfits, hrest⟩ := orderly
      have ih := ih hrest
      rw [List.reverse_cons, List.find?_append]
      cases hfound : rest.reverse.find? (Deed.concerns h) with
      | some found =>
          rw [hfound] at ih
          exact ih
      | none =>
          rw [hfound] at ih
          simp only [Option.none_or]
          by_cases hconcerns : deed.concerns h = true
          · rw [List.find?_cons_of_pos hconcerns]
            -- the task waits until this deed, so it is not inserted again
            cases deed with
            | inserted h' wake' c' =>
                have hsame : h' = h := by
                  simpa [Deed.concerns, Deed.inserts, Deed.releases] using hconcerns
                exact absurd ih (hsame ▸ hfits wake c)
            | erased h' => simpa [Deed.concerns, Deed.inserts] using hconcerns
            | taken due => simpa [Deed.concerns, Deed.inserts] using hconcerns
            | turned => cases hconcerns
          · rw [List.find?_cons_of_neg hconcerns]
            simp only [List.find?_nil]
            rw [Waits, List.cons_append, List.find?_cons_of_neg hconcerns]
            exact ih

/-- A deed that ends the wait of a task undoes its latest insertion. -/
theorem Orderly.undoes {later : List Deed} {deed : Deed} (orderly : Orderly (later ++ deed :: log))
    (releases : deed.releases h = true) : ∃ wake c, Waits log h wake c := by
  induction later with
  | cons _ rest ih => exact ih orderly.2
  | nil =>
      have hfits : deed.Fits log := orderly.1
      cases deed with
      | inserted h' wake c => cases releases
      | turned => cases releases
      | erased h' =>
          have hsame : h' = h := beq_iff_eq.mp releases
          exact hsame ▸ hfits
      | taken due => exact hfits.2 h (of_decide_eq_true releases)

theorem sinceInserted_self (log : List Deed) (h : Handle) (wake : Tick) (c : Cycle) :
    sinceInserted (.inserted h wake c :: log) h = 0 := by
  simp [sinceInserted, List.findIdx_cons, Deed.inserts]

theorem sinceInserted_cons {deed : Deed} (other : deed.inserts h = false) :
    sinceInserted (deed :: log) h = sinceInserted log h + 1 := by
  simp [sinceInserted, List.findIdx_cons, other]

end Logs

/-! ## What each operation does -/

variable {q : DelayQueue} {t : TaskTable} {h : Handle} {task : Task} {wake now : Tick} {c : Cycle}

theorem list_setList (q : DelayQueue) (c : Cycle) (chain : Chain) :
    (q.setList c chain).list = Function.update q.list c chain := by
  funext c'
  cases c <;> cases c' <;> rfl

theorem delayed_injective : Function.Injective Place.delayed :=
  fun _ _ heq => Place.delayed.inj heq

/-- A task that is live wakes at the tick that its record names. -/
theorem tickAt_eq (live : t.get? h = some task) : tickAt t h = task.wakeTick := by
  simp only [tickAt, orderTick, TaskTable.tenant?_of_get? live]

/-- Of a list in the order of its keys, those up to a bound come first. -/
theorem span_eq_filter {key : Handle → Tick} {l : List Handle} (now : Tick)
    (sorted : l.Pairwise fun x y => key x ≤ key y) :
    l.takeWhile (fun x => decide (key x ≤ now)) = l.filter (fun x => decide (key x ≤ now))
      ∧ l.dropWhile (fun x => decide (key x ≤ now)) = l.filter fun x => decide (now < key x) := by
  induction l with
  | nil => exact ⟨rfl, rfl⟩
  | cons x rest ih =>
      obtain ⟨hfirst, hrest⟩ := List.pairwise_cons.mp sorted
      obtain ⟨htake, hdrop⟩ := ih hrest
      by_cases hle : key x ≤ now
      · simp [hle, UInt32.not_lt.mpr hle, htake, hdrop]
      · have hlt : now < key x := UInt32.not_le.mp hle
        have hall : ∀ y ∈ rest, now < key y := fun y hy => UInt32.lt_of_lt_of_le hlt (hfirst y hy)
        have hnone : rest.filter (fun y => decide (key y ≤ now)) = [] :=
          List.filter_eq_nil_iff.mpr fun y hy => by simpa using hall y hy
        have hrest : rest.filter (fun y => decide (now < key y)) = rest :=
          List.filter_eq_self.mpr fun y hy => decide_eq_true (hall y hy)
        simp [hle, hlt, hnone, hrest]

section Ticks

variable {log : List Deed} {deed : Deed} {t' : TaskTable} {l : List Handle}

/-- A deed that inserts none of the tasks leaves their order. -/
theorem pairwise_before_cons (inOrder : l.Pairwise (Before log t))
    (others : ∀ x ∈ l, deed.inserts x = false ∧ tickAt t' x = tickAt t x) :
    l.Pairwise (Before (deed :: log) t') := by
  refine inOrder.imp_of_mem ?_
  intro x y hx hy hbefore
  obtain ⟨hxOther, hxTick⟩ := others x hx
  obtain ⟨hyOther, hyTick⟩ := others y hy
  rw [Before, hxTick, hyTick, sinceInserted_cons hxOther, sinceInserted_cons hyOther]
  exact hbefore.imp_right fun htie => ⟨htie.1, Nat.succ_lt_succ htie.2⟩

/-- What wakes before something else wakes no later. -/
theorem Before.le {h' : Handle} (before : Before log t h h') : tickAt t h ≤ tickAt t h' := by
  rcases before with hlt | ⟨heq, -⟩
  · exact UInt32.le_of_lt hlt
  · exact UInt32.le_of_eq heq

/-- The handles in order by their ticks, with one more that is inserted by its tick. -/
def placed (t : TaskTable) (l : List Handle) (h : Handle) (wake : Tick) : List Handle :=
  l.filter (fun x => decide (tickAt t x ≤ wake))
    ++ h :: l.filter fun x => decide (wake < tickAt t x)

/-- A task that is inserted by its tick is behind those of the same tick, which were inserted
    before it. -/
theorem pairwise_placed (inOrder : l.Pairwise (Before log t)) (fresh : h ∉ l)
    (tick : tickAt t' h = wake) (ticks : ∀ x ∈ l, tickAt t' x = tickAt t x) :
    (placed t l h wake).Pairwise (Before (.inserted h wake c :: log) t') := by
  -- the new deed inserts none of the others, and their ticks are the old ones
  have hothers : ∀ x ∈ l,
      (Deed.inserted h wake c).inserts x = false ∧ tickAt t' x = tickAt t x := by
    intro x hx
    exact ⟨beq_false_of_ne fun heq => fresh (heq ▸ hx), ticks x hx⟩
  have hl := pairwise_before_cons inOrder hothers
  have hself := sinceInserted_self log h wake c
  refine List.pairwise_append.mpr
    ⟨hl.filter _, List.pairwise_cons.mpr ⟨?ahead, hl.filter _⟩, ?behind⟩
  case ahead =>
    intro x hx
    obtain ⟨hx, hlt⟩ := List.mem_filter.mp hx
    rw [Before, tick, ticks x hx]
    exact Or.inl (of_decide_eq_true hlt)
  case behind =>
    intro x hx y hy
    obtain ⟨hx, hle⟩ := List.mem_filter.mp hx
    have hle : tickAt t x ≤ wake := of_decide_eq_true hle
    have hsince : sinceInserted (.inserted h wake c :: log) x = sinceInserted log x + 1 :=
      sinceInserted_cons (hothers x hx).1
    -- one of the same tick was inserted earlier: its count since then is one more
    rcases List.mem_cons.mp hy with rfl | hy
    · rw [Before, tick, ticks x hx, hself, hsince]
      rcases UInt32.lt_or_eq_of_le hle with hlt | heq
      · exact Or.inl hlt
      · exact Or.inr ⟨heq, Nat.succ_pos _⟩
    · obtain ⟨hy, hlt⟩ := List.mem_filter.mp hy
      rw [Before, ticks x hx, ticks y hy]
      exact Or.inl (UInt32.lt_of_le_of_lt hle (of_decide_eq_true hlt))

end Ticks

/-! ### Refusals -/

theorem insert_stale (dead : t.get? h = none) :
    q.insert t h wake now = .error (.refused .unknownHandle) := by
  simp only [insert, TaskTable.findUnlinked_stale dead]
  rfl

theorem insert_linked (live : t.get? h = some task) (linked : task.place ≠ .unlinked) :
    q.insert t h wake now = .error (.refused .invalidState) := by
  simp only [insert, TaskTable.findUnlinked_linked live linked]
  rfl

theorem erase_stale (dead : t.get? h = none) :
    q.erase t h = .error (.refused .unknownHandle) := by
  simp only [erase, TaskTable.find_error dead]
  rfl

theorem erase_away (live : t.get? h = some task) (away : ∀ c, task.place ≠ .delayed c) :
    q.erase t h = .error (.refused .invalidState) := by
  simp only [erase, TaskTable.find_ok live, bind, Except.bind]
  cases hplace : task.place with
  | delayed c => exact absurd hplace (away c)
  | _ => rfl

/-! ### What is done -/

/-- What is seen of a delay queue: its cycle, the tasks of each cycle and the records. -/
structure Shows (q : DelayQueue) (t : TaskTable) (current : Cycle) (lists : Cycle → List Handle)
    (records : Handle → Option Task) : Prop where
  current : q.current = current
  lists : ∀ c, t.handlesOn (q.list c) = lists c
  records : t.get? = records

/-- What a delay queue and its table are by their history: the queue seats the delayed tasks,
    which are blocked, are those that wait, and stand in the order in which they wake; and the
    deeds fit each other. -/
structure Accounts (log : List Deed) (q : DelayQueue) (t : TaskTable) : Prop where
  seated : t.Seated Place.delayed q.list
  blocked : ∀ {h task c}, t.get? h = some task → task.place = .delayed c → task.activity = .blocked
  waits : ∀ h wake c,
    (∃ task, t.get? h = some task ∧ task.place = .delayed c ∧ task.wakeTick = wake)
      ↔ Waits log h wake c
  inOrder : ∀ c, (t.handlesOn (q.list c)).Pairwise (Before log t)
  orderly : Orderly log

section Operations

variable {log : List Deed} (accounts : Accounts log q t)

include accounts

/-- The slots on a chain stand in the order of their ticks. -/
theorem Accounts.sorted (c : Cycle) :
    ((q.list c).toList t.links).Pairwise fun x y => orderTick t x ≤ orderTick t y := by
  have hinOrder := accounts.inOrder c
  rw [accounts.seated.handlesOn, List.pairwise_map] at hinOrder
  exact hinOrder.imp Before.le

/-- The slots on a chain with one more that is put in by its tick are the handles with one more
    that is placed by it. -/
theorem Accounts.map_orderedInsert (live : t.get? h = some task)
    (unlinked : task.place = .unlinked) (task' : Task) (c : Cycle) :
    (((q.list c).toList t.links).orderedInsert
        (fun x y => orderTick (t.put h.index task') x < orderTick (t.put h.index task') y)
        h.index).map t.handleAt
      = placed t (t.handlesOn (q.list c)) h task'.wakeTick := by
  have htenant := TaskTable.tenant?_of_get? live
  have hfresh : h.index ∉ (q.list c).toList t.links :=
    accounts.seated.not_mem_unlinked htenant unlinked c
  -- only the tick of the task that is inserted has changed
  have hself : orderTick (t.put h.index task') h.index = task'.wakeTick := by
    simp only [orderTick, TaskTable.tenant?_put_self t task' (TaskTable.lt_of_tenant? htenant)]
  have hothers : ∀ x ∈ (q.list c).toList t.links,
      orderTick (t.put h.index task') x = orderTick t x := by
    intro x hx
    have hne : h.index ≠ x := fun heq => hfresh (heq ▸ hx)
    simp only [orderTick, TaskTable.tenant?_put_of_ne t task' hne]
  have hsorted : ((q.list c).toList t.links).Pairwise fun x y =>
      orderTick (t.put h.index task') x ≤ orderTick (t.put h.index task') y := by
    refine (accounts.sorted c).imp_of_mem ?_
    intro x y hx hy hle
    rw [hothers x hx, hothers y hy]
    exact hle
  rw [orderedInsert_eq_filter hsorted, hself, List.map_append, List.map_cons,
    TaskTable.handleAt_of_get? live, placed, accounts.seated.handlesOn, List.filter_map,
    List.filter_map]
  refine congrArg₂ (fun a b => a ++ h :: b) ?_ ?_
  · refine congrArg (List.map t.handleAt) (List.filter_congr fun x hx => ?_)
    rw [hothers x hx]
    rfl
  · refine congrArg (List.map t.handleAt) (List.filter_congr fun x hx => ?_)
    rw [hothers x hx]
    rfl

/-- An unlinked task is inserted by its tick, in the cycle in which it wakes. -/
theorem Accounts.insert_ok (live : t.get? h = some task) (unlinked : task.place = .unlinked)
    (wake now : Tick) :
    ∃ q' t', q.insert t h wake now = .ok (q', t') ∧ t'.Seated Place.delayed q'.list
      ∧ Shows q' t' q.current
          (Function.update (fun c => t.handlesOn (q.list c)) (q.cycleOf wake now)
            (placed t (t.handlesOn (q.list (q.cycleOf wake now))) h wake))
          (Function.update t.get? h (some { task with
            activity := .blocked, place := .delayed (q.cycleOf wake now), wakeTick := wake })) := by
  let c := q.cycleOf wake now
  let task' : Task := { task with activity := .blocked, place := .delayed c, wakeTick := wake }
  have htenant := TaskTable.tenant?_of_get? live
  have hadded := (accounts.seated.holds c).addByKey (orderTick (t.put h.index task'))
    (accounts.seated.not_mem_unlinked htenant unlinked c)
    (accounts.seated.kept.sized ▸ TaskTable.lt_of_tenant? htenant)
  obtain ⟨hseated, hlists⟩ := accounts.seated.enter task' live unlinked rfl rfl hadded
    fun i => List.mem_orderedInsert _
  rw [accounts.map_orderedInsert live unlinked task' c] at hlists
  rw [← list_setList] at hseated hlists
  refine ⟨q.setList c _, t.amend h.index task' _, ?_, hseated, current_setList .., ?_, ?_⟩
  · simp only [insert, TaskTable.findUnlinked_ok live unlinked]
    rfl
  · exact congrFun hlists
  · exact TaskTable.get?_amend live task' _

/-- A delayed task is taken off the list of its cycle. -/
theorem Accounts.erase_ok (live : t.get? h = some task) (place : task.place = .delayed c) :
    ∃ q' t', q.erase t h = .ok (q', t') ∧ t'.Seated Place.delayed q'.list
      ∧ Shows q' t' q.current
          (Function.update (fun c => t.handlesOn (q.list c)) c
            ((t.handlesOn (q.list c)).filter (· ≠ h)))
          (Function.update t.get? h (some { task with place := .unlinked })) := by
  obtain ⟨chain, links, hunlink, hseated, hlists⟩ := accounts.seated.leave live place
  rw [← list_setList] at hseated hlists
  refine ⟨q.setList c chain, t.amend h.index { task with place := .unlinked } links, ?_, hseated,
    current_setList .., congrFun hlists, TaskTable.get?_amend live _ _⟩
  simp only [erase, TaskTable.find_ok live, bind, Except.bind, place, hunlink]
  rfl

/-- The tasks of the present cycle whose tick has come are taken off its list. -/
theorem Accounts.takeDue_ok (now : Tick) :
    ∃ q' t', q.takeDue t now = .ok ((t.handlesOn (q.list q.current)).filter
          (fun h => decide (tickAt t h ≤ now)), q', t')
      ∧ t'.Seated Place.delayed q'.list
      ∧ Shows q' t' q.current
          (Function.update (fun c => t.handlesOn (q.list c)) q.current
            ((t.handlesOn (q.list q.current)).filter fun h => decide (now < tickAt t h)))
          (fun h => (t.get? h).map fun task =>
            if h ∈ (t.handlesOn (q.list q.current)).filter fun h => decide (tickAt t h ≤ now)
            then { task with place := .unlinked } else task) := by
  -- whether a slot is due is read off its wake tick alone
  have hagree : ∀ t' : TaskTable,
      (∀ j, (t'.tenant? j).map Task.wakeTick = (t.tenant? j).map Task.wakeTick) →
      ∀ i, decide (orderTick t' i ≤ now) = decide (orderTick t i ≤ now) := by
    intro t' hwake i
    have horder : ∀ t : TaskTable,
        orderTick t i = ((t.tenant? i).map Task.wakeTick).getD 0xFFFFFFFF := by
      intro t
      simp only [orderTick]
      cases t.tenant? i <;> rfl
    rw [horder, horder, hwake]
  obtain ⟨chain, t', hcall, hseated, hlists, hrecords⟩ :=
    accounts.seated.callWhile q.current hagree
  obtain ⟨htake, hdrop⟩ := span_eq_filter now ((accounts.inOrder q.current).imp Before.le)
  rw [← list_setList] at hseated hlists
  rw [show (fun h : Handle => decide (orderTick t h.index ≤ now))
    = fun h => decide (tickAt t h ≤ now) from rfl] at hcall hlists hrecords
  rw [htake] at hcall hrecords
  rw [hdrop] at hlists
  refine ⟨q.setList q.current chain, t', ?_, hseated, current_setList .., congrFun hlists,
    funext hrecords⟩
  simp only [takeDue, hcall]
  rfl

/-- The earliest tick is that of the first task of the present cycle. -/
theorem Accounts.earliest_eq :
    q.earliest t = ((t.handlesOn (q.list q.current)).head?).map (tickAt t) := by
  rw [earliest, accounts.seated.head, Option.map_map]
  rfl

/-! ### Deeds -/

variable {q' : DelayQueue} {t' : TaskTable}

/-- A task that is delayed waits, and one that waits is delayed. -/
theorem Accounts.not_waits (live : t.get? h = some task) (away : ∀ c, task.place ≠ .delayed c)
    (wake : Tick) (c : Cycle) : ¬ Waits log h wake c := by
  intro hwaits
  obtain ⟨task', hlive, hplace, -⟩ := (accounts.waits h wake c).mpr hwaits
  obtain rfl := Option.some.inj (live.symm.trans hlive)
  exact away c hplace

/-- Tasks of which nothing is written stay in order. -/
theorem Accounts.inOrder_cons {deed : Deed} {l : List Handle} (c : Cycle)
    (sub : l.Sublist (t.handlesOn (q.list c)))
    (others : ∀ x ∈ l, deed.inserts x = false)
    (ticks : ∀ x ∈ l, (t'.get? x).map Task.wakeTick = (t.get? x).map Task.wakeTick) :
    l.Pairwise (Before (deed :: log) t') := by
  refine pairwise_before_cons ((accounts.inOrder c).sublist sub) ?_
  intro x hx
  obtain ⟨task, hlive, -⟩ := (accounts.seated.mem_handlesOn c x).mp (sub.subset hx)
  have htick := ticks x hx
  rw [hlive] at htick
  obtain ⟨task', hlive', hwake⟩ := Option.map_eq_some_iff.mp htick
  exact ⟨others x hx, by rw [tickAt_eq hlive', tickAt_eq hlive, hwake]⟩

/-- The deed of an insertion. -/
theorem Accounts.inserted (live : t.get? h = some task) (unlinked : task.place = .unlinked)
    (seated : t'.Seated Place.delayed q'.list)
    (shows : Shows q' t' q.current
      (Function.update (fun c => t.handlesOn (q.list c)) c
        (placed t (t.handlesOn (q.list c)) h wake))
      (Function.update t.get? h (some { task with
        activity := .blocked, place := .delayed c, wakeTick := wake }))) :
    Accounts (.inserted h wake c :: log) q' t' := by
  -- an unlinked task waits in neither cycle, hence is on neither list
  have haway : ∀ c, task.place ≠ .delayed c := fun c heq => by cases unlinked.symm.trans heq
  have hfresh : ∀ c, h ∉ t.handlesOn (q.list c) := by
    intro c hmem
    obtain ⟨task', hlive, hplace⟩ := (accounts.seated.mem_handlesOn c h).mp hmem
    obtain rfl := Option.some.inj (live.symm.trans hlive)
    exact haway c hplace
  have hself : t'.get? h = some { task with
      activity := .blocked, place := .delayed c, wakeTick := wake } := by
    rw [shows.records, Function.update_self]
  have hothers : ∀ h', h' ≠ h → t'.get? h' = t.get? h' := by
    intro h' hh
    rw [shows.records, Function.update_of_ne hh]
  refine ⟨seated, ?blocked, ?waits, ?inOrder, accounts.not_waits live haway, accounts.orderly⟩
  case blocked =>
    intro h' task' c' hlive hplace
    by_cases hh : h' = h
    · rw [hh, hself] at hlive
      obtain rfl := Option.some.inj hlive
      rfl
    · rw [hothers h' hh] at hlive
      exact accounts.blocked hlive hplace
  case waits =>
    intro h' wake' c'
    rw [waits_inserted]
    by_cases hh : h' = h
    · rw [hh, hself]
      simp [eq_comm, and_comm]
    · rw [hothers h' hh, accounts.waits]
      simp [hh]
  case inOrder =>
    intro c'
    have hne : ∀ x ∈ t.handlesOn (q.list c'), x ≠ h := fun x hx heq => hfresh c' (heq ▸ hx)
    -- only the list of the cycle of the insertion changes
    rw [shows.lists]
    by_cases hc : c' = c
    · rw [hc] at hne ⊢
      rw [Function.update_self]
      refine pairwise_placed (accounts.inOrder c) (hfresh c) (tickAt_eq hself) ?_
      intro x hx
      obtain ⟨task', hlive, -⟩ := (accounts.seated.mem_handlesOn c x).mp hx
      rw [tickAt_eq hlive, tickAt_eq ((hothers x (hne x hx)).trans hlive)]
    · rw [Function.update_of_ne hc]
      refine accounts.inOrder_cons c' (List.Sublist.refl _) ?_ ?_
      · exact fun x hx => beq_false_of_ne (Ne.symm (hne x hx))
      · exact fun x hx => by rw [hothers x (hne x hx)]

/-- A deed that ends the wait of some tasks of one cycle. -/
theorem Accounts.released {deed : Deed} (gone : List Handle) {rest : List Handle}
    (fits : deed.Fits log)
    (inserts : ∀ h, deed.inserts h = false)
    (waits : ∀ h wake c, Waits (deed :: log) h wake c ↔ h ∉ gone ∧ Waits log h wake c)
    (seated : t'.Seated Place.delayed q'.list) (left : rest.Sublist (t.handlesOn (q.list c)))
    (shows : Shows q' t' q.current (Function.update (fun c => t.handlesOn (q.list c)) c rest)
      (fun h => (t.get? h).map fun task =>
        if h ∈ gone then { task with place := .unlinked } else task)) :
    Accounts (deed :: log) q' t' := by
  have hrecord : ∀ h, t'.get? h = (t.get? h).map fun task =>
      if h ∈ gone then { task with place := .unlinked } else task := congrFun shows.records
  have hothers : ∀ h, h ∉ gone → t'.get? h = t.get? h := by
    intro h hh
    rw [hrecord]
    simp only [if_neg hh, Option.map_id_fun', id]
  have hgone : ∀ h task, h ∈ gone → t'.get? h = some task → task.place = .unlinked := by
    intro h task' hh hlive
    rw [hrecord] at hlive
    obtain ⟨task, -, rfl⟩ := Option.map_eq_some_iff.mp hlive
    rw [if_pos hh]
  refine ⟨seated, ?blocked, ?waits, ?inOrder, fits, accounts.orderly⟩
  case blocked =>
    intro h' task' c' hlive hplace
    by_cases hh : h' ∈ gone
    · cases (hgone h' task' hh hlive).symm.trans hplace
    · rw [hothers h' hh] at hlive
      exact accounts.blocked hlive hplace
  case waits =>
    intro h' wake' c'
    rw [waits]
    by_cases hh : h' ∈ gone
    · -- one that is gone has become unlinked, so no record tells of its wait
      refine iff_of_false ?_ (fun hwaits => hwaits.1 hh)
      rintro ⟨task', hlive, hplace, -⟩
      cases (hgone h' task' hh hlive).symm.trans hplace
    · rw [hothers h' hh, accounts.waits]
      simp [hh]
  case inOrder =>
    intro c'
    -- a release changes places only, and the order depends on the ticks
    have hticks : ∀ x, (t'.get? x).map Task.wakeTick = (t.get? x).map Task.wakeTick := by
      intro x
      rw [hrecord, Option.map_map]
      refine congrArg (Option.map · (t.get? x)) (funext fun task => ?_)
      by_cases hx : x ∈ gone <;> simp [hx]
    rw [shows.lists]
    by_cases hc : c' = c
    · rw [hc, Function.update_self]
      exact accounts.inOrder_cons c left (fun x _ => inserts x) fun x _ => hticks x
    · rw [Function.update_of_ne hc]
      exact accounts.inOrder_cons c' (List.Sublist.refl _) (fun x _ => inserts x)
        fun x _ => hticks x

/-- The deed of an erasure. -/
theorem Accounts.erased (live : t.get? h = some task) (place : task.place = .delayed c)
    (seated : t'.Seated Place.delayed q'.list)
    (shows : Shows q' t' q.current
      (Function.update (fun c => t.handlesOn (q.list c)) c
        ((t.handlesOn (q.list c)).filter (· ≠ h)))
      (Function.update t.get? h (some { task with place := .unlinked }))) :
    Accounts (.erased h :: log) q' t' := by
  have hfits : (Deed.erased h).Fits log :=
    ⟨_, _, (accounts.waits h _ c).mp ⟨task, live, place, rfl⟩⟩
  refine accounts.released [h] hfits (fun _ => rfl) ?_ seated List.filter_sublist
    ⟨shows.current, shows.lists, ?_⟩
  · intro h' wake' c'
    rw [waits_erased, List.mem_singleton]
  · rw [shows.records]
    funext h'
    by_cases hh : h' = h
    · rw [hh, Function.update_self, live, Option.map_some, if_pos List.mem_cons_self]
    · rw [Function.update_of_ne hh]
      simp only [List.mem_singleton, if_neg hh, Option.map_id_fun', id]

/-- The deed of a drain. -/
theorem Accounts.taken {due rest : List Handle} (sub : due.Sublist (t.handlesOn (q.list c)))
    (seated : t'.Seated Place.delayed q'.list) (left : rest.Sublist (t.handlesOn (q.list c)))
    (shows : Shows q' t' q.current (Function.update (fun c => t.handlesOn (q.list c)) c rest)
      (fun h => (t.get? h).map fun task =>
        if h ∈ due then { task with place := .unlinked } else task)) :
    Accounts (.taken due :: log) q' t' := by
  refine accounts.released due ⟨?once, ?fits⟩ (fun _ => rfl) (fun _ _ _ => waits_taken) seated
    left shows
  case once => exact (accounts.seated.nodup_handlesOn c).sublist sub
  case fits =>
    intro h hh
    obtain ⟨task, hlive, hplace⟩ := (accounts.seated.mem_handlesOn c h).mp (sub.subset hh)
    exact ⟨_, _, (accounts.waits h _ c).mp ⟨task, hlive, hplace, rfl⟩⟩

/-- The deed of a turn of the counter. -/
theorem Accounts.turned (cycle : Cycle) :
    Accounts (.turned :: log) { q with current := cycle } t where
  seated := by
    have hlist : ({ q with current := cycle } : DelayQueue).list = q.list := by
      funext c
      cases c <;> rfl
    rw [hlist]
    exact accounts.seated
  blocked := accounts.blocked
  waits := fun h wake c => (accounts.waits h wake c).trans waits_turned.symm
  inOrder := by
    intro c
    have hlist : ({ q with current := cycle } : DelayQueue).list c = q.list c := by
      cases c <;> rfl
    rw [hlist]
    exact accounts.inOrder_cons c (List.Sublist.refl _) (fun _ _ => rfl) fun _ _ => rfl
  orderly := ⟨trivial, accounts.orderly⟩

/-- The history accounts for the queue after every request that is done. -/
theorem Accounts.deed {r : Request} {deed : Deed} (done : r.run (q, t) = .ok (deed, q', t')) :
    Accounts (deed :: log) q' t' := by
  cases r with
  | insert h wake now =>
      cases hlive : t.get? h with
      | none =>
          simp only [Request.run, insert_stale hlive] at done
          -- a refused request is not done, so the history does not go on with it
          cases done
      | some task =>
          by_cases hplace : task.place = .unlinked
          · obtain ⟨q₁, t₁, hrun, hseated, hshows⟩ := accounts.insert_ok hlive hplace wake now
            simp only [Request.run, hrun] at done
            cases done
            exact accounts.inserted hlive hplace hseated hshows
          · simp only [Request.run, insert_linked hlive hplace] at done
            cases done
  | erase h =>
      cases hlive : t.get? h with
      | none =>
          simp only [Request.run, erase_stale hlive] at done
          cases done
      | some task =>
          by_cases haway : ∀ c, task.place ≠ .delayed c
          · simp only [Request.run, erase_away hlive haway] at done
            cases done
          · obtain ⟨c, hplace⟩ := not_forall.mp haway
            have hplace : task.place = .delayed c := not_not.mp hplace
            obtain ⟨q₁, t₁, hrun, hseated, hshows⟩ := accounts.erase_ok hlive hplace
            simp only [Request.run, hrun] at done
            cases done
            exact accounts.erased hlive hplace hseated hshows
  | takeDue now =>
      obtain ⟨q₁, t₁, hrun, hseated, hshows⟩ := accounts.takeDue_ok now
      simp only [Request.run, hrun] at done
      cases done
      exact accounts.taken List.filter_sublist hseated List.filter_sublist hshows
  | turnOver =>
      by_cases hempty : (q.list q.current).isEmpty = true
      · simp only [Request.run, turnOver, if_pos hempty] at done
        cases done
        exact accounts.turned q.upcoming
      · simp only [Request.run, turnOver, if_neg hempty] at done
        cases done

end Operations

/-! ## What the history tells -/

/-- What a delay queue and its table do, and what the history tells of them. -/
structure Timetable (log : List Deed) (q : DelayQueue) (t : TaskTable) : Prop where
  /-- The list of a cycle holds the tasks whose records name it, each once. -/
  listed : ∀ c h, h ∈ t.handlesOn (q.list c)
    ↔ ∃ task, t.get? h = some task ∧ task.place = .delayed c
  once : ∀ c, (t.handlesOn (q.list c)).Nodup
  /-- They stand in the order of their ticks, and those of one tick in the order in which they
      were inserted. -/
  inOrder : ∀ c, (t.handlesOn (q.list c)).Pairwise fun h h' =>
    tickAt t h < tickAt t h'
      ∨ tickAt t h = tickAt t h' ∧ sinceInserted log h' < sinceInserted log h
  /-- They are those that wait by the history, and they are blocked. -/
  waits : ∀ h wake c,
    (∃ task, t.get? h = some task ∧ task.place = .delayed c ∧ task.wakeTick = wake)
      ↔ Waits log h wake c
  blocked : ∀ {h task c}, t.get? h = some task → task.place = .delayed c → task.activity = .blocked
  /-- Each insertion is undone by the next deed that concerns the task, and by no other. -/
  undone : ∀ {later earlier h wake c}, log = later ++ .inserted h wake c :: earlier →
    match later.reverse.find? (Deed.concerns h) with
    | some deed => deed.releases h = true
    | none => Waits log h wake c
  undoes : ∀ {later earlier deed h}, log = later ++ deed :: earlier → deed.releases h = true →
    ∃ wake c, Waits earlier h wake c
  /-- An unlinked task can be inserted.  It comes behind those that wake no later. -/
  inserts : ∀ {h task}, t.get? h = some task → task.place = .unlinked → ∀ wake now,
    ∃ q' t', q.insert t h wake now = .ok (q', t')
      ∧ Shows q' t' q.current
          (Function.update (fun c => t.handlesOn (q.list c)) (q.cycleOf wake now)
            ((t.handlesOn (q.list (q.cycleOf wake now))).filter
                (fun x => decide (tickAt t x ≤ wake))
              ++ h :: (t.handlesOn (q.list (q.cycleOf wake now))).filter
                  fun x => decide (wake < tickAt t x)))
          (Function.update t.get? h (some { task with
            activity := .blocked, place := .delayed (q.cycleOf wake now), wakeTick := wake }))
  /-- A delayed task can be erased, and all others stay. -/
  erases : ∀ {h task c}, t.get? h = some task → task.place = .delayed c →
    ∃ q' t', q.erase t h = .ok (q', t')
      ∧ Shows q' t' q.current
          (Function.update (fun c => t.handlesOn (q.list c)) c
            ((t.handlesOn (q.list c)).filter (· ≠ h)))
          (Function.update t.get? h (some { task with place := .unlinked }))
  /-- A drain answers the tasks of the present cycle whose tick has come, in their order.  They
      are unlinked and blocked by then, and all others stay. -/
  drains : ∀ now, ∃ due q' t', q.takeDue t now = .ok (due, q', t')
      ∧ due = (t.handlesOn (q.list q.current)).filter (fun h => decide (tickAt t h ≤ now))
      ∧ Shows q' t' q.current
          (Function.update (fun c => t.handlesOn (q.list c)) q.current
            ((t.handlesOn (q.list q.current)).filter fun h => decide (now < tickAt t h)))
          (fun h => (t.get? h).map fun task =>
            if h ∈ due then { task with place := .unlinked } else task)
      ∧ ∀ h ∈ due, ∃ task,
        t'.get? h = some task ∧ task.place = .unlinked ∧ task.activity = .blocked
  /-- The earliest tick is the least in the present cycle, if a task waits in it. -/
  earliest : ∀ wake, q.earliest t = some wake
    ↔ (∃ h task, t.get? h = some task ∧ task.place = .delayed q.current ∧ task.wakeTick = wake)
      ∧ ∀ h task, t.get? h = some task → task.place = .delayed q.current → wake ≤ task.wakeTick
  idle : q.earliest t = none ↔ t.handlesOn (q.list q.current) = []
  /-- The cycle can end when no task waits in it, and only then. -/
  turns : t.handlesOn (q.list q.current) = [] →
    q.turnOver = .ok { q with current := q.current.other }
  occupied : t.handlesOn (q.list q.current) ≠ [] → q.turnOver = .error (.fault .cycleOccupied)
  /-- All else is refused. -/
  stale : ∀ {h}, t.get? h = none →
    (∀ wake now, q.insert t h wake now = .error (.refused .unknownHandle))
      ∧ q.erase t h = .error (.refused .unknownHandle)
  linked : ∀ {h task}, t.get? h = some task → task.place ≠ .unlinked →
    ∀ wake now, q.insert t h wake now = .error (.refused .invalidState)
  away : ∀ {h task}, t.get? h = some task → (∀ c, task.place ≠ .delayed c) →
    q.erase t h = .error (.refused .invalidState)

/-- The first of a list in order has the least tick. -/
theorem Accounts.earliest_iff {log : List Deed} (accounts : Accounts log q t) (wake : Tick) :
    q.earliest t = some wake
      ↔ (∃ h task, t.get? h = some task ∧ task.place = .delayed q.current ∧ task.wakeTick = wake)
        ∧ ∀ h task, t.get? h = some task → task.place = .delayed q.current →
          wake ≤ task.wakeTick := by
  have hmem := accounts.seated.mem_handlesOn q.current
  have hsorted := (accounts.inOrder q.current).imp Before.le
  rw [accounts.earliest_eq]
  cases hlist : t.handlesOn (q.list q.current) with
  | nil =>
      refine iff_of_false (by rintro ⟨⟩) ?_
      rintro ⟨⟨h, task, hlive, hplace, -⟩, -⟩
      have hnil := (hmem h).mpr ⟨task, hlive, hplace⟩
      rw [hlist] at hnil
      cases hnil
  | cons first rest =>
      rw [hlist] at hmem hsorted
      obtain ⟨task, hlive, hplace⟩ := (hmem first).mp List.mem_cons_self
      -- the first of the list is behind none of the others
      have hleast : ∀ h task', t.get? h = some task' → task'.place = .delayed q.current →
          task.wakeTick ≤ task'.wakeTick := by
        intro h task' hlive' hplace'
        rcases List.mem_cons.mp ((hmem h).mpr ⟨task', hlive', hplace'⟩) with rfl | hrest
        · obtain rfl := Option.some.inj (hlive.symm.trans hlive')
          exact UInt32.le_refl _
        · have hle := (List.pairwise_cons.mp hsorted).1 h hrest
          rwa [tickAt_eq hlive, tickAt_eq hlive'] at hle
      rw [List.head?_cons, Option.map_some, tickAt_eq hlive]
      constructor
      · intro heq
        obtain rfl := Option.some.inj heq
        exact ⟨⟨first, task, hlive, hplace, rfl⟩, hleast⟩
      · rintro ⟨⟨h, task', hlive', hplace', rfl⟩, hlow⟩
        exact congrArg some
          (UInt32.le_antisymm (hleast h task' hlive' hplace') (hlow first task hlive hplace))

/-- A queue of which the history accounts does what the history tells. -/
theorem Accounts.timetable {log : List Deed} (accounts : Accounts log q t) : Timetable log q t where
  listed := accounts.seated.mem_handlesOn
  once := accounts.seated.nodup_handlesOn
  inOrder := accounts.inOrder
  waits := accounts.waits
  blocked := accounts.blocked
  undone := by
    rintro later earlier h wake c rfl
    exact accounts.orderly.undone
  undoes := by
    rintro later earlier deed h rfl
    exact accounts.orderly.undoes
  inserts := by
    intro h task hlive hunlinked wake now
    obtain ⟨q', t', hrun, -, hshows⟩ := accounts.insert_ok hlive hunlinked wake now
    exact ⟨q', t', hrun, hshows⟩
  erases := by
    intro h task c hlive hplace
    obtain ⟨q', t', hrun, -, hshows⟩ := accounts.erase_ok hlive hplace
    exact ⟨q', t', hrun, hshows⟩
  drains := by
    intro now
    obtain ⟨q', t', hrun, -, hshows⟩ := accounts.takeDue_ok now
    refine ⟨_, q', t', hrun, rfl, hshows, ?_⟩
    intro h hdue
    obtain ⟨task, hlive, hplace⟩ :=
      (accounts.seated.mem_handlesOn _ h).mp (List.mem_filter.mp hdue).1
    have hblocked : task.activity = .blocked := accounts.blocked hlive hplace
    refine ⟨{ task with place := .unlinked }, ?_, rfl, hblocked⟩
    rw [hshows.records]
    simp only [hlive, Option.map_some, if_pos hdue]
  earliest := accounts.earliest_iff
  idle := by
    rw [accounts.earliest_eq, Option.map_eq_none_iff, List.head?_eq_none_iff]
  turns := by
    intro hnil
    have hempty : (q.list q.current).isEmpty = true := by
      simp only [Chain.isEmpty, accounts.seated.length, hnil]
      rfl
    simp only [turnOver, if_pos hempty]
    rfl
  occupied := by
    intro hne
    have hempty : ¬ (q.list q.current).isEmpty = true := by
      simp only [Chain.isEmpty, accounts.seated.length, beq_iff_eq, List.length_eq_zero_iff]
      exact hne
    simp only [turnOver, if_neg hempty]
    rfl
  stale := fun dead => ⟨fun _ _ => insert_stale dead, erase_stale dead⟩
  linked := fun live linked _ _ => insert_linked live linked
  away := erase_away

/-- A delay queue is two lists in the order of their ticks, over its whole history.  Start with
    an empty queue over any table in which no task is delayed, and make any requests: to insert
    and to erase under any handles, for any ticks, to take what is due at any tick, and to end
    the cycle.  Then each list holds the delayed tasks of its cycle, by the ticks at which they
    wake and those of one tick in the order of insertion; each insertion is undone by exactly
    one deed; and of the next request it is known whether it is done, and what it leaves. -/
theorem timetable_chronicle {t : TaskTable} (kept : t.Kept)
    (undelayed : ∀ {i task}, t.tenant? i = some task → ∀ c, task.place ≠ .delayed c)
    (requests : List Request) :
    Timetable (chronicle Request.run ({}, t) requests).1
      (chronicle Request.run ({}, t) requests).2.1
      (chronicle Request.run ({}, t) requests).2.2 := by
  have hlist : ({} : DelayQueue).list = fun _ => {} := by
    funext c
    cases c <;> rfl
  have hseated := TaskTable.seated_empty delayed_injective (fun _ => by rintro ⟨⟩) kept undelayed
  have hstart : Accounts [] {} t := by
    refine ⟨by rw [hlist]; exact hseated, ?blocked, ?waits, ?inOrder, trivial⟩
    case blocked =>
      intro h task c hlive hplace
      exact absurd hplace (undelayed (TaskTable.tenant?_of_get? hlive) c)
    case waits =>
      intro h wake c
      refine iff_of_false ?_ (by rintro ⟨⟩)
      rintro ⟨task, hlive, hplace, -⟩
      exact undelayed (TaskTable.tenant?_of_get? hlive) c hplace
    case inOrder =>
      intro c
      rw [hlist, hseated.handlesOn c, (Chain.holds_empty t.links).toList_eq]
      exact List.Pairwise.nil
  have haccounts : Accounts (chronicle Request.run ({}, t) requests).1
      (chronicle Request.run ({}, t) requests).2.1
      (chronicle Request.run ({}, t) requests).2.2 :=
    chronicle_induction (P := fun log s => Accounts log s.1 s.2) Request.run ({}, t) hstart
      (fun accounts done => accounts.deed done) requests
  exact haccounts.timetable

/-- Two tasks that wake at one tick, one that wakes after the counter has wrapped, and one that is
    erased and inserted anew: it comes behind its peer, and the cycle ends once both are taken. -/
theorem timetable_chronicle_peers :
    ∃ (t : TaskTable) (requests : List Request),
      t.Kept ∧ (∀ {i task}, t.tenant? i = some task → ∀ c, task.place ≠ .delayed c)
        ∧ (chronicle Request.run ({}, t) requests).1
          = [.turned, .taken [⟨1, 0⟩, ⟨0, 0⟩], .taken [], .inserted ⟨0, 0⟩ 20 .even,
            .erased ⟨0, 0⟩, .inserted ⟨2, 0⟩ 5 .odd, .inserted ⟨1, 0⟩ 20 .even,
            .inserted ⟨0, 0⟩ 20 .even]
        ∧ Timetable (chronicle Request.run ({}, t) requests).1
            (chronicle Request.run ({}, t) requests).2.1
            (chronicle Request.run ({}, t) requests).2.2 := by
  let entries : List TaskTable.Request := [.enter { name := "early", priority := 1 } {},
    .enter { name := "late", priority := 2 } {}, .enter { name := "next", priority := 3 } {}]
  obtain ⟨hkept, hunlinked⟩ := TaskTable.kept_history 3 8 entries
  obtain ⟨t, ht⟩ : ∃ t, t = (TaskTable.history 3 8 entries).2 := ⟨_, rfl⟩
  rw [← ht] at hkept hunlinked
  have hundelayed : ∀ {i task}, t.tenant? i = some task → ∀ c, task.place ≠ .delayed c := by
    intro i task hlive c heq
    cases (hunlinked hlive).symm.trans heq
  refine ⟨t, [.insert ⟨0, 0⟩ 20 10, .insert ⟨1, 0⟩ 20 10, .insert ⟨2, 0⟩ 5 10,
    .insert ⟨1, 0⟩ 15 10, .erase ⟨0, 0⟩, .insert ⟨0, 0⟩ 20 11, .takeDue 19, .turnOver,
    .takeDue 20, .erase ⟨0, 0⟩, .erase ⟨2, 1⟩, .turnOver], hkept, hundelayed, ?_,
    timetable_chronicle hkept hundelayed _⟩
  rw [ht]
  decide +kernel

end DelayQueue

end PriorityScheduler
