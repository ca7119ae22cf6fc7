import PriorityScheduler.Proofs.Tenancy

/-! # Queues over a table

    A queue is a family of chains over the links of a task table, one chain for each of the
    places that the queue stands for.  The table may hold other tasks, on lists of which the
    queue knows nothing.

    A queue SEATS its tasks when each chain holds the tasks whose records name its place, and
    no others.  A step of a queue replaces one chain and the records of tasks that enter it
    or leave it; the other chains keep their tasks since no slot is on two of them, and so
    seating is kept by one lemma for all steps (`Seated.rethread`).

    The CHRONICLE of a state is what requests to it come to: the deeds, which are the
    requests that were done, and the state after them. -/

namespace PriorityScheduler

/-! ## Chronicles -/

section Chronicles

variable {ρ δ σ : Type}

/-- The deeds, the latest first, and the state, after one more request.  One that is not
    done leaves both. -/
def follow (run : ρ → σ → Except Failure (δ × σ)) (s : List δ × σ) (r : ρ) : List δ × σ :=
  match run r s.2 with
  | .ok (deed, x) => (deed :: s.1, x)
  | .error _ => s

/-- The deeds, the latest first, and the state that requests lead to. -/
def chronicle (run : ρ → σ → Except Failure (δ × σ)) (start : σ) (requests : List ρ) :
    List δ × σ :=
  requests.foldl (follow run) ([], start)

/-- What holds at the start and is kept by every deed holds after all requests. -/
theorem chronicle_induction {P : List δ → σ → Prop} (run : ρ → σ → Except Failure (δ × σ))
    (start : σ) (begins : P [] start)
    (step : ∀ {log r x deed y}, P log x → run r x = .ok (deed, y) → P (deed :: log) y)
    (requests : List ρ) :
    P (chronicle run start requests).1 (chronicle run start requests).2 := by
  have hfollow : ∀ s : List δ × σ, P s.1 s.2 →
      P (requests.foldl (follow run) s).1 (requests.foldl (follow run) s).2 := by
    induction requests with
    | nil => exact fun _ hs => hs
    | cons r rest ih =>
        intro s hs
        refine ih _ ?_
        simp only [follow]
        cases hrun : run r s.2 with
        | error e => exact hs
        | ok done => exact step hs hrun
  exact hfollow ([], start) begins

end Chronicles

namespace TaskTable

variable {t t' : TaskTable} {h : Handle} {task task' : Task} {i : Nat}

/-! ## Handles and slots -/

/-- Every task knows the handle that it goes by, and every slot has a link. -/
structure Kept (t : TaskTable) : Prop where
  handle : ∀ {i task}, t.tenant? i = some task → task.handle = ⟨i, t.generationAt i⟩
  sized : t.links.size = t.slots.size

/-- The handle that the task in a slot goes by. -/
def handleAt (t : TaskTable) (i : Nat) : Handle := ⟨i, t.generationAt i⟩

theorem handleAt_injective (t : TaskTable) : Function.Injective t.handleAt :=
  fun _ _ heq => congrArg Handle.index heq

theorem get?_handleAt (t : TaskTable) (i : Nat) : t.get? (t.handleAt i) = t.tenant? i := by
  rw [get?_eq]
  exact if_pos rfl

/-- A handle that names a task is the one that the task goes by. -/
theorem handleAt_of_get? (live : t.get? h = some task) : t.handleAt h.index = h := by
  rw [get?_eq] at live
  by_cases hgeneration : t.generationAt h.index = h.generation
  · simp only [handleAt, hgeneration]
  · rw [if_neg hgeneration] at live
    cases live

/-- Replace the record in a slot along with the links. -/
def amend (t : TaskTable) (i : Nat) (task : Task) (links : LinkTable) : TaskTable :=
  { t.put i task with links := links }

/-- A record that is replaced changes what is named by one handle. -/
theorem get?_amend (live : t.get? h = some task) (task' : Task) (links : LinkTable) :
    (t.amend h.index task' links).get? = Function.update t.get? h (some task') := by
  funext h'
  show (t.put h.index task').get? h' = _
  by_cases hh : h' = h
  · rw [hh, Function.update_self]
    exact get?_put_self t task' live
  · rw [Function.update_of_ne hh]
    by_cases hindex : h.index = h'.index
    · -- the same slot under another generation: neither names a task
      have hgeneration : t.generationAt h'.index ≠ h'.generation := by
        intro heq
        refine hh ?_
        rw [← handleAt_of_get? live, hindex, handleAt, heq]
      rw [get?_eq, get?_eq, generationAt_put, if_neg hgeneration, if_neg hgeneration]
    · exact get?_put_of_ne t task' hindex

theorem findUnlinked_stale (dead : t.get? h = none) :
    t.findUnlinked h = .error (.refused .unknownHandle) := by
  simp only [findUnlinked, find_error dead]
  rfl

theorem findUnlinked_linked (live : t.get? h = some task) (linked : task.place ≠ .unlinked) :
    t.findUnlinked h = .error (.refused .invalidState) := by
  simp only [findUnlinked, find_ok live]
  show (if task.place = .unlinked then _ else _) = _
  rw [if_neg linked]
  rfl

/-- When slots are taken off their lists, so are the tasks that their handles name. -/
theorem get?_lifted {l : List Nat} (same : SameSlots t t')
    (tenant : t'.tenant? = lifted t.tenant? l) (h : Handle) : t'.get? h = (t.get? h).map fun task =>
      if h ∈ l.map t.handleAt then { task with place := .unlinked } else task := by
  rw [get?_eq, get?_eq, same.generation, tenant]
  by_cases hgeneration : t.generationAt h.index = h.generation
  · have hat : h = t.handleAt h.index := by
      rw [handleAt, hgeneration]
    have hmem : h ∈ l.map t.handleAt ↔ h.index ∈ l := by
      rw [hat]
      exact List.mem_map_of_injective t.handleAt_injective
    rw [if_pos hgeneration, if_pos hgeneration, lifted]
    simp only [hmem]
    by_cases hi : h.index ∈ l
    · simp only [if_pos hi]
    · simp only [if_neg hi, Option.map_id_fun', id]
  · rw [if_neg hgeneration, if_neg hgeneration]
    rfl

/-- A table of tasks that entered and were retired is kept, and no task is on a list. -/
theorem kept_history (capacity levels : Nat) (requests : List Request) :
    (history capacity levels requests).2.Kept
      ∧ ∀ {i task}, (history capacity levels requests).2.tenant? i = some task →
        task.place = .unlinked := by
  have htenancy := tenancy_history capacity levels requests
  exact ⟨⟨htenancy.tagged.handle, htenancy.sized⟩, unlinked_of_bare htenancy.tagged⟩

/-! ## Seats -/

/-- The chains hold the tasks whose records name their places, and no others. -/
structure Seated {ι : Type} (place : ι → Place) (chain : ι → Chain) (t : TaskTable) : Prop where
  injective : Function.Injective place
  linked : ∀ e, place e ≠ .unlinked
  kept : t.Kept
  holds : ∀ e, (chain e).Holds t.links ((chain e).toList t.links)
  mem : ∀ e i, i ∈ (chain e).toList t.links
    ↔ ∃ task, t.tenant? i = some task ∧ task.place = place e

section Seats

variable {ι : Type} {place : ι → Place} {chain : ι → Chain} {e : ι} {c : Chain}

/-- Empty chains seat the tasks of a table in which no record names their places. -/
theorem seated_empty (injective : Function.Injective place) (linked : ∀ e, place e ≠ .unlinked)
    (kept : t.Kept) (none : ∀ {i task}, t.tenant? i = some task → ∀ e, task.place ≠ place e) :
    t.Seated place fun _ => {} where
  injective := injective
  linked := linked
  kept := kept
  holds := by
    intro e
    rw [(Chain.holds_empty t.links).toList_eq]
    exact Chain.holds_empty t.links
  mem := by
    intro e i
    rw [(Chain.holds_empty t.links).toList_eq]
    refine iff_of_false List.not_mem_nil ?_
    rintro ⟨task, hlive, hplace⟩
    exact none hlive e hplace

variable (seated : t.Seated place chain)
include seated

/-- The handles on a chain are those of its slots. -/
theorem Seated.handlesOn (e : ι) :
    t.handlesOn (chain e) = ((chain e).toList t.links).map t.handleAt := by
  refine List.filterMap_eq_map_iff_forall_eq_some.mpr ?_
  intro i hi
  obtain ⟨task, hlive, -⟩ := (seated.mem e i).mp hi
  rw [hlive, Option.map_some, seated.kept.handle hlive, handleAt]

theorem Seated.mem_handlesOn (e : ι) (h : Handle) :
    h ∈ t.handlesOn (chain e) ↔ ∃ task, t.get? h = some task ∧ task.place = place e := by
  rw [seated.handlesOn, List.mem_map]
  constructor
  · rintro ⟨i, hi, rfl⟩
    rw [get?_handleAt]
    exact (seated.mem e i).mp hi
  · rintro ⟨task, hlive, hplace⟩
    exact ⟨h.index, (seated.mem e h.index).mpr ⟨task, tenant?_of_get? hlive, hplace⟩,
      handleAt_of_get? hlive⟩

theorem Seated.nodup_handlesOn (e : ι) : (t.handlesOn (chain e)).Nodup := by
  rw [seated.handlesOn]
  exact (seated.holds e).nodup.map t.handleAt_injective

theorem Seated.length (e : ι) : (chain e).length = (t.handlesOn (chain e)).length := by
  rw [seated.handlesOn, List.length_map]
  exact (seated.holds e).length

theorem Seated.head (e : ι) :
    (chain e).head = ((t.handlesOn (chain e)).head?).map Handle.index := by
  rw [seated.handlesOn, (seated.holds e).head, List.head?_map, Option.map_map]
  exact (congrFun Option.map_id _).symm

/-- No slot is on two chains. -/
theorem Seated.not_mem_of_mem {e' : ι} (ne : e' ≠ e) (hi : i ∈ (chain e').toList t.links) :
    i ∉ (chain e).toList t.links := by
  intro hi'
  obtain ⟨task, hlive, hplace⟩ := (seated.mem e' i).mp hi
  obtain ⟨task', hlive', hplace'⟩ := (seated.mem e i).mp hi'
  obtain rfl := Option.some.inj (hlive.symm.trans hlive')
  exact ne (seated.injective (hplace.symm.trans hplace'))

/-- A slot whose task is on no list is on no chain. -/
theorem Seated.not_mem_unlinked (live : t.tenant? i = some task) (unlinked : task.place = .unlinked)
    (e : ι) : i ∉ (chain e).toList t.links := by
  intro hi
  obtain ⟨task', hlive, hplace⟩ := (seated.mem e i).mp hi
  obtain rfl := Option.some.inj (live.symm.trans hlive)
  exact seated.linked e (hplace.symm.trans unlinked)

/-- One chain is replaced.  The others keep their tasks, if no slot of theirs is rewired and no
    record comes to name their places or ceases to. -/
theorem Seated.rethread [DecidableEq ι] {l nodes : List Nat} (same : SameSlots t t')
    (handles : ∀ {i task'}, t'.tenant? i = some task' →
      ∃ task, t.tenant? i = some task ∧ task'.handle = task.handle)
    (holds : c.Holds t'.links l) (rewired : LinkTable.Rewired t.links t'.links nodes)
    (off : ∀ e', e' ≠ e → ∀ i ∈ (chain e').toList t.links, i ∉ nodes)
    (here : ∀ i, i ∈ l ↔ ∃ task, t'.tenant? i = some task ∧ task.place = place e)
    (elsewhere : ∀ e', e' ≠ e → ∀ i, (∃ task, t'.tenant? i = some task ∧ task.place = place e')
      ↔ ∃ task, t.tenant? i = some task ∧ task.place = place e') :
    t'.Seated place (Function.update chain e c)
      ∧ (fun e' => t'.handlesOn (Function.update chain e c e'))
        = Function.update (fun e' => t.handlesOn (chain e')) e (l.map t.handleAt) := by
  -- a chain off which no slot was rewired still holds the same slots
  have hholds : ∀ e', e' ≠ e → (chain e').Holds t'.links ((chain e').toList t.links) :=
    fun e' he' => (seated.holds e').rewired rewired (off e' he')
  have hat : t'.handleAt = t.handleAt := by
    funext i
    rw [handleAt, handleAt, same.generation]
  have hseated : t'.Seated place (Function.update chain e c) := by
    refine ⟨seated.injective, seated.linked, ⟨?_, ?_⟩, ?_, ?_⟩
    · intro i task' hlive'
      obtain ⟨task, hlive, hhandle⟩ := handles hlive'
      rw [hhandle, seated.kept.handle hlive, same.generation]
    · rw [rewired.size, seated.kept.sized, same.size]
    · intro e'
      by_cases he' : e' = e
      · rw [he', Function.update_self, holds.toList_eq]
        exact holds
      · rw [Function.update_of_ne he', (hholds e' he').toList_eq]
        exact hholds e' he'
    · intro e' i
      by_cases he' : e' = e
      · rw [he', Function.update_self, holds.toList_eq]
        exact here i
      · rw [Function.update_of_ne he', (hholds e' he').toList_eq, elsewhere e' he' i]
        exact seated.mem e' i
  -- the handles are read off the new table, where the generations are the old ones
  refine ⟨hseated, ?_⟩
  funext e'
  rw [hseated.handlesOn, hat]
  by_cases he' : e' = e
  · rw [he', Function.update_self, Function.update_self, holds.toList_eq]
  · rw [Function.update_of_ne he', Function.update_of_ne he', (hholds e' he').toList_eq,
      seated.handlesOn]

/-- One record is replaced along with one chain, which the task enters or leaves. -/
theorem Seated.replace [DecidableEq ι] (task' : Task) {l : List Nat} {links : LinkTable}
    (live : t.get? h = some task) (handle : task'.handle = task.handle)
    (was : task.place = place e ∨ task.place = .unlinked)
    (becomes : task'.place = place e ∨ task'.place = .unlinked) (holds : c.Holds links l)
    (rewired : LinkTable.Rewired t.links links (h.index :: (chain e).toList t.links))
    (mem : ∀ i, i ∈ l ↔ i = h.index ∧ task'.place = place e
      ∨ i ≠ h.index ∧ i ∈ (chain e).toList t.links) :
    (t.amend h.index task' links).Seated place (Function.update chain e c)
      ∧ (fun e' => (t.amend h.index task' links).handlesOn (Function.update chain e c e'))
        = Function.update (fun e' => t.handlesOn (chain e')) e (l.map t.handleAt) := by
  have htenant := tenant?_of_get? live
  have htenant' : (t.amend h.index task' links).tenant?
      = Function.update t.tenant? h.index (some task') :=
    tenant?_put task' (lt_of_tenant? htenant)
  -- neither the old record nor the new one names the place of another chain
  have helsewhere : ∀ e', e' ≠ e → task.place ≠ place e' ∧ task'.place ≠ place e' := by
    intro e' he'
    constructor
    · rcases was with hplace | hplace <;> rw [hplace]
      · exact fun heq => he' (seated.injective heq.symm)
      · exact fun heq => seated.linked e' heq.symm
    · rcases becomes with hplace | hplace <;> rw [hplace]
      · exact fun heq => he' (seated.injective heq.symm)
      · exact fun heq => seated.linked e' heq.symm
  refine seated.rethread (sameSlots_put t h.index task' links) ?handles holds rewired ?off ?here
    ?elsewhere
  case handles =>
    intro i task'' hlive
    rw [htenant', Function.update_apply] at hlive
    by_cases hi : i = h.index
    · rw [if_pos hi] at hlive
      obtain rfl := Option.some.inj hlive
      exact ⟨task, hi ▸ htenant, handle⟩
    · rw [if_neg hi] at hlive
      exact ⟨task'', hlive, rfl⟩
  case off =>
    intro e' he' i hi hmem
    rcases List.mem_cons.mp hmem with rfl | hmem
    · obtain ⟨task₁, hlive₁, hplace₁⟩ := (seated.mem e' h.index).mp hi
      obtain rfl := Option.some.inj (htenant.symm.trans hlive₁)
      exact (helsewhere e' he').1 hplace₁
    · exact seated.not_mem_of_mem he' hi hmem
  case here =>
    intro i
    rw [mem, seated.mem, htenant', Function.update_apply]
    by_cases hi : i = h.index
    · simp [hi]
    · simp [hi]
  case elsewhere =>
    intro e' he' i
    rw [htenant', Function.update_apply]
    by_cases hi : i = h.index
    · rw [if_pos hi, hi, htenant]
      simp [helsewhere e' he']
    · rw [if_neg hi]

/-- A task that is on no list enters a chain. -/
theorem Seated.enter [DecidableEq ι] (task' : Task) {l : List Nat} {links : LinkTable}
    (live : t.get? h = some task) (unlinked : task.place = .unlinked)
    (handle : task'.handle = task.handle) (enters : task'.place = place e)
    (added : c.Holds links l
      ∧ LinkTable.Rewired t.links links (h.index :: (chain e).toList t.links))
    (mem : ∀ i, i ∈ l ↔ i = h.index ∨ i ∈ (chain e).toList t.links) :
    (t.amend h.index task' links).Seated place (Function.update chain e c)
      ∧ (fun e' => (t.amend h.index task' links).handlesOn (Function.update chain e c e'))
        = Function.update (fun e' => t.handlesOn (chain e')) e (l.map t.handleAt) := by
  refine seated.replace task' live handle (Or.inr unlinked) (Or.inl enters) added.1 added.2 ?_
  intro i
  rw [mem]
  by_cases hi : i = h.index
  · simp [hi, enters]
  · simp [hi]

/-- A task on a chain can be taken off it. -/
theorem Seated.leave [DecidableEq ι] (live : t.get? h = some task) (there : task.place = place e) :
    ∃ c links, (t.put h.index { task with place := .unlinked }).unlinkFrom (chain e) h.index
        = .ok (c, t.amend h.index { task with place := .unlinked } links)
      ∧ (t.amend h.index { task with place := .unlinked } links).Seated place
          (Function.update chain e c)
      ∧ (fun e' => (t.amend h.index { task with place := .unlinked } links).handlesOn
          (Function.update chain e c e'))
        = Function.update (fun e' => t.handlesOn (chain e')) e
            ((t.handlesOn (chain e)).filter (· ≠ h)) := by
  have hmem : h.index ∈ (chain e).toList t.links :=
    (seated.mem e h.index).mpr ⟨task, tenant?_of_get? live, there⟩
  obtain ⟨c, links, hunlink, hholds, hrewired⟩ :=
    unlinkFrom_ok (t := t.put h.index { task with place := .unlinked }) (seated.holds e) hmem
  -- to leave out a handle is to leave out its slot, since live handles differ in their slots
  have hfilter : (t.handlesOn (chain e)).filter (· ≠ h)
      = (((chain e).toList t.links).filter (· ≠ h.index)).map t.handleAt := by
    rw [seated.handlesOn, List.filter_map]
    refine congrArg (List.map t.handleAt) (List.filter_congr ?_)
    intro i _
    have hiff : t.handleAt i = h ↔ i = h.index := by
      rw [← handleAt_of_get? live]
      exact t.handleAt_injective.eq_iff
    simp [hiff]
  refine ⟨c, links, hunlink, ?_⟩
  rw [hfilter]
  refine seated.replace { task with place := .unlinked } live rfl (Or.inl there) (Or.inr rfl)
    hholds (hrewired.mono fun j hj => List.mem_cons_of_mem _ hj) ?_
  intro i
  have hne : Place.unlinked ≠ place e := (seated.linked e).symm
  simp [hne, and_comm]

/-- Tasks are called off the front of a chain for as long as they are due, which may depend on
    the wake ticks only.  They are left unlinked, and the rest of the chain stays. -/
theorem Seated.callWhile [DecidableEq ι] (e : ι) {due : TaskTable → Nat → Bool} {d : Nat → Bool}
    (agree : ∀ t' : TaskTable,
      (∀ j, (t'.tenant? j).map Task.wakeTick = (t.tenant? j).map Task.wakeTick) →
      ∀ i, due t' i = d i) :
    ∃ c t', t.callWhile (chain e) due
        = .ok ((t.handlesOn (chain e)).takeWhile fun h => d h.index, c, t')
      ∧ t'.Seated place (Function.update chain e c)
      ∧ (fun e' => t'.handlesOn (Function.update chain e c e'))
        = Function.update (fun e' => t.handlesOn (chain e')) e
            ((t.handlesOn (chain e)).dropWhile fun h => d h.index)
      ∧ ∀ h, t'.get? h = (t.get? h).map fun task =>
          if h ∈ (t.handlesOn (chain e)).takeWhile fun h => d h.index
          then { task with place := .unlinked } else task := by
  obtain ⟨c, t', hcall, hholds, hrewired, htenant, hsame⟩ :=
    callUpTo_ok due d ((chain e).toList t.links) t (chain e) (seated.holds e)
      (fun i hi => ((seated.mem e i).mp hi).imp fun _ hlive => hlive.1)
      (fun t' hwake i _ => agree t' hwake i)
  rw [← (seated.holds e).length] at hcall
  have htaken : (t.handlesOn (chain e)).takeWhile (fun h => d h.index)
      = (((chain e).toList t.links).takeWhile d).map t.handleAt := by
    rw [seated.handlesOn, List.takeWhile_map]
    rfl
  have hrest : (t.handlesOn (chain e)).dropWhile (fun h => d h.index)
      = (((chain e).toList t.links).dropWhile d).map t.handleAt := by
    rw [seated.handlesOn, List.dropWhile_map]
    rfl
  -- the answer is read off the records, each of which tells the handle of its slot
  have hanswer : (((chain e).toList t.links).takeWhile d).filterMap
      (fun i => (t.tenant? i).map Task.handle)
        = (((chain e).toList t.links).takeWhile d).map t.handleAt := by
    refine List.filterMap_eq_map_iff_forall_eq_some.mpr ?_
    intro i hi
    obtain ⟨task, hlive, -⟩ := (seated.mem e i).mp (List.takeWhile_subset _ hi)
    rw [hlive, Option.map_some, seated.kept.handle hlive, handleAt]
  have hseated := seated.rethread (e := e) (c := c) (l := ((chain e).toList t.links).dropWhile d)
    hsame ?handles hholds hrewired (fun e' he' i hi => seated.not_mem_of_mem he' hi) ?here
    ?elsewhere
  case handles =>
    intro i task' hlive
    rw [htenant, lifted] at hlive
    by_cases hi : i ∈ ((chain e).toList t.links).takeWhile d
    · rw [if_pos hi] at hlive
      obtain ⟨task, hwas, rfl⟩ := Option.map_eq_some_iff.mp hlive
      exact ⟨task, hwas, rfl⟩
    · rw [if_neg hi] at hlive
      exact ⟨task', hlive, rfl⟩
  case here =>
    intro i
    -- without repetitions, what stays on the chain is what was not called
    rw [Outline.dropWhile_eq_filter d (seated.holds e).nodup, List.mem_filter, seated.mem, htenant,
      lifted]
    by_cases hi : i ∈ ((chain e).toList t.links).takeWhile d
    · have hne : Place.unlinked ≠ place e := (seated.linked e).symm
      simp [hi, hne]
    · simp [hi]
  case elsewhere =>
    intro e' he' i
    rw [htenant, lifted]
    by_cases hi : i ∈ ((chain e).toList t.links).takeWhile d
    · have hne : Place.unlinked ≠ place e' := (seated.linked e').symm
      have hnot : i ∉ (chain e').toList t.links := fun hi' =>
        seated.not_mem_of_mem he' hi' (List.takeWhile_subset _ hi)
      rw [seated.mem] at hnot
      simp [hi, hne, hnot]
    · rw [if_neg hi]
  refine ⟨c, t', ?_, hseated.1, ?_, ?_⟩
  · rw [htaken, ← hanswer]
    exact hcall
  · rw [hrest]
    exact hseated.2
  · rw [htaken]
    exact get?_lifted hsame htenant

end Seats

end TaskTable

end PriorityScheduler
