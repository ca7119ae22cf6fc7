import PriorityScheduler.Proofs.Choosing
import PriorityScheduler.Proofs.Endings

/-! # The order of arrival

    A task ARRIVES on a list of delayed tasks with the call that blocks it.  Every other step
    THINS these lists at most: some tasks leave, and the others stay in their order and wait
    for the ticks that they waited for.

    A list is in order of its ticks, and a task arrives behind those of its own tick.  So of
    two tasks that wake at one tick of one cycle the one ahead was blocked before the other,
    wherever the counter has wrapped in between and whoever has left meanwhile. -/

namespace PriorityScheduler

open Function (update)
open Step (Leaves)

namespace Outline

variable {o o' o'' : Outline} {i : Nat} {h : Handle} {task task' : Task} {c : Call}
  {since since' : Handle → Nat}

/-! ## Lists that get thinner -/

/-- The tick in the record of a task, at which it wakes if it is delayed. -/
def wakeAt (o : Outline) (h : Handle) : Option Tick :=
  (o.get? h).map Task.wakeTick

/-- The delayed tasks were delayed before, in the same order and until the same ticks. -/
structure Thins (o o' : Outline) : Prop where
  rosters : ∀ c, (o'.roster (.delayed c)).Sublist (o.roster (.delayed c))
  wakeAt : ∀ c, ∀ h ∈ o'.roster (.delayed c), o'.wakeAt h = o.wakeAt h

theorem Thins.refl (o : Outline) : Thins o o :=
  ⟨fun _ => .refl _, fun _ _ _ => rfl⟩

theorem Thins.trans (thins : Thins o o') (thins' : Thins o' o'') : Thins o o'' :=
  ⟨fun c => (thins'.rosters c).trans (thins.rosters c), fun c h hh =>
    (thins'.wakeAt c h hh).trans (thins.wakeAt c h ((thins'.rosters c).subset hh))⟩

/-- What is not in the slots and on the rows does not matter to the delayed tasks. -/
theorem thins_of_slots (generation : o'.generation = o.generation) (tenant : o'.tenant = o.tenant)
    (row : o'.row = o.row) : Thins o o' := by
  have hroster : ∀ q, o'.roster q = o.roster q := by
    intro q
    show (o'.row q).map (fun i => (⟨i, o'.generation i⟩ : Handle)) = _
    rw [generation, row]
    rfl
  have hget : ∀ h, o'.get? h = o.get? h := fun h =>
    get?_congr (congrFun generation _) (congrFun tenant _)
  refine ⟨fun c => ?_, fun c h _ => ?_⟩
  · rw [hroster]
  · rw [Outline.wakeAt, Outline.wakeAt, hget]

/-- A change of one slot thins the lists if the task in it is not delayed afterwards. -/
theorem Confined.thins (confined : Confined i o o') (tagged : o'.Tagged)
    (away : ∀ task c, o'.tenant i = some task → task.place ≠ .delayed c) : Thins o o' := by
  have hrow : ∀ c, o'.row (.delayed c) = (o.row (.delayed c)).filter (· ≠ i) := by
    intro c
    -- the task of the slot is not delayed afterwards, so its slot is on neither list
    have habsent : i ∉ o'.row (.delayed c) := by
      intro hi
      obtain ⟨-, task, htask, hplace⟩ := (tagged.mem_row _ i).mp hi
      exact away task c htask hplace
    rw [← confined.row, filter_of_not_mem habsent]
  constructor
  case rosters =>
    intro c
    have hnamed : o'.roster (.delayed c) = ((o.row (.delayed c)).filter (· ≠ i)).map o.named := by
      rw [roster, hrow]
      refine List.map_congr_left fun j hj => ?_
      have hne : j ≠ i := of_decide_eq_true (List.mem_filter.mp hj).2
      simp only [named, confined.generation j hne]
    rw [hnamed]
    exact List.filter_sublist.map o.named
  case wakeAt =>
    intro c h hh
    obtain ⟨-, task, hget, hplace⟩ := tagged.mem_roster.mp hh
    have hne : h.index ≠ i := fun hindex =>
      away task c (hindex ▸ (tagged.get?_eq_some.mp hget).1) hplace
    rw [Outline.wakeAt, Outline.wakeAt,
      get?_congr (confined.generation _ hne) (confined.tenant _ hne)]

/-- A task that moves to another list thins those of the delayed tasks. -/
theorem Confined.thins_away (confined : Confined i o o') (tagged : o'.Tagged)
    (moved : o'.tenant i = some task) (away : ∀ c, task.place ≠ .delayed c) : Thins o o' := by
  refine confined.thins tagged fun task' c hi => ?_
  obtain rfl := Option.some.inj (moved.symm.trans hi)
  exact away c

/-- A new record leaves the lists alone if the task stays where it is and waits for its tick. -/
theorem Tagged.thins_put (tagged : o.Tagged) (live : o.get? h = some task)
    (wakeTick : task'.wakeTick = task.wakeTick) : Thins o (o.put h.index task') := by
  refine ⟨fun c => .refl _, fun c h' _ => ?_⟩
  have hlive := (tagged.get?_eq_some.mp live).1
  simp only [Outline.wakeAt, get?]
  show Option.map _ (if o.generation h'.index = h'.generation then
    update o.tenant h.index (some task') h'.index else none) = _
  by_cases hindex : h'.index = h.index
  · rw [hindex, Function.update_self, hlive, apply_ite (Option.map Task.wakeTick),
      apply_ite (Option.map Task.wakeTick), Option.map_some, Option.map_some, wakeTick]
  · rw [Function.update_of_ne hindex]

/-- Tasks that are made ready are delayed no longer. -/
theorem thins_makeAllReady (o : Outline) (f : Task → Task) (l : List Nat) :
    Thins o (o.makeAllReady f l) := by
  have hrow := o.makeAllReady_row_delayed f l
  constructor
  case rosters =>
    intro c
    rw [roster, hrow]
    exact List.filter_sublist.map o.named
  case wakeAt =>
    intro c h hh
    obtain ⟨j, hj, rfl⟩ := List.mem_map.mp hh
    rw [hrow] at hj
    have hstays : j ∉ l := of_decide_eq_true (List.mem_filter.mp hj).2
    exact congrArg _ (get?_makeAllReady hstays)

/-! ## Steps that thin the lists -/

/-- A tick thins the lists: those whose tick has come leave. -/
theorem Sound.thins_tick (sound : o.Sound) : Thins o o.tick.2 := by
  have hcharged : Thins o o.chargeRunner := by
    rcases o.chargeRunner_cases with heq | ⟨task, hrunning, heq⟩
    · rw [heq]
      exact .refl o
    · rw [heq]
      exact sound.tagged.thins_put (sound.of_running hrunning).2 rfl
  have hadvanced : Thins o.chargeRunner o.chargeRunner.advance := by
    rcases o.chargeRunner.advance_cases with ⟨-, heq⟩ | ⟨-, heq⟩
    · rw [heq]
      exact thins_of_slots rfl rfl rfl
    · rw [heq]
      exact thins_of_slots rfl rfl rfl
  have hwoken : Thins o.chargeRunner.advance o.passed := thins_makeAllReady _ _ _
  obtain ⟨spent, behind, due, heq⟩ := o.tick_passed
  rw [heq]
  exact ((hcharged.trans hadvanced).trans hwoken).trans (thins_of_slots rfl rfl rfl)

theorem Sound.thins_elapse (sound : o.Sound) (n : Nat) (asked : Bool) :
    Thins o (elapseFrom asked n o).2 := by
  induction n generalizing asked o with
  | zero => exact .refl o
  | succ n ih => exact sound.thins_tick.trans (ih sound.tick _)

theorem thins_enroll {spec : TaskSpec} {flags : Flags} (tagged' : o'.Tagged)
    (done : o.enroll spec flags = .ok (h, o')) : Thins o o' := by
  obtain ⟨-, i, -, rfl, ⟨-, rfl⟩ | ⟨-, wanted, rfl, -⟩⟩ := of_enroll_ok done
  · refine Confined.thins_away ?_ tagged' (Function.update_self i _ _) (by rintro c ⟨⟩)
    exact (o.confined_occupy i _).trans (confined_reseat _ .back i _) rfl
  · refine Confined.thins_away ?_ tagged' (Function.update_self i _ _) (o.readied_ne_delayed _)
    exact ((o.confined_occupy i _).trans (confined_reseat _ .back i _) rfl).wantSwitchIf wanted

theorem thins_remove {was : Bool} (tagged' : o'.Tagged)
    (done : o.remove h = .ok (was, o')) : Thins o o' := by
  have hvacated : ∀ {o'}, Confined h.index o o' → o'.Tagged → o'.tenant h.index = none →
      Thins o o' := by
    intro o' confined tagged empty
    refine confined.thins tagged fun task c hi => ?_
    rw [empty] at hi
    cases hi
  have hconfined := o.confined_vacate h.index
  obtain ⟨task, -, -, -, ⟨-, -, rfl⟩ | ⟨-, -, rfl⟩⟩ := of_remove_ok done
  · exact hvacated ⟨hconfined.tenant, hconfined.generation, hconfined.row, hconfined.self⟩ tagged'
      (Function.update_self ..)
  · exact hvacated hconfined tagged' (Function.update_self ..)

/-- A task that is delayed keeps its place when its priority changes. -/
theorem Tagged.thins_reprioritise {priority : Nat} {wanted : Bool} (tagged : o.Tagged)
    (tagged' : o'.Tagged) (done : o.reprioritise h priority = .ok (wanted, o')) : Thins o o' := by
  obtain ⟨-, task, hget, ⟨-, -, rfl⟩ | ⟨-, -, rfl⟩⟩ := of_reprioritise_ok done
  · exact .refl o'
  · have hconfined := (o.confined_regrade h.index task priority).wantSwitchIf wanted
    simp only [Outline.regrade] at hconfined tagged' ⊢
    by_cases hqueued : queued task = true
    · rw [if_pos hqueued] at hconfined tagged' ⊢
      exact hconfined.thins_away tagged' (Function.update_self ..) (by rintro c ⟨⟩)
    · rw [if_neg hqueued]
      have hput : Thins o (o.put h.index { task with priority := priority }) :=
        tagged.thins_put hget rfl
      exact ⟨hput.rosters, hput.wakeAt⟩

theorem Sound.thins_takeCutShort (sound : o.Sound) : Thins o o.takeCutShort.2 := by
  simp only [Outline.takeCutShort]
  cases hrunning : o.runner.bind o.get? with
  | none => exact .refl o
  | some task =>
      dsimp only
      by_cases hcut : task.flags.cutShort = true
      · rw [if_pos hcut]
        exact sound.tagged.thins_put (sound.of_running hrunning).2 rfl
      · rw [if_neg hcut]
        exact .refl o

theorem thins_thawAll (o : Outline) : Thins o o.thawAll.2 := by
  rcases o.thawAll_cases with ⟨-, heq⟩ | ⟨-, heq⟩ | ⟨-, heq⟩
  · rw [heq]
    exact .refl o
  · rw [heq]
    exact thins_of_slots rfl rfl rfl
  · have hcalled := thins_makeAllReady { o with depth := 0 } id (o.row .postponed)
    rw [heq]
    exact ⟨hcalled.rosters, hcalled.wakeAt⟩

/-- The first stage of a call thins the lists, unless it blocks a task. -/
theorem Sound.opens_thins (sound : o.Sound) (opens : Opens c o o') :
    Thins o o' ∨ ∃ h ticks, o.block h ticks = .ok ((), o') := by
  have htagged := (sound.opens opens).tagged
  cases opens with
  | nothing => exact Or.inl (.refl o)
  | enrolled _ done => exact Or.inl (thins_enroll htagged done)
  | enrolledIdle _ done =>
      obtain ⟨-, idle, o₁, hmade, rfl⟩ := of_enrollIdle_ok done
      have htagged₁ : o₁.Tagged := htagged.congr rfl rfl rfl rfl rfl rfl rfl
      have hthins := thins_enroll htagged₁ hmade
      exact Or.inl ⟨hthins.rosters, hthins.wakeAt⟩
  | removed _ done => exact Or.inl (thins_remove htagged done)
  | shelved _ done =>
      obtain ⟨task, -, -, ⟨-, -, rfl⟩ | ⟨-, -, -, rfl⟩⟩ := of_shelve_ok done
      · exact Or.inl (.refl o')
      · exact Or.inl ((o.confined_reseat .back _ _).thins_away htagged (Function.update_self ..)
          (by rintro c ⟨⟩))
  | resumed _ done =>
      obtain ⟨task, -, ⟨-, -, rfl⟩ | ⟨-, -, rfl⟩⟩ := of_resume_ok done
      · exact Or.inl (((o.confined_reseat .back _ _).wantSwitchIf _).thins_away htagged
          (Function.update_self ..) (o.readied_ne_delayed _))
      · exact Or.inl (.refl o')
  | regraded _ done => exact Or.inl (sound.tagged.thins_reprioritise htagged done)
  | saved _ done =>
      obtain ⟨task, hget, rfl⟩ := of_saveContext_ok done
      exact Or.inl (sound.tagged.thins_put hget rfl)
  | blocked done => exact Or.inr ⟨_, _, done⟩
  | woken _ done =>
      obtain ⟨task, -, -, -, rfl⟩ := of_endWait_ok done
      exact Or.inl (((o.confined_reseat .back _ _).wantSwitchIf _).thins_away htagged
          (Function.update_self ..) (o.readied_ne_delayed _))
  | noticed => exact Or.inl sound.thins_takeCutShort
  | ticked => exact Or.inl sound.thins_tick
  | elapsed => exact Or.inl (sound.thins_elapse _ false)
  | frozen => exact Or.inl (thins_of_slots rfl rfl rfl)
  | thawed => exact Or.inl o.thins_thawAll

/-- A choice leaves the delayed tasks alone. -/
theorem Sound.choose_thins (sound : o.Sound) : Leaves (Thins o) (choose o) := by
  have hcleared : Thins o o.cleared := thins_of_slots rfl rfl rfl
  have hchoice := choose_choice sound.tagged sound.runnerFree
  generalize choose o = r at hchoice ⊢
  cases hchoice with
  | frozen => exact thins_of_slots rfl rfl rfl
  | barred => exact thins_of_slots rfl rfl rfl
  | starved => exact hcleared
  | kept => exact hcleared
  | taken _ idle _ _ first =>
      have hdispatched := sound.cleared.dispatch first fun live => sound.linked_of_idle idle live
      exact hcleared.trans ((confined_dispatch _ _ _).thins_away hdispatched.tagged
        (Function.update_self ..) (by rintro c ⟨⟩))
  | @replaced side p i rest task next _ running live _ row first _ =>
      obtain ⟨hback, hlinked⟩ := sound.cleared.putBack side running live
      have hfirst := sound.putBack_tenant side running live row first
      have hdispatched := hback.dispatch hfirst hlinked
      -- two slots change one after the other, and neither task goes to a list of delayed ones
      refine (hcleared.trans ?_).trans ((confined_dispatch _ _ _).thins_away
        hdispatched.tagged (Function.update_self ..) (by rintro c ⟨⟩))
      exact (confined_putBack _ side task).thins_away hback.tagged (Function.update_self ..)
        (by rintro c ⟨⟩)

theorem Sound.closes_thins (sound : o.Sound) (closes : Closes o o') : Thins o o' :=
  sound.of_closes closes (fun _ _ _ => thins_of_slots rfl rfl rfl) Sound.choose_thins Thins.trans

/-! ## Who has arrived first -/

/-- Of two tasks that wake at one tick the one ahead was blocked before the other, by the
    number of calls since each was blocked. -/
def Arrived (since : Handle → Nat) (o : Outline) : Prop :=
  ∀ c, (o.roster (.delayed c)).Pairwise fun h h' =>
    o.wakeAt h = o.wakeAt h' → since h' < since h

/-- The order lasts while the lists get thinner. -/
theorem Arrived.thins (arrived : o.Arrived since) (thins : Thins o o') : o'.Arrived since := by
  intro c
  refine ((arrived c).sublist (thins.rosters c)).imp_of_mem ?_
  intro h h' hh hh' hlt heq
  rw [thins.wakeAt c h hh, thins.wakeAt c h' hh'] at heq
  exact hlt heq

/-- Only the calls since the delayed tasks were blocked count. -/
theorem Arrived.recount (arrived : o.Arrived since)
    (same : ∀ c, ∀ h ∈ o.roster (.delayed c), since' h = since h) : o.Arrived since' := by
  intro c
  refine (arrived c).imp_of_mem ?_
  intro h h' hh hh' hlt heq
  rw [same c h hh, same c h' hh']
  exact hlt heq

/-- With one more call all were blocked one call earlier. -/
theorem Arrived.succ (arrived : o.Arrived since) : o.Arrived fun h => since h + 1 :=
  fun c => (arrived c).imp fun hlt heq => Nat.succ_lt_succ (hlt heq)

/-- The order is read off the slots. -/
theorem arrived_iff : o.Arrived since ↔ ∀ c, (o.row (.delayed c)).Pairwise fun i j =>
    (o.tenant i).map Task.wakeTick = (o.tenant j).map Task.wakeTick →
      since (o.named j) < since (o.named i) := by
  simp only [Arrived, roster, List.pairwise_map, Outline.wakeAt, get?_named]

/-- A slot is ordered by the tick of the task in it. -/
theorem tickOf_eq (tenant : Nat → Option Task) (i : Nat) :
    tickOf tenant i = ((tenant i).map Task.wakeTick).getD 0xFFFFFFFF := by
  rw [tickOf]
  cases tenant i <;> rfl

/-- A task that moves to the list of its tick arrives behind those of the same tick. -/
theorem Sound.arrived_reseat (sound : o.Sound) (arrived : o.Arrived since)
    (live : o.get? h = some task) :
    (o.reseat .back h.index task').Arrived (update (fun x => since x + 1) h 0) := by
  have hself : update (fun x => since x + 1) h 0 (o.named h.index) = 0 := by
    rw [named_of_get? live, Function.update_self]
  have hother : ∀ i, i ≠ h.index →
      update (fun x => since x + 1) h 0 (o.named i) = since (o.named i) + 1 := by
    intro i hi
    refine Function.update_of_ne ?_ _ _
    rintro rfl
    exact hi rfl
  rw [arrived_iff] at arrived ⊢
  intro c
  have hrest : ((o.row (.delayed c)).filter (· ≠ h.index)).Pairwise fun i j =>
      (update o.tenant h.index (some task') i).map Task.wakeTick
        = (update o.tenant h.index (some task') j).map Task.wakeTick →
      update (fun x => since x + 1) h 0 (o.named j)
        < update (fun x => since x + 1) h 0 (o.named i) := by
    refine ((arrived c).filter _).imp_of_mem ?_
    intro i j hi hj hlt heq
    have hi : i ≠ h.index := of_decide_eq_true (List.mem_filter.mp hi).2
    have hj : j ≠ h.index := of_decide_eq_true (List.mem_filter.mp hj).2
    rw [Function.update_of_ne hi, Function.update_of_ne hj] at heq
    rw [hother i hi, hother j hj]
    exact Nat.succ_lt_succ (hlt heq)
  rw [reseat_row, reseat_tenant]
  by_cases hq : Place.delayed c = task'.place
  · rw [if_pos hq]
    refine pairwise_orderedInsert
      (pairwise_update (not_mem_filter_ne _ _) ((sound.inOrder c).filter _)) hrest ?behind ?ahead
    case behind =>
      intro x hx _ _
      have hx : x ≠ h.index := of_decide_eq_true (List.mem_filter.mp hx).2
      show update (fun x => since x + 1) h 0 (o.named h.index)
        < update (fun x => since x + 1) h 0 (o.named x)
      rw [hself, hother x hx]
      exact Nat.succ_pos _
    case ahead =>
      -- those behind it wake later
      intro x _ hlt heq
      rw [tickOf_eq, tickOf_eq, heq] at hlt
      exact absurd hlt (UInt32.lt_irrefl _)
  · rw [if_neg hq]
    exact hrest

/-- A task that is not blocked is on no list of delayed tasks. -/
theorem Sound.not_mem_delayed (sound : o.Sound) (live : o.get? h = some task)
    (active : task.activity ≠ .blocked) (c : Cycle) : h ∉ o.roster (.delayed c) := by
  intro hmem
  obtain ⟨-, t, ht, hplace⟩ := sound.tagged.mem_roster.mp hmem
  obtain rfl := Option.some.inj (live.symm.trans ht)
  exact active ((sound.settled.fits (sound.live live)).blocked_iff.mpr (Or.inl ⟨c, hplace⟩))

/-- A task that is blocked was not, and arrives behind those of its tick. -/
theorem Sound.arrived_block (sound : o.Sound) (arrived : o.Arrived since) {ticks : Tick}
    (done : o.block h ticks = .ok ((), o')) :
    (∃ task, o.get? h = some task ∧ task.activity ≠ .blocked)
      ∧ (∀ c, ∀ x ∈ o'.roster (.delayed c), x ≠ h → x ∈ o.roster (.delayed c))
      ∧ o'.Arrived (update (fun x => since x + 1) h 0) := by
  have halone := sound.block_alone done
  have hsound := sound.block done
  obtain ⟨task, hget, -, hactive, -, hcase⟩ := of_block_ok done
  have hfree : task.activity ≠ .blocked := by
    rcases hactive with hready | hruns
    · rw [hready]
      decide
    · rw [hruns]
      decide
  refine ⟨⟨task, hget, hfree⟩, ?others, ?arrived⟩
  case others =>
    intro c x hx hne
    obtain ⟨hq, t, ht, hplace⟩ := hsound.tagged.mem_roster.mp hx
    rw [halone.tasks x (fun hmem => hne (List.mem_singleton.mp hmem))] at ht
    exact sound.tagged.mem_roster.mpr ⟨hq, t, ht, hplace⟩
  case arrived =>
    rcases hcase with ⟨-, rfl⟩ | ⟨-, rfl⟩
    · -- a task that is to wait for no tick goes on, and no other arrives
      refine arrived.succ.recount fun c x hx => Function.update_of_ne ?_ _ _
      rintro rfl
      exact sound.not_mem_delayed hget hfree c hx
    · exact sound.arrived_reseat arrived hget

/-! ## Calls -/

/-- Whether a handle names a task that is blocked. -/
def isBlocked (o : Outline) (h : Handle) : Bool :=
  (o.get? h).any fun task => decide (task.activity = .blocked)

theorem Sound.isBlocked_of_mem (sound : o.Sound) {c : Cycle} (mem : h ∈ o.roster (.delayed c)) :
    o.isBlocked h = true := by
  obtain ⟨-, task, hget, hplace⟩ := sound.tagged.mem_roster.mp mem
  have hblocked := (sound.settled.fits (sound.live hget)).blocked_iff.mpr (Or.inl ⟨c, hplace⟩)
  rw [isBlocked, hget]
  exact decide_eq_true hblocked

/-- Through a call the order of arrival lasts.  A task that the call has blocked was blocked no
    call ago, and the others one call earlier than before. -/
theorem Sound.arrived_call (sound : o.Sound) (arrived : o.Arrived since) {r : Except Refusal Reply}
    (ran : Step.attempt (run c) o = .ok r o') :
    o'.Arrived fun h => if (!o.isBlocked h && o'.isBlocked h) = true then 0 else since h + 1 := by
  obtain ⟨o₁, hopens, hcloses⟩ := staged_of_attempt ran
  have hsound₁ := sound.opens hopens
  have hsound' : o'.Sound := (Step.keeps_attempt (kept_sound.run trivial)).ok sound ran
  have hthins := hsound₁.closes_thins hcloses
  -- whoever is delayed afterwards was blocked before, unless this call has blocked it
  rcases sound.opens_thins hopens with hopened | ⟨h, ticks, hblock⟩
  · refine (arrived.thins (hopened.trans hthins)).succ.recount fun c x hx => ?_
    have hbefore := sound.isBlocked_of_mem (((hopened.trans hthins).rosters c).subset hx)
    rw [hbefore]
    rfl
  · obtain ⟨⟨task, hget, hactive⟩, hothers, harrived⟩ := sound.arrived_block arrived hblock
    refine (harrived.thins hthins).recount fun c x hx => ?_
    by_cases hself : x = h
    · subst hself
      have hafter := hsound'.isBlocked_of_mem hx
      have hbefore : o.isBlocked x = false := by
        rw [isBlocked, hget]
        exact decide_eq_false hactive
      rw [hbefore, hafter, Function.update_self]
      rfl
    · have hbefore := sound.isBlocked_of_mem (hothers c x ((hthins.rosters c).subset hx) hself)
      rw [hbefore, Function.update_of_ne hself]
      rfl

end Outline

namespace Kernel

variable {log : List Episode} {k : Kernel}

/-- Whether a task was not blocked before a call and is after it. -/
def Episode.blocks (h : Handle) (e : Episode) : Bool :=
  !e.before.isBlocked h && e.after.isBlocked h

/-- The number of calls since a task was blocked last. -/
def sinceBlocked (log : List Episode) (h : Handle) : Nat :=
  log.findIdx (Episode.blocks h)

theorem isBlocked_outline (k : Kernel) (h : Handle) : k.isBlocked h = k.outline.isBlocked h := by
  simp only [isBlocked, Outline.isBlocked, get?_outline]

/-- In every run the delayed tasks of one tick stand in the order in which they were blocked. -/
theorem Recounts.arrived (recounts : Recounts log k) : k.outline.Arrived (sinceBlocked log) := by
  induction recounts with
  | @initial s valid =>
      intro c
      show (((Kernel.initial s).slotsAt _).map _).Pairwise _
      rw [slotsAt_initial]
      exact .nil
  | @call log k c p r m earlier ran ih =>
      obtain ⟨hintact, hsound⟩ := (reachable_iff_recounts.mpr ⟨log, earlier⟩).intact
      obtain ⟨-, -, hstep⟩ := hintact.of_call hsound ran
      refine (hsound.arrived_call ih hstep).recount fun c h _ => ?_
      rw [sinceBlocked, List.findIdx_cons, cond_eq_ite, Episode.blocks, isBlocked_outline,
        isBlocked_outline]
      rfl

end Kernel

end PriorityScheduler
