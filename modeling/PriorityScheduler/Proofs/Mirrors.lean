import PriorityScheduler.Proofs.Postponing
import PriorityScheduler.Proofs.Reachability

/-! # Suspending the scheduler only delays wake-ups

    Two schedulers get the same calls, none of them about the running task.  In one
    of them scheduling is suspended meanwhile.  The open one then MIRRORS the other:
    it looks as the other would with its postponed tasks called in, apart from the
    marks of a switch and the slice.

    Each call keeps the one a mirror of the other and is refused by both or by
    none, so at the end of the suspension the two have come to the same. -/

namespace PriorityScheduler

open Function (update)

/-- A call is none of the task that was dispatched last: it is about another task,
    makes one, or lets a tick pass. -/
def Call.Bystands (current : Option Handle) : Call → Prop
  | .wake h => current ≠ some h
  | .cutShort h => current ≠ some h
  | .resume h => current ≠ some h
  | .block h _ => current ≠ some h
  | .suspend h => current ≠ some h
  | .delete h => current ≠ some h
  | .create _ => True
  | .tick => True
  | _ => False

/-- What a call answers, apart from whether a switch should follow. -/
def Reply.muted : Reply → Reply
  | .answer _ => .answer false
  | r => r

/-- How a call ends, apart from whether a switch should follow. -/
def muted (r : Except Refusal Reply) : Except Refusal Reply :=
  r.map Reply.muted

namespace Outline

variable {α : Type} {o a b : Outline} {cur : Option Handle} {i : Nat} {h : Handle} {task : Task}

/-! ## Mirrors -/

/-- An outline without the marks of a switch and the slice. -/
def plain (o : Outline) : Outline :=
  { o with sliceSpent := 0, sendBehind := false, switchDue := false }

/-- The first outline looks like the second with its postponed tasks called in; the
    second is suspended once, and the given task was dispatched last. -/
structure Mirrors (cur : Option Handle) (a b : Outline) : Prop where
  closed : b.depth = 1
  current : b.current = cur
  plain : a.plain = b.calledIn.plain

/-- The marks and the slice are what is left out. -/
theorem plain_remark (o : Outline) (spent : UInt32) (behind due : Bool) :
    { o with sliceSpent := spent, sendBehind := behind, switchDue := due }.plain = o.plain := rfl

theorem plain_calledIn_remark (o : Outline) (spent : UInt32) (behind due : Bool) :
    { o with sliceSpent := spent, sendBehind := behind, switchDue := due }.calledIn.plain
      = o.calledIn.plain := rfl

theorem Mirrors.depth_ne (mirrors : Mirrors cur a b) : b.depth ≠ 0 := by
  rw [mirrors.closed]
  decide

/-- What can be read without the marks and the slice is the same, once the postponed
    tasks are called in. -/
theorem Mirrors.read {β : Type} (mirrors : Mirrors cur a b) (f : Outline → β)
    (blind : ∀ o : Outline, f o.plain = f o) : f a = f b.calledIn := by
  rw [← blind a, mirrors.plain, blind]

theorem Mirrors.settings (mirrors : Mirrors cur a b) : a.settings = b.settings :=
  mirrors.read Outline.settings fun _ => rfl

theorem Mirrors.generation (mirrors : Mirrors cur a b) : a.generation = b.generation :=
  mirrors.read Outline.generation fun _ => rfl

theorem Mirrors.current_eq (mirrors : Mirrors cur a b) : a.current = cur :=
  (mirrors.read Outline.current fun _ => rfl).trans mirrors.current

/-- The next task moves into the same slot. -/
theorem Mirrors.vacancy (mirrors : Mirrors cur a b) : a.vacancy = b.vacancy :=
  mirrors.read Outline.vacancy fun _ => rfl

/-- A handle names the same task, postponed or called in. -/
theorem Mirrors.get? (mirrors : Mirrors cur a b) (sound : b.Sound) (h : Handle) :
    a.get? h = (b.get? h).map called := by
  rw [← sound.calledIn_get? h]
  exact mirrors.read (fun o => o.get? h) fun _ => rfl

/-- The same task runs. -/
theorem Mirrors.runner (mirrors : Mirrors cur a b) (sound : b.Sound) : a.runner = b.runner := by
  rw [← sound.calledIn_runner]
  exact mirrors.read Outline.runner fun _ => rfl

/-- A task that does not run was not dispatched last. -/
theorem not_running (sound : b.Sound) (live : b.get? h = some task) (other : b.current ≠ some h) :
    task.activity ≠ .running := by
  intro hrunning
  have hfits := sound.settled.fits (sound.live live)
  have hcurrent := hfits.dispatched (hfits.running_iff.mp hrunning)
  rw [sound.handle_eq live] at hcurrent
  exact other hcurrent

/-! ## Changes of both -/

theorem Mirrors.wantSwitchIf (mirrors : Mirrors cur a b) (wanted wanted' : Bool) :
    Mirrors cur (a.wantSwitchIf wanted) (b.wantSwitchIf wanted') :=
  ⟨mirrors.closed, mirrors.current, mirrors.plain⟩

/-- A task is made ready in the one and postponed in the other. -/
theorem Mirrors.makeReady (mirrors : Mirrors cur a b) (i : Nat) (task : Task) :
    Mirrors cur (a.makeReady i task) (b.makeReady i task) := by
  refine ⟨mirrors.closed, mirrors.current, ?_⟩
  rw [calledIn_makeReady mirrors.depth_ne]
  show a.plain.makeReady i task = b.calledIn.plain.makeReady i task
  rw [mirrors.plain]

/-- A task leaves scheduling, or begins to wait, in both. -/
theorem Mirrors.reseat (mirrors : Mirrors cur a b) (tagged : b.Tagged) (i : Nat)
    (unready : ∀ p, task.place ≠ .ready p) (present : task.place ≠ .postponed) :
    Mirrors cur (a.reseat .back i task) (b.reseat .back i task) := by
  refine ⟨mirrors.closed, mirrors.current, ?_⟩
  rw [calledIn_reseat tagged .back i unready present]
  show a.plain.reseat .back i task = b.calledIn.plain.reseat .back i task
  rw [mirrors.plain]

/-- A task that was not dispatched last leaves both for good. -/
theorem Mirrors.vacate (mirrors : Mirrors cur a b) (i : Nat) :
    Mirrors cur (a.vacate i) (b.vacate i) := by
  refine ⟨mirrors.closed, mirrors.current, ?_⟩
  rw [calledIn_vacate]
  show a.plain.vacate i = b.calledIn.plain.vacate i
  rw [mirrors.plain]

/-- A task moves into both. -/
theorem Mirrors.occupy (mirrors : Mirrors cur a b) (tagged : b.Tagged)
    (vacancy : b.vacancy = some i) (task : Task) :
    Mirrors cur (a.occupy i task) (b.occupy i task) := by
  have habsent : i ∉ b.row .postponed := by
    intro hi
    obtain ⟨-, t, ht, -⟩ := (tagged.mem_row _ i).mp hi
    rw [tagged.tenant_vacancy vacancy] at ht
    cases ht
  refine ⟨mirrors.closed, mirrors.current, ?_⟩
  rw [calledIn_occupy habsent]
  show a.plain.occupy i task = b.calledIn.plain.occupy i task
  rw [mirrors.plain]

/-- A task that begins to wait has the same record in both. -/
theorem Mirrors.held (mirrors : Mirrors cur a b) (task : Task) (ticks : Tick) :
    a.held (called task) ticks = b.held task ticks := by
  have hnow : a.now = b.now := mirrors.read Outline.now fun _ => rfl
  have hcycle : a.cycle = b.cycle := mirrors.read Outline.cycle fun _ => rfl
  have hcycleOf : a.cycleOf = b.cycleOf := by
    funext wake
    simp only [cycleOf, hnow, hcycle]
  simp only [Outline.held, hnow, hcycleOf]
  by_cases hplace : task.place = .postponed
  · rw [show called task = onLevel task from if_pos hplace]
    rfl
  · rw [show called task = task from if_neg hplace]

/-- A tick does not read the marks and the slice. -/
theorem passed_plain (o : Outline) : o.plain.passed = o.passed.plain := by
  have hcharge : o.plain.chargeRunner = o.chargeRunner.plain := by
    have hread : o.plain.runner.bind o.plain.get? = o.runner.bind o.get? := rfl
    simp only [Outline.chargeRunner, hread]
    cases o.runner.bind o.get? <;> rfl
  have hadvance : o.chargeRunner.plain.advance = o.chargeRunner.advance.plain := by
    rcases o.chargeRunner.advance_cases with ⟨hwrap, heq⟩ | ⟨hwrap, heq⟩
    · rw [heq]
      exact if_pos hwrap
    · rw [heq]
      exact if_neg hwrap
  simp only [passed, hcharge, hadvance]
  rfl

/-- A tick passes before or after the postponed tasks are called in. -/
theorem Sound.calledIn_passed (sound : o.Sound) (closed : o.depth ≠ 0) :
    o.passed.calledIn = o.calledIn.passed := by
  have hstruck := sound.chargeRunner.advance
  have hdepth : o.chargeRunner.advance.depth = o.depth := by
    rcases o.chargeRunner.advance_cases with ⟨-, heq⟩ | ⟨-, heq⟩
    · rw [heq]
      exact o.chargeRunner_clock.2.2
    · rw [heq]
      exact o.chargeRunner_clock.2.2
  -- the tick moves the counter, and the suspension lasts
  have hclosed : o.chargeRunner.advance.depth ≠ 0 := by
    rw [hdepth]
    exact closed
  simp only [Outline.passed]
  rw [calledIn_wakeDue hstruck.tagged hclosed, calledIn_advance, sound.calledIn_chargeRunner]

/-- A tick dispatches no task. -/
theorem tick_current (o : Outline) : o.tick.2.current = o.current := by
  obtain ⟨spent, behind, due, heq⟩ := o.tick_passed
  rw [heq]
  exact o.passed_rest.2.2.1

/-- A tick passes in both. -/
theorem Mirrors.tick (mirrors : Mirrors cur a b) (sound : b.Sound) :
    Mirrors cur a.tick.2 b.tick.2 := by
  refine ⟨b.tick_clock.2.2.trans mirrors.closed, b.tick_current.trans mirrors.current, ?_⟩
  obtain ⟨spent, behind, due, heq⟩ := a.tick_passed
  obtain ⟨spent', behind', due', heq'⟩ := b.tick_passed
  have hplain : a.tick.2.plain = a.passed.plain := by
    rw [heq]
    exact plain_remark a.passed spent behind due
  have hplain' : b.tick.2.calledIn.plain = b.passed.calledIn.plain := by
    rw [heq']
    exact plain_calledIn_remark b.passed spent' behind' due'
  rw [hplain, hplain', sound.calledIn_passed mirrors.depth_ne, ← passed_plain, ← passed_plain,
    mirrors.plain]

/-! ## Steps of both -/

/-- Two outcomes are refused for one cause, or done, with one outline the mirror of
    the other. -/
inductive Alike (cur : Option Handle) (answers : α → α → Prop) :
    Except Refusal (α × Outline) → Except Refusal (α × Outline) → Prop where
  | refused (cause : Refusal) : Alike cur answers (.error cause) (.error cause)
  | done {x y : α} {a b : Outline} (same : answers x y) (mirrors : Mirrors cur a b) :
      Alike cur answers (.ok (x, a)) (.ok (y, b))

variable {answers : α → α → Prop}

theorem alike_ite {c : Prop} [Decidable c] {x x' y y' : Except Refusal (α × Outline)}
    (h : c → Alike cur answers x y) (h' : ¬ c → Alike cur answers x' y') :
    Alike cur answers (if c then x else x') (if c then y else y') := by
  by_cases hc : c
  · rw [if_pos hc, if_pos hc]
    exact h hc
  · rw [if_neg hc, if_neg hc]
    exact h' hc

/-- A handle is found in both or in none. -/
theorem Mirrors.find (mirrors : Mirrors cur a b) (sound : b.Sound)
    {f g : Task → Except Refusal (α × Outline)}
    (next : ∀ task, b.get? h = some task → Alike cur answers (f (called task)) (g task)) :
    Alike cur answers (a.find h >>= f) (b.find h >>= g) := by
  have hget := mirrors.get? sound h
  simp only [Outline.find]
  cases hb : b.get? h with
  | none =>
      rw [hget, hb]
      exact .refused .unknownHandle
  | some task =>
      rw [hget, hb]
      exact next task hb

/-- A task that was not dispatched last may be taken off its list in both. -/
theorem Mirrors.replaceable (mirrors : Mirrors cur a b) (sound : b.Sound) (other : cur ≠ some h)
    {x y : Except Refusal (α × Outline)} (next : Alike cur answers x y) :
    Alike cur answers (a.replaceable h >>= fun _ => x) (b.replaceable h >>= fun _ => y) := by
  have hrunner : b.runner ≠ some h := by
    intro hrunner
    exact other (mirrors.current.symm.trans (runner_eq_some hrunner).1)
  have hfree : ∀ o : Outline, o.runner = b.runner → o.replaceable h = .ok () := by
    intro o heq
    refine if_neg ?_
    rintro ⟨-, hrun⟩
    exact hrunner (heq.symm.trans hrun)
  rw [hfree a (mirrors.runner sound), hfree b rfl]
  exact next

theorem Mirrors.enroll (mirrors : Mirrors cur a b) (tagged : b.Tagged) (spec : TaskSpec) :
    Alike cur Eq (a.enroll spec {}) (b.enroll spec {}) := by
  simp only [Outline.enroll, mirrors.settings, mirrors.vacancy, mirrors.generation]
  refine alike_ite (fun _ => .refused _) (fun hlevel => alike_ite (fun _ => .refused _) (fun _ => ?_))
  cases hvacancy : b.vacancy with
  | none => exact .refused .tableFull
  | some i =>
      let task := Task.ofSpec spec {} ⟨i, b.generation i⟩
      have hentered : Mirrors cur (a.occupy i task) (b.occupy i task) :=
        mirrors.occupy tagged hvacancy task
      have htagged : (b.occupy i task).Tagged :=
        tagged.occupy hvacancy rfl (Nat.lt_of_not_le hlevel) rfl
      refine alike_ite (fun _ => .done rfl ?_) (fun _ => .done rfl ?_)
      · refine hentered.reseat htagged i ?_ ?_
        · rintro p ⟨⟩
        · rintro ⟨⟩
      · exact (hentered.makeReady i task).wantSwitchIf _ _

theorem Mirrors.remove (mirrors : Mirrors cur a b) (sound : b.Sound) (other : cur ≠ some h) :
    Alike cur (fun x y => x = false ∧ y = false) (a.remove h) (b.remove h) := by
  have ha : a.current ≠ some h := by
    rw [mirrors.current_eq]
    exact other
  have hb : b.current ≠ some h := by
    rw [mirrors.current]
    exact other
  refine mirrors.find sound fun task hget => ?_
  rw [called_flags]
  refine alike_ite (fun _ => .refused _) (fun _ => mirrors.replaceable sound other ?_)
  rw [if_neg ha, if_neg hb]
  exact .done ⟨rfl, rfl⟩ (mirrors.vacate h.index)

theorem Mirrors.shelve (mirrors : Mirrors cur a b) (sound : b.Sound) (other : cur ≠ some h) :
    Alike cur (fun x y => x = false ∧ y = false) (a.shelve h) (b.shelve h) := by
  refine mirrors.find sound fun task hget => ?_
  have hfits := sound.settled.fits (sound.live hget)
  have hrunning : (task.activity == .running) = false :=
    beq_eq_false_iff_ne.mpr (not_running sound hget (mirrors.current ▸ other))
  have hrecord : ∀ t : Task, t = called task → { t with activity := .suspended, place := .suspended }
      = { task with activity := .suspended, place := .suspended } := by
    rintro t rfl
    by_cases hplace : task.place = .postponed
    · rw [show called task = onLevel task from if_pos hplace]
      rfl
    · rw [show called task = task from if_neg hplace]
  rw [hrecord _ rfl, called_flags, called_activity hfits, hrunning]
  refine alike_ite (fun _ => .refused _) (fun _ => ?_)
  refine alike_ite (fun _ => .done ⟨rfl, rfl⟩ mirrors) (fun _ => ?_)
  refine mirrors.replaceable sound other (.done ⟨rfl, rfl⟩ ?_)
  refine mirrors.reseat sound.tagged h.index ?_ ?_
  · rintro p ⟨⟩
  · rintro ⟨⟩

theorem Mirrors.resume (mirrors : Mirrors cur a b) (sound : b.Sound) :
    Alike cur (fun _ _ => True) (a.resume h) (b.resume h) := by
  refine mirrors.find sound fun task hget => ?_
  have hfits := sound.settled.fits (sound.live hget)
  rw [called_activity hfits]
  refine alike_ite (fun hsuspended => .done trivial ?_) (fun _ => .done trivial mirrors)
  rw [called_of_activity hfits (by rw [hsuspended]; decide)]
  exact (mirrors.makeReady h.index task).wantSwitchIf _ _

theorem Mirrors.block (mirrors : Mirrors cur a b) (sound : b.Sound) (other : cur ≠ some h)
    (ticks : Tick) : Alike cur (fun _ _ => True) (a.block h ticks) (b.block h ticks) := by
  refine mirrors.find sound fun task hget => ?_
  have hfits := sound.settled.fits (sound.live hget)
  rw [called_flags, called_activity hfits, mirrors.held]
  refine alike_ite (fun _ => .refused _) (fun _ => mirrors.replaceable sound other ?_)
  refine alike_ite (fun _ => .done trivial mirrors) (fun _ => .done trivial ?_)
  obtain ⟨-, hready, hpostponed⟩ := b.held_away task ticks
  exact (mirrors.reseat sound.tagged h.index hready hpostponed).wantSwitchIf _ _

theorem Mirrors.endWait (mirrors : Mirrors cur a b) (sound : b.Sound) (early : Bool) :
    Alike cur (fun _ _ => True) (a.endWait h early) (b.endWait h early) := by
  refine mirrors.find sound fun task hget => ?_
  have hfits := sound.settled.fits (sound.live hget)
  rw [called_activity hfits]
  refine alike_ite (fun hblocked => .done trivial ?_) (fun _ => .refused _)
  rw [called_of_activity hfits (by rw [hblocked]; decide)]
  exact (mirrors.makeReady h.index (unheld task early)).wantSwitchIf _ _

/-! ## Calls of both -/

/-- A step ends alike in both, and leaves one the mirror of the other. -/
def Agrees (cur : Option Handle) (s : Step Reply) (a b : Outline) : Prop :=
  ∃ r r' a' b', Step.attempt s a = .ok r a' ∧ Step.attempt s b = .ok r' b' ∧ muted r = muted r'
    ∧ Mirrors cur a' b'

/-- A step that can be refused ends alike, if what follows it only tells its
    answer. -/
theorem Mirrors.agrees (mirrors : Mirrors cur a b) {f : Outline → Except Refusal (α × Outline)}
    {rest : α → Step Reply} (alike : Alike cur answers (f a) (f b))
    (tells : ∀ x y, answers x y → ∃ v v', (∀ o, rest x o = .ok v o) ∧ (∀ o, rest y o = .ok v' o)
      ∧ v.muted = v'.muted) : Agrees cur (Step.guarded f >>= rest) a b := by
  generalize hx : f a = x at alike
  generalize hy : f b = y at alike
  cases alike with
  | refused cause =>
      refine ⟨.error cause, .error cause, a, b, ?_, ?_, rfl, mirrors⟩
      · simp only [Step.attempt, bind, EStateM.bind, Step.guarded, hx]
      · simp only [Step.attempt, bind, EStateM.bind, Step.guarded, hy]
  | @done x y a' b' same mirrors =>
      obtain ⟨v, v', hv, hv', hmuted⟩ := tells x y same
      refine ⟨.ok v, .ok v', a', b', ?_, ?_, congrArg Except.ok hmuted, mirrors⟩
      · simp only [Step.attempt, bind, EStateM.bind, Step.guarded, hx, hv]
      · simp only [Step.attempt, bind, EStateM.bind, Step.guarded, hy, hv']

/-- A step that can be refused ends alike, if its replies differ in what a switch is
    due for only. -/
theorem Mirrors.agrees_told (mirrors : Mirrors cur a b)
    {f : Outline → Except Refusal (α × Outline)} {reply : α → Reply}
    (alike : Alike cur answers (f a) (f b))
    (blind : ∀ x y, answers x y → (reply x).muted = (reply y).muted) :
    Agrees cur (Step.guarded f >>= fun x => pure (reply x)) a b :=
  mirrors.agrees alike fun x y same => ⟨reply x, reply y, fun _ => rfl, fun _ => rfl, blind x y same⟩

/-- A task that does not run leaves, and nothing takes its place. -/
theorem Mirrors.agrees_left (mirrors : Mirrors cur a b)
    {f : Outline → Except Refusal (Bool × Outline)}
    (alike : Alike cur (fun x y => x = false ∧ y = false) (f a) (f b)) :
    Agrees cur ((Step.guarded f >>= fun was => if was then replaceRunner else pure ())
      >>= fun _ => pure .done) a b := by
  rw [bind_assoc]
  refine mirrors.agrees alike ?_
  rintro x y ⟨rfl, rfl⟩
  exact ⟨.done, .done, fun _ => rfl, fun _ => rfl, rfl⟩

/-- A call that spares the running task ends alike in both. -/
theorem Mirrors.run {c : Call} (mirrors : Mirrors cur a b) (sound : b.Sound)
    (bystands : c.Bystands cur) : Agrees cur (run c) a b := by
  cases c with
  | create spec =>
      refine mirrors.agrees_told (mirrors.enroll sound.tagged spec) ?_
      rintro x y rfl
      rfl
  | delete h => exact mirrors.agrees_left (mirrors.remove sound bystands)
  | suspend h => exact mirrors.agrees_left (mirrors.shelve sound bystands)
  | resume h => exact mirrors.agrees_told (mirrors.resume sound) fun _ _ _ => rfl
  | block h ticks => exact mirrors.agrees_told (mirrors.block sound bystands ticks) fun _ _ _ => rfl
  | wake h => exact mirrors.agrees_told (mirrors.endWait sound false) fun _ _ _ => rfl
  | cutShort h => exact mirrors.agrees_told (mirrors.endWait sound true) fun _ _ _ => rfl
  | tick => exact ⟨_, _, _, _, rfl, rfl, rfl, mirrors.tick sound⟩
  | _ => exact bystands.elim

/-- A history ends alike in both. -/
theorem Mirrors.perform {calls : List Call} (mirrors : Mirrors cur a b) (sound : b.Sound)
    (bystand : ∀ c ∈ calls, c.Bystands cur) :
    ∃ rs rs' a' b', perform calls a = .ok rs a' ∧ perform calls b = .ok rs' b'
      ∧ rs.map muted = rs'.map muted ∧ Mirrors cur a' b' := by
  induction calls generalizing a b with
  | nil => exact ⟨[], [], a, b, rfl, rfl, rfl, mirrors⟩
  | cons c rest ih =>
      obtain ⟨r, r', a₁, b₁, ha, hb, hmuted, hmirrors⟩ :=
        mirrors.run sound (bystand c List.mem_cons_self)
      have hsound : b₁.Sound := (Step.keeps_attempt (kept_sound.run trivial)).ok sound hb
      obtain ⟨rs, rs', a', b', ha', hb', hmuted', hmirrors'⟩ :=
        ih hmirrors hsound fun c' hc' => bystand c' (List.mem_cons_of_mem c hc')
      refine ⟨r :: rs, r' :: rs', a', b', ?_, ?_, ?_, hmirrors'⟩
      · simp only [Outline.perform, bind, EStateM.bind, ha, ha', pure, EStateM.pure]
      · simp only [Outline.perform, bind, EStateM.bind, hb, hb', pure, EStateM.pure]
      · rw [List.map_cons, List.map_cons, hmuted, hmuted']

/-- A history that is done can be followed by another one. -/
theorem perform_append {calls rest : List Call} {rs rs' : List (Except Refusal Reply)}
    {o o₁ o₂ : Outline} (done : perform calls o = .ok rs o₁)
    (done' : perform rest o₁ = .ok rs' o₂) : perform (calls ++ rest) o = .ok (rs ++ rs') o₂ := by
  induction calls generalizing o rs with
  | nil =>
      obtain ⟨rfl, rfl⟩ := EStateM.Result.ok.inj done
      exact done'
  | cons c calls ih =>
      obtain ⟨r, o', hfirst, hrest⟩ := of_bind_ok done
      obtain ⟨others, o'', hothers, hend⟩ := of_bind_ok hrest
      obtain ⟨rfl, rfl⟩ := EStateM.Result.ok.inj hend
      have hrest' := ih hothers
      simp only [List.cons_append, Outline.perform, bind, EStateM.bind, hfirst, hrest', pure,
        EStateM.pure]

/-- An open outline has no postponed task. -/
theorem Sound.none_postponed (sound : o.Sound) (opened : o.depth = 0) : o.row .postponed = [] := by
  rw [List.eq_nil_iff_forall_not_mem]
  intro i hi
  obtain ⟨-, task, htask, hplace⟩ := (sound.tagged.mem_row _ i).mp hi
  exact (sound.settled.fits htask).postponed hplace opened

/-- An open outline mirrors itself once it is suspended. -/
theorem Sound.mirrors_freezeAll (sound : o.Sound) (opened : o.depth = 0) :
    Mirrors o.current o o.freezeAll.2 := by
  refine ⟨?_, rfl, ?_⟩
  · show saturatingSucc o.depth = 1
    rw [opened]
    rfl
  · show o.plain = { o with depth := saturatingSucc o.depth }.calledIn.plain
    have hcalled : { o with depth := saturatingSucc o.depth }.calledIn = o.calledIn := rfl
    rw [hcalled, calledIn_eq_self opened (sound.none_postponed opened)]

/-- The suspension ends with the postponed tasks called in. -/
theorem Mirrors.thawAll (mirrors : Mirrors cur a b) : a.plain = b.thawAll.2.plain := by
  rcases b.thawAll_cases with ⟨hopen, -⟩ | ⟨hdeep, -⟩ | ⟨-, heq⟩
  · exact absurd hopen mirrors.depth_ne
  · exact absurd (by rw [mirrors.closed]; rfl) hdeep
  · rw [heq, mirrors.plain]
    rfl

/-- A history does to an open outline what it does while scheduling is suspended,
    once the suspension ends. -/
theorem Sound.perform_suspended {calls : List Call} (sound : o.Sound) (opened : o.depth = 0)
    (bystand : ∀ c ∈ calls, c.Bystands o.current) :
    ∃ rs rs' answer a b, perform calls o = .ok rs a
      ∧ perform (.freezeAll :: (calls ++ [.thawAll])) o
        = .ok (.ok .done :: (rs' ++ [.ok (.answer answer)])) b
      ∧ rs.map muted = rs'.map muted ∧ a.plain = b.plain := by
  have hsound : o.freezeAll.2.Sound := sound.freezeAll
  obtain ⟨rs, rs', a, b, ha, hb, hmuted, hmirrors⟩ :=
    (sound.mirrors_freezeAll opened).perform hsound bystand
  have hend : perform [.thawAll] b = .ok [.ok (.answer b.thawAll.1)] b.thawAll.2 := rfl
  refine ⟨rs, rs', b.thawAll.1, a, b.thawAll.2, ha, ?_, hmuted, hmirrors.thawAll⟩
  have hbegin : perform [.freezeAll] o = .ok [.ok .done] o.freezeAll.2 := rfl
  exact perform_append hbegin (perform_append hb hend)

end Outline

namespace Kernel

open Routine

/-! ## Kernels that match -/

/-- Two kernels hold the same tasks on the same lists at the same tick.  Only the
    marks of a switch and the slice may differ. -/
structure Matches (k k' : Kernel) : Prop where
  settings : k.settings = k'.settings
  /-- The same handles name live tasks, with the same records. -/
  get? : ∀ h, k.table.get? h = k'.table.get? h
  tenant? : ∀ i, k.table.tenant? i = k'.table.tenant? i
  vacant : k.table.vacant = k'.table.vacant
  liveCount : k.table.liveCount = k'.table.liveCount
  /-- Every list holds the same tasks in the same order. -/
  slotsAt : ∀ q, k.slotsAt q = k'.slotsAt q
  handlesAt : ∀ q, k.handlesAt q = k'.handlesAt q
  /-- The same list is the one of the present cycle. -/
  cycle : k.delayed.current = k'.delayed.current
  depth : k.freeze.depth = k'.freeze.depth
  current : k.current = k'.current
  idle : k.idle = k'.idle
  now : k.now = k'.now
  wraps : k.wraps = k'.wraps
  everDispatched : k.everDispatched = k'.everDispatched

/-- Kernels match if their outlines are the same without the marks and the slice. -/
theorem matches_of_plain {k k' : Kernel} (plain : k.outline.plain = k'.outline.plain) :
    k.Matches k' := by
  -- whatever does not look at the marks or the slice is told by the plain outline
  have hread : ∀ {β : Type} (f : Outline → β), (∀ o : Outline, f o.plain = f o) →
      f k.outline = f k'.outline := by
    intro β f blind
    rw [← blind, plain, blind]
  have htenant : k.table.tenant? = k'.table.tenant? := hread Outline.tenant fun _ => rfl
  have hslots : k.slotsAt = k'.slotsAt := hread Outline.row fun _ => rfl
  refine
    { settings := hread Outline.settings fun _ => rfl
      get? := ?_
      tenant? := fun i => congrFun htenant i
      vacant := hread Outline.vacant fun _ => rfl
      liveCount := hread Outline.liveCount fun _ => rfl
      slotsAt := fun q => congrFun hslots q
      handlesAt := ?_
      cycle := hread Outline.cycle fun _ => rfl
      depth := hread Outline.depth fun _ => rfl
      current := hread Outline.current fun _ => rfl
      idle := hread Outline.idle fun _ => rfl
      now := hread Outline.now fun _ => rfl
      wraps := hread Outline.wraps fun _ => rfl
      everDispatched := hread Outline.everDispatched fun _ => rfl }
  · intro h
    rw [get?_outline, get?_outline]
    exact hread (fun o => o.get? h) fun _ => rfl
  · intro q
    show (k.slotsAt q).filterMap (fun i => (k.table.tenant? i).map Task.handle)
      = (k'.slotsAt q).filterMap fun i => (k'.table.tenant? i).map Task.handle
    rw [hslots, htenant]

/-! ## Two runs -/

/-- Suspending the scheduler only delays wake-ups.  A history that is not about the
    present task can be run at once, or while scheduling is suspended: every call
    is refused for one cause or done in both runs, and when the suspension ends
    the kernels match. -/
theorem suspension_only_delays {k : Kernel} (reachable : Reachable k)
    (opened : k.freeze.isOff = true) {calls : List Call}
    (bystand : ∀ c ∈ calls, c.Bystands k.current) (p p' : Platform) :
    ∃ (rs rs' : List (Except Refusal Reply)) (answer : Bool) (m m' : Machine Kernel),
      perform calls ⟨k, p⟩ = .ok rs m
        ∧ perform (.freezeAll :: (calls ++ [.thawAll])) ⟨k, p'⟩
          = .ok (.ok .done :: (rs' ++ [.ok (.answer answer)])) m'
        ∧ rs.map muted = rs'.map muted ∧ m.state.Matches m'.state := by
  obtain ⟨hintact, hsound⟩ := reachable.intact
  rw [isOff_outline] at opened
  obtain ⟨rs, rs', answer, a, b, ha, hb, hmuted, hplain⟩ :=
    hsound.perform_suspended (of_decide_eq_true opened) bystand
  obtain ⟨m, hm, rfl⟩ := (hintact.enacts_perform hsound calls).of_ok ha p
  obtain ⟨m', hm', rfl⟩ := (hintact.enacts_perform hsound _).of_ok hb p'
  exact ⟨rs, rs', answer, m, m', hm, hm', hmuted, matches_of_plain hplain⟩

/-- While one task runs, another one is blocked for two ticks, timed out, left out
    of scheduling and resumed again, with a forged handle among the calls. -/
theorem suspension_only_delays_timeout :
    ∃ (k : Kernel) (rs rs' : List (Except Refusal Reply)) (answer : Bool) (m m' : Machine Kernel),
      Reachable k ∧ k.current = some ⟨1, 0⟩
        ∧ perform [.block ⟨0, 0⟩ 2, .tick, .wake ⟨7, 7⟩, .tick, .suspend ⟨0, 0⟩, .resume ⟨0, 0⟩]
          ⟨k, {}⟩ = .ok rs m
        ∧ perform (.freezeAll :: ([.block ⟨0, 0⟩ 2, .tick, .wake ⟨7, 7⟩, .tick, .suspend ⟨0, 0⟩,
            .resume ⟨0, 0⟩] ++ [.thawAll])) ⟨k, {}⟩
          = .ok (.ok .done :: (rs' ++ [.ok (.answer answer)])) m'
        ∧ rs.map muted = rs'.map muted ∧ m.state.Matches m'.state := by
  have hvalid : ({} : Settings).Valid := by decide
  have hdone : isDone (do
      let _ ← perform [.create { name := "worker", priority := 1 },
        .create { name := "rival", priority := 3 }, .start 0]
      let k ← read
      if k.freeze.isOff = true ∧ k.current = some ⟨1, 0⟩ then pure () else refuse .invalidState)
      ⟨initial {}, {}⟩ = true := by
    decide +kernel
  -- the setting up is run, and then the theorem is applied to what it leaves
  obtain ⟨⟨⟩, m, hrun⟩ := of_isDone hdone
  obtain ⟨rs, n, hstarted, hrun⟩ := of_bind_ok hrun
  obtain ⟨k, n', hread, hrun⟩ := of_bind_ok hrun
  obtain ⟨rfl, rfl⟩ := EStateM.Result.ok.inj hread
  have hreachable : Reachable n.state := Reachable.perform (.initial hvalid) hstarted
  obtain ⟨⟨hopened, hcurrent⟩, -⟩ := of_unless_ok hrun
  have hbystand : ∀ c ∈ ([.block ⟨0, 0⟩ 2, .tick, .wake ⟨7, 7⟩, .tick, .suspend ⟨0, 0⟩,
      .resume ⟨0, 0⟩] : List Call), c.Bystands n.state.current := by
    rw [hcurrent]
    simp [Call.Bystands]
  obtain ⟨rs, rs', answer, m, m', hopen, hsuspended, hmuted, hmatches⟩ :=
    suspension_only_delays hreachable hopened hbystand {} {}
  exact ⟨n.state, rs, rs', answer, m, m', hreachable, hcurrent, hopen, hsuspended, hmuted, hmatches⟩

end Kernel

end PriorityScheduler
