import Mathlib.Data.List.Pairwise
import PriorityScheduler.Proofs.Mirrors
import PriorityScheduler.Proofs.Neighbours
import PriorityScheduler.Proofs.Promptness
import PriorityScheduler.Proofs.Ranges

/-! # Independent wake-ups commute

    A call ROUSES a task when it ends the wait of the task or has it go on after it was
    suspended.  Several such calls are INDEPENDENT when each rouses a task of its own
    and no two of the tasks have the same priority.

    A roused task comes to the end of its level.  No two that are roused by independent
    calls come to one level, and none of them runs; so the calls lead to the same kernel
    in every order, and each gets the same answer.  While scheduling is suspended the
    tasks are postponed in the order of the calls, and that order is forgotten when they
    are called in. -/

namespace PriorityScheduler

/-- A call rouses a task: it ends its wait, or has it go on after it was suspended. -/
inductive Call.Rouses : Call → Handle → Task → Prop where
  | wake {h : Handle} {task : Task} (blocked : task.activity = .blocked) :
      Rouses (.wake h) h task
  | cutShort {h : Handle} {task : Task} (blocked : task.activity = .blocked) :
      Rouses (.cutShort h) h task
  | resume {h : Handle} {task : Task} (suspended : task.activity = .suspended) :
      Rouses (.resume h) h task

/-- Two calls do not rouse tasks of the same priority. -/
def Apart (get? : Handle → Option Task) (c c' : Call) : Prop :=
  ∀ h h' task task', get? h = some task → get? h' = some task' → c.Rouses h task →
    c'.Rouses h' task' → task.priority ≠ task'.priority

/-- The calls rouse live tasks, and no two of them have the same priority. -/
structure Independent (get? : Handle → Option Task) (calls : List Call) : Prop where
  each : ∀ c ∈ calls, ∃ h task, get? h = some task ∧ c.Rouses h task
  apart : calls.Pairwise (Apart get?)

/-- The slot of the task that a call is made for. -/
def Call.slot (c : Call) : Nat :=
  (c.subject.map Handle.index).getD 0

section Calls

variable {get? : Handle → Option Task} {calls calls' : List Call} {c : Call} {h : Handle}
  {task : Task}

theorem Call.Rouses.subject (rouses : c.Rouses h task) : c.subject = some h := by
  cases rouses <;> rfl

theorem Call.Rouses.slot (rouses : c.Rouses h task) : c.slot = h.index := by
  simp only [Call.slot, rouses.subject, Option.map_some, Option.getD_some]

/-- A task that is roused does not run. -/
theorem Call.Rouses.rests (rouses : c.Rouses h task) : task.activity ≠ .running := by
  cases rouses with
  | wake blocked => rw [blocked]; decide
  | cutShort blocked => rw [blocked]; decide
  | resume suspended => rw [suspended]; decide

theorem Apart.symm {c c' : Call} (apart : Apart get? c c') : Apart get? c' c :=
  fun h h' task task' live live' rouses rouses' =>
    (apart h' h task' task live' live rouses' rouses).symm

/-- Calls for tasks of different priorities are apart. -/
theorem apart_of_priority_ne {c' : Call} {h' : Handle} {task' : Task} (subject : c.subject = some h)
    (subject' : c'.subject = some h') (live : get? h = some task) (live' : get? h' = some task')
    (ne : task.priority ≠ task'.priority) : Apart get? c c' := by
  intro h₁ h₁' t t' hget hget' hrouses hrouses'
  obtain rfl := Option.some.inj (hrouses.subject.symm.trans subject)
  obtain rfl := Option.some.inj (hrouses'.subject.symm.trans subject')
  obtain rfl := Option.some.inj (hget.symm.trans live)
  obtain rfl := Option.some.inj (hget'.symm.trans live')
  exact ne

/-- Independent calls are so in every order. -/
theorem Independent.perm (independent : Independent get? calls) (perm : calls.Perm calls') :
    Independent get? calls' := by
  refine ⟨fun c hc => independent.each c (perm.mem_iff.mpr hc), ?_⟩
  exact (perm.pairwise_iff Apart.symm).mp independent.apart

/-- Different ones of the calls rouse tasks of different priorities. -/
theorem Independent.apart_of_ne (independent : Independent get? calls) (hc : c ∈ calls)
    {c' : Call} (hc' : c' ∈ calls) (hne : c ≠ c') : Apart get? c c' := by
  have hsymm : Std.Symm (Apart get?) := ⟨fun _ _ => Apart.symm⟩
  exact independent.apart.forall hc hc' hne

end Calls

namespace Outline

variable {o o' : Outline} {calls calls' : List Call} {c : Call} {h h' : Handle}
  {task task' : Task} {i : Nat} {l l' : List Nat} {f : Task → Task}

/-! ## One call -/

/-- The record with which a call makes a task ready. -/
def rouse (c : Call) (task : Task) : Task :=
  match c with
  | .wake _ => unheld task false
  | .cutShort _ => unheld task true
  | _ => task

/-- Whether a task of a priority that a call rouses is to be switched to. -/
def favours (o : Outline) (c : Call) (priority : Nat) : Bool :=
  decide (o.depth = 0) &&
    match c with
    | .resume _ => o.rivals priority
    | _ => o.beats priority

/-- Whether a call that rouses a task asks for a switch. -/
def asks (o : Outline) (c : Call) : Bool :=
  (c.subject.bind o.get?).any fun task => o.favours c task.priority

/-- A task that is made ready, and did not run before, is not the running one. -/
theorem Tagged.makeReady_runnerPriority (tagged : o.Tagged) (live : o.get? h = some task)
    (rests : task.activity ≠ .running) (task' : Task) :
    (o.makeReady h.index task').runnerPriority = o.runnerPriority := by
  refine o.runnerPriority_reseat .back ?_ (by rintro ⟨⟩)
  rw [(tagged.get?_eq_some.mp live).1]
  exact lead_of_ne rests

/-- The wait of a blocked task ends. -/
theorem Tagged.endWait_blocked (tagged : o.Tagged) (live : o.get? h = some task)
    (blocked : task.activity = .blocked) (cut : Bool) :
    o.endWait h cut = .ok (decide (o.depth = 0) && o.beats task.priority,
      (o.makeReady h.index (unheld task cut)).wantSwitchIf
        (decide (o.depth = 0) && o.beats task.priority)) := by
  have hrunner := tagged.makeReady_runnerPriority live (by rw [blocked]; decide) (unheld task cut)
  simp only [endWait, find, live]
  show (if task.activity = .blocked then _ else _) = _
  rw [if_pos blocked]
  simp only [beats, hrunner]
  rfl

/-- A suspended task goes on. -/
theorem Tagged.resume_suspended (tagged : o.Tagged) (live : o.get? h = some task)
    (suspended : task.activity = .suspended) :
    o.resume h = .ok (decide (o.depth = 0) && o.rivals task.priority,
      (o.makeReady h.index task).wantSwitchIf (decide (o.depth = 0) && o.rivals task.priority)) := by
  have hrunner := tagged.makeReady_runnerPriority live (by rw [suspended]; decide) task
  simp only [Outline.resume, find, live]
  show (if task.activity = .suspended then _ else _) = _
  rw [if_pos suspended]
  simp only [rivals, hrunner]
  rfl

/-- A call that rouses a task makes it ready, and asks for a switch by the task that runs. -/
theorem Tagged.run_rousing (tagged : o.Tagged) (live : o.get? h = some task)
    (rouses : c.Rouses h task) :
    Step.attempt (run c) o = .ok (.ok (.answer (o.asks c)))
      ((o.makeReady h.index (rouse c task)).wantSwitchIf (o.asks c)) := by
  have hasks : o.asks c = o.favours c task.priority := by
    simp only [asks, rouses.subject, Option.bind_some, live, Option.any_some]
  have hguarded : ∀ {f : Outline → Except Refusal (Bool × Outline)} {wanted : Bool}
      {o' : Outline}, f o = .ok (wanted, o') →
      Step.attempt (do return Reply.answer (← Step.guarded f)) o = .ok (.ok (.answer wanted)) o' := by
    intro f wanted o' hf
    simp only [Step.attempt, bind, EStateM.bind, Step.guarded_ok hf]
    rfl
  rw [hasks]
  cases rouses with
  | wake blocked => exact hguarded (tagged.endWait_blocked live blocked false)
  | cutShort blocked => exact hguarded (tagged.endWait_blocked live blocked true)
  | resume suspended => exact hguarded (tagged.resume_suspended live suspended)

/-! ## A run of calls -/

/-- Slots that are to be made ready may get the mark of a switch before. -/
theorem makeAllReady_wantSwitchIf (o : Outline) (f : Task → Task) (l : List Nat) (wanted : Bool) :
    (o.wantSwitchIf wanted).makeAllReady f l = (o.makeAllReady f l).wantSwitchIf wanted := rfl

theorem wantSwitchIf_wantSwitchIf (o : Outline) (wanted wanted' : Bool) :
    (o.wantSwitchIf wanted).wantSwitchIf wanted' = o.wantSwitchIf (wanted || wanted') := by
  simp only [wantSwitchIf, Bool.or_assoc]

/-- The tasks of independent calls are in slots of their own. -/
theorem Sound.slot_ne (sound : o.Sound) (independent : Independent o.get? (c :: calls))
    {c' : Call} (hc' : c' ∈ calls) : c'.slot ≠ c.slot := by
  obtain ⟨h, task, hget, hrouses⟩ := independent.each c List.mem_cons_self
  obtain ⟨h', task', hget', hrouses'⟩ := independent.each c' (List.mem_cons_of_mem c hc')
  have hpriority := (List.pairwise_cons.mp independent.apart).1 c' hc' h h' task task' hget hget'
    hrouses hrouses'
  rw [hrouses.slot, hrouses'.slot]
  refine sound.index_ne hget' hget ?_
  rintro rfl
  rw [hget] at hget'
  exact hpriority (congrArg Task.priority (Option.some.inj hget'))

/-- What a call leaves alone of the tasks of the others: their records, and what they ask. -/
theorem Sound.rousing_rest (sound : o.Sound) (independent : Independent o.get? (c :: calls))
    (live : o.get? h = some task) (rouses : c.Rouses h task) (task' : Task) (wanted : Bool) :
    Independent ((o.makeReady h.index task').wantSwitchIf wanted).get? calls
      ∧ calls.map ((o.makeReady h.index task').wantSwitchIf wanted).asks = calls.map o.asks := by
  have hget : ∀ c' ∈ calls, ∀ h', c'.subject = some h' →
      ((o.makeReady h.index task').wantSwitchIf wanted).get? h' = o.get? h' := by
    intro c' hc' h' hsubject
    -- independent calls are made for tasks in different slots
    have hne : h'.index ≠ h.index := by
      have hslot := sound.slot_ne independent hc'
      rw [rouses.slot] at hslot
      simpa only [Call.slot, hsubject, Option.map_some, Option.getD_some] using hslot
    show (o.makeReady h.index task').get? h' = o.get? h'
    exact Outline.get?_makeReady hne
  refine ⟨⟨?each, ?apart⟩, ?asks⟩
  case each =>
    intro c' hc'
    obtain ⟨h', t, ht, hrouses'⟩ := independent.each c' (List.mem_cons_of_mem c hc')
    exact ⟨h', t, (hget c' hc' h' hrouses'.subject).trans ht, hrouses'⟩
  case apart =>
    refine (List.pairwise_cons.mp independent.apart).2.imp_of_mem ?_
    intro c₁ c₂ hc₁ hc₂ hapart h₁ h₂ t₁ t₂ ht₁ ht₂ hrouses₁ hrouses₂
    rw [hget c₁ hc₁ h₁ hrouses₁.subject] at ht₁
    rw [hget c₂ hc₂ h₂ hrouses₂.subject] at ht₂
    exact hapart h₁ h₂ t₁ t₂ ht₁ ht₂ hrouses₁ hrouses₂
  case asks =>
    refine List.map_congr_left fun c' hc' => ?_
    obtain ⟨h', t, ht, hrouses'⟩ := independent.each c' (List.mem_cons_of_mem c hc')
    -- what a call asks depends on the running task, which the first call does not touch
    have hrunner : ((o.makeReady h.index task').wantSwitchIf wanted).runnerPriority
        = o.runnerPriority := sound.tagged.makeReady_runnerPriority live rouses.rests task'
    have hfavours : ∀ p, ((o.makeReady h.index task').wantSwitchIf wanted).favours c' p
        = o.favours c' p := by
      intro p
      simp only [favours, beats, rivals, hrunner]
      rfl
    simp only [asks, hrouses'.subject, Option.bind_some, hget c' hc' h' hrouses'.subject, hfavours]

/-- The reply of a call that answers whether a switch should follow. -/
def answered (wanted : Bool) : Except Refusal Reply :=
  .ok (.answer wanted)

/-- The record with which a task is made ready that one of the calls rouses. -/
def rousedBy (calls : List Call) (task : Task) : Task :=
  if task.activity = .blocked then unheld task (decide (.cutShort task.handle ∈ calls)) else task

theorem rousedBy_priority (calls : List Call) (task : Task) :
    (rousedBy calls task).priority = task.priority := by
  unfold rousedBy
  split <;> rfl

/-- Of the independent calls a single one tells how a task is made ready. -/
theorem Tagged.rousedBy_eq (tagged : o.Tagged) (independent : Independent o.get? calls)
    (hc : c ∈ calls) (live : o.get? h = some task) (rouses : c.Rouses h task) :
    rousedBy calls task = rouse c task := by
  have hhandle : task.handle = h := (tagged.get?_eq_some.mp live).2
  cases rouses with
  | wake blocked =>
      have hwoken : .cutShort h ∉ calls := by
        intro hcut
        exact independent.apart_of_ne hc hcut (by rintro ⟨⟩) h h task task live live
          (.wake blocked) (.cutShort blocked) rfl
      rw [rousedBy, if_pos blocked, hhandle, decide_eq_false hwoken]
      rfl
  | cutShort blocked =>
      rw [rousedBy, if_pos blocked, hhandle, decide_eq_true hc]
      rfl
  | resume suspended =>
      rw [rousedBy, if_neg (by rw [suspended]; rintro ⟨⟩)]
      rfl

/-- Independent calls make their tasks ready one after the other, each with its own change of the
    record, and each asks what it would ask at once. -/
theorem Sound.perform_rousing (sound : o.Sound) (independent : Independent o.get? calls)
    (records : ∀ c ∈ calls, ∀ h task, o.get? h = some task → c.Rouses h task →
      f task = rouse c task) :
    perform calls o = .ok ((calls.map o.asks).map answered)
      ((o.makeAllReady f (calls.map Call.slot)).wantSwitchIf ((calls.map o.asks).any id)) := by
  -- the first call leaves the calls that are left independent, and what each of them asks
  induction calls generalizing o with
  | nil =>
      simp only [List.map_nil, List.any_nil, makeAllReady_nil, Outline.wantSwitchIf, Bool.or_false]
      rfl
  | cons c rest ih =>
      obtain ⟨h, task, hget, hrouses⟩ := independent.each c List.mem_cons_self
      have hstep := sound.tagged.run_rousing hget hrouses
      have hsound := (Step.keeps_attempt (kept_sound.run (c := c) trivial)).ok sound hstep
      obtain ⟨hindependent, hasks⟩ := sound.rousing_rest independent hget hrouses
        (rouse c task) (o.asks c)
      have hslot : c.slot ∉ rest.map Call.slot := by
        intro hmem
        obtain ⟨c', hc', heq⟩ := List.mem_map.mp hmem
        exact sound.slot_ne independent hc' heq
      have hready : o.makeAllReady f ((c :: rest).map Call.slot)
          = (o.makeReady h.index (rouse c task)).makeAllReady f (rest.map Call.slot) := by
        rw [List.map_cons, hrouses.slot, ← records c List.mem_cons_self h task hget hrouses]
        refine makeAllReady_cons (sound.live hget) ?_
        rw [← hrouses.slot]
        exact hslot
      have hrecords : ∀ c' ∈ rest, ∀ h' t, ((o.makeReady h.index (rouse c task)).wantSwitchIf
          (o.asks c)).get? h' = some t → c'.Rouses h' t → f t = rouse c' t := by
        intro c' hc' h' t ht hrouses'
        refine records c' (List.mem_cons_of_mem c hc') h' t ?_ hrouses'
        have hne := sound.slot_ne independent hc'
        rw [hrouses.slot, hrouses'.slot] at hne
        exact (Outline.get?_makeReady hne).symm.trans ht
      have hrest := ih hsound hindependent hrecords
      simp only [perform, bind, EStateM.bind, hstep, hrest, hasks, hready]
      rw [makeAllReady_wantSwitchIf, wantSwitchIf_wantSwitchIf]
      rfl

/-! ## Every order -/

/-- Of things that are told apart by their keys those of one key are in the same order, in
    whatever order all of them are. -/
theorem filter_eq_of_perm {κ : Type} {key : Nat → κ} {d : Nat → Bool} (perm : l.Perm l')
    (apart : l.Pairwise fun i j => key i ≠ key j)
    (one : ∀ i j, d i = true → d j = true → key i = key j) : l.filter d = l'.filter d := by
  have hapart' : l'.Pairwise fun i j => key i ≠ key j := (perm.pairwise_iff Ne.symm).mp apart
  refine (perm.filter d).eq_of_pairwise ?_ (apart.filter d) (hapart'.filter d)
  intro i j hi hj hne
  exact absurd (one i j (List.mem_filter.mp hi).2 (List.mem_filter.mp hj).2) hne

/-- Tasks of different priorities are made ready in any order while scheduling goes on. -/
theorem makeAllReady_perm (opened : o.depth = 0) (keeps : ∀ t, (f t).priority = t.priority)
    (perm : l.Perm l')
    (apart : l.Pairwise fun i j => (o.tenant i).map Task.priority ≠ (o.tenant j).map Task.priority) :
    o.makeAllReady f l = o.makeAllReady f l' := by
  ext1 <;> try rfl
  · funext i
    simp only [makeAllReady, perm.mem_iff]
  · funext q
    have hrest : (o.row q).filter (· ∉ l) = (o.row q).filter (· ∉ l') := by
      simp only [perm.mem_iff]
    show (o.row q).filter (· ∉ l) ++ _ = (o.row q).filter (· ∉ l') ++ _
    rw [hrest]
    refine congrArg _ (filter_eq_of_perm perm apart ?_)
    -- two that come to one level have the same priority
    have hplace : ∀ i, ((o.tenant i).any fun t => decide (o.readyPlace (f t) = q)) = true →
        ((o.tenant i).map Task.priority).map Place.ready = some q := by
      intro i hi
      obtain ⟨t, ht, hq⟩ := Option.any_eq_true _ _ |>.mp hi
      have hready : o.readyPlace (f t) = .ready t.priority := by
        rw [readyPlace, if_pos opened, keeps]
      rw [ht, Option.map_some, Option.map_some, ← hready, of_decide_eq_true hq]
    intro i j hi hj
    refine Option.map_injective (fun _ _ => Place.ready.inj) ?_
    rw [hplace i hi, hplace j hj]

/-! ## Calling in -/

/-- Tasks get the same records in whatever order they are made ready. -/
theorem makeAllReady_tenant_perm (perm : l.Perm l') :
    (o.makeAllReady f l).tenant = (o.makeAllReady f l').tenant := by
  funext i
  simp only [makeAllReady, perm.mem_iff]

/-- In whatever order tasks become ready, the same of the postponed ones are at or above the
    running one. -/
theorem postponedRivals_perm (perm : l.Perm l') :
    (o.makeAllReady f l).postponedRivals = (o.makeAllReady f l').postponedRivals := by
  have hrow : ((o.makeAllReady f l).row .postponed).Perm ((o.makeAllReady f l').row .postponed) := by
    show ((o.row .postponed).filter (· ∉ l) ++ l.filter _).Perm
      ((o.row .postponed).filter (· ∉ l') ++ l'.filter _)
    simp only [perm.mem_iff]
    exact (perm.filter _).append_left _
  have htenant := makeAllReady_tenant_perm (o := o) (f := f) perm
  have hrunner : (o.makeAllReady f l).runnerPriority = (o.makeAllReady f l').runnerPriority :=
    runnerPriority_congr rfl rfl fun j => by rw [htenant]
  simp only [postponedRivals, rivals, htenant, hrunner]
  exact hrow.any_eq

/-- All suspensions are undone one after the other.  The last one calls the postponed tasks in,
    and the others tell nothing. -/
theorem perform_thawAll {n : Nat} (depth : o.depth.toNat = n + 1) :
    perform (List.replicate (n + 1) .thawAll) o
      = .ok (List.replicate n (answered false) ++ [answered (o.switchDue || o.postponedRivals)])
        { o.calledIn with switchDue := o.switchDue || o.postponedRivals } := by
  have hstep : Step.attempt (run .thawAll) o = .ok (answered o.thawAll.1) o.thawAll.2 := rfl
  induction n generalizing o with
  | zero =>
      rcases o.thawAll_cases with ⟨hopen, -⟩ | ⟨hdeep, -⟩ | ⟨-, heq⟩
      · rw [hopen] at depth
        cases depth
      · have hone : o.depth = 1 := UInt32.toNat_inj.mp depth
        exact absurd (by rw [hone]; rfl) hdeep
      · rw [heq] at hstep
        simp only [List.replicate_succ, List.replicate_zero, perform, bind, EStateM.bind, hstep]
        rfl
  | succ n ih =>
      rcases o.thawAll_cases with ⟨hopen, -⟩ | ⟨hdeep, heq⟩ | ⟨hone, -⟩
      · rw [hopen] at depth
        cases depth
      · rw [heq] at hstep
        -- one suspension less is outstanding, and the rest is as before
        have hdepth : (o.depth - 1).toNat = n + 1 := by
          rw [toNat_sub_one (fun hzero => by rw [hzero] at depth; cases depth), depth]
          rfl
        have hrest := ih (o := { o with depth := o.depth - 1 }) hdepth rfl
        rw [List.replicate_succ]
        simp only [perform, bind, EStateM.bind, hstep, hrest]
        rfl
      · rw [hone] at depth
        cases depth

/-- Outlines that are told apart only by the order of the postponed tasks are the same once all
    suspensions are undone. -/
theorem perform_thawAll_alike {depth : UInt32} (closed : depth ≠ 0) (deep : o.depth = depth)
    (deep' : o'.depth = depth) (calledIn : o.calledIn = o'.calledIn)
    (due : o.switchDue = o'.switchDue) (rivals : o.postponedRivals = o'.postponedRivals) :
    ∃ rs b, perform (List.replicate depth.toNat .thawAll) o = .ok rs b
      ∧ perform (List.replicate depth.toNat .thawAll) o' = .ok rs b ∧ b.depth = 0 := by
  obtain ⟨n, hn⟩ := Nat.exists_eq_succ_of_ne_zero
    (fun hzero => closed (UInt32.toNat_inj.mp hzero) : depth.toNat ≠ 0)
  rw [hn]
  refine ⟨_, _, perform_thawAll (deep ▸ hn), ?_, rfl⟩
  rw [calledIn, due, rivals]
  exact perform_thawAll (deep' ▸ hn)

/-! ## Any two orders -/

/-- The slots of independent calls hold tasks of different priorities. -/
theorem Sound.slots_apart (sound : o.Sound) (independent : Independent o.get? calls) :
    (calls.map Call.slot).Pairwise
      fun i j => (o.tenant i).map Task.priority ≠ (o.tenant j).map Task.priority := by
  rw [List.pairwise_map]
  refine independent.apart.imp_of_mem ?_
  intro c c' hc hc' hapart
  obtain ⟨h, task, hget, hrouses⟩ := independent.each c hc
  obtain ⟨h', task', hget', hrouses'⟩ := independent.each c' hc'
  rw [hrouses.slot, hrouses'.slot, sound.live hget, sound.live hget', Option.map_some,
    Option.map_some]
  exact fun heq => hapart h h' task task' hget hget' hrouses hrouses' (Option.some.inj heq)

/-- A task that independent calls rouse is not postponed. -/
theorem Sound.not_postponed_of_rouses (sound : o.Sound) (live : o.get? h = some task)
    (rouses : c.Rouses h task) : h.index ∉ o.row .postponed := by
  intro hmem
  obtain ⟨-, task', htask', hplace⟩ := (sound.tagged.mem_row _ _).mp hmem
  obtain rfl := Option.some.inj ((sound.live live).symm.trans htask')
  have hready : task.activity = .ready := by
    rw [(sound.settled.fits htask').activity, hplace]
    rfl
  cases rouses with
  | wake blocked => rw [blocked] at hready; cases hready
  | cutShort blocked => rw [blocked] at hready; cases hready
  | resume suspended => rw [suspended] at hready; cases hready

/-- The postponed tasks are called in alike, in whatever order independent calls roused them. -/
theorem Sound.calledIn_perm (sound : o.Sound) (closed : o.depth ≠ 0)
    (independent : Independent o.get? calls) (keeps : ∀ t, (f t).priority = t.priority)
    (perm : calls.Perm calls') :
    (o.makeAllReady f (calls.map Call.slot)).calledIn
      = (o.makeAllReady f (calls'.map Call.slot)).calledIn := by
  have hslots := perm.map Call.slot
  have hapart := sound.slots_apart independent
  have hnodup : (calls.map Call.slot).Nodup := by
    refine hapart.imp ?_
    rintro i j hne rfl
    exact hne rfl
  have hlive : ∀ i ∈ calls.map Call.slot, i ∉ o.row .postponed ∧ ∃ t, o.tenant i = some t := by
    intro i hi
    obtain ⟨c, hc, rfl⟩ := List.mem_map.mp hi
    obtain ⟨h, task, hget, hrouses⟩ := independent.each c hc
    rw [hrouses.slot]
    exact ⟨sound.not_postponed_of_rouses hget hrouses, task, sound.live hget⟩
  rw [calledIn_makeAllReady closed hnodup hlive, calledIn_makeAllReady closed
    (hslots.nodup_iff.mp hnodup) fun i hi => hlive i (hslots.mem_iff.mpr hi)]
  -- the roused tasks differ in priority, hence in level, so their order does not matter
  refine makeAllReady_perm rfl keeps hslots (hapart.imp ?_)
  intro i j hne
  have hpriority : ∀ i, (o.calledIn.tenant i).map Task.priority = (o.tenant i).map Task.priority := by
    intro i
    rw [sound.calledIn_tenant, Option.map_map]
    exact congrArg (Option.map · _) (funext called_priority)
  rw [hpriority, hpriority]
  exact hne

/-- Independent calls answer the same in every order.  While scheduling goes on they leave the
    same outline, and while it is suspended they do once all suspensions are undone. -/
theorem Sound.perform_perm (sound : o.Sound) (independent : Independent o.get? calls)
    (perm : calls.Perm calls') :
    ∃ a a', perform calls o = .ok (calls.map fun c => answered (o.asks c)) a
      ∧ perform calls' o = .ok (calls'.map fun c => answered (o.asks c)) a'
      ∧ (o.depth = 0 → a = a')
      ∧ (o.depth ≠ 0 → ∃ rs b, perform (List.replicate o.depth.toNat .thawAll) a = .ok rs b
          ∧ perform (List.replicate o.depth.toNat .thawAll) a' = .ok rs b ∧ b.depth = 0) := by
  have hdone := sound.perform_rousing independent fun c hc h task hget hrouses =>
    sound.tagged.rousedBy_eq independent hc hget hrouses
  have hdone' := sound.perform_rousing (independent.perm perm) fun c hc h task hget hrouses =>
    sound.tagged.rousedBy_eq independent (perm.mem_iff.mpr hc) hget hrouses
  rw [List.map_map] at hdone hdone'
  have hkeeps := rousedBy_priority calls
  have hany : (calls.map o.asks).any id = (calls'.map o.asks).any id := (perm.map o.asks).any_eq
  refine ⟨_, _, hdone, hdone', ?opened, ?closed⟩
  case opened =>
    intro hopen
    rw [hany, makeAllReady_perm hopen hkeeps (perm.map Call.slot) (sound.slots_apart independent)]
  case closed =>
    intro hclosed
    rw [← hany]
    exact perform_thawAll_alike hclosed rfl rfl
      (congrArg (Outline.wantSwitchIf · ((calls.map o.asks).any id))
        (sound.calledIn_perm hclosed independent hkeeps perm))
      rfl (postponedRivals_perm (o := o) (f := rousedBy calls) (perm.map Call.slot))

end Outline

namespace Kernel

open Routine

/-- Two kernels look the same altogether. -/
structure Coincides (k k' : Kernel) : Prop extends k.Matches k' where
  sliceSpent : k.sliceSpent = k'.sliceSpent
  sendBehind : k.sendBehind = k'.sendBehind
  switchDue : k.switchDue = k'.switchDue

theorem coincides_of_outline {k k' : Kernel} (same : k.outline = k'.outline) : k.Coincides k' :=
  { matches_of_plain (congrArg Outline.plain same) with
    sliceSpent := congrArg Outline.sliceSpent same
    sendBehind := congrArg Outline.sendBehind same
    switchDue := congrArg Outline.switchDue same }

/-- Independent wake-ups commute.  In whatever order the calls are made each of them gets the same
    answer.  While scheduling goes on the kernels that they lead to are the same, and while it is
    suspended they are once all suspensions are undone, which answers the same as well. -/
theorem wakeUps_commute {k : Kernel} (reachable : Reachable k) {calls calls' : List Call}
    (independent : Independent k.table.get? calls) (perm : calls.Perm calls') (p p' : Platform) :
    ∃ (answers : Call → Bool) (m m' : Machine Kernel),
      perform calls ⟨k, p⟩ = .ok (calls.map fun c => .ok (.answer (answers c))) m
        ∧ perform calls' ⟨k, p'⟩ = .ok (calls'.map fun c => .ok (.answer (answers c))) m'
        ∧ (k.freeze.isOff = true → m.state.Coincides m'.state)
        ∧ (k.freeze.isOff = false → ∃ (rs : List (Except Refusal Reply)) (n n' : Machine Kernel),
            perform (List.replicate k.freeze.depth.toNat .thawAll) m = .ok rs n
              ∧ perform (List.replicate k.freeze.depth.toNat .thawAll) m' = .ok rs n'
              ∧ n.state.freeze.isOff = true ∧ n.state.Coincides n'.state) := by
  obtain ⟨hintact, hsound⟩ := reachable.intact
  have hget : k.table.get? = k.outline.get? := funext fun h => get?_outline k h
  rw [hget] at independent
  obtain ⟨a, a', ha, ha', hopened, hclosed⟩ := hsound.perform_perm independent perm
  obtain ⟨m, hm, rfl⟩ := (hintact.enacts_perform hsound calls).of_ok ha p
  obtain ⟨m', hm', rfl⟩ := (hintact.enacts_perform hsound calls').of_ok ha' p'
  refine ⟨k.outline.asks, m, m', hm, hm', ?opened, ?closed⟩
  case opened =>
    intro hopen
    rw [isOff_outline] at hopen
    exact coincides_of_outline (hopened (of_decide_eq_true hopen))
  case closed =>
    intro hclose
    rw [isOff_outline] at hclose
    obtain ⟨rs, b, hb, hb', hdepth⟩ := hclosed (of_decide_eq_false hclose)
    obtain ⟨hintact₁, hsound₁, -⟩ := hintact.of_perform hsound hm
    obtain ⟨hintact₁', hsound₁', -⟩ := hintact.of_perform hsound hm'
    obtain ⟨n, hn, hlast⟩ := (hintact₁.enacts_perform hsound₁ _).of_ok hb m.platform
    obtain ⟨n', hn', hlast'⟩ := (hintact₁'.enacts_perform hsound₁' _).of_ok hb' m'.platform
    refine ⟨rs, n, n', hn, hn', ?_, coincides_of_outline (hlast.trans hlast'.symm)⟩
    rw [isOff_outline, hlast]
    exact decide_eq_true hdepth

/-- A task that is delayed, one that waits without a timeout and one that is suspended are roused
    while scheduling is suspended twice. -/
theorem wakeUps_commute_postponed :
    ∃ (k : Kernel) (answers : Call → Bool) (m m' : Machine Kernel),
      Reachable k ∧ k.freeze.isOff = false
        ∧ Independent k.table.get? [.wake ⟨0, 0⟩, .cutShort ⟨1, 0⟩, .resume ⟨2, 0⟩]
        ∧ perform [.wake ⟨0, 0⟩, .cutShort ⟨1, 0⟩, .resume ⟨2, 0⟩] ⟨k, {}⟩
          = .ok ([.wake ⟨0, 0⟩, .cutShort ⟨1, 0⟩, .resume ⟨2, 0⟩].map
              fun c => .ok (.answer (answers c))) m
        ∧ perform [.resume ⟨2, 0⟩, .wake ⟨0, 0⟩, .cutShort ⟨1, 0⟩] ⟨k, {}⟩
          = .ok ([.resume ⟨2, 0⟩, .wake ⟨0, 0⟩, .cutShort ⟨1, 0⟩].map
              fun c => .ok (.answer (answers c))) m'
        ∧ ∃ (rs : List (Except Refusal Reply)) (n n' : Machine Kernel),
            perform (List.replicate k.freeze.depth.toNat .thawAll) m = .ok rs n
              ∧ perform (List.replicate k.freeze.depth.toNat .thawAll) m' = .ok rs n'
              ∧ n.state.freeze.isOff = true ∧ n.state.Coincides n'.state := by
  have hvalid : ({} : Settings).Valid := by decide
  have hdone : isDone (do
      let _ ← perform [.create { name := "low", priority := 1 },
        .create { name := "middle", priority := 2 }, .create { name := "high", priority := 3 },
        .start 0, .block ⟨0, 0⟩ 5, .block ⟨1, 0⟩ waitForever, .suspend ⟨2, 0⟩, .freezeAll, .freezeAll]
      let k ← read
      if k.freeze.isOff = false
        ∧ (k.table.get? ⟨0, 0⟩).map (fun t => (t.activity, t.priority)) = some (.blocked, 1)
        ∧ (k.table.get? ⟨1, 0⟩).map (fun t => (t.activity, t.priority)) = some (.blocked, 2)
        ∧ (k.table.get? ⟨2, 0⟩).map (fun t => (t.activity, t.priority)) = some (.suspended, 3)
      then pure () else refuse .invalidState)
      ⟨initial {}, {}⟩ = true := by
    decide +kernel
  -- the setting up is run, and then the theorem is applied to what it leaves
  obtain ⟨⟨⟩, m, hrun⟩ := of_isDone hdone
  obtain ⟨rs, n, hstarted, hrun⟩ := of_bind_ok hrun
  obtain ⟨k, n', hread, hrun⟩ := of_bind_ok hrun
  obtain ⟨rfl, rfl⟩ := EStateM.Result.ok.inj hread
  have hreachable : Reachable n.state := Reachable.perform (.initial hvalid) hstarted
  obtain ⟨⟨hclosed, hlow, hmiddle, hhigh⟩, -⟩ := of_unless_ok hrun
  obtain ⟨t₀, hget₀, hlow⟩ := Option.map_eq_some_iff.mp hlow
  obtain ⟨t₁, hget₁, hmiddle⟩ := Option.map_eq_some_iff.mp hmiddle
  obtain ⟨t₂, hget₂, hhigh⟩ := Option.map_eq_some_iff.mp hhigh
  obtain ⟨hblocked₀, hpriority₀⟩ := Prod.mk.inj hlow
  obtain ⟨hblocked₁, hpriority₁⟩ := Prod.mk.inj hmiddle
  obtain ⟨hsuspended₂, hpriority₂⟩ := Prod.mk.inj hhigh
  have hindependent : Independent n.state.table.get?
      [.wake ⟨0, 0⟩, .cutShort ⟨1, 0⟩, .resume ⟨2, 0⟩] := by
    constructor
    · simp only [List.forall_mem_cons]
      exact ⟨⟨_, t₀, hget₀, .wake hblocked₀⟩, ⟨_, t₁, hget₁, .cutShort hblocked₁⟩,
        ⟨_, t₂, hget₂, .resume hsuspended₂⟩, fun c hc => absurd hc List.not_mem_nil⟩
    · refine List.pairwise_cons.mpr ⟨List.forall_mem_cons.mpr ⟨?_, List.forall_mem_singleton.mpr ?_⟩,
        List.pairwise_pair.mpr ?_⟩
      · exact apart_of_priority_ne rfl rfl hget₀ hget₁ (by rw [hpriority₀, hpriority₁]; decide)
      · exact apart_of_priority_ne rfl rfl hget₀ hget₂ (by rw [hpriority₀, hpriority₂]; decide)
      · exact apart_of_priority_ne rfl rfl hget₁ hget₂ (by rw [hpriority₁, hpriority₂]; decide)
  have hperm : [.wake ⟨0, 0⟩, .cutShort ⟨1, 0⟩, .resume ⟨2, 0⟩].Perm
      [Call.resume ⟨2, 0⟩, .wake ⟨0, 0⟩, .cutShort ⟨1, 0⟩] := by decide
  obtain ⟨answers, a, a', ha, ha', -, hthawed⟩ :=
    wakeUps_commute hreachable hindependent hperm {} {}
  exact ⟨n.state, answers, a, a', hreachable, hclosed, hindependent, ha, ha', hthawed hclosed⟩

end Kernel

end PriorityScheduler
