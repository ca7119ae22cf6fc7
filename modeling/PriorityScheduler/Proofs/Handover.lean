import PriorityScheduler.Proofs.Starting

/-! # The chain of switches

    A port saves the registers of the processor into the task that a switch names as
    the outgoing one, so the switches have to form one unbroken chain: each goes out
    of the task that the last one came into.  Only a deletion breaks it, for then
    there is no task to save them into.

    The EVENTS of a platform are its switches and the deletions, in the order in
    which they happened.  They FOLLOW a task dispatched last when each switch goes
    out of that task, and they lead to the task dispatched last after them.  So do
    the events of every call but a choice alone, whose caller is to make the switch. -/

namespace PriorityScheduler

/-! ## Events -/

/-- A switch that the platform was told to make, or the end of a task. -/
inductive Event where
  | switched (outgoing : Option Handle) (incoming : Handle)
  | deleted (task : Handle)
  deriving DecidableEq, Repr

/-- The event that an effect is, if it is one. -/
def Effect.event? : Effect → Option Event
  | .switch outgoing incoming => some (.switched outgoing incoming)
  | .log (.deleted _ task) => some (.deleted task)
  | _ => none

/-- The task whose end an event is. -/
def Event.gone? : Event → Option Handle
  | .deleted task => some task
  | .switched _ _ => none

namespace Platform

/-- The switches and deletions so far, the first one first. -/
def events (p : Platform) : List Event :=
  p.effects.toList.filterMap Effect.event?

theorem events_note (p : Platform) (e : Effect) :
    (p.note e).events = p.events ++ e.event?.toList := by
  simp only [events, note, Array.toList_push, List.filterMap_append]
  cases he : e.event? with
  | none => rw [List.filterMap_cons_none he, List.filterMap_nil, Option.toList_none]
  | some event => rw [List.filterMap_cons_some he, List.filterMap_nil, Option.toList_some]

/-- Holding off interrupts is no event. -/
theorem events_mask (p : Platform) : p.mask.events = p.events := by
  have hnote := p.events_note (.mask p.maskAnswer)
  rwa [show (Effect.mask p.maskAnswer).event?.toList = [] from rfl, List.append_nil] at hnote

theorem events_restore (p : Platform) (saved : Bool) : (p.restore saved).events = p.events := by
  have hnote := p.events_note (.restore saved)
  rwa [show (Effect.restore saved).event?.toList = [] from rfl, List.append_nil] at hnote

end Platform

/-! ## Chains -/

/-- The events lead from one task dispatched last to another: each switch goes out of
    the task dispatched last and into another one, and a deletion of that task leaves
    none. -/
def Follows : Option Handle → List Event → Option Handle → Prop
  | last, [], last' => last' = last
  | last, .switched outgoing incoming :: rest, last' =>
      outgoing = last ∧ outgoing ≠ some incoming ∧ Follows (some incoming) rest last'
  | last, .deleted task :: rest, last' =>
      Follows (if last = some task then none else last) rest last'

/-- Events lead where the second part of them leads, from where the first does. -/
theorem follows_append {a c : Option Handle} {l l' : List Event} :
    Follows a (l ++ l') c ↔ ∃ b, Follows a l b ∧ Follows b l' c := by
  induction l generalizing a with
  | nil =>
      constructor
      · intro h
        exact ⟨a, rfl, h⟩
      · rintro ⟨b, rfl, h⟩
        exact h
  | cons e rest ih =>
      cases e with
      | switched outgoing incoming =>
          constructor
          · rintro ⟨hout, hne, hrest⟩
            obtain ⟨b, hb, hc⟩ := ih.mp hrest
            exact ⟨b, ⟨hout, hne, hb⟩, hc⟩
          · rintro ⟨b, ⟨hout, hne, hb⟩, hc⟩
            exact ⟨hout, hne, ih.mpr ⟨b, hb, hc⟩⟩
      | deleted task => exact ih

/-- Without a switch, no task is dispatched where none was. -/
theorem follows_none {last : Option Handle} {l : List Event}
    (still : ∀ f t, .switched f t ∉ l) (follows : Follows none l last) : last = none := by
  induction l with
  | nil => exact follows
  | cons e rest ih =>
      cases e with
      | switched f t => exact absurd List.mem_cons_self (still f t)
      | deleted task => exact ih (fun f t ht => still f t (List.mem_cons_of_mem _ ht)) follows

/-- Without a switch, the task dispatched last stays so until it is deleted. -/
theorem follows_some {last : Option Handle} {task : Handle} {l : List Event}
    (still : ∀ f t, .switched f t ∉ l) (follows : Follows (some task) l last) :
    last = if .deleted task ∈ l then none else some task := by
  induction l with
  | nil => exact follows
  | cons e rest ih =>
      have hrest : ∀ f t, .switched f t ∉ rest :=
        fun f t ht => still f t (List.mem_cons_of_mem _ ht)
      cases e with
      | switched f t => exact absurd List.mem_cons_self (still f t)
      | deleted gone =>
          by_cases hgone : gone = task
          · subst hgone
            rw [if_pos List.mem_cons_self]
            simp only [Follows, if_true] at follows
            exact follows_none hrest follows
          · have hne : some task ≠ some gone := fun heq => hgone (Option.some.inj heq).symm
            simp only [Follows, if_neg hne] at follows
            rw [ih hrest follows]
            simp [Ne.symm hgone]

/-- The switches among the events form one chain, up to the task dispatched last. -/
structure Unbroken (events : List Event) (last : Option Handle) : Prop where
  /-- A switch goes out of the task that the switch before it came into, or out of
      none if that task has been deleted in between. -/
  linked : ∀ {before between after f t f' t'},
    events = before ++ .switched f t :: (between ++ .switched f' t' :: after) →
    (∀ g u, .switched g u ∉ between) → f' = if .deleted t ∈ between then none else some t
  /-- No switch goes out of a task and into the same. -/
  proper : ∀ {f t}, .switched f t ∈ events → f ≠ some t
  /-- The task dispatched last is the one that the last switch came into, or none if
      it has been deleted since. -/
  ends : ∀ {before since f t}, events = before ++ .switched f t :: since →
    (∀ g u, .switched g u ∉ since) → last = if .deleted t ∈ since then none else some t

/-- Events that follow a task dispatched last are unbroken. -/
theorem Follows.unbroken {a last : Option Handle} {events : List Event}
    (follows : Follows a events last) : Unbroken events last := by
  refine ⟨?linked, ?proper, ?ends⟩
  case linked =>
    intro before between after f t f' t' heq still
    rw [heq, follows_append] at follows
    obtain ⟨b, -, -, -, hafter⟩ := follows
    obtain ⟨c, hbetween, hout, -⟩ := follows_append.mp hafter
    rw [hout]
    exact follows_some still hbetween
  case proper =>
    intro f t hmem
    obtain ⟨before, after, rfl⟩ := List.append_of_mem hmem
    obtain ⟨b, -, -, hne, -⟩ := follows_append.mp follows
    exact hne
  case ends =>
    intro before since f t heq still
    rw [heq, follows_append] at follows
    obtain ⟨b, -, -, -, hsince⟩ := follows
    exact follows_some still hsince

namespace Routine

variable {α β : Type}

/-! ## Handing on -/

/-- Between two machines nothing happens, and the task dispatched last stays so. -/
def Same (m n : Machine Kernel) : Prop :=
  n.platform.events = m.platform.events ∧ n.state.current = m.state.current

/-- The events between two machines lead from the task dispatched last to the task
    dispatched last, and these tasks are deleted meanwhile. -/
def Hands (gone : List Handle) (m n : Machine Kernel) : Prop :=
  ∃ events, n.platform.events = m.platform.events ++ events
    ∧ Follows m.state.current events n.state.current ∧ events.filterMap Event.gone? = gone

theorem same_refl (m : Machine Kernel) : Same m m :=
  ⟨rfl, rfl⟩

theorem Same.trans {m n k : Machine Kernel} (first : Same m n) (second : Same n k) : Same m k :=
  ⟨second.1.trans first.1, second.2.trans first.2⟩

theorem Same.hands {m n : Machine Kernel} (same : Same m n) : Hands [] m n :=
  ⟨[], by rw [same.1, List.append_nil], same.2, rfl⟩

theorem Hands.trans {gone gone' : List Handle} {m n k : Machine Kernel} (first : Hands gone m n)
    (second : Hands gone' n k) : Hands (gone ++ gone') m k := by
  obtain ⟨l, hevents, hfollows, hgone⟩ := first
  obtain ⟨l', hevents', hfollows', hgone'⟩ := second
  refine ⟨l ++ l', ?_, follows_append.mpr ⟨_, hfollows, hfollows'⟩, ?_⟩
  · rw [hevents', hevents, List.append_assoc]
  · rw [List.filterMap_append, hgone, hgone']

/-- Holding off interrupts meanwhile is no event. -/
theorem same_masked {m n : Machine Kernel} {saved : Bool}
    (same : Same { m with platform := m.platform.mask } n) :
    Same m { n with platform := n.platform.restore saved } :=
  ⟨(n.platform.events_restore saved).trans (same.1.trans m.platform.events_mask), same.2⟩

/-- Nothing happens, and the task dispatched last stays so. -/
abbrev Silent (r : Routine Kernel α) : Prop := Always Same r

/-- The switches lead on from the task dispatched last, and no task is deleted. -/
abbrev Passes (r : Routine Kernel α) : Prop := Always (Hands []) r

theorem Silent.passes {r : Routine Kernel α} (silent : Silent r) : Passes r :=
  silent.mono Same.hands

theorem passes_bind {r : Routine Kernel β} {f : β → Routine Kernel α} (h : Passes r)
    (hf : ∀ b, Passes (f b)) : Passes (r >>= f) :=
  always_bind h hf Hands.trans

/-! ### Silent routines -/

theorem silent_pure (a : α) : Silent (pure a) :=
  fun m => same_refl m

theorem silent_read : Silent read :=
  fun m => same_refl m

theorem silent_refuse (cause : Refusal) : Silent (refuse cause : Routine Kernel α) :=
  fun m => same_refl m

theorem silent_look (f : Kernel → Except Failure α) : Silent (look f) :=
  always_look same_refl f

/-- A record that is not of a deletion is no event. -/
theorem silent_log {r : Record} (still : (Effect.log r).event? = none) : Silent (log r) := by
  intro m
  refine ⟨?_, rfl⟩
  have hnote := m.platform.events_note (.log r)
  rwa [still, Option.toList_none, List.append_nil] at hnote

theorem silent_update {f : Kernel → Kernel} (current : ∀ k, (f k).current = k.current) :
    Silent (update f) :=
  fun m => ⟨rfl, current m.state⟩

/-- A change of the state that leaves the task dispatched last. -/
def Steady (f : Kernel → Except Failure Kernel) : Prop :=
  ∀ {k k'}, f k = .ok k' → k'.current = k.current

theorem silent_apply {f : Kernel → Except Failure Kernel} (steady : Steady f) :
    Silent (apply f) :=
  always_apply same_refl fun done => ⟨rfl, steady done⟩

theorem silent_applyGet {f : Kernel → Except Failure (α × Kernel)}
    (steady : ∀ {k r}, f k = .ok r → r.2.current = k.current) : Silent (applyGet f) :=
  always_applyGet same_refl fun done => ⟨rfl, steady done⟩

theorem silent_bind {r : Routine Kernel β} {f : β → Routine Kernel α} (h : Silent r)
    (hf : ∀ b, Silent (f b)) : Silent (r >>= f) :=
  always_bind h hf Same.trans

/-- A silent part that is done first if a condition holds. -/
theorem silent_first {c : Prop} [Decidable c] {r : Routine Kernel Unit}
    {f : Unit → Routine Kernel α} (h : Silent r) (hf : ∀ u, Silent (f u)) :
    Silent (if c then r >>= f else f ()) :=
  always_ite (silent_bind h hf) (hf ())

theorem silent_masked {body : Routine Kernel α} (h : Silent body) : Silent (masked body) :=
  always_masked same_masked h

end Routine

open Routine

namespace Kernel

/-! ## Changes that leave the task dispatched last -/

/-- What holds of all that can be written once something is looked up holds of what
    is written. -/
theorem of_bind_done {β γ : Type} {x : Except Failure β} {f : β → Except Failure γ} {c : γ}
    (P : γ → Prop) (done : (x >>= f) = .ok c) (rest : ∀ b c', f b = .ok c' → P c') : P c := by
  cases hx : x with
  | ok b =>
      rw [hx] at done
      exact rest b c done
  | error e =>
      rw [hx] at done
      cases done

theorem steady_setAside (h : Handle) : Steady fun k => k.setAside h :=
  fun done => of_bind_done (·.current = _) done fun _ _ heq => Except.ok.inj heq ▸ rfl

theorem steady_holdForever (h : Handle) : Steady fun k => k.holdForever h :=
  fun done => of_bind_done (·.current = _) done fun _ _ heq => Except.ok.inj heq ▸ rfl

theorem steady_holdFor (h : Handle) (ticks : Tick) : Steady fun k => k.holdFor h ticks :=
  fun done => of_bind_done (·.current = _) done fun _ _ heq => Except.ok.inj heq ▸ rfl

theorem steady_enqueue (side : Side) (h : Handle) : Steady fun k => k.enqueue side h :=
  fun done => of_bind_done (·.current = _) done fun _ _ heq => Except.ok.inj heq ▸ rfl

theorem steady_updateTask (h : Handle) (f : Task → Task) : Steady fun k => k.updateTask h f :=
  fun done => of_bind_done (·.current = _) done fun _ _ heq => Except.ok.inj heq ▸ rfl

theorem steady_release (h : Handle) : Steady fun k => k.release h := by
  intro k k' done
  simp only [release] at done
  by_cases hopen : k.freeze.isOff = true
  · rw [if_pos hopen] at done
    exact steady_enqueue .back h done
  · rw [if_neg hopen] at done
    refine of_bind_done (·.current = k.current) done ?_
    intro r k₁ heq
    rw [← Except.ok.inj heq]

theorem steady_withdraw (h : Handle) : Steady fun k => k.withdraw h := by
  intro k k' done
  refine of_bind_done (·.current = _) done ?_
  intro task k₁ done
  cases hplace : task.place with
  | unlinked =>
      rw [hplace] at done
      rw [← Except.ok.inj done]
  | _ =>
      simp only [hplace] at done
      refine of_bind_done (·.current = k.current) done ?_
      intro r k₂ heq
      rw [← Except.ok.inj heq]

theorem current_wantSwitchIf (k : Kernel) (wanted : Bool) :
    (k.wantSwitchIf wanted).current = k.current := by
  cases wanted <;> rfl

/-! ## Silent routines -/

theorem silent_enroll (spec : TaskSpec) (flags : Flags) : Silent (enroll spec flags) := by
  have henter : Silent (applyGet fun k : Kernel => do
      let r ← k.table.enter spec flags
      return (r.1, { k with table := r.2 })) :=
    silent_applyGet fun done => of_bind_done (·.2.current = _) done
      fun _ _ heq => Except.ok.inj heq ▸ rfl
  refine silent_masked (silent_bind henter fun h => always_ite ?_ ?_)
  · refine silent_bind (silent_apply (steady_setAside h)) fun _ => ?_
    exact silent_bind (silent_log rfl) fun _ => silent_pure _
  · refine silent_bind (silent_apply (steady_release h)) fun _ => ?_
    refine silent_bind (silent_update fun k => current_wantSwitchIf k _) fun _ => ?_
    exact silent_bind (silent_log rfl) fun _ => silent_pure _

theorem silent_shelve (h : Handle) : Silent (shelve h) := by
  refine silent_masked (silent_bind (silent_look _) fun task => always_ite (silent_refuse _) ?_)
  refine always_ite (silent_pure _) (silent_bind (silent_look _) fun _ => ?_)
  refine silent_bind (silent_apply (steady_withdraw h)) fun _ => ?_
  refine silent_bind (silent_apply (steady_setAside h)) fun _ => ?_
  exact silent_bind (silent_log rfl) fun _ => silent_pure _

theorem silent_resume (h : Handle) : Silent (resume h) := by
  refine silent_masked (silent_bind (silent_look _) fun task => always_ite ?_ (silent_pure _))
  refine silent_bind (silent_apply (steady_withdraw h)) fun _ => ?_
  refine silent_bind (silent_apply (steady_release h)) fun _ => ?_
  refine silent_bind (silent_log rfl) fun _ => ?_
  refine silent_bind silent_read fun k => ?_
  exact silent_bind (silent_update fun k => current_wantSwitchIf k _) fun _ => silent_pure _

theorem silent_reprioritise (h : Handle) (priority : Nat) : Silent (reprioritise h priority) := by
  refine silent_bind silent_read fun k => always_ite (silent_refuse _) (silent_masked ?_)
  refine silent_bind (silent_look _) fun task => always_ite (silent_pure _) ?_
  refine silent_first (silent_apply (steady_withdraw h)) fun _ => ?_
  refine silent_bind (silent_apply (steady_updateTask h _)) fun _ => ?_
  refine silent_first (silent_apply (steady_enqueue .back h)) fun _ => ?_
  refine silent_bind (silent_log rfl) fun _ => silent_bind silent_read fun k => ?_
  exact silent_bind (silent_update fun k => current_wantSwitchIf k _) fun _ => silent_pure _

theorem silent_block (h : Handle) (ticks : Tick) : Silent (block h ticks) := by
  refine silent_masked (silent_bind (silent_look _) fun task => always_ite (silent_refuse _) ?_)
  refine silent_bind (silent_look _) fun _ => always_ite (silent_pure _) ?_
  refine silent_bind (silent_apply (steady_withdraw h)) fun _ => ?_
  refine silent_bind (silent_apply (steady_updateTask h _)) fun _ => always_ite ?_ ?_
  · refine silent_bind (silent_apply (steady_holdForever h)) fun _ => ?_
    refine silent_bind (silent_log rfl) fun _ => ?_
    exact silent_update fun k => current_wantSwitchIf k _
  · refine silent_bind (silent_apply (steady_holdFor h ticks)) fun _ => ?_
    refine silent_bind silent_read fun k => silent_bind (silent_log rfl) fun _ => ?_
    exact silent_update fun k => current_wantSwitchIf k _

theorem silent_endWait (h : Handle) (early : Bool) : Silent (endWait h early) := by
  refine silent_masked (silent_bind (silent_look _) fun task => always_ite ?_ (silent_refuse _))
  refine silent_bind (silent_apply (steady_withdraw h)) fun _ => ?_
  refine silent_bind (silent_apply (steady_updateTask h _)) fun _ => ?_
  refine silent_bind (silent_apply (steady_release h)) fun _ => silent_bind silent_read fun k => ?_
  refine silent_bind (silent_update fun k => current_wantSwitchIf k _) fun _ => ?_
  exact silent_bind (silent_log rfl) fun _ => silent_pure _

theorem silent_wakeDue (h : Handle) : Silent (wakeDue h) := by
  have hmark : ∀ k : Kernel, (k.markTimedOut h).current = k.current := by
    intro k
    simp only [markTimedOut]
    cases k.table.get? h <;> rfl
  refine silent_bind (silent_update hmark) fun _ => ?_
  refine silent_bind (always_attempt (silent_apply (steady_release h))) ?_
  rintro (cause | ⟨⟩)
  · exact silent_bind silent_read fun k => silent_log rfl
  · exact silent_pure ()

theorem silent_wakeAllDue (l : List Handle) : Silent (wakeAllDue l) := by
  induction l with
  | nil => exact silent_pure ()
  | cons h rest ih => exact silent_bind (silent_wakeDue h) fun _ => ih

theorem current_answerTick (k : Kernel) : k.answerTick.2.current = k.current := by
  have hslice : ∀ p, (k.chargeSlice p).2.current = k.current := by
    intro p
    simp only [chargeSlice]
    split
    · split
      · rfl
      · split <;> rfl
    · rfl
  have hjudge : k.judge.2.current = k.current := by
    simp only [judge]
    cases k.runnerPriority with
    | none => rfl
    | some p => exact hslice p
  simp only [answerTick]
  split
  · exact hjudge
  · exact (current_wantSwitchIf _ _).trans hjudge

theorem silent_tick : Silent tick := by
  have hcharge : ∀ k : Kernel, k.chargeRunner.current = k.current := by
    intro k
    simp only [chargeRunner]
    split
    · rfl
    · split <;> rfl
  have hwrap : Silent wrapClock := by
    refine silent_bind (silent_apply ?_) fun _ => ?_
    · exact fun done => of_bind_done (·.current = _) done fun _ _ heq => Except.ok.inj heq ▸ rfl
    · exact silent_bind (silent_update fun _ => rfl) fun _ => silent_log rfl
  refine silent_bind (silent_update hcharge) fun _ => ?_
  refine silent_bind (silent_update fun _ => rfl) fun _ => ?_
  refine silent_bind silent_read fun k => silent_first hwrap fun _ => ?_
  refine silent_bind (silent_applyGet ?_) fun due => ?_
  · exact fun done => of_bind_done (·.2.current = _) done fun _ _ heq => Except.ok.inj heq ▸ rfl
  refine silent_bind (silent_wakeAllDue due) fun _ => ?_
  have hanswer : Silent (applyGet fun k : Kernel => .ok k.answerTick) :=
    silent_applyGet fun done => Except.ok.inj done ▸ current_answerTick _
  refine always_ite (silent_bind silent_read fun k => ?_) hanswer
  exact silent_bind (silent_log rfl) fun _ => hanswer

theorem silent_elapseFrom (asked : Bool) (n : Nat) : Silent (elapseFrom asked n) := by
  induction n generalizing asked with
  | zero => exact silent_pure asked
  | succ n ih => exact silent_bind silent_tick fun now => ih (asked || now)

theorem silent_freezeAll : Silent freezeAll :=
  silent_bind (silent_update fun _ => rfl) fun _ => silent_bind silent_read fun _ => silent_log rfl

theorem silent_callIn (running : Option Nat) (wanted : Bool) (l : List Handle) :
    Silent (callIn running wanted l) := by
  induction l generalizing wanted with
  | nil => exact silent_pure wanted
  | cons h rest ih =>
      refine silent_bind (always_attempt (silent_apply (steady_enqueue .back h))) ?_
      rintro (cause | ⟨⟩)
      · exact silent_bind (silent_log rfl) fun _ => ih wanted
      · exact silent_bind silent_read fun k => ih _

theorem silent_thawAll : Silent thawAll := by
  refine silent_masked (silent_bind (always_attempt (silent_apply ?_)) ?_)
  · exact fun done => of_bind_done (·.current = _) done fun _ _ heq => Except.ok.inj heq ▸ rfl
  rintro (cause | ⟨⟩)
  · exact silent_bind (silent_log rfl) fun _ => silent_pure _
  · refine silent_bind silent_read fun k => always_ite ?_ (silent_pure _)
    refine silent_bind (silent_applyGet ?_) fun taken => ?_
    · exact fun done => of_bind_done (·.2.current = _) done fun _ _ heq => Except.ok.inj heq ▸ rfl
    refine silent_bind (silent_callIn _ _ taken) fun wanted => ?_
    refine silent_bind (silent_log rfl) fun _ => ?_
    exact silent_bind (silent_update fun _ => rfl) fun _ => silent_pure _

theorem silent_checkWait (since : Moment) (remaining : Tick) :
    Silent (checkWait since remaining) := by
  have htake : ∀ k : Kernel, k.takeCutShort.2.current = k.current := by
    intro k
    simp only [takeCutShort]
    split
    · rfl
    · split
      · rfl
      · split <;> rfl
  refine silent_bind (silent_applyGet fun done => Except.ok.inj done ▸ htake _) fun cut => ?_
  exact always_ite (silent_pure _) (silent_bind silent_read fun k => silent_pure _)

theorem silent_needRunner : Silent needRunner :=
  silent_look _

/-! ## Choices and switches -/

section Doing

variable {α β : Type} {D : α → Machine Kernel → Machine Kernel → Prop} {m : Machine Kernel}

/-- What a routine that is done has done depends on the events and the task dispatched
    last alone. -/
def Absorbs (D : α → Machine Kernel → Machine Kernel → Prop) : Prop :=
  ∀ a m n k l, Same m n → D a n k → Same k l → D a m l

/-- A routine that is done has done something, and one that fails is silent. -/
def Does (D : α → Machine Kernel → Machine Kernel → Prop) (r : Routine Kernel α)
    (m : Machine Kernel) : Prop :=
  Ends r (fun a n => D a m n) (fun _ n => Same m n) m

theorem does_after (absorbs : Absorbs D) {r : Routine Kernel β} {f : β → Routine Kernel α}
    (silent : Silent r) (rest : ∀ b n, Same m n → Does D (f b) n) : Does D (r >>= f) m := by
  refine ends_after silent ?_ (fun _ _ same => same)
  intro b n same
  have hn := rest b n same
  simp only [Does, Ends] at hn ⊢
  cases hr : f b n with
  | ok a k =>
      rw [hr] at hn
      exact absorbs _ _ _ _ _ same hn (same_refl k)
  | error e k =>
      rw [hr] at hn
      exact same.trans hn

theorem does_ite {c : Prop} [Decidable c] {r r' : Routine Kernel α} (h : Does D r m)
    (h' : Does D r' m) : Does D (if c then r else r') m :=
  iteInduction (motive := fun r => Does D r m) (fun _ => h) fun _ => h'

theorem does_refuse (cause : Refusal) : Does D (refuse cause) m :=
  same_refl m

theorem does_masked (absorbs : Absorbs D) {body : Routine Kernel α}
    (h : ∀ n, Same m n → Does D body n) : Does D (masked body) m := by
  have hmask : Same m { m with platform := m.platform.mask } := ⟨m.platform.events_mask, rfl⟩
  have hbody := h _ hmask
  rw [Does, ends_masked]
  simp only [Does, Ends] at hbody ⊢
  cases hr : body { m with platform := m.platform.mask } with
  | ok a n =>
      rw [hr] at hbody
      exact absorbs _ _ _ _ _ hmask hbody ⟨n.platform.events_restore _, rfl⟩
  | error e n =>
      rw [hr] at hbody
      exact same_masked hbody

end Doing

/-- A choice that is made names the task dispatched last. -/
def Picked (next : Handle) (m n : Machine Kernel) : Prop :=
  n.platform.events = m.platform.events ∧ n.state.current = some next

theorem absorbs_picked : Absorbs Picked := by
  intro next m n k l before picked after
  exact ⟨after.1.trans (picked.1.trans before.1), after.2.trans picked.2⟩

/-- The task dispatched last is picked as it is. -/
theorem picks_pure {cur : Handle} {m : Machine Kernel} (current : m.state.current = some cur) :
    Does Picked (pure cur) m :=
  ⟨rfl, current⟩

theorem picks_dispatchHighest (m : Machine Kernel) : Does Picked dispatchHighest m := by
  have htake : Silent (applyGet fun k : Kernel => do
      let r ← k.ready.takeFirst k.table
      return (r.1, { k with ready := r.2.1, table := r.2.2 })) :=
    silent_applyGet fun done => of_bind_done (·.2.current = _) done
      fun _ _ heq => Except.ok.inj heq ▸ rfl
  refine does_after absorbs_picked htake ?_
  rintro (_ | next) n -
  · exact does_refuse _
  · refine does_after absorbs_picked (silent_apply (steady_updateTask next _)) fun _ k _ => ?_
    exact ⟨((silent_log (r := .dispatched next) rfl) k).1, rfl⟩

/-- The task that runs is the one dispatched last. -/
theorem current_of_runner {k : Kernel} {cur : Handle} (running : k.runner = some cur) :
    k.current = some cur := by
  simp only [runner] at running
  split at running
  · cases running
  · split at running
    · split at running
      · obtain rfl := Option.some.inj running
        assumption
      · cases running
    · cases running

/-- A choice names the task dispatched last: the one that runs, or the one that it has
    just dispatched. -/
theorem picks_choose (m : Machine Kernel) : Does Picked choose m := by
  refine does_masked absorbs_picked fun n _ => ?_
  show Does Picked (if n.state.freeze.isOff then _ else _) n
  refine does_ite ?_ ?_
  · refine does_after absorbs_picked (silent_update fun _ => rfl) fun _ n₁ same₁ => ?_
    cases hrunner : n.state.runner with
    | none => exact picks_dispatchHighest n₁
    | some cur =>
        have hcurrent : n₁.state.current = some cur := same₁.2.trans (current_of_runner hrunner)
        refine does_after absorbs_picked (silent_look _) fun task n₂ same₂ => ?_
        cases n.state.ready.topLevel with
        | none => exact picks_pure (same₂.2.trans hcurrent)
        | some top =>
            refine does_ite ?_ (does_ite ?_ (picks_pure (same₂.2.trans hcurrent)))
            · exact does_after absorbs_picked (silent_apply (steady_enqueue .front cur))
                fun _ n₃ _ => picks_dispatchHighest n₃
            · exact does_after absorbs_picked (silent_apply (steady_enqueue .back cur))
                fun _ n₃ _ => picks_dispatchHighest n₃
  · refine does_after absorbs_picked (silent_update fun _ => rfl) fun _ n₁ same₁ => ?_
    cases hrunner : n.state.runner with
    | none => exact does_refuse _
    | some cur => exact picks_pure (same₁.2.trans (current_of_runner hrunner))

/-- A switch that is planned goes out of the task dispatched last, and into the one that
    is dispatched last by now. -/
def Planned (plan : Option (Option Handle × Handle)) (m n : Machine Kernel) : Prop :=
  n.platform.events = m.platform.events ∧
    match plan with
    | none => n.state.current = m.state.current
    | some (outgoing, incoming) =>
        outgoing = m.state.current ∧ outgoing ≠ some incoming ∧ n.state.current = some incoming

theorem plans_planSwitch (m : Machine Kernel) : Does Planned planSwitch m := by
  show Ends (attempt choose >>= _) _ _ m
  rw [ends_bind, ends_attempt]
  have hpick := picks_choose m
  simp only [Does, Ends] at hpick ⊢
  cases hr : choose m with
  | ok incoming n =>
      rw [hr] at hpick
      obtain ⟨hevents, hcurrent⟩ := hpick
      by_cases hsame : some incoming = m.state.current
      · simp only [if_pos hsame]
        exact ⟨hevents, hcurrent.trans hsame⟩
      · simp only [if_neg hsame]
        exact ⟨hevents, rfl, Ne.symm hsame, hcurrent⟩
  | error e n =>
      rw [hr] at hpick
      have hpick : Same m n := hpick
      cases e with
      | fault what => exact hpick
      | refused cause =>
          have hstill : Same m ⟨n.state, n.platform.note (.log (.fatal cause))⟩ :=
            hpick.trans ((silent_log (r := .fatal cause) rfl) n)
          cases cause with
          | schedulerFrozen => exact hpick
          | _ => exact hstill

theorem passes_switch : Passes switch := by
  intro m
  rw [switch, ends_bind]
  have hplan := plans_planSwitch m
  simp only [Does, Ends] at hplan ⊢
  cases hr : planSwitch m with
  | error e n =>
      rw [hr] at hplan
      exact Same.hands hplan
  | ok plan n =>
      rw [hr] at hplan
      obtain ⟨hevents, hplan⟩ := hplan
      cases plan with
      | none => exact Same.hands ⟨hevents, hplan⟩
      | some plan =>
          obtain ⟨hout, hne, hcurrent⟩ := hplan
          refine ⟨[.switched plan.1 plan.2], ?_, ⟨hout, hne, hcurrent⟩, rfl⟩
          rw [← hevents]
          exact n.platform.events_note (.switch plan.1 plan.2)

theorem passes_cede : Passes cede :=
  passes_bind (Silent.passes (silent_update fun _ => rfl)) fun _ => passes_switch

theorem passes_replaceRunner : Passes replaceRunner := by
  refine passes_bind silent_read.passes fun k => always_ite ?_ ?_
  · exact passes_bind passes_switch fun _ => (silent_pure ()).passes
  · exact Silent.passes (silent_update fun _ => rfl)

theorem passes_suspend (h : Handle) : Passes (suspend h) :=
  passes_bind (silent_shelve h).passes fun _ =>
    always_ite passes_replaceRunner (silent_pure ()).passes

theorem passes_pause (ticks : Tick) : Passes (pause ticks) := by
  refine passes_bind silent_needRunner.passes fun cur => always_ite ?_ ?_
  · exact passes_bind passes_cede fun _ => (silent_pure ()).passes
  · refine passes_bind (silent_block cur ticks).passes fun _ => ?_
    exact passes_bind passes_switch fun _ => (silent_pure ()).passes

theorem passes_pausePeriod (anchor period : Tick) : Passes (pausePeriod anchor period) := by
  refine passes_bind silent_needRunner.passes fun cur => passes_bind silent_read.passes fun k => ?_
  refine always_ite ?_ ?_
  · refine passes_bind (silent_block cur _).passes fun _ => ?_
    exact passes_bind passes_switch fun _ => (silent_pure _).passes
  · exact passes_bind passes_cede fun _ => (silent_pure _).passes

/-! ## Deletions -/

/-- A task is deleted, and no other event happens. -/
def Deleted (h : Handle) (_ : Bool) (m n : Machine Kernel) : Prop :=
  Hands [h] m n

theorem absorbs_deleted (h : Handle) : Absorbs (Deleted h) := by
  intro was m n k l before deleted after
  exact (before.hands.trans deleted).trans after.hands

/-- A task that is retired is deleted, and it is dispatched last no more. -/
theorem deletes_remove (h : Handle) (m : Machine Kernel) : Does (Deleted h) (remove h) m := by
  have habsorbs := absorbs_deleted h
  have hretire : Silent (applyGet fun k : Kernel => do
      let r ← k.table.retire h
      return (r.1, { k with table := r.2 })) :=
    silent_applyGet fun done => of_bind_done (·.2.current = _) done
      fun _ _ heq => Except.ok.inj heq ▸ rfl
  refine does_masked habsorbs fun n _ => does_after habsorbs (silent_look _) fun task n₁ _ => ?_
  refine does_ite (does_refuse _) (does_after habsorbs (silent_look _) fun _ n₂ _ => ?_)
  refine does_after habsorbs (silent_apply (steady_withdraw h)) fun _ n₃ _ => ?_
  refine does_after habsorbs hretire fun task n₄ _ => ?_
  have hevents := n₄.platform.events_note (.log (.deleted task.name h))
  show Ends (if n₄.state.current = some h then _ else _) _ _
    (⟨n₄.state, n₄.platform.note (.log (.deleted task.name h))⟩ : Machine Kernel)
  by_cases hcurrent : n₄.state.current = some h
  · rw [if_pos hcurrent]
    refine ⟨[.deleted h], hevents, ?_, rfl⟩
    simp only [Follows, if_pos hcurrent]
  · rw [if_neg hcurrent]
    refine ⟨[.deleted h], hevents, ?_, rfl⟩
    simp only [Follows, if_neg hcurrent]

/-! ## Calls -/

/-- The task that a call has deleted, by its answer. -/
def deleted? : Call × Except Refusal Reply → Option Handle
  | (.delete h, .ok _) => some h
  | _ => none

/-- A deletion that is done is the end of the task, and a switch follows perhaps; one
    that is refused is no event. -/
theorem hands_delete {h : Handle} {m n : Machine Kernel} {r : Except Refusal Reply}
    (ran : attempt (Call.delete h).run m = .ok r n) :
    Hands (deleted? (.delete h, r)).toList m n := by
  have hremove := deletes_remove h m
  simp only [Does, Ends] at hremove
  rcases of_attempt_ok ran with ⟨a, rfl, hrun⟩ | ⟨cause, rfl, hrun⟩
  · obtain ⟨u, n₁, hdelete, hpure⟩ := of_bind_ok hrun
    obtain ⟨-, rfl⟩ := EStateM.Result.ok.inj hpure
    obtain ⟨was, z, hretired, hrest⟩ := of_bind_ok hdelete
    have hpasses : Passes (if was = true then replaceRunner else pure ()) :=
      always_ite passes_replaceRunner (silent_pure ()).passes
    rw [hretired] at hremove
    exact Hands.trans hremove (hpasses.ok hrest)
  · rcases of_bind_error hrun with hdelete | ⟨u, z, hdeleted, hpure⟩
    · rcases of_bind_error hdelete with hrefused | ⟨was, z, hretired, hrest⟩
      · rw [hrefused] at hremove
        exact Same.hands hremove
      · -- once the task is retired, nothing is refused any more
        have hfirm : Firm (if was = true then replaceRunner else pure ()) :=
          firm_ite firm_replaceRunner (firm_pure ())
        obtain ⟨what, hwhat⟩ := (hfirm z.state).error hrest
        cases hwhat
    · cases hpure

/-- Telling the answer of a routine is no event. -/
theorem passes_answer {α β : Type} {r : Routine Kernel β} (passes : Passes r) (f : β → α) :
    Passes (r >>= fun b => pure (f b)) :=
  passes_bind passes fun b => (silent_pure (f b)).passes

/-- The switches that a call makes lead on from the task dispatched last, once the
    scheduler has an idle task.  A choice alone makes none. -/
theorem hands_call {c : Call} {m n : Machine Kernel} {r : Except Refusal Reply}
    (idle : m.state.idle.isSome = true) (switching : c ≠ .choose ∧ c ≠ .planSwitch)
    (ran : attempt c.run m = .ok r n) : Hands (deleted? (c, r)).toList m n := by
  have hpassed : deleted? (c, r) = none → Passes c.run → Hands (deleted? (c, r)).toList m n := by
    intro hnone hpasses
    rw [hnone]
    exact (always_attempt hpasses).ok ran
  cases c with
  | delete h => exact hands_delete ran
  | start entry =>
      rcases of_attempt_ok ran with ⟨a, rfl, hrun⟩ | ⟨cause, rfl, hrun⟩
      · obtain ⟨first, z, hstart, -⟩ := of_bind_ok hrun
        -- with an idle task the scheduler has begun, so to start it again is refused
        rw [start_refused idle] at hstart
        cases hstart
      · rcases of_bind_error hrun with hstart | ⟨first, z, -, hpure⟩
        · rw [start_refused idle] at hstart
          obtain ⟨-, rfl⟩ := EStateM.Result.error.inj hstart
          exact (same_refl m).hands
        · cases hpure
  | choose => exact absurd rfl switching.1
  | planSwitch => exact absurd rfl switching.2
  | create spec => exact hpassed rfl (passes_answer (silent_enroll spec {}).passes _)
  | suspend h => exact hpassed rfl (passes_answer (passes_suspend h) _)
  | resume h => exact hpassed rfl (passes_answer (silent_resume h).passes _)
  | reprioritise h p => exact hpassed rfl (passes_answer (silent_reprioritise h p).passes _)
  | saveContext h context =>
      exact hpassed rfl (passes_answer (Silent.passes (silent_apply (steady_updateTask h _))) _)
  | block h ticks => exact hpassed rfl (passes_answer (silent_block h ticks).passes _)
  | pause ticks => exact hpassed rfl (passes_answer (passes_pause ticks) _)
  | pausePeriod anchor period =>
      exact hpassed rfl (passes_answer (passes_pausePeriod anchor period) _)
  | wake h => exact hpassed rfl (passes_answer (silent_endWait h false).passes _)
  | cutShort h => exact hpassed rfl (passes_answer (silent_endWait h true).passes _)
  | tick => exact hpassed rfl (passes_answer silent_tick.passes _)
  | elapse ticks => exact hpassed rfl (passes_answer (silent_elapseFrom false ticks.toNat).passes _)
  | freezeAll => exact hpassed rfl (passes_answer silent_freezeAll.passes _)
  | thawAll => exact hpassed rfl (passes_answer silent_thawAll.passes _)
  | switch => exact hpassed rfl (passes_answer passes_switch _)
  | cede => exact hpassed rfl (passes_answer passes_cede _)
  | checkWait since remaining =>
      exact hpassed rfl (passes_answer (silent_checkWait since remaining).passes _)

/-! ## Runs -/

/-- The tasks that a history has deleted, by its answers. -/
def deletions (calls : List Call) (rs : List (Except Refusal Reply)) : List Handle :=
  (calls.zip rs).filterMap deleted?

/-- The switches of a history lead on from the task dispatched last, once there is an
    idle task. -/
theorem Intact.hands_perform {k : Kernel} (intact : k.Intact) (sound : k.outline.Sound)
    {idle : Handle} (watched : k.outline.Watched (some idle)) {calls : List Call} {p : Platform}
    {rs : List (Except Refusal Reply)} {m : Machine Kernel}
    (switching : ∀ c ∈ calls, c ≠ .choose ∧ c ≠ .planSwitch)
    (ran : perform calls ⟨k, p⟩ = .ok rs m) : Hands (deletions calls rs) ⟨k, p⟩ m := by
  induction calls generalizing k p rs with
  | nil =>
      obtain ⟨rfl, rfl⟩ := EStateM.Result.ok.inj ran
      exact (same_refl _).hands
  | cons c rest ih =>
      obtain ⟨r, z, hfirst, hrest⟩ := of_bind_ok ran
      obtain ⟨rs', z', hothers, hdone⟩ := of_bind_ok hrest
      obtain ⟨rfl, rfl⟩ := EStateM.Result.ok.inj hdone
      have hidle : k.idle.isSome = true := Option.isSome_of_eq_some (watched.known rfl)
      have hcall := hands_call hidle (switching c List.mem_cons_self) hfirst
      obtain ⟨hintact, hsound, hstep⟩ := intact.of_call sound hfirst
      have hkeeps := Step.keeps_attempt ((Outline.kept_watched (some idle)).run (c := c) trivial)
      have hwatched := (hkeeps.ok ⟨sound, watched⟩ hstep).2
      have hperform := ih hintact hsound hwatched
        (fun c' hc' => switching c' (List.mem_cons_of_mem c hc')) hothers
      have hdeletions : deletions (c :: rest) (r :: rs')
          = (deleted? (c, r)).toList ++ deletions rest rs' := by
        simp only [deletions, List.zip_cons_cons]
        cases hgone : deleted? (c, r) with
        | none => exact List.filterMap_cons_none hgone
        | some h => exact List.filterMap_cons_some hgone
      rw [hdeletions]
      exact hcall.trans hperform

/-- Making tasks is silent. -/
theorem silent_creates (specs : List TaskSpec) : Silent (perform (specs.map .create)) := by
  induction specs with
  | nil => exact silent_pure []
  | cons spec rest ih =>
      have hcreate : Silent (Call.create spec).run :=
        silent_bind (silent_enroll spec {}) fun _ => silent_pure _
      exact silent_bind (always_attempt hcreate) fun r => silent_bind ih fun rs => silent_pure _

/-- A start that is done makes one switch, out of none and into the first task. -/
theorem of_start_ok {entry : Nat} {first : Handle} {m n : Machine Kernel}
    (started : start entry m = .ok first n) :
    n.platform.events = m.platform.events ++ [.switched none first]
      ∧ n.state.current = some first := by
  obtain ⟨k, m₁, hread, hrest⟩ := of_bind_ok started
  obtain ⟨rfl, rfl⟩ := EStateM.Result.ok.inj hread
  by_cases hidle : m.state.idle.isSome = true
  · rw [if_pos hidle] at hrest
    cases hrest
  · rw [if_neg hidle] at hrest
    obtain ⟨idle, m₂, hmade, hrest⟩ := of_bind_ok hrest
    obtain ⟨u, m₃, hremember, hrest⟩ := of_bind_ok hrest
    obtain ⟨k, m₄, hread, hrest⟩ := of_bind_ok hrest
    obtain ⟨u', m₅, hlogged, hrest⟩ := of_bind_ok hrest
    obtain ⟨next, m₆, hchosen, hrest⟩ := of_bind_ok hrest
    obtain ⟨u'', m₇, hswitched, hpure⟩ := of_bind_ok hrest
    obtain ⟨rfl, rfl⟩ := EStateM.Result.ok.inj hread
    have hremembered : Same m₂ m₃ :=
      Always.ok (silent_update (f := fun k => { k with idle := some idle }) fun _ => rfl) hremember
    have hbefore : Same m m₅ :=
      ((silent_enroll _ _).ok hmade).trans (hremembered.trans ((silent_log rfl).ok hlogged))
    have hpicked := picks_choose m₅
    simp only [Does, Ends, hchosen] at hpicked
    obtain ⟨hevents, hcurrent⟩ := hpicked
    obtain ⟨-, rfl⟩ := EStateM.Result.ok.inj hswitched
    obtain ⟨rfl, rfl⟩ := EStateM.Result.ok.inj hpure
    refine ⟨?_, hcurrent⟩
    rw [← hbefore.1, ← hevents]
    exact m₆.platform.events_note (.switch none next)

/-- A start that is done has made the idle task, which stays remembered. -/
theorem Reachable.started {k : Kernel} (reachable : Reachable k) {entry : Nat} {first : Handle}
    {p : Platform} {m : Machine Kernel} (started : start entry ⟨k, p⟩ = .ok first m) :
    m.state.Intact ∧ m.state.outline.Sound
      ∧ ∃ idle, m.state.outline.Watched (some idle) := by
  obtain ⟨hintact, hsound⟩ := reachable.intact
  obtain ⟨hintact', hstep⟩ := (hintact.enacts_start hsound entry).ok started
  obtain ⟨u, o₁, hguard, hchosen⟩ := of_bind_ok hstep
  have hmade := Step.of_guarded_ok hguard
  have hsound₁ := hsound.enrollIdle hmade
  obtain ⟨-, idle, o₂, -, heq⟩ := Outline.of_enrollIdle_ok hmade
  have hwatched₁ : o₁.Watched (some idle) := by
    refine ⟨(reachable.watched.enrollIdle hmade).alert, fun hknown => ?_⟩
    rw [heq]
    exact hknown
  obtain ⟨hsound', hwatched'⟩ := Outline.keeps_watched_choose.ok ⟨hsound₁, hwatched₁⟩ hchosen
  exact ⟨hintact', hsound', idle, hwatched'⟩

/-- The switches form one unbroken chain.  Let any tasks be made, the scheduler be
    started, and any history of calls follow in which choices are left to those that
    make the switch.  The start makes the first switch, out of none and into the task
    that it answers; from then on each switch goes out of the task that the one before
    came into, unless that has been deleted in between, and the task dispatched last
    stays the one that the last switch came into.  The deletions are those that the
    history has answered. -/
theorem switches_unbroken {s : Settings} (valid : s.Valid) {p : Platform} {specs : List TaskSpec}
    {entry : Nat} {first : Handle} {calls : List Call} {made rs : List (Except Refusal Reply)}
    {m₀ m₁ m : Machine Kernel} (created : perform (specs.map .create) ⟨initial s, p⟩ = .ok made m₀)
    (started : start entry m₀ = .ok first m₁)
    (switching : ∀ c ∈ calls, c ≠ .choose ∧ c ≠ .planSwitch)
    (ran : perform calls m₁ = .ok rs m) :
    ∃ events, m.platform.events = p.events ++ .switched none first :: events
      ∧ events.filterMap Event.gone? = deletions calls rs
      ∧ Unbroken (.switched none first :: events) m.state.current := by
  have hinitial : Reachable (⟨initial s, p⟩ : Machine Kernel).state := .initial valid
  have hreachable : Reachable m₀.state := hinitial.perform created
  obtain ⟨hcreated, -⟩ := (silent_creates specs).ok created
  obtain ⟨hstarted, hcurrent⟩ := of_start_ok started
  obtain ⟨hintact, hsound, idle, hwatched⟩ := hreachable.started started
  obtain ⟨events, hevents, hfollows, hgone⟩ := hintact.hands_perform hsound hwatched switching ran
  refine ⟨events, ?_, hgone, ?_⟩
  · rw [hevents, hstarted, hcreated, List.append_assoc]
    rfl
  · have hchain : Follows none (.switched none first :: events) m.state.current := by
      refine ⟨rfl, Option.some_ne_none first |>.symm, ?_⟩
      rw [← hcurrent]
      exact hfollows
    exact hchain.unbroken

/-- A worker pauses, its helper runs and deletes itself, and when the pause is over the
    worker takes the processor back from the idle task. -/
theorem switches_unbroken_deletion :
    ∃ (m₀ m₁ m : Machine Kernel) (made rs : List (Except Refusal Reply)) (events : List Event),
      perform ([{ name := "worker", priority := 3 }, { name := "helper", priority := 2 }].map .create)
          ⟨initial {}, {}⟩ = .ok made m₀
        ∧ start 0 m₀ = .ok ⟨0, 0⟩ m₁
        ∧ perform [.pause 5, .delete ⟨1, 0⟩, .elapse 5, .switch] m₁ = .ok rs m
        ∧ events.filterMap Event.gone? = [⟨1, 0⟩] ∧ m.state.current = some ⟨0, 0⟩
        ∧ Unbroken (.switched none ⟨0, 0⟩ :: events) m.state.current := by
  have hvalid : ({} : Settings).Valid := by decide
  let specs : List TaskSpec := [{ name := "worker", priority := 3 }, { name := "helper", priority := 2 }]
  let calls : List Call := [.pause 5, .delete ⟨1, 0⟩, .elapse 5, .switch]
  have hdone : isDone (do
      let _ ← perform (specs.map .create)
      let first ← start 0
      let rs ← perform calls
      let k ← read
      if first = ⟨0, 0⟩ ∧ deletions calls rs = [⟨1, 0⟩] ∧ k.current = some ⟨0, 0⟩ then
        pure ()
      else
        refuse .invalidState) ⟨initial {}, {}⟩ = true := by
    decide +kernel
  obtain ⟨⟨⟩, n, hrun⟩ := of_isDone hdone
  obtain ⟨made, m₀, hcreated, hrun⟩ := of_bind_ok hrun
  obtain ⟨first, m₁, hstarted, hrun⟩ := of_bind_ok hrun
  obtain ⟨rs, m, hran, hrun⟩ := of_bind_ok hrun
  obtain ⟨k, m', hread, hrun⟩ := of_bind_ok hrun
  obtain ⟨rfl, rfl⟩ := EStateM.Result.ok.inj hread
  obtain ⟨⟨rfl, hdeletions, hcurrent⟩, -⟩ := of_unless_ok hrun
  obtain ⟨events, -, hgone, hunbroken⟩ :=
    switches_unbroken hvalid hcreated hstarted (by decide) hran
  exact ⟨m₀, m₁, m, made, rs, events, hcreated, hstarted, hran, hgone.trans hdeletions, hcurrent,
    hunbroken⟩

end Kernel

end PriorityScheduler
