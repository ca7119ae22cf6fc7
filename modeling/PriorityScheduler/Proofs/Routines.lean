import PriorityScheduler.Machine

/-! # Routines and what they lead to

    A routine is judged by what holds of its end: one condition on the value and
    the machine it leaves behind when it is done, another on the failure and the
    machine when it is not.  `Ends` states that of one machine.  `Always` states of
    every machine that the one left behind is related to it, however the routine
    ends.  `Leads` states what holds from one state on EVERY platform, and asks only
    about the state that is left: records, masks and switch requests then drop out,
    since none of them changes the state.

    The rules follow the pieces of which routines are built. -/

namespace PriorityScheduler

/-! ## Sequences -/

section Sequences

variable {ε ρ α β : Type} {r : EStateM ε ρ β} {f : β → EStateM ε ρ α} {x y : ρ}

/-- A sequence that is done has both its parts done. -/
theorem of_bind_ok {a : α} (done : (r >>= f) x = .ok a y) :
    ∃ b z, r x = .ok b z ∧ f b z = .ok a y := by
  have hdone : EStateM.bind r f x = .ok a y := done
  simp only [EStateM.bind] at hdone
  cases hr : r x with
  | ok b z =>
      rw [hr] at hdone
      exact ⟨b, z, rfl, hdone⟩
  | error e z =>
      rw [hr] at hdone
      cases hdone

/-- A sequence fails in its first part or in its second. -/
theorem of_bind_error {e : ε} (failed : (r >>= f) x = .error e y) :
    r x = .error e y ∨ ∃ b z, r x = .ok b z ∧ f b z = .error e y := by
  have hfailed : EStateM.bind r f x = .error e y := failed
  simp only [EStateM.bind] at hfailed
  cases hr : r x with
  | ok b z =>
      rw [hr] at hfailed
      exact Or.inr ⟨b, z, rfl, hfailed⟩
  | error e' z =>
      rw [hr] at hfailed
      obtain ⟨rfl, rfl⟩ := EStateM.Result.error.inj hfailed
      exact Or.inl rfl

end Sequences

namespace Routine

variable {σ α β : Type}

/-! ## Ends -/

/-- What holds of a routine's end on one machine. -/
def Ends (r : Routine σ α) (done : α → Machine σ → Prop) (failed : Failure → Machine σ → Prop)
    (m : Machine σ) : Prop :=
  match r m with
  | .ok a n => done a n
  | .error e n => failed e n

section Rules

variable {done : α → Machine σ → Prop} {failed : Failure → Machine σ → Prop} {m : Machine σ}

/-- A sequence ends as its second part does, from where the first part is done. -/
@[simp] theorem ends_bind (r : Routine σ β) (f : β → Routine σ α) :
    Ends (r >>= f) done failed m ↔ Ends r (fun b n => Ends (f b) done failed n) failed m := by
  simp only [Ends]
  show (match EStateM.bind r f m with | .ok a n => done a n | .error e n => failed e n) ↔ _
  simp only [EStateM.bind]
  cases r m <;> rfl

/-- A look-up that finds something leaves the machine as it is. -/
theorem ends_look_ok {f : σ → Except Failure α} {a : α} (h : f m.state = .ok a) :
    Ends (look f) done failed m ↔ done a m := by
  simp only [Ends, look]
  rw [h]

theorem ends_look_error {f : σ → Except Failure α} {e : Failure} (h : f m.state = .error e) :
    Ends (look f) done failed m ↔ failed e m := by
  simp only [Ends, look]
  rw [h]

theorem ends_apply_ok {done : Unit → Machine σ → Prop} {f : σ → Except Failure σ} {s : σ}
    (h : f m.state = .ok s) :
    Ends (apply f) done failed m ↔ done () { m with state := s } := by
  simp only [Ends, apply]
  rw [h]

theorem ends_apply_error {done : Unit → Machine σ → Prop} {f : σ → Except Failure σ}
    {e : Failure} (h : f m.state = .error e) :
    Ends (apply f) done failed m ↔ failed e m := by
  simp only [Ends, apply]
  rw [h]

theorem ends_applyGet_ok {f : σ → Except Failure (α × σ)} {a : α} {s : σ}
    (h : f m.state = .ok (a, s)) :
    Ends (applyGet f) done failed m ↔ done a { m with state := s } := by
  simp only [Ends, applyGet]
  rw [h]

theorem ends_applyGet_error {f : σ → Except Failure (α × σ)} {e : Failure}
    (h : f m.state = .error e) :
    Ends (applyGet f) done failed m ↔ failed e m := by
  simp only [Ends, applyGet]
  rw [h]

/-- A masked routine ends as its body does on the masked platform, apart from
    the platform that is put back. -/
@[simp] theorem ends_masked (body : Routine σ α) :
    Ends (masked body) done failed m
      ↔ Ends body
          (fun a n => done a { n with platform := n.platform.restore m.platform.maskAnswer })
          (fun e n => failed e { n with platform := n.platform.restore m.platform.maskAnswer })
          { m with platform := m.platform.mask } := by
  simp only [Ends, masked]
  cases body { m with platform := m.platform.mask } <;> rfl

/-- An attempt hands a refusal of its body back as a value. -/
@[simp] theorem ends_attempt (body : Routine σ α) {done : Except Refusal α → Machine σ → Prop} :
    Ends (attempt body) done failed m
      ↔ Ends body (fun a n => done (.ok a) n)
          (fun e n => match e with
            | .refused cause => done (.error cause) n
            | .fault what => failed (.fault what) n) m := by
  simp only [Ends, attempt]
  cases h : body m with
  | ok a n => rfl
  | error e n => cases e <;> rfl

end Rules

/-! ## However a routine ends -/

/-- However the routine ends, the machine that it leaves behind is related to the one that
    it began with. -/
def Always (R : Machine σ → Machine σ → Prop) (r : Routine σ α) : Prop :=
  ∀ m, Ends r (fun _ n => R m n) (fun _ n => R m n) m

section Rules

variable {R R' : Machine σ → Machine σ → Prop}

theorem Always.ok {r : Routine σ α} (always : Always R r) {m n : Machine σ} {a : α}
    (done : r m = .ok a n) : R m n := by
  have hm := always m
  simp only [Ends] at hm
  rwa [done] at hm

theorem Always.error {r : Routine σ α} (always : Always R r) {m n : Machine σ} {e : Failure}
    (failed : r m = .error e n) : R m n := by
  have hm := always m
  simp only [Ends] at hm
  rwa [failed] at hm

theorem always_iff {r : Routine σ α} :
    Always R r ↔ (∀ {m a n}, r m = .ok a n → R m n) ∧ ∀ {m e n}, r m = .error e n → R m n := by
  constructor
  · intro always
    exact ⟨always.ok, always.error⟩
  · rintro ⟨hok, herror⟩ m
    simp only [Ends]
    cases hr : r m with
    | ok a n => exact hok hr
    | error e n => exact herror hr

/-- What follows from the relation holds however the routine ends as well. -/
theorem Always.mono {r : Routine σ α} (always : Always R r)
    (weaker : ∀ {m n}, R m n → R' m n) : Always R' r :=
  always_iff.mpr ⟨fun done => weaker (always.ok done), fun failed => weaker (always.error failed)⟩

/-- A sequence ends as its second part does, from every end of the first. -/
theorem ends_after {r : Routine σ β} {f : β → Routine σ α} {done : α → Machine σ → Prop}
    {failed : Failure → Machine σ → Prop} {m : Machine σ} (first : Always R r)
    (second : ∀ b n, R m n → Ends (f b) done failed n) (stopped : ∀ e n, R m n → failed e n) :
    Ends (r >>= f) done failed m := by
  rw [ends_bind]
  simp only [Ends]
  cases hr : r m with
  | ok b n => exact second b n (first.ok hr)
  | error e n => exact stopped e n (first.error hr)

/-- A sequence relates what both of its parts do, if what is related in two steps is related
    in one. -/
theorem always_bind {r : Routine σ β} {f : β → Routine σ α} (h : Always R r)
    (hf : ∀ b, Always R (f b)) (trans : ∀ {l m n}, R l m → R m n → R l n) :
    Always R (r >>= f) := by
  refine always_iff.mpr ⟨?done, ?failed⟩
  case done =>
    intro m a n ran
    obtain ⟨b, z, hfirst, hrest⟩ := of_bind_ok ran
    exact trans (h.ok hfirst) ((hf b).ok hrest)
  case failed =>
    intro m e n ran
    rcases of_bind_error ran with hfirst | ⟨b, z, hfirst, hrest⟩
    · exact h.error hfirst
    · exact trans (h.ok hfirst) ((hf b).error hrest)

theorem always_ite {c : Prop} [Decidable c] {r r' : Routine σ α} (h : Always R r)
    (h' : Always R r') : Always R (if c then r else r') :=
  iteInduction (motive := fun r => Always R r) (fun _ => h) fun _ => h'

/-- A masked routine relates what its body does between the mask and its restore. -/
theorem always_masked {body : Routine σ α}
    (around : ∀ {m n}, R { m with platform := m.platform.mask } n →
      R' m { n with platform := n.platform.restore m.platform.maskAnswer })
    (h : Always R body) : Always R' (masked body) := by
  intro m
  rw [ends_masked]
  have hm := h { m with platform := m.platform.mask }
  simp only [Ends] at hm ⊢
  cases hb : body { m with platform := m.platform.mask } with
  | ok a n =>
      rw [hb] at hm
      exact around hm
  | error e n =>
      rw [hb] at hm
      exact around hm

theorem always_attempt {body : Routine σ α} (h : Always R body) : Always R (attempt body) := by
  intro m
  rw [ends_attempt]
  have hm := h m
  simp only [Ends] at hm ⊢
  cases hb : body m with
  | ok a n =>
      rw [hb] at hm
      exact hm
  | error e n =>
      rw [hb] at hm
      cases e with
      | refused cause => exact hm
      | fault what => exact hm

variable (refl : ∀ m, R m m)

include refl

theorem always_look (f : σ → Except Failure α) : Always R (look f) := by
  intro m
  cases hf : f m.state with
  | ok a => exact (ends_look_ok hf).mpr (refl m)
  | error e => exact (ends_look_error hf).mpr (refl m)

theorem always_apply {f : σ → Except Failure σ}
    (moves : ∀ {m s}, f m.state = .ok s → R m { m with state := s }) : Always R (apply f) := by
  intro m
  cases hf : f m.state with
  | ok s => exact (ends_apply_ok hf).mpr (moves hf)
  | error e => exact (ends_apply_error hf).mpr (refl m)

theorem always_applyGet {f : σ → Except Failure (α × σ)}
    (moves : ∀ {m a s}, f m.state = .ok (a, s) → R m { m with state := s }) :
    Always R (applyGet f) := by
  intro m
  cases hf : f m.state with
  | ok r => exact (ends_applyGet_ok hf).mpr (moves hf)
  | error e => exact (ends_applyGet_error hf).mpr (refl m)

end Rules

/-! ## Leads -/

/-- What holds of a routine's end from one state, on every platform. -/
def Leads (r : Routine σ α) (s : σ) (done : α → σ → Prop) (failed : Failure → σ → Prop) : Prop :=
  ∀ p : Platform, Ends r (fun a n => done a n.state) (fun e n => failed e n.state) ⟨s, p⟩

section Rules

variable {done : α → σ → Prop} {failed : Failure → σ → Prop} {s : σ}

/-- Weaker conditions on the end hold as well. -/
theorem Leads.mono {r : Routine σ α} {done' : α → σ → Prop} {failed' : Failure → σ → Prop}
    (h : Leads r s done failed) (hd : ∀ a s', done a s' → done' a s')
    (hf : ∀ e s', failed e s' → failed' e s') : Leads r s done' failed' := by
  intro p
  have hp := h p
  simp only [Ends] at hp ⊢
  cases hr : r ⟨s, p⟩ with
  | ok a n =>
      rw [hr] at hp
      exact hd a n.state hp
  | error e n =>
      rw [hr] at hp
      exact hf e n.state hp

/-- What a routine leads to holds of each of its ends. -/
theorem Leads.ok {r : Routine σ α} (h : Leads r s done failed) {p : Platform} {a : α}
    {m : Machine σ} (ran : r ⟨s, p⟩ = .ok a m) : done a m.state := by
  have hp := h p
  simp only [Ends] at hp
  rw [ran] at hp
  exact hp

theorem Leads.error {r : Routine σ α} (h : Leads r s done failed) {p : Platform} {e : Failure}
    {m : Machine σ} (ran : r ⟨s, p⟩ = .error e m) : failed e m.state := by
  have hp := h p
  simp only [Ends] at hp
  rw [ran] at hp
  exact hp

theorem leads_pure {a : α} (h : done a s) : Leads (pure a) s done failed :=
  fun _ => h

/-- Conditions that hold of everything hold of every end. -/
theorem leads_any (r : Routine σ α) (hd : ∀ a s', done a s') (hf : ∀ e s', failed e s') :
    Leads r s done failed := by
  intro p
  simp only [Ends]
  cases r ⟨s, p⟩ with
  | ok a n => exact hd a n.state
  | error e n => exact hf e n.state

/-- A sequence leads where its second part does from every end of the first. -/
theorem leads_bind {r : Routine σ β} {f : β → Routine σ α}
    (h : Leads r s (fun b s' => Leads (f b) s' done failed) failed) :
    Leads (r >>= f) s done failed := by
  intro p
  rw [ends_bind]
  have hp := h p
  simp only [Ends] at hp ⊢
  cases hr : r ⟨s, p⟩ with
  | ok b n =>
      rw [hr] at hp
      exact hp n.platform
  | error e n =>
      rw [hr] at hp
      exact hp

theorem leads_read {done : σ → σ → Prop} (h : done s s) : Leads read s done failed :=
  fun _ => h

theorem leads_update {done : Unit → σ → Prop} {f : σ → σ} (h : done () (f s)) :
    Leads (update f) s done failed :=
  fun _ => h

theorem leads_refuse {cause : Refusal} (h : failed (.refused cause) s) :
    Leads (refuse cause : Routine σ α) s done failed :=
  fun _ => h

theorem leads_stop {what : Fault} (h : failed (.fault what) s) :
    Leads (stop what : Routine σ α) s done failed :=
  fun _ => h

/-- A record changes no state. -/
theorem leads_log {done : Unit → σ → Prop} {r : Record} (h : done () s) :
    Leads (log r) s done failed :=
  fun _ => h

/-- A switch request changes no state. -/
theorem leads_switchTo {done : Unit → σ → Prop} {outgoing : Option Handle} {incoming : Handle}
    (h : done () s) : Leads (switchTo outgoing incoming) s done failed :=
  fun _ => h

/-- Holding off interrupts changes no state. -/
theorem leads_masked {body : Routine σ α} (h : Leads body s done failed) :
    Leads (masked body) s done failed := by
  intro p
  rw [ends_masked]
  exact h p.mask

theorem leads_attempt {body : Routine σ α} {done : Except Refusal α → σ → Prop}
    (h : Leads body s (fun a s' => done (.ok a) s')
      (fun e s' => match e with
        | .refused cause => done (.error cause) s'
        | .fault what => failed (.fault what) s')) :
    Leads (attempt body) s done failed := by
  intro p
  rw [ends_attempt]
  refine Eq.mp ?_ (h p)
  unfold Ends
  cases body ⟨s, p⟩ with
  | ok a n => rfl
  | error e n => cases e <;> rfl

theorem leads_look_ok {f : σ → Except Failure α} {a : α} (hf : f s = .ok a) (h : done a s) :
    Leads (look f) s done failed :=
  fun _ => (ends_look_ok hf).mpr h

theorem leads_look_error {f : σ → Except Failure α} {e : Failure} (hf : f s = .error e)
    (h : failed e s) : Leads (look f) s done failed :=
  fun _ => (ends_look_error hf).mpr h

theorem leads_apply_ok {done : Unit → σ → Prop} {f : σ → Except Failure σ} {s' : σ}
    (hf : f s = .ok s') (h : done () s') : Leads (apply f) s done failed :=
  fun _ => (ends_apply_ok hf).mpr h

theorem leads_apply_error {done : Unit → σ → Prop} {f : σ → Except Failure σ} {e : Failure}
    (hf : f s = .error e) (h : failed e s) : Leads (apply f) s done failed :=
  fun _ => (ends_apply_error hf).mpr h

theorem leads_applyGet_ok {f : σ → Except Failure (α × σ)} {a : α} {s' : σ}
    (hf : f s = .ok (a, s')) (h : done a s') : Leads (applyGet f) s done failed :=
  fun _ => (ends_applyGet_ok hf).mpr h

theorem leads_applyGet_error {f : σ → Except Failure (α × σ)} {e : Failure}
    (hf : f s = .error e) (h : failed e s) : Leads (applyGet f) s done failed :=
  fun _ => (ends_applyGet_error hf).mpr h

end Rules

/-- What holds of a routine's end from one state, if it is done. -/
abbrev Yields (r : Routine σ α) (s : σ) (done : α → σ → Prop) : Prop :=
  Leads r s done fun _ _ => True

/-- A sequence that may fail yields what its second part does from every end of the
    first. -/
theorem yields_bind {r : Routine σ β} {f : β → Routine σ α} {s : σ} {done : α → σ → Prop}
    {Q : β → σ → Prop} (h : Yields r s Q) (hf : ∀ b s', Q b s' → Yields (f b) s' done) :
    Yields (r >>= f) s done :=
  leads_bind (h.mono hf fun _ _ => id)

/-! ## Runs on one machine -/

/-- An attempt that is done has its body done or refused. -/
theorem of_attempt_ok {body : Routine σ α} {m n : Machine σ} {r : Except Refusal α}
    (done : attempt body m = .ok r n) :
    (∃ a, r = .ok a ∧ body m = .ok a n)
      ∨ ∃ cause, r = .error cause ∧ body m = .error (.refused cause) n := by
  simp only [attempt] at done
  cases hb : body m with
  | ok a n₁ =>
      rw [hb] at done
      obtain ⟨rfl, rfl⟩ := EStateM.Result.ok.inj done
      exact Or.inl ⟨a, rfl, rfl⟩
  | error e n₁ =>
      rw [hb] at done
      cases e with
      | refused cause =>
          obtain ⟨rfl, rfl⟩ := EStateM.Result.ok.inj done
          exact Or.inr ⟨cause, rfl, rfl⟩
      | fault what => cases done

/-- Whether a routine is done on a machine. -/
def isDone (r : Routine σ α) (m : Machine σ) : Bool :=
  match r m with
  | .ok _ _ => true
  | .error _ _ => false

theorem of_isDone {r : Routine σ α} {m : Machine σ} (h : r.isDone m = true) :
    ∃ a n, r m = .ok a n := by
  simp only [isDone] at h
  cases hr : r m with
  | ok a n => exact ⟨a, n, rfl⟩
  | error e n =>
      rw [hr] at h
      cases h

theorem of_not_isDone {r : Routine σ α} {m : Machine σ} (h : r.isDone m = false) :
    ∃ e n, r m = .error e n := by
  simp only [isDone] at h
  cases hr : r m with
  | ok a n =>
      rw [hr] at h
      cases h
  | error e n => exact ⟨e, n, rfl⟩

/-- The cause by which a routine is refused on a machine, if it is. -/
def refusal? (r : Routine σ α) (m : Machine σ) : Option Refusal :=
  match r m with
  | .error (.refused cause) _ => some cause
  | _ => none

theorem of_refusal? {r : Routine σ α} {m : Machine σ} {cause : Refusal}
    (h : r.refusal? m = some cause) : ∃ n, r m = .error (.refused cause) n := by
  simp only [refusal?] at h
  cases hr : r m with
  | ok a n =>
      rw [hr] at h
      cases h
  | error e n =>
      rw [hr] at h
      cases e with
      | refused cause' =>
          cases h
          exact ⟨n, rfl⟩
      | fault what => cases h

/-- A routine that is refused unless a condition holds is done only if it does. -/
theorem of_unless_ok {c : Prop} [Decidable c] {r : Routine σ α} {cause : Refusal}
    {m n : Machine σ} {a : α} (done : (if c then r else refuse cause) m = .ok a n) :
    c ∧ r m = .ok a n := by
  by_cases hc : c
  · rw [if_pos hc] at done
    exact ⟨hc, done⟩
  · rw [if_neg hc] at done
    cases done

end Routine

end PriorityScheduler
