import PriorityScheduler.Proofs.Routines

/-! # Routines with a ghost beside the state

    Some properties are about more than a state shows: how often something was
    done, or what a caller keeps for itself.  A GHOST is such a thing, kept beside
    the state.  A routine of the scheduler is run `beside` a ghost and leaves it
    alone; only a proof has it changed, by a `mark`.

    A routine with a ghost FORGETS to a routine without one when it ends as that
    one does, whatever the ghost is.  What is proved of the first with the ghost
    in view then holds of runs of the second. -/

namespace PriorityScheduler

variable {σ γ α β : Type}

/-- A machine with a ghost beside its state. -/
def Machine.withGhost (m : Machine σ) (g : γ) : Machine (σ × γ) :=
  ⟨(m.state, g), m.platform⟩

/-- A machine without the ghost. -/
def Machine.forget (m : Machine (σ × γ)) : Machine σ :=
  ⟨m.state.1, m.platform⟩

namespace Routine

/-- Run a routine on the state; the ghost is left alone. -/
def beside (r : Routine σ α) : Routine (σ × γ) α := fun m =>
  match r m.forget with
  | .ok a n => .ok a (n.withGhost m.state.2)
  | .error e n => .error e (n.withGhost m.state.2)

/-- Change the ghost; the state is left alone. -/
def mark (f : γ → γ) : Routine (σ × γ) Unit :=
  update fun x => (x.1, f x.2)

/-! ## Where they lead -/

section Leads

variable {s : σ} {g : γ} {done : α → σ × γ → Prop} {failed : Failure → σ × γ → Prop}

/-- A routine beside a ghost leads where it leads alone, with the same ghost. -/
theorem leads_beside {r : Routine σ α}
    (h : Leads r s (fun a s' => done a (s', g)) (fun e s' => failed e (s', g))) :
    Leads (beside r) (s, g) done failed := by
  intro p
  have hp := h p
  simp only [Ends, beside, Machine.forget] at hp ⊢
  cases hr : r ⟨s, p⟩ with
  | ok a n =>
      rw [hr] at hp
      exact hp
  | error e n =>
      rw [hr] at hp
      exact hp

theorem leads_mark {done : Unit → σ × γ → Prop} {f : γ → γ} (h : done () (s, f g)) :
    Leads (mark f) (s, g) done failed :=
  leads_update h

end Leads

/-! ## What they forget to -/

/-- The end of a run without the ghost. -/
def forgetEnd : EStateM.Result Failure (Machine (σ × γ)) α → EStateM.Result Failure (Machine σ) α
  | .ok a n => .ok a n.forget
  | .error e n => .error e n.forget

/-- With the ghost left out, the one routine ends as the other does. -/
def Forgets (r : Routine (σ × γ) α) (r' : Routine σ α) : Prop :=
  ∀ (m : Machine σ) (g : γ), forgetEnd (r (m.withGhost g)) = r' m

theorem forgets_beside (r : Routine σ α) : Forgets (γ := γ) (beside r) r := by
  intro m g
  show forgetEnd (beside r (m.withGhost g)) = r m
  simp only [beside]
  show forgetEnd (match r m with
    | .ok a n => EStateM.Result.ok a (n.withGhost g)
    | .error e n => .error e (n.withGhost g)) = r m
  cases r m with
  | ok a n => rfl
  | error e n => rfl

/-- A routine beside the ghost, and then one that forgets from where that ends. -/
theorem forget_beside_bind {r : Routine σ β} {f : β → Routine (σ × γ) α} {f' : β → Routine σ α}
    {g : γ} {m : Machine σ} (h : ∀ b n, forgetEnd (f b (n.withGhost g)) = f' b n) :
    forgetEnd ((beside r >>= f) (m.withGhost g)) = (r >>= f') m := by
  have hforget : (m.withGhost g).forget = m := rfl
  simp only [bind, EStateM.bind, beside]
  rw [hforget]
  cases r m with
  | ok b n => exact h b n
  | error e n => rfl

theorem forgets_pure (a : α) : Forgets (γ := γ) (pure a) (pure a : Routine σ α) :=
  fun _ _ => rfl

/-- Routines with ghosts in sequence forget to the others in sequence. -/
theorem forgets_bind {r : Routine (σ × γ) β} {r' : Routine σ β} {f : β → Routine (σ × γ) α}
    {f' : β → Routine σ α} (h : Forgets r r') (hf : ∀ b, Forgets (f b) (f' b)) :
    Forgets (r >>= f) (r' >>= f') := by
  intro m g
  show forgetEnd (EStateM.bind r f (m.withGhost g)) = EStateM.bind r' f' m
  simp only [EStateM.bind]
  rw [← h m g]
  cases r (m.withGhost g) with
  | ok b n => exact hf b n.forget n.state.2
  | error e n => rfl

/-- A mark is forgotten. -/
theorem forgets_mark {f : γ → γ} {r : Routine (σ × γ) α} {r' : Routine σ α}
    (h : Forgets r r') : Forgets (mark f >>= fun _ => r) r' :=
  fun m g => h m (f g)

theorem forgets_ite {c : Prop} [Decidable c] {r₁ r₂ : Routine (σ × γ) α} {r₁' r₂' : Routine σ α}
    (h₁ : Forgets r₁ r₁') (h₂ : Forgets r₂ r₂') :
    Forgets (if c then r₁ else r₂) (if c then r₁' else r₂') := by
  by_cases hc : c
  · rw [if_pos hc, if_pos hc]
    exact h₁
  · rw [if_neg hc, if_neg hc]
    exact h₂

/-- A run that is done is one with the ghost that is done as well. -/
theorem Forgets.of_ok {r : Routine (σ × γ) α} {r' : Routine σ α} (h : Forgets r r')
    {m n : Machine σ} {a : α} (done : r' m = .ok a n) (g : γ) :
    ∃ g', r (m.withGhost g) = .ok a (n.withGhost g') := by
  rw [← h m g] at done
  cases hend : r (m.withGhost g) with
  | ok a' n' =>
      rw [hend] at done
      obtain ⟨rfl, rfl⟩ := EStateM.Result.ok.inj done
      exact ⟨n'.state.2, rfl⟩
  | error e n' =>
      rw [hend] at done
      cases done

end Routine

end PriorityScheduler
