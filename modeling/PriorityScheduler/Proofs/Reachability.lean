import PriorityScheduler.Proofs.Enactment.Calls
import PriorityScheduler.Proofs.Halting

/-! # Reachable kernels

    A kernel with which a scheduler begins is intact and has a sound outline, and
    so has every kernel that calls lead to.  A call on such a kernel is the step
    of its outline, so from here on runs are followed on outlines. -/

namespace PriorityScheduler

open Routine

namespace Kernel

variable {k : Kernel} {s : Settings}

/-! ## The beginning -/

/-- At the beginning no chain has a node. -/
theorem chain_initial (s : Settings) (q : Place) : (initial s).chain q = {} := by
  cases q with
  | ready p =>
      show ((Array.replicate s.levels ({} : Chain))[p]?).getD {} = {}
      rw [Array.getElem?_replicate]
      by_cases h : p < s.levels
      · rw [if_pos h]
        rfl
      · rw [if_neg h]
        rfl
  | delayed c => cases c <;> rfl
  | _ => rfl

theorem slotsAt_initial (s : Settings) (q : Place) : (initial s).slotsAt q = [] := by
  simp only [slotsAt]
  rw [chain_initial]
  rfl

/-- At the beginning no slot holds a task. -/
theorem tenant_initial (s : Settings) (i : Nat) : (initial s).outline.tenant i = none :=
  rfl

/-- Tags agree where there are neither slots nor lists. -/
theorem tagged_of_empty {o : Outline} (size : o.size = 0) (tenant : ∀ i, o.tenant i = none)
    (vacant : o.vacant = []) (liveCount : o.liveCount = 0) (row : ∀ q, o.row q = []) :
    o.Tagged := by
  have hdead : ∀ {i task}, o.tenant i ≠ some task := by
    intro i task hlive
    rw [tenant] at hlive
    cases hlive
  refine ⟨?nodup, ?mem_row, ?handle, ?priority, ?level, ?bound, ?vacant_nodup, ?mem_vacant, ?live⟩
  case nodup =>
    intro q
    rw [row]
    exact List.nodup_nil
  case mem_row =>
    intro q i
    rw [row]
    refine ⟨(by rintro ⟨⟩), ?_⟩
    rintro ⟨-, task, htask, -⟩
    exact absurd htask hdead
  case handle => exact fun htask => absurd htask hdead
  case priority => exact fun htask => absurd htask hdead
  case level => exact fun htask => absurd htask hdead
  case bound => exact fun htask => absurd htask hdead
  case vacant_nodup =>
    rw [vacant]
    exact List.nodup_nil
  case mem_vacant =>
    intro i
    rw [vacant, size]
    refine ⟨(by rintro ⟨⟩), ?_⟩
    rintro ⟨hi, -⟩
    exact absurd hi (Nat.not_lt_zero i)
  case live => rw [liveCount, vacant, size, List.length_nil]

theorem intact_initial (valid : s.Valid) : (initial s).Intact := by
  refine ⟨⟨?_, ?_, Array.size_replicate, rfl, rfl, rfl, valid⟩, ?_⟩
  · intro q
    rw [chain_initial, slotsAt_initial]
    exact Chain.holds_empty _
  · intro p
    rw [slotsAt_initial]
    show (0 : BitVec 64).getLsbD p = true ↔ _
    simp
  · exact tagged_of_empty rfl (tenant_initial s) rfl rfl (slotsAt_initial s)

theorem sound_initial (valid : s.Valid) : (initial s).outline.Sound := by
  refine ⟨(intact_initial valid).tagged, ⟨?fits, ?current, ?idle, ?flagged⟩, ?inOrder, ?timed⟩
  case fits =>
    intro i task htask
    cases htask
  case current =>
    intro h hh
    cases hh
  case idle =>
    intro h hh
    cases hh
  case flagged =>
    intro i task htask
    cases htask
  case inOrder =>
    intro c
    show ((initial s).slotsAt (.delayed c)).Pairwise _
    rw [slotsAt_initial]
    exact List.Pairwise.nil
  case timed =>
    intro i task htask
    cases htask

/-! ## Calls and histories -/

/-- A call that is answered leads from an intact and sound kernel to another one,
    and is the step of the outline. -/
theorem Intact.of_call {c : Call} {p : Platform} {r : Except Refusal Reply} {m : Machine Kernel}
    (intact : k.Intact) (sound : k.outline.Sound) (ran : attempt c.run ⟨k, p⟩ = .ok r m) :
    m.state.Intact ∧ m.state.outline.Sound
      ∧ Step.attempt (Outline.run c) k.outline = .ok r m.state.outline := by
  obtain ⟨hintact, hstep⟩ := (enacts_attempt (intact.enacts_run sound c)).ok ran
  exact ⟨hintact, (Step.keeps_attempt (Outline.kept_sound.run trivial)).ok sound hstep, hstep⟩

/-- A history that is answered leads from an intact and sound kernel to another
    one, and is the history of the steps. -/
theorem Intact.of_perform {calls : List Call} {p : Platform} {rs : List (Except Refusal Reply)}
    {m : Machine Kernel} (intact : k.Intact) (sound : k.outline.Sound)
    (ran : perform calls ⟨k, p⟩ = .ok rs m) :
    m.state.Intact ∧ m.state.outline.Sound
      ∧ Outline.perform calls k.outline = .ok rs m.state.outline := by
  obtain ⟨hintact, hstep⟩ := (intact.enacts_perform sound calls).ok ran
  exact ⟨hintact, (Outline.kept_sound.perform fun _ _ => trivial).ok sound hstep, hstep⟩

/-- A reachable kernel is intact, and its outline is sound. -/
theorem Reachable.intact (reachable : Reachable k) : k.Intact ∧ k.outline.Sound := by
  induction reachable with
  | initial valid => exact ⟨intact_initial valid, sound_initial valid⟩
  | call c before ran ih =>
      obtain ⟨hintact, hsound, -⟩ := ih.1.of_call ih.2 ran
      exact ⟨hintact, hsound⟩

end Kernel

end PriorityScheduler
