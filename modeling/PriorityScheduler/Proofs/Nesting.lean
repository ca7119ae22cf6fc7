import PriorityScheduler.Proofs.Postponing
import PriorityScheduler.Proofs.Ranges
import PriorityScheduler.Proofs.Rosters
import PriorityScheduler.Proofs.Stages

/-! # Suspensions one inside the other

    Scheduling can be suspended more than once over, and each suspension is undone by a call of
    its own.  Which calls were made tells how many suspensions are OUTSTANDING: each call to
    suspend adds one, each call to undo one takes one off, if there is one, and no other call
    matters.  With the last one the postponed tasks are called in.

    The kernel keeps the COUNT of them in a word of 32 bits.  While no more are outstanding than
    the word counts, the two agree, whatever else is called in between.  A suspension that is
    made when the count is at its largest value is not counted, and then the count is the
    smaller of the two from there on: tasks are let go while a suspension is outstanding. -/

namespace PriorityScheduler

/-! ## Outstanding suspensions -/

/-- The suspensions outstanding after a call, of those that were outstanding before it. -/
def Call.suspensions (c : Call) (n : Nat) : Nat :=
  match c with
  | .freezeAll => n + 1
  | .thawAll => n - 1
  | _ => n

/-- The suspensions outstanding after a history of calls. -/
def outstanding (calls : List Call) : Nat :=
  calls.foldl (fun n c => c.suspensions n) 0

/-- The largest number of suspensions that a word counts. -/
def deepest : Nat := 0xFFFFFFFF

/-- The count of them that is kept from a number on, and held at the largest value. -/
def counted (n : Nat) (calls : List Call) : Nat :=
  calls.foldl (fun n c => min (c.suspensions n) deepest) n

section Histories

variable {c : Call} {n m : Nat}

theorem Call.suspensions_mono (c : Call) (le : n ≤ m) : c.suspensions n ≤ c.suspensions m := by
  cases c with
  | freezeAll => exact Nat.succ_le_succ le
  | thawAll => exact Nat.sub_le_sub_right le 1
  | _ => exact le

/-- A call other than those two leaves the suspensions as they are. -/
theorem Call.suspensions_other (freeze : c ≠ .freezeAll) (thaw : c ≠ .thawAll) (n : Nat) :
    c.suspensions n = n := by
  cases c with
  | freezeAll => exact absurd rfl freeze
  | thawAll => exact absurd rfl thaw
  | _ => rfl

theorem outstanding_concat (calls : List Call) (c : Call) :
    outstanding (calls ++ [c]) = c.suspensions (outstanding calls) := by
  rw [outstanding, List.foldl_append]
  rfl

theorem counted_concat (n : Nat) (calls : List Call) (c : Call) :
    counted n (calls ++ [c]) = min (c.suspensions (counted n calls)) deepest := by
  rw [counted, List.foldl_append]
  rfl

/-- No more suspensions are counted than are outstanding. -/
theorem counted_le_outstanding (calls : List Call) : counted 0 calls ≤ outstanding calls := by
  induction calls using List.reverseRecOn with
  | nil => exact Nat.le_refl 0
  | append_singleton calls c ih =>
      rw [counted_concat, outstanding_concat]
      exact (Nat.min_le_left _ _).trans (c.suspensions_mono ih)

/-- All that are outstanding are counted, if there were never more than a word counts. -/
theorem counted_eq_outstanding {calls : List Call}
    (few : ∀ earlier, earlier <+: calls → outstanding earlier ≤ deepest) :
    counted 0 calls = outstanding calls := by
  induction calls using List.reverseRecOn with
  | nil => rfl
  | append_singleton calls c ih =>
      have hfew := few (calls ++ [c]) (List.prefix_refl _)
      rw [outstanding_concat] at hfew
      rw [counted_concat, outstanding_concat,
        ih fun earlier hearlier => few earlier (hearlier.trans (List.prefix_append _ _))]
      exact Nat.min_eq_left hfew

/-- Each call makes one suspension at most. -/
theorem outstanding_le_length (calls : List Call) : outstanding calls ≤ calls.length := by
  induction calls using List.reverseRecOn with
  | nil => exact Nat.le_refl 0
  | append_singleton calls c ih =>
      rw [outstanding_concat, List.length_append, List.length_singleton]
      have hone : c.suspensions (outstanding calls) ≤ outstanding calls + 1 := by
        cases c with
        | freezeAll => exact Nat.le_refl _
        | thawAll => exact (Nat.sub_le _ 1).trans (Nat.le_succ _)
        | _ => exact Nat.le_succ _
      omega

/-- No more calls than a word counts leave no more suspensions outstanding at any time. -/
theorem few_suspensions {calls : List Call} (few : calls.length ≤ deepest) :
    ∀ earlier, earlier <+: calls → outstanding earlier ≤ deepest :=
  fun earlier hearlier =>
    (outstanding_le_length earlier).trans (hearlier.length_le.trans few)

/-- Of suspensions one after the other those are counted that a word counts. -/
theorem counted_freezeAll (n : Nat) : counted 0 (List.replicate n .freezeAll) = min n deepest := by
  induction n with
  | zero => rfl
  | succ n ih =>
      rw [List.replicate_succ', counted_concat, ih]
      show min (min n deepest + 1) deepest = min (n + 1) deepest
      omega

theorem outstanding_freezeAll (n : Nat) : outstanding (List.replicate n .freezeAll) = n := by
  induction n with
  | zero => rfl
  | succ n ih =>
      rw [List.replicate_succ', outstanding_concat, ih]
      rfl

/-- Each call to undo a suspension takes one off, of those outstanding and of those counted. -/
theorem outstanding_thawAll (calls : List Call) (n : Nat) :
    outstanding (calls ++ List.replicate n .thawAll) = outstanding calls - n := by
  induction n with
  | zero => rw [List.replicate_zero, List.append_nil, Nat.sub_zero]
  | succ n ih =>
      rw [List.replicate_succ', ← List.append_assoc, outstanding_concat, ih]
      exact Nat.sub_sub _ n 1

theorem counted_thawAll {calls : List Call} (most : counted 0 calls ≤ deepest) (n : Nat) :
    counted 0 (calls ++ List.replicate n .thawAll) = counted 0 calls - n := by
  induction n with
  | zero => rw [List.replicate_zero, List.append_nil, Nat.sub_zero]
  | succ n ih =>
      rw [List.replicate_succ', ← List.append_assoc, counted_concat, ih]
      show min (counted 0 calls - n - 1) deepest = counted 0 calls - (n + 1)
      omega

end Histories

/-! ## The depth of an outline -/

namespace Outline

variable {c : Call} {o o' : Outline}

theorem toNat_depth_le (o : Outline) : o.depth.toNat ≤ deepest :=
  Nat.le_of_lt_succ o.depth.toNat_lt

/-- The depth is counted up as far as a word goes. -/
theorem depth_freezeAll (o : Outline) :
    o.freezeAll.2.depth.toNat = min (o.depth.toNat + 1) deepest := by
  have hlt := o.depth.toNat_lt
  have hone : (1 : UInt32).toNat = 1 := rfl
  have hdeepest : deepest = 4294967295 := rfl
  show (saturatingSucc o.depth).toNat = _
  simp only [saturatingSucc]
  by_cases hmost : o.depth = 0xFFFFFFFF
  · rw [if_pos hmost, hmost]
    rfl
  · have hne : o.depth.toNat ≠ 4294967295 := fun heq => hmost (UInt32.toNat_inj.mp heq)
    rw [if_neg hmost, UInt32.toNat_add, hone]
    omega

/-- A call counts the depth as it does the suspensions. -/
theorem Sound.depth_call (sound : o.Sound) {r : Except Refusal Reply}
    (ran : Step.attempt (run c) o = .ok r o') :
    o'.depth.toNat = min (c.suspensions o.depth.toNat) deepest := by
  by_cases hfreeze : c = .freezeAll
  · subst hfreeze
    obtain ⟨-, rfl⟩ := EStateM.Result.ok.inj ran
    exact o.depth_freezeAll
  · by_cases hthaw : c = .thawAll
    · subst hthaw
      obtain ⟨-, rfl⟩ := EStateM.Result.ok.inj ran
      have hle : Call.thawAll.suspensions o.depth.toNat ≤ deepest :=
        (Nat.sub_le _ 1).trans o.toNat_depth_le
      rw [Nat.min_eq_left hle]
      exact o.depth_thawAll
    · rw [(sound.conserves_call ran).depth hfreeze hthaw, Call.suspensions_other hfreeze hthaw,
        Nat.min_eq_left o.toNat_depth_le]

/-- A history counts the depth as it does the suspensions. -/
theorem Sound.depth_perform {calls : List Call} {rs : List (Except Refusal Reply)}
    (sound : o.Sound) (ran : perform calls o = .ok rs o') :
    o'.depth.toNat = counted o.depth.toNat calls := by
  induction calls generalizing o rs with
  | nil =>
      obtain ⟨-, rfl⟩ := EStateM.Result.ok.inj ran
      rfl
  | cons c rest ih =>
      obtain ⟨r, o₁, hfirst, hrest⟩ := of_bind_ok ran
      obtain ⟨rs', o₂, hothers, hend⟩ := of_bind_ok hrest
      obtain ⟨-, rfl⟩ := EStateM.Result.ok.inj hend
      have hsound := (Step.keeps_attempt (kept_sound.run trivial)).ok sound hfirst
      rw [ih hsound hothers, sound.depth_call hfirst]
      rfl

/-- Suspensions that are made and undone stop no scheduler. -/
theorem perform_suspensions {calls : List Call}
    (only : ∀ c ∈ calls, c = .freezeAll ∨ c = .thawAll) (o : Outline) :
    ∃ rs o', perform calls o = .ok rs o' := by
  induction calls generalizing o with
  | nil => exact ⟨[], o, rfl⟩
  | cons c rest ih =>
      have hfirst : ∃ r o₁, Step.attempt (run c) o = .ok r o₁ := by
        rcases only c List.mem_cons_self with rfl | rfl
        · exact ⟨_, o.freezeAll.2, rfl⟩
        · exact ⟨_, o.thawAll.2, rfl⟩
      obtain ⟨r, o₁, hfirst⟩ := hfirst
      obtain ⟨rs, o', hrest⟩ := ih (fun c' hc' => only c' (List.mem_cons_of_mem c hc')) o₁
      refine ⟨r :: rs, o', ?_⟩
      simp only [perform, bind, EStateM.bind, hfirst, hrest]
      rfl

/-- With the last suspension the postponed tasks go to the ends of the levels of their
    priorities, in the order in which they were postponed. -/
theorem Sound.roster_thawAll (sound : o.Sound) (last : o.depth = 1) :
    o.thawAll.2.depth = 0 ∧ o.thawAll.2.roster .postponed = []
      ∧ ∀ p, o.thawAll.2.roster (.ready p) = o.roster (.ready p)
        ++ (o.roster .postponed).filter fun h =>
            (o.get? h).any fun task => decide (task.priority = p) := by
  rcases o.thawAll_cases with ⟨hopen, -⟩ | ⟨hdeep, -⟩ | ⟨-, heq⟩
  · cases hopen.symm.trans last
  · exact absurd (by rw [last]; rfl) hdeep
  · rw [heq]
    refine ⟨rfl, ?_, fun p => ?_⟩
    · show (o.calledIn.row .postponed).map o.named = []
      rw [calledIn_row_of_ne (by rintro p ⟨⟩), List.map_eq_nil_iff, List.filter_eq_nil_iff]
      intro i hi
      simpa using hi
    · have hstays : ∀ i ∈ o.row (.ready p), i ∉ o.row .postponed :=
        fun i hi => sound.tagged.not_mem_of_mem (by rintro ⟨⟩) hi
      show (o.calledIn.row (.ready p)).map o.named = _
      rw [calledIn_row, filter_of_disjoint hstays, List.map_append, roster, roster,
        List.filter_map]
      refine congrArg _ (congrArg _ (List.filter_congr fun i _ => ?_))
      rw [Function.comp_apply, get?_named]
      simp only [Place.ready.injEq]

end Outline

/-! ## Calls on a kernel -/

namespace Kernel

open Routine

variable {k : Kernel}

/-- What a call to undo a suspension does, of which `n` are counted. -/
structure Undoes (n : Nat) (k : Kernel) : Prop where
  /-- One too many is ignored. -/
  unmatched : n = 0 → ∀ p, ∃ m, attempt Call.thawAll.run ⟨k, p⟩ = .ok (.ok (.answer false)) m
    ∧ m.state = k
  /-- One that is not the last takes one off the count and does nothing else. -/
  inner : 1 < n → ∀ p, ∃ m, attempt Call.thawAll.run ⟨k, p⟩ = .ok (.ok (.answer false)) m
    ∧ m.state = { k with freeze := { k.freeze with depth := k.freeze.depth - 1 } }
  /-- The last lets the postponed tasks in, at the ends of the levels of their priorities and
      in the order in which they were postponed. -/
  last : n = 1 → ∀ p, ∃ b m, attempt Call.thawAll.run ⟨k, p⟩ = .ok (.ok (.answer b)) m
    ∧ m.state.freeze.isOff = true ∧ m.state.handlesAt .postponed = []
    ∧ ∀ q, m.state.handlesAt (.ready q) = k.handlesAt (.ready q)
        ++ (k.handlesAt .postponed).filter fun h =>
            (k.table.get? h).any fun task => decide (task.priority = q)

/-- One suspension too many to undo is ignored. -/
theorem leads_thawAll_unmatched (opened : k.freeze.depth = 0) :
    Leads thawAll k (fun b k' => b = false ∧ k' = k) (fun _ _ => False) :=
  leads_masked (leads_bind (leads_attempt (leads_apply_error (lift_unmatched opened)
    (leads_bind (leads_log (leads_pure ⟨rfl, rfl⟩))))))

/-- A suspension that is not the last is taken off the count. -/
theorem leads_thawAll_inner (closed : k.freeze.depth ≠ 0) (inner : k.freeze.depth - 1 ≠ 0) :
    Leads thawAll k
      (fun b k' => b = false
        ∧ k' = { k with freeze := { k.freeze with depth := k.freeze.depth - 1 } })
      (fun _ _ => False) := by
  have hclosed : ({ k.freeze with depth := k.freeze.depth - 1 } : Freeze).isOff = false :=
    beq_false_of_ne inner
  refine leads_masked (leads_bind (leads_attempt (leads_apply_ok (lift_matched closed)
    (leads_bind (leads_read ?_)))))
  rw [hclosed]
  exact leads_pure ⟨rfl, rfl⟩

/-- What the call leads to is what an attempt at it tells and leaves. -/
theorem attempt_thawAll {done : Bool → Kernel → Prop}
    (leads : Leads thawAll k done fun _ _ => False) (p : Platform) :
    ∃ b m, attempt Call.thawAll.run ⟨k, p⟩ = .ok (.ok (.answer b)) m
      ∧ done b m.state := by
  cases hend : thawAll ⟨k, p⟩ with
  | ok b m =>
      refine ⟨b, m, ?_, leads.ok hend⟩
      simp only [attempt, Call.run, bind, EStateM.bind, hend]
      rfl
  | error e m => exact (leads.error hend).elim

/-- The depth of an intact kernel says what a call to undo a suspension does. -/
theorem Intact.undoes (intact : k.Intact) (sound : k.outline.Sound) :
    Undoes k.freeze.depth.toNat k where
  unmatched := by
    intro hzero p
    obtain ⟨b, m, hran, rfl, hstate⟩ :=
      attempt_thawAll (leads_thawAll_unmatched (UInt32.toNat_inj.mp hzero)) p
    exact ⟨m, hran, hstate⟩
  inner := by
    intro hdeep p
    have hclosed : k.freeze.depth ≠ 0 := by
      intro hzero
      rw [hzero] at hdeep
      exact absurd hdeep (by decide)
    -- more than one is counted, so scheduling stays suspended with one less
    have hinner : k.freeze.depth - 1 ≠ 0 := by
      intro hzero
      have hless := toNat_sub_one hclosed
      rw [hzero, UInt32.toNat_zero] at hless
      omega
    obtain ⟨b, m, hran, rfl, hstate⟩ := attempt_thawAll (leads_thawAll_inner hclosed hinner) p
    exact ⟨m, hran, hstate⟩
  last := by
    intro hone p
    have hlast : k.outline.depth = 1 := UInt32.toNat_inj.mp hone
    obtain ⟨hopened, hnone, hready⟩ := sound.roster_thawAll hlast
    have hget : k.table.get? = k.outline.get? := funext (get?_outline k)
    have hstep : Step.attempt (Outline.run .thawAll) k.outline
        = .ok (.ok (.answer k.outline.thawAll.1)) k.outline.thawAll.2 := rfl
    obtain ⟨m, hran, houtline⟩ := (enacts_attempt (intact.enacts_run sound .thawAll)).of_ok hstep p
    obtain ⟨hintact, -, -⟩ := intact.of_call sound hran
    refine ⟨_, m, hran, ?_, ?_, fun q => ?_⟩
    · rw [isOff_outline, houtline, hopened]
      rfl
    · rw [hintact.handlesAt, houtline, hnone]
    · rw [hintact.handlesAt, houtline, hready, intact.handlesAt, intact.handlesAt, hget]

/-! ## Every history -/

/-- The depth of a kernel counts the suspensions of its whole history. -/
theorem depth_counted {s : Settings} (valid : s.Valid) {p : Platform} {calls : List Call}
    {rs : List (Except Refusal Reply)} {m : Machine Kernel}
    (ran : perform calls ⟨initial s, p⟩ = .ok rs m) :
    m.state.freeze.depth.toNat = counted 0 calls := by
  have hsound := sound_initial valid
  obtain ⟨-, -, hdone⟩ := (intact_initial valid).of_perform hsound ran
  exact hsound.depth_perform hdone

/-- The suspensions are counted over every history of calls.  The count that the kernel keeps is
    never more than the number of suspensions outstanding, and is that number if there were never
    more of them than a word counts.  It tells what the next call to undo one does: one too many
    is ignored, the last lets the postponed tasks in, and any other does nothing but count. -/
theorem suspensions_counted {s : Settings} (accepted : s.check = .ok ()) (p : Platform)
    (calls : List Call) {rs : List (Except Refusal Reply)} {m : Machine Kernel}
    (ran : perform calls ⟨initial s, p⟩ = .ok rs m) :
    m.state.freeze.depth.toNat = counted 0 calls ∧ counted 0 calls ≤ outstanding calls
      ∧ Undoes (counted 0 calls) m.state
      ∧ ((∀ earlier, earlier <+: calls → outstanding earlier ≤ deepest) →
        counted 0 calls = outstanding calls
          ∧ (m.state.freeze.isOff = true ↔ outstanding calls = 0)) := by
  have hvalid : s.Valid := s.check_eq_ok_iff.mp accepted
  have hdepth := depth_counted hvalid ran
  obtain ⟨hintact, hsound, -⟩ := (intact_initial hvalid).of_perform (sound_initial hvalid) ran
  refine ⟨hdepth, counted_le_outstanding calls, hdepth ▸ hintact.undoes hsound, fun few => ?_⟩
  have hexact := counted_eq_outstanding few
  refine ⟨hexact, ?_⟩
  rw [← hexact, ← hdepth, isOff_outline, decide_eq_true_eq]
  constructor
  · intro hopen
    rw [show m.state.freeze.depth = 0 from hopen]
    rfl
  · exact fun hzero => UInt32.toNat_inj.mp hzero

/-- A call that finds no suspension to undo, two suspensions one inside the other with the start
    of the scheduler between them, and the end of the inner one: one is outstanding. -/
theorem suspensions_counted_nested :
    ({} : Settings).check = .ok () ∧ ∃ rs m,
      perform [.thawAll, .freezeAll, .start 0, .freezeAll, .thawAll] ⟨initial {}, {}⟩ = .ok rs m
        ∧ outstanding [.thawAll, .freezeAll, .start 0, .freezeAll, .thawAll] = 1
        ∧ m.state.freeze.depth.toNat = 1 := by
  have haccepted : ({} : Settings).check = .ok () :=
    ({} : Settings).check_eq_ok_iff.mpr (by decide)
  have hgoes : isDone (perform [.thawAll, .freezeAll, .start 0, .freezeAll, .thawAll])
      ⟨initial {}, {}⟩ = true := by
    decide +kernel
  obtain ⟨rs, m, hran⟩ := of_isDone hgoes
  obtain ⟨hdepth, -, -, hexact⟩ := suspensions_counted haccepted {} _ hran
  exact ⟨haccepted, rs, m, hran, rfl, hdepth.trans (hexact (few_suspensions (by decide))).1⟩

/-- Any number of suspensions one inside the other are made, and any number of calls to undo
    one follow: as many are counted in the end as are left of those that a word counts. -/
theorem depth_suspensions {s : Settings} (valid : s.Valid) (p : Platform) (made undone : Nat) :
    ∃ rs m, perform (List.replicate made .freezeAll ++ List.replicate undone .thawAll)
        ⟨initial s, p⟩ = .ok rs m
      ∧ m.state.freeze.depth.toNat = min made deepest - undone := by
  have honly : ∀ c ∈ List.replicate made Call.freezeAll ++ List.replicate undone Call.thawAll,
      c = .freezeAll ∨ c = .thawAll := by
    intro c hc
    rcases List.mem_append.mp hc with hc | hc
    · exact Or.inl (List.eq_of_mem_replicate hc)
    · exact Or.inr (List.eq_of_mem_replicate hc)
  obtain ⟨rs, o, hdone⟩ := Outline.perform_suspensions honly (initial s).outline
  obtain ⟨m, hran, -⟩ :=
    ((intact_initial valid).enacts_perform (sound_initial valid) _).of_ok hdone p
  have hmost : counted 0 (List.replicate made .freezeAll) ≤ deepest := by
    rw [counted_freezeAll]
    exact Nat.min_le_right made deepest
  refine ⟨rs, m, hran, ?_⟩
  rw [depth_counted valid hran, counted_thawAll hmost, counted_freezeAll]

/-- More suspensions than a word counts are not all counted.  When one more than that has been
    made and as many are undone as it counts, one is outstanding.  Scheduling goes on for all
    that, and the call to undo the one that is left is ignored. -/
theorem suspensions_overrun :
    ∃ rs m, perform
        (List.replicate (deepest + 1) .freezeAll ++ List.replicate deepest .thawAll)
        ⟨initial {}, {}⟩ = .ok rs m
      ∧ outstanding
        (List.replicate (deepest + 1) .freezeAll ++ List.replicate deepest .thawAll) = 1
      ∧ m.state.freeze.isOff = true
      ∧ ∀ p, ∃ n, attempt Call.thawAll.run ⟨m.state, p⟩ = .ok (.ok (.answer false)) n
        ∧ n.state = m.state := by
  have hvalid : ({} : Settings).Valid := by decide
  obtain ⟨rs, m, hran, hdepth⟩ := depth_suspensions hvalid {} (deepest + 1) deepest
  have hzero : m.state.freeze.depth.toNat = 0 := by
    rw [hdepth, Nat.min_eq_right (Nat.le_succ deepest), Nat.sub_self]
  obtain ⟨hintact, hsound, -⟩ := (intact_initial hvalid).of_perform (sound_initial hvalid) hran
  refine ⟨rs, m, hran, ?_, ?_, (hintact.undoes hsound).unmatched hzero⟩
  · rw [outstanding_thawAll, outstanding_freezeAll]
    exact Nat.add_sub_cancel_left deepest 1
  · exact beq_iff_eq.mpr (UInt32.toNat_inj.mp hzero)

end Kernel

end PriorityScheduler
