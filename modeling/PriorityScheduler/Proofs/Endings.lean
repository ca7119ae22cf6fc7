import PriorityScheduler.Proofs.Waits

/-! # The flags tell how the last wait ended

    A run is recounted call by call, each with the kernel before it and the one after it.
    The LIFETIME of a task is the last part of a run, through which the task was live.
    What a call does to the marks of a task is known from the record before it, so by
    induction on the run the flags that a task has at its end are read off its lifetime:
    off the last call that has released it, and off what it has asked since. -/

namespace PriorityScheduler

open Routine

namespace Kernel

/-! ## Runs -/

/-- A call that was made, with the kernel before it and the one after it. -/
structure Episode where
  before : Kernel
  call : Call
  after : Kernel

/-- The episodes of a run that begins with a scheduler of valid settings, the latest
    first, and the kernel that it ends in. -/
inductive Recounts : List Episode → Kernel → Prop where
  | initial {s : Settings} (valid : s.Valid) : Recounts [] (initial s)
  | call {log : List Episode} {k : Kernel} (c : Call) {p : Platform} {r : Except Refusal Reply}
      {m : Machine Kernel} (earlier : Recounts log k) (ran : attempt c.run ⟨k, p⟩ = .ok r m) :
      Recounts (⟨k, c, m.state⟩ :: log) m.state

variable {log : List Episode} {k : Kernel} {h : Handle} {t t' : Task} {e : Episode}

/-- The reachable kernels are those in which runs end. -/
theorem reachable_iff_recounts : Reachable k ↔ ∃ log, Recounts log k := by
  constructor
  · intro reachable
    induction reachable with
    | initial valid => exact ⟨[], .initial valid⟩
    | call c _ ran ih =>
        obtain ⟨log, hlog⟩ := ih
        exact ⟨_, .call c hlog ran⟩
  · rintro ⟨log, hlog⟩
    induction hlog with
    | initial valid => exact .initial valid
    | call c _ ran ih => exact .call c ih ran

/-- A history goes on with a run. -/
theorem Recounts.perform {calls : List Call} {m m' : Machine Kernel}
    {rs : List (Except Refusal Reply)} (before : Recounts log m.state)
    (ran : Kernel.perform calls m = .ok rs m') :
    ∃ later, later.map Episode.call = calls.reverse ∧ Recounts (later ++ log) m'.state := by
  induction calls generalizing m rs log with
  | nil =>
      obtain ⟨rfl, rfl⟩ := EStateM.Result.ok.inj ran
      exact ⟨[], rfl, before⟩
  | cons c rest ih =>
      obtain ⟨r, n, hfirst, hrest⟩ := of_bind_ok ran
      obtain ⟨rs', n', hothers, hdone⟩ := of_bind_ok hrest
      obtain ⟨rfl, rfl⟩ := EStateM.Result.ok.inj hdone
      obtain ⟨later, hcalls, hlater⟩ := ih (.call c before hfirst) hothers
      refine ⟨later ++ [⟨m.state, c, n.state⟩], ?_, ?_⟩
      · rw [List.map_append, hcalls, List.reverse_cons]
        rfl
      · rw [List.append_assoc]
        exact hlater

/-! ## The life of a task in a run -/

/-- Whether a handle names a task that is blocked. -/
def isBlocked (k : Kernel) (h : Handle) : Bool :=
  (k.table.get? h).any fun task => decide (task.activity = .blocked)

/-- Whether a task was blocked before a call and is not after it. -/
def Episode.releases (h : Handle) (e : Episode) : Bool :=
  e.before.isBlocked h && !e.after.isBlocked h

/-- Whether the call was made by a task to ask if its wait was over. -/
def Episode.notices (h : Handle) (e : Episode) : Bool :=
  e.call.checks && decide (e.before.runner = some h)

/-- The latest episodes of a run, as far back as the task was live before each. -/
def lifetime (h : Handle) (log : List Episode) : List Episode :=
  log.takeWhile fun e => e.before.table.contains h

/-- The episode before these, in which the task was made. -/
def birth (h : Handle) (log : List Episode) : Option Episode :=
  log.find? fun e => !e.before.table.contains h

/-- The last call that has released the task, if there was one in its life. -/
def lastRelease (h : Handle) (log : List Episode) : Option Episode :=
  (lifetime h log).find? (Episode.releases h)

/-- The episodes of its life since then. -/
def sinceRelease (h : Handle) (log : List Episode) : List Episode :=
  (lifetime h log).takeWhile fun e => !e.releases h

/-- The flags of a task tell what its life was.  While it is blocked, it has no mark of
    an ending.  While it is not, it is marked as timed out exactly if the last release
    was by a tick, and as cut short exactly if the last release was to cut its wait short
    and it has not asked since.  It is marked as idle exactly if it was made at the start,
    and it was so throughout its life. -/
structure FlagsTell (h : Handle) (log : List Episode) (task : Task) : Prop where
  waiting : task.activity = .blocked →
    task.flags.timedOut = false ∧ task.flags.cutShort = false
  timedOut : task.activity ≠ .blocked → (task.flags.timedOut = true
    ↔ ∃ e, lastRelease h log = some e ∧ 0 < e.call.ticks)
  cutShort : task.activity ≠ .blocked → (task.flags.cutShort = true
    ↔ (∃ e, lastRelease h log = some e ∧ e.call = .cutShort h)
      ∧ ∀ e ∈ sinceRelease h log, e.notices h = false)
  idle : task.flags.idle = true ↔ ∃ e, birth h log = some e ∧ e.call.starts = true
  throughout : ∀ e ∈ lifetime h log, ∀ earlier, e.before.table.get? h = some earlier →
    earlier.flags.idle = task.flags.idle

/-- The life of a task begins with the call that has made it. -/
theorem lifetime_made (log : List Episode) (dead : e.before.table.get? h = none) :
    lifetime h (e :: log) = [] ∧ birth h (e :: log) = some e := by
  have hdead : e.before.table.contains h = false := by
    simp only [TaskTable.contains, dead, Option.isSome_none]
  refine ⟨List.takeWhile_cons_of_neg ?_, List.find?_cons_of_pos ?_⟩
  · rw [hdead]
    rintro ⟨⟩
  · rw [hdead]
    rfl

/-- The life of a task goes on with the next call. -/
theorem lifetime_call (log : List Episode) (live : e.before.table.get? h = some t) :
    lifetime h (e :: log) = e :: lifetime h log ∧ birth h (e :: log) = birth h log := by
  have hlive : e.before.table.contains h = true := by
    simp only [TaskTable.contains, live, Option.isSome_some]
  refine ⟨List.takeWhile_cons_of_pos hlive, List.find?_cons_of_neg ?_⟩
  rw [hlive]
  rintro ⟨⟩

/-- A task that was just made has the flags of its making, and no wait has ended. -/
theorem flagsTell_made (dead : e.before.table.get? h = none) (active : t.activity ≠ .blocked)
    (flags : t.flags = { idle := e.call.starts }) : FlagsTell h (e :: log) t := by
  obtain ⟨hlife, hbirth⟩ := lifetime_made log dead
  have hnone : lastRelease h (e :: log) = none := by
    rw [lastRelease, hlife]
    rfl
  refine ⟨fun hblocked => absurd hblocked active, fun _ => ?_, fun _ => ?_, ?_, ?_⟩
  · rw [flags, hnone]
    refine iff_of_false (by rintro ⟨⟩) ?_
    rintro ⟨_, ⟨⟩, -⟩
  · rw [flags, hnone]
    refine iff_of_false (by rintro ⟨⟩) ?_
    rintro ⟨⟨_, ⟨⟩, -⟩, -⟩
  · rw [flags, hbirth]
    refine ⟨fun hstarts => ⟨e, rfl, hstarts⟩, ?_⟩
    rintro ⟨e', he, hstarts⟩
    obtain rfl := Option.some.inj he
    exact hstarts
  · rw [hlife]
    rintro _ ⟨⟩

theorem isBlocked_eq (live : k.table.get? h = some t) :
    k.isBlocked h = decide (t.activity = .blocked) := by
  rw [isBlocked, live]
  rfl

theorem notices_outline : e.notices h = true ↔ e.before.outline.Notices e.call h := by
  rw [Episode.notices, Bool.and_eq_true, decide_eq_true_iff, runner_outline]
  rfl

section Step

variable (before : e.before.table.get? h = some t) (after : e.after.table.get? h = some t')

include before after

/-- A task that is released was blocked before a call and is not after it. -/
theorem releases_iff : e.releases h = true ↔ t.activity = .blocked ∧ t'.activity ≠ .blocked := by
  rw [Episode.releases, isBlocked_eq before, isBlocked_eq after]
  simp

/-- A call that releases a task is the last one to do so. -/
theorem lastRelease_released (log : List Episode) (blocked : t.activity = .blocked)
    (active : t'.activity ≠ .blocked) :
    lastRelease h (e :: log) = some e ∧ sinceRelease h (e :: log) = [] := by
  have hreleases := (releases_iff before after).mpr ⟨blocked, active⟩
  rw [lastRelease, sinceRelease, (lifetime_call log before).1]
  refine ⟨List.find?_cons_of_pos hreleases, List.takeWhile_cons_of_neg ?_⟩
  rw [hreleases]
  rintro ⟨⟩

/-- A call that does not release a task leaves the last one that did so. -/
theorem lastRelease_kept (log : List Episode) (active : t.activity ≠ .blocked) :
    lastRelease h (e :: log) = lastRelease h log
      ∧ sinceRelease h (e :: log) = e :: sinceRelease h log := by
  have hkept : e.releases h = false :=
    Bool.eq_false_iff.mpr fun hreleases => active ((releases_iff before after).mp hreleases).1
  rw [lastRelease, sinceRelease, (lifetime_call log before).1]
  refine ⟨List.find?_cons_of_neg ?_, List.takeWhile_cons_of_pos ?_⟩
  · rw [hkept]
    rintro ⟨⟩
  · rw [hkept]
    rfl

/-- The flags go on to tell what the life of a task was, if a call carries them on. -/
theorem FlagsTell.call (tells : FlagsTell h log t)
    (carries : Task.Carries e.call h (e.before.outline.Notices e.call h) t t') :
    FlagsTell h (e :: log) t' := by
  obtain ⟨hlife, hbirth⟩ := lifetime_call log before
  refine ⟨carries.waiting, fun hactive' => ?timedOut, fun hactive' => ?cutShort, ?idle, ?throughout⟩
  case timedOut =>
    by_cases hblocked : t.activity = .blocked
    · obtain ⟨hlast, -⟩ := lastRelease_released before after log hblocked hactive'
      rw [(carries.released hblocked hactive').1, hlast]
      simp
    · obtain ⟨hlast, -⟩ := lastRelease_kept before after log hblocked
      rw [(carries.kept hblocked hactive').1, hlast]
      exact tells.timedOut hblocked
  case cutShort =>
    by_cases hblocked : t.activity = .blocked
    · obtain ⟨hlast, hsince⟩ := lastRelease_released before after log hblocked hactive'
      rw [(carries.released hblocked hactive').2, hlast, hsince]
      simp
    · -- the call is one more since the release, and may use up the mark
      obtain ⟨hlast, hsince⟩ := lastRelease_kept before after log hblocked
      rw [(carries.kept hblocked hactive').2, hlast, hsince, tells.cutShort hblocked,
        ← notices_outline, Bool.not_eq_true, List.forall_mem_cons, and_assoc]
      exact and_congr_right fun _ => and_comm
  case idle =>
    rw [carries.idle, hbirth]
    exact tells.idle
  case throughout =>
    rw [hlife, carries.idle]
    intro e' he' earlier hearlier
    rcases List.mem_cons.mp he' with rfl | he'
    · obtain rfl := Option.some.inj (before.symm.trans hearlier)
      rfl
    · exact tells.throughout e' he' earlier hearlier

end Step

/-- The flags of every live task tell how its last wait ended, in every run; a task is
    never marked as timed out and as cut short at once. -/
theorem flags_tell_ending (recounts : Recounts log k) (live : k.table.get? h = some t) :
    FlagsTell h log t ∧ ¬ (t.flags.timedOut = true ∧ t.flags.cutShort = true) := by
  -- the record differs from one end of the run to the next, so the task is generalised with it
  have htells : FlagsTell h log t := by
    induction recounts generalizing t with
    | initial valid =>
        rw [get?_outline] at live
        simp only [Outline.get?, tenant_initial, ite_self] at live
        cases live
    | @call log k c p r m earlier ran ih =>
        obtain ⟨hintact, hsound⟩ := (reachable_iff_recounts.mpr ⟨log, earlier⟩).intact
        obtain ⟨-, -, hstep⟩ := hintact.of_call hsound ran
        have haccounts := hsound.accounts_call hstep
        have hlive : m.state.outline.get? h = some t := (get?_outline _ h).symm.trans live
        cases hbefore : k.table.get? h with
        | none =>
            have hdead : k.outline.get? h = none := (get?_outline k h).symm.trans hbefore
            obtain ⟨hactive, hflags⟩ := haccounts.made h t hdead hlive
            exact flagsTell_made hbefore hactive hflags
        | some t₀ =>
            have hlive₀ : k.outline.get? h = some t₀ := (get?_outline k h).symm.trans hbefore
            have htells := ih hbefore
            exact htells.call hbefore live (haccounts.carried h t₀ t hlive₀ hlive htells.waiting)
  refine ⟨htells, ?_⟩
  rintro ⟨htimed, hcut⟩
  have hactive : t.activity ≠ .blocked := by
    intro hblocked
    rw [(htells.waiting hblocked).1] at htimed
    cases htimed
  obtain ⟨e, hlast, hticks⟩ := (htells.timedOut hactive).mp htimed
  obtain ⟨⟨e', hlast', hcall⟩, -⟩ := (htells.cutShort hactive).mp hcut
  -- no call lets a tick pass and cuts a wait short
  obtain rfl := Option.some.inj (hlast.symm.trans hlast')
  rw [hcall] at hticks
  exact Nat.lt_irrefl 0 hticks

/-- Of two tasks that pause the wait of one is cut short and that of the other times out;
    the idle task goes on, and each is marked for what has happened to it. -/
theorem flags_tell_ending_pauses :
    ∃ (log : List Episode) (k : Kernel) (idle late cut : Task), Recounts log k
      ∧ k.table.get? ⟨0, 0⟩ = some idle ∧ idle.flags = { idle := true }
      ∧ FlagsTell ⟨0, 0⟩ log idle
      ∧ k.table.get? ⟨1, 0⟩ = some late ∧ late.flags = { timedOut := true }
      ∧ FlagsTell ⟨1, 0⟩ log late
      ∧ k.table.get? ⟨2, 0⟩ = some cut ∧ cut.flags = { cutShort := true }
      ∧ FlagsTell ⟨2, 0⟩ log cut := by
  have hvalid : ({} : Settings).Valid := by decide
  have hdone : isDone (do
      let _ ← perform [.start 0, .create { name := "late", priority := 2 },
        .create { name := "cut", priority := 1 }, .switch, .pause 1, .pause 5,
        .cutShort ⟨2, 0⟩, .tick]
      let k ← read
      if (k.table.get? ⟨0, 0⟩).map Task.flags = some { idle := true }
          ∧ (k.table.get? ⟨1, 0⟩).map Task.flags = some { timedOut := true }
          ∧ (k.table.get? ⟨2, 0⟩).map Task.flags = some { cutShort := true } then
        pure ()
      else
        refuse .invalidState) ⟨initial {}, {}⟩ = true := by
    decide +kernel
  obtain ⟨⟨⟩, n, hrun⟩ := of_isDone hdone
  obtain ⟨rs, m, hperformed, hrun⟩ := of_bind_ok hrun
  obtain ⟨k, m', hread, hrun⟩ := of_bind_ok hrun
  obtain ⟨rfl, rfl⟩ := EStateM.Result.ok.inj hread
  obtain ⟨⟨hidle, hlate, hcut⟩, -⟩ := of_unless_ok hrun
  have hinitial : Recounts [] (⟨initial {}, {}⟩ : Machine Kernel).state := .initial hvalid
  obtain ⟨later, -, hrecounts⟩ := hinitial.perform hperformed
  obtain ⟨idle, hidle, hidleFlags⟩ := Option.map_eq_some_iff.mp hidle
  obtain ⟨late, hlate, hlateFlags⟩ := Option.map_eq_some_iff.mp hlate
  obtain ⟨cut, hcut, hcutFlags⟩ := Option.map_eq_some_iff.mp hcut
  exact ⟨_, m.state, idle, late, cut, hrecounts, hidle, hidleFlags,
    (flags_tell_ending hrecounts hidle).1, hlate, hlateFlags, (flags_tell_ending hrecounts hlate).1,
    hcut, hcutFlags, (flags_tell_ending hrecounts hcut).1⟩

end Kernel

end PriorityScheduler
