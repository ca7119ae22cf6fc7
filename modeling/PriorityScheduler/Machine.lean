import PriorityScheduler.Journal

/-! # Machines and routines

    A scheduler runs on a platform: the part of a system that swaps registers,
    holds off interrupts and keeps the journal.  A machine is a state together
    with its platform, and a routine is a step of a machine that yields a value,
    is refused, or meets a fault.  In all three cases the machine that it leaves
    behind is part of the outcome, and so is every effect on the platform, in
    the order in which they happened. -/

namespace PriorityScheduler

/-! ## The platform -/

/-- What a routine does that is seen outside the state. -/
inductive Effect where
  /-- The platform was asked to hold off interrupts, and answered. -/
  | mask (answer : Bool)
  /-- The platform was asked to go back to what it had answered. -/
  | restore (saved : Bool)
  /-- The platform was told to swap the outgoing task for the incoming one. -/
  | switch (outgoing : Option Handle) (incoming : Handle)
  /-- A record was written to the journal. -/
  | log (record : Record)
  deriving DecidableEq, Repr

/-- The part of a system that a scheduler runs on. -/
structure Platform where
  /-- Whether the platform can hold off interrupts.  One that cannot answers
      every request with `false`. -/
  canMask : Bool := true
  /-- Whether interrupts come through. -/
  interruptsOn : Bool := true
  /-- All effects so far, the first one first. -/
  effects : Array Effect := #[]
  deriving DecidableEq, Repr

namespace Platform

/-- Write down an effect. -/
def note (p : Platform) (e : Effect) : Platform :=
  { p with effects := p.effects.push e }

/-- What the platform answers to a request to hold off interrupts: whether they
    came through before. -/
def maskAnswer (p : Platform) : Bool := p.canMask && p.interruptsOn

/-- Hold off interrupts. -/
def mask (p : Platform) : Platform :=
  { p.note (.mask p.maskAnswer) with interruptsOn := p.interruptsOn && !p.canMask }

/-- Go back to what a mask answered. -/
def restore (p : Platform) (saved : Bool) : Platform :=
  { p.note (.restore saved) with
    interruptsOn := if p.canMask then saved else p.interruptsOn }

/-- A mask and its restore leave interrupts as they were. -/
theorem interruptsOn_restore_mask (p : Platform) :
    (p.mask.restore p.maskAnswer).interruptsOn = p.interruptsOn := by
  cases h : p.canMask <;> simp [restore, mask, note, maskAnswer, h]

end Platform

/-! ## Routines -/

/-- A state and the platform it runs on. -/
structure Machine (σ : Type) where
  state : σ
  platform : Platform
  deriving DecidableEq, Repr

/-- A step of a machine. -/
abbrev Routine (σ : Type) (α : Type) : Type :=
  EStateM Failure (Machine σ) α

namespace Routine

variable {σ α : Type}

/-! ### State -/

/-- The present state. -/
def read : Routine σ σ := fun m => .ok m.state m

/-- Change the state. -/
def update (f : σ → σ) : Routine σ Unit := fun m =>
  .ok () { m with state := f m.state }

/-- Change the state by a step that can fail, and then leaves it as it was. -/
def apply (f : σ → Except Failure σ) : Routine σ Unit := fun m =>
  match f m.state with
  | .ok s => .ok () { m with state := s }
  | .error e => .error e m

/-- Change the state by a step that yields a value or fails, and then leaves it
    as it was. -/
def applyGet (f : σ → Except Failure (α × σ)) : Routine σ α := fun m =>
  match f m.state with
  | .ok (a, s) => .ok a { m with state := s }
  | .error e => .error e m

/-- Look something up in the state. -/
def look (f : σ → Except Failure α) : Routine σ α := fun m =>
  match f m.state with
  | .ok a => .ok a m
  | .error e => .error e m

/-! ### Failure -/

/-- Refuse. -/
def refuse (cause : Refusal) : Routine σ α := fun m => .error (.refused cause) m

/-- Stop the system. -/
def stop (what : Fault) : Routine σ α := fun m => .error (.fault what) m

/-- Run a routine and hand back its refusal as a value; a fault goes through. -/
def attempt (body : Routine σ α) : Routine σ (Except Refusal α) := fun m =>
  match body m with
  | .ok a m => .ok (.ok a) m
  | .error (.refused cause) m => .ok (.error cause) m
  | .error (.fault what) m => .error (.fault what) m

/-! ### Effects -/

/-- Have an effect on the platform. -/
def emit (e : Effect) : Routine σ Unit := fun m =>
  .ok () { m with platform := m.platform.note e }

/-- Write a record to the journal. -/
def log (r : Record) : Routine σ Unit := emit (.log r)

/-- Have the platform swap the outgoing task for the incoming one. -/
def switchTo (outgoing : Option Handle) (incoming : Handle) : Routine σ Unit :=
  emit (.switch outgoing incoming)

/-- Run a routine with interrupts held off.  However it ends, the platform goes
    back to what it had answered. -/
def masked (body : Routine σ α) : Routine σ α := fun m =>
  let saved := m.platform.maskAnswer
  match body { m with platform := m.platform.mask } with
  | .ok a m => .ok a { m with platform := m.platform.restore saved }
  | .error e m => .error e { m with platform := m.platform.restore saved }

end Routine

end PriorityScheduler
