import Minimus32.TempLogger.Program

namespace Minimus32.TempLogger

/-- What the commands alone say: whether the last of `-`, `S`, `R` and `+` was one of the first two, and
    whether the last of `+` and `-` was `+`. -/
@[ext]
structure Control where
  stopped : Bool
  forced : Bool
deriving DecidableEq

def Control.observe (c : Control) : Observation → Control
  | .commanded type =>
    if type = ascii '+' then ⟨false, true⟩
    else if type = ascii '-' then ⟨true, false⟩
    else if type = ascii 'S' then { c with stopped := true }
    else if type = ascii 'R' then { c with stopped := false }
    else c

def Quiet (seen : List Observation) : Prop :=
  ∀ o ∈ seen, o ≠ .commanded (ascii 'R') ∧ o ≠ .commanded (ascii '+')

def Control.halted : Control := ⟨true, false⟩

theorem Control.observe_halted {o : Observation} (notResumed : o ≠ .commanded (ascii 'R'))
    (notForced : o ≠ .commanded (ascii '+')) : Control.halted.observe o = .halted := by
  obtain ⟨type⟩ := o
  have typeR : type ≠ ascii 'R' := fun same => notResumed (by rw [same])
  have typePlus : type ≠ ascii '+' := fun same => notForced (by rw [same])
  simp only [Control.halted, Control.observe, if_neg typeR, if_neg typePlus, ite_self]

theorem Control.foldl_halted {seen : List Observation} (quiet : Quiet seen) :
    seen.foldl Control.observe .halted = .halted := by
  induction seen with
  | nil => rfl
  | cons o seen ih =>
    obtain ⟨notResumed, notForced⟩ := quiet o (by simp)
    rw [List.foldl_cons, Control.observe_halted notResumed notForced]
    exact ih (fun later member => quiet later (by simp [member]))

/-- What the relay's safety rests on: the output, whether the program runs, whether the turn-off is
    registered, and what the commands say. -/
structure Mode where
  on : Bool
  program : Bool
  timed : Bool
  control : Control
deriving DecidableEq

inductive Move where
  | rest
  | hold
  | switchOff
  | start
  | expire
  | force
  | release
  | halt
  | resume (accepted : Bool)

/-- The output is only held on when that has been commanded, and the timer is only started when it
    has not, for a running program. -/
def Mode.Allows (m : Mode) : Move → Prop
  | .hold => m.control.forced = true
  | .start => m.control.forced = false ∧ m.program = true
  | _ => True

def Mode.move (m : Mode) : Move → Mode
  | .rest => m
  | .hold => { m with on := true }
  | .switchOff => { m with on := false }
  | .start => { m with on := true, timed := true }
  | .expire => { m with on := false, timed := false }
  | .force => { m with on := true, control := ⟨false, true⟩ }
  | .release => { m with on := false, program := false, control := .halted }
  | .halt => { m with on := false, program := false, control := { m.control with stopped := true } }
  | .resume accepted =>
    { m with program := m.program || accepted, control := { m.control with stopped := false } }

structure Mode.Safe (m : Mode) : Prop where
  scheduled : m.on = true → m.control.forced = true ∨ (m.program = true ∧ m.timed = true)
  off : m.control.stopped = true → m.control.forced = false → m.on = false ∧ m.program = false

theorem Mode.Safe.switchOff {m : Mode} (safe : m.Safe) (timed : Bool) :
    Mode.Safe { m with on := false, timed := timed } := by
  constructor
  · intro on
    exact absurd on Bool.false_ne_true
  · intro stopped forced
    exact ⟨rfl, (safe.off stopped forced).2⟩

theorem Mode.Safe.move {m : Mode} (safe : m.Safe) {move : Move} (allowed : m.Allows move) : (m.move move).Safe := by
  cases move with
  | rest => exact safe
  | hold =>
    refine ⟨fun _ => .inl allowed, ?_⟩
    intro _ forced
    exact absurd (forced.symm.trans allowed) Bool.false_ne_true
  | switchOff => exact safe.switchOff m.timed
  | start =>
    obtain ⟨notForced, program⟩ := allowed
    refine ⟨fun _ => .inr ⟨program, rfl⟩, ?_⟩
    -- A stopped program is not running, so it cannot have started the timer.
    intro stopped _
    exact absurd ((safe.off stopped notForced).2.symm.trans program) Bool.false_ne_true
  | expire => exact safe.switchOff false
  | force => exact ⟨fun _ => .inl rfl, fun stopped => absurd stopped Bool.false_ne_true⟩
  | release => exact ⟨fun on => absurd on Bool.false_ne_true, fun _ _ => ⟨rfl, rfl⟩⟩
  | halt => exact ⟨fun on => absurd on Bool.false_ne_true, fun _ _ => ⟨rfl, rfl⟩⟩
  | resume accepted =>
    refine ⟨?_, fun stopped => absurd stopped Bool.false_ne_true⟩
    intro on
    rcases safe.scheduled on with forced | ⟨program, timed⟩
    · exact .inl forced
    · exact .inr ⟨by simp [Mode.move, program], timed⟩

end Minimus32.TempLogger
