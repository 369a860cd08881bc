import Mathlib.Data.UInt
import Mathlib.Logic.Function.Basic

namespace Minimus32.HwRcServo

structure Servo where
  onPeriod : UInt16
  remainingPeriod : UInt16
deriving DecidableEq

structure Servos where
  numberOfServos : UInt8
  servoIndex : UInt8
  lastTick : UInt16
  ticksRemainingIn50Hz : UInt32
  servos : Nat → Servo

def ticksPerServoPeriod : UInt32 := 16 * 1000 * 20

def ticksPerBasePeriod : UInt16 := 16 * 1000

def ticksPerSignalPeriod : UInt16 := 16 * 1000

/-- `servoBuffers` is the memory at the pointer passed to `hw_servo_init`. -/
def Servos.init (servoBuffers : Nat → Servo) (numberOfServos : UInt8) : Servos where
  numberOfServos := numberOfServos
  servoIndex := 0
  lastTick := 0
  ticksRemainingIn50Hz := ticksPerServoPeriod
  servos i :=
    if i < numberOfServos.toNat then
      ⟨ticksPerBasePeriod + ticksPerSignalPeriod / 2, ticksPerBasePeriod + ticksPerSignalPeriod / 2⟩
    else servoBuffers i

def Servos.set (s : Servos) (index : UInt8) (position : UInt16) : Servos :=
  let fraction := ticksPerSignalPeriod.toUInt32 * position.toUInt32 / 1024
  if index ≥ s.numberOfServos then s
  else { s with servos := Function.update s.servos index.toNat
                  { s.servos index.toNat with onPeriod := fraction.toUInt16 + ticksPerBasePeriod } }

/-- The value of `ticks` that `ISR(TIMER1_COMPC_vect)` subtracts. -/
def Servos.ticks (s : Servos) : UInt16 :=
  if s.servoIndex = s.numberOfServos then
    if s.ticksRemainingIn50Hz ≥ 16 * 1000 * 2 then 16 * 1000
    else if s.ticksRemainingIn50Hz > 16 * 1000 then (s.ticksRemainingIn50Hz >>> 1).toUInt16
    else s.ticksRemainingIn50Hz.toUInt16
  else
    let ticks := (s.servos s.servoIndex.toNat).remainingPeriod
    if ticks ≥ 16 * 1000 * 2 then 16 * 1000
    else if ticks > 16 * 1000 then (s.ticksRemainingIn50Hz >>> 1).toUInt16
    else ticks

def Servos.isr (s : Servos) : Servos :=
  let servos :=
    if s.servoIndex = s.numberOfServos then s.servos
    else
      let servo := s.servos s.servoIndex.toNat
      Function.update s.servos s.servoIndex.toNat { servo with remainingPeriod := servo.remainingPeriod - s.ticks }
  { s with servos := servos, ticksRemainingIn50Hz := s.ticksRemainingIn50Hz - s.ticks.toUInt32 }

inductive Event where
  | set (index : UInt8) (position : UInt16)
  | isr
deriving DecidableEq

def Servos.step (s : Servos) : Event → Servos
  | .set index position => s.set index position
  | .isr => s.isr

def Servos.run (s : Servos) (events : List Event) : Servos := events.foldl Servos.step s

/-- The delay the interrupt is about to choose is at most a millisecond and fits in what it is subtracted from. -/
structure Servos.Accounted (s : Servos) : Prop where
  short : s.ticks ≤ 16000
  frame : s.ticks.toUInt32 ≤ s.ticksRemainingIn50Hz
  servo : s.servoIndex ≠ s.numberOfServos → s.ticks ≤ (s.servos s.servoIndex.toNat).remainingPeriod

/-- While the rest of the frame passes the three cases use the remainder they subtract from. -/
theorem Servos.accounted_waiting {s : Servos} (waiting : s.servoIndex = s.numberOfServos) : s.Accounted := by
  have bound := s.ticksRemainingIn50Hz.toNat_lt
  have value : s.ticks.toNat ≤ 16000 ∧ s.ticks.toNat ≤ s.ticksRemainingIn50Hz.toNat := by
    rw [Servos.ticks, if_pos waiting]
    by_cases full : s.ticksRemainingIn50Hz ≥ 16 * 1000 * 2
    · have enough : 32000 ≤ s.ticksRemainingIn50Hz.toNat := UInt32.le_iff_toNat_le.mp full
      rw [if_pos full]
      show 16000 ≤ 16000 ∧ 16000 ≤ _
      omega
    · have less : s.ticksRemainingIn50Hz.toNat < 32000 := UInt32.lt_iff_toNat_lt.mp (UInt32.not_le.mp full)
      rw [if_neg full]
      by_cases more : s.ticksRemainingIn50Hz > 16 * 1000
      · have half : (s.ticksRemainingIn50Hz >>> 1).toNat = s.ticksRemainingIn50Hz.toNat / 2 := by
          simp [Nat.shiftRight_eq_div_pow]
        rw [if_pos more, UInt32.toNat_toUInt16, half]
        omega
      · have rest : s.ticksRemainingIn50Hz.toNat ≤ 16000 := UInt32.le_iff_toNat_le.mp (UInt32.not_lt.mp more)
        rw [if_neg more, UInt32.toNat_toUInt16]
        omega
  refine ⟨UInt16.le_iff_toNat_le.mpr value.1, ?_, fun serving => absurd waiting serving⟩
  rw [UInt32.le_iff_toNat_le, UInt16.toNat_toUInt32]
  exact value.2

/-- No interrupt has run since `hw_servo_init`. -/
structure Servos.Fresh (s : Servos) (numberOfServos : UInt8) : Prop where
  number : s.numberOfServos = numberOfServos
  index : s.servoIndex = 0
  frame : s.ticksRemainingIn50Hz = ticksPerServoPeriod
  centred : ∀ i < numberOfServos.toNat, (s.servos i).remainingPeriod = 24000

theorem Servos.init_fresh (servoBuffers : Nat → Servo) (numberOfServos : UInt8) :
    (Servos.init servoBuffers numberOfServos).Fresh numberOfServos := by
  refine ⟨rfl, rfl, rfl, ?_⟩
  intro i inside
  simp only [Servos.init, if_pos inside]
  rfl

theorem Servos.set_remainingPeriod (s : Servos) (index : UInt8) (position : UInt16) (i : Nat) :
    ((s.set index position).servos i).remainingPeriod = (s.servos i).remainingPeriod := by
  unfold Servos.set
  dsimp only
  split
  · rfl
  · show (Function.update s.servos index.toNat _ i).remainingPeriod = _
    by_cases here : i = index.toNat
    · rw [here, Function.update_self]
    · rw [Function.update_of_ne here]

theorem Servos.set_same (s : Servos) (index : UInt8) (position : UInt16) :
    (s.set index position).numberOfServos = s.numberOfServos ∧ (s.set index position).servoIndex = s.servoIndex ∧
      (s.set index position).ticksRemainingIn50Hz = s.ticksRemainingIn50Hz := by
  unfold Servos.set
  dsimp only
  split <;> exact ⟨rfl, rfl, rfl⟩

theorem Servos.Fresh.set {s : Servos} {numberOfServos : UInt8} (fresh : s.Fresh numberOfServos) (index : UInt8)
    (position : UInt16) : (s.set index position).Fresh numberOfServos := by
  obtain ⟨number, place, frame⟩ := s.set_same index position
  refine ⟨number.trans fresh.number, place.trans fresh.index, frame.trans fresh.frame, ?_⟩
  intro i inside
  rw [s.set_remainingPeriod]
  exact fresh.centred i inside

theorem Servos.Fresh.run {s : Servos} {numberOfServos : UInt8} (fresh : s.Fresh numberOfServos) {events : List Event}
    (none : .isr ∉ events) : (s.run events).Fresh numberOfServos := by
  induction events generalizing s with
  | nil => exact fresh
  | cons event events ih =>
    have later : .isr ∉ events := fun member => none (List.mem_cons_of_mem _ member)
    cases event with
    | set index position => exact ih (fresh.set index position) later
    | isr => exact absurd (List.mem_cons_self ..) none

/-- A centred servo has more than one and less than two milliseconds to go, and half of the frame is taken instead of
    half of them. -/
theorem Servos.Fresh.not_accounted {s : Servos} {numberOfServos : UInt8} (fresh : s.Fresh numberOfServos)
    (some : numberOfServos ≠ 0) : ¬ s.Accounted := by
  have positive : 0 < numberOfServos.toNat := Nat.pos_of_ne_zero fun zero => some (UInt8.toNat_inj.mp zero)
  have serving : s.servoIndex ≠ s.numberOfServos := by
    rw [fresh.index, fresh.number]
    exact fun zero => some zero.symm
  have centred : (s.servos s.servoIndex.toNat).remainingPeriod = 24000 := by
    rw [fresh.index]
    exact fresh.centred 0 positive
  have ticks : s.ticks = 28928 := by
    simp only [Servos.ticks, if_neg serving, centred, fresh.frame]
    decide
  intro accounted
  have short := accounted.short
  rw [ticks] at short
  exact absurd short (by decide)

theorem Servos.step_waiting {s : Servos} (none : s.numberOfServos = 0 ∧ s.servoIndex = 0) (event : Event) :
    (s.step event).numberOfServos = 0 ∧ (s.step event).servoIndex = 0 := by
  cases event with
  | set index position =>
    obtain ⟨number, place, -⟩ := s.set_same index position
    exact ⟨number.trans none.1, place.trans none.2⟩
  | isr => exact none

theorem Servos.run_waiting {s : Servos} (none : s.numberOfServos = 0 ∧ s.servoIndex = 0) (events : List Event) :
    (s.run events).numberOfServos = 0 ∧ (s.run events).servoIndex = 0 := by
  induction events generalizing s with
  | nil => exact none
  | cons event events ih => exact ih (s.step_waiting none event)

/-- The accounting is right in a run exactly if it has no servo to serve or no interrupt at all. -/
theorem accounted_run_iff (servoBuffers : Nat → Servo) (numberOfServos : UInt8) (events : List Event) :
    (∀ before after, events = before ++ .isr :: after →
      ((Servos.init servoBuffers numberOfServos).run before).Accounted) ↔
    numberOfServos = 0 ∨ .isr ∉ events := by
  constructor
  · intro accounted
    by_contra both
    rw [not_or, not_not] at both
    obtain ⟨before, after, split, first⟩ := List.eq_append_cons_of_mem both.2
    have fresh := (Servos.init_fresh servoBuffers numberOfServos).run first
    exact fresh.not_accounted both.1 (accounted before after split)
  · intro either before after split
    rcases either with zero | none
    · have start : (Servos.init servoBuffers numberOfServos).numberOfServos = 0 ∧
          (Servos.init servoBuffers numberOfServos).servoIndex = 0 := ⟨zero, rfl⟩
      have waiting := Servos.run_waiting start before
      exact Servos.accounted_waiting (waiting.2.trans waiting.1.symm)
    · rw [split] at none
      exact absurd (by simp) none

/-- One servo: the first interrupt takes 28928 ticks from 24000. -/
theorem first_interrupt_wraps :
    let s := Servos.init (fun _ => ⟨0, 0⟩) 1
    ¬ s.Accounted ∧ s.ticks = 28928 ∧ (s.servos 0).remainingPeriod = 24000 ∧
      (s.isr.servos 0).remainingPeriod = 60608 := by
  refine ⟨(Servos.init_fresh _ 1).not_accounted (by decide), ?_⟩
  decide

end Minimus32.HwRcServo
