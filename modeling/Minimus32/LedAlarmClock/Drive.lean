import Minimus32.Library.Register

namespace Minimus32.LedAlarmClock

/-- The set point and the PWM value of the program, and the registers that drive the LED. -/
structure Drive where
  ledCurrentSP : Int16
  ledPWM : UInt16
  tccr0a : UInt8
  tccr0b : UInt8
  ocr0a : UInt8
  ocr0b : UInt8
  portd : UInt8
deriving DecidableEq

/-- `PANIC_LED_RAW_CURRENT` -/
def panicLedRawCurrent : UInt16 := 973

def setLedPWM (d : Drive) (setPoint : UInt16) : Drive :=
  let d := { d with ledPWM := setPoint }
  if setPoint > 0 then
    { d with tccr0a := 0b10000011, tccr0b := 1, ocr0a := (setPoint - 1).toUInt8, ocr0b := 190 }
  else
    { d with tccr0a := 0b00000011, portd := d.portd &&& ~~~0b01000000 }

def encoderCallbackFiltered (d : Drive) (up : UInt8) : Drive :=
  if up ≠ 0 then
    if d.ledCurrentSP < 400 then { d with ledCurrentSP := d.ledCurrentSP + 1 } else d
  else
    if d.ledCurrentSP > 0 then { d with ledCurrentSP := d.ledCurrentSP - 1 } else d

def spBandSize (ledCurrentSP : Int16) : Int16 :=
  if ledCurrentSP / 20 < 2 then 2 else ledCurrentSP / 20

/-- The value `regulate` hands to `setLedPWM`. -/
def regulatedPWM (d : Drive) (ledCurrent : Int16) : UInt16 :=
  if d.ledCurrentSP = 0 then 0
  else if d.ledPWM ≤ 255 ∧ d.ledCurrentSP - spBandSize d.ledCurrentSP > ledCurrent then d.ledPWM + 1
  else if d.ledPWM > 0 ∧ d.ledCurrentSP + spBandSize d.ledCurrentSP < ledCurrent then d.ledPWM - 1
  else d.ledPWM

/-- `measured` is the result of `getLEDCurrent`. -/
def regulate (d : Drive) (measured : UInt16) : Drive := setLedPWM d (regulatedPWM d measured.toInt16)

def ledCurrentCallback (d : Drive) (rawCurrent : UInt16) : Drive :=
  if rawCurrent > panicLedRawCurrent then setLedPWM d 0 else d

inductive Event where
  | encoder (up : UInt8)
  | regulate (measured : UInt16)
  | sample (rawCurrent : UInt16)
deriving DecidableEq

def Drive.handle (d : Drive) : Event → Drive
  | .encoder up => encoderCallbackFiltered d up
  | .regulate measured => LedAlarmClock.regulate d measured
  | .sample rawCurrent => ledCurrentCallback d rawCurrent

def Drive.run (d : Drive) (events : List Event) : Drive := events.foldl Drive.handle d

/-- The drive when `main` has called `setLedPWM(0)`. -/
def Drive.start (registers : Drive) : Drive := setLedPWM { registers with ledCurrentSP := 10 } 0

/-- The compare output mode bits of timer 0 give the pin to the timer. -/
def Drive.connected (d : Drive) : Bool := Register.bit d.tccr0a 7 || Register.bit d.tccr0a 6

def Event.regulates : Event → Bool
  | .regulate _ => true
  | .encoder _ | .sample _ => false

theorem ledPWM_setLedPWM (d : Drive) (setPoint : UInt16) : (setLedPWM d setPoint).ledPWM = setPoint := by
  unfold setLedPWM
  dsimp only
  split <;> rfl

theorem ledCurrentSP_setLedPWM (d : Drive) (setPoint : UInt16) :
    (setLedPWM d setPoint).ledCurrentSP = d.ledCurrentSP := by
  unfold setLedPWM
  dsimp only
  split <;> rfl

theorem encoderCallbackFiltered_eq (d : Drive) (up : UInt8) :
    encoderCallbackFiltered d up = { d with ledCurrentSP := (encoderCallbackFiltered d up).ledCurrentSP } := by
  unfold encoderCallbackFiltered
  split <;> split <;> rfl

/-- Output and compare register show the PWM value. -/
structure Drive.Shows (d : Drive) : Prop where
  range : d.ledPWM.toNat ≤ 256
  connected : d.connected = true ↔ 0 < d.ledPWM.toNat
  compare : 0 < d.ledPWM.toNat → d.ocr0a.toNat + 1 = d.ledPWM.toNat

structure Drive.Safe (d : Drive) : Prop extends d.Shows where
  low : 0 ≤ d.ledCurrentSP.toInt
  high : d.ledCurrentSP.toInt ≤ 400

theorem toNat_pred {setPoint : UInt16} (positive : 0 < setPoint) : (setPoint - 1).toNat = setPoint.toNat - 1 := by
  have bound : 1 ≤ setPoint.toNat := UInt16.lt_iff_toNat_lt.mp positive
  exact UInt16.toNat_sub_of_le _ _ (UInt16.le_iff_toNat_le.mpr bound)

theorem setLedPWM_shows (d : Drive) {setPoint : UInt16} (range : setPoint.toNat ≤ 256) :
    (setLedPWM d setPoint).Shows := by
  unfold setLedPWM
  dsimp only
  split
  next positive =>
    have value : 0 < setPoint.toNat := UInt16.lt_iff_toNat_lt.mp positive
    refine ⟨range, ?_, ?_⟩
    · simp only [value, iff_true]
      show (Register.bit 0b10000011 7 || Register.bit 0b10000011 6) = true
      decide
    · intro _
      show (setPoint - 1).toUInt8.toNat + 1 = setPoint.toNat
      rw [UInt16.toNat_toUInt8, toNat_pred positive]
      omega
  next zero =>
    have value : ¬ 0 < setPoint.toNat := fun positive => zero (UInt16.lt_iff_toNat_lt.mpr positive)
    refine ⟨range, ?_, ?_⟩
    · simp only [value, iff_false]
      show ¬ (Register.bit 0b00000011 7 || Register.bit 0b00000011 6) = true
      decide
    · intro positive
      exact absurd positive value

theorem regulatedPWM_cases (d : Drive) (ledCurrent : Int16) :
    d.ledCurrentSP = 0 ∧ regulatedPWM d ledCurrent = 0 ∨
      d.ledPWM.toNat ≤ 255 ∧ (regulatedPWM d ledCurrent).toNat = d.ledPWM.toNat + 1 ∨
      (regulatedPWM d ledCurrent).toNat + 1 = d.ledPWM.toNat ∨ regulatedPWM d ledCurrent = d.ledPWM := by
  unfold regulatedPWM
  split
  next off => exact .inl ⟨off, rfl⟩
  next =>
    split
    next up =>
      have small : d.ledPWM.toNat ≤ 255 := UInt16.le_iff_toNat_le.mp up.1
      refine .inr (.inl ⟨small, ?_⟩)
      rw [UInt16.toNat_add]
      show (d.ledPWM.toNat + 1) % 65536 = _
      omega
    next =>
      split
      next down =>
        have positive : 0 < d.ledPWM.toNat := UInt16.lt_iff_toNat_lt.mp down.1
        refine .inr (.inr (.inl ?_))
        rw [toNat_pred down.1]
        omega
      next => exact .inr (.inr (.inr rfl))

theorem regulatedPWM_le (d : Drive) (ledCurrent : Int16) (range : d.ledPWM.toNat ≤ 256) :
    (regulatedPWM d ledCurrent).toNat ≤ 256 ∧ (regulatedPWM d ledCurrent).toNat ≤ d.ledPWM.toNat + 1 := by
  rcases regulatedPWM_cases d ledCurrent with ⟨_, off⟩ | ⟨small, up⟩ | down | same
  · rw [off]
    simp
  · omega
  · omega
  · rw [same]
    omega

theorem regulatedPWM_near (d : Drive) (ledCurrent : Int16) (on : d.ledCurrentSP ≠ 0) :
    (regulatedPWM d ledCurrent).toNat ≤ d.ledPWM.toNat + 1 ∧
      d.ledPWM.toNat ≤ (regulatedPWM d ledCurrent).toNat + 1 := by
  rcases regulatedPWM_cases d ledCurrent with ⟨off, _⟩ | ⟨_, up⟩ | down | same
  · exact absurd off on
  · omega
  · omega
  · rw [same]
    omega

theorem encoderCallbackFiltered_range (d : Drive) (up : UInt8) (low : 0 ≤ d.ledCurrentSP.toInt)
    (high : d.ledCurrentSP.toInt ≤ 400) :
    0 ≤ (encoderCallbackFiltered d up).ledCurrentSP.toInt ∧
      (encoderCallbackFiltered d up).ledCurrentSP.toInt ≤ 400 := by
  unfold encoderCallbackFiltered
  split
  · split
    next below =>
      have small : d.ledCurrentSP.toInt < 400 := Int16.lt_iff_toInt_lt.mp below
      have value : (d.ledCurrentSP + 1).toInt = d.ledCurrentSP.toInt + 1 := by
        rw [Int16.toInt_add]
        exact Int.bmod_eq_of_le (by simp; omega) (by simp; omega)
      rw [value]
      omega
    next => exact ⟨low, high⟩
  · split
    next above =>
      have positive : 0 < d.ledCurrentSP.toInt := Int16.lt_iff_toInt_lt.mp above
      have value : (d.ledCurrentSP - 1).toInt = d.ledCurrentSP.toInt - 1 := by
        rw [Int16.toInt_sub]
        exact Int.bmod_eq_of_le (by simp; omega) (by simp; omega)
      rw [value]
      omega
    next => exact ⟨low, high⟩

theorem Drive.Safe.setLedPWM {d : Drive} (safe : d.Safe) {setPoint : UInt16} (range : setPoint.toNat ≤ 256) :
    (setLedPWM d setPoint).Safe := by
  refine ⟨setLedPWM_shows d range, ?_, ?_⟩
  · rw [ledCurrentSP_setLedPWM]
    exact safe.low
  · rw [ledCurrentSP_setLedPWM]
    exact safe.high

theorem Drive.Safe.handle {d : Drive} (safe : d.Safe) (event : Event) : (d.handle event).Safe := by
  cases event with
  | encoder up =>
    have range := encoderCallbackFiltered_range d up safe.low safe.high
    rw [Drive.handle, encoderCallbackFiltered_eq]
    exact ⟨⟨safe.range, safe.connected, safe.compare⟩, range.1, range.2⟩
  | regulate measured => exact safe.setLedPWM (regulatedPWM_le d measured.toInt16 safe.range).1
  | sample rawCurrent =>
    rw [Drive.handle, ledCurrentCallback]
    split
    · exact safe.setLedPWM (by simp)
    · exact safe

theorem Drive.Safe.run {d : Drive} (safe : d.Safe) (events : List Event) : (d.run events).Safe := by
  induction events generalizing d with
  | nil => exact safe
  | cons event events ih => exact ih (safe.handle event)

theorem Drive.start_safe (registers : Drive) : registers.start.Safe := by
  have setPoint : registers.start.ledCurrentSP = 10 := ledCurrentSP_setLedPWM _ 0
  refine ⟨setLedPWM_shows _ (by simp), ?_, ?_⟩
  · rw [setPoint]
    decide
  · rw [setPoint]
    decide

theorem Drive.Safe.ledPWM_handle_le {d : Drive} (safe : d.Safe) (event : Event) :
    (d.handle event).ledPWM.toNat ≤ d.ledPWM.toNat + if event.regulates then 1 else 0 := by
  cases event with
  | encoder up =>
    rw [Drive.handle, encoderCallbackFiltered_eq]
    exact Nat.le_refl _
  | regulate measured =>
    rw [Drive.handle, LedAlarmClock.regulate, ledPWM_setLedPWM]
    exact (regulatedPWM_le d measured.toInt16 safe.range).2
  | sample rawCurrent =>
    rw [Drive.handle, ledCurrentCallback]
    split
    · rw [ledPWM_setLedPWM]
      simp
    · exact Nat.le_refl _

/-- The PWM value rises by one at most with every call of `regulate`. -/
theorem Drive.Safe.ledPWM_run_le {d : Drive} (safe : d.Safe) (events : List Event) :
    (d.run events).ledPWM.toNat ≤ d.ledPWM.toNat + events.countP Event.regulates := by
  induction events generalizing d with
  | nil => exact Nat.le_refl _
  | cons event events ih =>
    have first := safe.ledPWM_handle_le event
    have rest := ih (safe.handle event)
    rw [List.countP_cons]
    calc ((d.handle event).run events).ledPWM.toNat
        ≤ (d.handle event).ledPWM.toNat + events.countP Event.regulates := rest
      _ ≤ d.ledPWM.toNat + (events.countP Event.regulates + if event.regulates then 1 else 0) := by omega

theorem Drive.ledPWM_run_panic (d : Drive) (safe : d.Safe) {rawCurrent : UInt16}
    (panic : panicLedRawCurrent < rawCurrent) (later : List Event) :
    (d.run (.sample rawCurrent :: later)).ledPWM.toNat ≤ later.countP Event.regulates := by
  have off : (d.handle (.sample rawCurrent)).ledPWM = 0 := by
    rw [Drive.handle, ledCurrentCallback, if_pos panic, ledPWM_setLedPWM]
  have bound := (safe.handle (.sample rawCurrent)).ledPWM_run_le later
  rw [off, UInt16.toNat_zero, Nat.zero_add] at bound
  exact bound

/-- The LED drive is safe whatever the encoder, the regulator and the current samples do. -/
theorem led_drive_safe (registers : Drive) (events : List Event) :
    let d := registers.start.run events
    0 ≤ d.ledCurrentSP.toInt ∧ d.ledCurrentSP.toInt ≤ 400 ∧ d.ledPWM.toNat ≤ 256 ∧
      (d.connected = true ↔ 0 < d.ledPWM.toNat) ∧
      (0 < d.ledPWM.toNat → d.ocr0a.toNat = d.ledPWM.toNat - 1) ∧
      (∀ measured, d.ledCurrentSP ≠ 0 →
        (regulate d measured).ledPWM.toNat ≤ d.ledPWM.toNat + 1 ∧
          d.ledPWM.toNat ≤ (regulate d measured).ledPWM.toNat + 1) ∧
      ∀ before rawCurrent later, events = before ++ .sample rawCurrent :: later →
        panicLedRawCurrent < rawCurrent → d.ledPWM.toNat ≤ later.countP Event.regulates := by
  intro d
  have safe : d.Safe := registers.start_safe.run events
  refine ⟨safe.low, safe.high, safe.range, safe.connected, ?_, ?_, ?_⟩
  · intro positive
    have compare := safe.compare positive
    omega
  · intro measured on
    rw [regulate, ledPWM_setLedPWM]
    exact regulatedPWM_near d measured.toInt16 on
  · intro before rawCurrent later split panic
    have whole : d = (registers.start.run before).run (.sample rawCurrent :: later) := by
      show registers.start.run events = _
      rw [split, Drive.run, List.foldl_append]
      rfl
    rw [whole]
    exact Drive.ledPWM_run_panic _ (registers.start_safe.run before) panic later

end Minimus32.LedAlarmClock
