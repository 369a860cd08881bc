import Minimus32.BoardSupport.ExternalInterrupt
import Minimus32.Library.TracedRun

namespace Minimus32.Dht11

open ExternalInterrupt

inductive State where
  | stateInit
  | idle
  | sendingStart
  | waitingForAck
  | gotAckWaitIdle
  | waitingForBitSync
  | waitingForBitEnd
deriving DecidableEq, Repr

structure Sensor where
  state : State
  rxByte : UInt8
  rxBit : UInt8
  dataReady : UInt8
  data : Vector UInt8 5
  startTicks : UInt16
  extIrq : UInt8
deriving DecidableEq

/-- The sensor struct, the interrupt registers, what was last written to the data pin, and whether
    `dht11_sendStartDone` is registered with the clock. -/
structure Board where
  sensor : Sensor
  interrupts : Registers
  pinOutput : UInt8
  pinLevel : UInt8
  startPending : Bool
deriving DecidableEq

def Sensor.initData (s : Sensor) : Sensor :=
  { s with rxByte := 0, rxBit := 8, data := #v[0, 0, 0, 0, 0], dataReady := 0 }

def Board.setState (b : Board) (state : State) : Board := { b with sensor := { b.sensor with state := state } }

def Board.setPin (b : Board) (output level : UInt8) : Board := { b with pinOutput := output, pinLevel := level }

def Board.enable (b : Board) (edge : InterruptEdge) : Board :=
  { b with interrupts := enableExternalInterruptInput b.sensor.extIrq edge b.interrupts }

def Board.disable (b : Board) : Board :=
  { b with interrupts := disableExternalInterruptInput b.sensor.extIrq b.interrupts }

def Board.sendStartDone (b : Board) : Board :=
  ((b.setPin 0 255).enable .falling).setState .waitingForAck

def Board.init (extIrq : UInt8) (b : Board) : Board :=
  let b := { b with interrupts := disableExternalInterruptInput extIrq b.interrupts }
  let b := { b with sensor := { b.sensor with extIrq := extIrq }.initData }
  (b.setPin 0 255).setState .stateInit

def Board.startConversion (b : Board) : Board :=
  let b := b.setState .sendingStart
  let b := { b with sensor := b.sensor.initData }
  { b.setPin 1 0 with startPending := true }

/-- `data[rxByte] = (data[rxByte]<<1) | bit`; `none` when the index is outside the array. -/
def Sensor.storeBit (s : Sensor) (bit : Bool) : Option Sensor :=
  if inside : s.rxByte.toNat < 5 then
    some { s with data := s.data.set s.rxByte.toNat (s.data[s.rxByte.toNat] <<< 1 ||| if bit then 1 else 0) }
  else none

def Sensor.nextBit (s : Sensor) : Sensor :=
  let s := { s with rxBit := s.rxBit - 1 }
  if s.rxBit = 0 then { s with rxBit := 8, rxByte := s.rxByte + 1 } else s

def Sensor.pulse (s : Sensor) (ticks : UInt16) : Bool :=
  let ticks := if ticks ≤ s.startTicks then ticks + 16000 else ticks
  ticks - s.startTicks > 800

def Board.bitEnd (b : Board) (ticks : UInt16) : Option Board :=
  (b.sensor.storeBit (b.sensor.pulse ticks)).map fun s =>
    let b := { b with sensor := s.nextBit }
    if b.sensor.rxByte < 5 then (b.enable .rising).setState .waitingForBitSync
    else
      let b := (b.setState .idle).disable
      { b with sensor := { b.sensor with dataReady := 1 } }

/-- `ticks` is what `timer1_get_ticks` returns. -/
def Board.irqAnimate (b : Board) (ticks : UInt16) : Option Board :=
  match b.sensor.state with
  | .stateInit | .idle | .sendingStart => some (b.setState .stateInit)
  | .waitingForAck => some ((b.enable .rising).setState .gotAckWaitIdle)
  | .gotAckWaitIdle => some (b.setState .waitingForBitSync)
  | .waitingForBitSync =>
    let b := { b with sensor := { b.sensor with startTicks := ticks } }
    some ((b.enable .falling).setState .waitingForBitEnd)
  | .waitingForBitEnd => b.bitEnd ticks

def Sensor.isChecksumOk (s : Sensor) : Bool :=
  let sum := s.data[0] + s.data[1] + s.data[2] + s.data[3]
  sum = s.data[4]

theorem Sensor.isChecksumOk_iff (s : Sensor) : s.isChecksumOk = true ↔
    s.data[4].toNat = (s.data[0].toNat + s.data[1].toNat + s.data[2].toNat + s.data[3].toNat) % 256 := by
  rw [Sensor.isChecksumOk, decide_eq_true_iff, ← UInt8.toNat_inj]
  simp only [UInt8.toNat_add]
  omega

/-- `startDone` is the clock's call of `dht11_sendStartDone`: a one-shot, so it needs a registration. -/
inductive Event where
  | init (extIrq : UInt8)
  | startConversion
  | edge (ticks : UInt16)
  | startDone

inductive Observation where
  | restarted
  | bitEnd
deriving DecidableEq

def Board.step (b : Board) : Event → Option (Board × List Observation)
  | .init extIrq => some (b.init extIrq, [.restarted])
  | .startConversion => some (b.startConversion, [.restarted])
  | .edge ticks =>
    (b.irqAnimate ticks).map (·, if b.sensor.state = .waitingForBitEnd then [.bitEnd] else [])
  | .startDone => some (if b.startPending then { b with startPending := false }.sendStartDone else b, [])

end Minimus32.Dht11
