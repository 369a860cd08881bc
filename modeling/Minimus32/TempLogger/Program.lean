import Mathlib.Data.Fintype.Card
import Minimus32.Library.TracedRun
import Minimus32.Timer1.Clock

namespace Minimus32.TempLogger

open Timer1

/-- The `timer1_callback` structs of the program. -/
inductive Timer where
  | loggingLed
  | startWaiting
  | startRelayTimer
  | statemachine
  | runningMCU
deriving DecidableEq

instance : Fintype Timer where
  elems := {.loggingLed, .startWaiting, .startRelayTimer, .statemachine, .runningMCU}
  complete timer := by cases timer <;> decide

inductive Handler where
  | blinkLoggingLedOff
  | stopWaiting
  | stopRelayTimer
  | statemachine
  | toggleBlueLed
deriving DecidableEq

inductive UpdateState where
  | convert
  | readout
deriving DecidableEq

def ascii (c : Char) : UInt8 := c.toUInt8

-- The font's own places for these characters.
def dot : UInt8 := ascii ':'

def minus : UInt8 := ascii ';'

def space : UInt8 := ascii '<'

def celcius : UInt8 := ascii '='

/-- The program's variables; of the strings `programChar` and `runningChar` the only character. -/
structure Logger where
  clock : Clock Timer Handler Unit
  portd : UInt8
  nowTemp : Vector UInt8 7
  programValue : Vector UInt8 8
  programPointer : UInt8
  programC : Int16
  programD : Int16
  programT : Int16
  programW : Int16
  programLog : UInt16
  programChar : UInt8
  runningChar : UInt8
  alwaysRun : UInt8
  updateState : UpdateState
  stateCounter : UInt16

def rounds : Nat := 6

def Logger.register (l : Logger) (sec msec : UInt16) (callback : Handler) (timer : Timer) : Option Logger :=
  (l.clock.registerCallback rounds sec msec 1 callback () timer).map fun clock => { l with clock := clock }

def Logger.unregister (l : Logger) (timer : Timer) : Option Logger :=
  (l.clock.unregisterCallback rounds timer).map fun clock => { l with clock := clock }

def Logger.blinkLoggingLedOff (l : Logger) : Option Logger :=
  (l.unregister .loggingLed).map fun l => { l with portd := l.portd &&& 0b11111110 }

def Logger.blinkLoggingLed (l : Logger) : Option Logger :=
  (l.register 0 150 .blinkLoggingLedOff .loggingLed).map fun l => { l with portd := l.portd ||| 0b00000001 }

def Logger.relayStatus (l : Logger) (on : UInt8) : Logger :=
  if on = 1 then { l with portd := l.portd ||| 0b00000010 } else { l with portd := l.portd &&& 0b11111101 }

def Logger.stopWaiting (l : Logger) : Option Logger :=
  (l.unregister .startWaiting).map fun l => { l with runningChar := ascii ' ' }

def Logger.startWaiting (l : Logger) : Option Logger :=
  let l := { l with runningChar := ascii 'W' }
  l.register (l.programW / 10).toUInt16 0 .stopWaiting .startWaiting

def Logger.stopRelayTimer (l : Logger) : Option Logger :=
  (l.unregister .startRelayTimer).bind fun l => (l.relayStatus 0).startWaiting

def Logger.startRelayTimer (l : Logger) : Option Logger :=
  let l := l.relayStatus 1
  (l.register (l.programT / 10).toUInt16 0 .stopRelayTimer .startRelayTimer).map
    fun l => { l with runningChar := ascii 'O' }

/-- The loop of `setRelay` from index `c` on, with `n` rounds to go. -/
def fillDeciTemp (nowTemp : List UInt8) : Nat → Nat → List UInt8 → List UInt8
  | 0, _, deciTemp => deciTemp
  | n + 1, c, deciTemp =>
    let now := nowTemp.getD c 0
    if now = space ∨ now = celcius then fillDeciTemp nowTemp n (c + 1) deciTemp
    else if now = minus then fillDeciTemp nowTemp n (c + 1) (deciTemp.set c (ascii '-'))
    else if now ≠ dot ∧ now ≠ ascii '.' then fillDeciTemp nowTemp n (c + 1) (deciTemp.set c now)
    else (deciTemp.set c (nowTemp.getD (c + 1) 0)).set (c + 1) 0

def atoiDigits : List UInt8 → Int16 → Int16
  | [], value => value
  | c :: text, value =>
    if ascii '0' ≤ c ∧ c ≤ ascii '9' then atoiDigits text (value * 10 + (c - ascii '0').toUInt16.toInt16) else value

/-- `atoi`, in the sixteen bit arithmetic of the target. -/
def atoi (text : List UInt8) : Int16 :=
  match text.dropWhile (fun c => c = ascii ' ' ∨ (9 ≤ c ∧ c ≤ 13)) with
  | [] => 0
  | c :: rest =>
    if c = ascii '-' then -(atoiDigits rest 0)
    else if c = ascii '+' then atoiDigits rest 0
    else atoiDigits (c :: rest) 0

def Logger.setRelay (l : Logger) : Option Logger :=
  if l.alwaysRun ≠ 0 then some { l.relayStatus 1 with runningChar := ascii '+' }
  else if l.programChar = ascii 'R' ∧ l.runningChar = ascii ' ' then
    let deciTemp := fillDeciTemp l.nowTemp.toList 6 0 (List.replicate 6 (ascii ' ') ++ [0])
    if atoi deciTemp ≤ l.programC - l.programD then l.startRelayTimer else some (l.relayStatus 0)
  else some l

/-- The loop over the digits of a command up to its terminating null; `none` when there is none. A `char` is
    signed, so it is extended by its sign. -/
def scanValue : List UInt8 → UInt16 → UInt8 → Option (UInt16 × UInt8)
  | [], _, _ => none
  | c :: str, deciTemp, dotFound =>
    if c = 0 then some (deciTemp, dotFound)
    else if c ≠ ascii '.' then
      scanValue str (deciTemp * 10 + c.toInt8.toInt16.toUInt16 - (ascii '0').toUInt16) dotFound
    else scanValue str deciTemp (dotFound + 1)

/-- A case of the switch that sets one of the four program variables. -/
def Logger.change (l : Logger) (old : Int16) (deciTemp : UInt16) (set : Logger → Int16 → Logger) : Option Logger :=
  if old.toUInt16 ≠ deciTemp then (set l deciTemp.toInt16).setRelay else some l

/-- The case of `S`, which `-` falls through to. -/
def Logger.deactivate (l : Logger) : Option Logger :=
  ({ l with programChar := ascii ' ' }.relayStatus 0).stopWaiting

def Logger.command (l : Logger) (type : UInt8) (deciTemp : UInt16) : Option Logger :=
  if type = ascii '+' then some ({ l with alwaysRun := 1 }.relayStatus 1)
  else if type = ascii '-' then { l with alwaysRun := 0 }.deactivate
  else if type = ascii 'S' then l.deactivate
  else if type = ascii 'R' then
    some (if l.programC ≠ 0 ∧ l.programD ≠ 0 ∧ l.programT ≠ 0 ∧ l.programW ≠ 0 then
      { l with programChar := ascii 'R' } else l)
  else if type = ascii 'C' then l.change l.programC deciTemp (fun l value => { l with programC := value })
  else if type = ascii 'D' then l.change l.programD deciTemp (fun l value => { l with programD := value })
  else if type = ascii 'T' then l.change l.programT deciTemp (fun l value => { l with programT := value })
  else if type = ascii 'W' then l.change l.programW deciTemp (fun l value => { l with programW := value })
  else if type = ascii 'L' then some { l with programLog := deciTemp }
  else some l

/-- A command's type, seen when it has come to the switch. -/
inductive Observation where
  | commanded (type : UInt8)
deriving DecidableEq

/-- `str` is the memory from the command's first character on. -/
def Logger.setProgramVariable (l : Logger) (str : List UInt8) : Option (Logger × List Observation) :=
  let type := str.getD 0 0
  if type ≠ ascii 'R' ∧ type ≠ ascii 'S' ∧ type ≠ ascii '+' ∧ type ≠ ascii '-' ∧ str.getD 1 0 ≠ ascii ':' then
    some (l, [])
  else
    -- The loop's index is one byte, so a string without a null among its first 256 characters is never left.
    (scanValue ((str.drop 2).take 256) 0 0).bind fun (deciTemp, dotFound) =>
      if dotFound > 1 then some (l, [])
      else
        let deciTemp := if dotFound = 0 ∧ type ≠ ascii 'L' then deciTemp * 10 else deciTemp
        (l.command type deciTemp).map (·, [.commanded type])

/-- `text` is what the sensor's reading comes to. -/
def Logger.updateTemp (l : Logger) (text : Vector UInt8 7) : Logger :=
  match l.updateState with
  | .convert => { l with updateState := .readout }
  | .readout => { l with updateState := .convert, nowTemp := text }

/-- `updateLogged`, without the text that it sends. -/
def Logger.updateLogged (l : Logger) : Option Logger := l.blinkLoggingLed

/-- `Machinestates` -/
inductive MachineState where
  | none
  | oneSec
  | log
deriving DecidableEq

/-- The calls in the switch of `statemachine`. -/
inductive Action where
  | updateTemp
  | updateLogged
  | setRelay
deriving DecidableEq

def Logger.act (text : Vector UInt8 7) (l : Logger) : Action → Option (Logger × List Action)
  | .updateTemp => some (l.updateTemp text, [.updateTemp])
  | .updateLogged => l.updateLogged.map (·, [.updateLogged])
  | .setRelay => l.setRelay.map (·, [.setRelay])

/-- `statemachine` up to its switch. Remainder by zero is what the target's division routine gives: the dividend. -/
def Logger.advance (l : Logger) : Logger × MachineState :=
  let l := { l with stateCounter := l.stateCounter + 1 }
  if l.stateCounter % (l.programLog * 100) = 0 then ({ l with stateCounter := 0 }, .log)
  else if l.stateCounter % 100 = 0 then (l, .oneSec)
  else (l, .none)

def MachineState.actions : MachineState → List Action
  | .oneSec => [.updateTemp, .setRelay]
  | .log => [.updateTemp, .updateLogged, .setRelay]
  | .none => []

/-- `statemachine`, with the calls it has made. -/
def Logger.statemachine (l : Logger) (text : Vector UInt8 7) : Option (Logger × List Action) :=
  TracedRun.run (Logger.act text) l.advance.1 l.advance.2.actions

/-- What the switch comes to for each state. -/
theorem Logger.statemachine_eq (l : Logger) (text : Vector UInt8 7) :
    l.statemachine text = (match l.advance.2 with
      | .log => (l.advance.1.updateTemp text).updateLogged.bind Logger.setRelay
      | .oneSec => (l.advance.1.updateTemp text).setRelay
      | .none => some l.advance.1).map (·, l.advance.2.actions) := by
  unfold Logger.statemachine
  cases l.advance.2 with
  | none => rfl
  | oneSec =>
    cases set : (l.advance.1.updateTemp text).setRelay <;>
      simp [MachineState.actions, TracedRun.run, Logger.act, set]
  | log =>
    cases logged : (l.advance.1.updateTemp text).updateLogged with
    | none => simp [MachineState.actions, TracedRun.run, Logger.act, logged]
    | some between =>
      cases set : between.setRelay <;> simp [MachineState.actions, TracedRun.run, Logger.act, logged, set]

def Logger.call (l : Logger) (text : Vector UInt8 7) : Handler → Option Logger
  | .blinkLoggingLedOff => l.blinkLoggingLedOff
  | .stopWaiting => l.stopWaiting
  | .stopRelayTimer => l.stopRelayTimer
  | .statemachine => (l.statemachine text).map Prod.fst
  | .toggleBlueLed => some l

def Logger.tick (l : Logger) (text : Vector UInt8 7) : Option Logger :=
  (l.clock.isrAtomic rounds).bind fun (clock, found) =>
    match found with
    | none => some { l with clock := clock }
    | some timer => { l with clock := clock }.call text (clock.structs timer).callback

def ends (byte : UInt8) : Prop := byte = ascii ';' ∨ byte = ascii '\n' ∨ byte = ascii '\r'

instance (byte : UInt8) : Decidable (ends byte) := inferInstanceAs (Decidable (_ ∨ _))

/-- `programValue[programPointer] = byte`; `none` outside the buffer. -/
def Logger.storeByte (l : Logger) (byte : UInt8) : Option Logger :=
  if inside : l.programPointer.toNat < 8 then
    some { l with programValue := l.programValue.set l.programPointer.toNat byte }
  else none

/-- `programValue[programPointer++] = byte` -/
def Logger.addByte (l : Logger) (byte : UInt8) : Option Logger :=
  (l.storeByte byte).map fun l => { l with programPointer := l.programPointer + 1 }

def Logger.parse (l : Logger) : Option (Logger × List Observation) :=
  (l.storeByte 0).bind fun l =>
    (l.setProgramVariable l.programValue.toList).map fun (l, seen) => ({ l with programPointer := 0 }, seen)

/-- `ISR(USART1_RX_vect)` -/
def Logger.receive (l : Logger) (byte : UInt8) : Option (Logger × List Observation) :=
  (if ends byte ∨ l.programPointer ≥ 7 then l.parse else some (l, [])).bind fun (l, seen) =>
    if ends byte then some (l, seen) else (l.addByte byte).map (·, seen)

inductive Event where
  | receive (byte : UInt8)
  | setProgramVariable (str : List UInt8)
  | call (handler : Handler) (text : Vector UInt8 7)
  | tick (text : Vector UInt8 7)

def Logger.step (l : Logger) : Event → Option (Logger × List Observation)
  | .receive byte => l.receive byte
  | .setProgramVariable str => l.setProgramVariable str
  | .call handler text => (l.call text handler).map (·, [])
  | .tick text => (l.tick text).map (·, [])

def Logger.reset (clock : Clock Timer Handler Unit) (portd : UInt8) : Logger where
  clock := clock
  portd := portd
  nowTemp := #v[ascii ' ', ascii 'i', ascii 'n', ascii 'i', ascii 't', ascii ' ', 0]
  programValue := Vector.replicate 8 0
  programPointer := 0
  programC := 0
  programD := 0
  programT := 0
  programW := 0
  programLog := 10
  programChar := ascii ' '
  runningChar := ascii ' '
  alwaysRun := 0
  updateState := .convert
  stateCounter := 0

/-- `main` up to the point where it enables the serial interrupt. -/
def Logger.boot (l : Logger) (text : Vector UInt8 7) : Option Logger :=
  ({ l with clock := l.clock.init }.blinkLoggingLedOff).bind fun l =>
  ((l.relayStatus 0).setProgramVariable [ascii 'L', ascii ':', ascii '1', ascii '0', 0]).bind fun (l, _) =>
  (l.updateTemp text).updateLogged.bind fun l =>
  ({ l with clock := l.clock.init }.register 0 10 .statemachine .statemachine).bind fun l =>
  l.register 0 250 .toggleBlueLed .runningMCU

end Minimus32.TempLogger
