import Minimus32.Library.Interaction

namespace Minimus32.OneWire

open Interaction Program

/-- What the code does to the wire. `atomic` is the start or the end of an ATOMIC_BLOCK; nobody replies to `stuck`,
which stands for a loop that goes on. -/
inductive Access where
  | pullLow
  | release
  | getBit
  | delayUs (us : Nat)
  | atomic (on : Bool)
  | stuck

def Access.Reply : Access → Type
  | .getBit => Bool
  | .pullLow | .release | .delayUs _ | .atomic _ | .stuck => Unit

abbrev Code := Program Access Access.Reply

def pullLow : Code Unit := call Access.Reply .pullLow

def release : Code Unit := call Access.Reply .release

def getBit : Code Bool := call Access.Reply .getBit

def delayUs (us : Nat) : Code Unit := call Access.Reply (.delayUs us)

def atomic (on : Bool) : Code Unit := call Access.Reply (.atomic on)

def stuck : Code Unit := call Access.Reply .stuck

def onewireReset : Code Unit := do
  atomic true
  pullLow
  delayUs (480 + 2)
  release
  atomic false
  delayUs (480 + 2)

/-- The functions that it is given are the accesses. -/
def onewireInit : Code Unit := onewireReset

/-- The loop that waits for an idle bus, for so many reads of it at most. -/
def waitIdle : Nat → Code Unit
  | 0 => stuck
  | polls + 1 => do
    let high ← getBit
    if high then pure () else waitIdle polls

def writePulse (bit : Bool) : Code Unit :=
  if bit then do
    atomic true
    pullLow
    delayUs 2
    release
    atomic false
    delayUs (60 - 2)
  else do
    atomic true
    pullLow
    delayUs 60
    release
    atomic false

def sendSlot (bit : Bool) : Code Unit := do
  writePulse bit
  delayUs 1

def sendBits (polls : Nat) : Nat → UInt8 → Code Unit
  | 0, _ => pure ()
  | n + 1, byte => do
    waitIdle polls
    sendSlot (byte &&& 1 ≠ 0)
    sendBits polls n (byte >>> 1)

def onewireSendByte (polls : Nat) (byte : UInt8) : Code Unit := sendBits polls 8 byte

def readSlot : Code Bool := do
  atomic true
  pullLow
  delayUs 2
  release
  delayUs 2
  let high ← getBit
  atomic false
  delayUs (60 - 2 - 2 - 1)
  pure high

def readBits (polls : Nat) : Nat → UInt8 → Code UInt8
  | 0, result => pure result
  | n + 1, result => do
    waitIdle polls
    let high ← readSlot
    readBits polls n (if high then result >>> 1 ||| 128 else result >>> 1)

def onewireReadByte (polls : Nat) : Code UInt8 := readBits polls 8 0

/-- A device on the wire, bit by bit: the bit it is going to send, if any, what it does with a bit, and with a reset. -/
structure Logic (σ : Type) where
  output : σ → Option Bool
  step : σ → Bool → σ
  restart : σ → σ

/-- When a device takes the level of a slot, how long it holds the wire low for a zero, and its presence pulse, for each
slot and each reset; in cycles of the processor, of which there are 16 in a microsecond. -/
structure Timing where
  sample : Nat → Nat
  hold : Nat → Nat
  presenceDelay : Nat → Nat
  presenceLength : Nat → Nat
  sample_ge : ∀ n, 16 * 15 ≤ sample n
  sample_lt : ∀ n, sample n < 16 * 60
  hold_ge : ∀ n, 16 * 15 ≤ hold n
  hold_le : ∀ n, hold n ≤ 16 * 60
  delay_le : ∀ n, presenceDelay n ≤ 16 * 60
  length_le : ∀ n, presenceLength n ≤ 16 * 240

structure Slave (σ : Type) where
  timing : Timing
  state : σ
  slot : Nat
  sampling : Option Nat
  pullFrom : Nat
  pullUntil : Nat

/-- What an access takes beside its delay: a microsecond at most where there are no interrupts, and any time where there
are, but not none. -/
structure Clock where
  inside : Nat → Nat
  outside : Nat → Nat
  inside_le : ∀ n, inside n ≤ 16
  outside_pos : ∀ n, 0 < outside n

/-- The wire with the devices on it. -/
structure Wire (σ : Type) where
  clock : Clock
  count : Nat
  now : Nat
  atomic : Bool
  low : Bool
  fell : Nat
  slaves : List (Slave σ)

variable {σ : Type}

def Slave.pulls (slave : Slave σ) (time : Nat) : Bool := slave.pullFrom ≤ time && time < slave.pullUntil

def Slave.pass (logic : Logic σ) (level : Nat → Bool) (time : Nat) (slave : Slave σ) : Slave σ :=
  match slave.sampling with
  | none => slave
  | some instant =>
    if instant < time then { slave with state := logic.step slave.state (level instant), sampling := none } else slave

/-- A slot begins. -/
def Slave.fall (logic : Logic σ) (now : Nat) (slave : Slave σ) : Slave σ :=
  match logic.output slave.state with
  | none => { slave with slot := slave.slot + 1, sampling := some (now + slave.timing.sample slave.slot) }
  | some bit => { slave with
    state := logic.step slave.state bit
    slot := slave.slot + 1
    pullFrom := now
    pullUntil := if bit then now else now + slave.timing.hold slave.slot }

def Slave.restart (logic : Logic σ) (now : Nat) (slave : Slave σ) : Slave σ :=
  { slave with
    state := logic.restart slave.state
    slot := slave.slot + 1
    sampling := none
    pullFrom := now + slave.timing.presenceDelay slave.slot
    pullUntil := now + slave.timing.presenceDelay slave.slot + slave.timing.presenceLength slave.slot }

namespace Wire

/-- The wire is high if nobody pulls it down. -/
def level (wire : Wire σ) (time : Nat) : Bool := !wire.low && wire.slaves.all fun slave => !slave.pulls time

def states (wire : Wire σ) : List σ := wire.slaves.map Slave.state

def cost (wire : Wire σ) : Nat :=
  if wire.atomic then wire.clock.inside wire.count else wire.clock.outside wire.count

/-- The time of an access goes by. -/
def spend (logic : Logic σ) (us : Nat) (wire : Wire σ) : Wire σ :=
  { wire with
    count := wire.count + 1
    now := wire.now + (16 * us + wire.cost)
    slaves := wire.slaves.map (Slave.pass logic wire.level (wire.now + (16 * us + wire.cost))) }

def fall (logic : Logic σ) (wire : Wire σ) : Wire σ :=
  { wire with low := true, fell := wire.now, slaves := wire.slaves.map (Slave.fall logic wire.now) }

/-- A low level of 480 microseconds is a reset. -/
def rise (logic : Logic σ) (wire : Wire σ) : Wire σ :=
  { wire with
    low := false
    slaves := if 16 * 480 ≤ wire.now - wire.fell then wire.slaves.map (Slave.restart logic wire.now)
      else wire.slaves }

def setAtomic (wire : Wire σ) (on : Bool) : Wire σ := { wire with atomic := on }

def respond (logic : Logic σ) (wire : Wire σ) : (access : Access) → Option (access.Reply × Wire σ)
  | .pullLow => some ((), (wire.spend logic 0).fall logic)
  | .release => some ((), (wire.spend logic 0).rise logic)
  | .getBit => some ((wire.spend logic 0).level (wire.spend logic 0).now, wire.spend logic 0)
  | .delayUs us => some ((), wire.spend logic us)
  | .atomic on => some ((), (wire.spend logic 0).setAtomic on)
  | .stuck => none

end Wire

end Minimus32.OneWire
