import Minimus32.Hd44780.Controller
import Minimus32.Library.Interaction

namespace Minimus32.Hd44780

open Interaction Program

/-- What the driver does to port D. `delay` is a busy loop of so many rounds; nobody replies to `stuck`, which stands
for a loop that goes on. -/
inductive Access where
  | setPort (value : UInt8)
  | getPort
  | setDdr (value : UInt8)
  | getDdr
  | getPin
  | delay (loops : Nat)
  | stuck

def Access.Reply : Access → Type
  | .getPort | .getDdr | .getPin => UInt8
  | .setPort _ | .setDdr _ | .delay _ | .stuck => Unit

abbrev Code := Program Access Access.Reply

def setPort (value : UInt8) : Code Unit := call Access.Reply (.setPort value)

def getPort : Code UInt8 := call Access.Reply .getPort

def setDdr (value : UInt8) : Code Unit := call Access.Reply (.setDdr value)

def getDdr : Code UInt8 := call Access.Reply .getDdr

def getPin : Code UInt8 := call Access.Reply .getPin

def stuck : Code Unit := call Access.Reply .stuck

def lcdBitRs : UInt8 := 0x10

def lcdBitRw : UInt8 := 0x20

def lcdBitE : UInt8 := 0x40

def lcdCmd : UInt8 := 0

def lcdData : UInt8 := lcdBitRs

def delay (loops : Nat) : Code Unit := call Access.Reply (.delay loops)

def dataIn : Code Unit := do
  let ddr ← getDdr
  setDdr (ddr &&& 0b11110000)

def dataOut : Code Unit := do
  let ddr ← getDdr
  setDdr (ddr ||| 0b00001111)

def readNibble (type : UInt8) : Code UInt8 := do
  setPort (type ||| lcdBitRw)
  setPort (lcdBitE ||| type ||| lcdBitRw)
  let pin ← getPin
  setPort (type ||| lcdBitRw)
  pure (pin &&& 0b1111)

/-- The loop that waits for the display, for so many rounds at most. -/
def busyLoop : Nat → Code Unit
  | 0 => stuck
  | polls + 1 => do
    let nibble ← readNibble lcdCmd
    let _ ← readNibble lcdCmd
    if nibble &&& 0b1000 ≠ 0 then busyLoop polls else pure ()

def waitForDisplay (polls : Nat) : Code Unit := do
  dataIn
  busyLoop polls
  dataOut

def writeNibble (data type : UInt8) : Code Unit := do
  setPort (type ||| (data &&& 0x0f))
  setPort (lcdBitE ||| type ||| (data &&& 0x0f))
  setPort (type ||| (data &&& 0x0f))

def writeByte (polls : Nat) (data : UInt8) (isCommand : Bool) : Code Unit := do
  waitForDisplay polls
  writeNibble (data >>> 4) (if isCommand then lcdCmd else lcdData)
  delay 50
  writeNibble (data &&& 0x0f) (if isCommand then lcdCmd else lcdData)

def command (polls : Nat) (byte : UInt8) : Code Unit := writeByte polls byte true

def init (polls : Nat) : Code Unit := do
  let port ← getPort
  setPort (port &&& ~~~0b01111111)
  let ddr ← getDdr
  setDdr (ddr ||| 0b01111111)
  writeNibble 3 lcdCmd
  delay 20000
  writeNibble 3 lcdCmd
  delay 20000
  writeNibble 3 lcdCmd
  delay 20000
  writeNibble 2 lcdCmd
  command polls 0x28
  command polls 0x08
  command polls 0x06
  command polls 0x01
  command polls 0x0c

def powerUpDelay : Code Unit := do
  delay 65000
  delay 65000
  delay 65000
  delay 65000
  delay 65000
  delay 65000

/-- A string is followed by what else is in the memory. -/
def print (polls : Nat) : List UInt8 → Code Unit
  | [] => pure ()
  | character :: string =>
    if character ≠ 0 then do
      writeByte polls character false
      print polls string
    else pure ()

def writeBytes (polls : Nat) : List UInt8 → Code Unit
  | [] => pure ()
  | byte :: bytes => do
    writeByte polls byte false
    writeBytes polls bytes

def setCustomChar (polls : Nat) (index : UInt8) (graphics : Vector UInt8 8) : Code Unit := do
  command polls ((index <<< 3) + 64)
  writeBytes polls graphics.toList

/-- What port D and the display reply. -/
def Bench.respond (bench : Bench) : (access : Access) → Option (access.Reply × Bench)
  | .setPort value => some ((), bench.setPort value)
  | .getPort => some (bench.port, bench)
  | .setDdr value => some ((), { bench with ddr := value })
  | .getDdr => some (bench.ddr, bench)
  | .getPin => some (bench.pin, bench)
  | .delay loops => some ((), { bench with lcd := bench.lcd.pass (bench.pace loops) })
  | .stuck => none

end Minimus32.Hd44780
