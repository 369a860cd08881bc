import Minimus32.Hd44780.Text
import Minimus32.Library.Numeral
import Minimus32.Timer1.WallTime

namespace Minimus32.Hd44780

open Interaction Program Numeral Timer1

namespace HelloWorld

/-- The string literal that `time_buffer` points at, and `last_min`. -/
structure Globals where
  timeBuffer : List UInt8
  lastMin : UInt8

/-- The letters of Dxx hh:mm:ss.mmm and the character that ends it. -/
def Globals.initial : Globals :=
  ⟨[0x44, 0x78, 0x78, 0x20, 0x68, 0x68, 0x3a, 0x6d, 0x6d, 0x3a, 0x73, 0x73, 0x2e, 0x6d, 0x6d, 0x6d, 0], 100⟩

def dateDigits (time : WallTime) (buffer : List UInt8) : List UInt8 :=
  let buffer := buffer.set 1 (character (time.day.toNat / 10 % 10))
  let buffer := buffer.set 2 (character (time.day.toNat % 10))
  let buffer := buffer.set 4 (character (time.hour.toNat / 10))
  let buffer := buffer.set 5 (character (time.hour.toNat % 10))
  let buffer := buffer.set 7 (character (time.min.toNat / 10))
  buffer.set 8 (character (time.min.toNat % 10))

def secondDigits (time : WallTime) (buffer : List UInt8) : List UInt8 :=
  let buffer := buffer.set 10 (character (time.sec.toNat / 10))
  let buffer := buffer.set 11 (character (time.sec.toNat % 10))
  let buffer := buffer.set 13 (character (time.msec.toNat / 100))
  let buffer := buffer.set 14 (character (time.msec.toNat % 100 / 10))
  buffer.set 15 (character (time.msec.toNat % 10))

def printTime (polls : Nat) (time : WallTime) (globals : Globals) : Code Globals := do
  let buffer := if globals.lastMin ≠ time.min then dateDigits time globals.timeBuffer else globals.timeBuffer
  let buffer := secondDigits time buffer
  if globals.lastMin = time.min then do
    command polls (0x80 + 64 + 10)
    print polls (buffer.drop 10)
    pure { globals with timeBuffer := buffer }
  else do
    command polls (0x80 + 64)
    print polls buffer
    pure ⟨buffer, time.min⟩

/-- The loop of the program, with the time of the clock at each call. -/
def printTimes (polls : Nat) : List WallTime → Globals → Code Globals
  | [], globals => pure globals
  | time :: times, globals => do
    let globals ← printTime polls time globals
    printTimes polls times globals

def helloWorld : List UInt8 := [0x48, 0x65, 0x6c, 0x6c, 0x6f, 0x20, 0x77, 0x6f, 0x72, 0x6c, 0x64]

def main (polls : Nat) (times : List WallTime) : Code Globals := do
  powerUpDelay
  init polls
  print polls (helloWorld ++ [0])
  printTimes polls times .initial

/-- The day, the hour and the minute. -/
def date (time : WallTime) : List UInt8 :=
  0x44 :: lowDigits 2 time.day.toNat ++ 0x20 :: lowDigits 2 time.hour.toNat ++ 0x3a :: lowDigits 2 time.min.toNat ++
    [0x3a]

def seconds (time : WallTime) : List UInt8 :=
  lowDigits 2 time.sec.toNat ++ 0x2e :: lowDigits 3 time.msec.toNat

def stamp (time : WallTime) : List UInt8 := date time ++ seconds time

/-- What the calls write to the display: the seconds only, while the minute stays the same. -/
def written (lastMin : UInt8) : List WallTime → List (Bool × UInt8)
  | [] => []
  | time :: times =>
    (if lastMin = time.min then (false, 0xca) :: (seconds time).map (true, ·)
      else (false, 0xc0) :: (stamp time).map (true, ·)) ++ written time.min times

variable {polls : Nat} {bench : Bench} {cgram ddram : Nat → UInt8}

/-- What the display and the program have after a call at this time. -/
structure Stands (polls : Nat) (cgram ddram : Nat → UInt8) (time : WallTime) (globals : Globals) (bench : Bench) :
    Prop where
  ready : bench.Ready polls
  shows : bench.lcd.registers.Shows cgram (put ddram 0x40 (stamp time))
  buffer : globals.timeBuffer = stamp time ++ [0]
  lastMin : globals.lastMin = time.min

/-- Calls that are at most 59 minutes apart. -/
def Steady (ticks : List Nat) : Prop := ticks.IsChain fun now later => now ≤ later ∧ later ≤ now + 59 * 60000

/-- The memory of the display: the greeting in the first line, the time in the second. -/
def screen (time : WallTime) : Nat → UInt8 := put (put (fun _ => 0x20) 0 helloWorld) 0x40 (stamp time)

end HelloWorld

end Minimus32.Hd44780
