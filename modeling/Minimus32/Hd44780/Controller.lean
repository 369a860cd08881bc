import Minimus32.Library.Register

namespace Minimus32.Hd44780

open Register

/-- What the instructions of the display work on: its two memories, the address of the next byte and in which of them it
is, the modes of the entry, the display and the function set. -/
structure Registers where
  ddram : Nat → UInt8
  cgram : Nat → UInt8
  address : Nat
  inCgram : Bool
  increment : Bool
  shifting : Bool
  shift : Nat
  on : Bool
  cursor : Bool
  blink : Bool
  twoLines : Bool

namespace Registers

def nextAddress (r : Registers) : Nat :=
  if r.inCgram then (r.address + 1) % 64
  else if r.twoLines then
    if r.address = 0x27 then 0x40 else if r.address = 0x67 then 0 else (r.address + 1) % 128
  else if r.address = 0x4f then 0 else (r.address + 1) % 128

def previousAddress (r : Registers) : Nat :=
  if r.inCgram then (r.address + 63) % 64
  else if r.twoLines then
    if r.address = 0x40 then 0x27 else if r.address = 0 then 0x67 else (r.address + 127) % 128
  else if r.address = 0 then 0x4f else (r.address + 127) % 128

def move (r : Registers) (right : Bool) : Registers :=
  { r with address := if right then r.nextAddress else r.previousAddress }

def shiftDisplay (r : Registers) (right : Bool) : Registers :=
  { r with shift := (r.shift + if right then 39 else 1) % 40 }

/-- A byte for the memory, which may also move the display. -/
def data (r : Registers) (byte : UInt8) : Registers :=
  let stored := if r.inCgram then { r with cgram := fun a => if a = r.address then byte else r.cgram a }
    else { r with ddram := fun a => if a = r.address then byte else r.ddram a }
  let moved := stored.move r.increment
  if r.shifting then moved.shiftDisplay (!r.increment) else moved

def read (r : Registers) : UInt8 := if r.inCgram then r.cgram r.address else r.ddram r.address

def command (r : Registers) (byte : UInt8) : Registers :=
  if bit byte 7 then { r with inCgram := false, address := (byte &&& 0x7f).toNat }
  else if bit byte 6 then { r with inCgram := true, address := (byte &&& 0x3f).toNat }
  else if bit byte 5 then { r with twoLines := bit byte 3 }
  else if bit byte 4 then if bit byte 3 then r.shiftDisplay (bit byte 2) else r.move (bit byte 2)
  else if bit byte 3 then { r with on := bit byte 2, cursor := bit byte 1, blink := bit byte 0 }
  else if bit byte 2 then { r with increment := bit byte 1, shifting := bit byte 0 }
  else if bit byte 1 then { r with inCgram := false, address := 0, shift := 0 }
  else if bit byte 0 then
    { r with ddram := fun _ => 0x20, inCgram := false, address := 0, increment := true, shift := 0 }
  else r

def execute (rs : Bool) (byte : UInt8) (r : Registers) : Registers := if rs then r.data byte else r.command byte

/-- The character at a place of the display, if it is switched on. -/
def shown (r : Registers) (line column : Nat) : Option UInt8 :=
  if r.on then some (r.ddram (0x40 * line + (column + r.shift) % 40)) else none

end Registers

/-- The display on its four data lines. `half` is the first half of a byte, where a byte comes in two; `log` has the
instructions that have been carried out, with the level of RS. Each of them keeps the display busy for a time of its
own, and what the other four lines have is not known. -/
structure Lcd where
  registers : Registers
  eightBit : Bool
  half : Option UInt8
  busy : Nat
  log : List (Bool × UInt8)
  duration : Nat → Nat
  unconnected : Nat → UInt8

namespace Lcd

def pass (lcd : Lcd) (time : Nat) : Lcd := { lcd with busy := lcd.busy - time }

def execute (lcd : Lcd) (rs : Bool) (byte : UInt8) : Lcd :=
  { lcd with
    registers := lcd.registers.execute rs byte
    eightBit := if !rs && byte &&& 0xe0 = 0x20 then bit byte 4 else lcd.eightBit
    half := none
    busy := lcd.duration lcd.log.length
    log := lcd.log ++ [(rs, byte)] }

/-- The end of a write; a busy display does not take it. -/
def write (lcd : Lcd) (rs : Bool) (nibble : UInt8) : Lcd :=
  if 0 < lcd.busy then lcd
  else if lcd.eightBit then lcd.execute rs (nibble <<< 4 ||| (lcd.unconnected lcd.log.length &&& 0xf))
  else
    match lcd.half with
    | none => { lcd with half := some nibble }
    | some high => lcd.execute rs (high <<< 4 ||| nibble)

/-- What the display puts on its lines for a read. -/
def output (lcd : Lcd) (rs : Bool) : UInt8 :=
  let byte := if rs then lcd.registers.read else
    (if 0 < lcd.busy then 0x80 else 0) ||| (UInt8.ofNat lcd.registers.address &&& 0x7f)
  if lcd.eightBit || lcd.half.isNone then byte >>> 4 else byte &&& 0xf

/-- The end of a read; the address moves on behind a byte of the memory. -/
def read (lcd : Lcd) (rs : Bool) : Lcd :=
  let moved := if rs && lcd.busy = 0 then { lcd with registers := lcd.registers.move lcd.registers.increment } else lcd
  if lcd.eightBit then moved
  else
    match lcd.half with
    | none => { lcd with half := some 0 }
    | some _ => { moved with half := none }

end Lcd

/-- Port D with the display at it: the data lines at the bits 0 to 3, RS, RW and E at the bits 4 to 6. `pace` is the
time that a loop of so many rounds with nothing in it takes, none at all where the compiler leaves such loops out. -/
structure Bench where
  port : UInt8
  ddr : UInt8
  floating : UInt8
  pace : Nat → Nat
  lcd : Lcd

namespace Bench

/-- The levels of the data lines as far as the display does not drive them. -/
def driven (bench : Bench) : UInt8 := (bench.port ||| (bench.floating &&& ~~~bench.ddr)) &&& 0xf

/-- An access ends with the falling edge of E. -/
def setPort (bench : Bench) (value : UInt8) : Bench :=
  { bench with
    port := value
    lcd :=
      if bit bench.port 6 && !bit value 6 then
        if bit bench.port 5 then (bench.lcd.pass 1).read (bit bench.port 4)
        else (bench.lcd.pass 1).write (bit bench.port 4) bench.driven
      else bench.lcd }

def pin (bench : Bench) : UInt8 :=
  if bit bench.port 6 && bit bench.port 5 then (bench.port &&& 0xf0) ||| (bench.lcd.output (bit bench.port 4) &&& 0xf)
  else (bench.port &&& 0xf0) ||| bench.driven

end Bench

end Minimus32.Hd44780
