import Minimus32.Hd44780.Text
import Minimus32.Library.Beside
import Minimus32.OneWire.Thermometers
import Minimus32.Temperature.Digits

namespace Minimus32.Temperature

open Interaction Program

/-- The display and the wire. -/
abbrev Code := Program (Hd44780.Access ⊕ OneWire.Access) (Sum.elim Hd44780.Access.Reply OneWire.Access.Reply)

def lcd {α : Type} (program : Hd44780.Code α) : Code α := program.left OneWire.Access.Reply

def wire {α : Type} (program : OneWire.Code α) : Code α := program.right Hd44780.Access.Reply

/-- The characters that `printTemp` puts into its buffer. -/
def tempText (temp : Int) : List UInt8 :=
  digits 5 (temp >>> (1 : Nat)) ++ [0x2e, if temp % 2 = 1 then 0x35 else 0x30]

def printTemp (polls : Nat) (temp : Int) : Code Unit := lcd (Hd44780.print polls (tempText temp ++ [0]))

def writeHexNibble (polls : Nat) (data : UInt8) : Code Unit :=
  if data < 10 then lcd (Hd44780.writeByte polls (data + 0x30) false)
  else lcd (Hd44780.writeByte polls (data + 0x41 - 10) false)

def writeHex (polls : Nat) (byte : UInt8) : Code Unit := do
  writeHexNibble polls (byte >>> 4)
  writeHexNibble polls (byte &&& 0x0f)

def writeRomCode (polls : Nat) (code : OneWire.RomCode) : Code Unit := do
  writeHex polls code.crc
  writeHex polls (code.romCode.getD 6 0)
  writeHex polls (code.romCode.getD 5 0)
  writeHex polls (code.romCode.getD 4 0)
  writeHex polls (code.romCode.getD 3 0)
  writeHex polls (code.romCode.getD 2 0)
  writeHex polls (code.romCode.getD 1 0)
  writeHex polls (code.romCode.getD 0 0)

def backslash : Vector UInt8 8 :=
  ⟨#[0b00000000, 0b00010000, 0b00001000, 0b00000100, 0b00000010, 0b00000001, 0b00000000, 0b00000000], rfl⟩

/-- The eight bytes that are read one after another. -/
def romCode (bytes : List UInt8) : OneWire.RomCode where
  romCode := (List.range 7).map (bytes.getD · 0)
  crc := bytes.getD 7 0
  length_romCode := rfl

/-- The code of the only device. -/
def readRom (polls : Nat) : OneWire.Code OneWire.RomCode := do
  OneWire.onewireInit
  OneWire.onewireSendByte polls 0x33
  let bytes ← OneWire.readBytes polls 8
  pure (romCode bytes)

/-- The program in front of its loop, with `rom_code` and `rom_crc`. -/
def start (polls : Nat) : Code (OneWire.RomCode × UInt8) := do
  lcd Hd44780.powerUpDelay
  lcd (Hd44780.init polls)
  lcd (Hd44780.setCustomChar polls 1 backslash)
  let code ← wire (readRom polls)
  pure (code, OneWire.calculateCrc code.romCode 7)

def demoText : List UInt8 :=
  [0x20, 0x20, 0x44, 0x53, 0x31, 0x38, 0x53, 0x32, 0x30, 0x20, 0x44, 0x65, 0x6d, 0x6f, 0x20, 0x20]

def codeText : List UInt8 :=
  [0x43, 0x52, 0x43, 0x2b, 0x52, 0x4f, 0x4d, 0x20, 0x43, 0x6f, 0x64, 0x65, 0x3a, 0x20, 0x20, 0x20]

def okText : List UInt8 :=
  [0x52, 0x4f, 0x4d, 0x20, 0x43, 0x52, 0x43, 0x3a, 0x20, 0x4f, 0x4b, 0x20, 0x20, 0x20, 0x20, 0x20]

def failedText : List UInt8 :=
  [0x52, 0x4f, 0x4d, 0x20, 0x43, 0x52, 0x43, 0x3a, 0x20, 0x46, 0x41, 0x49, 0x4c, 0x45, 0x44, 0x21]

def tempHeader : List UInt8 :=
  [0x20, 0x54, 0x43, 0x75, 0x72, 0x72, 0x20, 0x20, 0x54, 0x46, 0x69, 0x6c, 0x74, 0x65, 0x72, 0x20]

/-- The variables of the loop. -/
structure Variables where
  anim : Nat
  msg : Nat
  i : Nat
  j : Nat

/-- What the loop does for the message. -/
def showMessage (polls : Nat) (code : OneWire.RomCode) (romCrc : UInt8) (v : Variables) : Code Unit := do
  lcd (Hd44780.command polls 0x80)
  match v.msg with
  | 0 => do
    lcd (Hd44780.print polls (demoText ++ [0]))
    if v.i = 0 then wire (OneWire.ds18s20BlockingStartConversion polls code) else pure ()
  | 1 => lcd (Hd44780.print polls (codeText ++ [0]))
  | 2 => writeRomCode polls code
  | 3 =>
    if romCrc = code.crc then lcd (Hd44780.print polls (okText ++ [0]))
    else lcd (Hd44780.print polls (failedText ++ [0]))
  | 4 => do
    lcd (Hd44780.print polls (tempHeader ++ [0]))
    lcd (Hd44780.command polls (0x80 + 64))
    if v.i = 0 then do
      let (_, scratchpad) ← wire (OneWire.ds18s20BlockingReadScratchpad polls code)
      printTemp polls (temperature (scratchpad.getD 1 0) (scratchpad.getD 0 0))
    else pure ()
  | _ => pure ()

def Variables.nextMessage (v : Variables) : Variables :=
  if v.i + 1 > 500 then { v with i := 0, msg := if v.msg + 1 > 4 then 0 else v.msg + 1 } else { v with i := v.i + 1 }

def Variables.nextAnim (v : Variables) : Variables :=
  if v.j + 1 > 30 then { v with j := 0, anim := if v.anim + 1 > 3 then 0 else v.anim + 1 } else { v with j := v.j + 1 }

def showAnim (polls : Nat) (anim : Nat) : Code Unit :=
  match anim with
  | 0 => lcd (Hd44780.writeByte polls 0x7c false)
  | 1 => lcd (Hd44780.writeByte polls 0x2f false)
  | 2 => lcd (Hd44780.writeByte polls 0x2d false)
  | 3 => lcd (Hd44780.writeByte polls 1 false)
  | _ => pure ()

/-- A round of the loop. -/
def round (polls : Nat) (code : OneWire.RomCode) (romCrc : UInt8) (v : Variables) : Code Variables := do
  showMessage polls code romCrc v
  let v := v.nextMessage
  lcd (Hd44780.command polls (0x80 + 64 + 15))
  let v := v.nextAnim
  showAnim polls v.anim
  pure v

def rounds (polls : Nat) (code : OneWire.RomCode) (romCrc : UInt8) : Nat → Variables → Code Variables
  | 0, v => pure v
  | n + 1, v => do
    let v ← round polls code romCrc v
    rounds polls code romCrc n v

def main (polls n : Nat) : Code Variables := do
  let (code, romCrc) ← start polls
  rounds polls code romCrc n ⟨0, 0, 0, 0⟩

end Minimus32.Temperature
