import Minimus32.BoardSupport.Spi
import Minimus32.Display.Wire
import Minimus32.Pcd8544.Controller

namespace Minimus32.Pcd8544

open Display

/-- The SPI bus lock, the display's chip select and command lines, and the display. -/
structure Board where
  spiBusLock : UInt8
  selected : Bool
  command : Bool
  controller : Controller

/-- The display takes a byte while it is selected, as the command line says. -/
def Board.spiIo (b : Board) (txData : UInt8) : Board :=
  if b.selected then
    { b with controller := if b.command then b.controller.instruction txData else b.controller.data txData }
  else b

def functionSet : UInt8 := 0x20

def bitExtended : UInt8 := 0x01

def bitVertical : UInt8 := 0x02

def displayControlNormal : UInt8 := 0x0C

def cmdSetY : UInt8 := 0x40

def cmdSetX : UInt8 := 0x80

def extTempC : UInt8 := 0x04

def extBias : UInt8 := 0x10

def extVop : UInt8 := 0x80

/-- `pcd8544_init` -/
def Board.init (b : Board) (rounds : List Bool) (contrast : UInt8) : Option Board :=
  (Spi.obtainBus 1 rounds b.spiBusLock).map fun obtained =>
    let b : Board := ⟨obtained.2, true, true, b.controller.reset⟩
    let b := [functionSet ||| bitExtended, extVop ||| contrast, extTempC ||| 0, extBias ||| 4,
      functionSet ||| bitVertical, displayControlNormal].foldl Board.spiIo b
    { b with command := false, selected := false, spiBusLock := Spi.releaseBus }

structure VerticalByteFont where
  width : UInt8
  height : UInt8
  start : UInt8
  stop : UInt8
  bytes : Flash

/-- The loop over a column's bytes, with the pointer it leaves. -/
def sendBytes (flash : Flash) : Nat → UInt16 → Board → Board × UInt16
  | 0, bytes, b => (b, bytes)
  | n + 1, bytes, b => sendBytes flash n (bytes + 1) (b.spiIo (flash bytes))

def printColumn (flash : Flash) (yIndex height x : UInt8) (bytes : UInt16) (b : Board) : Board × UInt16 :=
  sendBytes flash height.toNat bytes { ({ b with command := true }.spiIo yIndex).spiIo x with command := false }

/-- The loop over a character's columns, with the position it leaves. -/
def printColumns (flash : Flash) (yIndex height : UInt8) : Nat → UInt8 → UInt16 → Board → Board × UInt8
  | 0, x, _, b => (b, x)
  | n + 1, x, bytes, b =>
    let column := printColumn flash yIndex height x bytes b
    printColumns flash yIndex height n (x + 1) column.2 column.1

/-- The loop over the string; `none` when no zero ends it. -/
def printString (font : VerticalByteFont) (yIndex : UInt8) : List UInt8 → UInt8 → Board → Option Board
  | [], _, _ => none
  | data :: string, x, b =>
    if data = 0 then some b
    else
      let charSize := font.width.toUInt16 * font.height.toUInt16
      let bytes := (data.toUInt16 - font.start.toUInt16) * charSize
      let printed := printColumns font.bytes yIndex font.height font.width.toNat x bytes b
      printString font yIndex string printed.2 printed.1

/-- `pcd8544_print` -/
def Board.print (b : Board) (rounds : List Bool) (x yIndex : UInt8) (string : List UInt8) (font : VerticalByteFont) :
    Option Board :=
  (Spi.obtainBus 1 rounds b.spiBusLock).bind fun obtained =>
    (printString font (yIndex + cmdSetY) string (x + cmdSetX) { b with spiBusLock := obtained.2, selected := true }).map
      fun b => { b with selected := false, spiBusLock := Spi.releaseBus }

/-- How both functions leave the display. -/
structure Board.Ready (b : Board) : Prop where
  deselected : b.selected = false
  dataMode : b.command = false
  mode : b.controller.Vertical

/-- Whatever mode it is in, the second function set of `pcd8544_init` leaves it. -/
theorem Controller.function_set_vertical (c : Controller) :
    ((c.instruction (functionSet ||| bitVertical)).instruction displayControlNormal).Vertical := ⟨rfl, rfl⟩

theorem Board.init_ready (b : Board) {rounds : List Bool} (contrast : UInt8)
    (free : b.spiBusLock = 0 ∧ rounds ≠ [] ∨ true ∈ rounds) :
    ∃ started, b.init rounds contrast = some started ∧ started.Ready ∧ started.spiBusLock = 0 := by
  rw [Board.init, Spi.obtainBus_blocking free]
  exact ⟨_, rfl, ⟨rfl, rfl, Controller.function_set_vertical _⟩, rfl⟩

end Minimus32.Pcd8544
