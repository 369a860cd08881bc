import Minimus32.Display.Bitfont

namespace Minimus32.Ili9341

open Display

/-- `ILI9341_CMD_COLUMN_ADDRESS_SET` -/
def columnAddressSet : UInt8 := 0x2A

/-- `ILI9341_CMD_PAGE_ADDRESS_SET` -/
def pageAddressSet : UInt8 := 0x2B

/-- `ILI9341_CMD_MEMORY_WRITE` -/
def memoryWrite : UInt8 := 0x2C

def setAddress (command : UInt8) (start stop : UInt16) : List Action :=
  [.command command, .data (start >>> 8).toUInt8, .data (start &&& 0xff).toUInt8, .data (stop >>> 8).toUInt8,
    .data (stop &&& 0xff).toUInt8]

def setXAddress (start stop : UInt16) : List Action := setAddress columnAddressSet start stop

def setYAddress (start stop : UInt16) : List Action := setAddress pageAddressSet start stop

/-- A loop that sends one colour for every count down to zero. -/
def sendColour (colour : UInt16) : Nat → List Action
  | 0 => []
  | n + 1 => .data (colour >>> 8).toUInt8 :: .data (colour &&& 0xff).toUInt8 :: sendColour colour n

def fillN (colour countN : UInt16) : List Action := .command memoryWrite :: sendColour colour countN.toNat

def fillRows (colour countM : UInt16) : Nat → List Action
  | 0 => []
  | n + 1 => sendColour colour countM.toNat ++ fillRows colour countM n

def fillNTimesM (colour countN countM : UInt16) : List Action :=
  .command memoryWrite :: fillRows colour countM countN.toNat

def fill (colour : UInt16) : List Action :=
  setXAddress 0 239 ++ setYAddress 0 339 ++ fillNTimesM colour 320 240

def drawVerticalLine (colour x startY endY : UInt16) : List Action :=
  setXAddress x x ++ setYAddress startY endY ++ fillN colour (endY - startY + 1)

def drawHorizontalLine (colour y startX endX : UInt16) : List Action :=
  setXAddress startX endX ++ setYAddress y y ++ fillN colour (endX - startX + 1)

def drawFilledRectangle (colour startX endX startY endY : UInt16) : List Action :=
  setYAddress startY endY ++ setXAddress startX endX ++ fillNTimesM colour (endX - startX + 1) (endY - startY + 1)

structure Image565 where
  width : UInt16
  height : UInt16
  bytes : Flash

/-- The inner loop of `drawImage565` from the pointer on, with the pointer it leaves. -/
def sendRow (bytes : Flash) : Nat → UInt16 → List Action × UInt16
  | 0, pointer => ([], pointer)
  | n + 1, pointer =>
    let rest := sendRow bytes n (pointer + 2)
    (.fetch pointer :: .data (bytes pointer) :: .fetch (pointer + 1) :: .data (bytes (pointer + 1)) :: rest.1, rest.2)

def sendRows (bytes : Flash) (width : Nat) : Nat → UInt16 → List Action
  | 0, _ => []
  | n + 1, pointer => (sendRow bytes width pointer).1 ++ sendRows bytes width n (sendRow bytes width pointer).2

def drawImage565 (x y : UInt16) (image : Image565) : List Action :=
  setXAddress x (x + image.width - 1) ++ setYAddress y (y + image.height - 1) ++
    .command memoryWrite :: sendRows image.bytes image.width.toNat image.height.toNat 0

/-- The loop of `drawBitFontChar`, with `n` bits to go. -/
def glyphLoop (flash : Flash) (fgHigh fgLow bgHigh bgLow : UInt8) : Nat → Reader → List Action
  | 0, _ => []
  | n + 1, r =>
    (if r.currentByte &&& 128 ≠ 0 then [.data fgHigh, .data fgLow] else [.data bgHigh, .data bgLow]) ++
      ((r.next flash 1).1 ++ glyphLoop flash fgHigh fgLow bgHigh bgLow n (r.next flash 1).2)

def drawBitFontChar (x y character : UInt8) (font : Bitfont) (fgHigh fgLow bgHigh bgLow : UInt8) : List Action :=
  setXAddress x.toUInt16 (x.toUInt16 + font.width.toUInt16 - 1) ++
    setYAddress y.toUInt16 (y.toUInt16 + font.height.toUInt16 - 1) ++
    .command memoryWrite :: .fetch (font.offset character) ::
      glyphLoop font.bits fgHigh fgLow bgHigh bgLow (font.width.toUInt16 * font.height.toUInt16).toNat
        (Reader.load font.bits (font.offset character))

end Minimus32.Ili9341
