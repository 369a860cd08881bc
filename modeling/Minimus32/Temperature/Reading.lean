import Minimus32.Temperature.Demo

namespace Minimus32.Temperature

open Interaction Program Numeral
open Hd44780 (Bench put Fits)
open OneWire (RomCode Thermometer Sensor Wire)

/-- The characters for a temperature in halves of a degree. -/
def degrees (temp : Int) : List UInt8 :=
  (if 0 ≤ temp then lowDigits 5 (temp / 2).toNat else (lowDigits 5 (-(temp / 2)).toNat).map (96 - ·)) ++
    [point, if temp % 2 = 0 then 0x30 else 0x35]

section Wire

variable {polls : Nat} {net : Wire Sensor} {t : Thermometer}

end Wire

end Minimus32.Temperature
