import Minimus32.Library.Numeral

namespace Minimus32.Temperature

open Numeral

/-- The digits that a loop from the last place to the first gives; C rounds towards zero. -/
def digits : Nat → Int → List UInt8
  | 0, _ => []
  | n + 1, tmp => digits n (tmp.tdiv 10) ++ [UInt8.ofNat (tmp.tmod 10 + 48).toNat]

/-- The sixteen bit number of the two bytes. -/
def temperature (msb lsb : UInt8) : Int := (BitVec.ofNat 16 (256 * msb.toNat + lsb.toNat)).toInt

end Minimus32.Temperature
