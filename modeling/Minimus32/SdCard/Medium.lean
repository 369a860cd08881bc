import Mathlib.Data.List.Basic

namespace Minimus32

/-- What a disk holds: sectors of 512 bytes. -/
structure Medium where
  bytes : Nat → List UInt8
  length_bytes : ∀ sector, (bytes sector).length = 512

/-- A medium that starts with these sectors, filled up with zeros. -/
def Medium.ofSectors (sectors : List (List UInt8)) : Medium where
  bytes i := ((sectors.getD i []).take 512).rightpad 512 0
  length_bytes i := by
    rw [List.length_rightpad, List.length_take]
    omega

/-- The contents with one sector replaced, if by a whole one. -/
def Medium.put (medium : Medium) (sector : Nat) (block : List UInt8) : Medium :=
  if whole : block.length = 512 then
    ⟨fun s => if s = sector then block else medium.bytes s, fun s => by
      split
      · exact whole
      · exact medium.length_bytes s⟩
  else medium

def Medium.piece (medium : Medium) (sector ofs count : Nat) : List UInt8 :=
  ((medium.bytes sector).drop ofs).take count

theorem Medium.length_piece (medium : Medium) {sector ofs count : Nat} (inside : ofs + count ≤ 512) :
    (medium.piece sector ofs count).length = count := by
  rw [piece, List.length_take, List.length_drop, medium.length_bytes]
  omega

theorem Medium.getD_piece (medium : Medium) (sector ofs : Nat) {count i : Nat} (inside : i < count) :
    (medium.piece sector ofs count).getD i 0 = (medium.bytes sector).getD (ofs + i) 0 := by
  simp only [piece, List.getD_eq_getElem?_getD, List.getElem?_take, if_pos inside, List.getElem?_drop]

theorem Medium.piece_one (medium : Medium) (sector : Nat) {ofs : Nat} (inside : ofs < 512) :
    medium.piece sector ofs 1 = [(medium.bytes sector).getD ofs 0] := by
  have within : ofs < (medium.bytes sector).length := by
    rw [medium.length_bytes]
    exact inside
  rw [piece, List.drop_eq_getElem_cons within, List.getD_eq_getElem?_getD, List.getElem?_eq_getElem within]
  rfl

end Minimus32
