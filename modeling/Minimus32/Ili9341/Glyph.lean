import Minimus32.Ili9341.Driver

namespace Minimus32.Ili9341

open Display

/-- The two bytes of a pixel in the colour of its bit. -/
def colourBytes (fgHigh fgLow bgHigh bgLow : UInt8) (set : Bool) : List UInt8 :=
  if set then [fgHigh, fgLow] else [bgHigh, bgLow]

theorem length_colourBytes (fgHigh fgLow bgHigh bgLow : UInt8) (set : Bool) :
    (colourBytes fgHigh fgLow bgHigh bgLow set).length = 2 := by
  cases set with
  | false => rfl
  | true => rfl

section

variable (flash : Flash) (fgHigh fgLow bgHigh bgLow : UInt8)

theorem glyphLoop_silent (n : Nat) (r : Reader) :
    ∀ a ∈ glyphLoop flash fgHigh fgLow bgHigh bgLow n r, ¬ a.Commands := by
  induction n generalizing r with
  | zero => simp [glyphLoop]
  | succ n ih =>
    intro a member
    rcases List.mem_append.mp member with colour | rest
    · split at colour
      all_goals
        rcases List.mem_pair.mp colour with rfl | rfl
        all_goals exact id
    · rcases List.mem_append.mp rest with fetched | later
      · exact r.next_silent flash 1 a fetched
      · exact ih _ a later

/-- One round sends the colour of the bit the reader has come to. -/
theorem sent_glyphLoop (offset : UInt16) (n : Nat) {p : Nat} {r : Reader} (reads : r.At flash offset p) :
    (glyphLoop flash fgHigh fgLow bgHigh bgLow n r).filterMap Action.sent =
      (List.range' p n).flatMap fun q => colourBytes fgHigh fgLow bgHigh bgLow (flash.bit offset q) := by
  induction n generalizing p r with
  | zero => rfl
  | succ n ih =>
    have room : p % 8 + (1 : UInt8).toNat ≤ 8 := Nat.mod_lt p (by decide)
    have later := ih (reads.next room (by decide))
    have colour : (if r.currentByte &&& 128 ≠ 0 then [Action.data fgHigh, .data fgLow]
        else [.data bgHigh, .data bgLow]).filterMap Action.sent =
        colourBytes fgHigh fgLow bgHigh bgLow (flash.bit offset p) := by
      rw [if_congr reads.top_bit rfl rfl, colourBytes]
      split
      · rfl
      · rfl
    rw [glyphLoop, List.filterMap_append, List.filterMap_append, r.sent_next, List.nil_append, colour, later,
      List.range'_succ, List.flatMap_cons]
    rfl

end

theorem toNat_area (width height : UInt8) :
    (width.toUInt16 * height.toUInt16).toNat = width.toNat * height.toNat := by
  have columns := width.toNat_lt
  have rows := height.toNat_lt
  have product : width.toNat * height.toNat ≤ 255 * 255 := Nat.mul_le_mul (by omega) (by omega)
  rw [UInt16.toNat_mul, UInt8.toNat_toUInt16, UInt8.toNat_toUInt16]
  exact Nat.mod_eq_of_lt (by omega)

theorem payload_drawBitFontChar (x y character : UInt8) (font : Bitfont) (fgHigh fgLow bgHigh bgLow : UInt8) :
    payload (drawBitFontChar x y character font fgHigh fgLow bgHigh bgLow) =
      (List.range (font.width.toNat * font.height.toNat)).flatMap fun p =>
        colourBytes fgHigh fgLow bgHigh bgLow (font.bits.bit (font.offset character) p) := by
  rw [drawBitFontChar, payload_command, List.filterMap_cons]
  · rw [sent_glyphLoop _ _ _ _ _ _ _ (font.load_at character), List.range_eq_range', toNat_area]
    rfl
  · intro a member
    rcases List.mem_cons.mp member with rfl | later
    · exact id
    · exact glyphLoop_silent _ _ _ _ _ _ _ a later

end Minimus32.Ili9341
