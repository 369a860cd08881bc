import Minimus32.Display.Wire

namespace Minimus32.Display

structure Bitfont where
  width : UInt8
  height : UInt8
  charSize : UInt8
  start : UInt8
  stop : UInt8
  bits : Flash

/-- `font->bits + char_size * (character - start)`, as an offset from `font->bits`. -/
def Bitfont.offset (font : Bitfont) (character : UInt8) : UInt16 :=
  font.charSize.toUInt16 * (character.toUInt16 - font.start.toUInt16)

/-- The variables with which both renderers go through the bits of a glyph. -/
structure Reader where
  bits : UInt16
  currentByte : UInt8
  bytePos : UInt8

/-- `bytePos=8; currentByte = pgm_read_byte(bits++);` -/
def Reader.load (flash : Flash) (bits : UInt16) : Reader := ⟨bits + 1, flash bits, 8⟩

/-- The end of a round that has used up `step` bits. -/
def Reader.next (r : Reader) (flash : Flash) (step : UInt8) : List Action × Reader :=
  if r.bytePos - step = 0 then ([.fetch r.bits], Reader.load flash r.bits)
  else ([], ⟨r.bits, r.currentByte <<< step, r.bytePos - step⟩)

theorem Reader.sent_next (r : Reader) (flash : Flash) (step : UInt8) :
    (r.next flash step).1.filterMap Action.sent = [] := by
  unfold Reader.next
  split
  · rfl
  · rfl

theorem Reader.next_silent (r : Reader) (flash : Flash) (step : UInt8) :
    ∀ a ∈ (r.next flash step).1, ¬ a.Commands := by
  unfold Reader.next
  split
  · simp [Action.Commands]
  · simp

/-- Bit `p` of a table, the most significant bit of a byte first. -/
def Flash.bit (flash : Flash) (offset : UInt16) (p : Nat) : Bool :=
  Register.bit (flash (offset + UInt16.ofNat (p / 8))) (7 - p % 8)

/-- The reader has come to bit `p`: that bit and the rest of its byte stand at the top of `currentByte`. -/
structure Reader.At (r : Reader) (flash : Flash) (offset : UInt16) (p : Nat) : Prop where
  bits : r.bits = offset + UInt16.ofNat (p / 8) + 1
  bytePos : r.bytePos.toNat = 8 - p % 8
  top : ∀ i, p % 8 + i < 8 → Register.bit r.currentByte (7 - i) = flash.bit offset (p + i)

theorem Reader.load_at (flash : Flash) (offset : UInt16) {p : Nat} (aligned : p % 8 = 0) :
    (Reader.load flash (offset + UInt16.ofNat (p / 8))).At flash offset p := by
  constructor
  · rfl
  · rw [aligned]
    rfl
  · intro i inside
    have byte : (p + i) / 8 = p / 8 := by omega
    have place : (p + i) % 8 = i := by omega
    rw [Flash.bit, byte, place]
    rfl

namespace Reader.At

variable {r : Reader} {flash : Flash} {offset : UInt16} {p : Nat}

theorem toNat_left (reads : r.At flash offset p)
    {step : UInt8} (room : p % 8 + step.toNat ≤ 8) : (r.bytePos - step).toNat = 8 - p % 8 - step.toNat := by
  have position := reads.bytePos
  rw [UInt8.toNat_sub_of_le _ _ (UInt8.le_iff_toNat_le.mpr (by omega)), position]

theorem byte_ends (reads : r.At flash offset p)
    {step : UInt8} (room : p % 8 + step.toNat ≤ 8) : r.bytePos - step = 0 ↔ p % 8 + step.toNat = 8 := by
  rw [← UInt8.toNat_inj, reads.toNat_left room]
  change 8 - p % 8 - step.toNat = 0 ↔ _
  omega

theorem next (reads : r.At flash offset p)
    {step : UInt8} (room : p % 8 + step.toNat ≤ 8) (moves : 0 < step.toNat) :
    (r.next flash step).2.At flash offset (p + step.toNat) := by
  have fewer := reads.toNat_left room
  unfold Reader.next
  split
  · rename_i last
    have ended := (reads.byte_ends room).mp last
    have bits : r.bits = offset + UInt16.ofNat ((p + step.toNat) / 8) := by
      rw [reads.bits, show (p + step.toNat) / 8 = p / 8 + 1 by omega, UInt16.ofNat_add, UInt16.add_assoc]
      rfl
    rw [bits]
    exact Reader.load_at flash offset (by omega)
  · rename_i more
    have remaining : p % 8 + step.toNat < 8 := Nat.lt_of_le_of_ne room (mt (reads.byte_ends room).mpr more)
    constructor
    · rw [show (p + step.toNat) / 8 = p / 8 by omega]
      exact reads.bits
    · rw [fewer]
      omega
    · intro i inside
      have shifted := reads.top (step.toNat + i) (by omega)
      rw [← Nat.add_assoc] at shifted
      rw [Register.bit_shiftLeft _ _ (by omega) (by omega), ← shifted]
      congr 1
      omega

/-- A round that ends a byte fetches the next one. -/
theorem fetched_next (reads : r.At flash offset p)
    {step : UInt8} (room : p % 8 + step.toNat ≤ 8) :
    (r.next flash step).1.filterMap Action.fetched =
      (List.range' (p / 8 + 1) ((p + step.toNat) / 8 - p / 8)).map fun b => offset + UInt16.ofNat b := by
  have ends := reads.byte_ends room
  unfold Reader.next
  split
  · rename_i last
    have one : (p + step.toNat) / 8 - p / 8 = 1 := by
      have ended := ends.mp last
      omega
    rw [one, reads.bits, UInt16.add_assoc]
    simp [Action.fetched, UInt16.ofNat_add]
  · rename_i more
    have none : (p + step.toNat) / 8 - p / 8 = 0 := by
      have unended := mt ends.mpr more
      omega
    rw [none]
    rfl

theorem top_bit (reads : r.At flash offset p) :
    r.currentByte &&& 128 ≠ 0 ↔ flash.bit offset p = true := by
  have top : Register.bit r.currentByte 7 = flash.bit offset p := reads.top 0 (Nat.mod_lt p (by decide))
  rw [← top]
  exact Register.and_ne_zero (show 7 < 8 by decide) r.currentByte

theorem second_bit (reads : r.At flash offset p)
    (room : p % 8 + 1 < 8) : r.currentByte &&& 64 ≠ 0 ↔ flash.bit offset (p + 1) = true := by
  have second : Register.bit r.currentByte 6 = flash.bit offset (p + 1) := reads.top 1 room
  rw [← second]
  exact Register.and_ne_zero (show 6 < 8 by decide) r.currentByte

end Reader.At

theorem Bitfont.load_at (font : Bitfont) (character : UInt8) :
    (Reader.load font.bits (font.offset character)).At font.bits (font.offset character) 0 := by
  have loaded := Reader.load_at font.bits (font.offset character) (p := 0) rfl
  rwa [show UInt16.ofNat (0 / 8) = 0 from rfl, UInt16.add_zero] at loaded

end Minimus32.Display
