import Minimus32.Fonts.CreateFont

namespace Minimus32.Fonts

open BitPacking

/-- `printBit` of `createVerticalByteFont.pl`: the least significant bit comes first. -/
def Buffer.printVerticalBit (b : Buffer) (pixel : Nat) : Buffer :=
  let bufferByte := if pixel ≠ 0 then b.bufferByte else b.bufferByte ||| 1 <<< b.bufferBitNumber
  if b.bufferBitNumber + 1 > 7 then
    { b with buffer := b.buffer ++ [bufferByte], bufferByte := 0, bufferBitNumber := 0 }
  else { b with bufferByte := bufferByte, bufferBitNumber := b.bufferBitNumber + 1 }

/-- `height` counts bytes. -/
def printVerticalGlyph (data : List Nat) (config : Config) (b : Buffer) (index : Nat) : Buffer :=
  ((List.range config.width).foldl (fun b x =>
    (List.range (config.height * 8)).foldl (fun b y =>
      b.printVerticalBit (getPixel data (index * config.width + x) y 0 (getWidth data))) b) b).bufferFlush

/-- The numbers of the C file. -/
structure VerticalTable where
  width : Nat
  height : Nat
  start : Nat
  stop : Nat
  bits : List Nat
deriving DecidableEq

def createVerticalByteFont (config : Config) (data : List Nat) : Option VerticalTable :=
  (readPPM data).map fun data => ⟨config.width, config.height, config.start, config.stop,
    ((List.range config.glyphs).foldl (printVerticalGlyph data config) .empty).printed⟩

def Buffer.verticalPacker (b : Buffer) : Packer := ⟨b.buffer, b.bufferBitNumber, b.bufferByte⟩

theorem Buffer.verticalPacker_printVerticalBit (b : Buffer) (pixel : Nat) (count : b.bufferBitNumber < 8) :
    (b.printVerticalBit pixel).verticalPacker = b.verticalPacker.push id (decide (pixel = 0)) := by
  have inked : (if pixel ≠ 0 then b.bufferByte else b.bufferByte ||| 1 <<< b.bufferBitNumber) =
      b.bufferByte ||| if decide (pixel = 0) then 2 ^ id b.bufferBitNumber else 0 := by
    by_cases ink : pixel = 0
    · rw [if_neg (fun other => other ink), if_pos (decide_eq_true ink), Nat.one_shiftLeft]
      rfl
    · rw [if_pos ink, if_neg (by simp [ink]), Nat.or_zero]
  unfold Buffer.printVerticalBit Packer.push
  dsimp only
  rw [inked]
  by_cases last : b.bufferBitNumber + 1 = 8
  · rw [if_pos (by omega), if_pos (show b.verticalPacker.count + 1 = 8 from last)]
    rfl
  · rw [if_neg (by omega), if_neg (show ¬ b.verticalPacker.count + 1 = 8 from last)]
    rfl

theorem packs_printVerticalBit : Packs id Buffer.verticalPacker Buffer.printVerticalBit where
  count := fun _ => rfl
  push := Buffer.verticalPacker_printVerticalBit
  printed := by
    intro b pixel
    unfold Buffer.printVerticalBit
    dsimp only
    split
    · rfl
    · rfl

def verticalPixels (data : List Nat) (config : Config) (index : Nat) : List Nat :=
  (RowMajor.cells (config.height * 8) config.width).map fun cell =>
    getPixel data (index * config.width + cell.2) cell.1 0 (getWidth data)

def verticalBits (data : List Nat) (config : Config) (index : Nat) : List Bool :=
  (verticalPixels data config index).map fun pixel => decide (pixel = 0)

theorem length_verticalBits (data : List Nat) (config : Config) (index : Nat) :
    (verticalBits data config index).length = config.height * 8 * config.width := by
  rw [verticalBits, List.length_map, verticalPixels, List.length_map, RowMajor.length_cells]

theorem printVerticalGlyph_eq (data : List Nat) (config : Config) (b : Buffer) (index : Nat) :
    printVerticalGlyph data config b index =
      ((verticalPixels data config index).foldl Buffer.printVerticalBit b).bufferFlush := by
  rw [printVerticalGlyph, verticalPixels, RowMajor.cells, List.foldl_map, List.foldl_flatMap]
  simp only [List.foldl_map]

theorem vertical_aligned (config : Config) (n : Nat) : n * (config.height * 8 * config.width) % 8 = 0 := by
  apply Nat.mod_eq_zero_of_dvd
  apply Nat.dvd_mul_left_of_dvd
  apply Nat.dvd_mul_right_of_dvd
  exact Nat.dvd_mul_left 8 config.height

/-- A glyph ends with a whole byte, so that none is printed before it is complete. -/
theorem printVerticalGlyph_printed (data : List Nat) (config : Config) (i : Nat) (b : Buffer)
    (printed : Printed id (verticalBits data config) (config.height * 8 * config.width) Buffer.verticalPacker i b) :
    Printed id (verticalBits data config) (config.height * 8 * config.width) Buffer.verticalPacker (i + 1)
      (printVerticalGlyph data config b i) := by
  rw [printVerticalGlyph_eq]
  apply packs_printVerticalBit.glyph rfl (length_verticalBits data config i) _ printed
  intro b count
  have whole : ¬ b.bufferBitNumber ≠ 0 := fun more => more (count.trans (vertical_aligned config (i + 1)))
  constructor
  · rfl
  · rw [Buffer.bufferFlush, if_neg whole, if_neg (show ¬ b.verticalPacker.count ≠ 0 from whole), List.append_nil]
    rfl

theorem createVerticalByteFont_eq (config : Config) (p : Picture) :
    createVerticalByteFont config p.tokens = some ⟨config.width, config.height, config.start, config.stop,
      (List.range config.glyphs).flatMap
        (glyphBytes id (verticalBits p.tokens config) (config.height * 8 * config.width))⟩ := by
  have printed := (empty_printed id (verticalBits p.tokens config) (config.height * 8 * config.width) rfl).foldl _ _ _
    (printVerticalGlyph_printed p.tokens config) config.glyphs
  rw [createVerticalByteFont, p.readPPM_tokens, Option.map_some, printed.printed]

theorem getD_verticalBits {config : Config} {p : Picture} {g c y : Nat} (column : c < config.width)
    (row : y < config.height * 8) (right : g * config.width + c < p.width) (bottom : y < p.height) :
    (verticalBits p.tokens config g).getD (config.height * 8 * c + y) false =
      decide ((p.pixel (g * config.width + c) y).1 = 0) := by
  have pixel := p.getPixel_tokens right bottom (show 0 < 3 by decide)
  rw [verticalBits, verticalPixels, List.getD_eq_getElem?_getD, List.getElem?_map, List.getElem?_map,
    RowMajor.getElem?_cells row column, Option.map_some, Option.map_some, Option.getD_some]
  exact congrArg (fun component => decide (component = 0)) pixel

/-- Byte `b` of column `c` of glyph `g`, with the topmost pixel in its least significant bit. -/
theorem bit_verticalTable {config : Config} {p : Picture} {g c b : Nat} (member : g < config.glyphs)
    (column : c < config.width) (row : b < config.height) {r : Nat} (inside : r < 8)
    (right : g * config.width + c < p.width) (bottom : 8 * b + r < p.height) :
    ∃ value, ((List.range config.glyphs).flatMap (glyphBytes id (verticalBits p.tokens config)
        (config.height * 8 * config.width)))[config.height * config.width * g + (config.height * c + b)]? = some value ∧
      value.testBit r = decide ((p.pixel (g * config.width + c) (8 * b + r)).1 = 0) := by
  have size : config.height * 8 * config.width = 8 * (config.height * config.width) := by
    rw [Nat.mul_comm config.height 8, Nat.mul_assoc]
  have place : config.height * 8 * c + (8 * b + r) = 8 * (config.height * c + b) + r := by
    rw [Nat.mul_comm config.height 8, Nat.mul_assoc, Nat.mul_add]
    omega
  have within : config.height * 8 * c + (8 * b + r) < config.height * 8 * config.width := by
    have below : config.height * 8 * (c + 1) ≤ config.height * 8 * config.width := Nat.mul_le_mul_left _ column
    rw [Nat.mul_succ] at below
    omega
  obtain ⟨value, found, bit⟩ := bit_glyphs (verticalBits p.tokens config) id_distinct
    (fun k _ => vertical_aligned config k) member within
  rw [getD_verticalBits column (by omega) right bottom, place,
    show (8 * (config.height * c + b) + r) % 8 = r by omega] at bit
  rw [place, show (8 * (config.height * c + b) + r) / 8 = config.height * c + b by omega,
    show (config.height * 8 * config.width + 7) / 8 = config.height * config.width by omega] at found
  exact ⟨value, found, bit⟩

end Minimus32.Fonts
