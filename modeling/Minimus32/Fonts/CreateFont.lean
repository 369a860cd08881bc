import Minimus32.Library.BitPacking
import Minimus32.Fonts.Ppm

namespace Minimus32.Fonts

/-- The options of a `.font` file. -/
structure Config where
  width : Nat
  height : Nat
  start : Nat
  stop : Nat

def Config.glyphs (config : Config) : Nat := config.stop + 1 - config.start

/-- The script's variables, and the numbers it has printed into the table. -/
structure Buffer where
  buffer : List Nat
  bufferBitNumber : Nat
  bufferByte : Nat
  printed : List Nat

def Buffer.empty : Buffer := ⟨[], 0, 0, []⟩

/-- The bits and the byte that are not complete stay behind. -/
def Buffer.bufferFlush (b : Buffer) : Buffer :=
  let buffer := if b.bufferBitNumber ≠ 0 then b.buffer ++ [b.bufferByte <<< (7 - b.bufferBitNumber)] else b.buffer
  { b with buffer := [], printed := b.printed ++ buffer }

def Buffer.printBit (b : Buffer) (pixel : Nat) : Buffer :=
  let bufferByte := if pixel ≠ 0 then b.bufferByte else b.bufferByte ||| 1
  if b.bufferBitNumber + 1 = 8 then
    { b with buffer := b.buffer ++ [bufferByte], bufferByte := 0, bufferBitNumber := 0 }
  else { b with bufferByte := bufferByte <<< 1, bufferBitNumber := b.bufferBitNumber + 1 }

def printGlyph (data : List Nat) (config : Config) (b : Buffer) (index : Nat) : Buffer :=
  ((List.range config.height).foldl (fun b y =>
    (List.range config.width).foldl (fun b x =>
      b.printBit (getPixel data (index * config.width + x) y 0 (getWidth data))) b) b).bufferFlush

def charSize (config : Config) : Nat :=
  if config.width * config.height % 8 ≠ 0 then config.width * config.height / 8 + 1
  else config.width * config.height / 8

/-- The numbers of the C file. -/
structure FontTable where
  width : Nat
  height : Nat
  charSize : Nat
  start : Nat
  stop : Nat
  bits : List Nat
deriving DecidableEq

def createFont (config : Config) (data : List Nat) : Option FontTable :=
  (readPPM data).map fun data => ⟨config.width, config.height, charSize config, config.start, config.stop,
    ((List.range config.glyphs).foldl (printGlyph data config) .empty).printed⟩

theorem charSize_eq (config : Config) : charSize config = (config.width * config.height + 7) / 8 := by
  unfold charSize
  split
  · omega
  · omega

open BitPacking

/-- The byte in progress as it will be printed. -/
def Buffer.packer (b : Buffer) : Packer :=
  ⟨b.buffer, b.bufferBitNumber, b.bufferByte <<< (7 - b.bufferBitNumber)⟩

theorem shiftLeft_inked (bufferByte n pixel : Nat) :
    (if pixel ≠ 0 then bufferByte else bufferByte ||| 1) <<< (7 - n) =
      bufferByte <<< (7 - n) ||| if decide (pixel = 0) then 2 ^ high n else 0 := by
  by_cases ink : pixel = 0
  · rw [if_neg (fun other => other ink), if_pos (decide_eq_true ink), Nat.shiftLeft_or_distrib, Nat.one_shiftLeft]
    rfl
  · rw [if_pos ink, if_neg (by simp [ink]), Nat.or_zero]

theorem Buffer.packer_printBit (b : Buffer) (pixel : Nat) (count : b.bufferBitNumber < 8) :
    (b.printBit pixel).packer = b.packer.push high (decide (pixel = 0)) := by
  have inked := shiftLeft_inked b.bufferByte b.bufferBitNumber pixel
  unfold Buffer.printBit Packer.push
  dsimp only
  by_cases last : b.bufferBitNumber + 1 = 8
  · rw [show 7 - b.bufferBitNumber = 0 by omega, Nat.shiftLeft_zero, Nat.shiftLeft_zero] at inked
    rw [if_pos last, if_pos (show b.packer.count + 1 = 8 from last), inked]
    simp [Buffer.packer, show 7 - b.bufferBitNumber = 0 by omega]
  · rw [if_neg last, if_neg (show ¬ b.packer.count + 1 = 8 from last)]
    show Packer.mk _ _ _ = Packer.mk _ _ _
    rw [← Nat.shiftLeft_add, show 1 + (7 - (b.bufferBitNumber + 1)) = 7 - b.bufferBitNumber by omega, inked]
    rfl

theorem Buffer.printed_printBit (b : Buffer) (pixel : Nat) : (b.printBit pixel).printed = b.printed := by
  unfold Buffer.printBit
  dsimp only
  split
  · rfl
  · rfl

theorem Buffer.flush_packer (b : Buffer) :
    b.bufferFlush.packer = ⟨[], b.packer.count, b.packer.byte⟩ ∧
      b.bufferFlush.printed = b.printed ++ (b.packer.bytes ++ if b.packer.count ≠ 0 then [b.packer.byte] else []) := by
  unfold Buffer.bufferFlush Buffer.packer
  dsimp only
  constructor
  · rfl
  · split
    · rfl
    · rw [List.append_nil]

def glyphPixels (data : List Nat) (config : Config) (index : Nat) : List Nat :=
  (RowMajor.cells config.width config.height).map fun cell =>
    getPixel data (index * config.width + cell.1) cell.2 0 (getWidth data)

def glyphBits (data : List Nat) (config : Config) (index : Nat) : List Bool :=
  (glyphPixels data config index).map fun pixel => decide (pixel = 0)

theorem length_glyphBits (data : List Nat) (config : Config) (index : Nat) :
    (glyphBits data config index).length = config.width * config.height := by
  rw [glyphBits, List.length_map, glyphPixels, List.length_map, RowMajor.length_cells]

theorem printGlyph_eq (data : List Nat) (config : Config) (b : Buffer) (index : Nat) :
    printGlyph data config b index = ((glyphPixels data config index).foldl Buffer.printBit b).bufferFlush := by
  rw [printGlyph, glyphPixels, RowMajor.cells, List.foldl_map, List.foldl_flatMap]
  simp only [List.foldl_map]

/-- What glyph `i` adds to the table when each has `size` bits: it starts with the byte the glyph before it
    ended in. -/
def glyphBytes (place : Nat → Nat) (rows : Nat → List Bool) (size i : Nat) : List Nat :=
  chunk place (stream rows size) (i * size / 8) ((i + 1) * size)

section

variable (place : Nat → Nat) (rows : Nat → List Bool) (size : Nat)

/-- A buffer that has taken the bits of `i` glyphs and printed them. -/
structure Printed (view : Buffer → Packer) (i : Nat) (b : Buffer) : Prop where
  holds : (view b).Holds place (stream rows size) (i * size / 8) (i * size)
  printed : b.printed = (List.range i).flatMap (glyphBytes place rows size)

theorem Printed.foldl {view : Buffer → Packer} {glyph : Buffer → Nat → Buffer} {b : Buffer}
    (start : Printed place rows size view 0 b)
    (step : ∀ i b, Printed place rows size view i b → Printed place rows size view (i + 1) (glyph b i)) (n : Nat) :
    Printed place rows size view n ((List.range n).foldl glyph b) := by
  induction n with
  | zero => exact start
  | succ n ih =>
    rw [List.range_succ, List.foldl_append]
    exact step n _ ih

end

section

variable {place : Nat → Nat} {size i : Nat}

variable (place size i) in
theorem length_glyphBytes (rows : Nat → List Bool) :
    (glyphBytes place rows size i).length = ((i + 1) * size + 7) / 8 - i * size / 8 := by
  apply length_chunk
  rw [Nat.succ_mul]
  omega

/-- A glyph that starts with a byte of its own has its bits from there on. -/
theorem bit_glyphBytes (rows : Nat → List Bool) (distinct : Distinct place) (aligned : i * size % 8 = 0) {p : Nat}
    (inside : p < size) :
    ∃ value, (glyphBytes place rows size i)[p / 8]? = some value ∧
      value.testBit (place (p % 8)) = (rows i).getD p false := by
  have found := bit_chunk (stream rows size) (i * size / 8) ((i + 1) * size) distinct (q := i * size + p)
    (by omega) (by rw [Nat.succ_mul]; omega)
  rw [show (i * size + p) / 8 - i * size / 8 = p / 8 by omega, show (i * size + p) % 8 = p % 8 by omega,
    stream_add rows i inside] at found
  exact found

/-- When every glyph does, all have the same length in bytes. -/
theorem bit_glyphs (rows : Nat → List Bool) (distinct : Distinct place) {n : Nat}
    (aligned : ∀ k < n, k * size % 8 = 0) (member : i < n) {p : Nat} (inside : p < size) :
    ∃ value, ((List.range n).flatMap (glyphBytes place rows size))[(size + 7) / 8 * i + p / 8]? = some value ∧
      value.testBit (place (p % 8)) = (rows i).getD p false := by
  have even : ∀ k ∈ List.range n, (glyphBytes place rows size k).length = (size + 7) / 8 := by
    intro k earlier
    have start := aligned k (List.mem_range.mp earlier)
    rw [length_glyphBytes, Nat.succ_mul]
    omega
  rw [RowMajor.getElem?_flatMap even i (by omega), List.getElem?_range member, Option.bind_some]
  exact bit_glyphBytes rows distinct (aligned i member) inside

end

/-- Printing a pixel packs its bit, in a view of the buffer that has the byte in progress as it will be printed. -/
structure Packs (place : Nat → Nat) (view : Buffer → Packer) (print : Buffer → Nat → Buffer) : Prop where
  count : ∀ b, (view b).count = b.bufferBitNumber
  push : ∀ b pixel, b.bufferBitNumber < 8 → view (print b pixel) = (view b).push place (decide (pixel = 0))
  printed : ∀ b pixel, (print b pixel).printed = b.printed

section

variable {place : Nat → Nat} {view : Buffer → Packer} {print : Buffer → Nat → Buffer}

theorem Packs.foldl (packs : Packs place view print) (pixels : List Nat) {b : Buffer} (small : b.bufferBitNumber < 8) :
    (pixels.foldl print b).printed = b.printed ∧
      view (pixels.foldl print b) =
        (pixels.map fun pixel => decide (pixel = 0)).foldl (Packer.push place) (view b) := by
  induction pixels generalizing b with
  | nil => exact ⟨rfl, rfl⟩
  | cons pixel pixels ih =>
    have pushed := packs.push b pixel small
    have next : (print b pixel).bufferBitNumber < 8 := by
      rw [← packs.count] at small ⊢
      rw [pushed]
      exact (view b).count_push place _ small
    obtain ⟨printed, viewed⟩ := ih next
    rw [List.foldl_cons, List.map_cons, List.foldl_cons, ← pushed]
    exact ⟨printed.trans (packs.printed b pixel), viewed⟩

/-- From one glyph to the next, if the buffer is flushed as the view says it is. -/
theorem Packs.glyph (packs : Packs place view print) {pixels : Nat → List Nat} {rows : Nat → List Bool} {size i : Nat}
    (bits : rows i = (pixels i).map fun pixel => decide (pixel = 0)) (length : (rows i).length = size)
    (flush : ∀ b : Buffer, b.bufferBitNumber = (i + 1) * size % 8 →
      view b.bufferFlush = ⟨[], (view b).count, (view b).byte⟩ ∧ b.bufferFlush.printed =
        b.printed ++ ((view b).bytes ++ if (view b).count ≠ 0 then [(view b).byte] else []))
    {b : Buffer} (printed : Printed place rows size view i b) :
    Printed place rows size view (i + 1) ((pixels i).foldl print b).bufferFlush := by
  have small : b.bufferBitNumber < 8 := by
    rw [← packs.count, printed.holds.count]
    exact Nat.mod_lt _ (by decide)
  obtain ⟨same, packed⟩ := packs.foldl (pixels i) small
  have holds := printed.holds.pushAll size
  rw [map_stream length, ← Nat.succ_mul, bits, ← packed] at holds
  obtain ⟨left, added⟩ := flush ((pixels i).foldl print b) ((packs.count _).symm.trans holds.count)
  constructor
  · rw [left]
    exact holds.taken
  · rw [added, holds.chunk, same, printed.printed, List.range_succ, List.flatMap_append, List.flatMap_singleton]
    rfl

end

theorem packs_printBit : Packs high Buffer.packer Buffer.printBit :=
  ⟨fun _ => rfl, Buffer.packer_printBit, Buffer.printed_printBit⟩

theorem printGlyph_printed (data : List Nat) (config : Config) (i : Nat) (b : Buffer)
    (printed : Printed high (glyphBits data config) (config.width * config.height) Buffer.packer i b) :
    Printed high (glyphBits data config) (config.width * config.height) Buffer.packer (i + 1)
      (printGlyph data config b i) := by
  rw [printGlyph_eq]
  exact packs_printBit.glyph rfl (length_glyphBits data config i) (fun b _ => b.flush_packer) printed

theorem empty_printed (place : Nat → Nat) (rows : Nat → List Bool) (size : Nat) {view : Buffer → Packer}
    (blank : view .empty = ⟨[], 0, 0⟩) : Printed place rows size view 0 .empty := by
  constructor
  · rw [blank, Nat.zero_mul]
    exact ⟨rfl, rfl, rfl, Nat.le_refl _⟩
  · rfl

theorem createFont_eq (config : Config) (p : Picture) :
    createFont config p.tokens = some ⟨config.width, config.height, charSize config, config.start, config.stop,
      (List.range config.glyphs).flatMap
        (glyphBytes high (glyphBits p.tokens config) (config.width * config.height))⟩ := by
  have printed := (empty_printed high (glyphBits p.tokens config) (config.width * config.height) rfl).foldl _ _ _
    (printGlyph_printed p.tokens config) config.glyphs
  rw [createFont, p.readPPM_tokens, Option.map_some, printed.printed]

end Minimus32.Fonts
