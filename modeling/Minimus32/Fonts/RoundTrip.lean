import Minimus32.Library.MixedRadix
import Minimus32.Fonts.CreateFont
import Minimus32.Ili9341.Glyph

namespace Minimus32.Fonts

open Display Ili9341 BitPacking

/-- The font that the C compiler makes of the table; its fields have one byte each. -/
def FontTable.compile (table : FontTable) (bits : Flash) : Bitfont where
  width := UInt8.ofNat table.width
  height := UInt8.ofNat table.height
  charSize := UInt8.ofNat table.charSize
  start := UInt8.ofNat table.start
  stop := UInt8.ofNat table.stop
  bits := bits

theorem FontTable.offset_compile (table : FontTable) (bits : Flash) {i : Nat} (size : table.charSize < 256)
    (last : table.start + i < 256) :
    (table.compile bits).offset (UInt8.ofNat (table.start + i)) = UInt16.ofNat (table.charSize * i) := by
  have start : table.start < 256 := by omega
  rw [Bitfont.offset, FontTable.compile]
  dsimp only
  rw [Register.toUInt16_ofNat size, Register.toUInt16_ofNat last, Register.toUInt16_ofNat start,
    Register.ofNat_sub (Nat.le_add_right _ i), Nat.add_sub_cancel_left, UInt16.ofNat_mul]

theorem bit_of_getElem {flash : Flash} {table : List Nat} (holds : flash.Holds (table.map UInt8.ofNat))
    {offset p value : Nat} (found : table[offset + p / 8]? = some value) :
    flash.bit (UInt16.ofNat offset) p = value.testBit (7 - p % 8) := by
  rw [Flash.bit, ← UInt16.ofNat_add, holds.of_getElem? found, Register.bit_ofNat value (by omega)]

/-- Unless they end with a byte of their own, the bits of the first glyph are followed by the second's, which begins
    with what is left of them. -/
theorem bit_second_glyph (rows : Nat → List Bool) {size n : Nat} (two : 2 ≤ n) (unaligned : size % 8 ≠ 0) :
    ∃ value, ((List.range n).flatMap (glyphBytes high rows size))[(size + 7) / 8]? = some value ∧
      value.testBit 7 = (rows 0).getD (8 * (size / 8)) false := by
  have found := bit_chunk (stream rows size) (1 * size / 8) ((1 + 1) * size) high_distinct (q := 8 * (size / 8))
    (by omega) (by omega)
  have first := stream_add rows 0 (show 8 * (size / 8) < size by omega)
  have length := length_glyphBytes high size 0 rows
  rw [show ((0 + 1) * size + 7) / 8 - 0 * size / 8 = (size + 7) / 8 by omega] at length
  rw [Nat.zero_mul, Nat.zero_add] at first
  rw [show 8 * (size / 8) / 8 - 1 * size / 8 = 0 by omega, show 8 * (size / 8) % 8 = 0 by omega, first] at found
  obtain ⟨value, listed, bit⟩ := found
  have begun : 0 < (glyphBytes high rows size 1).length := (List.getElem?_eq_some_iff.mp listed).1
  refine ⟨value, ?_, bit⟩
  obtain ⟨more, rfl⟩ := Nat.exists_eq_add_of_le two
  rw [show 2 + more = more + 1 + 1 by omega, List.range_succ_eq_map, List.flatMap_cons,
    List.getElem?_append_right (by omega), length, Nat.sub_self, List.range_succ_eq_map, List.map_cons,
    List.flatMap_cons, List.getElem?_append_left begun]
  exact listed

/-- `drawBitFontChar` sends the glyph of every character as it is in the picture, in the foreground's colour where
    the first component is zero. -/
def RoundTrips (config : Config) (p : Picture) : Prop :=
  ∃ table, createFont config p.tokens = some table ∧
    ∀ flash : Flash, flash.Holds (table.bits.map UInt8.ofNat) →
      ∀ i < config.glyphs, ∀ x y fgHigh fgLow bgHigh bgLow,
        payload (drawBitFontChar x y (UInt8.ofNat (config.start + i)) (table.compile flash) fgHigh fgLow bgHigh bgLow) =
          (RowMajor.cells config.width config.height).flatMap fun cell => colourBytes fgHigh fgLow bgHigh bgLow
            (decide ((p.pixel (i * config.width + cell.1) cell.2).1 = 0))

section

variable {config : Config} {p : Picture}

theorem glyphBits_tokens (width : p.width = config.width * config.glyphs) (height : p.height = config.height) {i : Nat}
    (member : i < config.glyphs) :
    glyphBits p.tokens config i = (RowMajor.cells config.width config.height).map fun cell =>
      decide ((p.pixel (i * config.width + cell.1) cell.2).1 = 0) := by
  rw [glyphBits, glyphPixels, List.map_map]
  apply List.map_congr_left
  intro cell inside
  obtain ⟨column, row⟩ := RowMajor.mem_cells.mp inside
  have right : i * config.width + cell.1 < p.width := by
    have below : config.width * (i + 1) ≤ config.width * config.glyphs := Nat.mul_le_mul_left _ member
    rw [Nat.mul_succ, Nat.mul_comm] at below
    omega
  have pixel := p.getPixel_tokens right (height ▸ row) (show 0 < 3 by decide)
  exact congrArg (fun component => decide (component = 0)) pixel

theorem flatMap_getD {α β : Type*} (f : α → List β) (l : List α) (default : α) :
    ((List.range l.length).flatMap fun p => f (l.getD p default)) = l.flatMap f := by
  have listed : (List.range l.length).map (fun p => l.getD p default) = l := by
    apply List.ext_getElem
    · simp
    · intro p inside within
      rw [List.getElem_map, List.getElem_range, List.getD_eq_getElem _ _ within]
  conv_rhs => rw [← listed, List.flatMap_map]

theorem roundTrips_of_aligned (width : p.width = config.width * config.glyphs) (height : p.height = config.height)
    (size : charSize config ≤ 255) (last : config.stop ≤ 255) (narrow : config.width ≤ 255)
    (low : config.height ≤ 255) (aligned : ∀ k < config.glyphs, k * (config.width * config.height) % 8 = 0) :
    RoundTrips config p := by
  refine ⟨_, createFont_eq config p, ?_⟩
  intro flash holds i member x y fgHigh fgLow bgHigh bgLow
  have character : config.start + i < 256 := by
    unfold Config.glyphs at member
    omega
  have bits : ∀ q ∈ List.range (config.width * config.height),
      flash.bit (UInt16.ofNat (charSize config * i)) q = (glyphBits p.tokens config i).getD q false := by
    intro q inside
    obtain ⟨value, found, bit⟩ :=
      bit_glyphs (glyphBits p.tokens config) high_distinct aligned member (List.mem_range.mp inside)
    rw [← charSize_eq] at found
    rw [bit_of_getElem holds found]
    exact bit
  rw [payload_drawBitFontChar, FontTable.offset_compile _ flash (show charSize config < 256 by omega) character]
  simp only [FontTable.compile, UInt8.toNat_ofNat_of_lt' (Nat.lt_succ_of_le narrow),
    UInt8.toNat_ofNat_of_lt' (Nat.lt_succ_of_le low)]
  rw [List.flatMap_congr fun q inside => congrArg _ (bits q inside), ← length_glyphBits p.tokens config i,
    flatMap_getD, glyphBits_tokens width height member, List.flatMap_map]

theorem exists_holds_glyphs (size : charSize config ≤ 255) (last : config.stop ≤ 255) :
    ∃ flash : Flash, flash.Holds (((List.range config.glyphs).flatMap
      (glyphBytes high (glyphBits p.tokens config) (config.width * config.height))).map UInt8.ofNat) := by
  apply Flash.exists_holds
  have short : ∀ i ∈ List.range config.glyphs,
      (glyphBytes high (glyphBits p.tokens config) (config.width * config.height) i).length ≤ 256 := by
    intro i _
    rw [charSize_eq] at size
    rw [length_glyphBytes, Nat.succ_mul]
    omega
  have total := RowMajor.length_flatMap_le short
  rw [List.length_range, Config.glyphs] at total
  rw [List.length_map, Config.glyphs]
  omega

theorem fits_of_roundTrips (wide : 1 ≤ config.width) (tall : 1 ≤ config.height) (size : charSize config ≤ 255)
    (ordered : config.start ≤ config.stop) (last : config.stop ≤ 255) (trips : RoundTrips config p) :
    config.width ≤ 255 ∧ config.height ≤ 255 := by
  obtain ⟨table, created, every⟩ := trips
  cases (createFont_eq config p).symm.trans created
  obtain ⟨flash, holds⟩ := exists_holds_glyphs (p := p) size last
  have member : 0 < config.glyphs := by
    unfold Config.glyphs
    omega
  have sent := congrArg List.length (every flash holds 0 member 0 0 0 0 0 0)
  rw [payload_drawBitFontChar, RowMajor.length_flatMap (fun _ _ => length_colourBytes _ _ _ _ _),
    RowMajor.length_flatMap (fun _ _ => length_colourBytes _ _ _ _ _), RowMajor.length_cells, List.length_range] at sent
  have product : config.width % 256 * (config.height % 256) = config.width * config.height := by
    have same : (UInt8.ofNat config.width).toNat * (UInt8.ofNat config.height).toNat =
      config.width * config.height := by exact Nat.eq_of_mul_eq_mul_left (by decide) sent
    rwa [UInt8.toNat_ofNat', UInt8.toNat_ofNat'] at same
  have small := MixedRadix.lt_of_mul_mod (Nat.mul_pos wide tall) product (by decide)
  omega

end

section

variable (config : Config)

/-- The first glyph is all ink, and the others are blank. -/
def inkThenBlank : Picture where
  width := config.width * config.glyphs
  height := config.height
  maxValue := 1
  pixel := fun x _ => if x < config.width then (0, 0, 0) else (1, 0, 0)

theorem getD_inkThenBlank (some : 0 < config.glyphs) {q : Nat} (inside : q < config.width * config.height) :
    (glyphBits (inkThenBlank config).tokens config 0).getD q false = true := by
  have within : q < ((RowMajor.cells config.width config.height).map fun cell =>
      decide (((inkThenBlank config).pixel (0 * config.width + cell.1) cell.2).1 = 0)).length := by
    rwa [List.length_map, RowMajor.length_cells]
  rw [glyphBits_tokens rfl rfl some, List.getD_eq_getElem _ _ within, List.getElem_map]
  have column := (RowMajor.mem_cells.mp (List.getElem_mem (l := RowMajor.cells config.width config.height) (by
    rwa [RowMajor.length_cells]))).1
  simp [inkThenBlank, column]

theorem head?_flatMap_range {n : Nat} (positive : 0 < n) (f : Nat → List UInt8) (some : f 0 ≠ []) :
    ((List.range n).flatMap f).head? = (f 0).head? := by
  obtain ⟨m, rfl⟩ := Nat.exists_eq_add_of_lt positive
  rw [Nat.zero_add, List.range_succ_eq_map, List.flatMap_cons, List.head?_append_of_ne_nil _ some]

theorem aligned_of_roundTrips (wide : 1 ≤ config.width) (tall : 1 ≤ config.height) (size : charSize config ≤ 255)
    (several : config.start < config.stop) (last : config.stop ≤ 255) (narrow : config.width ≤ 255)
    (low : config.height ≤ 255) (trips : RoundTrips config (inkThenBlank config)) :
    config.width * config.height % 8 = 0 := by
  by_contra unaligned
  have positive : 0 < config.width * config.height := Nat.mul_pos wide tall
  have two : 2 ≤ config.glyphs := by
    unfold Config.glyphs
    omega
  obtain ⟨table, created, every⟩ := trips
  cases (createFont_eq config _).symm.trans created
  obtain ⟨flash, holds⟩ := exists_holds_glyphs (p := inkThenBlank config) size last
  obtain ⟨value, found, bit⟩ := bit_second_glyph (glyphBits (inkThenBlank config).tokens config) two unaligned
  rw [getD_inkThenBlank config (by omega) (by omega)] at bit
  rw [← charSize_eq, ← Nat.mul_one (charSize config)] at found
  have leftover : flash.bit (UInt16.ofNat (charSize config * 1)) 0 = true := by
    rw [bit_of_getElem holds found]
    exact bit
  have sent := congrArg List.head? (every flash holds 1 (by omega) 0 0 1 1 0 0)
  rw [payload_drawBitFontChar, FontTable.offset_compile _ flash (show charSize config < 256 by omega)
    (show config.start + 1 < 256 by omega)] at sent
  simp only [FontTable.compile, UInt8.toNat_ofNat_of_lt' (Nat.lt_succ_of_le narrow),
    UInt8.toNat_ofNat_of_lt' (Nat.lt_succ_of_le low)] at sent
  have some (set : Bool) : colourBytes 1 1 0 0 set ≠ [] :=
    List.ne_nil_of_length_pos (by rw [length_colourBytes]; decide)
  rw [RowMajor.cells_eq wide, List.flatMap_map, head?_flatMap_range positive _ (some _),
    head?_flatMap_range positive _ (some _), leftover] at sent
  simp [colourBytes, inkThenBlank] at sent

end

/-- Every picture of a font is drawn as it is exactly when no byte of the table is shared by two glyphs, or there is
    only one, and the size of a glyph fits the font's fields. -/
theorem bitfont_round_trip_iff (config : Config) (wide : 1 ≤ config.width) (tall : 1 ≤ config.height)
    (size : charSize config ≤ 255) (ordered : config.start ≤ config.stop) (last : config.stop ≤ 255) :
    (∀ p : Picture, p.width = config.width * config.glyphs → p.height = config.height → RoundTrips config p) ↔
      (8 ∣ config.width * config.height ∨ config.start = config.stop) ∧ config.width ≤ 255 ∧ config.height ≤ 255 := by
  constructor
  · intro trips
    have trip := trips (inkThenBlank config) rfl rfl
    obtain ⟨narrow, low⟩ := fits_of_roundTrips wide tall size ordered last trip
    refine ⟨?_, narrow, low⟩
    rcases Nat.eq_or_lt_of_le ordered with single | several
    · exact .inr single
    · exact .inl (Nat.dvd_of_mod_eq_zero (aligned_of_roundTrips config wide tall size several last narrow low trip))
  · intro fits p width height
    rcases fits with ⟨alignment, narrow, low⟩
    apply roundTrips_of_aligned width height size last narrow low
    intro k member
    rcases alignment with aligned | single
    · exact Nat.mod_eq_zero_of_dvd (Nat.dvd_mul_left_of_dvd aligned k)
    · rw [Config.glyphs, single, Nat.add_sub_cancel_left] at member
      rw [Nat.lt_one_iff.mp member, Nat.zero_mul]

theorem bitfont_round_trip_six_by_eight :
    (∀ p : Picture, p.width = 6 * (Config.mk 6 8 32 126).glyphs → p.height = 8 → RoundTrips ⟨6, 8, 32, 126⟩ p) ↔
      (8 ∣ 6 * 8 ∨ 32 = 126) ∧ 6 ≤ 255 ∧ 8 ≤ 255 :=
  bitfont_round_trip_iff ⟨6, 8, 32, 126⟩ (by decide) (by decide) (by decide) (by decide) (by decide)

/-- Glyphs of nine pixels: the second one, which is blank, begins with the ink of the first. -/
theorem bitfont_shares_byte :
    createFont ⟨3, 3, 65, 66⟩ (inkThenBlank ⟨3, 3, 65, 66⟩).tokens = some ⟨3, 3, 2, 65, 66, [255, 128, 128, 0]⟩ ∧
      ¬ RoundTrips ⟨3, 3, 65, 66⟩ (inkThenBlank ⟨3, 3, 65, 66⟩) := by
  constructor
  · decide
  · intro trips
    exact absurd (aligned_of_roundTrips ⟨3, 3, 65, 66⟩ (by decide) (by decide) (by decide) (by decide) (by decide)
      (by decide) (by decide) trips) (by decide)

end Minimus32.Fonts
