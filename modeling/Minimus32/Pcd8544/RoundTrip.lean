import Minimus32.Pcd8544.Print

namespace Minimus32.Pcd8544

open Display Fonts Raster

/-- The font that the C compiler makes of the table; its fields have one byte each. -/
def compile (table : VerticalTable) (bytes : Flash) : VerticalByteFont where
  width := UInt8.ofNat table.width
  height := UInt8.ofNat table.height
  start := UInt8.ofNat table.start
  stop := UInt8.ofNat table.stop
  bytes := bytes

theorem address_compile (table : VerticalTable) (bytes : Flash) (narrow : table.width < 256) (low : table.height < 256)
    {data : UInt8} (first : table.start ≤ data.toNat) :
    (compile table bytes).address data = UInt16.ofNat (table.height * table.width * (data.toNat - table.start)) := by
  have bound := data.toNat_lt
  have value : data.toUInt16 = UInt16.ofNat data.toNat := by
    rw [← Register.toUInt16_ofNat bound, UInt8.ofNat_toNat]
  rw [VerticalByteFont.address, compile]
  dsimp only
  rw [value, Register.toUInt16_ofNat (show table.start < 256 by omega), Register.ofNat_sub first,
    Register.toUInt16_ofNat narrow, Register.toUInt16_ofNat low, Nat.mul_comm (table.height * table.width),
    Nat.mul_comm table.height, UInt16.ofNat_mul, UInt16.ofNat_mul]

theorem bit_of_holds {config : Config} {p : Picture} {flash : Flash}
    (holds : flash.Holds (((List.range config.glyphs).flatMap (glyphBytes id (verticalBits p.tokens config)
      (config.height * 8 * config.width))).map UInt8.ofNat))
    {g c r : Nat} (member : g < config.glyphs) (column : c < config.width) (row : r < 8 * config.height)
    (right : g * config.width + c < p.width) (bottom : r < p.height) :
    Register.bit (flash (UInt16.ofNat (config.height * config.width * g + (config.height * c + r / 8)))) (r % 8) =
      decide ((p.pixel (g * config.width + c) r).1 = 0) := by
  have inside : r % 8 < 8 := Nat.mod_lt r (by decide)
  obtain ⟨value, found, bit⟩ := bit_verticalTable member column (show r / 8 < config.height by omega) inside right
    (by rwa [Nat.div_add_mod])
  rw [holds.of_getElem? found, Register.bit_ofNat value inside, bit, Nat.div_add_mod]

theorem Board.Ready.print {b : Board} (ready : b.Ready) {rounds : List Bool}
    (free : b.spiBusLock = 0 ∧ rounds ≠ [] ∨ true ∈ rounds) {x yIndex : UInt8} {text : List UInt8} (rest : List UInt8)
    (nonzero : ∀ data ∈ text, data ≠ 0) (font : VerticalByteFont)
    (columns : x.toNat + font.width.toNat * text.length ≤ 84) (rows : yIndex.toNat + font.height.toNat ≤ 6) :
    ∃ after, b.print rounds x yIndex (text ++ 0 :: rest) font = some after ∧ after.Ready ∧ after.spiBusLock = 0 ∧
      Patched b.controller.ram after.controller.ram x.toNat (font.width.toNat * text.length) yIndex.toNat
        font.height.toNat fun k j => font.bytes (font.address (text.getD (k / font.width.toNat) 0) +
          UInt16.ofNat (font.height.toNat * (k % font.width.toNat) + j)) := by
  have active : Board.Active { b with spiBusLock := 1, selected := true } := ⟨rfl, ready.dataMode, ready.mode⟩
  obtain ⟨printed, done, activeAfter, patched⟩ := printString_patched font rest nonzero active columns rows
  rw [UInt8.ofNat_toNat, UInt8.ofNat_toNat] at done
  refine ⟨{ printed with selected := false, spiBusLock := Spi.releaseBus }, ?_, ?_, rfl, patched⟩
  · rw [Board.print, Spi.obtainBus_blocking free, Option.bind_some, done]
    rfl
  · exact ⟨rfl, activeAfter.dataMode, activeAfter.mode⟩

theorem Board.Ready.print_compile {b : Board} (ready : b.Ready) {rounds : List Bool}
    (free : b.spiBusLock = 0 ∧ rounds ≠ [] ∨ true ∈ rounds) {x yIndex : UInt8} {text : List UInt8} (rest : List UInt8)
    (table : VerticalTable) (flash : Flash) (characters : ∀ data ∈ text, data ≠ 0 ∧ table.start ≤ data.toNat)
    (columns : x.toNat + table.width * text.length ≤ 84) (rows : yIndex.toNat + table.height ≤ 6) :
    ∃ after, b.print rounds x yIndex (text ++ 0 :: rest) (compile table flash) = some after ∧ after.Ready ∧
      after.spiBusLock = 0 ∧
      (∀ i c j, i < text.length → c < table.width → j < table.height →
        after.controller.ram (x.toNat + i * table.width + c) (yIndex.toNat + j) =
          flash (UInt16.ofNat (table.height * table.width * ((text.getD i 0).toNat - table.start) +
            (table.height * c + j)))) ∧
      ∀ column row, ¬ (x.toNat ≤ column ∧ column < x.toNat + table.width * text.length ∧ yIndex.toNat ≤ row ∧
        row < yIndex.toNat + table.height) → after.controller.ram column row = b.controller.ram column row := by
  have low : (compile table flash).height.toNat = table.height :=
    UInt8.toNat_ofNat_of_lt' (show table.height < 256 by omega)
  have narrower : (compile table flash).width.toNat * text.length ≤ table.width * text.length := by
    apply Nat.mul_le_mul_right
    exact UInt8.toNat_ofNat'.trans_le (Nat.mod_le _ _)
  have right : x.toNat + (compile table flash).width.toNat * text.length ≤ 84 := by omega
  have bottom : yIndex.toNat + (compile table flash).height.toNat ≤ 6 := by omega
  obtain ⟨after, done, readyAfter, lock, patched⟩ := ready.print free rest
    (fun data member => (characters data member).1) (compile table flash) right bottom
  refine ⟨after, done, readyAfter, lock, ?_, ?_⟩
  · intro i c j member column row
    have listed : text.getD i 0 ∈ text := by
      rw [List.getD_eq_getElem _ _ member]
      exact List.getElem_mem member
    have inside : table.width * (i + 1) ≤ table.width * text.length := Nat.mul_le_mul_left _ member
    rw [Nat.mul_succ] at inside
    have wide : 0 < table.width := by omega
    have narrow : (compile table flash).width.toNat = table.width :=
      UInt8.toNat_ofNat_of_lt' (show table.width < 256 by omega)
    rw [Nat.add_assoc, patched, narrow, low, if_pos]
    · dsimp only
      rw [Nat.add_sub_cancel_left, Nat.add_sub_cancel_left, Nat.mul_comm i, Nat.mul_add_div wide,
        Nat.div_eq_of_lt column, Nat.add_zero, Nat.mul_add_mod, Nat.mod_eq_of_lt column,
        address_compile table flash (by omega) (by omega) (characters _ listed).2, ← UInt16.ofNat_add]
      rfl
    · rw [Nat.mul_comm i]
      omega
  · intro column row outside
    rw [patched, if_neg]
    omega

/-- From any mode of the display `pcd8544_init` selects vertical addressing; and with that `pcd8544_print` sets exactly
    the pixels that the picture has in its characters, leaves every other byte of the memory as it was, and releases
    the bus. -/
theorem vertical_font_round_trip (config : Config) (p : Picture) (b : Board) (ready : b.Ready) (rounds : List Bool)
    (free : b.spiBusLock = 0 ∧ rounds ≠ [] ∨ true ∈ rounds) (x yIndex : UInt8) (text rest : List UInt8)
    (characters : ∀ data ∈ text, data ≠ 0 ∧ config.start ≤ data.toNat ∧ data.toNat ≤ config.stop)
    (columns : x.toNat + config.width * text.length ≤ 84) (rows : yIndex.toNat + config.height ≤ 6) :
    (∀ (before : Board) (waited : List Bool) (contrast : UInt8),
      before.spiBusLock = 0 ∧ waited ≠ [] ∨ true ∈ waited →
      ∃ started, before.init waited contrast = some started ∧ started.Ready ∧ started.spiBusLock = 0) ∧
    ∃ table, createVerticalByteFont config p.tokens = some table ∧
      ∀ flash : Flash, flash.Holds (table.bits.map UInt8.ofNat) →
        ∃ after, b.print rounds x yIndex (text ++ 0 :: rest) (compile table flash) = some after ∧ after.Ready ∧
          after.spiBusLock = 0 ∧
          (∀ i c r, i < text.length → c < config.width → r < 8 * config.height →
            ((text.getD i 0).toNat - config.start) * config.width + c < p.width → r < p.height →
            Register.bit (after.controller.ram (x.toNat + i * config.width + c) (yIndex.toNat + r / 8)) (r % 8) =
              decide ((p.pixel (((text.getD i 0).toNat - config.start) * config.width + c) r).1 = 0)) ∧
          ∀ column row, ¬ (x.toNat ≤ column ∧ column < x.toNat + config.width * text.length ∧ yIndex.toNat ≤ row ∧
            row < yIndex.toNat + config.height) → after.controller.ram column row = b.controller.ram column row := by
  refine ⟨fun before _ contrast => before.init_ready contrast, _, createVerticalByteFont_eq config p, ?_⟩
  intro flash holds
  obtain ⟨after, done, readyAfter, lock, pixels, outside⟩ := ready.print_compile free rest
    ⟨config.width, config.height, config.start, config.stop, _⟩ flash
    (fun data member => ⟨(characters data member).1, (characters data member).2.1⟩) columns rows
  refine ⟨after, done, readyAfter, lock, ?_, outside⟩
  intro i c r member column row right bottom
  obtain ⟨_, first, last⟩ := characters (text.getD i 0) (by
    rw [List.getD_eq_getElem _ _ member]
    exact List.getElem_mem member)
  have glyph : (text.getD i 0).toNat - config.start < config.glyphs := by
    unfold Config.glyphs
    omega
  rw [pixels i c (r / 8) member column (by dsimp only; omega)]
  exact bit_of_holds holds glyph column row right bottom

/-- Two glyphs of one column: the first is all ink, the second blank. -/
def stripe : Picture := ⟨2, 8, 1, fun x _ => (x, 0, 0)⟩

def blankBoard : Board := ⟨0, false, false, ⟨fun _ _ => 0, 0, 0, false, true, false⟩⟩

theorem vertical_font_round_trip_stripe :
    createVerticalByteFont ⟨1, 1, 65, 66⟩ stripe.tokens = some ⟨1, 1, 65, 66, [255, 0]⟩ ∧
    ∃ table, createVerticalByteFont ⟨1, 1, 65, 66⟩ stripe.tokens = some table ∧
      ∀ flash : Flash, flash.Holds (table.bits.map UInt8.ofNat) →
        ∃ after, blankBoard.print [false] 3 2 [66, 65, 0] (compile table flash) = some after ∧
          after.spiBusLock = 0 ∧ (∀ r < 8, Register.bit (after.controller.ram 4 2) r = true) ∧
          after.controller.ram 5 2 = 0 := by
  obtain ⟨_, table, created, every⟩ := vertical_font_round_trip ⟨1, 1, 65, 66⟩ stripe blankBoard ⟨rfl, rfl, rfl, rfl⟩
    [false] (.inl ⟨rfl, by decide⟩) 3 2 [66, 65] [] (by decide +kernel) (by decide) (by decide)
  refine ⟨by decide, table, created, ?_⟩
  intro flash holds
  obtain ⟨after, done, _, lock, pixels, outside⟩ := every flash holds
  refine ⟨after, done, lock, ?_, outside 5 2 (by decide)⟩
  intro r inside
  have pixel := pixels 1 0 r (by decide) (by decide) inside (by decide) inside
  rwa [Nat.div_eq_of_lt inside, Nat.mod_eq_of_lt inside] at pixel

end Minimus32.Pcd8544
