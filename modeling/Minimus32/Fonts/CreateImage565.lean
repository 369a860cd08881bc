import Minimus32.Fonts.Ppm
import Minimus32.Ili9341.Painting

namespace Minimus32.Fonts

open Display Ili9341

def outputRGB565 (r g b : Nat) : List Nat :=
  let r := r &&& 0xF8
  let g := g &&& 0xFC
  let b := b &&& 0xF8
  [r ||| (g >>> 5), (b >>> 3) ||| (g &&& 0xE0)]

/-- The numbers of the C file. -/
structure ImageTable where
  width : Nat
  height : Nat
  bytes : List Nat
deriving DecidableEq

def createImage565 (data : List Nat) : Option ImageTable :=
  (readPPM data).map fun data => ⟨getWidth data, getHeight data,
    (List.range (getHeight data)).flatMap fun y => (List.range (getWidth data)).flatMap fun x =>
      outputRGB565 (getPixel data x y 0 (getWidth data)) (getPixel data x y 1 (getWidth data))
        (getPixel data x y 2 (getWidth data))⟩

/-- The image that the C compiler makes of the table; its fields have two bytes each. -/
def ImageTable.compile (table : ImageTable) (bytes : Flash) : Image565 :=
  ⟨UInt16.ofNat table.width, UInt16.ofNat table.height, bytes⟩

/-- Five bits of red, six of green and five of blue. -/
def decode565 (colour : UInt16) : Nat × Nat × Nat :=
  (colour.toNat / 2048, colour.toNat / 32 % 64, colour.toNat % 32)

def Picture.EightBit (p : Picture) : Prop :=
  ∀ cell ∈ RowMajor.cells p.width p.height, (p.pixel cell.1 cell.2).1 < 256 ∧ (p.pixel cell.1 cell.2).2.1 < 256 ∧
    (p.pixel cell.1 cell.2).2.2 < 256

theorem createImage565_eq (p : Picture) :
    createImage565 p.tokens = some ⟨p.width, p.height, (RowMajor.cells p.width p.height).flatMap fun cell =>
      outputRGB565 (p.pixel cell.1 cell.2).1 (p.pixel cell.1 cell.2).2.1 (p.pixel cell.1 cell.2).2.2⟩ := by
  have nested : ((List.range p.height).flatMap fun y => (List.range p.width).flatMap fun x =>
      outputRGB565 (getPixel p.tokens x y 0 p.width) (getPixel p.tokens x y 1 p.width)
        (getPixel p.tokens x y 2 p.width)) = (RowMajor.cells p.width p.height).flatMap fun cell =>
      outputRGB565 (p.pixel cell.1 cell.2).1 (p.pixel cell.1 cell.2).2.1 (p.pixel cell.1 cell.2).2.2 := by
    rw [RowMajor.cells, List.flatMap_assoc]
    apply List.flatMap_congr
    intro y row
    rw [List.flatMap_map]
    apply List.flatMap_congr
    intro x column
    rw [p.getPixel_tokens (List.mem_range.mp column) (List.mem_range.mp row) (by decide),
      p.getPixel_tokens (List.mem_range.mp column) (List.mem_range.mp row) (by decide),
      p.getPixel_tokens (List.mem_range.mp column) (List.mem_range.mp row) (by decide)]
    rfl
  rw [createImage565, p.readPPM_tokens, Option.map_some, ← nested]
  rfl

theorem mask_red : ∀ r < 256, r &&& 0xF8 = (r / 8) <<< 3 := by decide +kernel

theorem mask_blue : ∀ b < 256, (b &&& 0xF8) >>> 3 = b / 8 := by decide +kernel

theorem mask_green : ∀ g < 256, (g &&& 0xFC) >>> 5 = g / 32 ∧ g &&& 0xFC &&& 0xE0 = (g / 32) <<< 5 := by
  decide +kernel

/-- The upper three bits of green go into the second byte where the lower three belong. -/
theorem outputRGB565_eq {r g b : Nat} (red : r < 256) (green : g < 256) (blue : b < 256) :
    outputRGB565 r g b = [r / 8 * 8 + g / 32, g / 32 * 32 + b / 8] := by
  obtain ⟨upper, lower⟩ := mask_green g green
  rw [outputRGB565, mask_red r red, mask_blue b blue, upper, lower, Nat.or_comm (b / 8),
    ← Nat.shiftLeft_add_eq_or_of_lt (by omega), ← Nat.shiftLeft_add_eq_or_of_lt (by omega), Nat.shiftLeft_eq,
    Nat.shiftLeft_eq]

theorem decode565_word {r g b : Nat} (red : r < 256) (green : g < 256) (blue : b < 256) :
    decode565 (Register.word (UInt8.ofNat (r / 8 * 8 + g / 32)) (UInt8.ofNat (g / 32 * 32 + b / 8))) =
      (r / 8, g / 32 * 9, b / 8) := by
  have value : (Register.word (UInt8.ofNat (r / 8 * 8 + g / 32)) (UInt8.ofNat (g / 32 * 32 + b / 8))).toNat =
      256 * (r / 8 * 8 + g / 32) + (g / 32 * 32 + b / 8) := by
    rw [Register.toNat_word, UInt8.toNat_ofNat', UInt8.toNat_ofNat']
    omega
  rw [decode565, value]
  congr 1
  · omega
  · congr 1
    · omega
    · omega

theorem words_pixelBytes (colours : List UInt16) : words (colours.flatMap pixelBytes) = colours := by
  induction colours with
  | nil => rfl
  | cons colour colours ih =>
    rw [List.flatMap_cons]
    exact congr_arg₂ List.cons (Register.word_bytes colour) ih

theorem words_drawImage565 (x y : UInt16) (image : Image565) :
    (payload (drawImage565 x y image)).length = 2 * (image.height.toNat * image.width.toNat) ∧
      words (payload (drawImage565 x y image)) =
        (List.range' 0 (image.height.toNat * image.width.toNat)).map image.colour := by
  have sends := sends_sendRows image image.width.toNat image.height.toNat 0
  have sent := payload_command (setXAddress x (x + image.width - 1) ++ setYAddress y (y + image.height - 1)) memoryWrite
    sends.silent
  constructor
  · have length := payload_of_sends sends
      (setXAddress x (x + image.width - 1) ++ setYAddress y (y + image.height - 1)) memoryWrite
    rwa [List.length_map, List.length_range'] at length
  · rw [sends.sent] at sent
    exact (congrArg words sent).trans (words_pixelBytes _)

theorem colour_of_holds {p : Picture} (bytes : p.EightBit) {flash : Flash} (wide : 0 < p.width)
    (holds : flash.Holds (((RowMajor.cells p.width p.height).flatMap fun cell =>
      outputRGB565 (p.pixel cell.1 cell.2).1 (p.pixel cell.1 cell.2).2.1 (p.pixel cell.1 cell.2).2.2).map UInt8.ofNat))
    {k : Nat} (inside : k < p.width * p.height) (width height : UInt16) :
    decode565 (Image565.colour ⟨width, height, flash⟩ k) =
      ((p.pixel (k % p.width) (k / p.width)).1 / 8, (p.pixel (k % p.width) (k / p.width)).2.1 / 32 * 9,
        (p.pixel (k % p.width) (k / p.width)).2.2 / 8) := by
  have cell : (RowMajor.cells p.width p.height)[k]? = some (k % p.width, k / p.width) := by
    rw [RowMajor.cells_eq wide, List.getElem?_map, List.getElem?_range inside, Option.map_some]
  obtain ⟨red, green, blue⟩ := bytes _ (List.mem_of_getElem? cell)
  have two : ∀ cell ∈ RowMajor.cells p.width p.height, (outputRGB565 (p.pixel cell.1 cell.2).1
      (p.pixel cell.1 cell.2).2.1 (p.pixel cell.1 cell.2).2.2).length = 2 := fun _ _ => rfl
  have held {j : Nat} (half : j < 2) {value : Nat} (listed : (outputRGB565 (p.pixel (k % p.width) (k / p.width)).1
      (p.pixel (k % p.width) (k / p.width)).2.1 (p.pixel (k % p.width) (k / p.width)).2.2)[j]? = some value) :
      flash (UInt16.ofNat (2 * k + j)) = UInt8.ofNat value := by
    have found := RowMajor.getElem?_flatMap two k half
    rw [cell, Option.bind_some, listed] at found
    exact holds.of_getElem? found
  rw [outputRGB565_eq red green blue] at held
  have first := held (j := 0) (by decide) rfl
  have second := held (j := 1) (by decide) rfl
  rw [Nat.add_zero] at first
  rw [Image565.colour]
  dsimp only
  rw [first, second]
  exact decode565_word red green blue

theorem decoded_drawImage565 {p : Picture} (bytes : p.EightBit) {flash : Flash}
    (holds : flash.Holds (((RowMajor.cells p.width p.height).flatMap fun cell =>
      outputRGB565 (p.pixel cell.1 cell.2).1 (p.pixel cell.1 cell.2).2.1 (p.pixel cell.1 cell.2).2.2).map UInt8.ofNat))
    {width height : UInt16} (product : height.toNat * width.toNat = p.width * p.height) (x y : UInt16) :
    (words (payload (drawImage565 x y ⟨width, height, flash⟩))).map decode565 =
      (RowMajor.cells p.width p.height).map fun cell => ((p.pixel cell.1 cell.2).1 / 8,
        (p.pixel cell.1 cell.2).2.1 / 32 * 9, (p.pixel cell.1 cell.2).2.2 / 8) := by
  have drawn := (words_drawImage565 x y ⟨width, height, flash⟩).2
  dsimp only at drawn
  rw [product, ← List.range_eq_range'] at drawn
  rw [drawn, List.map_map]
  rcases Nat.eq_zero_or_pos p.width with empty | wide
  · rw [empty, Nat.zero_mul, List.range_zero]
    simp [RowMajor.cells]
  · rw [RowMajor.cells_eq wide, List.map_map]
    apply List.map_congr_left
    intro k inside
    exact colour_of_holds bytes wide holds (List.mem_range.mp inside) width height

/-- Every pixel of a picture that lies in program memory comes back with its upper bits exactly when its counters
    fit their fields and every green repeats its upper three bits in the next three. -/
theorem image565_round_trip_iff (p : Picture) (bytes : p.EightBit) (x y : UInt16) (flash : Flash) :
    ∃ table, createImage565 p.tokens = some table ∧ (flash.Holds (table.bytes.map UInt8.ofNat) →
      ((payload (drawImage565 x y (table.compile flash))).length = 2 * (p.width * p.height) ∧
        (words (payload (drawImage565 x y (table.compile flash)))).map decode565 =
          (RowMajor.cells p.width p.height).map (fun cell => ((p.pixel cell.1 cell.2).1 >>> 3,
            (p.pixel cell.1 cell.2).2.1 >>> 2, (p.pixel cell.1 cell.2).2.2 >>> 3)) ↔
        (p.width * p.height = 0 ∨ p.width < 65536 ∧ p.height < 65536) ∧
          ∀ cell ∈ RowMajor.cells p.width p.height,
            (p.pixel cell.1 cell.2).2.1 / 32 = (p.pixel cell.1 cell.2).2.1 / 4 % 8)) := by
  refine ⟨_, createImage565_eq p, ?_⟩
  intro holds
  have counted : (UInt16.ofNat p.height).toNat * (UInt16.ofNat p.width).toNat =
      p.width % 65536 * (p.height % 65536) := by
    rw [UInt16.toNat_ofNat', UInt16.toNat_ofNat', Nat.mul_comm]
  have length := (words_drawImage565 x y ⟨UInt16.ofNat p.width, UInt16.ofNat p.height, flash⟩).1
  rw [ImageTable.compile, length, counted, Nat.mul_right_inj (show 2 ≠ 0 by decide),
    ← MixedRadix.mul_mod_eq_iff (show 0 < 65536 by decide)]
  apply and_congr_right
  intro same
  rw [decoded_drawImage565 bytes holds (counted.trans same), List.map_inj_left]
  apply forall₂_congr
  intro cell _
  have nested : (p.pixel cell.1 cell.2).2.1 / 4 / 8 = (p.pixel cell.1 cell.2).2.1 / 32 := Nat.div_div_eq_div_mul _ 4 8
  simp only [Prod.mk.injEq, Nat.shiftRight_eq_div_pow, true_and, and_true]
  omega

def onePixel (colour : Nat × Nat × Nat) : Picture := ⟨1, 1, 255, fun _ _ => colour⟩

theorem image565_round_trip_white :
    (onePixel (255, 255, 255)).EightBit ∧
    Flash.Holds (fun _ => 255) ([255, 255].map UInt8.ofNat) ∧
    ∃ table, createImage565 (onePixel (255, 255, 255)).tokens = some table ∧
      (Flash.Holds (fun _ => 255) (table.bytes.map UInt8.ofNat) →
      ((payload (drawImage565 0 0 (table.compile fun _ => 255))).length = 2 * (1 * 1) ∧
        (words (payload (drawImage565 0 0 (table.compile fun _ => 255)))).map decode565 =
          (RowMajor.cells 1 1).map (fun _ => (255 >>> 3, 255 >>> 2, 255 >>> 3)) ↔
        (1 * 1 = 0 ∨ 1 < 65536 ∧ 1 < 65536) ∧ ∀ cell ∈ RowMajor.cells 1 1, 255 / 32 = 255 / 4 % 8)) := by
  have small : 255 < 256 := by decide
  have bytes : (onePixel (255, 255, 255)).EightBit := fun _ _ => ⟨small, small, small⟩
  refine ⟨bytes, ?_, image565_round_trip_iff (onePixel (255, 255, 255)) bytes 0 0 fun _ => 255⟩
  intro j inside
  match j with
  | 0 => rfl
  | 1 => rfl

/-- A dark green that is sent as black. -/
theorem image565_loses_green :
    createImage565 (onePixel (0, 4, 0)).tokens = some ⟨1, 1, [0, 0]⟩ ∧
      (words (payload (drawImage565 0 0 ((ImageTable.mk 1 1 [0, 0]).compile fun _ => 0)))).map decode565 = [(0, 0, 0)] ∧
      4 >>> 2 = 1 := by
  decide

end Minimus32.Fonts
