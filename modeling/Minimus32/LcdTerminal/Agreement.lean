import Minimus32.Library.RowMajor
import Minimus32.LcdTerminal.Renderer

namespace Minimus32.LcdTerminal

open Display Ili9341

theorem drawLoop_succ {flash : Flash} {fg bg : UInt16} {fuel : Nat} {bitCount : UInt8} {r : Reader}
    {actions : List Action} (done : drawLoop flash fg bg fuel bitCount r = some actions) :
    drawLoop flash fg bg (fuel + 1) bitCount r = some actions := by
  induction fuel generalizing bitCount r actions with
  | zero => cases done
  | succ fuel ih =>
    rw [drawLoop] at done ⊢
    split at done
    · rename_i zero
      rw [if_pos zero]
      exact done
    · rename_i more
      dsimp only at done
      obtain ⟨rest, later, rfl⟩ := Option.map_eq_some_iff.mp done
      rw [if_neg more]
      dsimp only
      rw [ih later]
      rfl

theorem drawLoop_of_le {flash : Flash} {fg bg : UInt16} {fuel more : Nat} (enough : fuel ≤ more) {bitCount : UInt8}
    {r : Reader} {actions : List Action} (done : drawLoop flash fg bg fuel bitCount r = some actions) :
    drawLoop flash fg bg more bitCount r = some actions := by
  induction enough with
  | refl => exact done
  | step _ ih => exact drawLoop_succ ih

theorem drawLoop_unique {flash : Flash} {fg bg : UInt16} {fuel other : Nat} {bitCount : UInt8} {r : Reader}
    {actions again : List Action} (done : drawLoop flash fg bg fuel bitCount r = some actions)
    (doneAgain : drawLoop flash fg bg other bitCount r = some again) : actions = again := by
  have first := drawLoop_of_le (Nat.le_max_left fuel other) done
  have second := drawLoop_of_le (Nat.le_max_right fuel other) doneAgain
  exact Option.some.inj (first.symm.trans second)

theorem unpack12_flatMap {first second : Nat → UInt16} (smallFirst : ∀ j, (first j).toNat < 4096)
    (smallSecond : ∀ j, (second j).toNat < 4096) (places : List Nat) :
    unpack12 (places.flatMap fun j => pack12 (first j) (second j)) = places.flatMap fun j => [first j, second j] := by
  induction places with
  | nil => rfl
  | cons j places ih =>
    rw [List.flatMap_cons, unpack12_pack12 (smallFirst j) (smallSecond j), ih]
    rfl

theorem length_pixels (first second : Nat → UInt16) (n : Nat) :
    ((List.range n).flatMap fun j => pack12 (first j) (second j)).length = 3 * n := by
  have every : ∀ j ∈ List.range n, (pack12 (first j) (second j)).length = 3 := fun _ _ => rfl
  rw [RowMajor.length_flatMap every, List.length_range]

theorem range_pairs {α : Type*} (f : Nat → α) (p n : Nat) :
    ((List.range n).flatMap fun j => [f (p + 2 * j), f (p + 2 * j + 1)]) = (List.range' p (2 * n)).map f := by
  induction n with
  | zero => rfl
  | succ n ih =>
    rw [List.range_succ, List.flatMap_append, ih, Nat.mul_succ, ← List.range'_append_1, List.map_append]
    rfl

theorem words_flatMap (fg bg : UInt16) (bit : Nat → Bool) (places : List Nat) :
    words (places.flatMap fun p => colourBytes (fg >>> 8).toUInt8 (fg &&& 0xff).toUInt8 (bg >>> 8).toUInt8
      (bg &&& 0xff).toUInt8 (bit p)) = places.map fun p => colour fg bg (bit p) := by
  induction places with
  | nil => rfl
  | cons p places ih =>
    rw [List.flatMap_cons, List.map_cons, ← ih]
    cases bit p with
    | false => exact congrArg (· :: _) (Register.word_bytes bg)
    | true => exact congrArg (· :: _) (Register.word_bytes fg)

theorem colour_small {fg bg : UInt16} (smallFg : fg.toNat < 4096) (smallBg : bg.toNat < 4096) (set : Bool) :
    (colour fg bg set).toNat < 4096 := by
  cases set with
  | false => exact smallBg
  | true => exact smallFg

section

variable (x y character : UInt8) (font : Bitfont) (fg bg : UInt16)

/-- With an even count `drawChar` ends, whatever fuel above that it is given. -/
theorem drawChar_even {n : Nat} (count : (font.width * font.height).toNat = 2 * n) :
    ∃ loop, Rendered font.bits fg bg (font.offset character) 0 n loop ∧
      (∃ actions, drawChar (n + 1) x y character font fg bg = some actions) ∧
      ∀ fuel actions, drawChar fuel x y character font fg bg = some actions →
        actions = [.command caset, .data x, .data (x + font.width - 1), .command paset, .data y,
          .data (y + font.height - 1)] ++ .command ramwr :: .fetch (font.offset character) :: loop := by
  have ended : ∃ loop, drawLoop font.bits fg bg (n + 1) (font.width * font.height)
      (Reader.load font.bits (font.offset character)) = some loop ∧
      Rendered font.bits fg bg (font.offset character) 0 n loop := drawLoop_even n count (font.load_at character) rfl
  obtain ⟨loop, done, rendered⟩ := ended
  refine ⟨loop, rendered, ?_, ?_⟩
  · exact ⟨_, by rw [drawChar, done]; rfl⟩
  · intro fuel actions drawn
    obtain ⟨again, doneAgain, rfl⟩ := Option.map_eq_some_iff.mp drawn
    rw [drawLoop_unique doneAgain done]

/-- It has then sent as many pixels as its count of one byte says. -/
theorem payload_drawChar {n : Nat} (count : (font.width * font.height).toNat = 2 * n) :
    (∃ actions, drawChar (n + 1) x y character font fg bg = some actions) ∧
      ∀ fuel actions, drawChar fuel x y character font fg bg = some actions →
        payload actions = (List.range n).flatMap fun j =>
          pack12 (colour fg bg (font.bits.bit (font.offset character) (0 + 2 * j)))
            (colour fg bg (font.bits.bit (font.offset character) (0 + 2 * j + 1))) := by
  obtain ⟨loop, rendered, ends, only⟩ := drawChar_even x y character font fg bg count
  refine ⟨ends, ?_⟩
  intro fuel actions drawn
  rw [only fuel actions drawn, payload_command, List.filterMap_cons]
  · exact rendered.sent
  · intro a member
    rcases List.mem_cons.mp member with rfl | later
    · exact id
    · exact rendered.silent a later

/-- And it has read the bytes of those pixels and one more, which it has no use for, when they fill their last byte. -/
theorem fetched_drawChar {n : Nat} (count : (font.width * font.height).toNat = 2 * n) {fuel : Nat}
    {actions : List Action} (drawn : drawChar fuel x y character font fg bg = some actions) :
    actions.filterMap Action.fetched =
      (List.range (n / 4 + 1)).map fun b => font.offset character + UInt16.ofNat b := by
  obtain ⟨loop, rendered, _, only⟩ := drawChar_even x y character font fg bg count
  have fetched := rendered.fetched
  rw [only fuel actions drawn, List.range_eq_range', List.range'_succ, List.map_cons,
    show UInt16.ofNat 0 = 0 from rfl, UInt16.add_zero]
  rw [show (0 + 2 * n) / 8 - 0 / 8 = n / 4 by omega] at fetched
  exact congrArg (font.offset character :: ·) fetched

theorem drawChar_odd (fuel : Nat) (odd : (font.width * font.height).toNat % 2 = 1) :
    drawChar fuel x y character font fg bg = none := by
  rw [drawChar, drawLoop_odd fuel odd, Option.map_none]

end

/-- `drawChar` ends and sends, two pixels in three bytes, the pixels `drawBitFontChar` sends, exactly for glyphs
    of an even number of pixels below 256. -/
theorem renderers_agree_iff (font : Bitfont) (character x y otherX otherY : UInt8) (fg bg : UInt16)
    (smallFg : fg.toNat < 4096) (smallBg : bg.toNat < 4096) :
    (∃ fuel actions, drawChar fuel x y character font fg bg = some actions ∧
      2 * (payload actions).length = 3 * (font.width.toNat * font.height.toNat) ∧
      unpack12 (payload actions) = words (payload (drawBitFontChar otherX otherY character font (fg >>> 8).toUInt8
        (fg &&& 0xff).toUInt8 (bg >>> 8).toUInt8 (bg &&& 0xff).toUInt8))) ↔
      font.width.toNat * font.height.toNat % 2 = 0 ∧ font.width.toNat * font.height.toNat < 256 := by
  have counted : (font.width * font.height).toNat = font.width.toNat * font.height.toNat % 256 := UInt8.toNat_mul _ _
  rcases Nat.mod_two_eq_zero_or_one (font.width * font.height).toNat with even | odd
  · have half : (font.width * font.height).toNat = 2 * ((font.width * font.height).toNat / 2) := by omega
    obtain ⟨⟨actions, done⟩, sent⟩ := payload_drawChar x y character font fg bg half
    constructor
    · rintro ⟨fuel, others, drawn, length, _⟩
      rw [sent fuel others drawn, length_pixels] at length
      omega
    · rintro ⟨_, small⟩
      refine ⟨_, actions, done, ?_, ?_⟩
      · rw [sent _ actions done, length_pixels]
        omega
      · rw [sent _ actions done, unpack12_flatMap (fun _ => colour_small smallFg smallBg _)
          (fun _ => colour_small smallFg smallBg _), payload_drawBitFontChar, words_flatMap,
          range_pairs (fun p => colour fg bg (font.bits.bit (font.offset character) p)) 0, ← half, counted,
          Nat.mod_eq_of_lt small, List.range_eq_range']
  · constructor
    · rintro ⟨fuel, others, drawn, _⟩
      rw [drawChar_odd x y character font fg bg fuel odd] at drawn
      cases drawn
    · rintro ⟨even, small⟩
      omega

def blankFont (width height charSize : UInt8) : Bitfont := ⟨width, height, charSize, 32, 126, fun _ => 0⟩

theorem renderers_agree_six_by_eight :
    (0xfff : UInt16).toNat < 4096 ∧ (0 : UInt16).toNat < 4096 ∧
    ((∃ fuel actions, drawChar fuel 0 0 65 (blankFont 6 8 6) 0xfff 0 = some actions ∧
      2 * (payload actions).length = 3 * ((blankFont 6 8 6).width.toNat * (blankFont 6 8 6).height.toNat) ∧
      unpack12 (payload actions) = words (payload (drawBitFontChar 0 0 65 (blankFont 6 8 6)
        ((0xfff : UInt16) >>> 8).toUInt8 ((0xfff : UInt16) &&& 0xff).toUInt8 ((0 : UInt16) >>> 8).toUInt8
        ((0 : UInt16) &&& 0xff).toUInt8))) ↔
      (blankFont 6 8 6).width.toNat * (blankFont 6 8 6).height.toNat % 2 = 0 ∧
        (blankFont 6 8 6).width.toNat * (blankFont 6 8 6).height.toNat < 256) :=
  ⟨by decide, by decide, renderers_agree_iff (blankFont 6 8 6) 65 0 0 0 0 0xfff 0 (by decide) (by decide)⟩

/-- A glyph of one pixel is never finished, and of the 432 pixels of the larger font 176 are sent. -/
theorem drawChar_miscounts :
    (∀ fuel, drawChar fuel 0 0 65 (blankFont 1 1 1) 0xfff 0 = none) ∧
    ∃ actions, drawChar 89 0 0 65 (blankFont 18 24 54) 0xfff 0 = some actions ∧ (payload actions).length = 264 ∧
      (payload (drawBitFontChar 0 0 65 (blankFont 18 24 54) 0x0f 0xff 0 0)).length = 864 := by
  constructor
  · intro fuel
    exact drawChar_odd 0 0 65 (blankFont 1 1 1) 0xfff 0 fuel rfl
  · obtain ⟨⟨actions, done⟩, sent⟩ := payload_drawChar 0 0 65 (blankFont 18 24 54) 0xfff 0 (n := 88) rfl
    refine ⟨actions, done, ?_, ?_⟩
    · rw [sent _ actions done, length_pixels]
    · rw [payload_drawBitFontChar, RowMajor.length_flatMap (fun _ _ => length_colourBytes _ _ _ _ _), List.length_range]
      rfl

end Minimus32.LcdTerminal
