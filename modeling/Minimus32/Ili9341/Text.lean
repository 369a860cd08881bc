import Mathlib.Data.List.TakeWhile
import Minimus32.Ili9341.Glyph
import Minimus32.Ili9341.Painting

namespace Minimus32.Ili9341

open Display Raster

/-- `string` is the memory from the string's first character on. -/
def drawBitFontString (x y : UInt8) (string : List UInt8) (font : Bitfont) (fg bg : UInt16) : List Action :=
  match string with
  | [] => []
  | character :: string =>
    if character ≠ 0 then
      drawBitFontChar x y character font (fg >>> 8).toUInt8 (fg &&& 0xff).toUInt8 (bg >>> 8).toUInt8
        (bg &&& 0xff).toUInt8 ++ drawBitFontString (x + font.width) y string font fg bg
    else []

/-- The loop of `drawBitFontCenteredString`: what is left of the width. -/
def remainingWidth (fontWidth : UInt8) : UInt16 → List UInt8 → UInt16
  | width, [] => width
  | width, character :: buffer =>
    if character ≠ 0 then remainingWidth fontWidth (width - fontWidth.toUInt16) buffer else width

def drawBitFontCenteredString (x : UInt8) (width : UInt16) (y : UInt8) (string : List UInt8) (font : Bitfont)
    (fg bg : UInt16) : List Action :=
  drawBitFontString (x.toUInt16 + remainingWidth font.width width string / 2).toUInt8 y string font fg bg

/-- What one command to write to the memory draws: the window it goes through and the bytes. -/
structure Drawing where
  window : Window
  bytes : List UInt8
deriving DecidableEq

instance : DecidablePred Action.Commands
  | .command _ => .isTrue trivial
  | .data _ | .fetch _ => .isFalse id

def dataRun (actions : List Action) : List UInt8 := (actions.takeWhile (¬ ·.Commands)).filterMap Action.sent

def Panel.draws (p : Panel) : List Action → List Drawing
  | [] => []
  | a :: actions =>
    if a = .command memoryWrite then ⟨p.canvas.window, dataRun actions⟩ :: (p.receive a).draws actions
    else (p.receive a).draws actions

/-- The actions begin with a command, if there are any. -/
def Fresh (actions : List Action) : Prop := ∀ a ∈ actions.head?, a.Commands

theorem dataRun_append {body rest : List Action} (fresh : Fresh rest) : dataRun (body ++ rest) = dataRun body := by
  unfold dataRun
  induction body with
  | nil =>
    cases rest with
    | nil => rfl
    | cons a rest =>
      have commands : a.Commands := fresh a rfl
      rw [List.nil_append, List.takeWhile_cons_of_neg (by simpa using commands), List.takeWhile_nil]
  | cons a body ih =>
    by_cases commands : a.Commands
    · rw [List.cons_append, List.takeWhile_cons_of_neg (by simpa using commands),
        List.takeWhile_cons_of_neg (by simpa using commands)]
    · rw [List.cons_append, List.takeWhile_cons_of_pos (by simpa using commands),
        List.takeWhile_cons_of_pos (by simpa using commands), List.filterMap_cons, List.filterMap_cons, ih]

theorem dataRun_silent {body : List Action} (silent : ∀ a ∈ body, ¬ a.Commands) :
    dataRun body = body.filterMap Action.sent := by
  rw [dataRun, List.takeWhile_eq_self_iff.mpr (by simpa using silent)]

namespace Panel

variable (p : Panel)

theorem draws_append (first : List Action) {second : List Action} (fresh : Fresh second) :
    p.draws (first ++ second) = p.draws first ++ (p.receiveAll first).draws second := by
  induction first generalizing p with
  | nil => rfl
  | cons a first ih =>
    rw [List.cons_append, Panel.draws, Panel.draws, ih, dataRun_append fresh]
    split
    · rfl
    · rfl

theorem draws_behind {before : List Action} (other : ∀ a ∈ before, a ≠ .command memoryWrite) (rest : List Action) :
    p.draws (before ++ rest) = (p.receiveAll before).draws rest := by
  induction before generalizing p with
  | nil => rfl
  | cons a before ih =>
    rw [List.cons_append, Panel.draws, if_neg (other a (by simp)), ih _ fun b member => other b (by simp [member])]
    rfl

theorem draws_silent {body : List Action} (silent : ∀ a ∈ body, ¬ a.Commands) : p.draws body = [] := by
  have other : ∀ a ∈ body, a ≠ .command memoryWrite := by
    rintro a member rfl
    exact silent _ member trivial
  have whole := p.draws_behind other []
  rwa [List.append_nil] at whole

theorem draws_write {body : List Action} (silent : ∀ a ∈ body, ¬ a.Commands) :
    p.draws (.command memoryWrite :: body) = [⟨p.canvas.window, body.filterMap Action.sent⟩] := by
  rw [Panel.draws, if_pos rfl, draws_silent _ silent, dataRun_silent silent]

theorem draws_aimed {left right top bottom : UInt16} {body : List Action} (silent : ∀ a ∈ body, ¬ a.Commands) :
    p.draws (setXAddress left right ++ setYAddress top bottom ++ .command memoryWrite :: body) =
      [⟨⟨left.toNat, right.toNat, top.toNat, bottom.toNat⟩, body.filterMap Action.sent⟩] := by
  have other : ∀ a ∈ setXAddress left right ++ setYAddress top bottom, a ≠ .command memoryWrite := by
    simp [setXAddress, setYAddress, setAddress, columnAddressSet, pageAddressSet, memoryWrite]
  obtain ⟨columns, first⟩ := receiveAll_setXAddress p left right
  obtain ⟨pages, second⟩ :=
    receiveAll_setYAddress ⟨(p.setColumns left right).canvas, columnAddressSet, columns⟩ top bottom
  rw [p.draws_behind other, receiveAll_append, first, second, draws_write _ silent]
  rfl

theorem draws_aimed_pages_first {left right top bottom : UInt16} {body : List Action}
    (silent : ∀ a ∈ body, ¬ a.Commands) :
    p.draws (setYAddress top bottom ++ setXAddress left right ++ .command memoryWrite :: body) =
      [⟨⟨left.toNat, right.toNat, top.toNat, bottom.toNat⟩, body.filterMap Action.sent⟩] := by
  have other : ∀ a ∈ setYAddress top bottom ++ setXAddress left right, a ≠ .command memoryWrite := by
    simp [setXAddress, setYAddress, setAddress, columnAddressSet, pageAddressSet, memoryWrite]
  obtain ⟨pages, first⟩ := receiveAll_setYAddress p top bottom
  obtain ⟨columns, second⟩ :=
    receiveAll_setXAddress ⟨(p.setPages top bottom).canvas, pageAddressSet, pages⟩ left right
  rw [p.draws_behind other, receiveAll_append, first, second, draws_write _ silent]
  rfl

end Panel

/-- The pixels of a character, in its colours. -/
def glyphBytes (font : Bitfont) (fg bg : UInt16) (character : UInt8) : List UInt8 :=
  (List.range (font.width.toNat * font.height.toNat)).flatMap fun p =>
    if font.bits.bit (font.offset character) p then pixelBytes fg else pixelBytes bg

/-- The window of a glyph; its far edges are one less than the next glyph's near ones, in sixteen bits. -/
def glyphWindow (font : Bitfont) (left top : Nat) : Window :=
  ⟨left, (UInt16.ofNat (left + font.width.toNat) - 1).toNat, top, (UInt16.ofNat (top + font.height.toNat) - 1).toNat⟩

/-- The glyphs of a string, the one of index `i` at `place i`. -/
def glyphs (font : Bitfont) (fg bg : UInt16) (place : Nat → Nat) (top : Nat) (text : List UInt8) : List Drawing :=
  text.mapIdx fun i character => ⟨glyphWindow font (place i) top, glyphBytes font fg bg character⟩

theorem toUInt16_eq (x : UInt8) : x.toUInt16 = UInt16.ofNat x.toNat := by
  have bound := x.toNat_lt
  rw [← UInt16.toNat_inj, UInt8.toNat_toUInt16, UInt16.toNat_ofNat', Nat.mod_eq_of_lt (by omega)]

theorem toUInt16_add (x width : UInt8) : x.toUInt16 + width.toUInt16 = UInt16.ofNat (x.toNat + width.toNat) := by
  rw [toUInt16_eq, toUInt16_eq, UInt16.ofNat_add]

theorem draws_drawBitFontChar (p : Panel) (x y character : UInt8) (font : Bitfont) (fg bg : UInt16) :
    p.draws (drawBitFontChar x y character font (fg >>> 8).toUInt8 (fg &&& 0xff).toUInt8 (bg >>> 8).toUInt8
      (bg &&& 0xff).toUInt8) = [⟨glyphWindow font x.toNat y.toNat, glyphBytes font fg bg character⟩] := by
  have silent : ∀ a ∈ Action.fetch (font.offset character) :: glyphLoop font.bits (fg >>> 8).toUInt8
      (fg &&& 0xff).toUInt8 (bg >>> 8).toUInt8 (bg &&& 0xff).toUInt8 (font.width.toUInt16 * font.height.toUInt16).toNat
      (Reader.load font.bits (font.offset character)), ¬ a.Commands := by
    intro a member
    rcases List.mem_cons.mp member with rfl | later
    · exact id
    · exact glyphLoop_silent _ _ _ _ _ _ _ a later
  have sent := sent_glyphLoop font.bits (fg >>> 8).toUInt8 (fg &&& 0xff).toUInt8 (bg >>> 8).toUInt8
    (bg &&& 0xff).toUInt8 _ (font.width.toNat * font.height.toNat) (font.load_at character)
  rw [← List.range_eq_range'] at sent
  rw [drawBitFontChar, p.draws_aimed silent, List.filterMap_cons, toNat_area, sent, toUInt16_add, toUInt16_add,
    UInt8.toNat_toUInt16, UInt8.toNat_toUInt16]
  rfl

theorem fresh_drawBitFontString (x y : UInt8) (string : List UInt8) (font : Bitfont) (fg bg : UInt16) :
    Fresh (drawBitFontString x y string font fg bg) := by
  intro a first
  cases string with
  | nil => cases first
  | cons character string =>
    rw [drawBitFontString] at first
    split at first
    · cases first
      trivial
    · cases first

/-- Every glyph is drawn where the eight bit coordinate has come to. -/
theorem draws_drawBitFontString (p : Panel) (x y : UInt8) {text : List UInt8} (plain : 0 ∉ text) (stale : List UInt8)
    (font : Bitfont) (fg bg : UInt16) :
    p.draws (drawBitFontString x y (text ++ 0 :: stale) font fg bg) =
      glyphs font fg bg (fun i => (x.toNat + i * font.width.toNat) % 256) y.toNat text := by
  induction text generalizing p x with
  | nil => rfl
  | cons character text ih =>
    obtain ⟨other, later⟩ := not_or.mp (List.mem_cons.not.mp plain)
    rw [List.cons_append, drawBitFontString, if_pos (Ne.symm other),
      p.draws_append _ (fresh_drawBitFontString _ _ _ _ _ _), draws_drawBitFontChar, ih _ _ later, glyphs, glyphs,
      List.mapIdx_cons, Nat.zero_mul, Nat.add_zero, Nat.mod_eq_of_lt x.toNat_lt, List.singleton_append]
    congr 2
    funext i c
    rw [UInt8.toNat_add, Nat.add_mod, Nat.mod_mod, ← Nat.add_mod, Nat.succ_mul, Nat.add_assoc,
      Nat.add_comm font.width.toNat]

theorem glyphs_eq_iff (font : Bitfont) (fg bg : UInt16) (place other : Nat → Nat) (top row : Nat) (text : List UInt8) :
    glyphs font fg bg place top text = glyphs font fg bg other row text ↔
      ∀ i < text.length, place i = other i ∧ top = row := by
  rw [glyphs, glyphs, List.mapIdx_eq_mapIdx_iff]
  refine forall_congr' fun i => forall_congr' fun _ => ⟨fun same => ⟨?_, ?_⟩, fun same => by rw [same.1, same.2]⟩
  · exact congrArg (fun drawing => drawing.window.left) same
  · exact congrArg (fun drawing => drawing.window.top) same

theorem places_eq_iff (x width length : Nat) :
    (∀ i < length, (x + i * width) % 256 = x + i * width) ↔ length = 0 ∨ x + (length - 1) * width ≤ 255 := by
  constructor
  · intro same
    by_cases some : length = 0
    · exact .inl some
    · have last := same (length - 1) (by omega)
      rw [← last]
      exact .inr (Nat.le_of_lt_succ (Nat.mod_lt _ (by decide)))
  · intro right i inside
    have last := right.resolve_left (by omega)
    have before : i * width ≤ (length - 1) * width := Nat.mul_le_mul_right _ (by omega)
    exact Nat.mod_eq_of_lt (by omega)

theorem remainingWidth_eq (fontWidth : UInt8) {text : List UInt8} (plain : 0 ∉ text) (stale : List UInt8) {width : Nat}
    (room : text.length * fontWidth.toNat ≤ width) :
    remainingWidth fontWidth (UInt16.ofNat width) (text ++ 0 :: stale) =
      UInt16.ofNat (width - text.length * fontWidth.toNat) := by
  induction text generalizing width with
  | nil =>
    rw [List.length_nil, Nat.zero_mul, Nat.sub_zero]
    rfl
  | cons character text ih =>
    obtain ⟨other, later⟩ := not_or.mp (List.mem_cons.not.mp plain)
    rw [List.length_cons, Nat.succ_mul] at room ⊢
    have narrower : UInt16.ofNat width - fontWidth.toUInt16 = UInt16.ofNat (width - fontWidth.toNat) := by
      rw [UInt16.ofNat_sub (by omega), toUInt16_eq]
    rw [List.cons_append, remainingWidth, if_pos (Ne.symm other), narrower, ih later (by omega)]
    congr 1
    omega

theorem toNat_centre {x rest : Nat} (small : rest < 65536) :
    ((UInt8.ofNat x).toUInt16 + UInt16.ofNat rest / 2).toUInt8.toNat = (x + rest / 2) % 256 := by
  rw [UInt16.toNat_toUInt8, UInt16.toNat_add, UInt8.toNat_toUInt16, UInt8.toNat_ofNat', UInt16.toNat_div,
    UInt16.toNat_ofNat', Nat.mod_eq_of_lt small]
  change (x % 256 + rest / 2) % 65536 % 256 = _
  omega

/-- A text of this size lies in the region, with margins that differ by at most one. -/
def Centred (left size x width : Nat) : Prop :=
  x ≤ left ∧ left + size ≤ x + width ∧ left - x ≤ x + width - (left + size) + 1 ∧
    x + width - (left + size) ≤ left - x + 1

theorem centred_half {size x width : Nat} (room : size ≤ width) : Centred (x + (width - size) / 2) size x width := by
  unfold Centred
  omega

theorem Centred.eq_half {size x width : Nat} (centred : Centred ((x + (width - size) / 2) % 256) size x width) :
    (x + (width - size) / 2) % 256 = x + (width - size) / 2 := by
  obtain ⟨inside, right, -, margins⟩ := centred
  omega

section

variable (p : Panel) (font : Bitfont) (fg bg : UInt16) {text : List UInt8} (plain : 0 ∉ text) (stale : List UInt8)
include plain

theorem drawBitFontString_iff (x : Nat) {y : Nat} (low : y < 256) :
    p.draws (drawBitFontString (UInt8.ofNat x) (UInt8.ofNat y) (text ++ 0 :: stale) font fg bg) =
      glyphs font fg bg (fun i => x + i * font.width.toNat) y text ↔
    text = [] ∨ x + (text.length - 1) * font.width.toNat ≤ 255 := by
  rw [draws_drawBitFontString _ _ _ plain, UInt8.toNat_ofNat', UInt8.toNat_ofNat', Nat.mod_eq_of_lt low, glyphs_eq_iff,
    ← List.length_eq_zero_iff, ← places_eq_iff]
  simp only [Nat.mod_add_mod, and_true]

theorem drawBitFontCenteredString_iff {x width y : Nat} (room : text.length * font.width.toNat ≤ width)
    (small : width < 65536) (low : y < 256) :
    (∃ left, p.draws (drawBitFontCenteredString (UInt8.ofNat x) (UInt16.ofNat width) (UInt8.ofNat y)
        (text ++ 0 :: stale) font fg bg) = glyphs font fg bg (fun i => left + i * font.width.toNat) y text ∧
      Centred left (text.length * font.width.toNat) x width) ↔
    text = [] ∨ x + (width - text.length * font.width.toNat) / 2 + (text.length - 1) * font.width.toNat ≤ 255 := by
  have margin := toNat_centre (x := x) (show width - text.length * font.width.toNat < 65536 by omega)
  rw [drawBitFontCenteredString, remainingWidth_eq _ plain _ room, draws_drawBitFontString _ _ _ plain, margin,
    UInt8.toNat_ofNat', Nat.mod_eq_of_lt low, ← List.length_eq_zero_iff, ← places_eq_iff]
  simp only [glyphs_eq_iff, Nat.mod_add_mod, and_true]
  constructor
  · rintro ⟨left, places, centred⟩ i inside
    have first := places 0 (by omega)
    rw [Nat.zero_mul, Nat.add_zero, Nat.add_zero] at first
    rw [← first] at centred
    rw [places i inside, ← first, centred.eq_half]
  · intro places
    exact ⟨_, places, centred_half room⟩

end

theorem drawBitFont_layout_iff (p : Panel) (font : Bitfont) (fg bg : UInt16) {text : List UInt8} (plain : 0 ∉ text)
    (stale : List UInt8) :
    (∀ x y, x + text.length * font.width.toNat ≤ 320 → y + font.height.toNat ≤ 240 →
      (p.draws (drawBitFontString (UInt8.ofNat x) (UInt8.ofNat y) (text ++ 0 :: stale) font fg bg) =
          glyphs font fg bg (fun i => x + i * font.width.toNat) y text ↔
        text = [] ∨ x + (text.length - 1) * font.width.toNat ≤ 255)) ∧
    ∀ x width y, text.length * font.width.toNat ≤ width → x + width ≤ 320 → y + font.height.toNat ≤ 240 →
      ((∃ left, p.draws (drawBitFontCenteredString (UInt8.ofNat x) (UInt16.ofNat width) (UInt8.ofNat y)
          (text ++ 0 :: stale) font fg bg) = glyphs font fg bg (fun i => left + i * font.width.toNat) y text ∧
          Centred left (text.length * font.width.toNat) x width) ↔
        text = [] ∨ x + (width - text.length * font.width.toNat) / 2 + (text.length - 1) * font.width.toNat ≤ 255) := by
  constructor
  · intro x y _ low
    exact drawBitFontString_iff p font fg bg plain stale x (by omega)
  · intro x width y room inside low
    exact drawBitFontCenteredString_iff p font fg bg plain stale room (by omega) (by omega)

def squares : Bitfont := ⟨8, 8, 8, 0, 255, fun _ => 0⟩

theorem drawBitFont_layout_letters :
    blackPanel.draws (drawBitFontString 100 20 [65, 66, 0] squares 0xffff 0) =
      glyphs squares 0xffff 0 (fun i => 100 + i * 8) 20 [65, 66] := by
  have plain : (0 : UInt8) ∉ [65, 66] := by decide
  exact ((drawBitFont_layout_iff blackPanel squares 0xffff 0 plain []).1 100 20 (by decide) (by decide)).mpr
    (.inr (by decide))

theorem drawBitFontString_wraps :
    (blackPanel.draws (drawBitFontString (UInt8.ofNat 250) 20 [65, 66, 0] squares 0 0)).map (·.window.left) = [250, 2] ∧
      (blackPanel.draws (drawBitFontCenteredString (UInt8.ofNat 300) 20 20 [65, 0] squares 0 0)).map (·.window.left) =
        [50] := by
  decide

end Minimus32.Ili9341
