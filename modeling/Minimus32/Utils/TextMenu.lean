import Minimus32.Ili9341.Text

namespace Minimus32.TextMenu

open Display Raster Ili9341

/-- `ili9341_TextMenu`; an item is the memory its text starts in, or none for a null pointer. -/
structure Menu where
  font : Bitfont
  bgColour : UInt16
  menuColour : UInt16
  fontColour : UInt16
  padding : UInt8
  items : List (Option (List UInt8))
  selectedElement : UInt8
  elementCount : UInt8
  widestElement : UInt8

/-- The inner loop of `textMenuInit`. -/
def countWidth : UInt8 → List UInt8 → UInt8
  | width, [] => width
  | width, character :: string => if character ≠ 0 then countWidth (width + 1) string else width

/-- The outer loop of `textMenuInit`. -/
def countItems : Menu → List (Option (List UInt8)) → Menu
  | menu, [] | menu, none :: _ => menu
  | menu, some string :: items =>
    let width := countWidth 0 string
    let menu := if width > menu.widestElement then { menu with widestElement := width } else menu
    countItems { menu with elementCount := menu.elementCount + 1 } items

def textMenuInit (menu : Menu) : Menu :=
  countItems { menu with selectedElement := 0, elementCount := 0, widestElement := 0 } menu.items

/-- The loop of `textMenuDraw`. -/
def drawItems (menu : Menu) (x : UInt16) : UInt16 → List (Option (List UInt8)) → List Action
  | _, [] | _, none :: _ => []
  | y, some string :: items =>
    drawBitFontString x.toUInt8 y.toUInt8 string menu.font menu.fontColour menu.menuColour ++
      drawItems menu x (y + menu.font.height.toUInt16) items

def textMenuDraw (menu : Menu) (screenWidth screenHeight : UInt16) : List Action :=
  let totHeight := menu.padding.toUInt16 * 2 + menu.font.height.toUInt16 * menu.elementCount.toUInt16
  let totWidth := menu.padding.toUInt16 * 2 + menu.font.width.toUInt16 * menu.widestElement.toUInt16
  let x := menu.padding.toUInt16 + screenWidth / 2 - totWidth / 2
  let y := menu.padding.toUInt16 + screenHeight / 2 - totHeight / 2
  drawFilledRectangle menu.bgColour 0 319 0 239 ++
    (drawFilledRectangle menu.menuColour (screenWidth / 2 - totWidth / 2) (screenWidth / 2 - totWidth / 2 + totWidth)
      (screenHeight / 2 - totHeight / 2) (screenHeight / 2 - totHeight / 2 + totHeight) ++
    drawItems menu x y menu.items)

/-- An item's text. -/
structure Item where
  text : List UInt8
  plain : 0 ∉ text
  short : text.length < 256

/-- The null terminated list of the items. -/
def listing (items : List Item) (rest : List (Option (List UInt8))) : List (Option (List UInt8)) :=
  items.map (fun item => some (item.text ++ [0])) ++ none :: rest

def longest (items : List Item) : Nat := items.foldl (fun width item => max width item.text.length) 0

theorem countWidth_eq (width : UInt8) {text : List UInt8} (plain : 0 ∉ text) :
    countWidth width (text ++ [0]) = width + UInt8.ofNat text.length := by
  induction text generalizing width with
  | nil => exact (UInt8.add_zero width).symm
  | cons character text ih =>
    obtain ⟨other, later⟩ := not_or.mp (List.mem_cons.not.mp plain)
    rw [List.cons_append, countWidth, if_pos (Ne.symm other), ih _ later, List.length_cons, Nat.add_comm,
      UInt8.ofNat_add, UInt8.add_assoc]
    rfl

theorem Item.toNat_width (item : Item) : (countWidth 0 (item.text ++ [0])).toNat = item.text.length := by
  rw [countWidth_eq 0 item.plain, UInt8.zero_add, UInt8.toNat_ofNat', Nat.mod_eq_of_lt item.short]

theorem widen_eq (menu : Menu) (item : Item) :
    (if countWidth 0 (item.text ++ [0]) > menu.widestElement then
      { menu with widestElement := countWidth 0 (item.text ++ [0]) } else menu) =
      { menu with widestElement := UInt8.ofNat (max menu.widestElement.toNat item.text.length) } := by
  have width := item.toNat_width
  by_cases wider : countWidth 0 (item.text ++ [0]) > menu.widestElement
  · have less := UInt8.lt_iff_toNat_lt.mp wider
    rw [if_pos wider, Nat.max_eq_right (by omega), ← width, UInt8.ofNat_toNat]
  · have less := UInt8.le_iff_toNat_le.mp (UInt8.not_lt.mp wider)
    rw [if_neg wider, Nat.max_eq_left (by omega), UInt8.ofNat_toNat]

theorem countItems_eq (menu : Menu) (items : List Item) (rest : List (Option (List UInt8))) :
    countItems menu (listing items rest) =
      { menu with
        elementCount := menu.elementCount + UInt8.ofNat items.length
        widestElement := UInt8.ofNat (items.foldl (fun width item => max width item.text.length)
          menu.widestElement.toNat) } := by
  induction items generalizing menu with
  | nil =>
    rw [List.length_nil, List.foldl_nil, UInt8.ofNat_toNat, show UInt8.ofNat 0 = 0 from rfl, UInt8.add_zero]
    rfl
  | cons item items ih =>
    have wide : max menu.widestElement.toNat item.text.length < 256 :=
      Nat.max_lt.mpr ⟨menu.widestElement.toNat_lt, item.short⟩
    have step : countItems menu (listing (item :: items) rest) =
        countItems { menu with
          elementCount := menu.elementCount + 1
          widestElement := UInt8.ofNat (max menu.widestElement.toNat item.text.length) } (listing items rest) := by
      rw [listing, List.map_cons, List.cons_append, countItems, widen_eq]
      rfl
    rw [step, ih, List.length_cons, List.foldl_cons, UInt8.toNat_ofNat', Nat.mod_eq_of_lt wide, Nat.add_comm,
      UInt8.ofNat_add, UInt8.add_assoc]
    rfl

theorem longest_lt (items : List Item) : longest items < 256 := by
  have bounded : ∀ width, width < 256 → items.foldl (fun width item => max width item.text.length) width < 256 := by
    induction items with
    | nil => exact fun _ small => small
    | cons item items ih => exact fun width small => ih _ (Nat.max_lt.mpr ⟨small, item.short⟩)
  exact bounded 0 (by decide)

theorem le_widened (items : List Item) (width : Nat) :
    width ≤ items.foldl (fun width item => max width item.text.length) width := by
  induction items generalizing width with
  | nil => exact Nat.le_refl width
  | cons item items ih => exact (Nat.le_max_left width item.text.length).trans (ih _)

theorem length_le_longest {items : List Item} {item : Item} (member : item ∈ items) :
    item.text.length ≤ longest items := by
  have widened : ∀ width, item.text.length ≤ items.foldl (fun width item => max width item.text.length) width := by
    induction items with
    | nil => cases member
    | cons first items ih =>
      intro width
      rcases List.mem_cons.mp member with rfl | later
      · exact (Nat.le_max_right width item.text.length).trans (le_widened items _)
      · exact ih later _
  exact widened 0

/-- What `drawFilledRectangle` draws. -/
def rectangle (colour startX endX startY endY : UInt16) : Drawing :=
  ⟨⟨startX.toNat, endX.toNat, startY.toNat, endY.toNat⟩,
    (List.replicate ((endX - startX + 1).toNat * (endY - startY + 1).toNat) colour).flatMap pixelBytes⟩

theorem draws_drawFilledRectangle (p : Panel) (colour startX endX startY endY : UInt16) :
    p.draws (drawFilledRectangle colour startX endX startY endY) = [rectangle colour startX endX startY endY] := by
  have sends := sends_fillRows colour (endY - startY + 1) (endX - startX + 1).toNat
  rw [drawFilledRectangle, fillNTimesM, p.draws_aimed_pages_first sends.silent, sends.sent]
  rfl

theorem fresh_append {first second : List Action} (front : Fresh first) (back : Fresh second) :
    Fresh (first ++ second) := by
  cases first with
  | nil => exact back
  | cons a first => exact front

theorem fresh_drawItems (menu : Menu) (x y : UInt16) (items : List Item) (rest : List (Option (List UInt8))) :
    Fresh (drawItems menu x y (listing items rest)) := by
  induction items generalizing y with
  | nil => exact fun _ none => by cases none
  | cons item items ih => exact fresh_append (fresh_drawBitFontString _ _ _ _ _ _) (ih _)

/-- The texts of the items, each with its first glyph at its place and the others beside it. -/
def texts (menu : Menu) (column : Nat → Nat → Nat) (row : Nat → Nat) (items : List Item) : List Drawing :=
  (items.mapIdx fun k item => glyphs menu.font menu.fontColour menu.menuColour (column k) (row k) item.text).flatten

theorem draws_drawItems (p : Panel) (menu : Menu) (x : UInt16) (y : Nat) (items : List Item)
    (rest : List (Option (List UInt8))) :
    p.draws (drawItems menu x (UInt16.ofNat y) (listing items rest)) =
      texts menu (fun _ i => (x.toNat + i * menu.font.width.toNat) % 256)
        (fun k => (y + k * menu.font.height.toNat) % 256) items := by
  induction items generalizing p y with
  | nil => rfl
  | cons item items ih =>
    have first : (UInt16.ofNat y).toUInt8.toNat = y % 256 := by
      rw [UInt16.toNat_toUInt8, UInt16.toNat_ofNat']
      omega
    have down : UInt16.ofNat y + menu.font.height.toUInt16 = UInt16.ofNat (y + menu.font.height.toNat) := by
      rw [toUInt16_eq, UInt16.ofNat_add]
    have step : drawItems menu x (UInt16.ofNat y) (listing (item :: items) rest) =
        drawBitFontString x.toUInt8 (UInt16.ofNat y).toUInt8 (item.text ++ [0]) menu.font menu.fontColour
          menu.menuColour ++ drawItems menu x (UInt16.ofNat (y + menu.font.height.toNat)) (listing items rest) := by
      rw [← down]
      rfl
    rw [step, p.draws_append _ (fresh_drawItems _ _ _ _ _), draws_drawBitFontString _ _ _ item.plain [], ih, texts,
      texts, List.mapIdx_cons, List.flatten_cons, first, Nat.zero_mul, Nat.add_zero, UInt16.toNat_toUInt8]
    congr 3
    · funext i
      rw [Nat.mod_add_mod]
    · funext k c
      rw [Nat.succ_mul, Nat.add_assoc, Nat.add_comm menu.font.height.toNat]

section

variable (menu : Menu) (items : List Item)

def totWidth : Nat := 2 * menu.padding.toNat + menu.font.width.toNat * longest items

def totHeight : Nat := 2 * menu.padding.toNat + menu.font.height.toNat * items.length

end

/-- Where something of this size begins when it is centred on the screen. -/
def origin (screen total : Nat) : Nat := screen / 2 - total / 2

theorem total_eq (padding size count : UInt8) :
    padding.toUInt16 * 2 + size.toUInt16 * count.toUInt16 =
      UInt16.ofNat (2 * padding.toNat + size.toNat * count.toNat) := by
  rw [toUInt16_eq, toUInt16_eq, toUInt16_eq, UInt16.ofNat_add, UInt16.ofNat_mul, UInt16.ofNat_mul,
    UInt16.mul_comm (UInt16.ofNat 2)]
  rfl

theorem origin_eq {screen : UInt16} {total : Nat} (fits : total ≤ screen.toNat) :
    screen / 2 - UInt16.ofNat total / 2 = UInt16.ofNat (origin screen.toNat total) := by
  have bound := screen.toNat_lt
  have half : (screen / 2).toNat = screen.toNat / 2 := UInt16.toNat_div screen 2
  have size : (UInt16.ofNat total / 2).toNat = total / 2 := by
    rw [UInt16.toNat_div, UInt16.toNat_ofNat', Nat.mod_eq_of_lt (by omega)]
    rfl
  have less : UInt16.ofNat total / 2 ≤ screen / 2 := by
    rw [UInt16.le_iff_toNat_le, half, size]
    omega
  rw [← UInt16.toNat_inj, UInt16.toNat_sub_of_le _ _ less, half, size, UInt16.toNat_ofNat', origin,
    Nat.mod_eq_of_lt (by omega)]

theorem padded_eq (padding : UInt8) {screen : UInt16} {total : Nat} (fits : total ≤ screen.toNat) :
    padding.toUInt16 + screen / 2 - UInt16.ofNat total / 2 =
      UInt16.ofNat (padding.toNat + origin screen.toNat total) := by
  rw [UInt16.sub_eq_add_neg, UInt16.add_assoc, ← UInt16.sub_eq_add_neg, origin_eq fits, toUInt16_eq, UInt16.ofNat_add]

section

variable {menu : Menu} {items : List Item} {rest : List (Option (List UInt8))} {screenWidth screenHeight : UInt16}

theorem textMenuInit_eq (listed : menu.items = listing items rest) :
    textMenuInit menu = { menu with
      selectedElement := 0
      elementCount := UInt8.ofNat items.length
      widestElement := UInt8.ofNat (longest items) } := by
  rw [textMenuInit, listed, countItems_eq, UInt8.zero_add]
  rw [← listed]
  rfl

theorem draws_textMenuDraw (p : Panel) (listed : menu.items = listing items rest) (few : items.length < 256)
    (wide : totWidth menu items ≤ screenWidth.toNat) (high : totHeight menu items ≤ screenHeight.toNat) :
    p.draws (textMenuDraw (textMenuInit menu) screenWidth screenHeight) =
      rectangle menu.bgColour 0 319 0 239 ::
      rectangle menu.menuColour (UInt16.ofNat (origin screenWidth.toNat (totWidth menu items)))
        (UInt16.ofNat (origin screenWidth.toNat (totWidth menu items) + totWidth menu items))
        (UInt16.ofNat (origin screenHeight.toNat (totHeight menu items)))
        (UInt16.ofNat (origin screenHeight.toNat (totHeight menu items) + totHeight menu items)) ::
      texts menu (fun _ i => (menu.padding.toNat + origin screenWidth.toNat (totWidth menu items) +
          i * menu.font.width.toNat) % 256)
        (fun k => (menu.padding.toNat + origin screenHeight.toNat (totHeight menu items) +
          k * menu.font.height.toNat) % 256) items := by
  have width : menu.padding.toUInt16 * 2 + menu.font.width.toUInt16 * (UInt8.ofNat (longest items)).toUInt16 =
      UInt16.ofNat (totWidth menu items) := by
    rw [total_eq, UInt8.toNat_ofNat', Nat.mod_eq_of_lt (longest_lt items)]
    rfl
  have height : menu.padding.toUInt16 * 2 + menu.font.height.toUInt16 * (UInt8.ofNat items.length).toUInt16 =
      UInt16.ofNat (totHeight menu items) := by
    rw [total_eq, UInt8.toNat_ofNat', Nat.mod_eq_of_lt few]
    rfl
  have small : menu.padding.toNat + origin screenWidth.toNat (totWidth menu items) < 65536 := by
    have padding := menu.padding.toNat_lt
    have bound := screenWidth.toNat_lt
    unfold origin
    omega
  rw [textMenuInit_eq listed, textMenuDraw]
  dsimp only
  rw [width, height, origin_eq wide, origin_eq high, padded_eq _ wide, padded_eq _ high, ← UInt16.ofNat_add,
    ← UInt16.ofNat_add, listed]
  have items_fresh := fun menu x y => fresh_drawItems menu x y items rest
  rw [p.draws_append _ (fresh_append (fun _ first => by cases first; trivial) (items_fresh _ _ _)),
    Panel.draws_append _ _ (items_fresh _ _ _), draws_drawFilledRectangle, draws_drawFilledRectangle, draws_drawItems,
    UInt16.toNat_ofNat', Nat.mod_eq_of_lt small]
  rfl

end

/-- A pixel of an item's text when that has been drawn at a place. -/
def Item.Covers (item : Item) (font : Bitfont) (place : Nat × Nat) (x y : Nat) : Prop :=
  place.1 ≤ x ∧ x < place.1 + item.text.length * font.width.toNat ∧ place.2 ≤ y ∧ y < place.2 + font.height.toNat

/-- The menu's rectangle is on the screen, and the texts are in it, apart from its edges and from each other. -/
structure LaidOut (menu : Menu) (items : List Item) (screenWidth screenHeight : Nat) (rect : Window)
    (place : Nat → Nat × Nat) : Prop where
  right : rect.right < screenWidth
  bottom : rect.bottom < screenHeight
  columns : ∀ k item, items[k]? = some item → rect.left + menu.padding.toNat ≤ (place k).1 ∧
    (place k).1 + item.text.length * menu.font.width.toNat + menu.padding.toNat ≤ rect.right + 1
  rows : ∀ k item, items[k]? = some item → rect.top + menu.padding.toNat ≤ (place k).2 ∧
    (place k).2 + menu.font.height.toNat + menu.padding.toNat ≤ rect.bottom + 1
  apart : ∀ (j k : Nat) (first second : Item), j ≠ k → items[j]? = some first → items[k]? = some second →
    ∀ x y, ¬ (first.Covers menu.font (place j) x y ∧ second.Covers menu.font (place k) x y)

/-- The drawings of a menu that is laid out. -/
def Shows (menu : Menu) (items : List Item) (screenWidth screenHeight : Nat) (drawn : List Drawing) : Prop :=
  ∃ (left right top bottom : UInt16) (place : Nat → Nat × Nat),
    drawn = rectangle menu.bgColour 0 319 0 239 :: rectangle menu.menuColour left right top bottom ::
      texts menu (fun k i => (place k).1 + i * menu.font.width.toNat) (fun k => (place k).2) items ∧
    LaidOut menu items screenWidth screenHeight ⟨left.toNat, right.toNat, top.toNat, bottom.toNat⟩ place

/-- The rectangle's far edges are on the screen, and no coordinate of a glyph has more than eight bits. -/
structure Fits (menu : Menu) (items : List Item) (screenWidth screenHeight : Nat) : Prop where
  width : (totWidth menu items + 1) / 2 < (screenWidth + 1) / 2
  height : (totHeight menu items + 1) / 2 < (screenHeight + 1) / 2
  narrow : ∀ k item, items[k]? = some item → item.text ≠ [] →
    menu.padding.toNat + origin screenWidth (totWidth menu items) +
      (item.text.length - 1) * menu.font.width.toNat ≤ 255 ∧
    menu.padding.toNat + origin screenHeight (totHeight menu items) + k * menu.font.height.toNat ≤ 255

theorem texts_congr {menu : Menu} {column other : Nat → Nat → Nat} {row below : Nat → Nat} {items : List Item}
    (same : ∀ k item, items[k]? = some item → ∀ i < item.text.length, column k i = other k i ∧ row k = below k) :
    texts menu column row items = texts menu other below items := by
  rw [texts, texts]
  congr 1
  apply List.mapIdx_eq_mapIdx_iff.mpr
  intro k inside
  exact (glyphs_eq_iff _ _ _ _ _ _ _ _).mpr (same k _ (List.getElem?_eq_getElem inside))

theorem flatten_mapIdx_inj {α β : Type*} {items : List α} {f g : Nat → α → List β}
    (lengths : ∀ k item, (f k item).length = (g k item).length)
    (same : (items.mapIdx f).flatten = (items.mapIdx g).flatten) :
    ∀ k item, items[k]? = some item → f k item = g k item := by
  induction items generalizing f g with
  | nil => simp
  | cons first items ih =>
    rw [List.mapIdx_cons, List.mapIdx_cons, List.flatten_cons, List.flatten_cons] at same
    obtain ⟨front, back⟩ := List.append_inj same (lengths 0 first)
    intro k item found
    cases k with
    | zero =>
      cases found
      exact front
    | succ k => exact ih (fun k => lengths (k + 1)) back k item found

theorem places_of_texts_eq {menu : Menu} {column other : Nat → Nat → Nat} {row below : Nat → Nat} {items : List Item}
    (same : texts menu column row items = texts menu other below items) :
    ∀ k item, items[k]? = some item → ∀ i < item.text.length, column k i = other k i ∧ row k = below k := by
  intro k item found
  have lengths : ∀ k (item : Item),
      (glyphs menu.font menu.fontColour menu.menuColour (column k) (row k) item.text).length =
        (glyphs menu.font menu.fontColour menu.menuColour (other k) (below k) item.text).length := by
    intro k item
    rw [glyphs, glyphs, List.length_mapIdx, List.length_mapIdx]
  exact (glyphs_eq_iff _ _ _ _ _ _ _ _).mp (flatten_mapIdx_inj lengths same k item found)

/-- Rows that go on below each other do not come back to the top without meeting an earlier one. -/
theorem rows_do_not_wrap {start height count : Nat} {row : Nat → Nat} (small : height < 256)
    (wrapped : ∀ k < count, row k = (start + k * height) % 256) (inside : ∀ k < count, start ≤ row k)
    (apart : ∀ j < count, ∀ k < count, j ≠ k →
      ∀ y, ¬ ((row j ≤ y ∧ y < row j + height) ∧ row k ≤ y ∧ y < row k + height)) :
    ∀ k < count, start + k * height ≤ 255 := by
  intro k
  induction k using Nat.strong_induction_on with
  | _ k ih =>
    intro within
    have place := wrapped k within
    have low := inside k within
    by_contra beyond
    cases k with
    | zero => omega
    | succ k =>
      have before := ih k (Nat.lt_succ_self k) (by omega)
      rw [Nat.succ_mul] at place beyond
      have back : row (k + 1) = start + k * height + height - 256 := by omega
      have positive : 0 < height := by omega
      -- The row it comes back to belongs to an item that is further up.
      have up : (row (k + 1) - start) / height < k + 1 := by
        apply (Nat.div_lt_iff_lt_mul positive).mpr
        rw [Nat.succ_mul]
        omega
      have earlier := ih _ up (by omega)
      have its := wrapped _ (up.trans within)
      rw [Nat.mod_eq_of_lt (by omega)] at its
      have share := Nat.div_add_mod (row (k + 1) - start) height
      have part := Nat.mod_lt (row (k + 1) - start) positive
      rw [Nat.mul_comm] at share
      exact apart _ (up.trans within) _ within up.ne (row (k + 1)) ⟨by omega, by omega⟩

theorem far_edge_lt_iff {screen total : Nat} (fits : total ≤ screen) :
    origin screen total + total < screen ↔ (total + 1) / 2 < (screen + 1) / 2 := by
  unfold origin
  omega

theorem toNat_edges {screen : UInt16} {total : Nat} (fits : total ≤ screen.toNat) :
    (UInt16.ofNat (origin screen.toNat total)).toNat = origin screen.toNat total ∧
      (UInt16.ofNat (origin screen.toNat total + total)).toNat = origin screen.toNat total + total := by
  have bound := screen.toNat_lt
  rw [UInt16.toNat_ofNat', UInt16.toNat_ofNat']
  unfold origin
  exact ⟨Nat.mod_eq_of_lt (by omega), Nat.mod_eq_of_lt (by omega)⟩

section

variable {menu : Menu} {items : List Item} {screenWidth screenHeight : Nat}

/-- The items one below the other in the middle of the screen. -/
def middle (menu : Menu) (items : List Item) (screenWidth screenHeight k : Nat) : Nat × Nat :=
  (menu.padding.toNat + origin screenWidth (totWidth menu items),
    menu.padding.toNat + origin screenHeight (totHeight menu items) + k * menu.font.height.toNat)

theorem laidOut_middle (fits : Fits menu items screenWidth screenHeight) (wide : totWidth menu items ≤ screenWidth)
    (high : totHeight menu items ≤ screenHeight) :
    LaidOut menu items screenWidth screenHeight
      ⟨origin screenWidth (totWidth menu items), origin screenWidth (totWidth menu items) + totWidth menu items,
        origin screenHeight (totHeight menu items), origin screenHeight (totHeight menu items) + totHeight menu items⟩
      (middle menu items screenWidth screenHeight) where
  right := (far_edge_lt_iff wide).mpr fits.width
  bottom := (far_edge_lt_iff high).mpr fits.height
  columns := by
    intro k item found
    have text : item.text.length * menu.font.width.toNat ≤ menu.font.width.toNat * longest items := by
      rw [Nat.mul_comm]
      exact Nat.mul_le_mul_left _ (length_le_longest (List.mem_of_getElem? found))
    simp only [middle, totWidth]
    omega
  rows := by
    intro k item found
    have inside : k < items.length := (List.getElem?_eq_some_iff.mp found).1
    have text : k * menu.font.height.toNat + menu.font.height.toNat ≤ menu.font.height.toNat * items.length := by
      rw [← Nat.succ_mul, Nat.mul_comm]
      exact Nat.mul_le_mul_left _ inside
    simp only [middle, totHeight]
    omega
  apart := by
    rintro j k first second different - - x y ⟨⟨-, -, above, below⟩, -, -, upper, under⟩
    simp only [middle] at above below upper under
    rcases Nat.lt_or_gt_of_ne different with less | more
    · have rows : (j + 1) * menu.font.height.toNat ≤ k * menu.font.height.toNat := Nat.mul_le_mul_right _ less
      rw [Nat.succ_mul] at rows
      omega
    · have rows : (k + 1) * menu.font.height.toNat ≤ j * menu.font.height.toNat := Nat.mul_le_mul_right _ more
      rw [Nat.succ_mul] at rows
      omega

theorem texts_of_fits (fits : Fits menu items screenWidth screenHeight) :
    texts menu
        (fun _ i => (menu.padding.toNat + origin screenWidth (totWidth menu items) + i * menu.font.width.toNat) % 256)
        (fun k => (menu.padding.toNat + origin screenHeight (totHeight menu items) + k * menu.font.height.toNat) % 256)
        items =
      texts menu (fun k i => (middle menu items screenWidth screenHeight k).1 + i * menu.font.width.toNat)
        (fun k => (middle menu items screenWidth screenHeight k).2) items := by
  apply texts_congr
  intro k item found i inside
  have some : item.text ≠ [] := List.ne_nil_of_length_pos (by omega)
  obtain ⟨last, row⟩ := fits.narrow k item found some
  have before : i * menu.font.width.toNat ≤ (item.text.length - 1) * menu.font.width.toNat :=
    Nat.mul_le_mul_right _ (by omega)
  exact ⟨Nat.mod_eq_of_lt (by omega), Nat.mod_eq_of_lt (by omega)⟩

/-- A menu that is drawn where the eight bit coordinates come to is laid out only if they do not wrap. -/
theorem Fits.of_laidOut {place : Nat → Nat × Nat} (wide : totWidth menu items ≤ screenWidth)
    (high : totHeight menu items ≤ screenHeight) (broad : 0 < menu.font.width.toNat)
    (filled : ∀ item ∈ items, item.text ≠ [])
    (laid : LaidOut menu items screenWidth screenHeight
      ⟨origin screenWidth (totWidth menu items), origin screenWidth (totWidth menu items) + totWidth menu items,
        origin screenHeight (totHeight menu items), origin screenHeight (totHeight menu items) + totHeight menu items⟩
      place)
    (drawn : ∀ k item, items[k]? = some item → ∀ i < item.text.length,
      (menu.padding.toNat + origin screenWidth (totWidth menu items) + i * menu.font.width.toNat) % 256 =
        (place k).1 + i * menu.font.width.toNat ∧
      (menu.padding.toNat + origin screenHeight (totHeight menu items) + k * menu.font.height.toNat) % 256 =
        (place k).2) :
    Fits menu items screenWidth screenHeight := by
  have first : ∀ k item, items[k]? = some item → 0 < item.text.length ∧
      (place k).1 = menu.padding.toNat + origin screenWidth (totWidth menu items) := by
    intro k item found
    have some := List.length_pos_iff.mpr (filled item (List.mem_of_getElem? found))
    have glyph := (drawn k item found 0 some).1
    have column := (laid.columns k item found).1
    rw [Nat.zero_mul, Nat.add_zero, Nat.add_zero] at glyph
    exact ⟨some, by dsimp only at column; omega⟩
  have shown : ∀ k (item : Item) y, items[k]? = some item →
      (place k).2 ≤ y ∧ y < (place k).2 + menu.font.height.toNat → item.Covers menu.font (place k) (place k).1 y := by
    intro k item y found covered
    have width := Nat.mul_pos (first k item found).1 broad
    exact ⟨Nat.le_refl _, by omega, covered⟩
  have rows : ∀ k < items.length, menu.padding.toNat + origin screenHeight (totHeight menu items) +
      k * menu.font.height.toNat ≤ 255 := by
    apply rows_do_not_wrap menu.font.height.toNat_lt
    · intro k inside
      have found := List.getElem?_eq_getElem inside
      exact ((drawn k _ found 0 (first k _ found).1).2).symm
    · intro k inside
      rw [Nat.add_comm]
      exact (laid.rows k _ (List.getElem?_eq_getElem inside)).1
    · intro j before k inside different y both
      have earlier := List.getElem?_eq_getElem before
      have found := List.getElem?_eq_getElem inside
      have covered := shown j _ y earlier both.1
      rw [(first j _ earlier).2, ← (first k _ found).2] at covered
      exact laid.apart j k _ _ different earlier found _ y ⟨covered, shown k _ y found both.2⟩
  refine ⟨(far_edge_lt_iff wide).mp laid.right, (far_edge_lt_iff high).mp laid.bottom, ?_⟩
  intro k item found _
  obtain ⟨some, column⟩ := first k item found
  have glyph := (drawn k item found (item.text.length - 1) (by omega)).1
  rw [column] at glyph
  refine ⟨?_, rows k (List.getElem?_eq_some_iff.mp found).1⟩
  rw [← glyph]
  exact Nat.le_of_lt_succ (Nat.mod_lt _ (by decide))

end

theorem textMenu_layout_iff (p : Panel) {menu : Menu} {items : List Item} {rest : List (Option (List UInt8))}
    {screenWidth screenHeight : UInt16} (listed : menu.items = listing items rest) (few : items.length < 256)
    (wide : totWidth menu items ≤ screenWidth.toNat) (high : totHeight menu items ≤ screenHeight.toNat) :
    (Fits menu items screenWidth.toNat screenHeight.toNat →
      Shows menu items screenWidth.toNat screenHeight.toNat
        (p.draws (textMenuDraw (textMenuInit menu) screenWidth screenHeight))) ∧
    (0 < menu.font.width.toNat → (∀ item ∈ items, item.text ≠ []) →
      Shows menu items screenWidth.toNat screenHeight.toNat
        (p.draws (textMenuDraw (textMenuInit menu) screenWidth screenHeight)) →
      Fits menu items screenWidth.toNat screenHeight.toNat) := by
  have drawn := draws_textMenuDraw p listed few wide high
  obtain ⟨left, right⟩ := toNat_edges wide
  obtain ⟨top, bottom⟩ := toNat_edges high
  rw [drawn]
  constructor
  · intro fits
    rw [texts_of_fits fits]
    refine ⟨_, _, _, _, middle menu items screenWidth.toNat screenHeight.toNat, rfl, ?_⟩
    rw [left, right, top, bottom]
    exact laidOut_middle fits wide high
  · rintro broad filled ⟨x, far, y, low, place, same, laid⟩
    obtain ⟨-, same⟩ := List.cons.inj same
    obtain ⟨window, same⟩ := List.cons.inj same
    have edges := congrArg Drawing.window window
    simp only [rectangle, left, right, top, bottom] at edges
    rw [← edges] at laid
    exact Fits.of_laidOut wide high broad filled laid (places_of_texts_eq same)

def greeting : Item := ⟨[72, 105], by decide, by decide⟩

def greetings : Menu := ⟨squares, 0, 0, 0xffff, 2, listing [greeting, greeting] [], 0, 0, 0⟩

theorem textMenu_layout_greetings :
    Shows greetings [greeting, greeting] 240 240
      (blackPanel.draws (textMenuDraw (textMenuInit greetings) 240 240)) := by
  have narrow : ∀ k item, [greeting, greeting][k]? = some item → item.text ≠ [] →
      2 + origin 240 20 + (item.text.length - 1) * 8 ≤ 255 ∧ 2 + origin 240 20 + k * 8 ≤ 255 := by
    intro k item found _
    match k with
    | 0 =>
      cases found
      decide
    | 1 =>
      cases found
      decide
    | k + 2 => cases found
  have fits : Fits greetings [greeting, greeting] 240 240 := ⟨by decide, by decide, narrow⟩
  have listed : greetings.items = listing [greeting, greeting] [] := rfl
  exact (textMenu_layout_iff blackPanel listed (by decide)
    (show totWidth greetings [greeting, greeting] ≤ (240 : UInt16).toNat by decide)
    (show totHeight greetings [greeting, greeting] ≤ (240 : UInt16).toNat by decide)).1 fits

/-- On a screen of just its size the menu's rectangle goes one column and one row beyond. -/
theorem textMenu_tight :
    totWidth greetings [greeting, greeting] = 20 ∧ totHeight greetings [greeting, greeting] = 20 ∧
      ((blackPanel.draws (textMenuDraw (textMenuInit greetings) 20 20))[1]?.map (·.window)) =
        some ⟨0, 20, 0, 20⟩ := by
  have listed : greetings.items = listing [greeting, greeting] [] := rfl
  have drawn := draws_textMenuDraw blackPanel listed (by decide)
    (show totWidth greetings [greeting, greeting] ≤ (20 : UInt16).toNat by decide)
    (show totHeight greetings [greeting, greeting] ≤ (20 : UInt16).toNat by decide)
  refine ⟨by decide, by decide, ?_⟩
  rw [drawn]
  rfl

end Minimus32.TextMenu
