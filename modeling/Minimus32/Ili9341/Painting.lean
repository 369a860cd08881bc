import Minimus32.Ili9341.Panel

namespace Minimus32.Ili9341

open Display Raster

theorem sends_sendColour (colour : UInt16) (n : Nat) : Sends (sendColour colour n) (List.replicate n colour) := by
  induction n with
  | zero => exact ⟨by simp [sendColour], rfl⟩
  | succ n ih =>
    have pixel : Sends [.data (colour >>> 8).toUInt8, .data (colour &&& 0xff).toUInt8] [colour] :=
      ⟨by simp [Action.Commands], rfl⟩
    exact pixel.append ih

theorem sends_fillRows (colour countM : UInt16) (n : Nat) :
    Sends (fillRows colour countM n) (List.replicate (n * countM.toNat) colour) := by
  induction n with
  | zero =>
    rw [Nat.zero_mul]
    exact ⟨by simp [fillRows], rfl⟩
  | succ n ih =>
    have total : (n + 1) * countM.toNat = countM.toNat + n * countM.toNat := by rw [Nat.succ_mul, Nat.add_comm]
    rw [total, List.replicate_add]
    exact (sends_sendColour colour countM.toNat).append ih

/-- Pixel `k` of the image, counted row by row. -/
def Image565.colour (image : Image565) (k : Nat) : UInt16 :=
  Register.word (image.bytes (UInt16.ofNat (2 * k))) (image.bytes (UInt16.ofNat (2 * k + 1)))

theorem sends_sendRow (image : Image565) (n k : Nat) :
    Sends (sendRow image.bytes n (UInt16.ofNat (2 * k))).1 ((List.range' k n).map image.colour) ∧
      (sendRow image.bytes n (UInt16.ofNat (2 * k))).2 = UInt16.ofNat (2 * (k + n)) := by
  induction n generalizing k with
  | zero => exact ⟨⟨by simp [sendRow], rfl⟩, rfl⟩
  | succ n ih =>
    obtain ⟨later, pointer⟩ := ih (k + 1)
    have second : UInt16.ofNat (2 * k) + 1 = UInt16.ofNat (2 * k + 1) := by
      rw [UInt16.ofNat_add]
      rfl
    have moved : UInt16.ofNat (2 * k) + 2 = UInt16.ofNat (2 * (k + 1)) := by
      rw [Nat.mul_succ, UInt16.ofNat_add]
      rfl
    have pixel : Sends [.fetch (UInt16.ofNat (2 * k)), .data (image.bytes (UInt16.ofNat (2 * k))),
        .fetch (UInt16.ofNat (2 * k + 1)), .data (image.bytes (UInt16.ofNat (2 * k + 1)))] [image.colour k] := by
      constructor
      · simp [Action.Commands]
      · obtain ⟨high, low⟩ := Register.bytes_word (image.bytes (UInt16.ofNat (2 * k)))
          (image.bytes (UInt16.ofNat (2 * k + 1)))
        rw [List.flatMap_singleton, pixelBytes, Image565.colour, high, low]
        rfl
    rw [sendRow]
    dsimp only
    rw [second, moved, List.range'_succ, List.map_cons]
    constructor
    · exact pixel.append later
    · rw [pointer]
      congr 2
      omega

theorem sends_sendRows (image : Image565) (width n k : Nat) :
    Sends (sendRows image.bytes width n (UInt16.ofNat (2 * k))) ((List.range' k (n * width)).map image.colour) := by
  induction n generalizing k with
  | zero =>
    rw [Nat.zero_mul]
    exact ⟨by simp [sendRows], rfl⟩
  | succ n ih =>
    have total : (n + 1) * width = width + n * width := by rw [Nat.succ_mul, Nat.add_comm]
    obtain ⟨row, pointer⟩ := sends_sendRow image width k
    rw [sendRows, pointer, total, ← List.range'_append_1, List.map_append]
    exact row.append (ih (k + width))

inductive Call where
  | fill (colour : UInt16)
  | drawVerticalLine (colour x startY endY : UInt16)
  | drawHorizontalLine (colour y startX endX : UInt16)
  | drawFilledRectangle (colour startX endX startY endY : UInt16)
  | drawImage565 (x y : UInt16) (image : Image565)

namespace Call

def actions : Call → List Action
  | .fill colour => Ili9341.fill colour
  | .drawVerticalLine colour x startY endY => Ili9341.drawVerticalLine colour x startY endY
  | .drawHorizontalLine colour y startX endX => Ili9341.drawHorizontalLine colour y startX endX
  | .drawFilledRectangle colour startX endX startY endY => Ili9341.drawFilledRectangle colour startX endX startY endY
  | .drawImage565 x y image => Ili9341.drawImage565 x y image

/-- Each start is at most its end, and the ends are on the panel. -/
def Valid : Call → Prop
  | .fill _ => True
  | .drawVerticalLine _ x startY endY => x.toNat < 240 ∧ startY.toNat ≤ endY.toNat ∧ endY.toNat < 320
  | .drawHorizontalLine _ y startX endX => y.toNat < 320 ∧ startX.toNat ≤ endX.toNat ∧ endX.toNat < 240
  | .drawFilledRectangle _ startX endX startY endY =>
    startX.toNat ≤ endX.toNat ∧ endX.toNat < 240 ∧ startY.toNat ≤ endY.toNat ∧ endY.toNat < 320
  | .drawImage565 x y image =>
    0 < image.width.toNat ∧ x.toNat + image.width.toNat ≤ 240 ∧ 0 < image.height.toNat ∧
      y.toNat + image.height.toNat ≤ 320

def area : Call → Window
  | .fill _ => ⟨0, 239, 0, 319⟩
  | .drawVerticalLine _ x startY endY => ⟨x.toNat, x.toNat, startY.toNat, endY.toNat⟩
  | .drawHorizontalLine _ y startX endX => ⟨startX.toNat, endX.toNat, y.toNat, y.toNat⟩
  | .drawFilledRectangle _ startX endX startY endY => ⟨startX.toNat, endX.toNat, startY.toNat, endY.toNat⟩
  | .drawImage565 x y image =>
    ⟨x.toNat, x.toNat + image.width.toNat - 1, y.toNat, y.toNat + image.height.toNat - 1⟩

/-- The colour its pixel at `x`, `y` is to have. -/
def colour : Call → Nat → Nat → UInt16
  | .fill colour, _, _ | .drawVerticalLine colour _ _ _, _, _ | .drawHorizontalLine colour _ _ _, _, _
  | .drawFilledRectangle colour _ _ _ _, _, _ => colour
  | .drawImage565 left top image, x, y => image.colour (image.width.toNat * (y - top.toNat) + (x - left.toNat))

def window : Call → Window
  | .fill _ => ⟨0, 239, 0, 339⟩
  | c => c.area

def colours : Call → List UInt16
  | .fill colour => List.replicate (320 * 240) colour
  | .drawVerticalLine colour _ startY endY => List.replicate (endY - startY + 1).toNat colour
  | .drawHorizontalLine colour _ startX endX => List.replicate (endX - startX + 1).toNat colour
  | .drawFilledRectangle colour startX endX startY endY =>
    List.replicate ((endX - startX + 1).toNat * (endY - startY + 1).toNat) colour
  | .drawImage565 _ _ image => (List.range' 0 (image.height.toNat * image.width.toNat)).map image.colour

end Call

theorem toNat_extent {start stop : UInt16} (ordered : start.toNat ≤ stop.toNat) (small : stop.toNat < 320) :
    (stop - start + 1).toNat = stop.toNat + 1 - start.toNat := by
  have difference := UInt16.toNat_sub_of_le stop start (UInt16.le_iff_toNat_le.mpr ordered)
  rw [UInt16.toNat_add, difference]
  change (stop.toNat - start.toNat + 1) % 65536 = _
  omega

theorem toNat_last {start size : UInt16} (some : 0 < size.toNat) (small : start.toNat + size.toNat ≤ 320) :
    (start + size - 1).toNat = start.toNat + size.toNat - 1 := by
  have sum : (start + size).toNat = start.toNat + size.toNat := by
    rw [UInt16.toNat_add]
    exact Nat.mod_eq_of_lt (by omega)
  have above : (1 : UInt16) ≤ start + size := by
    rw [UInt16.le_iff_toNat_le, sum]
    change 1 ≤ _
    omega
  rw [UInt16.toNat_sub_of_le _ _ above, sum]
  rfl

theorem payload_of_sends {body : List Action} {colours : List UInt16} (sends : Sends body colours)
    (before : List Action) (byte : UInt8) :
    (payload (before ++ .command byte :: body)).length = 2 * colours.length := by
  rw [payload_command before byte sends.silent, sends.length]

/-- Every call programs its window and then sends its colours. -/
theorem Call.performs {c : Call} (valid : c.Valid) (p : Panel) :
    (payload c.actions).length = 2 * c.colours.length ∧
      p.receiveAll c.actions = ⟨(p.aim c.window).canvas.writeAll OnPanel c.colours, memoryWrite, []⟩ := by
  cases c with
  | fill colour =>
    have sends : Sends (fillRows colour 240 320) (List.replicate (320 * 240) colour) := sends_fillRows colour 240 320
    constructor
    · exact payload_of_sends sends _ _
    · exact (receiveAll_aimed p 0 239 0 339 _).trans (sends.receiveAll p _)
  | drawVerticalLine colour x startY endY =>
    have sends := sends_sendColour colour (endY - startY + 1).toNat
    constructor
    · exact payload_of_sends sends _ _
    · exact (receiveAll_aimed p x x startY endY _).trans (sends.receiveAll p _)
  | drawHorizontalLine colour y startX endX =>
    have sends := sends_sendColour colour (endX - startX + 1).toNat
    constructor
    · exact payload_of_sends sends _ _
    · exact (receiveAll_aimed p startX endX y y _).trans (sends.receiveAll p _)
  | drawFilledRectangle colour startX endX startY endY =>
    have sends := sends_fillRows colour (endY - startY + 1) (endX - startX + 1).toNat
    constructor
    · exact payload_of_sends sends _ _
    · exact (receiveAll_aimed_pages_first p startX endX startY endY _).trans (sends.receiveAll p _)
  | drawImage565 x y image =>
    obtain ⟨wide, right, high, bottom⟩ := valid
    have sends := sends_sendRows image image.width.toNat image.height.toNat 0
    have aimed := receiveAll_aimed p x (x + image.width - 1) y (y + image.height - 1)
      (sendRows image.bytes image.width.toNat image.height.toNat 0)
    rw [toNat_last wide (by omega), toNat_last high bottom] at aimed
    constructor
    · exact payload_of_sends sends _ _
    · exact aimed.trans (sends.receiveAll p _)

theorem Call.Valid.proper {c : Call} (valid : c.Valid) : c.area.Proper := by
  cases c with
  | fill colour => exact ⟨Nat.zero_le _, Nat.zero_le _⟩
  | drawVerticalLine colour x startY endY => exact ⟨Nat.le_refl _, valid.2.1⟩
  | drawHorizontalLine colour y startX endX => exact ⟨valid.2.1, Nat.le_refl _⟩
  | drawFilledRectangle colour startX endX startY endY => exact ⟨valid.1, valid.2.2.1⟩
  | drawImage565 x y image =>
    obtain ⟨wide, right, high, bottom⟩ := valid
    constructor
    · show x.toNat ≤ x.toNat + image.width.toNat - 1
      omega
    · show y.toNat ≤ y.toNat + image.height.toNat - 1
      omega

theorem Call.Valid.inside {c : Call} (valid : c.Valid) : c.area.right < 240 ∧ c.area.bottom < 320 := by
  cases c with
  | fill colour => exact ⟨Nat.lt_succ_self 239, Nat.lt_succ_self 319⟩
  | drawVerticalLine colour x startY endY => exact ⟨valid.1, valid.2.2⟩
  | drawHorizontalLine colour y startX endX => exact ⟨valid.2.2, valid.1⟩
  | drawFilledRectangle colour startX endX startY endY => exact ⟨valid.2.1, valid.2.2.2⟩
  | drawImage565 x y image =>
    obtain ⟨wide, right, high, bottom⟩ := valid
    constructor
    · show x.toNat + image.width.toNat - 1 < 240
      omega
    · show y.toNat + image.height.toNat - 1 < 320
      omega

theorem Call.Valid.length_colours {c : Call} (valid : c.Valid) :
    c.colours.length = c.area.width * c.area.height := by
  cases c with
  | fill colour =>
    rw [Call.colours, List.length_replicate]
    exact Nat.mul_comm 320 240
  | drawVerticalLine colour x startY endY =>
    rw [Call.colours, List.length_replicate, toNat_extent valid.2.1 valid.2.2]
    show _ = (x.toNat + 1 - x.toNat) * (endY.toNat + 1 - startY.toNat)
    rw [Nat.add_sub_cancel_left, Nat.one_mul]
  | drawHorizontalLine colour y startX endX =>
    rw [Call.colours, List.length_replicate, toNat_extent valid.2.1 (by have := valid.2.2; omega)]
    show _ = (endX.toNat + 1 - startX.toNat) * (y.toNat + 1 - y.toNat)
    rw [Nat.add_sub_cancel_left, Nat.mul_one]
  | drawFilledRectangle colour startX endX startY endY =>
    obtain ⟨columns, right, pages, bottom⟩ := valid
    rw [Call.colours, List.length_replicate, toNat_extent columns (by omega), toNat_extent pages bottom]
    rfl
  | drawImage565 x y image =>
    obtain ⟨wide, right, high, bottom⟩ := valid
    rw [Call.colours, List.length_map, List.length_range', Nat.mul_comm]
    show _ = (x.toNat + image.width.toNat - 1 + 1 - x.toNat) * (y.toNat + image.height.toNat - 1 + 1 - y.toNat)
    congr 1
    · omega
    · omega

theorem Call.fill_or_window_eq (c : Call) :
    (∃ colour, c = .fill colour) ∨ (∀ colour, c ≠ .fill colour) ∧ c.window = c.area := by
  cases c with
  | fill colour => exact .inl ⟨colour, rfl⟩
  | drawVerticalLine colour x startY endY => exact .inr ⟨fun _ => Call.noConfusion, rfl⟩
  | drawHorizontalLine colour y startX endX => exact .inr ⟨fun _ => Call.noConfusion, rfl⟩
  | drawFilledRectangle colour startX endX startY endY => exact .inr ⟨fun _ => Call.noConfusion, rfl⟩
  | drawImage565 x y image => exact .inr ⟨fun _ => Call.noConfusion, rfl⟩

theorem Call.index_window (c : Call) (x y : Nat) : c.window.index x y = c.area.index x y := by
  rcases c.fill_or_window_eq with ⟨colour, rfl⟩ | ⟨_, same⟩
  · rfl
  · rw [same]

/-- The colours are sent in the order in which the area is filled. -/
theorem Call.Valid.getElem?_colours {c : Call} (valid : c.Valid) {x y : Nat} (covers : c.area.Covers x y) :
    c.colours[c.area.index x y]? = some (c.colour x y) := by
  have inside := covers.index_lt
  rw [← valid.length_colours] at inside
  have plain (n k : Nat) (colour : UInt16) (within : k < (List.replicate n colour).length) :
      (List.replicate n colour)[k]? = some colour :=
    List.getElem?_replicate_of_lt (by rwa [List.length_replicate] at within)
  cases c with
  | fill colour => exact plain _ _ colour inside
  | drawVerticalLine colour x startY endY => exact plain _ _ colour inside
  | drawHorizontalLine colour y startX endX => exact plain _ _ colour inside
  | drawFilledRectangle colour startX endX startY endY => exact plain _ _ colour inside
  | drawImage565 left top image =>
    obtain ⟨wide, _, _, _⟩ := valid
    have width : (Call.drawImage565 left top image).area.width = image.width.toNat := by
      show left.toNat + image.width.toNat - 1 + 1 - left.toNat = _
      omega
    rw [Call.colours, List.length_map, List.length_range'] at inside
    rw [Call.colours, List.getElem?_map, List.getElem?_range' inside, Window.index, width, Nat.zero_add, Nat.one_mul]
    rfl

theorem Call.covers_iff {c : Call} (valid : c.Valid) (x y : Nat) :
    c.window.Covers x y ∧ OnPanel x y ↔ c.area.Covers x y := by
  rcases c.fill_or_window_eq with ⟨colour, rfl⟩ | ⟨_, same⟩
  · show (0 ≤ x ∧ x ≤ 239 ∧ 0 ≤ y ∧ y ≤ 339) ∧ x < 240 ∧ y < 320 ↔ 0 ≤ x ∧ x ≤ 239 ∧ 0 ≤ y ∧ y ≤ 319
    omega
  · rw [same]
    apply and_iff_left_of_imp
    intro covers
    rcases covers with ⟨_, right, _, bottom⟩
    exact ⟨right.trans_lt valid.inside.1, bottom.trans_lt valid.inside.2⟩

theorem Call.Valid.fits_window {c : Call} (valid : c.Valid) :
    c.window.Proper ∧ c.area.width * c.area.height ≤ c.window.width * c.window.height := by
  rcases c.fill_or_window_eq with ⟨colour, rfl⟩ | ⟨_, same⟩
  · exact ⟨⟨Nat.zero_le _, Nat.zero_le _⟩, Nat.mul_le_mul_left 240 (show 320 ≤ 340 by decide)⟩
  · rw [same]
    exact ⟨valid.proper, Nat.le_refl _⟩

theorem Call.Valid.paints {c : Call} (valid : c.Valid) (p : Panel) (x y : Nat) :
    (p.receiveAll c.actions).canvas.pixel x y =
      if c.area.Covers x y then c.colour x y else p.canvas.pixel x y := by
  obtain ⟨proper, larger⟩ := valid.fits_window
  have started : (p.aim c.window).canvas.pointer = c.window.position 0 := by
    rw [Window.position, Nat.zero_mod, Nat.zero_div, Nat.zero_mod]
    rfl
  have room : 0 + c.colours.length ≤ c.window.width * c.window.height := by
    rw [Nat.zero_add, valid.length_colours]
    exact larger
  have shown : c.window.Covers x y ∧ OnPanel x y ∧ 0 ≤ c.window.index x y ↔ c.area.Covers x y := by
    rw [← Call.covers_iff valid]
    exact and_congr_right' (and_iff_left (Nat.zero_le _))
  have written := Canvas.writeAll_pixel OnPanel c.colours (c := (p.aim c.window).canvas) proper started room x y
  rw [(Call.performs valid p).2, written]
  apply (if_congr shown rfl rfl).trans
  split
  · rename_i covers
    change c.colours[c.window.index x y - 0]?.getD _ = _
    rw [Nat.sub_zero, c.index_window, valid.getElem?_colours covers, Option.getD_some]
  · rfl

/-- A call paints its area and nothing else; and the window it programs is that area, inside the panel, with two
    bytes sent for each of its pixels, exactly when the call is not `fill`. -/
theorem ili9341_painting (p : Panel) (c : Call) (valid : c.Valid) :
    (∀ x y, (p.receiveAll c.actions).canvas.pixel x y =
      if c.area.Covers x y then c.colour x y else p.canvas.pixel x y) ∧
    ((p.receiveAll c.actions).canvas.window = c.area ∧
      (p.receiveAll c.actions).canvas.window.right < 240 ∧ (p.receiveAll c.actions).canvas.window.bottom < 320 ∧
      (payload c.actions).length = 2 * ((p.receiveAll c.actions).canvas.window.width *
        (p.receiveAll c.actions).canvas.window.height) ↔ ∀ colour, c ≠ .fill colour) := by
  refine ⟨valid.paints p, ?_⟩
  obtain ⟨sent, performed⟩ := Call.performs valid p
  have programmed : (p.receiveAll c.actions).canvas.window = c.window := by
    rw [performed]
    exact Canvas.writeAll_window OnPanel _ _
  rw [programmed, sent, valid.length_colours]
  rcases c.fill_or_window_eq with ⟨colour, rfl⟩ | ⟨other, same⟩
  · constructor
    · intro exactly
      exact absurd (congrArg Window.bottom exactly.1) (show 339 ≠ 319 by decide)
    · intro other
      exact absurd rfl (other colour)
  · rw [same]
    exact ⟨fun _ => other, fun _ => ⟨rfl, valid.inside.1, valid.inside.2, rfl⟩⟩

def blackPanel : Panel := ⟨⟨fun _ _ => 0, ⟨0, 239, 0, 319⟩, (0, 0)⟩, 0, []⟩

theorem ili9341_painting_rectangle :
    (Call.drawFilledRectangle 0xf800 10 20 30 50).Valid ∧
      ∀ x y, (blackPanel.receiveAll (Call.drawFilledRectangle 0xf800 10 20 30 50).actions).canvas.pixel x y =
        if (Window.mk 10 20 30 50).Covers x y then 0xf800 else 0 :=
  have valid : (Call.drawFilledRectangle 0xf800 10 20 30 50).Valid := ⟨by decide, by decide, by decide, by decide⟩
  ⟨valid, (ili9341_painting blackPanel (.drawFilledRectangle 0xf800 10 20 30 50) valid).1⟩

/-- The window has 340 pages, twenty more than the panel. -/
theorem fill_programs_beyond :
    (blackPanel.receiveAll (Call.fill 0).actions).canvas.window = ⟨0, 239, 0, 339⟩ ∧
      (payload (Call.fill 0).actions).length = 2 * (240 * 320) := by
  obtain ⟨sent, performed⟩ := Call.performs (c := .fill 0) trivial blackPanel
  constructor
  · rw [performed]
    exact Canvas.writeAll_window OnPanel _ _
  · rw [sent, Call.colours, List.length_replicate]

end Minimus32.Ili9341
