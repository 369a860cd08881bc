import Minimus32.Library.Raster
import Minimus32.Library.RowMajor
import Minimus32.Ili9341.Driver

namespace Minimus32.Ili9341

open Display Raster

/-- The memory of the panel has 240 columns and 320 pages. -/
def OnPanel (x y : Nat) : Prop := x < 240 ∧ y < 320

instance (x y : Nat) : Decidable (OnPanel x y) := inferInstanceAs (Decidable (_ ∧ _))

/-- The panel as far as it is drawn on: `received` are the data bytes that have come for the current command. -/
structure Panel where
  canvas : Canvas UInt16
  command : UInt8
  received : List UInt8

def Panel.setColumns (p : Panel) (left right : UInt16) : Panel :=
  { p with canvas.window.left := left.toNat, canvas.window.right := right.toNat }

def Panel.setPages (p : Panel) (top bottom : UInt16) : Panel :=
  { p with canvas.window.top := top.toNat, canvas.window.bottom := bottom.toNat }

/-- The fourth byte completes an address command, every second one a pixel. -/
def Panel.data (p : Panel) (byte : UInt8) : Panel :=
  let next := { p with received := p.received ++ [byte] }
  if p.command = columnAddressSet then
    match p.received with
    | [a, b, c] => next.setColumns (Register.word a b) (Register.word c byte)
    | _ => next
  else if p.command = pageAddressSet then
    match p.received with
    | [a, b, c] => next.setPages (Register.word a b) (Register.word c byte)
    | _ => next
  else if p.command = memoryWrite then
    match p.received with
    | [high] => { p with canvas := p.canvas.write OnPanel (Register.word high byte), received := [] }
    | _ => next
  else next

/-- Writing to the memory starts in the window's first cell. -/
def Panel.receive (p : Panel) : Action → Panel
  | .command byte =>
    let next := { p with command := byte, received := [] }
    if byte = memoryWrite then { next with canvas.pointer := (p.canvas.window.left, p.canvas.window.top) } else next
  | .data byte => p.data byte
  | .fetch _ => p

def Panel.receiveAll (p : Panel) (actions : List Action) : Panel := actions.foldl Panel.receive p

/-- Ready to write through the window from its first cell on. -/
def Panel.aim (p : Panel) (window : Window) : Panel :=
  ⟨⟨p.canvas.pixel, window, (window.left, window.top)⟩, memoryWrite, []⟩

section

variable (p : Panel) (left right top bottom : UInt16) (body : List Action)

theorem receiveAll_setXAddress :
    ∃ received, p.receiveAll (setXAddress left right) =
      ⟨(p.setColumns left right).canvas, columnAddressSet, received⟩ := by
  have whole : p.receiveAll (setXAddress left right) =
      ⟨(p.setColumns (Register.word (left >>> 8).toUInt8 (left &&& 0xff).toUInt8)
        (Register.word (right >>> 8).toUInt8 (right &&& 0xff).toUInt8)).canvas, _, _⟩ := rfl
  rw [Register.word_bytes, Register.word_bytes] at whole
  exact ⟨_, whole⟩

theorem receiveAll_setYAddress :
    ∃ received, p.receiveAll (setYAddress top bottom) =
      ⟨(p.setPages top bottom).canvas, pageAddressSet, received⟩ := by
  have whole : p.receiveAll (setYAddress top bottom) =
      ⟨(p.setPages (Register.word (top >>> 8).toUInt8 (top &&& 0xff).toUInt8)
        (Register.word (bottom >>> 8).toUInt8 (bottom &&& 0xff).toUInt8)).canvas, _, _⟩ := rfl
  rw [Register.word_bytes, Register.word_bytes] at whole
  exact ⟨_, whole⟩

theorem receiveAll_append (actions more : List Action) :
    p.receiveAll (actions ++ more) = (p.receiveAll actions).receiveAll more := List.foldl_append

theorem receiveAll_aimed :
    p.receiveAll (setXAddress left right ++ setYAddress top bottom ++ .command memoryWrite :: body) =
      (p.aim ⟨left.toNat, right.toNat, top.toNat, bottom.toNat⟩).receiveAll body := by
  obtain ⟨columns, first⟩ := receiveAll_setXAddress p left right
  obtain ⟨pages, second⟩ :=
    receiveAll_setYAddress ⟨(p.setColumns left right).canvas, columnAddressSet, columns⟩ top bottom
  rw [receiveAll_append, receiveAll_append, first, second]
  rfl

theorem receiveAll_aimed_pages_first :
    p.receiveAll (setYAddress top bottom ++ setXAddress left right ++ .command memoryWrite :: body) =
      (p.aim ⟨left.toNat, right.toNat, top.toNat, bottom.toNat⟩).receiveAll body := by
  obtain ⟨pages, first⟩ := receiveAll_setYAddress p top bottom
  obtain ⟨columns, second⟩ :=
    receiveAll_setXAddress ⟨(p.setPages top bottom).canvas, pageAddressSet, pages⟩ left right
  rw [receiveAll_append, receiveAll_append, first, second]
  rfl

end

def pixelBytes (colour : UInt16) : List UInt8 := [(colour >>> 8).toUInt8, (colour &&& 0xff).toUInt8]

/-- The actions send these pixels and nothing else. -/
structure Sends (actions : List Action) (colours : List UInt16) : Prop where
  silent : ∀ a ∈ actions, ¬ a.Commands
  sent : actions.filterMap Action.sent = colours.flatMap pixelBytes

theorem Sends.append {first second : List Action} {colours others : List UInt16} (begun : Sends first colours)
    (ended : Sends second others) : Sends (first ++ second) (colours ++ others) := by
  constructor
  · intro a member
    rcases List.mem_append.mp member with earlier | later
    · exact begun.silent a earlier
    · exact ended.silent a later
  · rw [List.filterMap_append, List.flatMap_append, begun.sent, ended.sent]

theorem Sends.length {actions : List Action} {colours : List UInt16} (sends : Sends actions colours) :
    (actions.filterMap Action.sent).length = 2 * colours.length := by
  have even : ∀ colour ∈ colours, (pixelBytes colour).length = 2 := fun _ _ => rfl
  rw [sends.sent, RowMajor.length_flatMap even]

theorem receiveAll_silent (p : Panel) {actions : List Action} (silent : ∀ a ∈ actions, ¬ a.Commands) :
    p.receiveAll actions = (actions.filterMap Action.sent).foldl Panel.data p := by
  induction actions generalizing p with
  | nil => rfl
  | cons a actions ih =>
    have later := fun p => ih p (fun other member => silent other (by simp [member]))
    cases a with
    | command byte => exact absurd trivial (silent (.command byte) (by simp))
    | data byte => exact later (p.data byte)
    | fetch offset => exact later p

/-- The two bytes of a pixel write it, as long as the panel is between two pixels. -/
theorem data_pixelBytes (canvas : Canvas UInt16) (colour : UInt16) :
    (pixelBytes colour).foldl Panel.data ⟨canvas, memoryWrite, []⟩ =
      ⟨canvas.write OnPanel colour, memoryWrite, []⟩ := by
  have value := Register.word_bytes colour
  conv_rhs => rw [← value]
  rfl

theorem data_pixels (canvas : Canvas UInt16) (colours : List UInt16) :
    (colours.flatMap pixelBytes).foldl Panel.data ⟨canvas, memoryWrite, []⟩ =
      ⟨canvas.writeAll OnPanel colours, memoryWrite, []⟩ := by
  induction colours generalizing canvas with
  | nil => rfl
  | cons colour colours ih =>
    rw [List.flatMap_cons, List.foldl_append, data_pixelBytes, ih]
    rfl

theorem Sends.receiveAll {actions : List Action} {colours : List UInt16} (sends : Sends actions colours) (p : Panel)
    (window : Window) :
    (p.aim window).receiveAll actions = ⟨(p.aim window).canvas.writeAll OnPanel colours, memoryWrite, []⟩ := by
  rw [receiveAll_silent _ sends.silent, sends.sent]
  exact data_pixels _ colours

end Minimus32.Ili9341
