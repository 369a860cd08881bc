import Minimus32.Library.Raster
import Minimus32.Library.Register

namespace Minimus32.Pcd8544

/-- The display's memory of 84 columns and six rows of bytes, the address the next byte goes to, and the flags of
    the function set. -/
structure Controller where
  ram : Nat → Nat → UInt8
  x : Nat
  y : Nat
  powerDown : Bool
  vertical : Bool
  extended : Bool

def Controller.reset (c : Controller) : Controller :=
  { c with x := 0, y := 0, powerDown := true, vertical := false, extended := false }

/-- The address moves down its column and on to the next, or along its row and on to the next. -/
def Controller.advance (c : Controller) : Controller :=
  if c.vertical then
    if c.y + 1 < 6 then { c with y := c.y + 1 }
    else { c with y := 0, x := if c.x + 1 < 84 then c.x + 1 else 0 }
  else if c.x + 1 < 84 then { c with x := c.x + 1 }
  else { c with x := 0, y := if c.y + 1 < 6 then c.y + 1 else 0 }

def Controller.data (c : Controller) (byte : UInt8) : Controller :=
  Controller.advance
    { c with ram := fun x y => if x = c.x ∧ y = c.y ∧ x < 84 ∧ y < 6 then byte else c.ram x y }

/-- Of the instructions, those that reach the memory: the function set and, unless the extended set is selected, the
    two halves of the address. -/
def Controller.instruction (c : Controller) (byte : UInt8) : Controller :=
  if byte &&& 0xF8 = 0x20 then
    { c with
      powerDown := Register.bit byte 2
      vertical := Register.bit byte 1
      extended := Register.bit byte 0 }
  else if c.extended then c
  else if byte &&& 0x80 = 0x80 then { c with x := (byte &&& 0x7F).toNat }
  else if byte &&& 0xF8 = 0x40 then { c with y := (byte &&& 0x07).toNat }
  else c

/-- The mode `pcd8544_init` selects. -/
structure Controller.Vertical (c : Controller) : Prop where
  vertical : c.vertical = true
  basic : c.extended = false

namespace Controller.Vertical

variable {c : Controller}

theorem setX (mode : c.Vertical) {n : Nat} (inside : n < 84) :
    c.instruction (UInt8.ofNat n + 0x80) = { c with x := n } := by
  have pattern : ∀ n < 84, (UInt8.ofNat n + 0x80) &&& 0xF8 ≠ 0x20 ∧ (UInt8.ofNat n + 0x80) &&& 0x80 = 0x80 ∧
      ((UInt8.ofNat n + 0x80) &&& 0x7F).toNat = n := by decide +kernel
  obtain ⟨other, top, address⟩ := pattern n inside
  unfold Controller.instruction
  rw [if_neg other, mode.basic, if_neg (by decide), if_pos top, address]

theorem setY (mode : c.Vertical) {n : Nat} (inside : n < 8) :
    c.instruction (UInt8.ofNat n + 0x40) = { c with y := n } := by
  have pattern : ∀ n < 8, (UInt8.ofNat n + 0x40) &&& 0xF8 ≠ 0x20 ∧ (UInt8.ofNat n + 0x40) &&& 0x80 ≠ 0x80 ∧
      (UInt8.ofNat n + 0x40) &&& 0xF8 = 0x40 ∧ ((UInt8.ofNat n + 0x40) &&& 0x07).toNat = n := by decide +kernel
  obtain ⟨other, low, set, address⟩ := pattern n inside
  unfold Controller.instruction
  rw [if_neg other, mode.basic, if_neg (by decide), if_neg low, if_pos set, address]

theorem data (mode : c.Vertical) (byte : UInt8) : (c.data byte).Vertical := by
  unfold Controller.data Controller.advance
  rw [if_pos mode.vertical]
  split
  · exact ⟨mode.vertical, mode.basic⟩
  · exact ⟨mode.vertical, mode.basic⟩

/-- A byte that is not the last of its column moves the address down. -/
theorem data_address (mode : c.Vertical) (byte : UInt8) (more : c.y + 1 < 6) :
    (c.data byte).x = c.x ∧ (c.data byte).y = c.y + 1 := by
  unfold Controller.data Controller.advance
  rw [if_pos mode.vertical, if_pos more]
  exact ⟨rfl, rfl⟩

end Controller.Vertical

theorem Controller.data_patched (c : Controller) (byte : UInt8) (column : c.x < 84) (row : c.y < 6) :
    Raster.Patched c.ram (c.data byte).ram c.x 1 c.y 1 fun _ _ => byte := by
  have ram : (c.data byte).ram = fun x y => if x = c.x ∧ y = c.y ∧ x < 84 ∧ y < 6 then byte else c.ram x y := by
    unfold Controller.data Controller.advance
    split_ifs
    all_goals rfl
  intro x y
  rw [ram]
  apply if_congr _ rfl rfl
  omega

end Minimus32.Pcd8544
