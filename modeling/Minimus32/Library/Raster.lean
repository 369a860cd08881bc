import Mathlib.Data.List.Basic
import Minimus32.Library.MixedRadix

namespace Raster

/-- A rectangle of cells, with its borders. -/
structure Window where
  left : Nat
  right : Nat
  top : Nat
  bottom : Nat
deriving DecidableEq

namespace Window

def width (w : Window) : Nat := w.right + 1 - w.left

def height (w : Window) : Nat := w.bottom + 1 - w.top

def Proper (w : Window) : Prop := w.left ≤ w.right ∧ w.top ≤ w.bottom

instance (w : Window) : Decidable w.Proper := inferInstanceAs (Decidable (_ ∧ _))

def Covers (w : Window) (x y : Nat) : Prop := w.left ≤ x ∧ x ≤ w.right ∧ w.top ≤ y ∧ y ≤ w.bottom

instance (w : Window) (x y : Nat) : Decidable (w.Covers x y) := inferInstanceAs (Decidable (_ ∧ _))

/-- The cell after this one, row by row and from the last back to the first. -/
def next (w : Window) (cell : Nat × Nat) : Nat × Nat :=
  if cell.1 < w.right then (cell.1 + 1, cell.2)
  else (w.left, if cell.2 < w.bottom then cell.2 + 1 else w.top)

/-- The cell that is reached after `k` others. -/
def position (w : Window) (k : Nat) : Nat × Nat :=
  (w.left + k % w.width, w.top + k / w.width % w.height)

def index (w : Window) (x y : Nat) : Nat := w.width * (y - w.top) + (x - w.left)

variable {w : Window}

theorem Proper.width_pos (proper : w.Proper) : 0 < w.width := by
  have columns := proper.1
  unfold width
  omega

theorem Proper.height_pos (proper : w.Proper) : 0 < w.height := by
  have rows := proper.2
  unfold height
  omega

theorem next_position (proper : w.Proper) (k : Nat) : w.next (w.position k) = w.position (k + 1) := by
  have columns : w.width = w.right + 1 - w.left := rfl
  have rows : w.height = w.bottom + 1 - w.top := rfl
  have wide := proper.width_pos
  unfold next position
  dsimp only
  rcases MixedRadix.succ_digit k w.width wide with ⟨small, column, row⟩ | ⟨full, column, row⟩
  · rw [if_pos (by omega), column, row]
    rfl
  · rw [if_neg (by omega), column, row]
    rcases MixedRadix.succ_digit (k / w.width) w.height proper.height_pos with ⟨inside, below, _⟩ | ⟨last, below, _⟩
    · rw [if_pos (by omega), below]
      rfl
    · rw [if_neg (by omega), below]
      rfl

/-- Within one round every cell of the window is reached once. -/
theorem position_eq_iff (proper : w.Proper) {k : Nat} (inside : k < w.width * w.height) {x y : Nat} :
    w.position k = (x, y) ↔ w.Covers x y ∧ w.index x y = k := by
  have columns : w.width = w.right + 1 - w.left := rfl
  have rows : w.height = w.bottom + 1 - w.top := rfl
  have wide := proper.width_pos
  have row : k / w.width < w.height := Nat.div_lt_of_lt_mul inside
  have column := Nat.mod_lt k wide
  have bordered := proper.1
  rw [position, Nat.mod_eq_of_lt row, Prod.mk.injEq]
  constructor
  · intro reached
    rcases reached with ⟨rfl, rfl⟩
    constructor
    · unfold Covers
      generalize k / w.width = below at row ⊢
      omega
    · rw [index, Nat.add_sub_cancel_left, Nat.add_sub_cancel_left]
      exact Nat.div_add_mod k w.width
  · intro covered
    rcases covered with ⟨⟨left, right, top, bottom⟩, rfl⟩
    rw [index, Nat.mul_add_mod, Nat.mod_eq_of_lt (by omega), Nat.mul_add_div wide, Nat.div_eq_of_lt (by omega)]
    omega

theorem Covers.index_lt {x y : Nat} (covers : w.Covers x y) : w.index x y < w.width * w.height := by
  have columns : w.width = w.right + 1 - w.left := rfl
  have rows : w.height = w.bottom + 1 - w.top := rfl
  rcases covers with ⟨left, right, top, bottom⟩
  have rest : w.width * (y - w.top) + w.width ≤ w.width * w.height := by
    rw [← Nat.mul_succ]
    apply Nat.mul_le_mul_left
    omega
  unfold index
  omega

end Window

/-- A picture that is written through a window, cell after cell. -/
structure Canvas (α : Type*) where
  pixel : Nat → Nat → α
  window : Window
  pointer : Nat × Nat

variable {α : Type*} (visible : Nat → Nat → Prop) [∀ x y, Decidable (visible x y)]

/-- What is written outside the visible cells is lost. -/
def Canvas.write (c : Canvas α) (colour : α) : Canvas α where
  pixel := fun x y => if c.pointer = (x, y) ∧ visible x y then colour else c.pixel x y
  window := c.window
  pointer := c.window.next c.pointer

def Canvas.writeAll (c : Canvas α) (colours : List α) : Canvas α := colours.foldl (Canvas.write visible) c

theorem Canvas.writeAll_window (c : Canvas α) (colours : List α) : (c.writeAll visible colours).window = c.window := by
  induction colours generalizing c with
  | nil => rfl
  | cons colour colours ih => exact ih (c.write visible colour)

/-- After a part of a round: the cells it has come to have their colours, and no other has changed. -/
theorem Canvas.writeAll_pixel (colours : List α) {c : Canvas α} (proper : c.window.Proper) {k : Nat}
    (reached : c.pointer = c.window.position k) (room : k + colours.length ≤ c.window.width * c.window.height)
    (x y : Nat) :
    (c.writeAll visible colours).pixel x y =
      if c.window.Covers x y ∧ visible x y ∧ k ≤ c.window.index x y then
        colours[c.window.index x y - k]?.getD (c.pixel x y)
      else c.pixel x y := by
  induction colours generalizing c k with
  | nil => simp [Canvas.writeAll]
  | cons colour colours ih =>
    rw [List.length_cons] at room
    have moved : (c.write visible colour).pointer = c.window.position (k + 1) := by
      rw [← c.window.next_position proper, ← reached]
      rfl
    have here := c.window.position_eq_iff proper (show k < _ by omega) (x := x) (y := y)
    have rest := ih (c := c.write visible colour) proper moved (by
      change k + 1 + colours.length ≤ c.window.width * c.window.height
      omega)
    change ((c.write visible colour).writeAll visible colours).pixel x y = _
    rw [rest]
    change (if c.window.Covers x y ∧ visible x y ∧ k + 1 ≤ c.window.index x y then
      colours[c.window.index x y - (k + 1)]?.getD (if c.pointer = (x, y) ∧ visible x y then colour else c.pixel x y)
      else if c.pointer = (x, y) ∧ visible x y then colour else c.pixel x y) = _
    rw [reached, if_congr (and_congr_left' here) rfl rfl]
    by_cases shown : c.window.Covers x y ∧ visible x y
    · rcases Nat.lt_trichotomy (c.window.index x y) k with earlier | now | later
      · rw [if_neg (by omega), if_neg (by omega), if_neg (by omega)]
      · rw [if_neg (by omega), if_pos ⟨⟨shown.1, now⟩, shown.2⟩, if_pos ⟨shown.1, shown.2, by omega⟩, now, Nat.sub_self]
        rfl
      · rw [if_pos ⟨shown.1, shown.2, later⟩, if_neg (by omega), if_pos ⟨shown.1, shown.2, by omega⟩,
          show c.window.index x y - k = c.window.index x y - (k + 1) + 1 by omega, List.getElem?_cons_succ]
    · rw [if_neg (fun all => shown ⟨all.1, all.2.1⟩), if_neg (fun all => shown ⟨all.1.1, all.2⟩),
        if_neg (fun all => shown ⟨all.1, all.2.1⟩)]

/-- Only the cells of a rectangle have changed, to this content. -/
def Patched (old new : Nat → Nat → α) (left width top height : Nat) (content : Nat → Nat → α) : Prop :=
  ∀ x y, new x y =
    if left ≤ x ∧ x < left + width ∧ top ≤ y ∧ y < top + height then content (x - left) (y - top) else old x y

section

variable {old between new : Nat → Nat → α} {left width top height n m : Nat} {first second content : Nat → Nat → α}

theorem Patched.refl_width (old : Nat → Nat → α) (left top height : Nat) (content : Nat → Nat → α) :
    Patched old old left 0 top height content := by
  intro x y
  rw [if_neg (by omega)]

theorem Patched.refl_height (old : Nat → Nat → α) (left width top : Nat) (content : Nat → Nat → α) :
    Patched old old left width top 0 content := by
  intro x y
  rw [if_neg (by omega)]

theorem Patched.beside (begun : Patched old between left n top height first)
    (ended : Patched between new (left + n) m top height second) {total : Nat} (sum : total = n + m)
    (same : ∀ x y, x < n → content x y = first x y) (moved : ∀ x y, x < m → content (n + x) y = second x y) :
    Patched old new left total top height content := by
  intro x y
  rw [ended x y, begun x y, sum]
  by_cases rows : top ≤ y ∧ y < top + height
  · by_cases right : left + n ≤ x ∧ x < left + n + m
    · rw [if_pos (by omega), if_pos (by omega), ← moved _ _ (by omega)]
      congr 1
      omega
    · rw [if_neg (by omega)]
      by_cases column : left ≤ x ∧ x < left + n
      · rw [if_pos (by omega), if_pos (by omega), same _ _ (by omega)]
      · rw [if_neg (by omega), if_neg (by omega)]
  · rw [if_neg (by omega), if_neg (by omega), if_neg (by omega)]

theorem Patched.transpose (patched : Patched old new left width top height content) :
    Patched (fun y x => old x y) (fun y x => new x y) top height left width fun y x => content x y := by
  intro y x
  apply (patched x y).trans
  apply if_congr _ rfl rfl
  omega

theorem Patched.below (begun : Patched old between left width top n first)
    (ended : Patched between new left width (top + n) m second) {total : Nat} (sum : total = n + m)
    (same : ∀ x y, y < n → content x y = first x y) (moved : ∀ x y, y < m → content x (n + y) = second x y) :
    Patched old new left width top total content :=
  (begun.transpose.beside ended.transpose sum (fun y x => same x y) fun y x => moved x y).transpose

end

end Raster
