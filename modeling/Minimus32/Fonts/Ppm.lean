import Mathlib.Data.List.GetD
import Minimus32.Library.RowMajor

namespace Minimus32.Fonts

/-- A picture of red, green and blue components; `maxValue` is the number a PPM file gives for full brightness. -/
structure Picture where
  width : Nat
  height : Nat
  maxValue : Nat
  pixel : Nat → Nat → Nat × Nat × Nat

def components (colour : Nat × Nat × Nat) : List Nat := [colour.1, colour.2.1, colour.2.2]

/-- The numbers of its PPM file, in the order in which they stand there. -/
def Picture.tokens (p : Picture) : List Nat :=
  p.width :: p.height :: p.maxValue ::
    (RowMajor.cells p.width p.height).flatMap fun cell => components (p.pixel cell.1 cell.2)

/-- What is checked of a file's numbers after they are read; `none` where the script dies. -/
def readPPM (data : List Nat) : Option (List Nat) :=
  if data.length = data.getD 0 0 * data.getD 1 0 * 3 + 3 then some data else none

def getWidth (data : List Nat) : Nat := data.getD 0 0

def getHeight (data : List Nat) : Nat := data.getD 1 0

/-- An element that does not exist counts as zero. -/
def getPixel (data : List Nat) (x y type imageWidth : Nat) : Nat := data.getD ((x + y * imageWidth) * 3 + 3 + type) 0

theorem Picture.readPPM_tokens (p : Picture) : readPPM p.tokens = some p.tokens := by
  have three : ∀ cell ∈ RowMajor.cells p.width p.height, (components (p.pixel cell.1 cell.2)).length = 3 :=
    fun _ _ => rfl
  apply if_pos
  show (RowMajor.cells p.width p.height |>.flatMap _).length + 3 = p.width * p.height * 3 + 3
  rw [RowMajor.length_flatMap three, RowMajor.length_cells, Nat.mul_comm]

theorem Picture.getPixel_tokens (p : Picture) {x y type : Nat} (column : x < p.width) (row : y < p.height)
    (kind : type < 3) : getPixel p.tokens x y type p.width = (components (p.pixel x y)).getD type 0 := by
  have three : ∀ cell ∈ RowMajor.cells p.width p.height, (components (p.pixel cell.1 cell.2)).length = 3 :=
    fun _ _ => rfl
  have place : (x + y * p.width) * 3 + 3 + type = 3 * (p.width * y + x) + type + 3 := by
    rw [Nat.mul_comm y]
    omega
  rw [getPixel, place]
  show (List.flatMap _ _).getD (3 * (p.width * y + x) + type) 0 = _
  rw [List.getD_eq_getElem?_getD, RowMajor.getElem?_flatMap three _ kind, RowMajor.getElem?_cells column row,
    List.getD_eq_getElem?_getD]
  rfl

end Minimus32.Fonts
