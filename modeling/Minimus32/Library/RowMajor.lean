import Mathlib.Data.List.Basic

namespace RowMajor

variable {α β : Type*}

/-- Rows of one length laid out one after another: cell `j` of row `i` is at `width * i + j`. -/
theorem getElem?_flatMap {row : α → List β} {width : Nat} {rows : List α}
    (even : ∀ a ∈ rows, (row a).length = width) (i : Nat) {j : Nat} (inside : j < width) :
    (rows.flatMap row)[width * i + j]? = rows[i]?.bind fun a => (row a)[j]? := by
  induction rows generalizing i with
  | nil => simp
  | cons a rows ih =>
    have first := even a (by simp)
    have later (i : Nat) := ih (fun other member => even other (by simp [member])) i
    rw [List.flatMap_cons]
    cases i with
    | zero =>
      rw [List.getElem?_append_left (by omega)]
      simp
    | succ i =>
      have shifted : width * (i + 1) + j - (row a).length = width * i + j := by
        rw [first, Nat.mul_succ]
        omega
      rw [List.getElem?_append_right (by rw [first, Nat.mul_succ]; omega), shifted, later i]
      simp

theorem length_flatMap {row : α → List β} {width : Nat} {rows : List α}
    (even : ∀ a ∈ rows, (row a).length = width) : (rows.flatMap row).length = width * rows.length := by
  induction rows with
  | nil => simp
  | cons a rows ih =>
    rw [List.flatMap_cons, List.length_append, even a (by simp), ih (fun other member => even other (by simp [member])),
      List.length_cons, Nat.mul_succ, Nat.add_comm]

theorem length_flatMap_le {row : α → List β} {width : Nat} {rows : List α}
    (bound : ∀ a ∈ rows, (row a).length ≤ width) : (rows.flatMap row).length ≤ width * rows.length := by
  induction rows with
  | nil => simp
  | cons a rows ih =>
    have first := bound a (by simp)
    have rest := ih (fun other member => bound other (by simp [member]))
    rw [List.flatMap_cons, List.length_append, List.length_cons, Nat.mul_succ]
    omega

/-- A piece that does not leave a row is the piece of that row. -/
theorem take_drop_flatMap {row : α → List β} {width : Nat} {rows : List α}
    (even : ∀ a ∈ rows, (row a).length = width) {p count : Nat} {a : α} (here : rows[p / width]? = some a)
    (inside : p % width + count ≤ width) :
    ((rows.flatMap row).drop p).take count = ((row a).drop (p % width)).take count := by
  apply List.ext_getElem?
  intro i
  rw [List.getElem?_take, List.getElem?_take]
  by_cases small : i < count
  · have within : p % width + i < width := by omega
    have place := getElem?_flatMap even (p / width) within
    rw [← Nat.add_assoc, Nat.div_add_mod, here] at place
    rw [if_pos small, if_pos small, List.getElem?_drop, List.getElem?_drop, place]
    rfl
  · rw [if_neg small, if_neg small]

/-- The cells of a rectangle in the order in which they are sent, column first. -/
def cells (width height : Nat) : List (Nat × Nat) :=
  (List.range height).flatMap fun y => (List.range width).map fun x => (x, y)

theorem length_cells (width height : Nat) : (cells width height).length = width * height := by
  have even : ∀ y ∈ List.range height, ((List.range width).map fun x => (x, y)).length = width := by simp
  rw [cells, length_flatMap even, List.length_range]

theorem getElem?_cells {width height x y : Nat} (column : x < width) (row : y < height) :
    (cells width height)[width * y + x]? = some (x, y) := by
  have even : ∀ y ∈ List.range height, ((List.range width).map fun x => (x, y)).length = width := by simp
  rw [cells, getElem?_flatMap even y column, List.getElem?_range row, Option.bind_some, List.getElem?_map,
    List.getElem?_range column]
  rfl

theorem mem_cells {width height : Nat} {cell : Nat × Nat} :
    cell ∈ cells width height ↔ cell.1 < width ∧ cell.2 < height := by
  obtain ⟨x, y⟩ := cell
  simp [cells, and_comm]

theorem cells_eq {width : Nat} (wide : 0 < width) (height : Nat) :
    cells width height = (List.range (width * height)).map fun p => (p % width, p / width) := by
  apply List.ext_getElem?
  intro p
  have even : ∀ y ∈ List.range height, ((List.range width).map fun x => (x, y)).length = width := by simp
  have inside := Nat.mod_lt p wide
  have place := getElem?_flatMap even (p / width) inside
  rw [Nat.div_add_mod] at place
  rw [cells, place]
  by_cases small : p < width * height
  · have row : p / width < height := Nat.div_lt_of_lt_mul small
    simp [small, row, inside]
  · have row : ¬ p / width < height := by
      rw [Nat.div_lt_iff_lt_mul wide, Nat.mul_comm]
      exact small
    simp [small, row]

end RowMajor
