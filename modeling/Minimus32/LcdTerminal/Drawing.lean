import Minimus32.LcdTerminal.Screen

namespace Minimus32.LcdTerminal

open Framing

/-- The text drawn in column `x` of row `y`. -/
def place (y x : Nat) (character : UInt8) : Access :=
  .draw (UInt8.ofNat (x * 6)) (UInt8.ofNat (y * 8)) character

/-- What `updateLine` does with a row that holds the line: each character is drawn and the cell after it read,
    then the rest of the row is drawn blank. -/
def lineAccesses (line : List UInt8) (y : Nat) : List Access :=
  .read 0 :: (((List.range (min line.length 22)).flatMap fun x => [place y x (line.getD x (ascii ' ')), .read (x + 1)]) ++
    (List.range' (min line.length 22) (22 - min line.length 22)).map fun x => place y x (ascii ' '))

theorem fillLine_eq (y n x : Nat) : fillLine y n x = (List.range' x n).map fun x => place y x (ascii ' ') := by
  induction n generalizing x with
  | zero => rfl
  | succ n ih =>
    rw [fillLine, ih, List.range'_succ, List.map_cons]
    rfl

theorem scanLine_eq {data : Nat → UInt8} {line : List UInt8} (plain : newline ∉ line)
    (agrees : ∀ x < line.length, x < 22 → data x = line.getD x (ascii ' '))
    (stops : line.length < 22 → data line.length = newline) (y : Nat) {n x : Nat} (columns : x + n = 22)
    (bound : x ≤ line.length) :
    scanLine data y n x (data x) =
      ((List.range' x (min line.length 22 - x)).flatMap fun x => [place y x (line.getD x (ascii ' ')), .read (x + 1)]) ++
        (List.range' (min line.length 22) (22 - min line.length 22)).map fun x => place y x (ascii ' ') := by
  induction n generalizing x with
  | zero =>
    have full : min line.length 22 = 22 := by omega
    rw [full, show x = 22 by omega]
    rfl
  | succ n ih =>
    rcases Nat.eq_or_lt_of_le bound with ended | more
    · have length : min line.length 22 = x := by omega
      rw [scanLine, if_pos (by rw [ended]; exact stops (by omega)), fillLine_eq, length, Nat.sub_self,
        show 22 - x = n + 1 by omega]
      rfl
    · have here := agrees x more (by omega)
      have character : data x ≠ newline := by
        rw [here, List.getD_eq_getElem _ _ more]
        exact fun same => plain (same ▸ List.getElem_mem more)
      have left : min line.length 22 - x = (min line.length 22 - (x + 1)) + 1 := by omega
      rw [scanLine, if_neg character, ih (by omega) more, left, List.range'_succ, List.flatMap_cons, here]
      rfl

theorem updateLine_eq {data : Nat → UInt8} {line : List UInt8} (plain : newline ∉ line)
    (agrees : ∀ x < line.length, x < 22 → data x = line.getD x (ascii ' '))
    (stops : line.length < 22 → data line.length = newline) (y : Nat) :
    updateLine data y = lineAccesses line y := by
  rw [updateLine, scanLine_eq plain agrees stops y rfl (Nat.zero_le _), lineAccesses, List.range_eq_range']
  rfl

theorem Filled.cell {row line : List UInt8} (filled : Filled row line) {x : Nat} (inside : x < line.length)
    (column : x < 22) : row.getD x 0 = line.getD x (ascii ' ') := by
  obtain ⟨rest, rfl⟩ := filled.take_prefix
  have short : x < (line.take 22).length := by rw [List.length_take]; omega
  rw [List.getD_append _ _ _ _ short, List.getD_eq_getElem _ _ short, List.getD_eq_getElem _ _ inside,
    List.getElem_take]

theorem Filled.stop {row line : List UInt8} (filled : Filled row line) (short : line.length < 22) :
    row.getD line.length 0 = newline := by
  rw [Filled, List.take_of_length_le (by simp; omega)] at filled
  obtain ⟨rest, rfl⟩ := filled
  simp

theorem Terminal.lineData_eq (t : Terminal) (beyond : Nat → UInt8) {r x : Nat} (inside : r < 17) (column : x < 22) :
    t.lineData beyond r x = (t.row r).getD x 0 := by
  have even : ∀ row ∈ t.terminalBuffer.toList, row.toList.length = 22 := fun row _ => row.length_toList
  have cell := RowMajor.getElem?_flatMap even r column
  have found : t.terminalBuffer[r]? = some (t.terminalBuffer.get ⟨r, inside⟩) := Vector.getElem?_eq_getElem inside
  rw [Terminal.lineData, Terminal.row, found, Nat.mul_comm r 22, List.getD_eq_getElem?_getD, cell,
    Vector.getElem?_toList, found, Option.bind_some, Option.map_some, Option.getD_some,
    List.getD_eq_getElem?_getD, List.getElem?_eq_getElem (by rw [Vector.length_toList]; exact column)]
  rfl

/-- The sixteen lines on the screen after a stream with `m` newlines. -/
def visible (f : Frames UInt8) : List (List UInt8) :=
  if f.complete.length ≤ 15 then
    f.complete ++ [f.pending] ++ List.replicate (15 - f.complete.length) []
  else f.complete.drop (f.complete.length - 16)

theorem getD_visible (f : Frames UInt8) {y : Nat} (inside : y < 16) :
    (visible f).getD y [] = lineAt f (f.complete.length - 16 + y) := by
  unfold visible lineAt
  split
  · rename_i few
    rw [show f.complete.length - 16 + y = y by omega]
    by_cases begun : y < (f.complete ++ [f.pending]).length
    · rw [List.getD_append _ _ _ _ begun]
    · rw [List.getD_append_right _ _ _ _ (Nat.le_of_not_lt begun),
        List.getD_eq_default (f.complete ++ [f.pending]) _ (Nat.le_of_not_lt begun), List.getD_eq_getElem?_getD,
        List.getElem?_replicate]
      split
      · rfl
      · rfl
  · rename_i many
    rw [List.getD_append _ _ _ _ (by omega), List.getD_eq_getElem?_getD, List.getElem?_drop,
      List.getD_eq_getElem?_getD]

theorem newline_not_mem_lineAt (stream : List UInt8) (k : Nat) : newline ∉ lineAt (lines stream) k := by
  obtain ⟨complete, pending⟩ := frames_not_ends EndsLine Unlimited stream
  have all : ∀ line ∈ (lines stream).complete ++ [(lines stream).pending], newline ∉ line := by
    intro line member found
    rcases List.mem_append.mp member with earlier | last
    · exact complete line earlier newline found rfl
    · rw [List.mem_singleton.mp last] at found
      exact pending newline found rfl
  unfold lineAt
  by_cases begun : k < ((lines stream).complete ++ [(lines stream).pending]).length
  · rw [List.getD_eq_getElem _ _ begun]
    exact all _ (List.getElem_mem begun)
  · rw [List.getD_eq_default _ _ (Nat.le_of_not_lt begun)]
    exact List.not_mem_nil

theorem Terminal.Holds.draw {t : Terminal} {stream : List UInt8} (holds : t.Holds (lines stream))
    (beyond : Nat → UInt8) :
    t.draw beyond = (List.range 16).flatMap fun y => lineAccesses ((visible (lines stream)).getD y []) y := by
  apply List.flatMap_congr
  intro y member
  have inside : y < 16 := List.mem_range.mp member
  have shown : (t.terminalTail.toNat + y) % 17 = ((lines stream).complete.length - 16 + y) % 17 := by
    rw [holds.tail]
    omega
  have filled := holds.rows ((lines stream).complete.length - 16 + y) (by omega) (by omega) (fun _ => .inr (by omega))
  have row : ((lines stream).complete.length - 16 + y) % 17 < 17 := Nat.mod_lt _ (by decide)
  rw [getD_visible _ inside, shown]
  apply updateLine_eq (newline_not_mem_lineAt stream _)
  · intro x length column
    rw [t.lineData_eq beyond row column]
    exact filled.cell length column
  · intro short
    rw [t.lineData_eq beyond row short]
    exact filled.stop short

def drawn : Access → Option (UInt8 × UInt8 × UInt8)
  | .read _ => none
  | .draw x y character => some (x, y, character)

theorem drawn_lineAccesses (line : List UInt8) (y : Nat) :
    (lineAccesses line y).filterMap drawn =
      (List.range 22).map fun x => (UInt8.ofNat (x * 6), UInt8.ofNat (y * 8), line.getD x (ascii ' ')) := by
  have columns : List.range 22 =
      List.range (min line.length 22) ++ List.range' (min line.length 22) (22 - min line.length 22) := by
    have whole := List.range'_append_1 (s := 0) (m := min line.length 22) (n := 22 - min line.length 22)
    rw [Nat.zero_add, Nat.add_sub_cancel' (Nat.min_le_right _ _)] at whole
    rw [List.range_eq_range', List.range_eq_range', whole]
  have blank : ∀ x ∈ List.range' (min line.length 22) (22 - min line.length 22),
      line.getD x (ascii ' ') = ascii ' ' := by
    intro x member
    rw [List.mem_range'_1] at member
    exact List.getD_eq_default _ _ (by omega)
  have texts : ((List.range (min line.length 22)).flatMap fun x =>
      [place y x (line.getD x (ascii ' ')), .read (x + 1)]).filterMap drawn =
      (List.range (min line.length 22)).map fun x =>
        (UInt8.ofNat (x * 6), UInt8.ofNat (y * 8), line.getD x (ascii ' ')) := by
    rw [List.filterMap_flatMap, List.map_eq_flatMap]
    rfl
  have blanks : ((List.range' (min line.length 22) (22 - min line.length 22)).map fun x =>
      place y x (ascii ' ')).filterMap drawn =
      (List.range' (min line.length 22) (22 - min line.length 22)).map fun x =>
        (UInt8.ofNat (x * 6), UInt8.ofNat (y * 8), line.getD x (ascii ' ')) := by
    rw [List.filterMap_map, List.map_congr_left (fun x member => by rw [blank x member]), ← List.filterMap_eq_map]
    rfl
  rw [columns, List.map_append, ← texts, ← blanks, ← List.filterMap_append]
  rfl

/-- After any stream, a round of the main loop draws the sixteen visible lines in sixteen rows of twenty-two
    columns, each line cut or filled with blanks to that; and the indices are inside the buffer. -/
theorem terminal_contents (t : Terminal) (beyond : Nat → UInt8) (stream : List UInt8) :
    ∃ after, t.init.receiveAll stream = some after ∧
      (after.draw beyond).filterMap drawn = (List.range 16).flatMap (fun y => (List.range 22).map fun x =>
        (UInt8.ofNat (x * 6), UInt8.ofNat (y * 8), ((visible (lines stream)).getD y []).getD x (ascii ' '))) ∧
      after.terminalHead < 17 ∧ after.terminalTail < 17 ∧ after.terminalHeadXPos ≤ 22 := by
  obtain ⟨after, done, holds⟩ := t.init_holds.receiveAll stream
  rw [List.nil_append] at holds
  refine ⟨after, done, ?_, ?_, ?_, ?_⟩
  · rw [holds.draw beyond, List.filterMap_flatMap]
    exact congrArg (fun row => (List.range 16).flatMap row) (funext fun y => drawn_lineAccesses _ y)
  · rw [UInt8.lt_iff_toNat_lt]
    exact holds.inside
  · rw [UInt8.lt_iff_toNat_lt, holds.tail]
    exact Nat.mod_lt _ (by decide)
  · rw [UInt8.le_iff_toNat_le, holds.xPos]
    exact Nat.min_le_right _ _

end Minimus32.LcdTerminal
