import Mathlib.Data.List.GetD
import Minimus32.Library.Framing
import Minimus32.Library.RowMajor
import Minimus32.LcdTerminal.Terminal

namespace Minimus32.LcdTerminal

open Framing

def Terminal.row (t : Terminal) (r : Nat) : List UInt8 := (t.terminalBuffer[r]?.map Vector.toList).getD []

theorem Terminal.length_row (t : Terminal) {r : Nat} (inside : r < 17) : (t.row r).length = 22 := by
  have found : t.terminalBuffer[r]? = some (t.terminalBuffer.get ⟨r, inside⟩) := Vector.getElem?_eq_getElem inside
  rw [Terminal.row, found]
  exact Vector.length_toList

/-- Only the row of the head has changed, to `row`. -/
structure Terminal.Replaces (t : Terminal) (row : List UInt8) (after : Terminal) : Prop where
  head : after.terminalHead = t.terminalHead
  tail : after.terminalTail = t.terminalTail
  row : after.row t.terminalHead.toNat = row
  others : ∀ r ≠ t.terminalHead.toNat, after.row r = t.row r

theorem Terminal.store_replaces (t : Terminal) {x : Nat} (byte : UInt8) (inside : t.terminalHead.toNat < 17)
    (column : x < 22) :
    ∃ after, t.store x byte = some after ∧ after.terminalHeadXPos = t.terminalHeadXPos ∧
      t.Replaces ((t.row t.terminalHead.toNat).set x byte) after := by
  have found : t.terminalBuffer[t.terminalHead.toNat]? = some (t.terminalBuffer.get ⟨t.terminalHead.toNat, inside⟩) :=
    Vector.getElem?_eq_getElem inside
  refine ⟨_, dif_pos ⟨inside, column⟩, rfl, ⟨rfl, rfl, ?_, ?_⟩⟩
  · simp only [Terminal.row, Vector.getElem?_set, found]
    simp only [if_pos, Option.map_some, Option.getD_some]
    exact Vector.toList_set column
  · intro r other
    simp only [Terminal.row, Vector.getElem?_set, if_neg (Ne.symm other)]

theorem Terminal.Replaces.trans {t between after : Terminal} {row last : List UInt8} (first : t.Replaces row between)
    (second : between.Replaces last after) : t.Replaces last after := by
  have same := congrArg UInt8.toNat first.head
  constructor
  · exact second.head.trans first.head
  · exact second.tail.trans first.tail
  · rw [← same]
    exact second.row
  · intro r other
    rw [second.others r (by rwa [same]), first.others r other]

theorem toNat_succ_of_lt {x : UInt8} (small : x.toNat < 22) : (x + 1).toNat = x.toNat + 1 := by
  rw [UInt8.toNat_add]
  change (x.toNat + 1) % 256 = x.toNat + 1
  omega

theorem Terminal.markEnd_replaces (t : Terminal) (inside : t.terminalHead.toNat < 17) :
    ∃ after, t.markEnd = some after ∧ after.terminalHeadXPos = t.terminalHeadXPos ∧
      t.Replaces ((t.row t.terminalHead.toNat).set (t.terminalHeadXPos.toNat + 1) newline) after := by
  unfold Terminal.markEnd
  split
  · rename_i room
    apply t.store_replaces newline inside
    omega
  · rename_i last
    refine ⟨t, rfl, rfl, rfl, rfl, ?_, fun _ _ => rfl⟩
    rw [List.set_eq_of_length_le]
    rw [t.length_row inside]
    omega

theorem Terminal.putByte_replaces (t : Terminal) (buf : UInt8) (inside : t.terminalHead.toNat < 17)
    (bound : t.terminalHeadXPos.toNat ≤ 22) :
    ∃ after, t.putByte buf = some after ∧
      after.terminalHeadXPos.toNat = min (t.terminalHeadXPos.toNat + 1) 22 ∧
      t.Replaces ((t.row t.terminalHead.toNat).set t.terminalHeadXPos.toNat buf) after := by
  unfold Terminal.putByte
  split
  · rename_i room
    obtain ⟨stored, done, same, replaced⟩ := t.store_replaces buf inside room
    rw [done]
    refine ⟨_, rfl, ?_, { replaced with }⟩
    show (stored.terminalHeadXPos + 1).toNat = _
    rw [same, toNat_succ_of_lt room]
    omega
  · rename_i full
    refine ⟨t, rfl, by omega, rfl, rfl, ?_, fun _ _ => rfl⟩
    rw [List.set_eq_of_length_le]
    rw [t.length_row inside]
    omega

theorem set_pair {α : Type*} (held rest : List α) (a b : α) :
    ((held ++ rest).set (held.length + 1) b).set held.length a =
      (held ++ [a, b]).take (held ++ rest).length ++ rest.drop 2 := by
  cases rest with
  | nil =>
    rw [List.append_nil, List.set_eq_of_length_le (by simp), List.set_eq_of_length_le (by omega)]
    simp
  | cons first rest =>
    cases rest with
    | nil => simp [List.take_append]
    | cons second rest => simp [List.take_append]

/-- The interrupt's two writes, either of which may fall behind the row and is then left out. -/
theorem Terminal.put_replaces (t : Terminal) (buf : UInt8) (inside : t.terminalHead.toNat < 17)
    (bound : t.terminalHeadXPos.toNat ≤ 22) :
    ∃ after, (t.markEnd.bind fun t => t.putByte buf) = some after ∧
      after.terminalHeadXPos.toNat = min (t.terminalHeadXPos.toNat + 1) 22 ∧
      t.Replaces (((t.row t.terminalHead.toNat).set (t.terminalHeadXPos.toNat + 1) newline).set
        t.terminalHeadXPos.toNat buf) after := by
  obtain ⟨marked, done, same, replacedEnd⟩ := t.markEnd_replaces inside
  obtain ⟨after, put, position, replaced⟩ :=
    marked.putByte_replaces buf (by rwa [replacedEnd.head]) (by rwa [same])
  refine ⟨after, by rw [done]; exact put, by rw [position, same], ?_⟩
  have both := replacedEnd.trans replaced
  rw [replacedEnd.head, replacedEnd.row, same] at both
  exact both

/-- Behind what the row holds of the current line come the byte and a newline, as far as the row goes. -/
theorem Terminal.write_replaces (t : Terminal) (buf : UInt8) (inside : t.terminalHead.toNat < 17)
    {held rest : List UInt8} (split : t.row t.terminalHead.toNat = held ++ rest)
    (position : t.terminalHeadXPos.toNat = held.length) :
    ∃ after, (t.markEnd.bind fun t => t.putByte buf) = some after ∧
      after.terminalHeadXPos.toNat = min (held.length + 1) 22 ∧
      t.Replaces ((held ++ [buf, newline]).take 22 ++ rest.drop 2) after := by
  have whole : (held ++ rest).length = 22 := by rw [← split, t.length_row inside]
  have bound : held.length ≤ 22 := by
    rw [List.length_append] at whole
    omega
  obtain ⟨after, put, column, replaced⟩ := t.put_replaces buf inside (by rwa [position])
  rw [position] at column
  rw [split, position, set_pair, whole] at replaced
  exact ⟨after, put, column, replaced⟩

theorem toNat_nextRow {i : UInt8} {n : Nat} (position : i.toNat = n % 17) : (nextRow i).toNat = (n + 1) % 17 := by
  have succ : (i + 1).toNat = i.toNat + 1 := toNat_succ_of_lt (by omega)
  unfold nextRow
  split
  · show 0 = _
    omega
  · omega

theorem Terminal.tail_nextLine (t : Terminal) {m : Nat} (head : t.terminalHead.toNat = m % 17)
    (tail : t.terminalTail.toNat = (m - 16) % 17) : t.nextLine.terminalTail.toNat = (m + 1 - 16) % 17 := by
  have moved := toNat_nextRow head
  unfold Terminal.nextLine
  dsimp only
  split
  · rename_i caught
    have same := congrArg UInt8.toNat caught
    rw [moved, tail] at same
    rw [toNat_nextRow tail]
    omega
  · rename_i apart
    have other : (m + 1) % 17 ≠ (m - 16) % 17 := by
      rw [← moved, ← tail]
      exact fun same => apart (UInt8.toNat_inj.mp same)
    rw [tail]
    omega

theorem Terminal.nextLine_head (t : Terminal) : t.nextLine.terminalHead = nextRow t.terminalHead := by
  unfold Terminal.nextLine
  dsimp only
  split
  · rfl
  · rfl

theorem Terminal.nextLine_rest (t : Terminal) :
    t.nextLine.terminalHeadXPos = 0 ∧ t.nextLine.terminalBuffer = t.terminalBuffer := by
  unfold Terminal.nextLine
  dsimp only
  split
  · exact ⟨rfl, rfl⟩
  · exact ⟨rfl, rfl⟩

def EndsLine (buf : UInt8) : Prop := buf = newline

instance : DecidablePred EndsLine := fun buf => inferInstanceAs (Decidable (buf = newline))

/-- A line has no limit of its own; what does not fit its row is not shown. -/
def Unlimited (_ : List UInt8) : Prop := False

instance : DecidablePred Unlimited := fun _ => .isFalse id

/-- The lines a stream comes to: those ended by a newline, and the current one. -/
def lines (stream : List UInt8) : Frames UInt8 := frames EndsLine Unlimited stream

/-- Line `k` of them all; those not yet begun are empty. -/
def lineAt (f : Frames UInt8) (k : Nat) : List UInt8 := (f.complete ++ [f.pending]).getD k []

theorem lineAt_pending (f : Frames UInt8) : lineAt f f.complete.length = f.pending := by
  simp [lineAt]

theorem lineAt_append (f : Frames UInt8) (pending : List UInt8) {k : Nat} (other : k ≠ f.complete.length) :
    lineAt ⟨f.complete, pending⟩ k = lineAt f k := by
  unfold lineAt
  rcases Nat.lt_or_gt_of_ne other with earlier | later
  · rw [List.getD_append _ _ _ _ earlier, List.getD_append _ _ _ _ earlier]
  · rw [List.getD_eq_default _ _ (by simp; omega), List.getD_eq_default _ _ (by simp; omega)]

theorem lineAt_ended (f : Frames UInt8) (k : Nat) : lineAt ⟨f.complete ++ [f.pending], []⟩ k = lineAt f k := by
  unfold lineAt
  by_cases earlier : k < (f.complete ++ [f.pending]).length
  · rw [List.getD_append _ _ _ _ earlier]
  · rw [List.getD_append_right _ _ _ _ (Nat.le_of_not_lt earlier),
      List.getD_eq_default (f.complete ++ [f.pending]) _ (Nat.le_of_not_lt earlier)]
    cases k - (f.complete ++ [f.pending]).length with
    | zero => rfl
    | succ n => rfl

/-- The row holds the line, as far as it goes, and a newline behind it if there is room. -/
def Filled (row line : List UInt8) : Prop := (line ++ [newline]).take 22 <+: row

/-- The buffer after a stream of `m` newlines is a window of seventeen lines that ends with the current one, or
    with line 16 before that has begun. -/
structure Terminal.Holds (t : Terminal) (f : Frames UInt8) : Prop where
  head : t.terminalHead.toNat = f.complete.length % 17
  tail : t.terminalTail.toNat = (f.complete.length - 16) % 17
  xPos : t.terminalHeadXPos.toNat = min f.pending.length 22
  rows : ∀ k, f.complete.length - 16 ≤ k → k ≤ max f.complete.length 16 →
    (k = f.complete.length → f.pending ≠ [] ∨ f.complete.length ≤ 16) → Filled (t.row (k % 17)) (lineAt f k)

theorem Filled.take_prefix {row line : List UInt8} (filled : Filled row line) : line.take 22 <+: row := by
  apply List.IsPrefix.trans _ filled
  apply List.IsPrefix.take
  exact List.prefix_append line [newline]

theorem take_append_take {α : Type*} (n : Nat) (line behind : List α) :
    (line.take n ++ behind).take n = (line ++ behind).take n := by
  rcases Nat.le_total line.length n with short | long
  · rw [List.take_of_length_le short]
  · rw [List.take_append_of_le_length long, List.take_append_of_le_length (by simp; omega), List.take_take,
      Nat.min_self]

namespace Terminal.Holds

variable {t : Terminal} {f : Frames UInt8}

theorem inside (holds : t.Holds f) : t.terminalHead.toNat < 17 := by
  rw [holds.head]
  exact Nat.mod_lt _ (by decide)

/-- A new line overwrites what the row held before it. -/
theorem current (holds : t.Holds f) : f.pending.take 22 <+: t.row t.terminalHead.toNat := by
  by_cases empty : f.pending = []
  · rw [empty]
    exact List.nil_prefix
  · have filled := holds.rows f.complete.length (by omega) (by omega) (fun _ => .inl empty)
    rw [lineAt_pending] at filled
    rw [holds.head]
    exact filled.take_prefix

/-- Behind the current line come the byte and a newline, and every other row of the window is as it was. -/
theorem written (holds : t.Holds f) (buf : UInt8) :
    ∃ after, (t.markEnd.bind fun t => t.putByte buf) = some after ∧ after.terminalHead = t.terminalHead ∧
      after.terminalTail = t.terminalTail ∧
      after.terminalHeadXPos.toNat = min (f.pending.length + 1) 22 ∧
      (f.pending ++ [buf, newline]).take 22 <+: after.row (f.complete.length % 17) ∧
      ∀ r ≠ f.complete.length % 17, after.row r = t.row r := by
  obtain ⟨rest, split⟩ := holds.current
  have position : t.terminalHeadXPos.toNat = (f.pending.take 22).length := by
    rw [holds.xPos, List.length_take, Nat.min_comm]
  obtain ⟨after, done, column, replaced⟩ := t.write_replaces buf holds.inside split.symm position
  refine ⟨after, done, replaced.head, replaced.tail, ?_, ?_, ?_⟩
  · rw [column, List.length_take]
    omega
  · rw [← holds.head, replaced.row, take_append_take]
    exact List.prefix_append _ _
  · rw [← holds.head]
    exact replaced.others

theorem receive_more (holds : t.Holds f) {buf : UInt8} (more : buf ≠ newline) :
    ∃ after, t.receive buf = some after ∧ after.Holds ⟨f.complete, f.pending ++ [buf]⟩ := by
  obtain ⟨after, done, head, tail, column, row, others⟩ := holds.written buf
  refine ⟨after, by rw [Terminal.receive, done, Option.map_some, if_neg more], ?_⟩
  constructor
  · rw [head]
    exact holds.head
  · rw [tail]
    exact holds.tail
  · rw [column, List.length_append]
    rfl
  · intro k first last _
    dsimp only at first last
    by_cases here : k = f.complete.length
    · rw [here, lineAt_pending ⟨f.complete, f.pending ++ [buf]⟩, Filled, List.append_assoc]
      exact row
    · rw [lineAt_append f _ here, others _ (by omega)]
      exact holds.rows k first last (fun same => absurd same here)

theorem receive_end (holds : t.Holds f) :
    ∃ after, t.receive newline = some after ∧ after.Holds ⟨f.complete ++ [f.pending], []⟩ := by
  obtain ⟨written, done, head, tail, _, row, others⟩ := holds.written newline
  have headBefore := holds.head
  have tailBefore := holds.tail
  rw [← head] at headBefore
  rw [← tail] at tailBefore
  obtain ⟨start, same⟩ := written.nextLine_rest
  have sameRow (r : Nat) : written.nextLine.row r = written.row r := by rw [Terminal.row, same]; rfl
  refine ⟨written.nextLine, by rw [Terminal.receive, done, Option.map_some, if_pos rfl], ?_⟩
  constructor
  · rw [written.nextLine_head, toNat_nextRow headBefore, List.length_append]
    rfl
  · rw [written.tail_nextLine headBefore tailBefore, List.length_append]
    rfl
  · rw [start]
    rfl
  · intro k first last open'
    rw [List.length_append] at first last open'
    simp only [List.length_singleton, ne_eq, not_true_eq_false, false_or] at first last open'
    rw [lineAt_ended, sameRow]
    by_cases here : k = f.complete.length
    · rw [here, lineAt_pending]
      apply List.IsPrefix.trans _ row
      apply List.IsPrefix.take
      exact ⟨[newline], by simp⟩
    · rw [others _ (by omega)]
      exact holds.rows k (by omega) (by omega) (fun same => absurd same here)

end Terminal.Holds

theorem Terminal.Holds.receive {t : Terminal} {past : List UInt8} (holds : t.Holds (lines past)) (buf : UInt8) :
    ∃ after, t.receive buf = some after ∧ after.Holds (lines (past ++ [buf])) := by
  rw [lines, frames_append]
  by_cases ended : EndsLine buf
  · rw [Frames.push_end _ ended, show buf = newline from ended]
    exact holds.receive_end
  · rw [Frames.push_more _ ended id]
    exact holds.receive_more ended

theorem Terminal.Holds.receiveAll {t : Terminal} {past : List UInt8} (holds : t.Holds (lines past))
    (stream : List UInt8) : ∃ after, t.receiveAll stream = some after ∧ after.Holds (lines (past ++ stream)) := by
  induction stream generalizing t past with
  | nil => exact ⟨t, rfl, by rwa [List.append_nil]⟩
  | cons buf stream ih =>
    obtain ⟨between, done, holdsBetween⟩ := holds.receive buf
    obtain ⟨after, rest, holdsAfter⟩ := ih holdsBetween
    refine ⟨after, by rw [Terminal.receiveAll, done, Option.bind_some, rest], ?_⟩
    rwa [List.append_assoc] at holdsAfter

theorem lineAt_nil (k : Nat) : lineAt (lines []) k = [] := by
  cases k with
  | zero => rfl
  | succ k => rfl

theorem Terminal.init_holds (t : Terminal) : t.init.Holds (lines []) := by
  constructor
  · rfl
  · rfl
  · rfl
  · intro k _ last _
    have inside : k % 17 < 17 := Nat.mod_lt _ (by decide)
    have found : t.terminalBuffer[k % 17]? = some (t.terminalBuffer.get ⟨k % 17, inside⟩) :=
      Vector.getElem?_eq_getElem inside
    rw [lineAt_nil, Filled, Terminal.row, Terminal.init, Vector.getElem?_map, found, Option.map_some, Option.map_some,
      Option.getD_some, Vector.toList_set]
    generalize listed : (t.terminalBuffer.get ⟨k % 17, inside⟩).toList = row
    cases row with
    | nil => simp at listed
    | cons first row => exact ⟨row, rfl⟩

end Minimus32.LcdTerminal
