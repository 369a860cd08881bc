import Minimus32.LcdTerminal.Agreement
import Minimus32.LcdTerminal.Loop

namespace Minimus32.LcdTerminal

open Display Framing

/-- `bitfont_6x8`, as `6x8.font` describes it. -/
def bitfont6x8 (bits : Flash) : Bitfont := ⟨6, 8, 6, 32, 126, bits⟩

/-- A read stays in the row, and a character drawn has a glyph, all of whose bytes that `drawChar` reads are among
    the 95 * 6 of the table. -/
def Access.InRange (bits : Flash) : Access → Prop
  | .read cell => cell < 22
  | .draw x y character =>
    (bitfont6x8 bits).start ≤ character ∧ character ≤ (bitfont6x8 bits).stop ∧
      ∃ fuel actions, drawChar fuel x y character (bitfont6x8 bits) 0x0fff 0 = some actions ∧
        ∀ offset ∈ actions.filterMap Action.fetched, offset.toNat < 95 * 6

/-- The last glyph is left out: behind it `drawChar` reads one byte too many. -/
def Drawable (character : UInt8) : Prop := 32 ≤ character.toNat ∧ character.toNat ≤ 125

instance : DecidablePred Drawable :=
  fun character => inferInstanceAs (Decidable (32 ≤ character.toNat ∧ character.toNat ≤ 125))

theorem toNat_offset (bits : Flash) {character : UInt8} (first : 32 ≤ character.toNat) (last : character.toNat ≤ 126)
    {b : Nat} (small : b ≤ 6) :
    ((bitfont6x8 bits).offset character + UInt16.ofNat b).toNat = 6 * (character.toNat - 32) + b := by
  have above : (32 : UInt16) ≤ character.toUInt16 := by
    rw [UInt16.le_iff_toNat_le, UInt8.toNat_toUInt16]
    exact first
  have place : (character.toUInt16 - 32).toNat = character.toNat - 32 := by
    rw [UInt16.toNat_sub_of_le _ _ above, UInt8.toNat_toUInt16]
    rfl
  change ((6 : UInt16) * (character.toUInt16 - 32) + UInt16.ofNat b).toNat = _
  rw [UInt16.toNat_add, UInt16.toNat_mul, place, UInt16.toNat_ofNat']
  change (6 * (character.toNat - 32) % 65536 + b % 65536) % 65536 = _
  omega

theorem draw_inRange_iff (bits : Flash) (x y character : UInt8) :
    (Access.draw x y character).InRange bits ↔ Drawable character := by
  have count : ((bitfont6x8 bits).width * (bitfont6x8 bits).height).toNat = 2 * 24 := rfl
  constructor
  · rintro ⟨first, last, fuel, actions, drawn, inside⟩
    have low : 32 ≤ character.toNat := UInt8.le_iff_toNat_le.mp first
    have high : character.toNat ≤ 126 := UInt8.le_iff_toNat_le.mp last
    rw [fetched_drawChar x y character _ _ _ count drawn] at inside
    have prefetched := inside _ (List.mem_map_of_mem (List.mem_range.mpr (show 6 < 24 / 4 + 1 by decide)))
    rw [toNat_offset bits low high (by decide)] at prefetched
    exact ⟨low, by omega⟩
  · rintro ⟨low, high⟩
    obtain ⟨_, _, ⟨actions, drawn⟩, _⟩ := drawChar_even x y character (bitfont6x8 bits) 0x0fff 0 count
    refine ⟨UInt8.le_iff_toNat_le.mpr low, UInt8.le_iff_toNat_le.mpr (show _ ≤ 126 by omega), _, actions, drawn, ?_⟩
    intro offset member
    rw [fetched_drawChar x y character _ _ _ count drawn] at member
    obtain ⟨b, fetched, rfl⟩ := List.mem_map.mp member
    have small : b < 7 := List.mem_range.mp fetched
    rw [toNat_offset bits low (by omega) (by omega)]
    omega

theorem drawable_space : Drawable (ascii ' ') := by decide

/-- A line that leaves room for its newline, in characters that can be drawn. -/
def Fits (line : List UInt8) : Prop := line.length < 22 ∧ ∀ character ∈ line, Drawable character

instance : DecidablePred Fits :=
  fun line => inferInstanceAs (Decidable (line.length < 22 ∧ ∀ character ∈ line, Drawable character))

theorem Fits.of_begun {line longer : List UInt8} (fits : Fits longer) (begun : line <+: longer) : Fits line :=
  ⟨Nat.lt_of_le_of_lt begun.length_le fits.1, fun character member => fits.2 character (begun.subset member)⟩

/-- From cell `x` on the row holds characters that can be drawn, up to a newline that is still in it. -/
def Ends (row : List UInt8) (x : Nat) : Prop :=
  ∃ last, x ≤ last ∧ last < 22 ∧ row.getD last 0 = newline ∧
    ∀ cell, x ≤ cell → cell < last → row.getD cell 0 = newline ∨ Drawable (row.getD cell 0)

theorem Ends.bound {row : List UInt8} {x : Nat} (ends : Ends row x) : x < 22 := by
  obtain ⟨last, first, inside, _, _⟩ := ends
  omega

theorem Ends.cell {row : List UInt8} {x : Nat} (ends : Ends row x) :
    row.getD x 0 = newline ∨ Drawable (row.getD x 0) ∧ Ends row (x + 1) := by
  obtain ⟨last, first, inside, ended, drawable⟩ := ends
  rcases Nat.eq_or_lt_of_le first with here | later
  · left
    rw [here]
    exact ended
  · rcases drawable x (Nat.le_refl x) later with newline | character
    · exact .inl newline
    · exact .inr ⟨character, last, later, inside, ended, fun cell bound => drawable cell (by omega)⟩

theorem getD_set_pair {row : List UInt8} (length : row.length = 22) (p : Nat) (buf : UInt8) {cell : Nat}
    (inside : cell < 22) :
    ((row.set (p + 1) newline).set p buf).getD cell 0 =
      if cell = p then buf else if cell = p + 1 then newline else row.getD cell 0 := by
  rw [List.getD_eq_getElem?_getD, List.getElem?_set, List.length_set, List.getElem?_set, length]
  split_ifs
  all_goals first | omega | rfl

/-- Wherever `main` is in the row, a write by the interrupt leaves it a newline to stop at. -/
theorem Ends.write {row : List UInt8} (length : row.length = 22) {x : Nat} (ends : Ends row x) {p : Nat} {buf : UInt8}
    (fits : buf = newline ∧ p < 22 ∨ Drawable buf ∧ p < 21) :
    Ends ((row.set (p + 1) newline).set p buf) x := by
  obtain ⟨last, first, inside, ended, drawable⟩ := ends
  have cells {cell : Nat} (small : cell < 22) := getD_set_pair length p buf small
  by_cases apart : last < p ∨ p + 1 < x
  · refine ⟨last, first, inside, ?_, ?_⟩
    · rw [cells inside, if_neg (by omega), if_neg (by omega)]
      exact ended
    · intro cell bound earlier
      rw [cells (by omega), if_neg (by omega), if_neg (by omega)]
      exact drawable cell bound earlier
  by_cases room : p < 21
  · refine ⟨p + 1, by omega, by omega, ?_, ?_⟩
    · rw [cells (by omega), if_neg (by omega), if_pos rfl]
    · intro cell bound earlier
      rw [cells (by omega)]
      split_ifs with here
      · exact fits.imp And.left And.left
      · omega
      · exact drawable cell bound (by omega)
  · rcases fits with ⟨rfl, edge⟩ | ⟨_, short⟩
    · refine ⟨p, by omega, edge, ?_, ?_⟩
      · rw [cells edge, if_pos rfl]
      · intro cell bound earlier
        rw [cells (by omega), if_neg (by omega), if_neg (by omega)]
        exact drawable cell bound (by omega)
    · exact absurd short room

theorem Terminal.receive_row {t after : Terminal} {buf : UInt8} (done : t.receive buf = some after)
    (inside : t.terminalHead.toNat < 17) (bound : t.terminalHeadXPos.toNat ≤ 22) :
    after.row t.terminalHead.toNat = ((t.row t.terminalHead.toNat).set (t.terminalHeadXPos.toNat + 1) newline).set
      t.terminalHeadXPos.toNat buf ∧ ∀ r ≠ t.terminalHead.toNat, after.row r = t.row r := by
  obtain ⟨written, put, _, replaced⟩ := t.put_replaces buf inside bound
  rw [Terminal.receive, put, Option.map_some] at done
  have same (r : Nat) : after.row r = written.row r := by
    cases done
    split
    · rw [Terminal.row, written.nextLine_rest.2]
      rfl
    · rfl
  constructor
  · rw [same, replaced.row]
  · intro r other
    rw [same, replaced.others r other]

/-- What `main` will do with the character it has read is in range, and so is its next read. -/
def Loop.Sound (t : Terminal) : Loop → Prop
  | .call _ | .fill _ _ => True
  | .scan row _ x buf => row < 17 ∧ (buf = newline ∨ Drawable buf ∧ Ends (t.row row) (x + 1))

structure Machine.Sound (m : Machine) (stream : List UInt8) : Prop where
  holds : m.terminal.Holds (lines stream)
  rows : ∀ r < 17, Ends (m.terminal.row r) 0
  loop : m.loop.Sound m.terminal

theorem fits_write {stream : List UInt8} {buf : UInt8} (fits : ∀ line ∈ (lines (stream ++ [buf])).all, Fits line) :
    buf = newline ∧ (lines stream).pending.length < 22 ∨ Drawable buf ∧ (lines stream).pending.length < 21 := by
  rw [lines, frames_append] at fits
  by_cases ended : EndsLine buf
  · rw [Frames.push_end _ ended] at fits
    have line := fits (lines stream).pending (by simp [Frames.all, lines])
    exact .inl ⟨ended, line.1⟩
  · rw [Frames.push_more _ ended id] at fits
    have line := fits ((lines stream).pending ++ [buf]) (by simp [Frames.all, lines])
    have length := line.1
    rw [List.length_append, List.length_singleton] at length
    exact .inr ⟨line.2 buf (by simp), by omega⟩

theorem Loop.Sound.receive {t after : Terminal} {l : Loop} (sound : l.Sound t)
    (kept : ∀ r < 17, ∀ x, Ends (t.row r) x → Ends (after.row r) x) : l.Sound after := by
  cases l with
  | call y => trivial
  | fill y x => trivial
  | scan row y x buf =>
    obtain ⟨inside, character⟩ := sound
    refine ⟨inside, ?_⟩
    rcases character with ended | ⟨drawable, ends⟩
    · exact .inl ended
    · exact .inr ⟨drawable, kept row inside (x + 1) ends⟩

theorem Machine.Sound.receive {m : Machine} {stream : List UInt8} (sound : m.Sound stream) {buf : UInt8}
    (fits : ∀ line ∈ (lines (stream ++ [buf])).all, Fits line) :
    ∃ after, m.terminal.receive buf = some after ∧ Machine.Sound { m with terminal := after } (stream ++ [buf]) := by
  obtain ⟨after, done, holds⟩ := sound.holds.receive buf
  have position := sound.holds.xPos
  have column : m.terminal.terminalHeadXPos.toNat = (lines stream).pending.length := by
    have room := fits_write fits
    omega
  obtain ⟨written, others⟩ := Terminal.receive_row done sound.holds.inside (by omega)
  have kept : ∀ r < 17, ∀ x, Ends (m.terminal.row r) x → Ends (after.row r) x := by
    intro r inside x ends
    by_cases head : r = m.terminal.terminalHead.toNat
    · rw [head] at ends
      rw [head, written, column]
      exact ends.write (m.terminal.length_row sound.holds.inside) (fits_write fits)
    · rw [others r head]
      exact ends
  exact ⟨after, done, holds, fun r inside => kept r inside 0 (sound.rows r inside), sound.loop.receive kept⟩

theorem Machine.Sound.main {m : Machine} {stream : List UInt8} (sound : m.Sound stream) (bits : Flash)
    (beyond : Nat → UInt8) :
    (m.loop.step m.terminal beyond).1.Sound m.terminal ∧
      ∀ a ∈ (m.loop.step m.terminal beyond).2, a.InRange bits := by
  obtain ⟨t, l⟩ := m
  have loop := sound.loop
  cases l with
  | call y =>
    have inside : (t.terminalTail.toNat + y) % 17 < 17 := Nat.mod_lt _ (by decide)
    have cell := (sound.rows _ inside).cell
    rw [← t.lineData_eq beyond inside (by decide)] at cell
    exact ⟨⟨inside, cell⟩, by simp [Loop.step, Access.InRange]⟩
  | scan row y x buf =>
    obtain ⟨inside, character⟩ := loop
    unfold Loop.step
    dsimp only
    split
    · rename_i more
      rcases character with ended | ⟨drawable, ends⟩
      · exact absurd ended more.2
      have cell := ends.cell
      rw [← t.lineData_eq beyond inside ends.bound] at cell
      refine ⟨⟨inside, cell⟩, ?_⟩
      intro a member
      rcases List.mem_pair.mp member with rfl | rfl
      · exact (draw_inRange_iff bits _ _ buf).mpr drawable
      · exact ends.bound
    · exact ⟨trivial, by simp⟩
  | fill y x =>
    unfold Loop.step
    dsimp only
    split
    · refine ⟨trivial, ?_⟩
      intro a member
      rw [List.mem_singleton.mp member]
      exact (draw_inRange_iff bits _ _ _).mpr drawable_space
    · exact ⟨trivial, by simp⟩

theorem Machine.Sound.step (bits : Flash) (beyond : Nat → UInt8) (m : Machine) (past : List Event) (e : Event)
    (sound : m.Sound (past.filterMap Event.received))
    (fits : ∀ line ∈ (lines ((past ++ [e]).filterMap Event.received)).all, Fits line) :
    ∃ after seen, m.step beyond e = some (after, seen) ∧
      after.Sound ((past ++ [e]).filterMap Event.received) ∧ ∀ a ∈ seen, a.InRange bits := by
  rw [List.filterMap_append] at fits ⊢
  cases e with
  | receive buf =>
    obtain ⟨after, done, soundAfter⟩ := sound.receive fits
    exact ⟨_, [], congrArg (Option.map _) done, soundAfter, by simp⟩
  | main =>
    obtain ⟨soundLoop, inRange⟩ := sound.main bits beyond
    refine ⟨_, _, rfl, ?_, inRange⟩
    rw [show [Event.main].filterMap Event.received = [] from rfl, List.append_nil]
    exact { sound with loop := soundLoop }

theorem Machine.init_sound (t : Terminal) : Machine.Sound ⟨t.init, .call 0⟩ [] where
  holds := t.init_holds
  rows := by
    intro r inside
    have filled := t.init_holds.rows r (Nat.zero_le r) (by
      change r ≤ max 0 16
      omega) (fun _ => .inr (Nat.zero_le 16))
    rw [Nat.mod_eq_of_lt inside, lineAt_nil] at filled
    exact ⟨0, Nat.le_refl 0, by decide, filled.stop (by decide), by omega⟩
  loop := trivial

theorem Machine.Sound.run (t : Terminal) (bits : Flash) (beyond : Nat → UInt8) (events : List Event)
    (fits : ∀ line ∈ (lines (events.filterMap Event.received)).all, Fits line) :
    ∃ final trace, TracedRun.run (Machine.step beyond) ⟨t.init, .call 0⟩ events = some (final, trace) ∧
      ∀ a ∈ trace, a.InRange bits := by
  have closed : ∀ past more : List Event, (∀ line ∈ (lines ((past ++ more).filterMap Event.received)).all, Fits line) →
      ∀ line ∈ (lines (past.filterMap Event.received)).all, Fits line := by
    intro past more every line member
    obtain ⟨longer, found, begun⟩ := frames_all EndsLine Unlimited _ (more.filterMap Event.received) member
    rw [← List.filterMap_append] at found
    exact (every longer found).of_begun begun
  obtain ⟨final, trace, finished, _, inRange⟩ := TracedRun.run_closed
    (fun m past => Machine.Sound m (past.filterMap Event.received))
    (fun past => ∀ line ∈ (lines (past.filterMap Event.received)).all, Fits line) (Access.InRange bits) closed
    (Machine.Sound.step bits beyond) events ⟨t.init, .call 0⟩ [] (Machine.init_sound t) fits
  exact ⟨final, trace, finished, inRange⟩

theorem mem_lineAccesses {line : List UInt8} {y : Nat} {a : Access} :
    a ∈ lineAccesses line y ↔ a = .read 0 ∨
      (∃ x < min line.length 22, a = place y x (line.getD x (ascii ' ')) ∨ a = .read (x + 1)) ∨
      ∃ x, min line.length 22 ≤ x ∧ x < 22 ∧ a = place y x (ascii ' ') := by
  rw [lineAccesses, List.mem_cons, List.mem_append, List.mem_flatMap, List.mem_map]
  simp only [List.mem_range, List.mem_pair, List.mem_range'_1]
  grind

theorem lineAccesses_inRange_iff (bits : Flash) (line : List UInt8) (y : Nat) :
    (∀ a ∈ lineAccesses line y, a.InRange bits) ↔ Fits line := by
  constructor
  · intro inRange
    have short : line.length < 22 := by
      by_contra long
      -- Behind the last cell of a full row `updateLine` reads on.
      exact absurd (inRange (.read (21 + 1)) (mem_lineAccesses.mpr (.inr (.inl ⟨21, by omega, .inr rfl⟩))))
        (Nat.lt_irrefl 22)
    refine ⟨short, ?_⟩
    intro character member
    obtain ⟨x, inside, rfl⟩ := List.getElem_of_mem member
    have drawn := inRange (place y x (line.getD x (ascii ' ')))
      (mem_lineAccesses.mpr (.inr (.inl ⟨x, by omega, .inl rfl⟩)))
    rw [List.getD_eq_getElem _ _ inside] at drawn
    exact (draw_inRange_iff bits _ _ _).mp drawn
  · rintro ⟨short, drawable⟩ a member
    rcases mem_lineAccesses.mp member with rfl | ⟨x, inside, rfl | rfl⟩ | ⟨x, _, _, rfl⟩
    · exact Nat.zero_lt_succ 21
    · apply (draw_inRange_iff bits _ _ _).mpr
      rw [List.getD_eq_getElem _ _ (by omega)]
      exact drawable _ (List.getElem_mem _)
    · show x + 1 < 22
      omega
    · exact (draw_inRange_iff bits _ _ _).mpr drawable_space

theorem length_visible (f : Frames UInt8) : (visible f).length = 16 := by
  unfold visible
  split
  · simp
    omega
  · simp
    omega

theorem Terminal.Holds.draw_inRange_iff {t : Terminal} {stream : List UInt8} (holds : t.Holds (lines stream))
    (bits : Flash) (beyond : Nat → UInt8) :
    (∀ a ∈ t.draw beyond, a.InRange bits) ↔ ∀ line ∈ visible (lines stream), Fits line := by
  rw [holds.draw beyond]
  constructor
  · intro inRange line member
    obtain ⟨y, inside, rfl⟩ := List.getElem_of_mem member
    have row : y ∈ List.range 16 := List.mem_range.mpr (by rwa [length_visible] at inside)
    apply (lineAccesses_inRange_iff bits _ y).mp
    intro a found
    apply inRange a (List.mem_flatMap.mpr ⟨y, row, ?_⟩)
    rwa [List.getD_eq_getElem _ _ inside]
  · intro fits a member
    obtain ⟨y, row, found⟩ := List.mem_flatMap.mp member
    have inside : y < (visible (lines stream)).length := by
      rw [length_visible]
      exact List.mem_range.mp row
    rw [List.getD_eq_getElem _ _ inside] at found
    exact (lineAccesses_inRange_iff bits _ y).mpr (fits _ (List.getElem_mem inside)) a found

/-- As long as every line received is shorter than the row and has only characters up to `}`, everything `main`
    reads and draws is in range, wherever the interrupt comes; and the round that follows a stream is in range
    exactly when the lines on the screen are of that kind. -/
theorem terminal_reads (t : Terminal) (bits : Flash) (beyond : Nat → UInt8) :
    (∀ events, (∀ line ∈ (lines (events.filterMap Event.received)).all, Fits line) →
      ∃ final trace, TracedRun.run (Machine.step beyond) ⟨t.init, .call 0⟩ events = some (final, trace) ∧
        ∀ a ∈ trace, a.InRange bits) ∧
    ∀ stream, ∃ n after trace,
      TracedRun.run (Machine.step beyond) ⟨t.init, .call 0⟩ (stream.map .receive ++ List.replicate n .main) =
        some (⟨after, .call 0⟩, trace) ∧
      ((∀ a ∈ trace, a.InRange bits) ↔ ∀ line ∈ visible (lines stream), Fits line) := by
  constructor
  · exact Machine.Sound.run t bits beyond
  · intro stream
    obtain ⟨after, done, holds⟩ := t.init_holds.receiveAll stream
    rw [List.nil_append] at holds
    obtain ⟨n, round⟩ := reaches_draw after beyond
    have whole := TracedRun.run_append (run_receive done beyond (.call 0)) round
    exact ⟨n, after, [] ++ after.draw beyond, whole, holds.draw_inRange_iff bits beyond⟩

def blankTerminal : Terminal := ⟨Vector.replicate 17 (Vector.replicate 22 0), 0, 0, 0⟩

def greeting : List Event :=
  [.main, .receive (ascii 'H'), .main, .receive (ascii 'i'), .main, .receive newline, .main]

theorem terminal_reads_greeting :
    (∀ line ∈ (lines (greeting.filterMap Event.received)).all, Fits line) ∧
    ∃ final trace, TracedRun.run (Machine.step fun _ => 0) ⟨blankTerminal.init, .call 0⟩ greeting =
        some (final, trace) ∧
      ∀ a ∈ trace, a.InRange fun _ => 0 :=
  ⟨by decide +kernel, (terminal_reads blankTerminal (fun _ => 0) fun _ => 0).1 greeting (by decide +kernel)⟩

def shown (stream : List UInt8) : List Access :=
  ((blankTerminal.init.receiveAll stream).map fun t => t.draw fun _ => 0).getD []

/-- A line that fills its row, a control character and the font's last character. -/
theorem terminal_reads_beyond :
    (∃ a ∈ shown (List.replicate 22 (ascii 'A')), ¬ a.InRange fun _ => 0) ∧
    (∃ a ∈ shown [7], ¬ a.InRange fun _ => 0) ∧ ∃ a ∈ shown [ascii '~'], ¬ a.InRange fun _ => 0 := by
  refine ⟨⟨.read 22, by decide +kernel, Nat.lt_irrefl 22⟩, ⟨.draw 0 0 7, by decide +kernel, ?_⟩,
    ⟨.draw 0 0 126, by decide +kernel, ?_⟩⟩
  · rw [draw_inRange_iff]
    decide
  · rw [draw_inRange_iff]
    decide

end Minimus32.LcdTerminal
