import Minimus32.Library.TracedRun
import Minimus32.LcdTerminal.Drawing

namespace Minimus32.LcdTerminal

/-- Where `main` is between two of its reads: about to call `updateLine` for row `y` of the display, in that
    function's first loop with a pointer to `row`, or in its second. -/
inductive Loop where
  | call (y : Nat)
  | scan (row y x : Nat) (buf : UInt8)
  | fill (y x : Nat)

def nextY (y : Nat) : Nat := if y + 1 < 16 then y + 1 else 0

/-- `main` up to its next read, or through one round of a loop that reads nothing. -/
def Loop.step (t : Terminal) (beyond : Nat → UInt8) : Loop → Loop × List Access
  | .call y =>
    let row := (t.terminalTail.toNat + y) % 17
    (.scan row y 0 (t.lineData beyond row 0), [.read 0])
  | .scan row y x buf =>
    if x < 22 ∧ buf ≠ newline then (.scan row y (x + 1) (t.lineData beyond row (x + 1)), [place y x buf, .read (x + 1)])
    else (.fill y x, [])
  | .fill y x => if x < 22 then (.fill y (x + 1), [place y x (ascii ' ')]) else (.call (nextY y), [])

/-- The interrupt may come between any two steps of `main`. -/
inductive Event where
  | receive (buf : UInt8)
  | main

def Event.received : Event → Option UInt8
  | .receive buf => some buf
  | .main => none

structure Machine where
  terminal : Terminal
  loop : Loop

def Machine.step (beyond : Nat → UInt8) (m : Machine) : Event → Option (Machine × List Access)
  | .receive buf => (m.terminal.receive buf).map fun t => ({ m with terminal := t }, [])
  | .main => some ({ m with loop := (m.loop.step m.terminal beyond).1 }, (m.loop.step m.terminal beyond).2)

section

variable (t : Terminal) (beyond : Nat → UInt8)

/-- Without an interrupt in between, `main` gets from one place to another and makes these accesses. -/
def Reaches (start : Loop) (accesses : List Access) (stop : Loop) : Prop :=
  ∃ n, TracedRun.run (Machine.step beyond) ⟨t, start⟩ (List.replicate n .main) = some (⟨t, stop⟩, accesses)

variable {t beyond}

theorem Reaches.refl (start : Loop) : Reaches t beyond start [] start := ⟨0, rfl⟩

theorem Reaches.trans {start between stop : Loop} {first second : List Access}
    (begun : Reaches t beyond start first between) (ended : Reaches t beyond between second stop) :
    Reaches t beyond start (first ++ second) stop := by
  obtain ⟨n, begun⟩ := begun
  obtain ⟨m, ended⟩ := ended
  refine ⟨n + m, ?_⟩
  rw [List.replicate_add]
  exact TracedRun.run_append begun ended

variable (t beyond)

theorem Reaches.step (start : Loop) :
    Reaches t beyond start (start.step t beyond).2 (start.step t beyond).1 := by
  refine ⟨1, TracedRun.run_cons_eq_some.mpr ⟨_, _, [], rfl, rfl, ?_⟩⟩
  rw [List.append_nil]

theorem reaches_fillLine (y : Nat) {n x : Nat} (columns : x + n = 22) :
    Reaches t beyond (.fill y x) (fillLine y n x) (.call (nextY y)) := by
  induction n generalizing x with
  | zero =>
    have last := Reaches.step t beyond (.fill y x)
    rwa [Loop.step, if_neg (by omega)] at last
  | succ n ih =>
    have here := Reaches.step t beyond (.fill y x)
    rw [Loop.step, if_pos (by omega)] at here
    exact here.trans (ih (by omega))

theorem reaches_scanLine (row y : Nat) {n x : Nat} (columns : x + n = 22) (buf : UInt8) :
    Reaches t beyond (.scan row y x buf) (scanLine (t.lineData beyond row) y n x buf) (.call (nextY y)) := by
  induction n generalizing x buf with
  | zero =>
    have last := Reaches.step t beyond (.scan row y x buf)
    rw [Loop.step, if_neg (by omega)] at last
    exact last.trans (reaches_fillLine t beyond y columns)
  | succ n ih =>
    have here := Reaches.step t beyond (.scan row y x buf)
    rw [scanLine]
    split
    · rename_i ended
      rw [Loop.step, if_neg (fun more => more.2 ended)] at here
      exact here.trans (reaches_fillLine t beyond y columns)
    · rename_i more
      rw [Loop.step, if_pos ⟨by omega, more⟩] at here
      exact here.trans (ih (by omega) _)

theorem reaches_updateLine (y : Nat) :
    Reaches t beyond (.call y) (updateLine (t.lineData beyond ((t.terminalTail.toNat + y) % 17)) y)
      (.call (nextY y)) := by
  have scanned := reaches_scanLine t beyond ((t.terminalTail.toNat + y) % 17) y (show 0 + 22 = 22 from rfl)
    (t.lineData beyond ((t.terminalTail.toNat + y) % 17) 0)
  exact (Reaches.step t beyond (.call y)).trans scanned

theorem reaches_lines {n : Nat} (bound : n < 16) :
    Reaches t beyond (.call 0) ((List.range n).flatMap fun y =>
      updateLine (t.lineData beyond ((t.terminalTail.toNat + y) % 17)) y) (.call n) := by
  induction n with
  | zero => exact .refl _
  | succ n ih =>
    have next : nextY n = n + 1 := if_pos bound
    have line := reaches_updateLine t beyond n
    rw [next] at line
    rw [List.range_succ, List.flatMap_append, List.flatMap_singleton]
    exact (ih (by omega)).trans line

/-- The steps of a whole round make the accesses of `draw`. -/
theorem reaches_draw : Reaches t beyond (.call 0) (t.draw beyond) (.call 0) := by
  have last : nextY 15 = 0 := rfl
  have line := reaches_updateLine t beyond 15
  rw [last] at line
  rw [Terminal.draw, List.range_succ, List.flatMap_append, List.flatMap_singleton]
  exact (reaches_lines t beyond (by decide)).trans line

end

theorem run_receive {t after : Terminal} {stream : List UInt8} (done : t.receiveAll stream = some after)
    (beyond : Nat → UInt8) (l : Loop) :
    TracedRun.run (Machine.step beyond) ⟨t, l⟩ (stream.map .receive) = some (⟨after, l⟩, []) := by
  induction stream generalizing t with
  | nil =>
    cases done
    rfl
  | cons buf stream ih =>
    obtain ⟨between, first, rest⟩ := Option.bind_eq_some_iff.mp done
    refine TracedRun.run_cons_eq_some.mpr ⟨⟨between, l⟩, [], [], ?_, ih rest, rfl⟩
    exact congrArg (Option.map _) first

end Minimus32.LcdTerminal
