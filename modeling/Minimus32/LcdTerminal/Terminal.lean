import Mathlib.Data.UInt

namespace Minimus32.LcdTerminal

def ascii (c : Char) : UInt8 := c.toUInt8

def newline : UInt8 := ascii '\n'

/-- `TERMINAL_BUFFER_HEIGHT` is 17 and `TERMINAL_BUFFER_WIDTH` 22. -/
structure Terminal where
  terminalBuffer : Vector (Vector UInt8 22) 17
  terminalTail : UInt8
  terminalHead : UInt8
  terminalHeadXPos : UInt8

/-- `terminalBuffer[terminalHead][x] = byte`; `none` outside the buffer. -/
def Terminal.store (t : Terminal) (x : Nat) (byte : UInt8) : Option Terminal :=
  if inside : t.terminalHead.toNat < 17 ∧ x < 22 then
    some { t with
      terminalBuffer := t.terminalBuffer.set t.terminalHead.toNat
        ((t.terminalBuffer.get ⟨t.terminalHead.toNat, inside.1⟩).set x byte inside.2) inside.1 }
  else none

/-- The newline the interrupt writes one cell ahead. -/
def Terminal.markEnd (t : Terminal) : Option Terminal :=
  if t.terminalHeadXPos.toNat < 21 then t.store (t.terminalHeadXPos.toNat + 1) newline else some t

def Terminal.putByte (t : Terminal) (buf : UInt8) : Option Terminal :=
  if t.terminalHeadXPos.toNat < 22 then
    (t.store t.terminalHeadXPos.toNat buf).map fun t => { t with terminalHeadXPos := t.terminalHeadXPos + 1 }
  else some t

/-- `i++` and the reset when that leaves the buffer, for the head and for the tail. -/
def nextRow (i : UInt8) : UInt8 := if (i + 1).toNat ≥ 17 then 0 else i + 1

def Terminal.nextLine (t : Terminal) : Terminal :=
  let t := { t with terminalHead := nextRow t.terminalHead, terminalHeadXPos := 0 }
  if t.terminalHead = t.terminalTail then { t with terminalTail := nextRow t.terminalTail } else t

/-- `ISR(USART1_RX_vect)` -/
def Terminal.receive (t : Terminal) (buf : UInt8) : Option Terminal :=
  (t.markEnd.bind fun t => t.putByte buf).map fun t => if buf = newline then t.nextLine else t

def Terminal.receiveAll : Terminal → List UInt8 → Option Terminal
  | t, [] => some t
  | t, buf :: stream => (t.receive buf).bind fun t => t.receiveAll stream

/-- What `main` makes of the buffer before its loop. -/
def Terminal.init (t : Terminal) : Terminal where
  terminalBuffer := t.terminalBuffer.map fun row => row.set 0 newline (by decide)
  terminalTail := 0
  terminalHead := 0
  terminalHeadXPos := 0

inductive Access where
  | read (cell : Nat)
  | draw (x y character : UInt8)
deriving DecidableEq

/-- The second loop of `updateLine`, from column `x` on with `n` columns to go. -/
def fillLine (lineNumber : Nat) : Nat → Nat → List Access
  | 0, _ => []
  | n + 1, x => .draw (UInt8.ofNat (x * 6)) (UInt8.ofNat (lineNumber * 8)) (ascii ' ') ::
      fillLine lineNumber n (x + 1)

/-- The first loop of `updateLine`, from column `x` on with `n` columns to go. -/
def scanLine (lineData : Nat → UInt8) (lineNumber : Nat) : Nat → Nat → UInt8 → List Access
  | 0, _, _ => []
  | n + 1, x, buf =>
    if buf = newline then fillLine lineNumber (n + 1) x
    else .draw (UInt8.ofNat (x * 6)) (UInt8.ofNat (lineNumber * 8)) buf :: .read (x + 1) ::
      scanLine lineData lineNumber n (x + 1) (lineData (x + 1))

/-- `lineData` is the memory from the row's first cell on. -/
def updateLine (lineData : Nat → UInt8) (lineNumber : Nat) : List Access :=
  .read 0 :: scanLine lineData lineNumber 22 0 (lineData 0)

/-- The memory from the first cell of a row on; `beyond` is what lies behind the buffer. -/
def Terminal.lineData (t : Terminal) (beyond : Nat → UInt8) (row cell : Nat) : UInt8 :=
  (t.terminalBuffer.toList.flatMap Vector.toList).getD (row * 22 + cell) (beyond (row * 22 + cell))

/-- One round of the loop in `main`. -/
def Terminal.draw (t : Terminal) (beyond : Nat → UInt8) : List Access :=
  (List.range 16).flatMap fun y =>
    updateLine (t.lineData beyond ((t.terminalTail.toNat + y) % 17)) y

end Minimus32.LcdTerminal
