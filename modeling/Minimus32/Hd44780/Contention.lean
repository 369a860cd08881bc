import Minimus32.Hd44780.Session
import Minimus32.Library.Throughout

namespace Minimus32.Hd44780

open Interaction Program Register

/-- Port D, with anything at all at its pins. -/
structure Pins where
  port : UInt8
  ddr : UInt8

def Pins.Moves (pins : Pins) : (access : Access) → access.Reply → Pins → Prop
  | .setPort value, _, after => after = ⟨value, pins.ddr⟩
  | .getPort, reply, after => reply = pins.port ∧ after = pins
  | .setDdr value, _, after => after = ⟨pins.port, value⟩
  | .getDdr, reply, after => reply = pins.ddr ∧ after = pins
  | .getPin, _, after => after = pins
  | .delay _, _, after => after = pins
  | .stuck, _, _ => False

/-- While E is high the data lines are inputs for a read and outputs for a write. -/
def Pins.Apart (pins : Pins) : Prop :=
  bit pins.port 6 = true → pins.ddr &&& 0xf = if bit pins.port 5 then 0 else 0xf

/-- The pins between two calls of the driver. -/
structure Pins.Resting (pins : Pins) : Prop where
  low : bit pins.port 6 = false
  out : pins.ddr &&& 0xf = 0xf
  top : bit pins.port 7 = false

variable {α : Type} {pins : Pins} {polls : Nat} {post : α → Pins → Prop}

theorem Pins.apart_of_low (low : bit pins.port 6 = false) : pins.Apart := by
  intro high
  rw [low] at high
  contradiction

theorem throughout_setPort {value : UInt8} {rest : Code α} (apart : Pins.Apart ⟨value, pins.ddr⟩)
    (later : rest.Throughout Pins.Moves Pins.Apart ⟨value, pins.ddr⟩ post) :
    (setPort value >>= fun _ => rest).Throughout Pins.Moves Pins.Apart pins post := by
  apply throughout_call
  rintro _ after rfl
  exact ⟨apart, later⟩

theorem throughout_getPort {rest : UInt8 → Code α} (apart : pins.Apart)
    (later : (rest pins.port).Throughout Pins.Moves Pins.Apart pins post) :
    (getPort >>= rest).Throughout Pins.Moves Pins.Apart pins post := by
  apply throughout_call
  rintro _ after ⟨rfl, rfl⟩
  exact ⟨apart, later⟩

theorem throughout_setDdr {port ddr value : UInt8} {rest : Code α} (low : bit port 6 = false)
    (later : rest.Throughout Pins.Moves Pins.Apart ⟨port, value⟩ post) :
    (setDdr value >>= fun _ => rest).Throughout Pins.Moves Pins.Apart ⟨port, ddr⟩ post := by
  apply throughout_call
  rintro _ after rfl
  exact ⟨Pins.apart_of_low low, later⟩

theorem throughout_getDdr {port ddr : UInt8} {rest : UInt8 → Code α} (low : bit port 6 = false)
    (later : (rest ddr).Throughout Pins.Moves Pins.Apart ⟨port, ddr⟩ post) :
    (getDdr >>= rest).Throughout Pins.Moves Pins.Apart ⟨port, ddr⟩ post := by
  apply throughout_call
  rintro _ after ⟨rfl, rfl⟩
  exact ⟨Pins.apart_of_low low, later⟩

theorem throughout_delay {port ddr : UInt8} {loops : Nat} {rest : Code α} (low : bit port 6 = false)
    (later : rest.Throughout Pins.Moves Pins.Apart ⟨port, ddr⟩ post) :
    (delay loops >>= fun _ => rest).Throughout Pins.Moves Pins.Apart ⟨port, ddr⟩ post := by
  apply throughout_call
  rintro _ after rfl
  exact ⟨Pins.apart_of_low low, later⟩

theorem throughout_writeNibble {port ddr : UInt8} (out : ddr &&& 0xf = 0xf) (rs : Bool) (data : UInt8) {rest : Code α}
    (later : rest.Throughout Pins.Moves Pins.Apart ⟨nibblePort rs data, ddr⟩ post) :
    (writeNibble data (if rs then lcdData else lcdCmd) >>= fun _ => rest).Throughout Pins.Moves Pins.Apart ⟨port, ddr⟩
      post := by
  have bits := bits_nibblePort rs data
  apply throughout_setPort (Pins.apart_of_low bits.1)
  apply throughout_setPort
  · intro _
    have writing : bit (lcdBitE ||| (if rs then lcdData else lcdCmd) ||| (data &&& 0x0f)) 5 = false := by
      rw [UInt8.or_assoc, bit_or, show (if rs then lcdData else lcdCmd) ||| (data &&& 0x0f) = nibblePort rs data from rfl,
        bits.2.1]
      rfl
    rw [writing]
    exact out
  · exact throughout_setPort (Pins.apart_of_low bits.1) later

theorem throughout_readNibble {port ddr : UInt8} (inputs : ddr &&& 0xf = 0) {rest : UInt8 → Code α}
    (later : ∀ nibble, (rest nibble).Throughout Pins.Moves Pins.Apart ⟨lcdBitRw, ddr⟩ post) :
    (readNibble lcdCmd >>= rest).Throughout Pins.Moves Pins.Apart ⟨port, ddr⟩ post := by
  have reading : Pins.Apart ⟨0x60, ddr⟩ := by
    intro _
    rw [bits_reading.2.1]
    exact inputs
  apply throughout_setPort (Pins.apart_of_low low_lcdBitRw)
  apply throughout_setPort (show Pins.Apart ⟨lcdBitE ||| lcdCmd ||| lcdBitRw, ddr⟩ from reading)
  apply throughout_call
  rintro pin after rfl
  exact ⟨reading, throughout_setPort (Pins.apart_of_low low_lcdBitRw) (later _)⟩

theorem throughout_busyLoop {port ddr : UInt8} (inputs : ddr &&& 0xf = 0) :
    (busyLoop polls).Throughout Pins.Moves Pins.Apart ⟨port, ddr⟩ fun _ after => after = ⟨lcdBitRw, ddr⟩ := by
  induction polls generalizing port with
  | zero =>
    intro _ after never
    exact never.elim
  | succ polls ih =>
    apply throughout_readNibble inputs
    intro nibble
    apply throughout_readNibble inputs
    intro _
    split
    · exact ih
    · exact throughout_pure rfl

theorem ddr_in (ddr : UInt8) : (ddr &&& 0b11110000) &&& 0xf = 0 := by
  rw [UInt8.and_assoc]
  exact UInt8.and_zero

theorem throughout_waitForDisplay (low : bit pins.port 6 = false) :
    (waitForDisplay polls).Throughout Pins.Moves Pins.Apart pins fun _ after =>
      after.ddr &&& 0xf = 0xf := by
  apply throughout_getDdr low
  apply throughout_setDdr low
  apply (throughout_busyLoop (ddr_in pins.ddr)).bind
  rintro _ idle rfl
  apply throughout_getDdr low_lcdBitRw
  show (setDdr ((pins.ddr &&& 0b11110000) ||| 0b00001111) >>= fun _ => pure ()).Throughout _ _ _ _
  apply throughout_setDdr low_lcdBitRw
  exact throughout_pure (ddr_out pins.ddr)

/-- The driver keeps to the pins whatever the display replies. -/
def Keeps (program : Code Unit) : Prop :=
  ∀ pins : Pins, pins.Resting → program.Throughout Pins.Moves Pins.Apart pins fun _ after => after.Resting

theorem keeps_pure : Keeps (pure ()) := fun _ resting => throughout_pure resting

theorem Keeps.bind {first rest : Code Unit} (keeps : Keeps first) (later : Keeps rest) :
    Keeps (first >>= fun _ => rest) := fun pins resting =>
  (keeps pins resting).bind fun _ after => later after

theorem top_nibblePort (rs : Bool) (nibble : UInt8) : bit (nibblePort rs nibble) 7 = false := by
  have every : ∀ (rs : Bool) (nibble : BitVec 8), bit (nibblePort rs ⟨nibble⟩) 7 = false := by decide +kernel
  exact every rs nibble.toBitVec

theorem throughout_lastNibble {port ddr : UInt8} (out : ddr &&& 0xf = 0xf) (rs : Bool) (data : UInt8) :
    (writeNibble data (if rs then lcdData else lcdCmd)).Throughout Pins.Moves Pins.Apart ⟨port, ddr⟩
      fun _ after => after.Resting := by
  show (writeNibble data (if rs then lcdData else lcdCmd) >>= fun _ => pure ()).Throughout _ _ _ _
  apply throughout_writeNibble out rs data
  exact throughout_pure ⟨(bits_nibblePort rs data).1, out, top_nibblePort rs data⟩

theorem keeps_writeByte (byte : UInt8) (isCommand : Bool) : Keeps (writeByte polls byte isCommand) := by
  intro pins resting
  have type : (if isCommand then lcdCmd else lcdData) = if !isCommand then lcdData else lcdCmd := by
    cases isCommand <;> rfl
  rw [writeByte, type]
  apply (throughout_waitForDisplay resting.low).bind
  intro _ waited out
  apply throughout_writeNibble out
  apply throughout_delay (bits_nibblePort _ _).1
  exact throughout_lastNibble out _ _

theorem keeps_writeBytes (bytes : List UInt8) : Keeps (writeBytes polls bytes) := by
  induction bytes with
  | nil => exact keeps_pure
  | cons byte bytes ih => exact (keeps_writeByte byte false).bind ih

theorem keeps_print (string : List UInt8) : Keeps (print polls string) := by
  induction string with
  | nil => exact keeps_pure
  | cons character string ih =>
    rw [print]
    split
    · exact (keeps_writeByte character false).bind ih
    · exact keeps_pure

theorem keeps_perform (call : Call) : Keeps (perform polls call) := by
  cases call with
  | command byte => exact keeps_writeByte byte true
  | writeByte byte isCommand => exact keeps_writeByte byte isCommand
  | print string => exact keeps_print string
  | setCustomChar index graphics => exact (keeps_writeByte _ true).bind (keeps_writeBytes graphics.toList)

theorem keeps_performAll (calls : List Call) : Keeps (performAll polls calls) := by
  induction calls with
  | nil => exact keeps_pure
  | cons call calls ih => exact (keeps_perform call).bind ih

theorem throughout_init (apart : pins.Apart) :
    (init polls).Throughout Pins.Moves Pins.Apart pins fun _ after => after.Resting := by
  have out := ddr_lowered pins.ddr
  have low : ∀ nibble, bit (nibblePort false nibble) 6 = false := fun nibble => (bits_nibblePort false nibble).1
  apply throughout_getPort apart
  apply throughout_setPort (Pins.apart_of_low (port_lowered pins.port))
  apply throughout_getDdr (port_lowered pins.port)
  apply throughout_setDdr (port_lowered pins.port)
  apply throughout_writeNibble out false 3
  apply throughout_delay (low 3)
  apply throughout_writeNibble out false 3
  apply throughout_delay (low 3)
  apply throughout_writeNibble out false 3
  apply throughout_delay (low 3)
  apply (throughout_lastNibble out false 2).bind
  intro _ started resting
  have commands : Keeps
      (do command polls 0x28; command polls 0x08; command polls 0x06; command polls 0x01; command polls 0x0c) :=
    (keeps_writeByte 0x28 true).bind <| (keeps_writeByte 0x08 true).bind <| (keeps_writeByte 0x06 true).bind <|
    (keeps_writeByte 0x01 true).bind <| keeps_writeByte 0x0c true
  exact commands started resting

theorem session_apart (apart : pins.Apart) (calls : List Call) :
    (session polls calls).Throughout Pins.Moves Pins.Apart pins fun _ after => after.Resting :=
  (throughout_init apart).bind fun _ after => keeps_performAll calls after

theorem session_apart_board :
    (session 3 [.print [0x48, 0x69, 0]]).Throughout Pins.Moves Pins.Apart ⟨0b01100000, 0b01100000⟩
      fun _ after => after.Resting :=
  session_apart (fun _ => by decide) _

end Minimus32.Hd44780
