import Minimus32.Temperature.Reading

namespace Minimus32.Temperature

open Interaction Program Numeral
open Hd44780 (Bench Carries put Fits)
open OneWire (RomCode Thermometer Sensor Wire)

variable {polls : Nat}

/-- Both devices. -/
def respond : Bench × Wire Sensor → (op : Hd44780.Access ⊕ OneWire.Access) →
    Option (Sum.elim Hd44780.Access.Reply OneWire.Access.Reply op × (Bench × Wire Sensor)) :=
  beside Bench.respond (Wire.respond Sensor.logic)

/-- The program writes these characters to the display. -/
def Draws (polls : Nat) (program : Code Unit) (characters : List UInt8) : Prop :=
  ∀ (bench : Bench) (net : Wire Sensor), bench.Ready polls → Ends respond program (bench, net) fun _ after =>
    after.1.Ready polls ∧ after.1.lcd.registers = bench.lcd.registers.executeAll (characters.map (true, ·)) ∧
    after.2 = net

theorem Draws.bind {first rest : Code Unit} {front back : List UInt8} (draws : Draws polls first front)
    (later : Draws polls rest back) : Draws polls (first >>= fun _ => rest) (front ++ back) := by
  intro bench net ready
  apply (draws bench net ready).bind
  intro _ between ended
  apply (later between.1 between.2 ended.1).mono
  intro _ after finished
  rw [ended.2.1, ended.2.2] at finished
  refine ⟨finished.1, ?_, finished.2.2⟩
  rw [finished.2.1, List.map_append, Hd44780.Registers.executeAll_append]

def hexDigit (nibble : UInt8) : UInt8 := if nibble < 10 then nibble + 0x30 else nibble + 0x41 - 10

def hex (byte : UInt8) : List UInt8 := [hexDigit (byte >>> 4), hexDigit (byte &&& 0x0f)]

/-- The check byte and the code, the last byte first. -/
def hexText (code : RomCode) : List UInt8 := (code.crc :: code.romCode.reverse).flatMap hex

/-- The memory of the display: a first line, a temperature and the spinning sign in the second. -/
def screen (line temp : List UInt8) (sign : UInt8) : Nat → UInt8 := fun x =>
  if x < 16 then line.getD x 0
  else if 0x40 ≤ x ∧ x < 0x47 then temp.getD (x - 0x40) 0
  else if x = 0x4f then sign
  else 0x20

/-- The devices between two steps of the program. -/
structure Stands (polls : Nat) (cgram ddram : Nat → UInt8) (t : Thermometer) (s : Bench × Wire Sensor) : Prop where
  ready : s.1.Ready polls
  shows : s.1.lcd.registers.Shows cgram ddram
  rested : s.2.Rested Sensor.logic
  single : OneWire.thermometers s.2 = [t]

/-- The next character goes to this place. -/
structure Placed (a : Nat) (s : Bench × Wire Sensor) : Prop where
  inDdram : s.1.lcd.registers.inCgram = false
  address : s.1.lcd.registers.address = a

variable {cgram ddram : Nat → UInt8} {t : Thermometer} {s : Bench × Wire Sensor} {a : Nat}

/-- The first line for each message. -/
def message (code : RomCode) : Nat → List UInt8
  | 0 => demoText
  | 1 => codeText
  | 2 => hexText code
  | 3 => if OneWire.calculateCrc code.romCode 7 = code.crc then okText else failedText
  | _ => tempHeader

/-- The temperature that a read gives. -/
def reading (t : Thermometer) : List UInt8 := degrees (temperature (t.held.getD 1 0) (t.held.getD 0 0))

/-- The thermometer after a round with this message. -/
def told (v : Variables) (t : Thermometer) : Thermometer :=
  if v.msg = 0 ∧ v.i = 0 then t.convert else if v.msg = 4 ∧ v.i = 0 then t.read else t

theorem answer_single (t : Thermometer) : OneWire.answer [t] t.rom = t.held := by
  rw [OneWire.answer, List.find?_cons_of_pos (by simp)]

section Message

variable {v : Variables} {line temp : List UInt8} {sign : UInt8}

theorem ends_startConversion (enough : 16 < polls) (stands : Stands polls cgram ddram t s) :
    Ends respond (wire (OneWire.ds18s20BlockingStartConversion polls t.rom)) s fun _ after =>
      Stands polls cgram ddram t.convert after := by
  apply ((OneWire.ends_startConversion enough stands.rested t.rom).right s.1).mono
  rintro _ ⟨bench, net⟩ ⟨⟨thermometers, rested⟩, rfl⟩
  refine ⟨stands.ready, stands.shows, rested, ?_⟩
  rw [thermometers, stands.single, OneWire.serve, List.map_singleton, Thermometer.only, if_pos rfl]

theorem ends_readScratchpad (enough : 16 < polls) (stands : Stands polls cgram ddram t s) (placed : Placed a s) :
    Ends respond (wire (OneWire.ds18s20BlockingReadScratchpad polls t.rom)) s fun result after =>
      result = (1, t.held) ∧ Stands polls cgram ddram t.read after ∧ Placed a after := by
  have distinct : ((OneWire.thermometers s.2).map Thermometer.rom).Nodup := by
    rw [stands.single]
    exact List.nodup_singleton _
  apply ((OneWire.ends_readScratchpad enough stands.rested distinct t.rom).right s.1).mono
  rintro result ⟨bench, net⟩ ⟨⟨rfl, thermometers, rested⟩, rfl⟩
  rw [stands.single, OneWire.serve, List.map_singleton, Thermometer.only, if_pos rfl] at thermometers
  rw [stands.single, answer_single]
  exact ⟨rfl, ⟨stands.ready, stands.shows, rested, thermometers⟩, placed.inDdram, placed.address⟩

end Message

def lineAt (code : RomCode) (k : Nat) : List UInt8 :=
  if k = 0 then List.replicate 16 0x20 else message code ((k - 1) / 501 % 5)

end Minimus32.Temperature
