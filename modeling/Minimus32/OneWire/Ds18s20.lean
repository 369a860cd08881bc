import Minimus32.OneWire.Transfer

namespace Minimus32.OneWire

open Interaction Program

@[ext]
structure RomCode where
  romCode : List UInt8
  crc : UInt8
  length_romCode : romCode.length = 7
deriving DecidableEq

def RomCode.bytes (code : RomCode) : List UInt8 := code.romCode ++ [code.crc]

theorem RomCode.length_bytes (code : RomCode) : code.bytes.length = 8 := by
  rw [bytes, List.length_append, code.length_romCode, List.length_singleton]

theorem RomCode.bytes_injective {left right : RomCode} (same : left.bytes = right.bytes) : left = right := by
  have parts := List.append_inj same (left.length_romCode.trans right.length_romCode.symm)
  exact RomCode.ext parts.1 (List.singleton_injective parts.2)

theorem RomCode.length_wireBits (code : RomCode) : (wireBits code.bytes).length = 64 := by
  rw [OneWire.length_wireBits, code.length_bytes]

theorem RomCode.wireBits_ne_nil (code : RomCode) : wireBits code.bytes ≠ [] := by
  intro none
  have length := code.length_wireBits
  rw [none, List.length_nil] at length
  omega

/-- What both functions of the driver begin with. -/
def address (polls : Nat) (code : RomCode) (command : UInt8) : Code Unit := do
  onewireReset
  onewireSendByte polls 0x55
  sendBytes polls code.romCode
  onewireSendByte polls code.crc
  onewireSendByte polls command

def ds18s20BlockingReadScratchpad (polls : Nat) (code : RomCode) : Code (UInt8 × List UInt8) := do
  address polls code 0xbe
  let scratchpad ← readBytes polls 9
  pure (1, scratchpad)

def ds18s20BlockingStartConversion (polls : Nat) (code : RomCode) : Code Unit := address polls code 0x44

inductive Mode where
  | deaf
  | romCommand (bits : List Bool)
  | matching (rest : List Bool)
  | command (bits : List Bool)
  | sending (rest : List Bool)
deriving DecidableEq

/-- A thermometer, with what its scratchpad holds after so many conversions. They take their time: of those that have
been started, `finished` are over at a read. -/
structure Thermometer where
  rom : RomCode
  scratchpad : Nat → List UInt8
  length_scratchpad : ∀ n, (scratchpad n).length = 9
  finished : Nat → Nat → Nat
  finished_le : ∀ conversions reads, finished conversions reads ≤ conversions
  conversions : Nat
  reads : Nat

namespace Thermometer

def convert (t : Thermometer) : Thermometer := { t with conversions := t.conversions + 1 }

def read (t : Thermometer) : Thermometer := { t with reads := t.reads + 1 }

/-- What a read gives now. -/
def held (t : Thermometer) : List UInt8 := t.scratchpad (t.finished t.conversions t.reads)

end Thermometer

structure Sensor extends Thermometer where
  mode : Mode

namespace Sensor

def output (s : Sensor) : Option Bool :=
  match s.mode with
  | .sending (bit :: _) => some bit
  | _ => none

def setMode (s : Sensor) (mode : Mode) : Sensor := { s with mode := mode }

def convert (s : Sensor) : Sensor := ⟨s.toThermometer.convert, .deaf⟩

/-- The eight bits behind a reset. -/
def obeyRom (s : Sensor) (bits : List Bool) : Sensor :=
  if bits = lsbFirst 0x55 then s.setMode (.matching (wireBits s.rom.bytes))
  else if bits = lsbFirst 0x33 then s.setMode (.sending (wireBits s.rom.bytes))
  else s.setMode .deaf

/-- The eight bits behind the address of the sensor. -/
def obey (s : Sensor) (bits : List Bool) : Sensor :=
  if bits = lsbFirst 0xbe then ⟨s.toThermometer.read, .sending (wireBits s.held)⟩
  else if bits = lsbFirst 0x44 then s.convert
  else s.setMode .deaf

def step (s : Sensor) (bit : Bool) : Sensor :=
  match s.mode with
  | .deaf | .sending [] => s
  | .romCommand bits => if bits.length < 7 then s.setMode (.romCommand (bits ++ [bit])) else s.obeyRom (bits ++ [bit])
  | .matching [] => s.setMode .deaf
  | .matching (expected :: rest) =>
    if bit ≠ expected then s.setMode .deaf
    else if rest = [] then s.setMode (.command [])
    else s.setMode (.matching rest)
  | .command bits => if bits.length < 7 then s.setMode (.command (bits ++ [bit])) else s.obey (bits ++ [bit])
  | .sending (_ :: rest) => s.setMode (.sending rest)

def restart (s : Sensor) : Sensor := s.setMode (.romCommand [])

def logic : Logic Sensor := ⟨output, step, restart⟩

theorem deaf_setMode (s : Sensor) : logic.Deaf (s.setMode .deaf) := ⟨rfl, fun _ => rfl⟩

theorem spared_restart (s : Sensor) : logic.Spared s.restart := rfl

theorem deaf_sent (s : Sensor) : logic.Deaf (s.setMode (.sending [])) := ⟨rfl, fun _ => rfl⟩

/-- A deaf device is not moved by any bits. -/
theorem foldl_deaf {s : Sensor} (deaf : logic.Deaf s) (bits : List Bool) :
    logic.Hears s bits ∧ bits.foldl logic.step s = s := by
  induction bits with
  | nil => exact ⟨trivial, rfl⟩
  | cons bit bits ih =>
    rw [Logic.Hears, List.foldl_cons, deaf.2]
    exact ⟨⟨deaf.1, ih.1⟩, ih.2⟩

theorem foldl_romCommand (s : Sensor) {bits : List Bool} (eight : bits.length = 8) :
    logic.Hears s.restart bits ∧ bits.foldl logic.step s.restart = s.obeyRom bits := by
  apply logic.foldl_collect (fun bits => s.setMode (.romCommand bits)) s.obeyRom (fun _ => rfl)
    (fun _ _ room => if_pos room) (fun _ _ full => if_neg (by omega))
    (show [].length + bits.length = 8 by simpa using eight)
  exact Nat.zero_lt_succ 7

theorem foldl_command (s : Sensor) {bits : List Bool} (eight : bits.length = 8) :
    logic.Hears (s.setMode (.command [])) bits ∧ bits.foldl logic.step (s.setMode (.command [])) = s.obey bits := by
  apply logic.foldl_collect (fun bits => s.setMode (.command bits)) s.obey (fun _ => rfl) (fun _ _ room => if_pos room)
    (fun _ _ full => if_neg (by omega)) (show [].length + bits.length = 8 by simpa using eight)
  exact Nat.zero_lt_succ 7

/-- The sensor goes on if it is the one that is meant, and does nothing more otherwise. -/
theorem foldl_matching (s : Sensor) (rest bits : List Bool) (length : bits.length = rest.length) (some : rest ≠ []) :
    logic.Hears (s.setMode (.matching rest)) bits ∧
      bits.foldl logic.step (s.setMode (.matching rest)) =
        s.setMode (if bits = rest then .command [] else .deaf) := by
  induction bits generalizing rest with
  | nil => exact absurd (List.length_eq_zero_iff.mp length.symm) some
  | cons bit bits ih =>
    obtain ⟨expected, rest, rfl⟩ := List.exists_cons_of_ne_nil some
    rw [List.length_cons, List.length_cons, Nat.add_right_cancel_iff] at length
    rw [Logic.Hears, List.foldl_cons]
    by_cases same : bit = expected
    · have stepped : logic.step (s.setMode (.matching (expected :: rest))) bit =
          s.setMode (if rest = [] then .command [] else .matching rest) := by
        show (if bit ≠ expected then _ else if rest = [] then _ else _) = _
        rw [if_neg (not_not_intro same)]
        split <;> rfl
      rw [stepped]
      by_cases last : rest = []
      · subst last
        obtain rfl := List.length_eq_zero_iff.mp length
        rw [if_pos rfl, same, if_pos rfl]
        exact ⟨⟨rfl, trivial⟩, rfl⟩
      · have later := ih rest length last
        rw [if_neg last, later.2]
        simp only [same, List.cons.injEq, true_and]
        exact ⟨⟨rfl, later.1⟩, trivial⟩
    · have stepped : logic.step (s.setMode (.matching (expected :: rest))) bit = s.setMode .deaf := if_pos same
      have stays := foldl_deaf s.deaf_setMode bits
      rw [stepped, stays.2, if_neg (by simp [same])]
      exact ⟨⟨rfl, stays.1⟩, rfl⟩

/-- The sensor once it has been sent a whole address and a command. -/
def addressed (code : RomCode) (command : UInt8) (s : Sensor) : Sensor :=
  if s.rom = code then s.obey (lsbFirst command) else s.setMode .deaf

theorem foldl_address (s : Sensor) (code : RomCode) (command : UInt8) :
    logic.Hears s.restart (lsbFirst 0x55 ++ (wireBits code.bytes ++ lsbFirst command)) ∧
      (lsbFirst 0x55 ++ (wireBits code.bytes ++ lsbFirst command)).foldl logic.step s.restart =
        s.addressed code command := by
  have selecting := s.foldl_romCommand (length_lsbFirst 0x55)
  have matching := s.foldl_matching (wireBits s.rom.bytes) (wireBits code.bytes)
    (by rw [code.length_wireBits, s.rom.length_wireBits]) s.rom.wireBits_ne_nil
  have start : s.obeyRom (lsbFirst 0x55) = s.setMode (.matching (wireBits s.rom.bytes)) := if_pos rfl
  rw [start] at selecting
  have rest : logic.Hears (s.setMode (.matching (wireBits s.rom.bytes))) (wireBits code.bytes ++ lsbFirst command) ∧
      (wireBits code.bytes ++ lsbFirst command).foldl logic.step (s.setMode (.matching (wireBits s.rom.bytes))) =
        s.addressed code command := by
    rw [List.foldl_append, matching.2]
    by_cases meant : s.rom = code
    · have commanded := s.foldl_command (length_lsbFirst command)
      rw [meant, if_pos rfl] at matching ⊢
      rw [addressed, if_pos meant]
      exact ⟨Logic.hears_append matching.1 (by rw [matching.2]; exact commanded.1), commanded.2⟩
    · have differ : wireBits code.bytes ≠ wireBits s.rom.bytes := fun same =>
        meant (RomCode.bytes_injective (wireBits_injective same)).symm
      have stays := foldl_deaf s.deaf_setMode (lsbFirst command)
      rw [if_neg differ] at matching ⊢
      rw [addressed, if_neg meant]
      exact ⟨Logic.hears_append matching.1 (by rw [matching.2]; exact stays.1), stays.2⟩
  rw [List.foldl_append, selecting.2]
  exact ⟨Logic.hears_append selecting.1 (by rw [selecting.2]; exact rest.1), rest.2⟩

end Sensor

end Minimus32.OneWire
