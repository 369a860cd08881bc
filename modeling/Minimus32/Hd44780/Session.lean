import Minimus32.Hd44780.Transfer

namespace Minimus32.Hd44780

open Interaction Program Register

variable {α : Type} {bench : Bench} {polls : Nat}

/-- A display that the driver can go on with, and will not wait for in vain. -/
structure Bench.Ready (polls : Nat) (bench : Bench) : Prop where
  low : bit bench.port 6 = false
  aligned : bench.lcd.Aligned
  prompt : ∀ n, bench.lcd.duration n < polls
  busy : bench.lcd.busy < polls

/-- An instruction, with the level of RS, that leaves the display with its four data lines. -/
def FourBit (instruction : Bool × UInt8) : Prop := instruction.1 = true ∨ instruction.2 &&& 0xf0 ≠ 0x30

theorem eightBit_execute {lcd : Lcd} {rs : Bool} {byte : UInt8} (fourBit : lcd.eightBit = false)
    (harmless : FourBit (rs, byte)) : (lcd.execute rs byte).eightBit = false := by
  have every : ∀ byte : BitVec 8, (⟨byte⟩ : UInt8) &&& 0xf0 ≠ 0x30 → (⟨byte⟩ : UInt8) &&& 0xe0 = 0x20 →
      bit ⟨byte⟩ 4 = false := by decide +kernel
  show (if !rs && byte &&& 0xe0 = 0x20 then bit byte 4 else lcd.eightBit) = false
  split
  · rename_i functionSet
    simp only [Bool.and_eq_true, Bool.not_eq_true', decide_eq_true_eq] at functionSet
    rcases harmless with data | other
    · rw [functionSet.1] at data
      contradiction
    · exact every byte.toBitVec other functionSet.2
  · exact fourBit

theorem Bench.Ready.wrote {rs : Bool} {byte : UInt8} (ready : bench.Ready polls) (harmless : FourBit (rs, byte)) :
    (bench.wrote rs byte).Ready polls where
  low := (bits_nibblePort rs (byte &&& 0x0f)).1
  aligned := ⟨@eightBit_execute bench.lcd.rested rs byte ready.aligned.fourBit harmless, rfl⟩
  prompt := ready.prompt
  busy := ready.prompt bench.lcd.log.length

/-- What the display comes to with instructions. -/
def Registers.executeAll (r : Registers) (instructions : List (Bool × UInt8)) : Registers :=
  instructions.foldl (fun r instruction => r.execute instruction.1 instruction.2) r

/-- The display has carried out these instructions and no others. -/
structure Lcd.Obeyed (lcd : Lcd) (instructions : List (Bool × UInt8)) (after : Lcd) : Prop where
  registers : after.registers = lcd.registers.executeAll instructions
  log : after.log = lcd.log ++ instructions

/-- The program has the display carry out these instructions. -/
def Carries (polls : Nat) (program : Code Unit) (instructions : List (Bool × UInt8)) : Prop :=
  ∀ bench : Bench, bench.Ready polls → Ends Bench.respond program bench fun _ after =>
    after.Ready polls ∧ bench.lcd.Obeyed instructions after.lcd

theorem carries_pure : Carries polls (pure ()) [] := fun _ ready =>
  ends_pure ⟨ready, rfl, (List.append_nil _).symm⟩

theorem Carries.bind {first rest : Code Unit} {front back : List (Bool × UInt8)} (carries : Carries polls first front)
    (later : Carries polls rest back) : Carries polls (first >>= fun _ => rest) (front ++ back) := by
  intro bench ready
  apply (carries bench ready).bind
  intro _ between ended
  apply (later between ended.1).mono
  rintro _ after ⟨ready, registers, log⟩
  rw [ended.2.registers] at registers
  rw [ended.2.log, List.append_assoc] at log
  exact ⟨ready, registers.trans List.foldl_append.symm, log⟩

theorem carries_writeByte {byte : UInt8} {isCommand : Bool} (harmless : FourBit (!isCommand, byte)) :
    Carries polls (writeByte polls byte isCommand) [(!isCommand, byte)] := by
  intro bench ready
  apply (ends_writeByte ready.low ready.aligned ready.busy byte isCommand).mono
  rintro _ after rfl
  exact ⟨ready.wrote harmless, rfl, rfl⟩

theorem carries_command {byte : UInt8} (harmless : FourBit (false, byte)) :
    Carries polls (command polls byte) [(false, byte)] := carries_writeByte harmless

theorem carries_writeBytes (bytes : List UInt8) :
    Carries polls (writeBytes polls bytes) (bytes.map (true, ·)) := by
  induction bytes with
  | nil => exact carries_pure
  | cons byte bytes ih => exact (carries_writeByte (Or.inl rfl)).bind ih

/-- The characters in front of the terminating one. -/
def text (string : List UInt8) : List UInt8 := string.takeWhile (· ≠ 0)

theorem carries_print (string : List UInt8) : Carries polls (print polls string) ((text string).map (true, ·)) := by
  induction string with
  | nil => exact carries_pure
  | cons character string ih =>
    rw [print, text, List.takeWhile_cons]
    by_cases more : character ≠ 0
    · rw [if_pos more, if_pos (decide_eq_true more)]
      exact (carries_writeByte (Or.inl rfl)).bind ih
    · rw [if_neg more, if_neg (by simpa using more)]
      exact carries_pure

inductive Call where
  | command (byte : UInt8)
  | writeByte (byte : UInt8) (isCommand : Bool)
  | print (string : List UInt8)
  | setCustomChar (index : UInt8) (graphics : Vector UInt8 8)

def perform (polls : Nat) : Call → Code Unit
  | .command byte => command polls byte
  | .writeByte byte isCommand => writeByte polls byte isCommand
  | .print string => print polls string
  | .setCustomChar index graphics => setCustomChar polls index graphics

def performAll (polls : Nat) : List Call → Code Unit
  | [] => pure ()
  | call :: calls => do
    perform polls call
    performAll polls calls

/-- What a call means to the display. -/
def Call.instructions : Call → List (Bool × UInt8)
  | .command byte => [(false, byte)]
  | .writeByte byte isCommand => [(!isCommand, byte)]
  | .print string => (text string).map (true, ·)
  | .setCustomChar index graphics => (false, (index <<< 3) + 64) :: graphics.toList.map (true, ·)

/-- A call that leaves the display with its four data lines. -/
def Call.FourBit (call : Call) : Prop := ∀ instruction ∈ call.instructions, Hd44780.FourBit instruction

theorem carries_perform {call : Call} (fourBit : call.FourBit) :
    Carries polls (perform polls call) call.instructions := by
  cases call with
  | command byte => exact carries_command (fourBit _ List.mem_cons_self)
  | writeByte byte isCommand => exact carries_writeByte (fourBit _ List.mem_cons_self)
  | print string => exact carries_print string
  | setCustomChar index graphics =>
    exact (carries_command (fourBit _ List.mem_cons_self)).bind (carries_writeBytes graphics.toList)

theorem carries_performAll {calls : List Call} (fourBit : ∀ call ∈ calls, call.FourBit) :
    Carries polls (performAll polls calls) (calls.flatMap Call.instructions) := by
  induction calls with
  | nil => exact carries_pure
  | cons call calls ih =>
    rw [List.flatMap_cons]
    exact (carries_perform (fourBit call List.mem_cons_self)).bind
      (ih fun other member => fourBit other (List.mem_cons_of_mem call member))

namespace Lcd

variable {lcd start : Lcd} {pause left : Nat}

/-- A display that is not busy, and that so many instructions keep busy for no longer than a pause. Since `start` it has
been told at most as many as are missing to three. -/
structure Idle (lcd start : Lcd) (pause left : Nat) : Prop where
  free : lcd.busy = 0
  short : ∀ n < left, lcd.duration (lcd.log.length + n) ≤ pause
  same : lcd.duration = start.duration ∧ lcd.registers.cgram = start.registers.cgram
  log : ∃ told, told.length + left ≤ 3 ∧ lcd.log = start.log ++ told

/-- How many times a 3 has to be sent until the display has eight data lines. -/
def distance (lcd : Lcd) : Nat :=
  if lcd.eightBit then 0
  else
    match lcd.half with
    | some high => if high = 3 then 1 else 3
    | none => 2

theorem cgram_command (r : Registers) (byte : UInt8) : (r.command byte).cgram = r.cgram := by
  unfold Registers.command
  repeat' split
  all_goals rfl

theorem log_execute {told : List (Bool × UInt8)} (log : lcd.log = start.log ++ told) (byte : UInt8) :
    (lcd.execute false byte).log = start.log ++ (told ++ [(false, byte)]) := by
  rw [← List.append_assoc, ← log]
  rfl

theorem Idle.execute (idle : lcd.Idle start pause (left + 1)) (byte : UInt8) :
    ((lcd.execute false byte).pass pause).Idle start pause left where
  free := Nat.sub_eq_zero_of_le (idle.short 0 (Nat.succ_pos left))
  short n few := by
    show lcd.duration ((lcd.log ++ [(false, byte)]).length + n) ≤ pause
    rw [List.length_append, List.length_singleton, Nat.add_assoc, Nat.add_comm 1]
    exact idle.short (n + 1) (by omega)
  same := ⟨idle.same.1, (cgram_command lcd.registers byte).trans idle.same.2⟩
  log := by
    obtain ⟨told, few, log⟩ := idle.log
    refine ⟨_, ?_, log_execute log byte⟩
    rw [List.length_append, List.length_singleton]
    omega

/-- Nothing has been told to the display. -/
theorem Idle.skip (idle : lcd.Idle start pause (left + 1)) : lcd.Idle start pause left where
  free := idle.free
  short n few := idle.short n (by omega)
  same := idle.same
  log := by
    obtain ⟨told, few, log⟩ := idle.log
    exact ⟨told, by omega, log⟩

theorem Idle.write (idle : lcd.Idle start pause (left + 1)) (nibble : UInt8) :
    (((lcd.pass 1).write false nibble).pass pause).Idle start pause left := by
  rw [pass_free idle.free]
  cases eight : lcd.eightBit with
  | true =>
    rw [write_eight idle.free eight]
    exact idle.execute _
  | false =>
    cases first : lcd.half with
    | none =>
      have skipped := idle.skip
      rw [write_first idle.free ⟨eight, first⟩]
      exact ⟨Nat.sub_eq_zero_of_le (idle.free.le.trans (Nat.zero_le pause)), skipped.short, skipped.same, skipped.log⟩
    | some high =>
      rw [write_second idle.free eight first]
      exact idle.execute _

theorem eightBit_functionSet {byte : UInt8} (functionSet : byte &&& 0xe0 = 0x20) :
    (lcd.execute false byte).eightBit = bit byte 4 := by
  show (if !false && _ then _ else _) = _
  rw [if_pos (by simpa using functionSet)]

theorem bits_three (low : UInt8) :
    ((3 : UInt8) <<< 4 ||| (low &&& 0xf)) &&& 0xe0 = 0x20 ∧ bit ((3 : UInt8) <<< 4 ||| (low &&& 0xf)) 4 = true := by
  have every : ∀ low : BitVec 8, ((3 : UInt8) <<< 4 ||| ((⟨low⟩ : UInt8) &&& 0xf)) &&& 0xe0 = 0x20 ∧
      bit ((3 : UInt8) <<< 4 ||| ((⟨low⟩ : UInt8) &&& 0xf)) 4 = true := by decide +kernel
  exact every low.toBitVec

theorem bits_two (low : UInt8) :
    ((2 : UInt8) <<< 4 ||| (low &&& 0xf)) &&& 0xe0 = 0x20 ∧ bit ((2 : UInt8) <<< 4 ||| (low &&& 0xf)) 4 = false := by
  have every : ∀ low : BitVec 8, ((2 : UInt8) <<< 4 ||| ((⟨low⟩ : UInt8) &&& 0xf)) &&& 0xe0 = 0x20 ∧
      bit ((2 : UInt8) <<< 4 ||| ((⟨low⟩ : UInt8) &&& 0xf)) 4 = false := by decide +kernel
  exact every low.toBitVec

theorem distance_pass (time : Nat) : (lcd.pass time).distance = lcd.distance := rfl

theorem distance_eight (eight : lcd.eightBit = true) : lcd.distance = 0 := if_pos eight

theorem distance_whole (whole : lcd.half = none) : lcd.distance ≤ 2 := by
  rw [distance, whole]
  split
  · exact Nat.zero_le 2
  · exact Nat.le_refl 2

theorem distance_half {high : UInt8} (four : lcd.eightBit = false) (first : lcd.half = some high) :
    lcd.distance = if high = 3 then 1 else 3 := by
  rw [distance, first, four]
  rfl

theorem Idle.knock (idle : lcd.Idle start pause left) :
    (((lcd.pass 1).write false 3).pass pause).distance ≤ lcd.distance - 1 := by
  rw [distance_pass, pass_free idle.free]
  cases eight : lcd.eightBit with
  | true =>
    have set := bits_three (lcd.unconnected lcd.log.length)
    have still := (@eightBit_functionSet lcd _ set.1).trans set.2
    rw [write_eight idle.free eight, distance_eight still]
    omega
  | false =>
    cases first : lcd.half with
    | none =>
      have before : lcd.distance = 2 := by
        rw [distance, eight, first]
        rfl
      rw [write_first idle.free ⟨eight, first⟩, before]
      exact Nat.le_of_eq (@distance_half { lcd with half := some 3 } 3 eight rfl)
    | some high =>
      rw [write_second idle.free eight first, distance_half eight first]
      by_cases three : high = 3
      · have set := bits_three 3
        have becomes := (@eightBit_functionSet lcd _ set.1).trans set.2
        rw [three]
        exact Nat.le_of_eq (distance_eight becomes)
      · rw [if_neg three]
        exact distance_whole rfl

/-- The last nibble of the four, behind which there is no pause. -/
theorem Idle.last (idle : lcd.Idle start pause left) (eight : lcd.eightBit = true) :
    ((lcd.pass 1).write false 2).Aligned ∧
    ((lcd.pass 1).write false 2).busy = start.duration lcd.log.length ∧
    ((lcd.pass 1).write false 2).duration = start.duration ∧
    ((lcd.pass 1).write false 2).registers.cgram = start.registers.cgram ∧
    ∃ found, found.length ≤ 4 ∧ ((lcd.pass 1).write false 2).log = start.log ++ found := by
  have set := bits_two (lcd.unconnected lcd.log.length)
  have four := (@eightBit_functionSet lcd _ set.1).trans set.2
  obtain ⟨told, few, log⟩ := idle.log
  rw [pass_free idle.free, write_eight idle.free eight]
  refine ⟨⟨four, rfl⟩, congrFun idle.same.1 _, idle.same.1, (cgram_command lcd.registers _).trans idle.same.2, ?_⟩
  refine ⟨_, ?_, log_execute log _⟩
  rw [List.length_append, List.length_singleton]
  omega

end Lcd

/-- The display as the initialisation leaves it. -/
def fresh (cgram : Nat → UInt8) : Registers where
  ddram _ := 0x20
  cgram := cgram
  address := 0
  inCgram := false
  increment := true
  shifting := false
  shift := 0
  on := true
  cursor := false
  blink := false
  twoLines := true

/-- What the initialisation tells the display once it has four data lines. -/
def setup : List (Bool × UInt8) := [(false, 0x28), (false, 0x08), (false, 0x06), (false, 0x01), (false, 0x0c)]

theorem executeAll_setup (r : Registers) : r.executeAll setup = fresh r.cgram := rfl

/-- The end of a read, as it may be where the lines have been used for something else. -/
theorem Lcd.Idle.read {lcd start : Lcd} {pause left : Nat} (idle : lcd.Idle start pause left) (rs : Bool) :
    ((lcd.pass 1).read rs).Idle start pause left := by
  rcases lcd with ⟨registers, eightBit, half, busy, log, duration, unconnected⟩
  obtain rfl : busy = 0 := idle.free
  cases eightBit <;> cases half <;> cases rs <;> exact ⟨rfl, idle.short, idle.same, idle.log⟩

theorem Bench.setPort_lowered (quiet : bit bench.port 6 = true → bit bench.port 5 = true) {start : Lcd}
    {pause left : Nat} (idle : bench.lcd.Idle start pause left) {value : UInt8} (low : bit value 6 = false) :
    ∃ lcd : Lcd, bench.setPort value = ⟨value, bench.ddr, bench.floating, bench.pace, lcd⟩ ∧
      lcd.Idle start pause left := by
  cases high : bit bench.port 6 with
  | false => exact ⟨bench.lcd, setPort_idle bench high, idle⟩
  | true => exact ⟨_, setPort_read bench high (quiet high) rfl low, idle.read _⟩

theorem port_lowered (port : UInt8) : bit (port &&& ~~~0b01111111) 6 = false := by
  rw [bit_and]
  simp [bit]

theorem ddr_lowered (ddr : UInt8) : (ddr ||| 0b01111111) &&& 0xf = 0xf := by
  have every : ∀ ddr : BitVec 8, ((⟨ddr⟩ : UInt8) ||| 0b01111111) &&& 0xf = 0xf := by decide +kernel
  exact every ddr.toBitVec

theorem ends_knock {port ddr floating : UInt8} {pace : Nat → Nat} {lcd start : Lcd} {left : Nat}
    (low : bit port 6 = false) (out : ddr &&& 0xf = 0xf) (idle : lcd.Idle start (pace 20000) (left + 1)) {rest : Code α}
    {post : α → Bench → Prop}
    (later : ∀ next : Lcd, next.Idle start (pace 20000) left → next.distance ≤ lcd.distance - 1 →
      Ends Bench.respond rest ⟨nibblePort false 3, ddr, floating, pace, next⟩ post) :
    Ends Bench.respond (do writeNibble 3 lcdCmd; delay 20000; rest) ⟨port, ddr, floating, pace, lcd⟩ post := by
  apply ends_writeNibble low out false 3
  apply ends_call rfl
  exact later _ (idle.write 3) idle.knock

theorem distance_le (lcd : Lcd) : lcd.distance ≤ 3 := by
  unfold Lcd.distance
  repeat' split
  all_goals omega

theorem eightBit_of_distance {lcd : Lcd} (near : lcd.distance = 0) : lcd.eightBit = true := by
  unfold Lcd.distance at near
  split at near
  · assumption
  · split at near
    · split at near <;> omega
    · omega

/-- What the initialisation asks of a display that it finds in any mode, be it in the middle of a byte. E may be high
for a read only. The display is free after some time, is not kept busy by the first nibbles for longer than the pauses
behind them, and is never busy for as long as the driver would wait. -/
structure Bench.Found (time polls : Nat) (bench : Bench) : Prop where
  quiet : bit bench.port 6 = true → bit bench.port 5 = true
  free : bench.lcd.busy ≤ time
  short : ∀ n < 3, bench.lcd.duration (bench.lcd.log.length + n) ≤ bench.pace 20000
  prompt : ∀ n, bench.lcd.duration n < polls

/-- How the initialisation leaves the display, which may have taken the first nibbles for up to four instructions. -/
structure Lcd.Initialised (lcd after : Lcd) : Prop where
  registers : after.registers = fresh lcd.registers.cgram
  log : ∃ found, found.length ≤ 4 ∧ after.log = lcd.log ++ found ++ setup

theorem carries_setup (polls : Nat) : Carries polls
    (do command polls 0x28; command polls 0x08; command polls 0x06; command polls 0x01; command polls 0x0c) setup := by
  have harmless : ∀ byte ∈ ([0x28, 0x08, 0x06, 0x01, 0x0c] : List UInt8), FourBit (false, byte) := by
    intro byte member
    apply Or.inr
    revert byte
    decide +kernel
  apply (carries_command (harmless 0x28 (by decide))).bind
  apply (carries_command (harmless 0x08 (by decide))).bind
  apply (carries_command (harmless 0x06 (by decide))).bind
  apply (carries_command (harmless 0x01 (by decide))).bind
  exact carries_command (harmless 0x0c (by decide))

theorem ends_init (found : bench.Found 0 polls) :
    Ends Bench.respond (init polls) bench fun _ after => after.Ready polls ∧ bench.lcd.Initialised after.lcd := by
  have low : ∀ nibble, bit (nibblePort false nibble) 6 = false := fun nibble => (bits_nibblePort false nibble).1
  have start : bench.lcd.Idle bench.lcd (bench.pace 20000) 3 :=
    ⟨Nat.le_zero.mp found.free, found.short, ⟨rfl, rfl⟩, [], Nat.le_refl 3, (List.append_nil _).symm⟩
  rcases Bench.setPort_lowered found.quiet start (port_lowered bench.port) with ⟨lcd, sets, idle⟩
  have out := ddr_lowered bench.ddr
  apply ends_call rfl
  apply ends_setPort sets
  apply ends_call rfl
  apply ends_call rfl
  apply ends_knock (port_lowered bench.port) out idle
  intro first idle near
  apply ends_knock (low 3) out idle
  intro second idle nearer
  apply ends_knock (low 3) out idle
  intro third idle nearest
  have whole := distance_le lcd
  obtain ⟨aligned, busy, duration, cgram, told, few, log⟩ := idle.last (eightBit_of_distance (by omega))
  apply ends_writeNibble (low 3) out false 2
  have ready : Bench.Ready polls ⟨nibblePort false 2, bench.ddr ||| 0b01111111, bench.floating, bench.pace,
      (third.pass 1).write false (2 &&& 0xf)⟩ := by
    refine ⟨low 2, aligned, ?_, ?_⟩
    · intro n
      show ((third.pass 1).write false 2).duration n < polls
      rw [duration]
      exact found.prompt n
    · show ((third.pass 1).write false 2).busy < polls
      rw [busy]
      exact found.prompt _
  apply (carries_setup polls _ ready).mono
  rintro _ after ⟨ready, registers, written⟩
  rw [executeAll_setup] at registers
  refine ⟨ready, registers.trans (congrArg fresh cgram), told, few, written.trans ?_⟩
  exact congrArg (· ++ setup) log

def session (polls : Nat) (calls : List Call) : Code Unit := do
  init polls
  performAll polls calls

/-- The display carries out what the calls mean, and nothing else. -/
theorem session_registers (found : bench.Found 0 polls) {calls : List Call} (fourBit : ∀ call ∈ calls, call.FourBit) :
    Ends Bench.respond (session polls calls) bench fun _ after =>
      after.lcd.registers = (fresh bench.lcd.registers.cgram).executeAll (calls.flatMap Call.instructions) ∧
      (∃ found, found.length ≤ 4 ∧
        after.lcd.log = bench.lcd.log ++ found ++ setup ++ calls.flatMap Call.instructions) ∧
      after.Ready polls := by
  apply (ends_init found).bind
  rintro _ started ⟨ready, registers, told, few, log⟩
  apply (carries_performAll fourBit started ready).mono
  rintro _ after ⟨ready, obeyed⟩
  refine ⟨?_, ⟨told, few, ?_⟩, ready⟩
  · rw [obeyed.registers, registers]
  · rw [obeyed.log, log]

/-- A display that has been left in the middle of a byte, with the port as `minimus32_init` sets it. -/
def leftBench : Bench where
  port := 0b01100000
  ddr := 0b01100000
  floating := 0
  pace loops := 3 * loops
  lcd :=
    { registers := fresh fun _ => 0
      eightBit := false
      half := some 0
      busy := 0
      log := []
      duration := fun _ => 1000
      unconnected := fun _ => 0xff }

theorem leftBench_found (time : Nat) : leftBench.Found time 1001 where
  quiet _ := by decide
  free := Nat.zero_le time
  short _ _ := show 1000 ≤ 3 * 20000 by decide
  prompt _ := show 1000 < 1001 by decide

theorem session_registers_left :
    Ends Bench.respond (session 1001 [.command 0xc0, .print [0x48, 0x69, 0], .setCustomChar 1 (.replicate 8 0)])
      leftBench fun _ after =>
        after.lcd.registers = (fresh leftBench.lcd.registers.cgram).executeAll
          ([.command 0xc0, .print [0x48, 0x69, 0], .setCustomChar 1 (.replicate 8 0)].flatMap Call.instructions) ∧
        (∃ found, found.length ≤ 4 ∧ after.lcd.log = leftBench.lcd.log ++ found ++ setup ++
          [.command 0xc0, .print [0x48, 0x69, 0], .setCustomChar 1 (.replicate 8 0)].flatMap Call.instructions) ∧
        after.Ready 1001 := by
  apply session_registers (leftBench_found 0)
  intro call member instruction inside
  have every : ∀ call ∈ [Call.command 0xc0, .print [0x48, 0x69, 0], .setCustomChar 1 (.replicate 8 0)],
      ∀ instruction ∈ call.instructions, instruction.1 = true ∨ instruction.2 &&& 0xf0 ≠ 0x30 := by decide +kernel
  exact every call member instruction inside

end Minimus32.Hd44780
