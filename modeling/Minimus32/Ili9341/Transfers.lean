import Minimus32.BoardSupport.SpiUnit
import Minimus32.Ili9341.Driver

namespace Minimus32.Ili9341

open Display Spi

namespace Program

def sendCommand (command : UInt8) : List Instr :=
  .setDataCommand false :: (spiIo command ++ [.setDataCommand true])

def sendCommandAsyncBegin (command : UInt8) : List Instr :=
  .setDataCommand false :: (spiAsyncIoBegin command ++ spiAsyncIoWait ++ [.setDataCommand true])

/-- The loop over pixels, with the function that sends a byte. -/
def sendColour (send : UInt8 → List Instr) (colour : UInt16) : Nat → List Instr
  | 0 => []
  | n + 1 => send (colour >>> 8).toUInt8 ++ send (colour &&& 0xff).toUInt8 ++ sendColour send colour n

def fillN (colour countN : UInt16) : List Instr :=
  sendCommand memoryWrite ++ sendColour spiIo colour countN.toNat

def fillRows (colour countM : UInt16) : Nat → List Instr
  | 0 => []
  | n + 1 => sendColour spiAsyncIo colour countM.toNat ++ fillRows colour countM n

def fillNTimesM (colour countN countM : UInt16) : List Instr :=
  sendCommandAsyncBegin memoryWrite ++ fillRows colour countM countN.toNat ++ spiAsyncIoEnd

end Program

inductive Fill where
  | fillN (colour countN : UInt16)
  | fillNTimesM (colour countN countM : UInt16)
deriving DecidableEq

def Fill.program : Fill → List Instr
  | .fillN colour countN => Program.fillN colour countN
  | .fillNTimesM colour countN countM => Program.fillNTimesM colour countN countM

def Fill.actions : Fill → List Action
  | .fillN colour countN => Ili9341.fillN colour countN
  | .fillNTimesM colour countN countM => Ili9341.fillNTimesM colour countN countM

/-- The call of `fillN` that sends as many pixels. -/
def Fill.plain : Fill → Fill
  | .fillN colour countN => .fillN colour countN
  | .fillNTimesM colour countN countM => .fillN colour (countN * countM)

/-- The number of pixels fits the counter of `fillN`. -/
def Fill.Fits : Fill → Prop
  | .fillN .. => True
  | .fillNTimesM _ countN countM => countN.toNat * countM.toNat < 65536

/-- The level of the data/command pin and the byte of an action. -/
def transferOf : Action → Option (Bool × UInt8)
  | .command byte => some (false, byte)
  | .data byte => some (true, byte)
  | .fetch _ => none

theorem flow_sendColour (send : UInt8 → List Instr) (good : Phase → Prop) {next : Phase} (goes : good next)
    (sends : ∀ phase, good phase → ∀ byte,
      TracedRun.run flow (phase, true) (send byte) = some ((next, true), [(true, byte)]))
    (colour : UInt16) (n : Nat) {phase : Phase} (start : good phase) :
    ∃ final, good final ∧ TracedRun.run flow (phase, true) (Program.sendColour send colour n) =
      some ((final, true), (sendColour colour n).filterMap transferOf) := by
  induction n generalizing phase with
  | zero => exact ⟨phase, start, rfl⟩
  | succ n ih =>
    obtain ⟨final, ended, rest⟩ := ih goes
    refine ⟨final, ended, ?_⟩
    have both := TracedRun.run_append (sends phase start (colour >>> 8).toUInt8)
      (sends next goes (colour &&& 0xff).toUInt8)
    exact TracedRun.run_append both rest

theorem flow_fillRows (colour countM : UInt16) (n : Nat) {phase : Phase} (begun : phase ≠ .idle) :
    ∃ final, final ≠ .idle ∧ TracedRun.run flow (phase, true) (Program.fillRows colour countM n) =
      some ((final, true), (fillRows colour countM n).filterMap transferOf) := by
  induction n generalizing phase with
  | zero => exact ⟨phase, begun, rfl⟩
  | succ n ih =>
    obtain ⟨between, going, row⟩ := flow_sendColour spiAsyncIo (· ≠ .idle) (show Phase.pending ≠ .idle by decide)
      (fun _ started byte => flow_spiAsyncIo started true byte) colour countM.toNat begun
    obtain ⟨final, ended, rest⟩ := ih going
    refine ⟨final, ended, ?_⟩
    rw [Program.fillRows, fillRows, List.filterMap_append]
    exact TracedRun.run_append row rest

/-- Every call is safe from an idle bus, and makes the transfers of its actions. -/
theorem flow_program (call : Fill) (dataCommand : Bool) :
    TracedRun.run flow (.idle, dataCommand) call.program =
      some ((.idle, true), call.actions.filterMap transferOf) := by
  cases call with
  | fillN colour countN =>
    obtain ⟨final, rfl, rest⟩ := flow_sendColour spiIo (· = .idle) rfl
      (fun _ idle byte => by rw [idle]; exact flow_spiIo true byte) colour countN.toNat rfl
    have command : TracedRun.run flow (.idle, dataCommand) (Program.sendCommand memoryWrite) =
        some ((.idle, true), [(false, memoryWrite)]) := rfl
    exact TracedRun.run_append command rest
  | fillNTimesM colour countN countM =>
    have command : TracedRun.run flow (.idle, dataCommand) (Program.sendCommandAsyncBegin memoryWrite) =
        some ((.acknowledged, true), [(false, memoryWrite)]) := rfl
    obtain ⟨final, begun, rows⟩ := flow_fillRows colour countM countN.toNat (show Phase.acknowledged ≠ .idle by decide)
    have ended := TracedRun.run_append (TracedRun.run_append command rows) (flow_spiAsyncIoEnd begun true)
    rw [List.append_nil] at ended
    exact ended

theorem flow_programs (calls : List Fill) (dataCommand : Bool) :
    ∃ final, TracedRun.run flow (.idle, dataCommand) (calls.flatMap Fill.program) =
      some ((.idle, final), (calls.flatMap Fill.actions).filterMap transferOf) := by
  induction calls generalizing dataCommand with
  | nil => exact ⟨dataCommand, rfl⟩
  | cons call calls ih =>
    obtain ⟨final, rest⟩ := ih true
    refine ⟨final, ?_⟩
    rw [List.flatMap_cons, List.flatMap_cons, List.filterMap_append]
    exact TracedRun.run_append (flow_program call dataCommand) rest

theorem sendColour_add (colour : UInt16) (n m : Nat) :
    sendColour colour (n + m) = sendColour colour n ++ sendColour colour m := by
  induction n with
  | zero => simp [sendColour]
  | succ n ih =>
    rw [Nat.succ_add, sendColour, ih]
    rfl

theorem fillRows_eq_sendColour (colour countM : UInt16) (n : Nat) :
    fillRows colour countM n = sendColour colour (n * countM.toNat) := by
  induction n with
  | zero => simp [fillRows, sendColour]
  | succ n ih => rw [fillRows, ih, Nat.succ_mul, Nat.add_comm, sendColour_add]

theorem actions_plain {call : Fill} (fits : call.Fits) : call.plain.actions = call.actions := by
  cases call with
  | fillN colour countN => rfl
  | fillNTimesM colour countN countM =>
    have product : (countN * countM).toNat = countN.toNat * countM.toNat := by
      rw [UInt16.toNat_mul]
      exact Nat.mod_eq_of_lt fits
    rw [Fill.plain, Fill.actions, Fill.actions, Ili9341.fillN, Ili9341.fillNTimesM, product, fillRows_eq_sendColour]

/-- Both paths of the same drawing, from an idle bus and on any fair schedules: nothing goes wrong at any time, both
    come to their end with an idle bus, and they have made the same transfers, those of the driver's actions. -/
theorem pipelined_eq_plain (calls : List Fill) (fits : ∀ call ∈ calls, call.Fits) (unit other : Transmitter)
    (idle : unit.Idle) (idle' : other.Idle) (dataCommand dataCommand' : Bool) (schedule schedule' : Nat → Tick)
    (fair : Fair schedule) (fair' : Fair schedule') :
    let pipelined : Machine := ⟨unit, dataCommand, calls.flatMap Fill.program⟩
    let plain : Machine := ⟨other, dataCommand', (calls.map Fill.plain).flatMap Fill.program⟩
    (∀ k, ∀ o ∈ (pipelined.after schedule k).2, o.Fine) ∧
      ∃ k k', ∀ j ≥ k, ∀ j' ≥ k',
        (pipelined.after schedule j).1.program = [] ∧ (plain.after schedule' j').1.program = [] ∧
        (pipelined.after schedule j).1.unit.Idle ∧
        (pipelined.after schedule j).2.filterMap Observation.transferred =
          (plain.after schedule' j').2.filterMap Observation.transferred ∧
        (pipelined.after schedule j).2.filterMap Observation.transferred =
          (calls.flatMap Fill.actions).filterMap transferOf := by
  intro pipelined plain
  have same : (calls.map Fill.plain).flatMap Fill.actions = calls.flatMap Fill.actions := by
    rw [List.flatMap_map]
    exact List.flatMap_congr fun call member => actions_plain (fits call member)
  have serves : pipelined.Serves ((calls.flatMap Fill.actions).filterMap transferOf) :=
    ⟨.idle, idle, flow_programs calls dataCommand⟩
  have serves' : plain.Serves ((calls.flatMap Fill.actions).filterMap transferOf) := by
    rw [← same]
    exact ⟨.idle, idle', flow_programs (calls.map Fill.plain) dataCommand'⟩
  refine ⟨fun k => (serves.after schedule k).1, ?_⟩
  obtain ⟨k, ends⟩ := serves.ends fair
  obtain ⟨k', ends'⟩ := serves'.ends fair'
  refine ⟨k, k', ?_⟩
  intro j late j' late'
  obtain ⟨rests, transfers⟩ := serves.finished schedule (ends j late)
  obtain ⟨_, transfers'⟩ := serves'.finished schedule' (ends' j' late')
  exact ⟨ends j late, ends' j' late', rests, transfers.trans transfers'.symm, transfers⟩

/-- The unit completes its transfers in every other tick. -/
def alternating (k : Nat) : Tick := if k % 2 = 0 then .cpu else .complete 0

theorem fair_alternating : Fair alternating := by
  intro k
  constructor
  · exact ⟨2 * k, by omega, if_pos (by omega)⟩
  · exact ⟨2 * k + 1, by omega, 0, if_neg (by omega)⟩

theorem pipelined_eq_plain_alternating :
    let pipelined : Machine := ⟨⟨none, false, false, 0⟩, true, [Fill.fillNTimesM 0xF81F 2 3].flatMap Fill.program⟩
    ∃ k, (pipelined.after alternating k).1.program = [] ∧ (pipelined.after alternating k).1.unit.Idle := by
  intro pipelined
  have fits : ∀ call ∈ [Fill.fillNTimesM 0xF81F 2 3], call.Fits := by
    intro call member
    rw [List.mem_singleton.mp member, Fill.Fits]
    decide
  obtain ⟨k, k', ends⟩ := (pipelined_eq_plain [.fillNTimesM 0xF81F 2 3] fits ⟨none, false, false, 0⟩
    ⟨none, false, false, 0⟩ ⟨rfl, rfl⟩ ⟨rfl, rfl⟩ true true alternating alternating fair_alternating
    fair_alternating).2
  obtain ⟨done, _, idle, _⟩ := ends k (Nat.le_refl k) k' (Nat.le_refl k')
  exact ⟨k, done, idle⟩

end Minimus32.Ili9341
