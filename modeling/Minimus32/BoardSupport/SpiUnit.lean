import Minimus32.Library.TracedRun
import Mathlib.Data.UInt

namespace Minimus32.Spi

/-- What the code between two branches does to the SPI unit and to the data/command pin. `awaitSpif` is a loop on the
    flag in `SPSR`. -/
inductive Instr where
  | setDataCommand (high : Bool)
  | writeSpdr (byte : UInt8)
  | awaitSpif
  | readSpdr
deriving DecidableEq

/-- The SPI unit: the byte of the transfer in progress, the flag of a finished one, whether `SPSR` has been read with
    that flag set, and the byte received last. -/
structure Transmitter where
  transfer : Option UInt8
  spif : Bool
  statusRead : Bool
  received : UInt8
deriving DecidableEq

def Transmitter.readSpsr (u : Transmitter) : Transmitter := { u with statusRead := u.statusRead || u.spif }

/-- An access to `SPDR` clears the flag when `SPSR` has been read with it set. -/
def Transmitter.access (u : Transmitter) : Transmitter :=
  if u.statusRead then { u with spif := false, statusRead := false } else u

/-- A write starts a transfer; during a transfer it is lost. -/
def Transmitter.writeSpdr (u : Transmitter) (byte : UInt8) : Transmitter :=
  match u.transfer with
  | none => { u.access with transfer := some byte }
  | some _ => u.access

def Transmitter.complete (u : Transmitter) (received : UInt8) : Transmitter :=
  match u.transfer with
  | none => u
  | some _ => { u with transfer := none, spif := true, received := received }

structure Machine where
  unit : Transmitter
  dataCommand : Bool
  program : List Instr
deriving DecidableEq

/-- Either the processor runs on, or the unit completes the transfer in progress and has received a byte. -/
inductive Tick where
  | cpu
  | complete (received : UInt8)
deriving DecidableEq

inductive Observation where
  | transfer (dataCommand : Bool) (byte : UInt8)
  | collision (byte : UInt8)
  | pinChange
  | received (byte : UInt8)
deriving DecidableEq

def Observation.transferred : Observation → Option (Bool × UInt8)
  | .transfer dataCommand byte => some (dataCommand, byte)
  | .collision _ | .pinChange | .received _ => none

/-- No write is lost and the pin does not change during a transfer. -/
def Observation.Fine : Observation → Prop
  | .transfer .. | .received _ => True
  | .collision _ | .pinChange => False

def Machine.cpu (m : Machine) : Machine × List Observation :=
  match m.program with
  | [] => (m, [])
  | .setDataCommand high :: program =>
    ({ m with dataCommand := high, program },
      if m.unit.transfer.isSome ∧ high ≠ m.dataCommand then [.pinChange] else [])
  | .writeSpdr byte :: program =>
    ({ m with unit := m.unit.writeSpdr byte, program },
      [if m.unit.transfer.isSome then .collision byte else .transfer m.dataCommand byte])
  | .awaitSpif :: program =>
    ({ m with unit := m.unit.readSpsr, program := if m.unit.spif then program else m.program }, [])
  | .readSpdr :: program => ({ m with unit := m.unit.access, program }, [.received m.unit.received])

def Machine.tick (m : Machine) : Tick → Machine × List Observation
  | .cpu => m.cpu
  | .complete received => ({ m with unit := m.unit.complete received }, [])

/-- The machine after so many ticks, with all it has shown. -/
def Machine.after (m : Machine) (schedule : Nat → Tick) : Nat → Machine × List Observation
  | 0 => (m, [])
  | k + 1 =>
    let before := m.after schedule k
    let next := before.1.tick (schedule k)
    (next.1, before.2 ++ next.2)

/-- Both the processor and the unit go on for ever; how long a transfer takes is open. -/
def Fair (schedule : Nat → Tick) : Prop :=
  ∀ k, (∃ j ≥ k, schedule j = .cpu) ∧ ∃ j ≥ k, ∃ received, schedule j = .complete received

def Transmitter.Idle (u : Transmitter) : Prop := u.transfer = none ∧ u.spif = false

/-- The unit as a program without clock sees it: idle, with a transfer that may be over, or with one whose end it has
    seen. -/
inductive Phase where
  | idle
  | pending
  | acknowledged
deriving DecidableEq

/-- The steps that are safe for every duration of the transfers, with the transfer they start. -/
def flow : Phase × Bool → Instr → Option ((Phase × Bool) × List (Bool × UInt8))
  | (.idle, dataCommand), .writeSpdr byte => some ((.pending, dataCommand), [(dataCommand, byte)])
  | (.idle, _), .setDataCommand high => some ((.idle, high), [])
  | (.pending, dataCommand), .awaitSpif => some ((.acknowledged, dataCommand), [])
  | (.acknowledged, dataCommand), .awaitSpif => some ((.acknowledged, dataCommand), [])
  | (.acknowledged, _), .setDataCommand high => some ((.acknowledged, high), [])
  | (.acknowledged, dataCommand), .readSpdr => some ((.idle, dataCommand), [])
  | _, _ => none

def Transmitter.In (u : Transmitter) : Phase → Prop
  | .idle => u.Idle
  | .pending => u.transfer.isSome ∧ u.spif = false ∨ u.transfer = none ∧ u.spif = true
  | .acknowledged => u.transfer = none ∧ u.spif = true ∧ u.statusRead = true

/-- Its program is safe, and these are the transfers it still makes. -/
def Machine.Serves (m : Machine) (remaining : List (Bool × UInt8)) : Prop :=
  ∃ phase, m.unit.In phase ∧
    ∃ dataCommand, TracedRun.run flow (phase, m.dataCommand) m.program = some ((.idle, dataCommand), remaining)

theorem Transmitter.In.complete {u : Transmitter} {phase : Phase} (inside : u.In phase) (received : UInt8) :
    (u.complete received).In phase := by
  unfold Transmitter.complete
  cases transfer : u.transfer with
  | none => exact inside
  | some byte =>
    cases phase with
    | idle => exact absurd inside.1 (by simp [transfer])
    | pending => exact .inr ⟨rfl, rfl⟩
    | acknowledged => exact absurd inside.1 (by simp [transfer])

/-- What a tick does to a machine that runs a safe program. -/
structure Machine.Ticked (m after : Machine) (seen : List Observation) (remaining : List (Bool × UInt8)) : Prop where
  fine : ∀ o ∈ seen, o.Fine
  serves : ∃ later, remaining = seen.filterMap Observation.transferred ++ later ∧ after.Serves later
  program : after.program = m.program ∨ after.program.length < m.program.length
  quiet : after.program = m.program → m.unit.transfer = none → after.unit.transfer = none

theorem Machine.Serves.complete {m : Machine} {remaining : List (Bool × UInt8)} (serves : m.Serves remaining)
    (received : UInt8) : m.Ticked (m.tick (.complete received)).1 (m.tick (.complete received)).2 remaining := by
  obtain ⟨phase, inside, rest⟩ := serves
  refine ⟨by simp [Machine.tick], ⟨remaining, rfl, phase, inside.complete received, rest⟩, .inl rfl, ?_⟩
  intro _ none
  simp [Machine.tick, Transmitter.complete, none]

theorem Machine.Ticked.advanced {m after : Machine} {seen : List Observation} {remaining later : List (Bool × UInt8)}
    (fine : ∀ o ∈ seen, o.Fine) (split : remaining = seen.filterMap Observation.transferred ++ later)
    (serves : after.Serves later) {instr : Instr} (first : m.program = instr :: after.program) :
    m.Ticked after seen remaining := by
  refine ⟨fine, ⟨later, split, serves⟩, .inr (by simp [first]), ?_⟩
  intro same
  rw [first] at same
  exact absurd same.symm (List.cons_ne_self _ _)

theorem tick_setDataCommand {m : Machine} {high : Bool} {program : List Instr}
    (first : m.program = .setDataCommand high :: program) (none : m.unit.transfer = none) :
    m.tick .cpu = ({ m with dataCommand := high, program }, []) := by
  simp [Machine.tick, Machine.cpu, first, none]

theorem tick_writeSpdr {m : Machine} {byte : UInt8} {program : List Instr}
    (first : m.program = .writeSpdr byte :: program) (none : m.unit.transfer = none) :
    m.tick .cpu =
      ({ m with unit := { m.unit.access with transfer := some byte }, program }, [.transfer m.dataCommand byte]) := by
  simp [Machine.tick, Machine.cpu, first, none, Transmitter.writeSpdr]

theorem tick_awaitSpif {m : Machine} {program : List Instr} (first : m.program = .awaitSpif :: program) :
    m.tick .cpu = ({ m with unit := m.unit.readSpsr, program := if m.unit.spif then program else m.program }, []) := by
  simp [Machine.tick, Machine.cpu, first]

theorem tick_readSpdr {m : Machine} {program : List Instr} (first : m.program = .readSpdr :: program) :
    m.tick .cpu = ({ m with unit := m.unit.access, program }, [.received m.unit.received]) := by
  simp [Machine.tick, Machine.cpu, first]

theorem spif_access_of_idle {u : Transmitter} (clear : u.spif = false) : u.access.spif = false := by
  unfold Transmitter.access
  split
  · rfl
  · exact clear

theorem readSpsr_of_clear {u : Transmitter} (clear : u.spif = false) : u.readSpsr = u := by
  obtain ⟨transfer, spif, statusRead, received⟩ := u
  cases clear
  simp [Transmitter.readSpsr]

/-- The processor's tick: the loop on the flag may stay where it is while a transfer is in progress, every other
    instruction is passed. -/
theorem Machine.Serves.cpu {m : Machine} {remaining : List (Bool × UInt8)} (serves : m.Serves remaining) :
    m.Ticked (m.tick .cpu).1 (m.tick .cpu).2 remaining ∧
      (m.unit.transfer = none → m.program ≠ [] → (m.tick .cpu).1.program.length < m.program.length) := by
  obtain ⟨phase, inside, dataCommand, runs⟩ := serves
  cases first : m.program with
  | nil =>
    have still : m.tick .cpu = (m, []) := by simp [Machine.tick, Machine.cpu, first]
    rw [still]
    exact ⟨⟨by simp, ⟨remaining, rfl, phase, inside, dataCommand, runs⟩, .inl rfl, fun _ none => none⟩,
      fun _ some => absurd rfl some⟩
  | cons instr program =>
    rw [first] at runs
    obtain ⟨⟨next, pin⟩, started, later, stepped, rest, rfl⟩ := TracedRun.run_cons_eq_some.mp runs
    cases instr with
    | setDataCommand high =>
      have free : m.unit.transfer = none ∧ (next, pin) = (phase, high) ∧ started = [] := by
        cases phase with
        | idle =>
          cases stepped
          exact ⟨inside.1, rfl, rfl⟩
        | pending => cases stepped
        | acknowledged =>
          cases stepped
          exact ⟨inside.1, rfl, rfl⟩
      obtain ⟨none, same, rfl⟩ := free
      cases same
      rw [tick_setDataCommand first none]
      exact ⟨.advanced (by simp) rfl ⟨phase, inside, dataCommand, rest⟩ first, fun _ _ => by simp⟩
    | writeSpdr byte =>
      cases phase with
      | idle =>
        cases stepped
        rw [tick_writeSpdr first inside.1]
        refine ⟨.advanced (by simp [Observation.Fine]) (by simp [Observation.transferred])
          ⟨.pending, .inl ⟨rfl, spif_access_of_idle inside.2⟩, dataCommand, rest⟩ first, fun _ _ => by simp⟩
      | pending => cases stepped
      | acknowledged => cases stepped
    | awaitSpif =>
      rw [tick_awaitSpif first]
      by_cases done : m.unit.spif = true
      · have ended : m.unit.transfer = none ∧ (next, pin) = (.acknowledged, m.dataCommand) ∧ started = [] := by
          cases phase with
          | idle => cases stepped
          | pending =>
            cases stepped
            rcases inside with ⟨_, clear⟩ | ⟨none, _⟩
            · exact absurd done (by simp [clear])
            · exact ⟨none, rfl, rfl⟩
          | acknowledged =>
            cases stepped
            exact ⟨inside.1, rfl, rfl⟩
        obtain ⟨none, same, rfl⟩ := ended
        cases same
        rw [if_pos done]
        have seen : m.unit.readSpsr.In .acknowledged := ⟨none, done, by simp [Transmitter.readSpsr, done]⟩
        exact ⟨.advanced (by simp) rfl ⟨.acknowledged, seen, dataCommand, rest⟩ first, fun _ _ => by simp⟩
      · have clear : m.unit.spif = false := by simpa using done
        rw [if_neg done, readSpsr_of_clear clear]
        have busy : phase = .pending ∧ m.unit.transfer ≠ none := by
          cases phase with
          | idle => cases stepped
          | pending =>
            rcases inside with ⟨some, _⟩ | ⟨_, set⟩
            · exact ⟨rfl, fun none => by simp [none] at some⟩
            · exact absurd set done
          | acknowledged => exact absurd inside.2.1 done
        refine ⟨⟨by simp, ⟨_, rfl, phase, inside, dataCommand, ?_⟩, .inl rfl, fun _ none => none⟩,
          fun none _ => absurd none busy.2⟩
        show TracedRun.run flow (phase, m.dataCommand) m.program = _
        rw [first]
        exact runs
    | readSpdr =>
      cases phase with
      | idle => cases stepped
      | pending => cases stepped
      | acknowledged =>
        cases stepped
        have cleared : m.unit.access.In .idle := by
          unfold Transmitter.access
          rw [if_pos inside.2.2]
          exact ⟨inside.1, rfl⟩
        rw [tick_readSpdr first]
        exact ⟨.advanced (by simp [Observation.Fine]) (by simp [Observation.transferred])
          ⟨.idle, cleared, dataCommand, rest⟩ first, fun _ _ => by simp⟩

theorem Machine.Serves.tick {m : Machine} {remaining : List (Bool × UInt8)} (serves : m.Serves remaining) (t : Tick) :
    m.Ticked (m.tick t).1 (m.tick t).2 remaining := by
  cases t with
  | cpu => exact serves.cpu.1
  | complete received => exact serves.complete received

/-- Whenever it is looked at, the machine has done nothing wrong and has made the first of its transfers. -/
theorem Machine.Serves.after {m : Machine} {remaining : List (Bool × UInt8)} (serves : m.Serves remaining)
    (schedule : Nat → Tick) (k : Nat) :
    (∀ o ∈ (m.after schedule k).2, o.Fine) ∧
      ∃ later, remaining = (m.after schedule k).2.filterMap Observation.transferred ++ later ∧
        (m.after schedule k).1.Serves later := by
  induction k with
  | zero => exact ⟨by simp [Machine.after], remaining, rfl, serves⟩
  | succ k ih =>
    obtain ⟨fine, later, split, serving⟩ := ih
    have ticked := serving.tick (schedule k)
    obtain ⟨rest, more, next⟩ := ticked.serves
    refine ⟨?_, rest, ?_, next⟩
    · intro o member
      rcases List.mem_append.mp member with old | new
      · exact fine o old
      · exact ticked.fine o new
    · rw [split, more, Machine.after, List.filterMap_append, List.append_assoc]

/-- The program only gets shorter, and while it stays the same no transfer begins. -/
theorem Machine.Serves.until {m : Machine} {remaining : List (Bool × UInt8)} (serves : m.Serves remaining)
    (schedule : Nat → Tick) {k j : Nat} (order : k ≤ j) :
    (m.after schedule j).1.program.length < (m.after schedule k).1.program.length ∨
      (m.after schedule j).1.program = (m.after schedule k).1.program ∧
        ((m.after schedule k).1.unit.transfer = none → (m.after schedule j).1.unit.transfer = none) := by
  induction j, order using Nat.le_induction with
  | base => exact .inr ⟨rfl, id⟩
  | succ j _ ih =>
    obtain ⟨_, later, _, serving⟩ := serves.after schedule j
    have ticked := serving.tick (schedule j)
    have program : (m.after schedule (j + 1)).1.program = (m.after schedule j).1.program ∨
        (m.after schedule (j + 1)).1.program.length < (m.after schedule j).1.program.length := ticked.program
    rcases ih with shorter | ⟨same, quiet⟩
    · rcases program with still | less
      · exact .inl (by rw [still]; exact shorter)
      · exact .inl (less.trans shorter)
    · rcases program with still | less
      · exact .inr ⟨still.trans same, fun resting => ticked.quiet still (quiet resting)⟩
      · exact .inl (by rw [← same]; exact less)

theorem Machine.Serves.eventually_shorter {m : Machine} {remaining : List (Bool × UInt8)}
    (serves : m.Serves remaining) {schedule : Nat → Tick} (fair : Fair schedule) {k : Nat}
    (more : (m.after schedule k).1.program ≠ []) :
    ∃ j, (m.after schedule j).1.program.length < (m.after schedule k).1.program.length := by
  obtain ⟨h, late, received, completes⟩ := (fair k).2
  rcases serves.until schedule late with shorter | ⟨same, _⟩
  · exact ⟨h, shorter⟩
  · have ended : (m.after schedule (h + 1)).1 =
        { (m.after schedule h).1 with unit := (m.after schedule h).1.unit.complete received } := by
      simp only [Machine.after, completes, Machine.tick]
    have resting : (m.after schedule (h + 1)).1.unit.transfer = none := by
      rw [ended]
      unfold Transmitter.complete
      split
      next resting => exact resting
      next => rfl
    have unchanged : (m.after schedule (h + 1)).1.program = (m.after schedule k).1.program := by
      rw [ended]
      exact same
    obtain ⟨c, later, runs⟩ := (fair (h + 1)).1
    rw [← unchanged] at more ⊢
    rcases serves.until schedule later with shorter | ⟨still, quiet⟩
    · exact ⟨c, shorter⟩
    · obtain ⟨_, _, _, serving⟩ := serves.after schedule c
      have passed := serving.cpu.2 (quiet resting) (by rw [still]; exact more)
      refine ⟨c + 1, ?_⟩
      rw [Machine.after, runs, ← still]
      exact passed

/-- On every fair schedule the program comes to its end. -/
theorem Machine.Serves.ends {m : Machine} {remaining : List (Bool × UInt8)} (serves : m.Serves remaining)
    {schedule : Nat → Tick} (fair : Fair schedule) : ∃ k, ∀ j ≥ k, (m.after schedule j).1.program = [] := by
  have reaches : ∀ n k, (m.after schedule k).1.program.length = n → ∃ j, (m.after schedule j).1.program = [] := by
    intro n
    induction n using Nat.strong_induction_on with
    | _ n ih =>
      intro k size
      by_cases done : (m.after schedule k).1.program = []
      · exact ⟨k, done⟩
      · obtain ⟨j, shorter⟩ := serves.eventually_shorter fair done
        exact ih _ (by rw [← size]; exact shorter) j rfl
  obtain ⟨k, done⟩ := reaches _ 0 rfl
  refine ⟨k, ?_⟩
  intro j order
  rcases serves.until schedule order with shorter | ⟨same, _⟩
  · rw [done] at shorter
    exact absurd shorter (by simp)
  · rw [same, done]

/-- A safe program leaves the unit idle and has made its transfers, without a lost write and without a change of the
    pin during a transfer. -/
theorem Machine.Serves.finished {m : Machine} {remaining : List (Bool × UInt8)} (serves : m.Serves remaining)
    (schedule : Nat → Tick) {k : Nat} (done : (m.after schedule k).1.program = []) :
    (m.after schedule k).1.unit.Idle ∧ (m.after schedule k).2.filterMap Observation.transferred = remaining := by
  obtain ⟨_, later, split, phase, inside, dataCommand, runs⟩ := serves.after schedule k
  rw [done] at runs
  cases runs
  refine ⟨inside, ?_⟩
  rw [split, List.append_nil]

/-- `spi_io` -/
def spiIo (txData : UInt8) : List Instr := [.writeSpdr txData, .awaitSpif, .readSpdr]

/-- `spi_async_io_begin` -/
def spiAsyncIoBegin (txData : UInt8) : List Instr := [.writeSpdr txData]

/-- `spi_async_io_wait` -/
def spiAsyncIoWait : List Instr := [.awaitSpif]

/-- `spi_async_io` -/
def spiAsyncIo (txData : UInt8) : List Instr := [.awaitSpif, .readSpdr, .writeSpdr txData]

/-- `spi_async_io_end` -/
def spiAsyncIoEnd : List Instr := [.awaitSpif, .readSpdr]

theorem flow_spiIo (dataCommand : Bool) (txData : UInt8) :
    TracedRun.run flow (.idle, dataCommand) (spiIo txData) = some ((.idle, dataCommand), [(dataCommand, txData)]) :=
  rfl

theorem flow_spiAsyncIo {phase : Phase} (begun : phase ≠ .idle) (dataCommand : Bool) (txData : UInt8) :
    TracedRun.run flow (phase, dataCommand) (spiAsyncIo txData) =
      some ((.pending, dataCommand), [(dataCommand, txData)]) := by
  cases phase with
  | idle => exact absurd rfl begun
  | pending => rfl
  | acknowledged => rfl

theorem flow_spiAsyncIoEnd {phase : Phase} (begun : phase ≠ .idle) (dataCommand : Bool) :
    TracedRun.run flow (phase, dataCommand) spiAsyncIoEnd = some ((.idle, dataCommand), []) := by
  cases phase with
  | idle => exact absurd rfl begun
  | pending => rfl
  | acknowledged => rfl

end Minimus32.Spi
