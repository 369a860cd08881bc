import Minimus32.Library.Register
import Minimus32.TempLogger.Mode
import Minimus32.Timer1.Recurring

namespace Minimus32.TempLogger

open Linked Timer1

def Timer.handler : Timer → Handler
  | .loggingLed => .blinkLoggingLedOff
  | .startWaiting => .stopWaiting
  | .startRelayTimer => .stopRelayTimer
  | .statemachine => .statemachine
  | .runningMCU => .toggleBlueLed

def Logger.relayOn (l : Logger) : Bool := Register.bit l.portd 1

structure Logger.Realizes (l : Logger) (m : Mode) : Prop where
  relay : l.relayOn = m.on
  alwaysRun : l.alwaysRun = if m.control.forced then 1 else 0
  program : l.programChar = ascii 'R' ↔ m.program = true
  timer : ∃ cells, l.clock.Recurs Timer.handler cells ∧ (.startRelayTimer ∈ cells ↔ m.timed = true)
  pointer : l.programPointer ≤ 7
  last : l.programValue[7] = 0

theorem blank_iff : ascii ' ' = ascii 'R' ↔ false = true := by decide

theorem card_lt_rounds : Fintype.card Timer < rounds := by decide

namespace Logger.Realizes

variable {l : Logger} {m : Mode}

theorem setClock (real : l.Realizes m) {clock : Clock Timer Handler Unit} {cells : List Timer}
    (recurs : clock.Recurs Timer.handler cells) (timed : Bool) (member : .startRelayTimer ∈ cells ↔ timed = true) :
    Logger.Realizes { l with clock := clock } { m with timed := timed } :=
  ⟨real.relay, real.alwaysRun, real.program, ⟨cells, recurs, member⟩, real.pointer, real.last⟩

theorem register (real : l.Realizes m) (sec msec : UInt16) (timer : Timer) :
    ∃ after, l.register sec msec timer.handler timer = some after ∧
      after.Realizes { m with timed := decide (timer = .startRelayTimer) || m.timed } := by
  obtain ⟨cells, recurs, member⟩ := real.timer
  obtain ⟨clock, done, recursAfter⟩ :=
    recurs.registerCallback card_lt_rounds sec msec (show (1 : UInt8) ≠ 0 by decide) () timer
  refine ⟨{ l with clock := clock }, by rw [Logger.register, done]; rfl, real.setClock recursAfter _ ?_⟩
  rw [mem_enqueue, member, Bool.or_eq_true, decide_eq_true_eq, or_comm, eq_comm (a := timer)]

theorem unregister (real : l.Realizes m) (timer : Timer) :
    ∃ after, l.unregister timer = some after ∧
      after.Realizes { m with timed := decide (timer ≠ .startRelayTimer) && m.timed } := by
  obtain ⟨cells, recurs, member⟩ := real.timer
  obtain ⟨clock, done, recursAfter⟩ := recurs.unregisterCallback card_lt_rounds timer
  refine ⟨{ l with clock := clock }, by rw [Logger.unregister, done]; rfl, real.setClock recursAfter _ ?_⟩
  rw [recurs.holds.nodup.mem_erase_iff, member, Bool.and_eq_true, decide_eq_true_eq, ne_comm]

theorem relayStatus (real : l.Realizes m) (on : Bool) :
    (l.relayStatus (if on then 1 else 0)).Realizes { m with on := on } := by
  cases on with
  | false =>
    refine ⟨?_, real.alwaysRun, real.program, real.timer, real.pointer, real.last⟩
    show Register.bit (l.portd &&& 0b11111101) 1 = false
    rw [Register.bit_and]
    exact Bool.and_false _
  | true =>
    refine ⟨?_, real.alwaysRun, real.program, real.timer, real.pointer, real.last⟩
    show Register.bit (l.portd ||| 0b00000010) 1 = true
    rw [Register.bit_or]
    exact Bool.or_true _

theorem setRunningChar (real : l.Realizes m) (c : UInt8) : Logger.Realizes { l with runningChar := c } m :=
  { real with }

theorem blinkLoggingLedOff (real : l.Realizes m) : ∃ after, l.blinkLoggingLedOff = some after ∧ after.Realizes m := by
  obtain ⟨after, done, realAfter⟩ := real.unregister .loggingLed
  refine ⟨{ after with portd := after.portd &&& 0b11111110 }, congrArg (Option.map _) done,
    { realAfter with relay := ?_ }⟩
  show Register.bit (after.portd &&& 0b11111110) 1 = m.on
  rw [Register.bit_and, ← realAfter.relay]
  exact Bool.and_true _

theorem blinkLoggingLed (real : l.Realizes m) : ∃ after, l.blinkLoggingLed = some after ∧ after.Realizes m := by
  obtain ⟨after, done, realAfter⟩ := real.register 0 150 .loggingLed
  refine ⟨{ after with portd := after.portd ||| 0b00000001 }, congrArg (Option.map _) done,
    { realAfter with relay := ?_ }⟩
  show Register.bit (after.portd ||| 0b00000001) 1 = m.on
  rw [Register.bit_or, ← realAfter.relay]
  exact Bool.or_false _

theorem stopWaiting (real : l.Realizes m) : ∃ after, l.stopWaiting = some after ∧ after.Realizes m := by
  obtain ⟨after, done, realAfter⟩ := real.unregister .startWaiting
  exact ⟨_, congrArg (Option.map _) done, realAfter.setRunningChar _⟩

theorem startWaiting (real : l.Realizes m) : ∃ after, l.startWaiting = some after ∧ after.Realizes m :=
  (real.setRunningChar (ascii 'W')).register (l.programW / 10).toUInt16 0 .startWaiting

theorem stopRelayTimer (real : l.Realizes m) :
    ∃ after, l.stopRelayTimer = some after ∧ after.Realizes (m.move .expire) := by
  obtain ⟨freed, done, realFreed⟩ := real.unregister .startRelayTimer
  obtain ⟨after, waiting, realAfter⟩ := (realFreed.relayStatus false).startWaiting
  exact ⟨after, by rw [Logger.stopRelayTimer, done]; exact waiting, realAfter⟩

theorem startRelayTimer (real : l.Realizes m) :
    ∃ after, l.startRelayTimer = some after ∧ after.Realizes (m.move .start) := by
  obtain ⟨after, done, realAfter⟩ :=
    (real.relayStatus true).register (l.programT / 10).toUInt16 0 .startRelayTimer
  exact ⟨_, congrArg (Option.map _) done, realAfter.setRunningChar _⟩

end Logger.Realizes

/-- The call succeeds and does to the relay one of the moves allowed in `m`, one after which the commands say
    what `control` says. -/
def Follows (m : Mode) (control : Control) (result : Option Logger) : Prop :=
  ∃ after move, result = some after ∧ m.Allows move ∧ (m.move move).control = control ∧
    after.Realizes (m.move move)

theorem Follows.rest {m : Mode} {result : Option Logger} (done : ∃ after, result = some after ∧ after.Realizes m) :
    Follows m m.control result := by
  obtain ⟨after, returned, real⟩ := done
  exact ⟨after, .rest, returned, trivial, rfl, real⟩

namespace Logger.Realizes

variable {l : Logger} {m : Mode}

theorem forced (real : l.Realizes m) (always : l.alwaysRun ≠ 0) : m.control.forced = true := by
  by_contra other
  rw [real.alwaysRun, if_neg other] at always
  exact always rfl

theorem not_forced (real : l.Realizes m) (never : l.alwaysRun = 0) : m.control.forced = false := by
  by_contra other
  rw [real.alwaysRun, if_pos (Bool.eq_true_of_not_eq_false other)] at never
  exact absurd never (by decide)

theorem setRelay (real : l.Realizes m) : Follows m m.control l.setRelay := by
  unfold Logger.setRelay
  split
  · rename_i always
    exact ⟨_, .hold, rfl, real.forced always, rfl, (real.relayStatus true).setRunningChar _⟩
  · rename_i never
    split
    · rename_i running
      dsimp only
      split
      · obtain ⟨after, done, realAfter⟩ := real.startRelayTimer
        exact ⟨after, .start, done, ⟨real.not_forced (not_not.mp never), real.program.mp running.1⟩, rfl, realAfter⟩
      · exact ⟨_, .switchOff, rfl, trivial, rfl, real.relayStatus false⟩
    · exact .rest ⟨l, rfl, real⟩

theorem change (real : l.Realizes m) (old : Int16) (deciTemp : UInt16) {set : Logger → Int16 → Logger}
    (unrelated : ∀ value, (set l value).Realizes m) : Follows m m.control (l.change old deciTemp set) := by
  unfold Logger.change
  split
  · exact (unrelated deciTemp.toInt16).setRelay
  · exact .rest ⟨l, rfl, real⟩

theorem deactivate (real : l.Realizes m) :
    ∃ after, l.deactivate = some after ∧ after.Realizes { m with on := false, program := false } := by
  have cleared : Logger.Realizes { l with programChar := ascii ' ' } { m with program := false } :=
    { real with program := blank_iff }
  exact (cleared.relayStatus false).stopWaiting

theorem command (real : l.Realizes m) (type : UInt8) (deciTemp : UInt16) :
    Follows m (m.control.observe (.commanded type)) (l.command type deciTemp) := by
  unfold Logger.command
  by_cases plus : type = ascii '+'
  · have forced : Logger.Realizes { l with alwaysRun := 1 } { m with control := ⟨false, true⟩ } :=
      { real with alwaysRun := rfl }
    simp only [Control.observe, if_pos plus]
    exact ⟨_, .force, rfl, trivial, rfl, forced.relayStatus true⟩
  by_cases minus : type = ascii '-'
  · have released : Logger.Realizes { l with alwaysRun := 0 } { m with control := .halted } :=
      { real with alwaysRun := rfl }
    obtain ⟨after, done, realAfter⟩ := released.deactivate
    simp only [Control.observe, if_neg plus, if_pos minus]
    exact ⟨after, .release, done, trivial, rfl, realAfter⟩
  by_cases stop : type = ascii 'S'
  · obtain ⟨after, done, realAfter⟩ := real.deactivate
    simp only [Control.observe, if_neg plus, if_neg minus, if_pos stop]
    exact ⟨after, .halt, done, trivial, rfl, { realAfter with }⟩
  by_cases run : type = ascii 'R'
  · simp only [Control.observe, if_neg plus, if_neg minus, if_neg stop, if_pos run]
    split
    · exact ⟨_, .resume true, rfl, trivial, rfl, { real with program := by simp [Mode.move] }⟩
    · exact ⟨_, .resume false, rfl, trivial, rfl, { real with program := by simp [Mode.move, real.program] }⟩
  simp only [Control.observe, if_neg plus, if_neg minus, if_neg stop, if_neg run]
  split
  · exact real.change _ _ (fun _ => { real with })
  split
  · exact real.change _ _ (fun _ => { real with })
  split
  · exact real.change _ _ (fun _ => { real with })
  split
  · exact real.change _ _ (fun _ => { real with })
  split
  · exact .rest ⟨_, rfl, { real with }⟩
  · exact .rest ⟨l, rfl, real⟩

theorem updateTemp (real : l.Realizes m) (text : Vector UInt8 7) : (l.updateTemp text).Realizes m := by
  unfold Logger.updateTemp
  split
  · exact { real with }
  · exact { real with }

theorem advance (real : l.Realizes m) : l.advance.1.Realizes m := by
  unfold Logger.advance
  dsimp only
  split
  · exact { real with }
  · split <;> exact { real with }

theorem statemachine (real : l.Realizes m) (text : Vector UInt8 7) :
    Follows m m.control ((l.statemachine text).map Prod.fst) := by
  have counted := real.advance
  rw [l.statemachine_eq, Option.map_map, show Prod.fst ∘ (·, l.advance.2.actions) = id from rfl, Option.map_id]
  cases l.advance.2 with
  | log =>
    obtain ⟨logged, done, realLogged⟩ := (counted.updateTemp text).blinkLoggingLed
    rw [id, Logger.updateLogged, done]
    exact realLogged.setRelay
  | oneSec => exact (counted.updateTemp text).setRelay
  | none => exact .rest ⟨_, rfl, counted⟩

theorem call (real : l.Realizes m) (text : Vector UInt8 7) (handler : Handler) :
    Follows m m.control (l.call text handler) := by
  cases handler with
  | blinkLoggingLedOff => exact .rest real.blinkLoggingLedOff
  | stopWaiting => exact .rest real.stopWaiting
  | stopRelayTimer =>
    obtain ⟨after, done, realAfter⟩ := real.stopRelayTimer
    exact ⟨after, .expire, done, trivial, rfl, realAfter⟩
  | statemachine => exact real.statemachine text
  | toggleBlueLed => exact .rest ⟨l, rfl, real⟩

theorem tick (real : l.Realizes m) (text : Vector UInt8 7) : Follows m m.control (l.tick text) := by
  obtain ⟨cells, recurs, member⟩ := real.timer
  obtain ⟨clock, found, done, recursAfter⟩ := recurs.isrAtomic card_lt_rounds
  have ticked := real.setClock recursAfter m.timed member
  unfold Logger.tick
  rw [done]
  cases found with
  | none => exact .rest ⟨_, rfl, ticked⟩
  | some timer => exact ticked.call text _

end Logger.Realizes

def Terminated (str : List UInt8) : Prop := 0 ∈ (str.drop 2).take 256

theorem scanValue_of_mem {str : List UInt8} (terminated : 0 ∈ str) (deciTemp : UInt16) (dotFound : UInt8) :
    ∃ value, scanValue str deciTemp dotFound = some value := by
  induction str generalizing deciTemp dotFound with
  | nil => cases terminated
  | cons c str ih =>
    unfold scanValue
    split
    · exact ⟨_, rfl⟩
    · rename_i more
      have later : 0 ∈ str := (List.mem_cons.mp terminated).resolve_left (Ne.symm more)
      split
      · exact ih later _ _
      · exact ih later _ _

theorem terminated_of_last {value : Vector UInt8 8} (last : value[7] = 0) : Terminated value.toList := by
  unfold Terminated
  rw [List.take_of_length_le (by simp), List.mem_iff_getElem]
  exact ⟨5, by simp, by simpa using last⟩

/-- `Follows` for a call whose commands are observed. -/
def Traces (m : Mode) (result : Option (Logger × List Observation)) : Prop :=
  ∃ after seen move, result = some (after, seen) ∧ m.Allows move ∧
    (m.move move).control = seen.foldl Control.observe m.control ∧ after.Realizes (m.move move)

theorem Follows.traces {m : Mode} {result : Option Logger} {seen : List Observation}
    (follows : Follows m (seen.foldl Control.observe m.control) result) : Traces m (result.map (·, seen)) := by
  obtain ⟨after, move, done, allowed, control, real⟩ := follows
  exact ⟨after, seen, move, by rw [done]; rfl, allowed, control, real⟩

namespace Logger.Realizes

variable {l : Logger} {m : Mode}

theorem setProgramVariable (real : l.Realizes m) {str : List UInt8} (terminated : Terminated str) :
    Traces m (l.setProgramVariable str) := by
  have ignored : Traces m (some (l, [])) := ⟨l, [], .rest, rfl, trivial, rfl, real⟩
  obtain ⟨⟨deciTemp, dotFound⟩, scanned⟩ := scanValue_of_mem terminated 0 0
  unfold Logger.setProgramVariable
  dsimp only
  split
  · exact ignored
  · rw [scanned, Option.bind_some]
    dsimp only
    split
    · exact ignored
    · exact (real.command _ _).traces

theorem storeByte (real : l.Realizes m) {byte : UInt8} (keeps : byte = 0 ∨ l.programPointer < 7) :
    ∃ after, l.storeByte byte = some after ∧ after.Realizes m ∧ after.programPointer = l.programPointer := by
  have inside : l.programPointer.toNat < 8 := Nat.lt_succ_of_le (UInt8.le_iff_toNat_le.mp real.pointer)
  refine ⟨_, dif_pos inside, { real with last := ?_ }, rfl⟩
  show (l.programValue.set l.programPointer.toNat byte)[7] = 0
  rw [Vector.getElem_set]
  split
  · rename_i same
    rcases keeps with null | room
    · exact null
    · exact absurd same (Nat.ne_of_lt (UInt8.lt_iff_toNat_lt.mp room))
  · exact real.last

theorem parse (real : l.Realizes m) :
    ∃ after seen move, l.parse = some (after, seen) ∧ m.Allows move ∧
      (m.move move).control = seen.foldl Control.observe m.control ∧ after.Realizes (m.move move) ∧
      after.programPointer = 0 := by
  obtain ⟨stored, done, realStored, _⟩ := real.storeByte (.inl rfl)
  obtain ⟨after, seen, move, parsed, allowed, control, realAfter⟩ :=
    realStored.setProgramVariable (terminated_of_last realStored.last)
  refine ⟨{ after with programPointer := 0 }, seen, move, ?_, allowed, control, { realAfter with pointer := ?_ }, rfl⟩
  · rw [Logger.parse, done, Option.bind_some, parsed]
    rfl
  · show (0 : UInt8) ≤ 7
    decide

theorem addByte (real : l.Realizes m) (room : l.programPointer < 7) (byte : UInt8) :
    ∃ after, l.addByte byte = some after ∧ after.Realizes m := by
  obtain ⟨stored, done, realStored, pointer⟩ := real.storeByte (.inr room)
  refine ⟨{ stored with programPointer := stored.programPointer + 1 }, congrArg (Option.map _) done,
    { realStored with pointer := ?_ }⟩
  show stored.programPointer + 1 ≤ 7
  rw [pointer]
  have small := UInt8.lt_iff_toNat_lt.mp room
  rw [UInt8.le_iff_toNat_le, UInt8.toNat_add]
  change l.programPointer.toNat < 7 at small
  change (l.programPointer.toNat + 1) % 256 ≤ 7
  omega

theorem receive (real : l.Realizes m) (byte : UInt8) : Traces m (l.receive byte) := by
  unfold Logger.receive
  split
  · obtain ⟨parsed, seen, move, done, allowed, control, realParsed, empty⟩ := real.parse
    rw [done, Option.bind_some]
    dsimp only
    split
    · exact ⟨parsed, seen, move, rfl, allowed, control, realParsed⟩
    · obtain ⟨after, added, realAfter⟩ := realParsed.addByte (by rw [empty]; decide) byte
      refine ⟨after, seen, move, ?_, allowed, control, realAfter⟩
      rw [added]
      rfl
  · rename_i unfinished
    obtain ⟨more, room⟩ := not_or.mp unfinished
    obtain ⟨after, added, realAfter⟩ := real.addByte (UInt8.not_le.mp room) byte
    rw [Option.bind_some]
    dsimp only
    rw [if_neg more, added]
    exact ⟨after, [], .rest, rfl, trivial, rfl, realAfter⟩

end Logger.Realizes

instance (str : List UInt8) : Decidable (Terminated str) := inferInstanceAs (Decidable (0 ∈ _))

/-- Both callers of `setProgramVariable` give it a string that ends within its buffer. -/
def Event.Acceptable : Event → Prop
  | .setProgramVariable str => Terminated str
  | _ => True

instance : DecidablePred Event.Acceptable
  | .setProgramVariable str => inferInstanceAs (Decidable (Terminated str))
  | .receive _ | .call _ _ | .tick _ => .isTrue trivial

theorem Logger.Realizes.step {l : Logger} {m : Mode} (real : l.Realizes m) (e : Event) (acceptable : e.Acceptable) :
    Traces m (l.step e) := by
  cases e with
  | receive byte => exact real.receive byte
  | setProgramVariable str => exact real.setProgramVariable acceptable
  | call handler text => exact (real.call text handler).traces
  | tick text => exact (real.tick text).traces

end Minimus32.TempLogger
