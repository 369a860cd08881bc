import Minimus32.Library.Framing
import Minimus32.TempLogger.Command
import Minimus32.TempLogger.Failsafe

namespace Minimus32.TempLogger

open Framing

/-- Seven characters fill the buffer; the eighth place is the terminating null's. -/
def Full (text : List UInt8) : Prop := 7 ≤ text.length

instance : DecidablePred Full := fun text => inferInstanceAs (Decidable (7 ≤ text.length))

/-- What the received bytes make of the serial buffer: the characters of the command that is being received,
    and behind them what earlier commands have left. -/
structure Logger.Buffers (l : Logger) (pending stale : List UInt8) : Prop where
  pointer : l.programPointer.toNat = pending.length
  text : l.programValue.toList = pending ++ stale

namespace Logger.Buffers

variable {l : Logger} {pending stale : List UInt8} {old : UInt8}

theorem length (buffers : l.Buffers pending stale) : pending.length + stale.length = 8 := by
  rw [← List.length_append, ← buffers.text, Vector.length_toList]

theorem empty (l : Logger) (start : l.programPointer = 0) : l.Buffers [] l.programValue.toList :=
  ⟨by rw [start]; rfl, rfl⟩

theorem storeByte (buffers : l.Buffers pending (old :: stale)) (byte : UInt8) :
    ∃ value : Vector UInt8 8, l.storeByte byte = some { l with programValue := value } ∧
      value.toList = pending ++ byte :: stale := by
  have whole := buffers.length
  have inside : l.programPointer.toNat < 8 := by
    rw [buffers.pointer]
    rw [List.length_cons] at whole
    omega
  refine ⟨l.programValue.set l.programPointer.toNat byte, dif_pos inside, ?_⟩
  rw [Vector.toList_set, buffers.text, buffers.pointer]
  simp

theorem addByte (buffers : l.Buffers pending (old :: stale)) (byte : UInt8) :
    ∃ after, l.addByte byte = some after ∧ after.Buffers (pending ++ [byte]) stale ∧ after.status = l.status := by
  have whole := buffers.length
  obtain ⟨value, stored, text⟩ := buffers.storeByte byte
  refine ⟨{ l with programValue := value, programPointer := l.programPointer + 1 }, congrArg (Option.map _) stored,
    ⟨?_, by simp [text]⟩, rfl⟩
  show (l.programPointer + 1).toNat = (pending ++ [byte]).length
  rw [List.length_cons] at whole
  rw [UInt8.toNat_add, buffers.pointer, List.length_append]
  change (pending.length + 1) % 256 = pending.length + 1
  omega

theorem full_iff (buffers : l.Buffers pending stale) : l.programPointer ≥ 7 ↔ Full pending := by
  rw [ge_iff_le, UInt8.le_iff_toNat_le, buffers.pointer]
  rfl

theorem receive_more (buffers : l.Buffers pending (old :: stale)) {byte : UInt8} (more : ¬ ends byte)
    (room : ¬ Full pending) :
    ∃ after, l.receive byte = some (after, []) ∧ after.Buffers (pending ++ [byte]) stale ∧
      after.status = l.status := by
  obtain ⟨after, added, buffersAfter, same⟩ := buffers.addByte byte
  refine ⟨after, ?_, buffersAfter, same⟩
  rw [Logger.receive, if_neg (not_or.mpr ⟨more, mt buffers.full_iff.mp room⟩), Option.bind_some]
  dsimp only
  rw [if_neg more, added]
  rfl

end Logger.Buffers

def restart (result : Logger × List Observation) : Logger × List Observation :=
  ({ result.1 with programPointer := 0 }, result.2)

namespace Logger.Buffers

variable {l : Logger} {pending stale : List UInt8} {old : UInt8}

/-- The pending characters are handed over ended by a null, in front of what the buffer still holds. -/
theorem parse_eq (buffers : l.Buffers pending (old :: stale)) :
    ∃ value : Vector UInt8 8, value.toList = pending ++ 0 :: stale ∧
      l.storeByte 0 = some { l with programValue := value } ∧
      l.parse = ({ l with programValue := value }.setProgramVariable (pending ++ 0 :: stale)).map restart := by
  obtain ⟨value, stored, text⟩ := buffers.storeByte 0
  refine ⟨value, text, stored, ?_⟩
  rw [Logger.parse, stored, Option.bind_some, ← text]
  rfl

theorem receive_end (buffers : l.Buffers pending (old :: stale)) {byte : UInt8} (ended : ends byte) :
    ∃ value : Vector UInt8 8, value.toList = pending ++ 0 :: stale ∧
      l.receive byte = ({ l with programValue := value }.setProgramVariable (pending ++ 0 :: stale)).map restart := by
  obtain ⟨value, text, _, parsed⟩ := buffers.parse_eq
  refine ⟨value, text, ?_⟩
  rw [Logger.receive, if_pos (.inl ended), ← parsed]
  simp only [if_pos ended]
  cases l.parse with
  | none => rfl
  | some result => rfl

/-- The call that is handed a command returns, and the buffer is ready for the next. -/
theorem parse (buffers : l.Buffers pending (old :: stale)) {m : Mode} (real : l.Realizes m) :
    ∃ after seen, l.parse = some (after, seen) ∧ after.Buffers [] (pending ++ 0 :: stale) ∧
      after.status = l.status.handle (pending ++ 0 :: stale) := by
  obtain ⟨value, text, stored, parsed⟩ := buffers.parse_eq
  obtain ⟨storedAgain, done, realStored, _⟩ := real.storeByte (.inl rfl)
  cases stored.symm.trans done
  have terminated := terminated_of_last realStored.last
  obtain ⟨handled, seen, _, handed, _⟩ := realStored.setProgramVariable terminated
  have leaves := Logger.leaves_of_setProgramVariable (by simp) terminated handed
  simp only [text] at handed leaves
  refine ⟨{ handled with programPointer := 0 }, seen, ?_, ⟨rfl, ?_⟩, leaves.status⟩
  · rw [parsed, handed]
    rfl
  · show handled.programValue.toList = _
    rw [leaves.value]
    exact text

theorem received_end (buffers : l.Buffers pending (old :: stale)) {m : Mode} (real : l.Realizes m) {byte : UInt8}
    (ended : ends byte) :
    ∃ after seen, l.receive byte = some (after, seen) ∧ after.Buffers [] (pending ++ 0 :: stale) ∧
      after.status = l.status.handle (pending ++ 0 :: stale) := by
  obtain ⟨after, seen, parsed, rest⟩ := buffers.parse real
  refine ⟨after, seen, ?_, rest⟩
  rw [Logger.receive, if_pos (.inl ended), parsed, Option.bind_some]
  exact if_pos ended

theorem received_full (buffers : l.Buffers pending (old :: stale)) {m : Mode} (real : l.Realizes m) {byte : UInt8}
    (more : ¬ ends byte) (full : Full pending) :
    ∃ after seen rest, l.receive byte = some (after, seen) ∧ after.Buffers [byte] rest ∧
      after.status = l.status.handle (pending ++ 0 :: stale) := by
  obtain ⟨parsed, seen, done, buffersParsed, status⟩ := buffers.parse real
  cases pending with
  | nil => exact absurd full (by decide)
  | cons first pending =>
    obtain ⟨after, added, buffersAfter, same⟩ := buffersParsed.addByte byte
    refine ⟨after, seen, _, ?_, buffersAfter, same.trans status⟩
    rw [Logger.receive, if_pos (.inr (buffers.full_iff.mpr full)), done, Option.bind_some]
    dsimp only
    rw [if_neg more, added]
    rfl

end Logger.Buffers

/-- The serial buffer and the logging interval are as they were. -/
structure Logger.Spares (l after : Logger) : Prop where
  value : after.programValue = l.programValue
  pointer : after.programPointer = l.programPointer
  interval : after.programLog = l.programLog

theorem Status.programLog_setRelay (v : Status) : v.setRelay.programLog = v.programLog := by
  unfold Status.setRelay
  dsimp only
  split_ifs
  all_goals rfl

theorem Status.programLog_change (v : Status) (old : Int16) (deciTemp : UInt16) {set : Status → Int16 → Status}
    (sets : ∀ value, (set v value).programLog = v.programLog) :
    (v.change old deciTemp set).programLog = v.programLog := by
  unfold Status.change
  split
  · rw [Status.programLog_setRelay, sets]
  · rfl

namespace Logger

variable {l between after : Logger}

theorem Leaves.spares {v : Status} (leaves : l.Leaves v after) (same : v.programLog = l.programLog) :
    l.Spares after :=
  ⟨leaves.value, leaves.pointer, (congrArg Status.programLog leaves.status).trans same⟩

theorem Spares.trans (first : l.Spares between) (second : between.Spares after) : l.Spares after :=
  ⟨second.value.trans first.value, second.pointer.trans first.pointer, second.interval.trans first.interval⟩

theorem spares_of_setRelay (done : l.setRelay = some after) : l.Spares after :=
  (leaves_of_setRelay done).spares l.status.programLog_setRelay

theorem spares_of_blinkLoggingLedOff (done : l.blinkLoggingLedOff = some after) : l.Spares after := by
  obtain ⟨freed, unregistered, rfl⟩ := Option.map_eq_some_iff.mp done
  obtain ⟨clock, _, rfl⟩ := Option.map_eq_some_iff.mp unregistered
  exact ⟨rfl, rfl, rfl⟩

theorem spares_of_blinkLoggingLed (done : l.blinkLoggingLed = some after) : l.Spares after := by
  obtain ⟨started, registered, rfl⟩ := Option.map_eq_some_iff.mp done
  obtain ⟨clock, _, rfl⟩ := Option.map_eq_some_iff.mp registered
  exact ⟨rfl, rfl, rfl⟩

theorem spares_of_stopRelayTimer (done : l.stopRelayTimer = some after) : l.Spares after := by
  obtain ⟨freed, unregistered, waiting⟩ := Option.bind_eq_some_iff.mp done
  obtain ⟨clock, _, rfl⟩ := Option.map_eq_some_iff.mp unregistered
  obtain ⟨later, _, rfl⟩ := Option.map_eq_some_iff.mp waiting
  exact ⟨rfl, rfl, rfl⟩

theorem spares_updateTemp (l : Logger) (text : Vector UInt8 7) : l.Spares (l.updateTemp text) := by
  unfold Logger.updateTemp
  split
  · exact ⟨rfl, rfl, rfl⟩
  · exact ⟨rfl, rfl, rfl⟩

theorem spares_advance (l : Logger) : l.Spares l.advance.1 := by
  unfold Logger.advance
  dsimp only
  split
  · exact ⟨rfl, rfl, rfl⟩
  · split <;> exact ⟨rfl, rfl, rfl⟩

theorem spares_of_act {text : Vector UInt8 7} {action : Action} {seen : List Action}
    (done : l.act text action = some (after, seen)) : l.Spares after := by
  cases action with
  | updateTemp =>
    cases done
    exact spares_updateTemp l text
  | updateLogged =>
    obtain ⟨_, logged, same⟩ := Option.map_eq_some_iff.mp done
    cases same
    exact spares_of_blinkLoggingLed logged
  | setRelay =>
    obtain ⟨_, set, same⟩ := Option.map_eq_some_iff.mp done
    cases same
    exact spares_of_setRelay set

theorem spares_of_statemachine {text : Vector UInt8 7} {seen : List Action}
    (done : l.statemachine text = some (after, seen)) : l.Spares after :=
  TracedRun.run_preserves (fun after => l.Spares after) (fun _ _ _ _ kept acted => kept.trans (spares_of_act acted))
    l.spares_advance done

theorem spares_of_call {text : Vector UInt8 7} {handler : Handler} (done : l.call text handler = some after) :
    l.Spares after := by
  cases handler with
  | blinkLoggingLedOff => exact spares_of_blinkLoggingLedOff done
  | stopWaiting => exact (leaves_of_stopWaiting done).spares rfl
  | stopRelayTimer => exact spares_of_stopRelayTimer done
  | statemachine =>
    obtain ⟨⟨_, seen⟩, ran, rfl⟩ := Option.map_eq_some_iff.mp done
    exact spares_of_statemachine ran
  | toggleBlueLed =>
    cases done
    exact ⟨rfl, rfl, rfl⟩

theorem spares_of_tick {text : Vector UInt8 7} (done : l.tick text = some after) : l.Spares after := by
  obtain ⟨⟨clock, found⟩, _, called⟩ := Option.bind_eq_some_iff.mp done
  have ticked : l.Spares { l with clock := clock } := ⟨rfl, rfl, rfl⟩
  cases found with
  | none =>
    cases called
    exact ticked
  | some timer => exact ticked.trans (spares_of_call called)

end Logger

end Minimus32.TempLogger
