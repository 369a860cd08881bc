import Minimus32.TempLogger.Interval

namespace Minimus32.TempLogger

open Framing Timer1

/-- What happens once the program is running: commands come over the serial line only. -/
def Event.Interrupt : Event → Prop
  | .setProgramVariable _ => False
  | .receive _ | .call _ _ | .tick _ => True

instance : DecidablePred Event.Interrupt
  | .setProgramVariable _ => .isFalse id
  | .receive _ | .call _ _ | .tick _ => .isTrue trivial

theorem Event.Interrupt.acceptable {e : Event} (interrupt : e.Interrupt) : e.Acceptable := by
  cases e with
  | setProgramVariable str => exact interrupt.elim
  | receive byte => trivial
  | call handler text => trivial
  | tick text => trivial

def Event.received : Event → List UInt8
  | .receive byte => [byte]
  | .setProgramVariable _ | .call _ _ | .tick _ => []

/-- The commands the received bytes come to. -/
def commands (events : List Event) : Frames UInt8 := frames ends Full (events.flatMap Event.received)

theorem commands_receive (events : List Event) (byte : UInt8) :
    commands (events ++ [.receive byte]) = (commands events).push ends Full byte := by
  rw [commands, List.flatMap_append]
  exact frames_append ends Full _ byte

theorem commands_other (events : List Event) {e : Event} (silent : e.received = []) :
    commands (events ++ [e]) = commands events := by
  rw [commands, List.flatMap_append, List.flatMap_singleton, silent, List.append_nil]
  rfl

/-- The program after bytes that come to `f`: its buffer holds the pending command, and its logging interval
    is the one last set. -/
structure Logger.Tracks (l : Logger) (f : Frames UInt8) : Prop where
  real : ∃ m, l.Realizes m
  buffers : ∃ stale, l.Buffers f.pending stale
  interval : l.programLog = f.complete.foldl setInterval 10

theorem Logger.Buffers.exists_cons {l : Logger} {m : Mode} {pending stale : List UInt8}
    (buffers : l.Buffers pending stale) (real : l.Realizes m) : ∃ old rest, stale = old :: rest := by
  have whole := buffers.length
  have inside := UInt8.le_iff_toNat_le.mp real.pointer
  rw [buffers.pointer] at inside
  change pending.length ≤ 7 at inside
  cases stale with
  | nil =>
    rw [List.length_nil] at whole
    omega
  | cons old rest => exact ⟨old, rest, rfl⟩

namespace Logger.Tracks

variable {l : Logger} {f : Frames UInt8}

theorem spared (tracks : l.Tracks f) {after : Logger} {m : Mode} (spares : l.Spares after) (real : after.Realizes m) :
    after.Tracks f := by
  obtain ⟨stale, buffers⟩ := tracks.buffers
  refine ⟨⟨m, real⟩, ⟨stale, ?_, ?_⟩, spares.interval.trans tracks.interval⟩
  · rw [spares.pointer]
    exact buffers.pointer
  · rw [spares.value]
    exact buffers.text

/-- The three things a byte can do: end the pending command, find the buffer full, or join the command. -/
theorem received (tracks : l.Tracks f) {after : Logger} {seen : List Observation} {byte : UInt8} {m : Mode}
    (done : l.receive byte = some (after, seen)) (real : after.Realizes m) : after.Tracks (f.push ends Full byte) := by
  obtain ⟨before, realBefore⟩ := tracks.real
  obtain ⟨held, buffers⟩ := tracks.buffers
  obtain ⟨old, stale, rfl⟩ := buffers.exists_cons realBefore
  have handed : after.status = l.status.handle (f.pending ++ 0 :: stale) →
      after.programLog = (f.complete ++ [f.pending]).foldl setInterval 10 := by
    intro status
    rw [List.foldl_append, ← tracks.interval]
    exact (congrArg Status.programLog status).trans (l.status.programLog_handle _ _)
  by_cases ended : ends byte
  · obtain ⟨again, _, doneAgain, buffersAfter, status⟩ := buffers.received_end realBefore ended
    cases done.symm.trans doneAgain
    rw [f.push_end ended]
    exact ⟨⟨m, real⟩, ⟨_, buffersAfter⟩, handed status⟩
  by_cases full : Full f.pending
  · obtain ⟨again, _, rest, doneAgain, buffersAfter, status⟩ := buffers.received_full realBefore ended full
    cases done.symm.trans doneAgain
    rw [f.push_full ended full]
    exact ⟨⟨m, real⟩, ⟨_, buffersAfter⟩, handed status⟩
  · obtain ⟨again, doneAgain, buffersAfter, status⟩ := buffers.receive_more ended full
    cases done.symm.trans doneAgain
    rw [f.push_more ended full]
    exact ⟨⟨m, real⟩, ⟨_, buffersAfter⟩, (congrArg Status.programLog status).trans tracks.interval⟩

end Logger.Tracks

theorem Logger.Tracks.step (l : Logger) (past : List Event) (e : Event) (tracks : l.Tracks (commands past))
    (interrupt : e.Interrupt) :
    ∃ after seen, l.step e = some (after, seen) ∧ after.Tracks (commands (past ++ [e])) := by
  obtain ⟨m, real⟩ := tracks.real
  obtain ⟨after, seen, move, done, _, _, realAfter⟩ := real.step e interrupt.acceptable
  refine ⟨after, seen, done, ?_⟩
  cases e with
  | setProgramVariable str => exact interrupt.elim
  | receive byte =>
    rw [commands_receive]
    exact tracks.received done realAfter
  | call handler text =>
    obtain ⟨called, run, same⟩ := Option.map_eq_some_iff.mp done
    cases same
    rw [commands_other past rfl]
    exact tracks.spared (spares_of_call run) realAfter
  | tick text =>
    obtain ⟨ticked, run, same⟩ := Option.map_eq_some_iff.mp done
    cases same
    rw [commands_other past rfl]
    exact tracks.spared (spares_of_tick run) realAfter

theorem Logger.boot_spares {clock : Clock Timer Handler Unit} {portd : UInt8} {text : Vector UInt8 7} {booted : Logger}
    (done : (Logger.reset clock portd).boot text = some booted) : (Logger.reset clock portd).Spares booted := by
  obtain ⟨dark, darkened, afterDark⟩ := Option.bind_eq_some_iff.mp done
  obtain ⟨⟨printed, seen⟩, commanded, afterPrint⟩ := Option.bind_eq_some_iff.mp afterDark
  cases (Logger.setProgramVariable_interval _).symm.trans commanded
  obtain ⟨logged, blinked, afterLog⟩ := Option.bind_eq_some_iff.mp afterPrint
  obtain ⟨started, registered, last⟩ := Option.bind_eq_some_iff.mp afterLog
  have first := spares_of_blinkLoggingLedOff darkened
  have second := (spares_updateTemp _ text).trans (spares_of_blinkLoggingLed blinked)
  have third := ((leaves_of_register registered).spares rfl).trans ((leaves_of_register last).spares rfl)
  exact ⟨third.value.trans (second.value.trans first.value), third.pointer.trans (second.pointer.trans first.pointer),
    third.interval.trans second.interval⟩

theorem Logger.boot_tracks (clock : Clock Timer Handler Unit) (portd : UInt8) (text : Vector UInt8 7) :
    ∃ booted, (Logger.reset clock portd).boot text = some booted ∧ booted.Tracks (commands []) := by
  obtain ⟨booted, done, real⟩ := Logger.boot_realizes clock portd text
  have spares := Logger.boot_spares done
  have buffers := Logger.Buffers.empty booted spares.pointer
  exact ⟨booted, done, ⟨_, real⟩, ⟨_, buffers⟩, spares.interval⟩

theorem Logger.Tracks.run {l : Logger} (tracks : l.Tracks (commands [])) {events : List Event}
    (interrupts : ∀ e ∈ events, e.Interrupt) :
    ∃ final trace, TracedRun.run Logger.step l events = some (final, trace) ∧ final.Tracks (commands events) := by
  have steps : ∀ (l : Logger) (past : List Event) (e : Event), l.Tracks (commands past) →
      (∀ other ∈ past ++ [e], other.Interrupt) →
      ∃ after seen, l.step e = some (after, seen) ∧ after.Tracks (commands (past ++ [e])) ∧ ∀ o ∈ seen, True := by
    intro l past e tracks every
    obtain ⟨after, seen, stepped, tracksAfter⟩ := Logger.Tracks.step l past e tracks (every e (by simp))
    exact ⟨after, seen, stepped, tracksAfter, fun _ _ => trivial⟩
  obtain ⟨final, trace, finished, kept, _⟩ := TracedRun.run_closed (fun l past => l.Tracks (commands past))
    (fun past => ∀ e ∈ past, Event.Interrupt e) (fun _ => True)
    (fun past more every e member => every e (List.mem_append_left more member)) steps events l [] tracks interrupts
  exact ⟨final, trace, finished, kept⟩

/-- From power-on, through any order of received bytes and other interrupts: every access to the serial buffer
    is inside it, since none of them fails; and a command of at most seven characters that comes after a
    terminator is handed over as it came, whatever came before. -/
theorem serial_buffer (clock : Clock Timer Handler Unit) (portd : UInt8) (text : Vector UInt8 7)
    (events : List Event) (interrupts : ∀ e ∈ events, e.Interrupt) :
    ∃ booted final trace, (Logger.reset clock portd).boot text = some booted ∧
      TracedRun.run Logger.step booted events = some (final, trace) ∧
      final.programPointer ≤ 7 ∧ final.programValue.toList[7]? = some 0 ∧
      ∀ before terminator command, events.flatMap Event.received = before ++ terminator :: command →
        ends terminator → (∀ byte ∈ command, ¬ ends byte) → command.length ≤ 7 →
          ∀ byte, ends byte → ∃ (value : Vector UInt8 8) (stale : List UInt8), value.toList = command ++ 0 :: stale ∧
            final.receive byte =
              ({ final with programValue := value }.setProgramVariable value.toList).map restart := by
  obtain ⟨booted, done, started⟩ := Logger.boot_tracks clock portd text
  obtain ⟨final, trace, finished, tracks⟩ := started.run interrupts
  obtain ⟨m, real⟩ := tracks.real
  refine ⟨booted, final, trace, done, finished, real.pointer, by simp [real.last], ?_⟩
  intro before terminator command split ended more short byte endedToo
  have pending : (commands events).pending = command := by
    have room : ∀ shorter : List UInt8, shorter.length < command.length → ¬ Full shorter := by
      intro shorter bound
      unfold Full
      omega
    rw [commands, split, frames_end_append before ended command more room]
  obtain ⟨held, buffers⟩ := tracks.buffers
  obtain ⟨old, stale, rfl⟩ := buffers.exists_cons real
  rw [pending] at buffers
  obtain ⟨value, handed, received⟩ := buffers.receive_end endedToo
  exact ⟨value, stale, handed, by rw [handed]; exact received⟩

def serial (text : List Char) : List Event := text.map fun c => .receive (ascii c)

def overlong : List Event := serial ['T', ':', '1', '2', '3', '4', '5', '6', '7', '8', ';', 'C', ':', '9', '0']

theorem serial_buffer_overlong :
    (∀ e ∈ overlong, e.Interrupt) ∧
    overlong.flatMap Event.received = ['T', ':', '1', '2', '3', '4', '5', '6', '7', '8'].map ascii ++
      ascii ';' :: ['C', ':', '9', '0'].map ascii ∧
    ∃ booted final trace, (Logger.reset blankClock 0).boot blankText = some booted ∧
      TracedRun.run Logger.step booted overlong = some (final, trace) ∧
      final.programPointer ≤ 7 ∧ final.programValue.toList[7]? = some 0 ∧
      ∀ before terminator command, overlong.flatMap Event.received = before ++ terminator :: command →
        ends terminator → (∀ byte ∈ command, ¬ ends byte) → command.length ≤ 7 →
          ∀ byte, ends byte → ∃ (value : Vector UInt8 8) (stale : List UInt8), value.toList = command ++ 0 :: stale ∧
            final.receive byte =
              ({ final with programValue := value }.setProgramVariable value.toList).map restart :=
  ⟨by decide, by decide, serial_buffer blankClock 0 blankText overlong (by decide)⟩

theorem commands_append (past rest : List Event) :
    (commands past).complete <+: (commands (past ++ rest)).complete := by
  induction rest using List.reverseRecOn with
  | nil => rw [List.append_nil]
  | append_singleton rest e ih =>
    rw [← List.append_assoc]
    cases e with
    | receive byte =>
      rw [commands_receive]
      rcases (commands (past ++ rest)).push_complete ends Full byte with same | longer
      · rwa [same]
      · rw [longer]
        exact ih.trans (List.prefix_append _ _)
    | setProgramVariable str => rwa [commands_other _ rfl]
    | call handler text => rwa [commands_other _ rfl]
    | tick text => rwa [commands_other _ rfl]

/-- Every command is the last one complete at some point. -/
theorem exists_completed {events : List Event} {text : List UInt8} (member : text ∈ (commands events).complete) :
    ∃ past rest earlier, events = past ++ rest ∧ (commands past).complete = earlier ++ [text] := by
  induction events using List.reverseRecOn with
  | nil => cases member
  | append_singleton events e ih =>
    have before : text ∈ (commands events).complete →
        ∃ past rest earlier, events ++ [e] = past ++ rest ∧ (commands past).complete = earlier ++ [text] := by
      intro earlierMember
      obtain ⟨past, rest, earlier, whole, completed⟩ := ih earlierMember
      exact ⟨past, rest ++ [e], earlier, by rw [whole, List.append_assoc], completed⟩
    cases e with
    | receive byte =>
      rw [commands_receive] at member
      rcases (commands events).push_complete ends Full byte with same | longer
      · exact before (by rwa [same] at member)
      · rw [longer] at member
        rcases List.mem_append.mp member with earlierMember | last
        · exact before earlierMember
        · rw [List.mem_singleton.mp last]
          exact ⟨_, [], _, (List.append_nil _).symm, by rw [commands_receive, longer]⟩
    | setProgramVariable str => exact before (by rwa [commands_other _ rfl] at member)
    | call handler text => exact before (by rwa [commands_other _ rfl] at member)
    | tick text => exact before (by rwa [commands_other _ rfl] at member)

theorem foldl_setInterval_divisor {texts : List (List UInt8)}
    (safe : ∀ text ∈ texts, SetsInterval text → ¬ (16384 : Int) ∣ number text) :
    texts.foldl setInterval 10 * 100 ≠ 0 := by
  induction texts using List.reverseRecOn with
  | nil => decide
  | append_singleton texts text ih =>
    rw [List.foldl_append]
    by_cases sets : SetsInterval text
    · exact mt (setInterval_divisor sets _).mp (safe text (by simp) sets)
    · show setInterval (texts.foldl setInterval 10) text * 100 ≠ 0
      rw [setInterval, if_neg sets]
      exact ih (fun earlier member => safe earlier (by simp [member]))

/-- The divisor of `statemachine` is never zero exactly when no command received sets an interval that is a
    multiple of 16384 seconds. -/
theorem divisor_never_zero_iff (clock : Clock Timer Handler Unit) (portd : UInt8) (text : Vector UInt8 7)
    (events : List Event) (interrupts : ∀ e ∈ events, e.Interrupt) :
    ∃ booted, (Logger.reset clock portd).boot text = some booted ∧
      ((∀ past rest, events = past ++ rest → ∃ l trace,
          TracedRun.run Logger.step booted past = some (l, trace) ∧ l.programLog * 100 ≠ 0) ↔
        ∀ command ∈ (commands events).complete, SetsInterval command → ¬ (16384 : Int) ∣ number command) := by
  obtain ⟨booted, done, started⟩ := Logger.boot_tracks clock portd text
  have reached : ∀ past rest, events = past ++ rest → ∃ l trace,
      TracedRun.run Logger.step booted past = some (l, trace) ∧ l.Tracks (commands past) := by
    intro past rest whole
    exact started.run (fun e member => interrupts e (by simp [whole, member]))
  refine ⟨booted, done, ?_, ?_⟩
  · intro never command member sets multiple
    obtain ⟨past, rest, earlier, whole, completed⟩ := exists_completed member
    obtain ⟨l, trace, finished, nonzero⟩ := never past rest whole
    obtain ⟨again, _, finishedAgain, tracks⟩ := reached past rest whole
    cases finished.symm.trans finishedAgain
    rw [tracks.interval, completed, List.foldl_append] at nonzero
    exact nonzero ((setInterval_divisor sets _).mpr multiple)
  · intro safe past rest whole
    obtain ⟨l, trace, finished, tracks⟩ := reached past rest whole
    refine ⟨l, trace, finished, ?_⟩
    rw [tracks.interval]
    apply foldl_setInterval_divisor
    intro command member
    have kept := (commands_append past rest).subset member
    rw [← whole] at kept
    exact safe command kept

def everyTwenty : List Event := serial ['L', ':', '2', '0', ';'] ++ [.call .statemachine blankText]

theorem divisor_never_zero_every_twenty :
    (∀ e ∈ everyTwenty, e.Interrupt) ∧
    (∀ command ∈ (commands everyTwenty).complete, SetsInterval command → ¬ (16384 : Int) ∣ number command) ∧
    ∃ booted, (Logger.reset blankClock 0).boot blankText = some booted ∧
      ((∀ past rest, everyTwenty = past ++ rest → ∃ l trace,
          TracedRun.run Logger.step booted past = some (l, trace) ∧ l.programLog * 100 ≠ 0) ↔
        ∀ command ∈ (commands everyTwenty).complete, SetsInterval command → ¬ (16384 : Int) ∣ number command) :=
  ⟨by decide, by decide, divisor_never_zero_iff blankClock 0 blankText everyTwenty (by decide)⟩

theorem divisor_zero :
    (((Logger.reset blankClock 0).boot blankText).bind fun booted =>
      (TracedRun.run Logger.step booted (serial ['L', ':', '0', ';'])).map fun final =>
        final.1.programLog * 100) = some 0 ∧
    (((Logger.reset blankClock 0).boot blankText).bind fun booted =>
      (TracedRun.run Logger.step booted (serial ['L', ':', '1', '6', '3', '8', '4', ';'])).map fun final =>
        final.1.programLog * 100) = some 0 :=
  ⟨by decide +kernel, by decide +kernel⟩

end Minimus32.TempLogger
