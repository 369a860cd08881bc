import Minimus32.TempLogger.Relay

namespace Minimus32.TempLogger

open Timer1

def Mode.booted : Mode := ⟨false, false, false, ⟨false, false⟩⟩

theorem Mode.booted_safe : Mode.booted.Safe :=
  ⟨fun on => absurd on Bool.false_ne_true, fun stopped => absurd stopped Bool.false_ne_true⟩

theorem Logger.reset_realizes (clock : Clock Timer Handler Unit) (portd : UInt8) :
    Logger.Realizes (Logger.reset clock.init portd) { Mode.booted with on := Register.bit portd 1 } where
  relay := rfl
  alwaysRun := rfl
  program := blank_iff
  timer := ⟨[], clock.init_recurs _, by simp [Mode.booted]⟩
  pointer := show (0 : UInt8) ≤ 7 by decide
  last := rfl

/-- `main` prints the interval it starts with by giving the command that sets it. -/
theorem Logger.setProgramVariable_interval (l : Logger) :
    l.setProgramVariable [ascii 'L', ascii ':', ascii '1', ascii '0', 0] =
      some ({ l with programLog := 10 }, [.commanded (ascii 'L')]) := rfl

theorem Logger.boot_realizes (clock : Clock Timer Handler Unit) (portd : UInt8) (text : Vector UInt8 7) :
    ∃ booted, (Logger.reset clock portd).boot text = some booted ∧ booted.Realizes .booted := by
  obtain ⟨dark, darkened, realDark⟩ := (Logger.reset_realizes clock portd).blinkLoggingLedOff
  have printed : Logger.Realizes { dark.relayStatus 0 with programLog := 10 } .booted :=
    { realDark.relayStatus false with }
  obtain ⟨logged, blinked, realLogged⟩ := (printed.updateTemp text).blinkLoggingLed
  -- The second `timer1_clock_init` drops the logging LED's callback.
  have cleared := realLogged.setClock (logged.clock.init_recurs _) false (by simp)
  obtain ⟨started, registered, realStarted⟩ := cleared.register 0 10 .statemachine
  obtain ⟨booted, done, realBooted⟩ := realStarted.register 0 250 .runningMCU
  refine ⟨booted, ?_, realBooted⟩
  refine Option.bind_eq_some_iff.mpr ⟨dark, darkened, ?_⟩
  refine Option.bind_eq_some_iff.mpr ⟨_, Logger.setProgramVariable_interval _, ?_⟩
  refine Option.bind_eq_some_iff.mpr ⟨logged, blinked, ?_⟩
  exact Option.bind_eq_some_iff.mpr ⟨started, registered, done⟩

def Logger.Guarded (l : Logger) (control : Control) : Prop := ∃ m, l.Realizes m ∧ m.Safe ∧ m.control = control

theorem Logger.Guarded.step (l : Logger) (control : Control) (e : Event) (guarded : l.Guarded control)
    (acceptable : e.Acceptable) :
    ∃ after seen, l.step e = some (after, seen) ∧ after.Guarded (seen.foldl Control.observe control) := by
  obtain ⟨m, real, safe, rfl⟩ := guarded
  obtain ⟨after, seen, move, done, allowed, same, realAfter⟩ := real.step e acceptable
  exact ⟨after, seen, done, m.move move, realAfter, safe.move allowed, same⟩

theorem Logger.Guarded.run {l : Logger} {control : Control} (guarded : l.Guarded control) {events : List Event}
    (acceptable : ∀ e ∈ events, e.Acceptable) :
    ∃ final trace, TracedRun.run Logger.step l events = some (final, trace) ∧
      final.Guarded (trace.foldl Control.observe control) :=
  TracedRun.run_total Logger.Guarded (fun _ e => e.Acceptable) Logger.Guarded.step events l control guarded
    (.of_forall (fun e member _ => acceptable e member) l)

/-- The struct of the relay's timer is on the chain, and turns the relay off when it fires. -/
def Logger.TurnOffRegistered (l : Logger) : Prop :=
  ∃ cells, l.clock.links.Holds cells ∧ .startRelayTimer ∈ cells ∧
    (l.clock.structs .startRelayTimer).callback = .stopRelayTimer

theorem Logger.Guarded.scheduled {l : Logger} {control : Control} (guarded : l.Guarded control)
    (on : l.relayOn = true) : l.alwaysRun = 1 ∨ (l.programChar = ascii 'R' ∧ l.TurnOffRegistered) := by
  obtain ⟨m, real, safe, _⟩ := guarded
  rcases safe.scheduled (real.relay.symm.trans on) with forced | ⟨program, timed⟩
  · left
    rw [real.alwaysRun, if_pos forced]
  · obtain ⟨cells, recurs, member⟩ := real.timer
    have registered := member.mpr timed
    exact .inr ⟨real.program.mpr program, cells, recurs.holds, registered, recurs.callback registered⟩

theorem Logger.Guarded.not_forced {l : Logger} {control : Control} (guarded : l.Guarded control)
    (never : l.alwaysRun = 0) : control.forced = false := by
  obtain ⟨m, real, _, rfl⟩ := guarded
  exact real.not_forced never

theorem Logger.Guarded.off {l : Logger} (guarded : l.Guarded .halted) : l.relayOn = false := by
  obtain ⟨m, real, safe, control⟩ := guarded
  have stopped : m.control.stopped = true := by rw [control]; rfl
  have notForced : m.control.forced = false := by rw [control]; rfl
  exact real.relay.trans (safe.off stopped notForced).1

/-- From power-on, through any order of serial bytes, commands, timer interrupts and handler calls, with any
    temperature text, the relay is on only when that is commanded or while a running program has its turn-off
    registered; and after a command to stop, unless it is commanded on, it is off and stays off until the
    program is resumed or the relay commanded on. -/
theorem relay_failsafe (clock : Clock Timer Handler Unit) (portd : UInt8) (text : Vector UInt8 7)
    (events : List Event) (acceptable : ∀ e ∈ events, e.Acceptable) :
    ∃ booted final trace, (Logger.reset clock portd).boot text = some booted ∧
      TracedRun.run Logger.step booted events = some (final, trace) ∧
      (final.relayOn = true → final.alwaysRun = 1 ∨ (final.programChar = ascii 'R' ∧ final.TurnOffRegistered)) ∧
      ((trace.foldl Control.observe ⟨false, false⟩).stopped = true → final.alwaysRun = 0 →
        final.relayOn = false ∧
          ∀ more later rest, (∀ e ∈ more, e.Acceptable) →
            TracedRun.run Logger.step final more = some (later, rest) → Quiet rest → later.relayOn = false) := by
  obtain ⟨booted, done, real⟩ := Logger.boot_realizes clock portd text
  have guarded : booted.Guarded ⟨false, false⟩ := ⟨_, real, Mode.booted_safe, rfl⟩
  obtain ⟨final, trace, finished, kept⟩ := guarded.run acceptable
  refine ⟨booted, final, trace, done, finished, kept.scheduled, ?_⟩
  intro stopped never
  have halted : trace.foldl Control.observe ⟨false, false⟩ = .halted := Control.ext stopped (kept.not_forced never)
  rw [halted] at kept
  refine ⟨kept.off, ?_⟩
  intro more later rest acceptableMore continued quiet
  obtain ⟨reached, seen, again, keptLater⟩ := kept.run acceptableMore
  cases continued.symm.trans again
  rw [Control.foldl_halted quiet] at keptLater
  exact keptLater.off

def typed (text : List Char) : Event := .setProgramVariable (text.map ascii ++ [0])

def heating : List Event :=
  [typed ['C', ':', '9', '0'], typed ['D', ':', '1'], typed ['T', ':', '5'], typed ['W', ':', '5'], typed ['R', ':'],
    typed ['C', ':', '8', '0']]

def blankClock : Clock Timer Handler Unit := ⟨.zero, none, fun _ => ⟨⟨.zero, 0, 0, (), .toggleBlueLed⟩, none⟩⟩

def blankText : Vector UInt8 7 := Vector.replicate 7 0

theorem relay_failsafe_heating :
    (((Logger.reset blankClock 0).boot blankText).bind fun booted =>
      (TracedRun.run Logger.step booted heating).map fun final => final.1.relayOn) = some true ∧
    (∀ e ∈ heating, e.Acceptable) ∧
    ∃ booted final trace, (Logger.reset blankClock 0).boot blankText = some booted ∧
      TracedRun.run Logger.step booted heating = some (final, trace) ∧
      (final.relayOn = true → final.alwaysRun = 1 ∨ (final.programChar = ascii 'R' ∧ final.TurnOffRegistered)) ∧
      ((trace.foldl Control.observe ⟨false, false⟩).stopped = true → final.alwaysRun = 0 →
        final.relayOn = false ∧
          ∀ more later rest, (∀ e ∈ more, e.Acceptable) →
            TracedRun.run Logger.step final more = some (later, rest) → Quiet rest → later.relayOn = false) :=
  ⟨by decide +kernel, by decide, relay_failsafe blankClock 0 blankText heating (by decide)⟩

end Minimus32.TempLogger
