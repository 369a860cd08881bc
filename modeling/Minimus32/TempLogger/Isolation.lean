import Minimus32.TempLogger.Stream

namespace Minimus32.TempLogger

open Timer1

/-- The command of one letter changes nothing. -/
def Status.Settled (v : Status) (type : UInt8) : Prop :=
  if type = ascii '+' then v.alwaysRun = 1 ∧ v.relay = true
  else if type = ascii '-' then
    v.alwaysRun = 0 ∧ v.programChar = ascii ' ' ∧ v.relay = false ∧ v.runningChar = ascii ' '
  else if type = ascii 'S' then v.programChar = ascii ' ' ∧ v.relay = false ∧ v.runningChar = ascii ' '
  else v.programChar = ascii 'R' ∨ v.programC = 0 ∨ v.programD = 0 ∨ v.programT = 0 ∨ v.programW = 0

theorem Status.command_eq_self_iff (v : Status) {type : UInt8} (bare : Bare type) (deciTemp : UInt16) :
    v.command type deciTemp = v ↔ v.Settled type := by
  obtain ⟨c, d, t, w, log, program, running, always, temp, relay⟩ := v
  rcases bare with rfl | rfl | rfl | rfl
  · show (if c ≠ 0 ∧ d ≠ 0 ∧ t ≠ 0 ∧ w ≠ 0 then _ else _) = _ ↔
      program = ascii 'R' ∨ c = 0 ∨ d = 0 ∨ t = 0 ∨ w = 0
    split
    · rename_i set
      rw [Status.mk.injEq]
      grind
    · rename_i unset
      grind
  · show Status.mk _ _ _ _ _ _ _ _ _ _ = _ ↔ program = ascii ' ' ∧ relay = false ∧ running = ascii ' '
    rw [Status.mk.injEq]
    grind
  · show Status.mk _ _ _ _ _ _ _ _ _ _ = _ ↔ always = 1 ∧ relay = true
    rw [Status.mk.injEq]
    grind
  · show Status.mk _ _ _ _ _ _ _ _ _ _ = _ ↔
      always = 0 ∧ program = ascii ' ' ∧ relay = false ∧ running = ascii ' '
    rw [Status.mk.injEq]
    grind

theorem Status.command_bare (v : Status) {type : UInt8} (bare : Bare type) (deciTemp : UInt16) :
    v.command type deciTemp = v.command type 0 := by
  rcases bare with rfl | rfl | rfl | rfl
  all_goals rfl

theorem Status.handle_single (v : Status) (type : UInt8) (stale : List UInt8) :
    v.handle (type :: 0 :: stale) =
      if Bare type ∧ dots (type :: 0 :: stale) ≤ 1 then v.command type 0 else v := by
  unfold Status.handle
  by_cases accepted : Accepted (type :: 0 :: stale)
  · have bare : Bare type := accepted.1.resolve_right null_ne_colon
    rw [if_pos accepted, if_pos ⟨bare, accepted.2⟩]
    exact v.command_bare bare _
  · rw [if_neg accepted, if_neg (fun both => accepted ⟨.inl both.1, both.2⟩)]

theorem Status.handle_null (v : Status) (stale : List UInt8) : v.handle (0 :: stale) = v := by
  unfold Status.handle
  split
  · rfl
  · rfl

theorem Status.handle_of_length_ne_one (v : Status) {text : List UInt8} (other : text.length ≠ 1)
    (first second : List UInt8) : v.handle (text ++ 0 :: first) = v.handle (text ++ 0 :: second) := by
  match text with
  | [] => exact (v.handle_null first).trans (v.handle_null second).symm
  | [type] => exact absurd rfl other
  | type :: colon :: rest =>
    have long : 2 ≤ (type :: colon :: rest).length := by simp
    have same := (body_append long first).trans (body_append long second).symm
    have accepted : Accepted (type :: colon :: rest ++ 0 :: first) ↔
        Accepted (type :: colon :: rest ++ 0 :: second) := by
      unfold Accepted dots
      rw [same]
      rfl
    have value : valueOf (type :: colon :: rest ++ 0 :: first) = valueOf (type :: colon :: rest ++ 0 :: second) := by
      unfold valueOf dots
      rw [same]
      rfl
    exact if_congr accepted (congrArg (v.command type) value) rfl

/-- The only commands whose handling looks at what earlier ones have left are those of one letter: a second dot
    behind them makes the letter void. -/
def Isolated (v : Status) (command first second : List UInt8) : Prop :=
  ∀ type, command = [type] → Bare type → ¬ v.Settled type → (dots first ≤ 1 ↔ dots second ≤ 1)

theorem Status.handle_eq_iff (v : Status) (command first second : List UInt8) :
    v.handle (command ++ 0 :: first.drop (command.length + 1)) =
        v.handle (command ++ 0 :: second.drop (command.length + 1)) ↔
      Isolated v command first second := by
  by_cases single : ∃ type, command = [type]
  · obtain ⟨type, rfl⟩ := single
    show v.handle (type :: 0 :: first.drop 2) = v.handle (type :: 0 :: second.drop 2) ↔ _
    rw [v.handle_single, v.handle_single]
    change (if Bare type ∧ dots first ≤ 1 then _ else _) = (if Bare type ∧ dots second ≤ 1 then _ else _) ↔ _
    by_cases bare : Bare type
    · have asked : Isolated v [type] first second ↔
          (¬ v.command type 0 = v → (dots first ≤ 1 ↔ dots second ≤ 1)) := by
        rw [v.command_eq_self_iff bare 0]
        exact ⟨fun isolated => isolated type rfl bare, fun alike _ same _ => by cases same; exact alike⟩
      rw [asked]
      by_cases firstFew : dots first ≤ 1
      · by_cases secondFew : dots second ≤ 1
        · simp [firstFew, secondFew]
        · simp [bare, firstFew, secondFew]
      · by_cases secondFew : dots second ≤ 1
        · simp [bare, firstFew, secondFew, eq_comm]
        · simp [firstFew, secondFew]
    · rw [if_neg (fun both => bare both.1), if_neg (fun both => bare both.1)]
      refine iff_of_true rfl ?_
      rintro other ⟨⟩ otherBare
      exact absurd otherBare bare
  · have other : command.length ≠ 1 := fun one => single (List.length_eq_one_iff.mp one)
    refine iff_of_true (v.handle_of_length_ne_one other _ _) ?_
    intro type same
    exact absurd ⟨type, same⟩ single

namespace Logger.Buffers

theorem receive_command {l : Logger} {m : Mode} {pending stale : List UInt8} (buffers : l.Buffers pending stale)
    (real : l.Realizes m) {command : List UInt8} (more : ∀ byte ∈ command, ¬ ends byte)
    (short : pending.length + command.length ≤ 7) {terminator : UInt8} (ended : ends terminator) :
    ∃ after trace, TracedRun.run Logger.step l ((command ++ [terminator]).map .receive) = some (after, trace) ∧
      after.status = l.status.handle (pending ++ command ++ 0 :: stale.drop (command.length + 1)) := by
  induction command generalizing l m pending stale with
  | nil =>
    obtain ⟨old, rest, rfl⟩ := buffers.exists_cons real
    obtain ⟨after, seen, done, _, status⟩ := buffers.received_end real ended
    refine ⟨after, seen ++ [], TracedRun.run_cons_eq_some.mpr ⟨after, seen, [], done, rfl, rfl⟩, ?_⟩
    rw [status, List.append_nil]
    rfl
  | cons byte command ih =>
    obtain ⟨old, rest, rfl⟩ := buffers.exists_cons real
    rw [List.length_cons] at short
    have room : ¬ Full pending := by
      unfold Full
      omega
    obtain ⟨between, done, buffersBetween, same⟩ := buffers.receive_more (more byte (by simp)) room
    obtain ⟨again, seen, move, doneAgain, _, _, realBetween⟩ := real.receive byte
    cases done.symm.trans doneAgain
    obtain ⟨after, trace, finished, status⟩ := ih buffersBetween realBetween
      (fun later member => more later (by simp [member])) (by simp; omega)
    refine ⟨after, [] ++ trace, TracedRun.run_cons_eq_some.mpr ⟨between, [], trace, done, finished, rfl⟩, ?_⟩
    rw [status, same]
    simp

end Logger.Buffers

/-- Through any two histories that leave the same variables, flags and relay and no command unfinished, a command
    of at most seven characters has the same effect exactly when it is isolated from what they left behind. -/
theorem command_isolation (clock : Clock Timer Handler Unit) (portd : UInt8) (text : Vector UInt8 7)
    (first second : List Event) (acceptableFirst : ∀ e ∈ first, e.Acceptable)
    (acceptableSecond : ∀ e ∈ second, e.Acceptable) (command : List UInt8) (short : command.length ≤ 7)
    (more : ∀ byte ∈ command, ¬ ends byte) (terminator : UInt8) (ended : ends terminator) :
    ∃ booted l other trace otherTrace, (Logger.reset clock portd).boot text = some booted ∧
      TracedRun.run Logger.step booted first = some (l, trace) ∧
      TracedRun.run Logger.step booted second = some (other, otherTrace) ∧
      (l.status = other.status → l.programPointer = 0 → other.programPointer = 0 →
        ∃ after otherAfter seen otherSeen,
          TracedRun.run Logger.step l ((command ++ [terminator]).map .receive) = some (after, seen) ∧
          TracedRun.run Logger.step other ((command ++ [terminator]).map .receive) = some (otherAfter, otherSeen) ∧
          (after.status = otherAfter.status ↔
            Isolated l.status command l.programValue.toList other.programValue.toList)) := by
  obtain ⟨booted, done, real⟩ := Logger.boot_realizes clock portd text
  have guarded : booted.Guarded ⟨false, false⟩ := ⟨_, real, Mode.booted_safe, rfl⟩
  obtain ⟨l, trace, finished, m, realFirst, _⟩ := guarded.run acceptableFirst
  obtain ⟨other, otherTrace, otherFinished, otherMode, realSecond, _⟩ := guarded.run acceptableSecond
  refine ⟨booted, l, other, trace, otherTrace, done, finished, otherFinished, ?_⟩
  intro same start otherStart
  obtain ⟨after, seen, received, status⟩ :=
    (Logger.Buffers.empty l start).receive_command realFirst more (by simpa using short) ended
  obtain ⟨otherAfter, otherSeen, otherReceived, otherStatus⟩ :=
    (Logger.Buffers.empty other otherStart).receive_command realSecond more (by simpa using short) ended
  refine ⟨after, otherAfter, seen, otherSeen, received, otherReceived, ?_⟩
  rw [status, otherStatus, ← same, List.nil_append]
  exact l.status.handle_eq_iff command _ _

/-- The status and the buffer's index after a history, and whether the relay is on after one more command. -/
def outcome (history command : List Char) : Option (Status × UInt8 × Bool) :=
  ((Logger.reset blankClock 0).boot blankText).bind fun booted =>
    (TracedRun.run Logger.step booted (serial history)).bind fun l =>
      (TracedRun.run Logger.step l.1 (serial command)).map fun after =>
        (l.1.status, l.1.programPointer, after.1.relayOn)

theorem command_isolation_release :
    (∀ e ∈ serial ['+', ';'], e.Acceptable) ∧ (∀ e ∈ serial ['+', ';', 'X', ':', '1', ';'], e.Acceptable) ∧
    (outcome ['+', ';'] ['-', ';']).map (·.1) = (outcome ['+', ';', 'X', ':', '1', ';'] ['-', ';']).map (·.1) ∧
    ∃ booted l other trace otherTrace, (Logger.reset blankClock 0).boot blankText = some booted ∧
      TracedRun.run Logger.step booted (serial ['+', ';']) = some (l, trace) ∧
      TracedRun.run Logger.step booted (serial ['+', ';', 'X', ':', '1', ';']) = some (other, otherTrace) ∧
      (l.status = other.status → l.programPointer = 0 → other.programPointer = 0 →
        ∃ after otherAfter seen otherSeen,
          TracedRun.run Logger.step l (([ascii '-'] ++ [ascii ';']).map .receive) = some (after, seen) ∧
          TracedRun.run Logger.step other (([ascii '-'] ++ [ascii ';']).map .receive) =
            some (otherAfter, otherSeen) ∧
          (after.status = otherAfter.status ↔
            Isolated l.status [ascii '-'] l.programValue.toList other.programValue.toList)) :=
  ⟨by decide, by decide, by decide +kernel, command_isolation blankClock 0 blankText _ _ (by decide) (by decide) _
    (by decide) (by decide +kernel) (ascii ';') (by decide)⟩

/-- A void command with two dots in it, and the command that turns the relay off is not heard. -/
theorem release_not_heard :
    (outcome ['+', ';'] ['-', ';']).map (·.1) =
      (outcome ['+', ';', 'X', ':', '1', '.', '2', '.', '3', ';'] ['-', ';']).map (·.1) ∧
    (outcome ['+', ';'] ['-', ';']).map (·.2) = some (0, false) ∧
    (outcome ['+', ';', 'X', ':', '1', '.', '2', '.', '3', ';'] ['-', ';']).map (·.2) = some (0, true) :=
  ⟨by decide +kernel, by decide +kernel, by decide +kernel⟩

end Minimus32.TempLogger
