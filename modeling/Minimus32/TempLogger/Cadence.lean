import Minimus32.TempLogger.Failsafe
import Minimus32.TempLogger.Interval

namespace Minimus32.TempLogger

/-- A call, seen by what it does. -/
def Logger.turn (l : Logger) (text : Vector UInt8 7) : Option (Logger × List (List Action)) :=
  (l.statemachine text).map fun done => (done.1, [done.2])

def expected (s n : Nat) : List Action :=
  if 100 * s ∣ n then [.updateTemp, .updateLogged, .setRelay] else if 100 ∣ n then [.updateTemp, .setRelay] else []

/-- The number of calls from one log to the next. -/
def cadence (s : Nat) : Nat := if 100 * s % 65536 = 0 then 65536 else 100 * s % 65536

def actual (s n : Nat) : MachineState :=
  if cadence s ∣ n then .log else if 100 ∣ n % cadence s then .oneSec else .none

namespace Logger

variable {l after : Logger}

theorem stateCounter_of_setRelay (done : l.setRelay = some after) : after.stateCounter = l.stateCounter := by
  have off : (l.relayStatus 0).stateCounter = l.stateCounter := rfl
  unfold Logger.setRelay at done
  dsimp only at done
  split at done
  · cases done
    rfl
  · split at done
    · split at done
      · obtain ⟨started, registered, rfl⟩ := Option.map_eq_some_iff.mp done
        obtain ⟨clock, _, rfl⟩ := Option.map_eq_some_iff.mp registered
        rfl
      · cases done
        exact off
    · cases done
      rfl

theorem stateCounter_updateTemp (l : Logger) (text : Vector UInt8 7) :
    (l.updateTemp text).stateCounter = l.stateCounter := by
  unfold Logger.updateTemp
  split
  · rfl
  · rfl

theorem stateCounter_of_act {text : Vector UInt8 7} {action : Action} {seen : List Action}
    (done : l.act text action = some (after, seen)) : after.stateCounter = l.stateCounter := by
  cases action with
  | updateTemp =>
    cases done
    exact stateCounter_updateTemp l text
  | updateLogged =>
    obtain ⟨logged, blinked, same⟩ := Option.map_eq_some_iff.mp done
    cases same
    obtain ⟨started, registered, rfl⟩ := Option.map_eq_some_iff.mp blinked
    obtain ⟨clock, _, rfl⟩ := Option.map_eq_some_iff.mp registered
    rfl
  | setRelay =>
    obtain ⟨_, set, same⟩ := Option.map_eq_some_iff.mp done
    cases same
    exact stateCounter_of_setRelay set

theorem stateCounter_of_statemachine {text : Vector UInt8 7} {seen : List Action}
    (done : l.statemachine text = some (after, seen)) : after.stateCounter = l.advance.1.stateCounter :=
  TracedRun.run_preserves (fun after => after.stateCounter = l.advance.1.stateCounter)
    (fun _ _ _ _ kept acted => (stateCounter_of_act acted).trans kept) rfl done

end Logger

theorem cadence_pos (s : Nat) : 0 < cadence s := by
  unfold cadence
  split
  · decide
  · omega

theorem cadence_le (s : Nat) : cadence s ≤ 65536 := by
  unfold cadence
  split
  · exact Nat.le_refl _
  · omega

theorem succ_mod_eq_zero_iff {r d : Nat} (below : r < d) : (r + 1) % d = 0 ↔ r + 1 = d := by
  constructor
  · intro wrapped
    by_contra other
    rw [Nat.mod_eq_of_lt (by omega)] at wrapped
    omega
  · intro last
    rw [last, Nat.mod_self]

theorem succ_dvd_iff (n : Nat) {d : Nat} (positive : 0 < d) : d ∣ n + 1 ↔ n % d + 1 = d := by
  rw [Nat.dvd_iff_mod_eq_zero, ← Nat.mod_add_mod, succ_mod_eq_zero_iff (Nat.mod_lt n positive)]

theorem succ_mod (n : Nat) {d : Nat} (positive : 0 < d) : (n + 1) % d = if d ∣ n + 1 then 0 else n % d + 1 := by
  split
  · rename_i wrapped
    exact Nat.mod_eq_zero_of_dvd wrapped
  · rename_i other
    rw [succ_dvd_iff n positive] at other
    have below := Nat.mod_lt n positive
    rw [← Nat.mod_add_mod, Nat.mod_eq_of_lt (by omega)]

section

variable {counter programLog : UInt16} {n : Nat}

/-- The divisor of the remainder is the cadence, and 0 for the largest. -/
theorem remainder_eq_zero_iff (counted : counter.toNat = n % cadence programLog.toNat) :
    (counter + 1) % (programLog * 100) = 0 ↔ cadence programLog.toNat ∣ n + 1 := by
  have positive := cadence_pos programLog.toNat
  have below := Nat.mod_lt n positive
  have divisor : (programLog * 100).toNat = 100 * programLog.toNat % 65536 := by
    rw [UInt16.toNat_mul, Nat.mul_comm]
    rfl
  have next : (counter + 1).toNat = (n % cadence programLog.toNat + 1) % 65536 := by
    rw [UInt16.toNat_add, counted]
    rfl
  rw [succ_dvd_iff n positive, ← UInt16.toNat_inj, UInt16.toNat_mod, divisor, next]
  show _ % _ = 0 ↔ _
  generalize n % cadence programLog.toNat = r at below ⊢
  unfold cadence at below ⊢
  split
  · rename_i wraps
    rw [if_pos wraps] at below
    rw [wraps, Nat.mod_zero]
    omega
  · rename_i divides
    rw [if_neg divides] at below
    have small : 100 * programLog.toNat % 65536 < 65536 := Nat.mod_lt _ (by decide)
    generalize 100 * programLog.toNat % 65536 = q at below divides small ⊢
    rw [Nat.mod_eq_of_lt (show r + 1 < 65536 by omega), succ_mod_eq_zero_iff below]

theorem toNat_succ (counted : counter.toNat = n % cadence programLog.toNat)
    (other : ¬ cadence programLog.toNat ∣ n + 1) :
    (counter + 1).toNat = (n + 1) % cadence programLog.toNat := by
  have positive := cadence_pos programLog.toNat
  have small := cadence_le programLog.toNat
  have below := Nat.mod_lt (n + 1) positive
  rw [succ_mod n positive, if_neg other] at below ⊢
  rw [UInt16.toNat_add, counted]
  exact Nat.mod_eq_of_lt (show n % cadence programLog.toNat + 1 < 65536 by omega)

end

namespace Logger

variable {l : Logger} {n : Nat}

theorem advance_counted (counted : l.stateCounter.toNat = n % cadence l.programLog.toNat) :
    l.advance.2 = actual l.programLog.toNat (n + 1) ∧
      l.advance.1.stateCounter.toNat = (n + 1) % cadence l.programLog.toNat := by
  rw [Logger.advance, actual]
  dsimp only
  by_cases logs : cadence l.programLog.toNat ∣ n + 1
  · rw [if_pos ((remainder_eq_zero_iff counted).mpr logs), if_pos logs, Nat.mod_eq_zero_of_dvd logs]
    exact ⟨rfl, rfl⟩
  · have second : (l.stateCounter + 1) % 100 = 0 ↔ 100 ∣ (n + 1) % cadence l.programLog.toNat := by
      rw [← toNat_succ counted logs, ← UInt16.toNat_inj, UInt16.toNat_mod, Nat.dvd_iff_mod_eq_zero]
      rfl
    rw [if_neg ((remainder_eq_zero_iff counted).not.mpr logs), if_neg logs]
    simp only [second]
    split
    · exact ⟨rfl, toNat_succ counted logs⟩
    · exact ⟨rfl, toNat_succ counted logs⟩

theorem turn_counted {m : Mode} (real : l.Realizes m)
    (counted : l.stateCounter.toNat = n % cadence l.programLog.toNat) (text : Vector UInt8 7) :
    ∃ after, l.turn text = some (after, [(actual l.programLog.toNat (n + 1)).actions]) ∧ (∃ m, after.Realizes m) ∧
      after.programLog = l.programLog ∧ after.stateCounter.toNat = (n + 1) % cadence l.programLog.toNat := by
  have advanced := advance_counted counted
  obtain ⟨after, move, done, -, -, realAfter⟩ := real.statemachine text
  obtain ⟨⟨_, seen⟩, ran, rfl⟩ := Option.map_eq_some_iff.mp done
  have acted : seen = l.advance.2.actions := by
    rw [l.statemachine_eq] at ran
    obtain ⟨_, _, same⟩ := Option.map_eq_some_iff.mp ran
    cases same
    rfl
  refine ⟨_, ?_, ⟨_, realAfter⟩, (spares_of_statemachine ran).interval, ?_⟩
  · rw [Logger.turn, ran, Option.map_some, acted, advanced.1]
  · rw [stateCounter_of_statemachine ran, advanced.2]

theorem turns_counted {m : Mode} (real : l.Realizes m)
    (counted : l.stateCounter.toNat = n % cadence l.programLog.toNat) (texts : List (Vector UInt8 7)) :
    ∃ after, TracedRun.run Logger.turn l texts =
      some (after, (List.range texts.length).map fun i => (actual l.programLog.toNat (n + i + 1)).actions) := by
  induction texts generalizing l n m with
  | nil => exact ⟨l, rfl⟩
  | cons text texts ih =>
    obtain ⟨between, done, ⟨_, realAfter⟩, interval, counter⟩ := turn_counted real counted text
    rw [← interval] at counter
    obtain ⟨after, later⟩ := ih realAfter counter
    refine ⟨after, TracedRun.run_cons_eq_some.mpr ⟨between, _, _, done, later, ?_⟩⟩
    rw [List.length_cons, List.range_succ_eq_map, List.map_cons, List.map_map, interval, List.singleton_append]
    congr 1
    apply List.map_congr_left
    intro i _
    show (actual _ (n + (i + 1) + 1)).actions = (actual _ (n + 1 + i + 1)).actions
    rw [Nat.add_assoc n 1, Nat.add_comm 1]

end Logger

theorem actual_eq_expected_of_fits {s : Nat} (positive : 1 ≤ s) (fits : 100 * s ≤ 65535) (n : Nat) :
    (actual s n).actions = expected s n := by
  have same : cadence s = 100 * s := by
    rw [cadence, Nat.mod_eq_of_lt (by omega), if_neg (by omega)]
  have seconds : 100 ∣ n % (100 * s) ↔ 100 ∣ n := Nat.dvd_mod_iff (Nat.dvd_mul_right 100 s)
  rw [actual, expected, same]
  simp only [seconds]
  split
  · rfl
  · split <;> rfl

theorem actual_eq_expected_of_lt {s n : Nat} (wraps : 65535 < 100 * s) (some : 0 < n) (early : n < cadence s) :
    (actual s n).actions = expected s n := by
  have small := cadence_le s
  have first : ¬ cadence s ∣ n := Nat.not_dvd_of_pos_of_lt some early
  have never : ¬ 100 * s ∣ n := Nat.not_dvd_of_pos_of_lt some (by omega)
  rw [actual, expected, if_neg first, if_neg never, Nat.mod_eq_of_lt early]
  split <;> rfl

theorem actual_cadence_ne {s : Nat} (wraps : 65535 < 100 * s) :
    (actual s (cadence s)).actions ≠ expected s (cadence s) := by
  have small := cadence_le s
  have never : ¬ 100 * s ∣ cadence s := Nat.not_dvd_of_pos_of_lt (cadence_pos s) (by omega)
  rw [actual, expected, if_pos (Nat.dvd_refl _), if_neg never]
  split <;> decide

theorem statemachine_cadence_iff {l : Logger} {m : Mode} (real : l.Realizes m) (positive : 1 ≤ l.programLog.toNat)
    (start : l.stateCounter = 0) (texts : List (Vector UInt8 7)) :
    ∃ after seen, TracedRun.run Logger.turn l texts = some (after, seen) ∧ seen.length = texts.length ∧
      ((∀ n, 1 ≤ n → n ≤ texts.length → seen[n - 1]? = some (expected l.programLog.toNat n)) ↔
        100 * l.programLog.toNat ≤ 65535 ∨ texts.length < cadence l.programLog.toNat) := by
  have counted : l.stateCounter.toNat = 0 % cadence l.programLog.toNat := by
    rw [start, Nat.zero_mod]
    rfl
  obtain ⟨after, run⟩ := Logger.turns_counted real counted texts
  refine ⟨after, _, run, by rw [List.length_map, List.length_range], ?_⟩
  have found : ∀ n, 1 ≤ n → n ≤ texts.length → ((List.range texts.length).map
      fun i => (actual l.programLog.toNat (0 + i + 1)).actions)[n - 1]? =
        some (actual l.programLog.toNat n).actions := by
    intro n first last
    rw [List.getElem?_map, List.getElem?_range (by omega), Option.map_some, Nat.zero_add, Nat.sub_add_cancel first]
  constructor
  · intro right
    by_contra wrong
    obtain ⟨wraps, late⟩ := not_or.mp wrong
    have log := right _ (cadence_pos l.programLog.toNat) (Nat.not_lt.mp late)
    rw [found _ (cadence_pos l.programLog.toNat) (Nat.not_lt.mp late)] at log
    exact actual_cadence_ne (Nat.not_le.mp wraps) (Option.some.inj log)
  · intro right n first last
    rw [found n first last]
    by_cases fits : 100 * l.programLog.toNat ≤ 65535
    · rw [actual_eq_expected_of_fits positive fits]
    · have early := right.resolve_left fits
      rw [actual_eq_expected_of_lt (Nat.not_le.mp fits) first (by omega)]

theorem statemachine_cadence_booted :
    ∃ after seen, TracedRun.run Logger.turn (Logger.reset blankClock 0) (List.replicate 1000 blankText) =
        some (after, seen) ∧
      seen.length = 1000 ∧ seen[98]? = some [] ∧ seen[99]? = some [.updateTemp, .setRelay] ∧
      seen[899]? = some [.updateTemp, .setRelay] ∧
      seen[999]? = some [.updateTemp, .updateLogged, .setRelay] := by
  obtain ⟨after, seen, run, size, right⟩ := statemachine_cadence_iff (Logger.reset_realizes blankClock 0)
    (show 1 ≤ 10 by decide) rfl (List.replicate 1000 blankText)
  have acts := right.mpr (.inl (by decide))
  rw [List.length_replicate] at acts size
  exact ⟨after, seen, run, size, acts 99 (by decide) (by decide), acts 100 (by decide) (by decide),
    acts 900 (by decide) (by decide), acts 1000 (by decide) (by decide)⟩

/-- With an interval of 656 s the divisor wraps to 64, and the log comes after 0.64 s. -/
theorem statemachine_logs_early :
    expected 656 64 = [] ∧
      ∃ after seen, TracedRun.run Logger.turn { Logger.reset blankClock 0 with programLog := 656 }
        (List.replicate 64 blankText) = some (after, seen) ∧
          seen[63]? = some [.updateTemp, .updateLogged, .setRelay] := by
  have real := Logger.reset_realizes blankClock 0
  have realLog : Logger.Realizes { Logger.reset blankClock 0 with programLog := 656 } _ :=
    ⟨real.relay, real.alwaysRun, real.program, real.timer, real.pointer, real.last⟩
  obtain ⟨after, run⟩ := Logger.turns_counted realLog (show 0 = 0 % cadence 656 from rfl) (List.replicate 64 blankText)
  refine ⟨by decide, after, _, run, ?_⟩
  rw [List.length_replicate]
  rfl

end Minimus32.TempLogger
