import Minimus32.Peripherals.SwRcServo

namespace Minimus32.SwRcServo

/-- The result of the call of `animate` with number `i`, counted from zero. -/
def Servo.call : Servo → Nat → UInt8
  | servo, 0 => servo.animate.2
  | servo, i + 1 => servo.animate.1.call i

/-- The output repeats after `length` calls, and in every `length` calls it is high for one run of `width`. -/
def PulseTrain (length width : Nat) (output : Nat → UInt8) : Prop :=
  (∀ i, output (i + length) = output i) ∧ ∃ phase, ∀ i, output i = 1 ↔ (i + phase) % length < width

theorem PulseTrain.width_le {length width other : Nat} {output : Nat → UInt8} (short : other < length)
    (train : PulseTrain length width output) (known : PulseTrain length other output) : width ≤ other := by
  obtain ⟨-, phase, high⟩ := train
  obtain ⟨-, phase', high'⟩ := known
  by_contra wider
  -- The run of `width` starts here, where the other one has `other - rest` calls left.
  let start := (length - 1) * phase
  have aligned : ∀ k, (start + k + phase) % length = k % length := by
    intro k
    have sum : start + k + phase = k + length * phase := by
      show (length - 1) * phase + k + phase = _
      obtain ⟨less, rfl⟩ := Nat.exists_eq_add_of_lt short
      rw [show other + less + 1 - 1 = other + less by omega, Nat.succ_mul]
      omega
    rw [sum, Nat.add_mul_mod_self_left]
  have run : ∀ k < width, output (start + k) = 1 := by
    intro k inside
    rw [high, aligned]
    exact lt_of_le_of_lt (Nat.mod_le _ _) inside
  have first := (high' start).mp (run 0 (by omega))
  have last := (high' (start + (other - (start + phase') % length))).mp (run _ (by omega))
  have reached : (start + (other - (start + phase') % length) + phase') % length = other := by
    rw [Nat.add_right_comm, Nat.add_mod, Nat.mod_eq_of_lt (show other - _ < length by omega),
      Nat.add_sub_cancel' (by omega), Nat.mod_eq_of_lt short]
  omega

theorem Servo.call_eq_level (servo : Servo) (ticks : 0 < servo.ticksPerMs.toNat) (positive : 0 < servo.counter.toNat)
    (bound : servo.counter.toNat ≤ 20 * servo.ticksPerMs.toNat) (i : Nat) :
    servo.call i = level (20 * servo.ticksPerMs.toNat -
      (20 * servo.ticksPerMs.toNat - servo.counter.toNat + i) % (20 * servo.ticksPerMs.toNat)) servo.pos := by
  induction i generalizing servo with
  | zero =>
    rw [Nat.add_zero, Nat.mod_eq_of_lt (by omega), Nat.sub_sub_self bound]
    exact (servo.animate_spec positive).1
  | succ i ih =>
    obtain ⟨-, pos, same, counter⟩ := servo.animate_spec positive
    have next : 0 < servo.animate.1.counter.toNat ∧
        servo.animate.1.counter.toNat ≤ 20 * servo.ticksPerMs.toNat := by
      rw [counter]
      split <;> omega
    have rest := ih servo.animate.1 (by rw [same]; exact ticks) next.1 (by rw [same]; exact next.2)
    rw [same, pos, counter] at rest
    rw [Servo.call, rest]
    by_cases last : servo.counter.toNat = 1
    · rw [if_pos last, last, Nat.sub_self, Nat.zero_add,
        show 20 * servo.ticksPerMs.toNat - 1 + (i + 1) = i + 20 * servo.ticksPerMs.toNat by omega,
        Nat.add_mod_right]
    · rw [if_neg last, show 20 * servo.ticksPerMs.toNat - (servo.counter.toNat - 1) + i =
        20 * servo.ticksPerMs.toNat - servo.counter.toNat + (i + 1) by omega]

theorem Servo.call_set (servo : Servo) {ticksPerMs : UInt8} (ticks : 0 < ticksPerMs) (pos : UInt8) (i : Nat) :
    ((servo.init ticksPerMs).setPos pos).call i =
      level (20 * ticksPerMs.toNat - i % (20 * ticksPerMs.toNat)) (pos.toUInt16 + ticksPerMs.toUInt16) := by
  have positive : 0 < ticksPerMs.toNat := UInt8.lt_iff_toNat_lt.mp ticks
  have counter : ((servo.init ticksPerMs).setPos pos).counter.toNat = 20 * ticksPerMs.toNat :=
    (servo.init_spec ticksPerMs).1
  have levels := ((servo.init ticksPerMs).setPos pos).call_eq_level positive (by omega) (le_of_eq counter) i
  rw [counter] at levels
  change _ = level (20 * ticksPerMs.toNat - (20 * ticksPerMs.toNat - 20 * ticksPerMs.toNat + i) % _) _ at levels
  rw [levels, Nat.sub_self, Nat.zero_add]
  rfl

/-- The pulse ends with the call before the one that reloads the counter, so it is one call short. -/
theorem Servo.pulse (servo : Servo) {ticksPerMs : UInt8} (ticks : 0 < ticksPerMs) {pos : UInt8}
    (range : pos ≤ ticksPerMs) :
    PulseTrain (20 * ticksPerMs.toNat) (ticksPerMs.toNat + pos.toNat - 1)
      ((servo.init ticksPerMs).setPos pos).call := by
  have positive : 0 < ticksPerMs.toNat := UInt8.lt_iff_toNat_lt.mp ticks
  have small : pos.toNat ≤ ticksPerMs.toNat := UInt8.le_iff_toNat_le.mp range
  have bound := ticksPerMs.toNat_lt
  have value : (pos.toUInt16 + ticksPerMs.toUInt16).toNat = pos.toNat + ticksPerMs.toNat := by
    rw [UInt16.toNat_add, UInt8.toNat_toUInt16, UInt8.toNat_toUInt16]
    omega
  refine ⟨?_, ticksPerMs.toNat + pos.toNat, ?_⟩
  · intro i
    rw [servo.call_set ticks, servo.call_set ticks, Nat.add_mod_right]
  · intro i
    have inside : i % (20 * ticksPerMs.toNat) < 20 * ticksPerMs.toNat := Nat.mod_lt _ (by omega)
    have high : level (20 * ticksPerMs.toNat - i % (20 * ticksPerMs.toNat)) (pos.toUInt16 + ticksPerMs.toUInt16) = 1 ↔
        1 < 20 * ticksPerMs.toNat - i % (20 * ticksPerMs.toNat) ∧
          20 * ticksPerMs.toNat - i % (20 * ticksPerMs.toNat) - 1 < pos.toNat + ticksPerMs.toNat := by
      rw [level, value]
      split <;> simp_all
    rw [servo.call_set ticks, high, Nat.add_mod, Nat.mod_eq_of_lt (show ticksPerMs.toNat + pos.toNat < _ by omega)]
    generalize i % (20 * ticksPerMs.toNat) = j at inside
    by_cases before : j + (ticksPerMs.toNat + pos.toNat) < 20 * ticksPerMs.toNat
    · rw [Nat.mod_eq_of_lt before]
      omega
    · rw [Nat.mod_eq_sub_mod (by omega), Nat.mod_eq_of_lt (by omega)]
      omega

/-- For no tick rate and no position is the pulse as long as the set point. -/
theorem pulse_never_full (servo : Servo) (ticksPerMs pos : UInt8) (ticks : 1 ≤ ticksPerMs) (range : pos ≤ ticksPerMs) :
    let output := ((servo.init ticksPerMs).setPos pos).call
    ¬ PulseTrain (20 * ticksPerMs.toNat) (ticksPerMs.toNat + pos.toNat) output ∧
      PulseTrain (20 * ticksPerMs.toNat) (ticksPerMs.toNat + pos.toNat - 1) output := by
  intro output
  have positive : 0 < ticksPerMs.toNat := UInt8.le_iff_toNat_le.mp ticks
  have small : pos.toNat ≤ ticksPerMs.toNat := UInt8.le_iff_toNat_le.mp range
  have train := servo.pulse (UInt8.lt_iff_toNat_lt.mpr positive) range
  refine ⟨fun full => ?_, train⟩
  have width := full.width_le (by omega) train
  omega

theorem pulse_never_full_ten_ticks :
    PulseTrain 200 14 (((⟨0, 0, 0⟩ : Servo).init 10).setPos 5).call :=
  (pulse_never_full ⟨0, 0, 0⟩ 10 5 (by decide) (by decide)).2

/-- One tick to the millisecond and the least position: no pulse at all. -/
theorem pulse_missing :
    ¬ PulseTrain (20 * 1) (1 + 0) (((⟨0, 0, 0⟩ : Servo).init 1).setPos 0).call ∧
      (((⟨0, 0, 0⟩ : Servo).init 1).setPos 0).outputs (List.replicate 20 .animate) = List.replicate 20 0 := by
  refine ⟨fun full => ?_, by decide +kernel⟩
  have missing : PulseTrain 20 0 (((⟨0, 0, 0⟩ : Servo).init 1).setPos 0).call :=
    Servo.pulse ⟨0, 0, 0⟩ (by decide) (by decide)
  have width := full.width_le (by decide) missing
  omega

end Minimus32.SwRcServo
