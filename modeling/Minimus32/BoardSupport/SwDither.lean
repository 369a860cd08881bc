import Mathlib.Data.UInt
import Minimus32.Library.Accumulator

namespace Minimus32.SwDither

open Accumulator

structure Dither where
  counter : UInt16
  max : UInt16
  power : UInt16
deriving DecidableEq

def Dither.init (_ : Dither) (max : UInt16) : Dither := ⟨0, max, 0⟩

def Dither.set (dither : Dither) (power : UInt16) : Dither := { dither with power := power }

def Dither.animate (dither : Dither) : Dither × UInt8 :=
  let dither := { dither with counter := dither.counter + dither.power }
  if dither.counter ≥ dither.max then ({ dither with counter := dither.counter - dither.max }, 1)
  else (dither, 0)

inductive Event where
  | set (power : UInt16)
  | animate
deriving DecidableEq

/-- The struct after the calls, and the results of those of `animate`. -/
def Dither.run : Dither → List Event → Dither × List UInt8
  | dither, [] => (dither, [])
  | dither, .set power :: events => (dither.set power).run events
  | dither, .animate :: events =>
    let rest := dither.animate.1.run events
    (rest.1, dither.animate.2 :: rest.2)

/-- The powers in force at the calls of `animate`, from the one in force at the start. -/
def powers : UInt16 → List Event → List Nat
  | _, [] => []
  | _, .set power :: events => powers power events
  | power, .animate :: events => power.toNat :: powers power events

def Event.Legal (max : UInt16) : Event → Prop
  | .set power => power ≤ max
  | .animate => True

/-- What a struct made by `sw_dither_init` keeps while the powers set stay within the limit. -/
structure Dither.Sound (dither : Dither) (top : UInt16) : Prop where
  max : dither.max = top
  counter : dither.counter.toNat < top.toNat
  power : dither.power.toNat ≤ top.toNat

theorem Dither.init_sound (dither : Dither) {top : UInt16} (positive : 1 ≤ top) : (dither.init top).Sound top :=
  ⟨rfl, UInt16.le_iff_toNat_le.mp positive, Nat.zero_le _⟩

theorem Dither.Sound.fits {dither : Dither} {top : UInt16} (sound : dither.Sound top) (limit : top ≤ 32768) :
    dither.counter.toNat + dither.power.toNat < 65536 := by
  have bound : top.toNat ≤ 32768 := UInt16.le_iff_toNat_le.mp limit
  have counter := sound.counter
  have power := sound.power
  omega

theorem Dither.Sound.animate_eq {dither : Dither} {top : UInt16} (sound : dither.Sound top) (limit : top ≤ 32768) :
    let fed := feed top.toNat dither.counter.toNat dither.power.toNat
    dither.animate.1.counter.toNat = fed.1 ∧ dither.animate.1.max = dither.max ∧
      dither.animate.1.power = dither.power ∧ dither.animate.2 = if fed.2 then 1 else 0 := by
  have sum : (dither.counter + dither.power).toNat = dither.counter.toNat + dither.power.toNat := by
    rw [UInt16.toNat_add]
    exact Nat.mod_eq_of_lt (sound.fits limit)
  simp only [Dither.animate, sound.max]
  by_cases full : dither.counter + dither.power ≥ top
  · have reached := UInt16.le_iff_toNat_le.mp full
    rw [sum] at reached
    rw [if_pos full, feed_of_le reached, ← sum]
    exact ⟨UInt16.toNat_sub_of_le _ _ full, rfl, rfl, rfl⟩
  · have under := UInt16.lt_iff_toNat_lt.mp (UInt16.not_le.mp full)
    rw [sum] at under
    rw [if_neg full, feed_of_lt under]
    exact ⟨sum, rfl, rfl, rfl⟩

theorem Dither.Sound.animate {dither : Dither} {top : UInt16} (sound : dither.Sound top) (limit : top ≤ 32768) :
    dither.animate.1.Sound top := by
  obtain ⟨counter, same, power, -⟩ := sound.animate_eq limit
  refine ⟨same.trans sound.max, ?_, power ▸ sound.power⟩
  rw [counter]
  exact (feed_conserves sound.counter sound.power).1

def pulses (outputs : List UInt8) : Nat := outputs.count 1

/-- The calls feed the powers in force to an accumulator. -/
theorem Dither.Sound.run {dither : Dither} {top : UInt16} (sound : dither.Sound top) (limit : top ≤ 32768)
    {events : List Event} (legal : ∀ event ∈ events, event.Legal top) :
    let fed := feedAll top.toNat dither.counter.toNat (powers dither.power events)
    (dither.run events).1.Sound top ∧ (dither.run events).1.counter.toNat = fed.1 ∧
      (dither.run events).2 = fed.2.map fun on => if on then 1 else 0 := by
  induction events generalizing dither with
  | nil => exact ⟨sound, rfl, rfl⟩
  | cons event events ih =>
    have later : ∀ event ∈ events, event.Legal top := fun event member => legal event (by simp [member])
    cases event with
    | set power =>
      have small : power ≤ top := legal (.set power) (by simp)
      exact ih ⟨sound.max, sound.counter, UInt16.le_iff_toNat_le.mp small⟩ later
    | animate =>
      obtain ⟨counter, -, power, output⟩ := sound.animate_eq limit
      obtain ⟨kept, final, outputs⟩ := ih (sound.animate limit) later
      rw [counter, power] at final outputs
      refine ⟨kept, final, ?_⟩
      simp only [Dither.run, powers, feedAll, List.map_cons, output, outputs]

theorem powers_le {top power : UInt16} (small : power ≤ top) {events : List Event}
    (legal : ∀ event ∈ events, event.Legal top) : ∀ p ∈ powers power events, p ≤ top.toNat := by
  induction events generalizing power with
  | nil => simp [powers]
  | cons event events ih =>
    have later : ∀ event ∈ events, event.Legal top := fun event member => legal event (by simp [member])
    cases event with
    | set other => exact ih (legal (.set other) (by simp)) later
    | animate =>
      intro p member
      rcases List.mem_cons.mp member with rfl | rest
      · exact UInt16.le_iff_toNat_le.mp small
      · exact ih small later p rest

theorem pulses_map (pulse : List Bool) : pulses (pulse.map fun on => if on then 1 else 0) = pulse.count true := by
  induction pulse with
  | nil => rfl
  | cons on pulse ih =>
    rw [pulses] at ih
    rw [pulses, List.map_cons, List.count_cons, List.count_cons, ih]
    cases on <;> rfl

theorem Dither.Sound.conserves {dither : Dither} {top : UInt16} (sound : dither.Sound top) (limit : top ≤ 32768)
    {events : List Event} (legal : ∀ event ∈ events, event.Legal top) :
    top.toNat * pulses (dither.run events).2 + (dither.run events).1.counter.toNat =
      dither.counter.toNat + (powers dither.power events).sum := by
  obtain ⟨-, final, outputs⟩ := sound.run limit legal
  rw [final, outputs, pulses_map]
  exact (feedAll_conserves sound.counter (powers_le (UInt16.le_iff_toNat_le.mpr sound.power) legal)).2

theorem Dither.Sound.window {dither : Dither} {top : UInt16} (sound : dither.Sound top) (limit : top ≤ 32768)
    {events : List Event} (legal : ∀ event ∈ events, event.Legal top) {k p : Nat}
    (constant : powers dither.power events = List.replicate k p) :
    let ones := pulses (dither.run events).2
    ones = k * p / top.toNat ∨ ones = (k * p + (top.toNat - 1)) / top.toNat := by
  obtain ⟨-, -, outputs⟩ := sound.run limit legal
  have small := powers_le (UInt16.le_iff_toNat_le.mpr sound.power) legal
  rw [constant] at outputs small
  simp only [outputs, pulses_map]
  exact count_feedAll_replicate sound.counter small

end Minimus32.SwDither
