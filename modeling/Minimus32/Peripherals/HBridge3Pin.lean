import Minimus32.BoardSupport.SwDither

namespace Minimus32.HBridge3Pin

open SwDither

structure Handle where
  dither : Dither
  a : UInt8
  b : UInt8
deriving DecidableEq

/-- The arguments of a call of the handle's `io`. -/
structure Drive where
  enable : UInt8
  aSide : UInt8
  bSide : UInt8
deriving DecidableEq

def Handle.init (handle : Handle) (maxPower : UInt16) : Handle :=
  ⟨(handle.dither.init maxPower).set 0, 255, 0⟩

def Handle.setPower (handle : Handle) (power : Int16) : Handle :=
  if power < 0 then
    let power := -power
    ⟨handle.dither.set power.toUInt16, 0, 255⟩
  else ⟨handle.dither.set power.toUInt16, 255, 0⟩

def Handle.animate (handle : Handle) : Handle × Drive :=
  let (dither, on) := handle.dither.animate
  let enable := if on ≠ 0 then 255 else 0
  ({ handle with dither := dither }, ⟨enable, handle.a, handle.b⟩)

inductive Command where
  | setPower (power : Int16)
  | animate
deriving DecidableEq

/-- The handle after the calls, and the calls of `io` that were made. -/
def Handle.run : Handle → List Command → Handle × List Drive
  | handle, [] => (handle, [])
  | handle, .setPower power :: commands => (handle.setPower power).run commands
  | handle, .animate :: commands =>
    let rest := handle.animate.1.run commands
    (rest.1, handle.animate.2 :: rest.2)

def Command.event : Command → Event
  | .setPower power => .set (.ofNat power.toInt.natAbs)
  | .animate => .animate

/-- The signed powers in force at the calls of `animate`, from the one in force at the start. -/
def inForce : Int16 → List Command → List Int16
  | _, [] => []
  | _, .setPower power :: commands => inForce power commands
  | power, .animate :: commands => power :: inForce power commands

def drive (on : UInt8) (power : Int16) : Drive :=
  ⟨if on = 1 then 255 else 0, if power < 0 then 0 else 255, if power < 0 then 255 else 0⟩

/-- The magnitude without sign; the least power, which has no opposite, is its own negation. -/
theorem toUInt16_neg {power : Int16} (negative : power < 0) : (-power).toUInt16 = .ofNat power.toInt.natAbs := by
  have sign : power.toInt < 0 := Int16.lt_iff_toInt_lt.mp negative
  have value : power.toInt = _ := BitVec.toInt_eq_toNat_cond power.toBitVec
  have bound := power.toBitVec.isLt
  rw [← UInt16.toNat_inj, UInt16.toNat_ofNat']
  show (-power.toBitVec).toNat = _
  rw [BitVec.toNat_neg]
  split at value <;> omega

theorem toUInt16_nonneg {power : Int16} (forward : ¬ power < 0) : power.toUInt16 = .ofNat power.toInt.natAbs := by
  have sign : ¬ power.toInt < 0 := fun negative => forward (Int16.lt_iff_toInt_lt.mpr negative)
  have value : power.toInt = _ := BitVec.toInt_eq_toNat_cond power.toBitVec
  have bound := power.toBitVec.isLt
  rw [← UInt16.toNat_inj, UInt16.toNat_ofNat']
  show power.toBitVec.toNat = _
  split at value <;> omega

/-- The handle's sides are those of a power. -/
def Handle.Sides (handle : Handle) (power : Int16) : Prop :=
  handle.a = (if power < 0 then 0 else 255) ∧ handle.b = if power < 0 then 255 else 0

theorem Handle.setPower_eq (handle : Handle) (power : Int16) :
    (handle.setPower power).dither = handle.dither.set (.ofNat power.toInt.natAbs) ∧
      (handle.setPower power).Sides power := by
  unfold Handle.setPower Handle.Sides
  by_cases negative : power < 0
  · rw [if_pos negative, if_pos negative, if_pos negative]
    exact ⟨congrArg handle.dither.set (toUInt16_neg negative), rfl, rfl⟩
  · rw [if_neg negative, if_neg negative, if_neg negative]
    exact ⟨congrArg handle.dither.set (toUInt16_nonneg negative), rfl, rfl⟩

theorem animate_binary (dither : Dither) : dither.animate.2 = 1 ∨ dither.animate.2 = 0 := by
  unfold Dither.animate
  dsimp only
  split
  · exact .inl rfl
  · exact .inr rfl

theorem Handle.Sides.animate {handle : Handle} {power : Int16} (sides : handle.Sides power) :
    handle.animate.2 = drive handle.dither.animate.2 power := by
  obtain ⟨a, b⟩ := sides
  simp only [Handle.animate, drive, a, b]
  rcases animate_binary handle.dither with on | off
  · rw [on]
    rfl
  · rw [off]
    rfl

theorem Handle.Sides.run {handle : Handle} {power : Int16} (sides : handle.Sides power) (commands : List Command) :
    (handle.run commands).2 =
      List.zipWith drive (handle.dither.run (commands.map Command.event)).2 (inForce power commands) := by
  induction commands generalizing handle power with
  | nil => rfl
  | cons command commands ih =>
    cases command with
    | setPower power =>
      obtain ⟨dither, set⟩ := handle.setPower_eq power
      have rest := ih set
      rw [dither] at rest
      exact rest
    | animate =>
      have kept : handle.animate.1.Sides power := sides
      have rest := ih kept
      simp only [Handle.run, List.map_cons, Command.event, Dither.run, inForce, List.zipWith_cons_cons, sides.animate,
        rest]
      rfl

theorem Command.event_legal {max : UInt16} {command : Command}
    (small : ∀ power, command = .setPower power → power.toInt.natAbs ≤ max.toNat) : command.event.Legal max := by
  cases command with
  | setPower power =>
    show UInt16.ofNat _ ≤ max
    rw [UInt16.le_iff_toNat_le, UInt16.toNat_ofNat']
    exact le_trans (Nat.mod_le _ _) (small power rfl)
  | animate => trivial

theorem events_legal {max : UInt16} {events : List Event} (small : ∀ power, .set power ∈ events → power ≤ max) :
    ∀ event ∈ events, event.Legal max := by
  intro event member
  cases event with
  | set power => exact small power member
  | animate => trivial

/-- The dither neither loses nor makes power, in every window of a run at one power the pulses are as even as they
    can be, and the bridge is enabled with the dither's pulses, on the side of the sign. -/
theorem dither_conservation (max : UInt16) (positive : 1 ≤ max) (limit : max ≤ 32768) :
    (∀ (dither : Dither) (events : List Event), (∀ power, .set power ∈ events → power ≤ max) →
      let after := (dither.init max).run events
      after.1.counter < max ∧ after.1.counter.toNat + after.1.power.toNat < 65536 ∧
        max.toNat * pulses after.2 + after.1.counter.toNat = (powers 0 events).sum ∧
        ∀ (window : List Event) (k p : Nat), (∀ power, .set power ∈ window → power ≤ max) →
          powers after.1.power window = List.replicate k p →
          let ones := pulses (after.1.run window).2
          ones = k * p / max.toNat ∨ ones = (k * p + (max.toNat - 1)) / max.toNat) ∧
    ∀ (handle : Handle) (commands : List Command),
      (∀ power, .setPower power ∈ commands → power.toInt.natAbs ≤ max.toNat) →
      (∀ power, .set power ∈ commands.map Command.event → power ≤ max) ∧
        ((handle.init max).run commands).2 =
          List.zipWith drive ((handle.dither.init max).run (commands.map Command.event)).2 (inForce 0 commands) := by
  refine ⟨fun dither events small => ?_, fun handle commands small => ⟨fun power member => ?_, ?_⟩⟩
  · have start := dither.init_sound positive
    have legal := events_legal small
    have sound := (start.run limit legal).1
    have balance := start.conserves limit legal
    refine ⟨UInt16.lt_iff_toNat_lt.mpr sound.counter, sound.fits limit, ?_, ?_⟩
    · rw [balance]
      exact Nat.zero_add _
    · intro window k p smallWindow constant
      exact sound.window limit (events_legal smallWindow) constant
  · obtain ⟨command, given, same⟩ := List.mem_map.mp member
    have legal : command.event.Legal max := Command.event_legal fun power here => small power (here ▸ given)
    rw [same] at legal
    exact legal
  · exact Handle.Sides.run ⟨rfl, rfl⟩ commands

theorem dither_conservation_at_limit :
    let events := [.set 32768, .animate, .set 1, .animate, .animate]
    let after := ((⟨7, 8, 9⟩ : Dither).init 32768).run events
    after.1.counter.toNat + after.1.power.toNat < 65536 ∧
      (32768 : UInt16).toNat * pulses after.2 + after.1.counter.toNat = (powers 0 events).sum :=
  have whole := (dither_conservation 32768 (by decide) (by decide)).1 ⟨7, 8, 9⟩
    [.set 32768, .animate, .set 1, .animate, .animate] (by
      intro power member
      have known : power = 32768 ∨ power = 1 := by simpa using member
      rcases known with rfl | rfl <;> decide)
  ⟨whole.2.1, whole.2.2.1⟩

end Minimus32.HBridge3Pin
