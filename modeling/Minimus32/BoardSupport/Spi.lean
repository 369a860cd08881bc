import Mathlib.Data.UInt

namespace Minimus32.Spi

/-- `spi_obtain_bus`, with its result and the lock it leaves. Each element of the list is a round of its loop, and says
    whether an interrupt has released the bus since the round before. `none` while it goes on waiting. -/
def obtainBus (blocking : UInt8) : List Bool → UInt8 → Option (UInt8 × UInt8)
  | [], _ => none
  | released :: rounds, spiBusLock =>
    let lockCopy := if released then 0 else spiBusLock
    if blocking = 0 ∨ lockCopy = 0 then some (if lockCopy = 0 then 1 else 0, 1) else obtainBus blocking rounds 1

def releaseBus : UInt8 := 0

/-- A call that waits gets the bus when it is free, or as soon as it is released. -/
theorem obtainBus_blocking {rounds : List Bool} {spiBusLock : UInt8}
    (free : spiBusLock = 0 ∧ rounds ≠ [] ∨ true ∈ rounds) : obtainBus 1 rounds spiBusLock = some (1, 1) := by
  induction rounds generalizing spiBusLock with
  | nil => simp at free
  | cons released rounds ih =>
    unfold obtainBus
    dsimp only
    cases released with
    | true => rfl
    | false =>
      by_cases unlocked : spiBusLock = 0
      · rw [unlocked]
        rfl
      · have later : true ∈ rounds := by simpa [unlocked] using free
        rw [if_neg (by simp [unlocked])]
        exact ih (.inr later)

/-- A call that returns has set the lock, and it has failed only if it was not to wait. -/
theorem obtainBus_some {blocking : UInt8} {rounds : List Bool} {spiBusLock : UInt8} {obtained : UInt8 × UInt8}
    (returned : obtainBus blocking rounds spiBusLock = some obtained) :
    obtained.2 = 1 ∧ (obtained.1 = 1 ∨ obtained.1 = 0 ∧ blocking = 0) := by
  induction rounds generalizing spiBusLock with
  | nil => cases returned
  | cons released rounds ih =>
    unfold obtainBus at returned
    dsimp only at returned
    generalize (if released = true then 0 else spiBusLock) = lockCopy at returned
    by_cases free : lockCopy = 0
    · rw [if_pos (.inr free), if_pos free] at returned
      cases returned
      exact ⟨rfl, .inl rfl⟩
    · by_cases waits : blocking = 0
      · rw [if_pos (.inl waits), if_neg free] at returned
        cases returned
        exact ⟨rfl, .inr ⟨rfl, waits⟩⟩
      · rw [if_neg (not_or.mpr ⟨waits, free⟩)] at returned
        exact ih returned

end Minimus32.Spi
