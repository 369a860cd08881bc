import Minimus32.Dht11.Driver
import Minimus32.Library.BitFrame

namespace Minimus32.Dht11

open BitFrame ExternalInterrupt

structure Sensor.Progress (s : Sensor) (n : Nat) : Prop where
  rxByte : s.rxByte.toNat = n / 8
  rxBit : s.rxBit.toNat = 8 - n % 8
  dataReady : s.dataReady = if n = 40 then 1 else 0
  limit : n ≤ 40

structure Board.BitEnded (b after : Board) (n : Nat) (bit : Bool) : Prop where
  progress : after.sensor.Progress (n + 1)
  data : ∀ (j : Nat) (inside : j < 5), after.sensor.data[j] =
    if j = n / 8 then shiftIn b.sensor.data[j] bit else b.sensor.data[j]
  extIrq : after.sensor.extIrq = b.sensor.extIrq
  startPending : after.startPending = b.startPending
  next : (n + 1 < 40 ∧ after.sensor.state = .waitingForBitSync ∧
      after.interrupts = enableExternalInterruptInput b.sensor.extIrq .rising b.interrupts) ∨
    (n + 1 = 40 ∧ after.sensor.state = .idle ∧
      after.interrupts = disableExternalInterruptInput b.sensor.extIrq b.interrupts)

theorem Sensor.Progress.nextBit {s : Sensor} {n : Nat} (progress : s.Progress n) :
    s.nextBit.rxByte.toNat = (n + 1) / 8 ∧ s.nextBit.rxBit.toNat = 8 - (n + 1) % 8 := by
  have byte := progress.rxByte
  have count := progress.rxBit
  have limit := progress.limit
  have left : (s.rxBit - 1).toNat = 7 - n % 8 := by
    rw [UInt8.toNat_sub_of_le _ _ (UInt8.le_iff_toNat_le.mpr (by rw [count]; change 1 ≤ _; omega)), count]
    change 8 - n % 8 - 1 = 7 - n % 8
    omega
  have zero : s.rxBit - 1 = 0 ↔ n % 8 = 7 := by
    rw [← UInt8.toNat_inj, left]
    change 7 - n % 8 = 0 ↔ _
    omega
  unfold Sensor.nextBit
  by_cases last : n % 8 = 7
  · simp only [zero, last, if_true, UInt8.toNat_add, byte]
    constructor
    · change (n / 8 + 1) % 256 = _
      omega
    · change 8 = _
      omega
  · simp only [zero, last, if_false, left, byte]
    constructor <;> omega

theorem Sensor.nextBit_kept (s : Sensor) :
    s.nextBit.data = s.data ∧ s.nextBit.extIrq = s.extIrq ∧ s.nextBit.dataReady = s.dataReady := by
  unfold Sensor.nextBit
  dsimp only
  split <;> exact ⟨rfl, rfl, rfl⟩

theorem Sensor.Progress.storeBit {s : Sensor} {n : Nat} (progress : s.Progress n) (more : n < 40) (bit : Bool) :
    ∃ stored, s.storeBit bit = some stored ∧ stored.Progress n ∧ stored.extIrq = s.extIrq ∧
      ∀ (j : Nat) (inside : j < 5), stored.data[j] = if j = n / 8 then shiftIn s.data[j] bit else s.data[j] := by
  have inside : s.rxByte.toNat < 5 := by
    rw [progress.rxByte]
    omega
  refine ⟨_, dif_pos inside, ⟨progress.rxByte, progress.rxBit, progress.dataReady, progress.limit⟩, rfl, ?_⟩
  intro j small
  simp only [Vector.getElem_set, progress.rxByte]
  by_cases here : j = n / 8
  · subst j
    simp only [if_true]
    rfl
  · rw [if_neg (Ne.symm here), if_neg here]

theorem Board.bitEnd_ends {b : Board} {n : Nat} (progress : b.sensor.Progress n) (more : n < 40) (ticks : UInt16) :
    ∃ after, b.bitEnd ticks = some after ∧ b.BitEnded after n (b.sensor.pulse ticks) := by
  obtain ⟨stored, store, kept, extIrq, data⟩ := progress.storeBit more (b.sensor.pulse ticks)
  obtain ⟨byte, count⟩ := kept.nextBit
  obtain ⟨sameData, sameIrq, sameReady⟩ := stored.nextBit_kept
  have irq : stored.nextBit.extIrq = b.sensor.extIrq := sameIrq.trans extIrq
  have short : stored.nextBit.rxByte < 5 ↔ n + 1 < 40 := by
    rw [UInt8.lt_iff_toNat_lt, byte]
    change (n + 1) / 8 < 5 ↔ _
    omega
  refine ⟨_, by rw [Board.bitEnd, store, Option.map_some], ?_⟩
  by_cases unfinished : n + 1 < 40
  · have unready : stored.nextBit.dataReady = 0 := by rw [sameReady, kept.dataReady, if_neg (by omega)]
    simp only [short.mpr unfinished, if_true, Board.enable, Board.setState, irq]
    refine ⟨⟨byte, count, ?_, by omega⟩, ?_, rfl, rfl, .inl ⟨unfinished, rfl, rfl⟩⟩
    · rw [if_neg (by omega)]
      exact unready
    · simpa only [sameData] using data
  · simp only [mt short.mp unfinished, if_false, Board.disable, Board.setState, irq]
    refine ⟨⟨byte, count, ?_, by omega⟩, ?_, rfl, rfl, .inr ⟨by omega, rfl, rfl⟩⟩
    · rw [if_pos (by omega)]
    · simpa only [sameData] using data

end Minimus32.Dht11
