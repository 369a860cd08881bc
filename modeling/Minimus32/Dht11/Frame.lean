import Minimus32.Dht11.Receiver

namespace Minimus32.Dht11

open BitFrame ExternalInterrupt

/-- The counter `time` clock cycles after it last was 0, in its range 0 to 16000. -/
def counterAt (time : Nat) : UInt16 := UInt16.ofNat (time % 16001)

/-- A change of the data pin; the hardware calls `dht11_irqAnimate` if the interrupt is enabled for it. -/
def Board.deliver (b : Board) (change : PinEdge × Nat) : Option Board :=
  if b.interrupts.raises b.sensor.extIrq change.1 then b.irqAnimate (counterAt change.2) else some b

def Board.deliverAll (b : Board) : List (PinEdge × Nat) → Option Board
  | [] => some b
  | change :: changes => (b.deliver change).bind (·.deliverAll changes)

/-- One bit on the wire: the clock cycles the pin is low and then high. -/
structure Pulse where
  bit : Bool
  low : Nat
  high : Nat
deriving DecidableEq

/-- At sixteen clock cycles to the microsecond: 1 to 50 us for a zero, from 51 us to below 1 ms for a one. -/
def Pulse.InRange (p : Pulse) : Prop :=
  if p.bit then 51 * 16 ≤ p.high ∧ p.high < 1000 * 16 else 1 * 16 ≤ p.high ∧ p.high ≤ 50 * 16

instance (p : Pulse) : Decidable p.InRange := by
  unfold Pulse.InRange
  infer_instance

/-- The changes of the pin while the bits are sent, from a falling edge at `time` on. -/
def bitChanges : Nat → List Pulse → List (PinEdge × Nat)
  | _, [] => []
  | time, p :: pulses =>
    (.rise, time + p.low) :: (.fall, time + p.low + p.high) :: bitChanges (time + p.low + p.high) pulses

def answerChanges (acknowledge ready first : Nat) (pulses : List Pulse) : List (PinEdge × Nat) :=
  (.fall, acknowledge) :: (.rise, ready) :: (.fall, first) :: bitChanges first pulses

/-- `dht11_startConversion`, and two milliseconds later `dht11_sendStartDone`. -/
def Board.start (b : Board) : Board := { b.startConversion with startPending := false }.sendStartDone

theorem toNat_counterAt (time : Nat) : (counterAt time).toNat = time % 16001 := by
  rw [counterAt, UInt16.toNat_ofNat']
  omega

/-- The threshold of 50 us has room for the tick the counter loses at its wrap. -/
theorem Pulse.InRange.measured {p : Pulse} (inRange : p.InRange) {length : Nat}
    (near : length = p.high ∨ length + 1 = p.high) : 800 < length ↔ p.bit = true := by
  unfold Pulse.InRange at inRange
  split at inRange
  · rename_i one
    rw [one]
    simp only [iff_true]
    omega
  · rename_i zero
    exact ⟨fun long => by omega, fun one => absurd one zero⟩

theorem Pulse.InRange.bounds {p : Pulse} (inRange : p.InRange) : 0 < p.high ∧ p.high < 16000 := by
  unfold Pulse.InRange at inRange
  split at inRange <;> omega

/-- Wherever the counter wraps, a pulse in range is read as the bit it carries. -/
theorem Sensor.pulse_eq {s : Sensor} {p : Pulse} (inRange : p.InRange) (time : Nat)
    (begun : s.startTicks = counterAt time) : s.pulse (counterAt (time + p.high)) = p.bit := by
  have start := toNat_counterAt time
  have stop := toNat_counterAt (time + p.high)
  have bound := Nat.mod_lt time (by omega : 16001 > 0)
  have short := inRange.bounds
  unfold Sensor.pulse
  rw [begun, Bool.eq_iff_iff, decide_eq_true_iff, gt_iff_lt, UInt16.lt_iff_toNat_lt]
  by_cases wraps : time % 16001 + p.high < 16001
  · have later : ¬ counterAt (time + p.high) ≤ counterAt time := by
      rw [UInt16.le_iff_toNat_le]
      omega
    apply inRange.measured
    apply Or.inl
    rw [if_neg later, UInt16.toNat_sub_of_le _ _ (by rw [UInt16.le_iff_toNat_le]; omega)]
    omega
  · have earlier : counterAt (time + p.high) ≤ counterAt time := by
      rw [UInt16.le_iff_toNat_le]
      omega
    have lifted : (counterAt (time + p.high) + 16000).toNat = (time + p.high) % 16001 + 16000 := by
      rw [UInt16.toNat_add, stop]
      change ((time + p.high) % 16001 + 16000) % 65536 = _
      omega
    apply inRange.measured
    apply Or.inr
    rw [if_pos earlier, UInt16.toNat_sub_of_le _ _ (by rw [UInt16.le_iff_toNat_le]; omega)]
    omega

structure Board.Received (b : Board) (bits : List Bool) : Prop where
  progress : b.sensor.Progress bits.length
  data : ∀ (j : Nat) (inside : j < 5), b.sensor.data[j] = byteOf (chunk j bits)
  valid : b.sensor.extIrq.toNat < 8

structure Board.Syncing (b : Board) (bits : List Bool) : Prop extends b.Received bits where
  state : b.sensor.state = .waitingForBitSync
  raises : ∀ change, b.interrupts.raises b.sensor.extIrq change = decide (change = .rise)

structure Board.Finished (b : Board) (bits : List Bool) : Prop extends b.Received bits where
  state : b.sensor.state = .idle
  disabled : b.interrupts.enabled b.sensor.extIrq = false

theorem Board.Received.bitEnd {b after : Board} {bits : List Bool} {bit : Bool} (received : b.Received bits)
    (ended : b.BitEnded after bits.length bit) : after.Received (bits ++ [bit]) := by
  refine ⟨?_, ?_, ?_⟩
  · rw [List.length_append]
    exact ended.progress
  · intro j inside
    rw [ended.data j inside, received.data j inside]
    by_cases here : j = bits.length / 8
    · rw [if_pos here, chunk_append bit here, byteOf_append]
    · rw [if_neg here, chunk_append_of_ne bit here]
  · rw [ended.extIrq]
    exact received.valid

theorem Board.Syncing.receive {b : Board} {bits : List Bool} (syncing : b.Syncing bits) (more : bits.length < 40)
    {p : Pulse} (inRange : p.InRange) (time : Nat) (changes : List (PinEdge × Nat)) :
    ∃ after : Board, b.deliverAll ((.rise, time) :: (.fall, time + p.high) :: changes) = after.deliverAll changes ∧
      ((bits.length + 1 < 40 ∧ after.Syncing (bits ++ [p.bit])) ∨
        (bits.length + 1 = 40 ∧ after.Finished (bits ++ [p.bit]))) := by
  have rising : b.deliver (.rise, time) =
      some (({ b with sensor := { b.sensor with startTicks := counterAt time } }.enable .falling).setState
        .waitingForBitEnd) := by
    simp only [Board.deliver, syncing.raises, decide_true, if_true, Board.irqAnimate, syncing.state]
  generalize measuring : (({ b with sensor := { b.sensor with startTicks := counterAt time } } : Board).enable
    .falling).setState .waitingForBitEnd = middle at rising
  have raises : middle.interrupts.raises middle.sensor.extIrq .fall = true := by
    subst middle
    exact enable_falling_raises syncing.valid b.interrupts .fall
  have state : middle.sensor.state = .waitingForBitEnd := by
    subst middle
    rfl
  have kept : middle.Received bits := by
    subst middle
    exact ⟨⟨syncing.progress.rxByte, syncing.progress.rxBit, syncing.progress.dataReady, syncing.progress.limit⟩,
      syncing.data, syncing.valid⟩
  have read : middle.sensor.pulse (counterAt (time + p.high)) = p.bit := by
    subst middle
    exact Sensor.pulse_eq inRange time rfl
  obtain ⟨after, done, ended⟩ := Board.bitEnd_ends kept.progress more (counterAt (time + p.high))
  rw [read] at ended
  have falling : middle.deliver (.fall, time + p.high) = some after := by
    simp only [Board.deliver, raises, if_true, Board.irqAnimate, state, done]
  have received := kept.bitEnd ended
  refine ⟨after, ?_, ?_⟩
  · simp only [Board.deliverAll, rising, Option.bind_some, falling]
  · rcases ended.next with ⟨unfinished, sync, interrupts⟩ | ⟨last, idle, interrupts⟩
    · refine .inl ⟨unfinished, received, sync, ?_⟩
      intro change
      rw [interrupts, ended.extIrq]
      exact enable_rising_raises kept.valid _ change
    · refine .inr ⟨last, received, idle, ?_⟩
      rw [interrupts, ended.extIrq]
      exact disable_enabled kept.valid _

theorem Board.Syncing.receiveAll {b : Board} {bits : List Bool} (syncing : b.Syncing bits) (pulses : List Pulse)
    (inRange : ∀ p ∈ pulses, p.InRange) (length : bits.length + pulses.length = 40) (nonempty : pulses ≠ [])
    (time : Nat) (changes : List (PinEdge × Nat)) :
    ∃ after : Board, b.deliverAll (bitChanges time pulses ++ changes) = after.deliverAll changes ∧
      after.Finished (bits ++ pulses.map Pulse.bit) := by
  induction pulses generalizing b bits time with
  | nil => exact absurd rfl nonempty
  | cons p pulses ih =>
    simp only [List.length_cons] at length
    obtain ⟨middle, delivered, reached⟩ := syncing.receive (by omega) (inRange p (by simp)) (time + p.low)
      (bitChanges (time + p.low + p.high) pulses ++ changes)
    rcases reached with ⟨unfinished, again⟩ | ⟨last, finished⟩
    · have rest : pulses ≠ [] := by
        rintro rfl
        simp only [List.length_nil] at length
        omega
      obtain ⟨after, continued, finished⟩ := ih again (fun q member => inRange q (by simp [member]))
        (by simp only [List.length_append, List.length_singleton]; omega) rest (time + p.low + p.high)
      refine ⟨after, delivered.trans continued, ?_⟩
      simpa using finished
    · have empty : pulses = [] := List.eq_nil_of_length_eq_zero (by omega)
      subst pulses
      exact ⟨middle, delivered, finished⟩

theorem Board.deliverAll_disabled {b : Board} (disabled : b.interrupts.enabled b.sensor.extIrq = false)
    (changes : List (PinEdge × Nat)) : b.deliverAll changes = some b := by
  induction changes with
  | nil => rfl
  | cons change changes ih =>
    have ignored : b.interrupts.raises b.sensor.extIrq change.1 = false := by
      rw [Registers.raises, disabled, Bool.false_and]
    have passed : b.deliver change = some b := by
      rw [Board.deliver, ignored]
      rfl
    rw [Board.deliverAll, passed, Option.bind_some, ih]

theorem Board.acknowledged {b : Board} (valid : b.sensor.extIrq.toNat < 8) (acknowledge ready first : Nat)
    (changes : List (PinEdge × Nat)) :
    ∃ after : Board, b.start.deliverAll ((.fall, acknowledge) :: (.rise, ready) :: (.fall, first) :: changes) =
      after.deliverAll changes ∧ after.Syncing [] := by
  have falling : ∀ change, b.start.interrupts.raises b.start.sensor.extIrq change = decide (change = .fall) :=
    enable_falling_raises valid b.interrupts
  generalize acknowledging : (b.start.enable .rising).setState .gotAckWaitIdle = middle
  have rising : ∀ change, middle.interrupts.raises middle.sensor.extIrq change = decide (change = .rise) := by
    subst middle
    exact enable_rising_raises valid b.start.interrupts
  have state : middle.sensor.state = .gotAckWaitIdle := by
    subst middle
    rfl
  have first₁ : b.start.deliver (.fall, acknowledge) = some middle := by
    simp only [Board.deliver, falling, decide_true, if_true, ← acknowledging]
    rfl
  have second : middle.deliver (.rise, ready) = some (middle.setState .waitingForBitSync) := by
    simp only [Board.deliver, rising, decide_true, if_true, Board.irqAnimate, state]
  have third : (middle.setState .waitingForBitSync).deliver (.fall, first) =
      some (middle.setState .waitingForBitSync) := by
    have ignored : (middle.setState .waitingForBitSync).interrupts.raises
        (middle.setState .waitingForBitSync).sensor.extIrq .fall = false := rising .fall
    simp only [Board.deliver, ignored, Bool.false_eq_true, if_false]
  refine ⟨middle.setState .waitingForBitSync, ?_, ⟨?_, ?_, ?_⟩, rfl, rising⟩
  · simp only [Board.deliverAll, first₁, second, third, Option.bind_some]
  · subst middle
    exact ⟨rfl, rfl, rfl, by simp⟩
  · intro j inside
    subst middle
    rw [show chunk j [] = [] by simp [chunk]]
    show (#v[0, 0, 0, 0, 0] : Vector UInt8 5)[j] = 0
    rcases (by omega : j = 0 ∨ j = 1 ∨ j = 2 ∨ j = 3 ∨ j = 4) with rfl | rfl | rfl | rfl | rfl <;> rfl
  · subst middle
    exact valid

theorem Board.Received.data_eq {b : Board} {payload : Vector UInt8 5}
    (received : b.Received (payload.toList.flatMap bitsOf)) : b.sensor.data = payload := by
  apply Vector.ext
  intro j inside
  have listed : j < payload.toList.length := by
    rw [Vector.length_toList]
    exact inside
  rw [received.data j inside, chunk_flatMap payload.toList listed, byteOf_bitsOf, Vector.getElem_toList]

/-- For every payload, every phase of the counter and every choice of pulse lengths in range, the
    answer is received bit by bit, most significant bit first. -/
theorem decodes_answer (b : Board) (valid : b.sensor.extIrq.toNat < 8) (payload : Vector UInt8 5)
    (pulses : List Pulse) (carried : pulses.map Pulse.bit = payload.toList.flatMap bitsOf)
    (inRange : ∀ p ∈ pulses, p.InRange) (acknowledge ready first : Nat) (later : List (PinEdge × Nat)) :
    ∃ final, b.start.deliverAll (answerChanges acknowledge ready first pulses ++ later) = some final ∧
      final.sensor.state = .idle ∧ final.sensor.dataReady = 1 ∧
      final.interrupts.enabled final.sensor.extIrq = false ∧ final.sensor.data = payload ∧
      (final.sensor.isChecksumOk = true ↔ payload[4].toNat =
        (payload[0].toNat + payload[1].toNat + payload[2].toNat + payload[3].toNat) % 256) := by
  have length : pulses.length = 40 := by
    have lengths := congrArg List.length carried
    simpa [List.length_flatMap, bitsOf] using lengths
  obtain ⟨waiting, begun, syncing⟩ := b.acknowledged valid acknowledge ready first (bitChanges first pulses ++ later)
  obtain ⟨final, delivered, finished⟩ := syncing.receiveAll pulses inRange (by rw [length]; rfl)
    (List.ne_nil_of_length_pos (by omega)) first later
  rw [List.nil_append, carried] at finished
  have data := finished.data_eq
  have progress := finished.progress
  rw [← carried, List.length_map, length] at progress
  refine ⟨final, ?_, finished.state, progress.dataReady, finished.disabled, data, ?_⟩
  · rw [answerChanges, List.cons_append, List.cons_append, List.cons_append, begun, delivered,
      Board.deliverAll_disabled finished.disabled]
  · rw [Sensor.isChecksumOk_iff, data]

def Pulse.nominal (bit : Bool) : Pulse := ⟨bit, 50 * 16, if bit then 70 * 16 else 27 * 16⟩

def Board.zeroed : Board := ⟨⟨.stateInit, 0, 0, 0, Vector.replicate 5 0, 0, 0⟩, ⟨0, 0, 0⟩, 0, 0, false⟩

theorem decodes_answer_nominal :
    let b := Board.zeroed.init 6
    let payload : Vector UInt8 5 := #v[45, 0, 23, 0, 68]
    let pulses := (payload.toList.flatMap bitsOf).map Pulse.nominal
    b.sensor.extIrq.toNat < 8 ∧ pulses.map Pulse.bit = payload.toList.flatMap bitsOf ∧
      (∀ p ∈ pulses, p.InRange) ∧
      ∃ final, b.start.deliverAll (answerChanges 15990 17270 18550 pulses ++ [(.rise, 90000)]) = some final ∧
        final.sensor.state = .idle ∧ final.sensor.dataReady = 1 ∧
        final.interrupts.enabled final.sensor.extIrq = false ∧ final.sensor.data = payload ∧
        (final.sensor.isChecksumOk = true ↔ 68 = (45 + 0 + 23 + 0) % 256) := by
  intro b payload pulses
  have carried : pulses.map Pulse.bit = payload.toList.flatMap bitsOf := by decide
  have inRange : ∀ p ∈ pulses, p.InRange := by decide
  exact ⟨by decide, carried, inRange,
    decodes_answer b (by decide) payload pulses carried inRange 15990 17270 18550 [(.rise, 90000)]⟩

end Minimus32.Dht11
