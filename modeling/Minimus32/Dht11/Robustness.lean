import Minimus32.Dht11.Receiver

namespace Minimus32.Dht11

/-- The bit-end interrupts since the latest restart. -/
def countBitEnds (n : Nat) : Observation → Nat
  | .restarted => 0
  | .bitEnd => n + 1

def State.receiving : State → Bool
  | .waitingForAck | .gotAckWaitIdle | .waitingForBitSync | .waitingForBitEnd => true
  | _ => false

/-- A frame is only being received while it is short, and the start pulse only ends before its first bit. -/
structure Board.Sane (b : Board) (n : Nat) : Prop where
  progress : b.sensor.Progress n
  receiving : b.sensor.state.receiving = true → n < 40 ∧ b.startPending = false
  pending : b.startPending = true → n = 0

theorem Board.Sane.move {b after : Board} {n : Nat} (sane : b.Sane n)
    (rxByte : after.sensor.rxByte = b.sensor.rxByte) (rxBit : after.sensor.rxBit = b.sensor.rxBit)
    (dataReady : after.sensor.dataReady = b.sensor.dataReady) (startPending : after.startPending = b.startPending)
    (receives : after.sensor.state.receiving = true → b.sensor.state.receiving = true) : after.Sane n := by
  refine ⟨⟨?_, ?_, ?_, sane.progress.limit⟩, ?_, ?_⟩
  · rw [rxByte, sane.progress.rxByte]
  · rw [rxBit, sane.progress.rxBit]
  · rw [dataReady, sane.progress.dataReady]
  · rw [startPending]
    exact fun receiving => sane.receiving (receives receiving)
  · rw [startPending]
    exact sane.pending

theorem Board.Sane.bitEnd {b : Board} {n : Nat} (sane : b.Sane n) (waiting : b.sensor.state = .waitingForBitEnd)
    (ticks : UInt16) : ∃ after, b.bitEnd ticks = some after ∧ after.Sane (n + 1) := by
  obtain ⟨more, quiet⟩ := sane.receiving (by rw [waiting]; rfl)
  obtain ⟨after, done, ended⟩ := Board.bitEnd_ends sane.progress more ticks
  rw [← ended.startPending] at quiet
  refine ⟨after, done, ended.progress, ?_, ?_⟩
  · intro receiving
    rcases ended.next with ⟨unfinished, _, _⟩ | ⟨_, idle, _⟩
    · exact ⟨unfinished, quiet⟩
    · rw [idle] at receiving
      exact absurd receiving Bool.false_ne_true
  · intro pending
    exact absurd (quiet.symm.trans pending) Bool.false_ne_true

theorem Board.Sane.edge {b : Board} {n : Nat} (sane : b.Sane n) (ticks : UInt16) :
    ∃ after, b.irqAnimate ticks = some after ∧
      after.Sane (if b.sensor.state = .waitingForBitEnd then n + 1 else n) := by
  unfold Board.irqAnimate
  cases state : b.sensor.state <;> simp only [reduceCtorEq, if_false, if_true]
  case stateInit => exact ⟨_, rfl, sane.move rfl rfl rfl rfl (fun receiving => absurd receiving Bool.false_ne_true)⟩
  case idle => exact ⟨_, rfl, sane.move rfl rfl rfl rfl (fun receiving => absurd receiving Bool.false_ne_true)⟩
  case sendingStart => exact ⟨_, rfl, sane.move rfl rfl rfl rfl (fun receiving => absurd receiving Bool.false_ne_true)⟩
  case waitingForAck => exact ⟨_, rfl, sane.move rfl rfl rfl rfl (fun _ => by rw [state]; rfl)⟩
  case gotAckWaitIdle => exact ⟨_, rfl, sane.move rfl rfl rfl rfl (fun _ => by rw [state]; rfl)⟩
  case waitingForBitSync => exact ⟨_, rfl, sane.move rfl rfl rfl rfl (fun _ => by rw [state]; rfl)⟩
  case waitingForBitEnd => exact sane.bitEnd state ticks

theorem Board.Sane.startDone {b : Board} {n : Nat} (sane : b.Sane n) (pending : b.startPending = true) :
    ({ b with startPending := false } : Board).sendStartDone.Sane n := by
  have zero := sane.pending pending
  obtain ⟨byte, count, ready, limit⟩ := sane.progress
  refine ⟨⟨byte, count, ready, limit⟩, fun _ => ⟨by omega, rfl⟩, ?_⟩
  intro again
  exact absurd again Bool.false_ne_true

theorem Board.init_sane (b : Board) (extIrq : UInt8) : (b.init extIrq).Sane 0 :=
  ⟨⟨rfl, rfl, rfl, by omega⟩, fun receiving => absurd receiving Bool.false_ne_true, fun _ => rfl⟩

theorem Board.startConversion_sane (b : Board) : b.startConversion.Sane 0 :=
  ⟨⟨rfl, rfl, rfl, by omega⟩, fun receiving => absurd receiving Bool.false_ne_true, fun _ => rfl⟩

theorem Board.Sane.step (b : Board) (n : Nat) (e : Event) (sane : b.Sane n) :
    ∃ after seen, b.step e = some (after, seen) ∧ after.Sane (seen.foldl countBitEnds n) := by
  cases e with
  | init extIrq => exact ⟨_, _, rfl, b.init_sane extIrq⟩
  | startConversion => exact ⟨_, _, rfl, b.startConversion_sane⟩
  | edge ticks =>
    obtain ⟨after, animated, kept⟩ := sane.edge ticks
    refine ⟨after, _, by rw [Board.step, animated, Option.map_some], ?_⟩
    split
    · rename_i ended
      rw [if_pos ended] at kept
      exact kept
    · rename_i ended
      rw [if_neg ended] at kept
      exact kept
  | startDone =>
    refine ⟨_, _, rfl, ?_⟩
    split
    · rename_i pending
      exact sane.startDone pending
    · exact sane

def Event.initializes : Event → Bool
  | .init _ | .startConversion => true
  | _ => false

/-- Whatever the memory held before the first of them, no order of calls and interrupts makes
    `dht11_irqAnimate` leave the data array or the bit counter its range, and data are reported ready
    only after exactly 40 bit-end interrupts. -/
theorem irqAnimate_in_bounds (b : Board) (first : Event) (initializes : first.initializes = true)
    (events : List Event) :
    ∃ final trace, TracedRun.run Board.step b (first :: events) = some (final, trace) ∧
      1 ≤ final.sensor.rxBit.toNat ∧ final.sensor.rxBit.toNat ≤ 8 ∧
      (final.sensor.dataReady = 1 → trace.foldl countBitEnds 0 = 40) := by
  have started : ∃ after seen, b.step first = some (after, seen) ∧ after.Sane (seen.foldl countBitEnds 0) := by
    cases first with
    | init extIrq => exact ⟨_, _, rfl, b.init_sane extIrq⟩
    | startConversion => exact ⟨_, _, rfl, b.startConversion_sane⟩
    | edge ticks => simp [Event.initializes] at initializes
    | startDone => simp [Event.initializes] at initializes
  obtain ⟨after, seen, begun, sane⟩ := started
  obtain ⟨final, rest, finished, kept⟩ := TracedRun.run_total Board.Sane (fun _ _ => True)
    (fun b n e sane _ => Board.Sane.step b n e sane) events after _ sane (.of_forall (fun _ _ _ => trivial) _)
  refine ⟨final, seen ++ rest, TracedRun.run_cons_eq_some.mpr ⟨after, seen, rest, begun, finished, rfl⟩, ?_⟩
  rw [List.foldl_append]
  have count := kept.progress.rxBit
  refine ⟨by omega, by omega, ?_⟩
  intro ready
  have flag := kept.progress.dataReady
  rw [ready] at flag
  by_contra other
  rw [if_neg other] at flag
  exact absurd flag (by decide)

def Board.garbage : Board where
  sensor := ⟨.waitingForBitEnd, 200, 0, 7, #v[1, 2, 3, 4, 5], 0, 0⟩
  interrupts := ⟨1, 3, 0⟩
  pinOutput := 0
  pinLevel := 0
  startPending := true

theorem irqAnimate_in_bounds_garbage :
    let events : List Event := [.startDone, .edge 5, .edge 6, .edge 7, .edge 7, .startConversion, .edge 9]
    (Event.init 0).initializes = true ∧
      ∃ final trace, TracedRun.run Board.step Board.garbage (.init 0 :: events) = some (final, trace) ∧
        1 ≤ final.sensor.rxBit.toNat ∧ final.sensor.rxBit.toNat ≤ 8 ∧
        (final.sensor.dataReady = 1 → trace.foldl countBitEnds 0 = 40) :=
  ⟨rfl, irqAnimate_in_bounds Board.garbage (.init 0) rfl _⟩

end Minimus32.Dht11
