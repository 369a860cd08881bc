import Minimus32.Library.Register
import Minimus32.Timer1.WallTime

namespace Minimus32.Timer1

open Register WallTime

/-- The registers of timer 1 with the wall time its compare interrupt keeps. -/
structure Counter where
  tcnt1 : UInt16
  ocr1a : UInt16
  ocr1b : UInt16
  tccr1a : UInt8
  tccr1b : UInt8
  timsk1 : UInt8
  tifr1 : UInt8
  walltimer : WallTime
deriving DecidableEq

def ocie1a : UInt8 := 1

def ocie1b : UInt8 := 2

def ocf1b : UInt8 := 2

def wgm12 : UInt8 := 3

def cs10 : UInt8 := 0

/-- `timer1_clock_init` as far as the counter is concerned; `TCNT1` keeps its value. -/
def Counter.init (t : Counter) : Counter :=
  { t with
    walltimer := .zero
    ocr1a := word 62 128
    tccr1a := 0
    tccr1b := 1 <<< wgm12 ||| 1 <<< cs10
    timsk1 := 1 <<< ocie1a }

/-- One system clock cycle in the mode `timer1_clock_init` selects: the counter runs from 0 to `OCR1A`
    and the compare interrupt, when enabled, runs as it wraps. -/
def Counter.count (t : Counter) : Counter :=
  let wraps := t.tcnt1 = t.ocr1a
  let tcnt1 := if wraps then 0 else t.tcnt1 + 1
  { t with
    tcnt1 := tcnt1
    tifr1 := if tcnt1 = t.ocr1b then t.tifr1 ||| 1 <<< ocf1b else t.tifr1
    walltimer := if wraps ∧ bit t.timsk1 ocie1a.toNat then t.walltimer.advance else t.walltimer }

/-- `timer1_sub_timer_b_delay`; writing a one to a flag of `TIFR1` clears it. -/
def Counter.subTimerBDelay (t : Counter) (delayTicks : UInt16) : Counter :=
  let delayTicks := delayTicks + (low t.tcnt1).toUInt16
  let delayTicks := delayTicks + (high t.tcnt1).toUInt16 <<< 8
  let delayTicks := if delayTicks ≥ 16000 then delayTicks - 16000 else delayTicks
  { t with
    ocr1b := word (delayTicks >>> 8).toUInt8 (delayTicks &&& 0xff).toUInt8
    tifr1 := t.tifr1 &&& ~~~(1 <<< ocf1b)
    timsk1 := t.timsk1 ||| 1 <<< ocie1b }

def Counter.subTimerBUnset (t : Counter) : Counter :=
  { t with timsk1 := t.timsk1 &&& ~~~(1 <<< ocie1b) }

inductive CounterEvent where
  | count
  | subTimerBDelay (delayTicks : UInt16)
  | subTimerBUnset
deriving DecidableEq

def Counter.step (t : Counter) : CounterEvent → Counter
  | .count => t.count
  | .subTimerBDelay delayTicks => t.subTimerBDelay delayTicks
  | .subTimerBUnset => t.subTimerBUnset

def Counter.run (t : Counter) (events : List CounterEvent) : Counter := events.foldl Counter.step t

def elapsed (events : List CounterEvent) : Nat := events.count .count

/-- `TIMER1_TICKS_PER_US*1000` ticks for each millisecond of the wall time, and the counter. -/
def Counter.ticks (t : Counter) : Nat := 16000 * t.walltimer.total + t.tcnt1.toNat

/-- The counter meets `OCR1B` after `d` clock cycles and at none in between. -/
def Counter.MatchesAfter (t : Counter) (d : Nat) : Prop :=
  (Counter.count^[d] t).tcnt1 = t.ocr1b ∧ ∀ k, 0 < k → k < d → (Counter.count^[k] t).tcnt1 ≠ t.ocr1b

/-- The counter as it stands `n` clock cycles after it last was 0 with the wall time at 0. -/
structure Counter.Running (t : Counter) (n : Nat) : Prop where
  tcnt1 : t.tcnt1.toNat = n % 16001
  ocr1a : t.ocr1a = 16000
  enabled : bit t.timsk1 ocie1a.toNat = true
  walltimer : t.walltimer = .ofTicks (n / 16001)

theorem Counter.init_running {t : Counter} (phase : t.tcnt1.toNat ≤ 16000) : t.init.Running t.tcnt1.toNat := by
  refine ⟨?_, ?_, ?_, ?_⟩
  · rw [Nat.mod_eq_of_lt (by omega)]
    rfl
  · show word 62 128 = 16000
    decide
  · show bit (1 <<< ocie1a) ocie1a.toNat = true
    decide
  · rw [Nat.div_eq_of_lt (by omega), ofTicks_zero]
    rfl

theorem Counter.Running.count {t : Counter} {n : Nat} (running : t.Running n) : t.count.Running (n + 1) := by
  have carry := MixedRadix.succ_digit n 16001 (by omega)
  have same : t.tcnt1 = t.ocr1a ↔ n % 16001 = 16000 := by
    rw [running.ocr1a, ← UInt16.toNat_inj, running.tcnt1]
    rfl
  by_cases wraps : n % 16001 = 16000
  · refine ⟨?_, running.ocr1a, running.enabled, ?_⟩
    · simp only [Counter.count, same, wraps, if_true]
      change 0 = _
      omega
    · have next : (n + 1) / 16001 = n / 16001 + 1 := by omega
      simp only [Counter.count, same, wraps, running.enabled, and_self, if_true]
      rw [running.walltimer, advance_ofTicks, next]
  · have stays : (n + 1) / 16001 = n / 16001 := by omega
    refine ⟨?_, running.ocr1a, running.enabled, ?_⟩
    · simp only [Counter.count, same, wraps, if_false, UInt16.toNat_add, running.tcnt1]
      change (n % 16001 + 1) % 65536 = _
      omega
    · simp only [Counter.count, same, wraps, false_and, if_false]
      rw [running.walltimer, stays]

theorem Counter.Running.iterate {t : Counter} {n : Nat} (running : t.Running n) (k : Nat) :
    (Counter.count^[k] t).Running (n + k) := by
  induction k with
  | zero => exact running
  | succ k ih =>
    rw [Function.iterate_succ_apply']
    exact ih.count

theorem Counter.Running.subTimerBDelay {t : Counter} {n : Nat} (running : t.Running n) (delayTicks : UInt16) :
    (t.subTimerBDelay delayTicks).Running n := by
  refine ⟨running.tcnt1, running.ocr1a, ?_, running.walltimer⟩
  simp only [Counter.subTimerBDelay, bit_or, running.enabled, Bool.true_or]

theorem Counter.Running.subTimerBUnset {t : Counter} {n : Nat} (running : t.Running n) :
    t.subTimerBUnset.Running n := by
  refine ⟨running.tcnt1, running.ocr1a, ?_, running.walltimer⟩
  have other : bit (~~~(1 <<< ocie1b)) ocie1a.toNat = true := by decide
  simp only [Counter.subTimerBUnset, bit_and, running.enabled, other, Bool.and_self]

theorem Counter.Running.run {t : Counter} {n : Nat} (running : t.Running n) (events : List CounterEvent) :
    (t.run events).Running (n + elapsed events) := by
  induction events generalizing t n with
  | nil => exact running
  | cons e events ih =>
    cases e with
    | count =>
      have rest := ih running.count
      simp only [elapsed, List.count_cons_self] at rest ⊢
      rw [Nat.add_comm _ 1, ← Nat.add_assoc]
      exact rest
    | subTimerBDelay delayTicks => exact ih (running.subTimerBDelay delayTicks)
    | subTimerBUnset => exact ih running.subTimerBUnset

theorem Counter.Running.ticks_iff {t₁ t₂ : Counter} {n e : Nat} (first : t₁.Running n) (second : t₂.Running (n + e)) :
    (t₂.ticks : Int) - t₁.ticks = e ↔ t₁.tcnt1.toNat + e ≤ 16000 := by
  simp only [Counter.ticks, first.tcnt1, second.tcnt1, first.walltimer, second.walltimer, ofTicks_total]
  have whole₁ := Nat.div_add_mod n 16001
  have whole₂ := Nat.div_add_mod (n + e) 16001
  have bound₁ := Nat.mod_lt n (by omega : 16001 > 0)
  have bound₂ := Nat.mod_lt (n + e) (by omega : 16001 > 0)
  obtain ⟨wraps, later⟩ := Nat.exists_eq_add_of_le (Nat.div_le_div_right (c := 16001) (Nat.le_add_right n e))
  rw [later] at whole₂ ⊢
  have fewer : (n / 16001 + wraps) % dayLimit ≤ n / 16001 % dayLimit + wraps := by
    rw [← Nat.mod_add_mod]
    exact Nat.mod_le _ _
  constructor
  · intro equal
    omega
  · intro small
    have none : wraps = 0 := by omega
    subst wraps
    rw [Nat.add_zero]
    omega

theorem Counter.subTimerBDelay_ocr1b {t : Counter} {delayTicks : UInt16} (phase : t.tcnt1.toNat ≤ 16000)
    (range : delayTicks.toNat ≤ 16000) :
    (t.subTimerBDelay delayTicks).ocr1b.toNat =
      if t.tcnt1.toNat + delayTicks.toNat < 16000 then t.tcnt1.toNat + delayTicks.toNat
      else t.tcnt1.toNat + delayTicks.toNat - 16000 := by
  have sum : (delayTicks + t.tcnt1).toNat = t.tcnt1.toNat + delayTicks.toNat := by
    rw [UInt16.toNat_add]
    omega
  simp only [Counter.subTimerBDelay, word_bytes, add_bytes, ge_iff_le, UInt16.le_iff_toNat_le, sum]
  split
  · rename_i past
    have reached : 16000 ≤ t.tcnt1.toNat + delayTicks.toNat := past
    rw [UInt16.toNat_sub_of_le _ _ (UInt16.le_iff_toNat_le.mpr (by rw [sum]; exact past)), sum, if_neg (by omega)]
    rfl
  · rename_i short
    have below : ¬ 16000 ≤ t.tcnt1.toNat + delayTicks.toNat := short
    rw [sum, if_pos (by omega)]

theorem Counter.Running.matchesAfter_iff {t : Counter} {n : Nat} (running : t.Running n) {delayTicks : UInt16}
    (positive : 1 ≤ delayTicks.toNat) (range : delayTicks.toNat ≤ 16000) :
    (t.subTimerBDelay delayTicks).MatchesAfter delayTicks.toNat ↔ t.tcnt1.toNat + delayTicks.toNat < 16000 := by
  have bound := Nat.mod_lt n (by omega : 16001 > 0)
  have later := fun k => ((running.subTimerBDelay delayTicks).iterate k).tcnt1
  have target := t.subTimerBDelay_ocr1b (by rw [running.tcnt1]; omega) range
  rw [running.tcnt1] at target ⊢
  simp only [Counter.MatchesAfter, ← UInt16.toNat_inj, ne_eq, later, target]
  constructor
  · rintro ⟨met, _⟩
    by_contra past
    rw [if_neg past] at met
    omega
  · intro short
    rw [if_pos short]
    refine ⟨by omega, ?_⟩
    intro k _ early
    omega

/-- `OCR1A` makes a period of 16001 clock cycles while the clock's users count 16000 to the millisecond.
    Ticks are consistent as long as no wrap lies in between, and a delay is met on time as long as its
    end lies before tick 16000. -/
theorem tick_consistency (t : Counter) (phase : t.tcnt1.toNat ≤ 16000) :
    (∀ events between : List CounterEvent,
      (((t.init.run events).run between).ticks : Int) - (t.init.run events).ticks = elapsed between ↔
        (t.init.run events).tcnt1.toNat + elapsed between ≤ 16000) ∧
    (∀ (events : List CounterEvent) (delayTicks : UInt16), 1 ≤ delayTicks.toNat → delayTicks.toNat ≤ 16000 →
      (((t.init.run events).subTimerBDelay delayTicks).MatchesAfter delayTicks.toNat ↔
        (t.init.run events).tcnt1.toNat + delayTicks.toNat < 16000)) := by
  constructor
  · intro events between
    have first := (Counter.init_running phase).run events
    exact first.ticks_iff (first.run between)
  · intro events delayTicks positive range
    exact ((Counter.init_running phase).run events).matchesAfter_iff positive range

def Counter.atPhase (phase : UInt16) : Counter := ⟨phase, 0, 0, 0, 0, 0, 0, .zero⟩

theorem tick_consistency_at_start :
    (Counter.atPhase 0).tcnt1.toNat ≤ 16000 ∧
    (∀ events between : List CounterEvent,
      ((((Counter.atPhase 0).init.run events).run between).ticks : Int) - ((Counter.atPhase 0).init.run events).ticks =
        elapsed between ↔ ((Counter.atPhase 0).init.run events).tcnt1.toNat + elapsed between ≤ 16000) ∧
    (∀ (events : List CounterEvent) (delayTicks : UInt16), 1 ≤ delayTicks.toNat → delayTicks.toNat ≤ 16000 →
      ((((Counter.atPhase 0).init.run events).subTimerBDelay delayTicks).MatchesAfter delayTicks.toNat ↔
        ((Counter.atPhase 0).init.run events).tcnt1.toNat + delayTicks.toNat < 16000)) :=
  ⟨by decide, tick_consistency (Counter.atPhase 0) (by decide)⟩

/-- From tick 15999 on, two clock cycles read as one tick, and a delay of two is over after three. -/
theorem tick_lost_at_wrap :
    (((Counter.atPhase 15999).init.run [.count, .count]).ticks : Int) - (Counter.atPhase 15999).init.ticks = 1 ∧
      elapsed [.count, .count] = 2 ∧
      ((Counter.atPhase 15999).init.subTimerBDelay 2).MatchesAfter 3 ∧
      ¬ ((Counter.atPhase 15999).init.subTimerBDelay 2).MatchesAfter 2 := by
  have met : ((Counter.atPhase 15999).init.subTimerBDelay 2).MatchesAfter 3 := by
    refine ⟨by decide, ?_⟩
    intro k positive early
    rcases (by omega : k = 1 ∨ k = 2) with rfl | rfl <;> decide
  refine ⟨by decide, by decide, met, ?_⟩
  intro early
  exact absurd early.1 (by decide)

end Minimus32.Timer1
