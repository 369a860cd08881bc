import Minimus32.Timer1.Schedule
import Minimus32.Timer1.WallTime

namespace Minimus32.Timer1

open WallTime

variable {Ptr Fn Data : Type}

/-- The number of executions of the compare interrupt. -/
def ticks : List (Event Ptr Fn Data) → Nat
  | [] => 0
  | .op _ :: events => ticks events
  | .tick _ :: events => ticks events + 1

section

variable [DecidableEq Ptr]

theorem Roster.perform_walltimer (r : Roster Ptr Fn Data) (o : Op Ptr Fn Data) :
    (r.perform o).walltimer = r.walltimer := by
  cases o <;> rfl

theorem Roster.performAll_walltimer (r : Roster Ptr Fn Data) (ops : List (Op Ptr Fn Data)) :
    (r.performAll ops).walltimer = r.walltimer := by
  induction ops generalizing r with
  | nil => rfl
  | cons o ops ih => exact (ih (r.perform o)).trans (r.perform_walltimer o)

theorem Roster.fire_walltimer (r : Roster Ptr Fn Data) (p : Ptr) : (r.fire p).walltimer = r.walltimer := by
  by_cases oneShot : (r.entries p).recurring = 0
  · rw [r.fire_of_oneShot oneShot]
    rfl
  · rw [r.fire_of_recurring oneShot]
    rfl

theorem Roster.isr_walltimer (r : Roster Ptr Fn Data) (body : Fn → Data → List (Op Ptr Fn Data)) :
    (r.isr body).1.walltimer = r.walltimer.advance := by
  unfold Roster.isr
  cases r.found with
  | none => rfl
  | some p => exact (Roster.performAll_walltimer _ _).trans (Roster.fire_walltimer _ p)

theorem Roster.run_walltimer (r : Roster Ptr Fn Data) {n : Nat} (begun : r.walltimer = .ofTicks n)
    (events : List (Event Ptr Fn Data)) : (r.run events).1.walltimer = .ofTicks (n + ticks events) := by
  induction events generalizing r n with
  | nil => exact begun
  | cons e events ih =>
    cases e with
    | op o => exact ih (r.perform o) ((r.perform_walltimer o).trans begun)
    | tick body =>
      have next : (r.isr body).1.walltimer = .ofTicks (n + 1) := by
        rw [r.isr_walltimer, begun, advance_ofTicks]
      have rest := ih (r.isr body).1 next
      rw [Nat.add_assoc, Nat.add_comm 1] at rest
      exact rest

variable [Fintype Ptr]

/-- Whatever is registered, unregistered and called meanwhile, the time is the number of interrupts since
    `timer1_clock_init` or `timer1_clock_reset`. -/
theorem uptime (c start : Clock Ptr Fn Data)
    (begun : start = c.init ∨ (∃ cells, c.links.Holds cells) ∧ start = c.reset) (fuel : Nat)
    (enough : Fintype.card Ptr < fuel) (events : List (Event Ptr Fn Data)) (n : Nat) (count : ticks events = n) :
    ∃ after seen, start.run fuel events = some (after, seen) ∧
      after.getTime.msec.toNat = n % 1000 ∧ after.getTime.sec.toNat = n / 1000 % 60 ∧
      after.getTime.min.toNat = n / 60000 % 60 ∧ after.getTime.hour.toNat = n / 3600000 % 24 ∧
      after.getTime.day.toNat = n / 86400000 % 65536 ∧ after.getTime.freerunningSec.toNat = n / 1000 % 65536 := by
  obtain ⟨r, represents, zero⟩ : ∃ r : Roster Ptr Fn Data, start.Represents r ∧ r.walltimer = .ofTicks 0 := by
    rcases begun with rfl | ⟨⟨cells, chain⟩, rfl⟩
    · exact ⟨_, c.init_represents, ofTicks_zero.symm⟩
    · exact ⟨_, Clock.roster_represents (c := c.reset) chain, ofTicks_zero.symm⟩
  obtain ⟨after, finished, represents⟩ := represents.run enough events
  have time : after.getTime = .ofTicks n := by
    rw [Clock.getTime, represents.walltimer, r.run_walltimer zero, count, Nat.zero_add]
  refine ⟨after, _, finished, ?_⟩
  rw [time]
  simp only [WallTime.ofTicks, UInt16.toNat_ofNat', UInt8.toNat_ofNat', Nat.div_div_eq_div_mul]
  refine ⟨Nat.mod_eq_of_lt ?_, Nat.mod_eq_of_lt ?_, Nat.mod_eq_of_lt ?_, Nat.mod_eq_of_lt ?_, trivial, trivial⟩
  · omega
  · omega
  · exact lt_trans (Nat.mod_lt _ (by decide)) (by decide)
  · exact lt_trans (Nat.mod_lt _ (by decide)) (by decide)

theorem uptime_after_reset :
    let c : Clock (Fin 1) Unit Unit := { (Clock.stray 1).init with walltimer := .ofTicks 7 }
    ∃ after seen, c.reset.run 2 (List.replicate 3 .quiet) = some (after, seen) ∧ after.getTime.msec.toNat = 3 := by
  intro c
  obtain ⟨after, seen, finished, msec, -⟩ := uptime c c.reset (.inr ⟨⟨[], rfl⟩, rfl⟩) 2 (by decide)
    (List.replicate 3 .quiet) 3 rfl
  exact ⟨after, seen, finished, msec⟩

end

end Minimus32.Timer1
