import Mathlib.Tactic.SplitIfs
import Minimus32.Timer1.Deadline
import Minimus32.Timer1.Period

namespace Minimus32.Timer1

open Linked WallTime

def WallTime.withSec (t : WallTime) (freerunningSec : UInt16) : WallTime := { t with freerunningSec := freerunningSec }

theorem WallTime.total_withSec (t : WallTime) (freerunningSec : UInt16) :
    (t.withSec freerunningSec).total = t.total := rfl

theorem WallTime.normal_withSec (t : WallTime) (freerunningSec : UInt16) :
    (t.withSec freerunningSec).Normal ↔ t.Normal := by
  constructor
  · intro normal
    exact ⟨normal.msec, normal.sec, normal.min, normal.hour⟩
  · intro normal
    exact ⟨normal.msec, normal.sec, normal.min, normal.hour⟩

/-- The free running seconds take no part in the carries. -/
theorem WallTime.advance_withSec (t : WallTime) (freerunningSec : UInt16) :
    (t.withSec freerunningSec).advance.withSec 0 = t.advance.withSec 0 := by
  obtain ⟨msec, sec, min, hour, day, free⟩ := t
  unfold WallTime.advance WallTime.withSec
  dsimp only
  split_ifs <;> rfl

theorem WallTime.Normal.eq_ofTicks {t : WallTime} (normal : t.Normal) :
    t = (WallTime.ofTicks t.total).withSec t.freerunningSec := by
  obtain ⟨msec, sec, min, hour⟩ := normal
  have day := t.day.toNat_lt
  obtain ⟨m, s, mi, h, d, f⟩ := t
  simp only [WallTime.withSec, WallTime.ofTicks, WallTime.total, WallTime.mk.injEq, ← UInt16.toNat_inj,
    ← UInt8.toNat_inj, UInt16.toNat_ofNat', UInt8.toNat_ofNat', and_true] at *
  omega

theorem WallTime.Normal.advance {t : WallTime} (normal : t.Normal) :
    t.advance.Normal ∧ t.advance.total = (t.total + 1) % dayLimit := by
  have stepped : t.advance.withSec 0 = (WallTime.ofTicks (t.total + 1)).withSec 0 := by
    conv_lhs => rw [normal.eq_ofTicks]
    rw [advance_withSec, advance_ofTicks]
  rw [← normal_withSec t.advance 0, ← total_withSec t.advance 0, stepped, normal_withSec, total_withSec]
  exact ⟨ofTicks_normal (t.total + 1), ofTicks_total (t.total + 1)⟩

variable {Ptr Fn Data : Type}

/-- `p` is the only struct of the chain, and was last registered when the time was `since`. -/
structure Roster.Lone (r : Roster Ptr Fn Data) (p : Ptr) (now since : Nat) (sec msec : UInt16) (recurring : UInt8) :
    Prop where
  cells : r.cells = [p]
  normal : r.walltimer.Normal
  now : r.walltimer.total = now
  time : (r.entries p).time.Normal
  deadline : (r.entries p).time.total = (since + period sec msec) % dayLimit
  sec : (r.entries p).time.freerunningSec = sec
  msec : (r.entries p).recurringMsec = msec
  recurring : (r.entries p).recurring = recurring

theorem Roster.Lone.advance {r : Roster Ptr Fn Data} {p : Ptr} {now since : Nat} {sec msec : UInt16} {recurring : UInt8}
    (lone : r.Lone p now since sec msec recurring) (early : now + 1 < dayLimit) :
    r.advance.Lone p (now + 1) since sec msec recurring := by
  obtain ⟨normal, total⟩ := lone.normal.advance
  rw [lone.now, Nat.mod_eq_of_lt early] at total
  exact ⟨lone.cells, normal, total, lone.time, lone.deadline, lone.sec, lone.msec, lone.recurring⟩

theorem Roster.Lone.found {r : Roster Ptr Fn Data} {p : Ptr} {now since : Nat} {sec msec : UInt16} {recurring : UInt8}
    (lone : r.Lone p now since sec msec recurring) (early : now + 1 < dayLimit)
    (ahead : since + period sec msec < dayLimit) :
    r.found = if since + period sec msec ≤ now + 1 then some p else none := by
  have ticked := lone.advance early
  have due : r.advance.due p = true ↔ since + period sec msec ≤ now + 1 := by
    rw [Roster.due, decide_eq_true_iff, expired_iff ticked.normal ticked.time, ticked.now, ticked.deadline,
      Nat.mod_eq_of_lt ahead]
  rw [Roster.found, lone.cells, List.find?_singleton]
  exact if_congr due rfl rfl

theorem Roster.found_of_empty {r : Roster Ptr Fn Data} (empty : r.cells = []) : r.found = none := by
  rw [Roster.found, empty]
  rfl

variable [DecidableEq Ptr]

theorem Roster.lone_registered {r : Roster Ptr Fn Data} {p : Ptr} (alone : r.cells = [] ∨ r.cells = [p])
    (normal : r.walltimer.Normal) {sec msec : UInt16} (limit : sec.toNat ≤ 65534) (range : msec.toNat ≤ 999)
    (recurring : UInt8) (callback : Fn) (userData : Data) :
    (r.registerCallback sec msec recurring callback userData p).Lone p r.walltimer.total r.walltimer.total sec msec
      recurring := by
  obtain ⟨time, total⟩ := deadline_normal normal range (.inl limit)
  have stored : (r.registerCallback sec msec recurring callback userData p).entries p =
      .arm r.walltimer sec msec recurring callback userData := Function.update_self ..
  refine ⟨?_, normal, rfl, ?_, ?_, ?_, ?_, ?_⟩
  · rcases alone with none | only
    · simp [Roster.registerCallback, enqueue, none]
    · simp [Roster.registerCallback, enqueue, only]
  all_goals rw [stored]
  · exact time
  · exact total
  · rfl
  · rfl
  · rfl

section Tick

variable {r : Roster Ptr Fn Data} {p : Ptr} {now since : Nat} {sec msec : UInt16} {recurring : UInt8}

theorem Roster.Lone.tick_none (lone : r.Lone p now since sec msec recurring) (early : now + 1 < dayLimit)
    (none : r.found = none) : r.isrAtomic.Lone p (now + 1) since sec msec recurring := by
  rw [Roster.isrAtomic, none]
  exact lone.advance early

theorem Roster.Lone.tick_recurring (lone : r.Lone p now since sec msec recurring) (early : now + 1 < dayLimit)
    (limit : sec.toNat ≤ 65534) (range : msec.toNat ≤ 999) (repeats : recurring ≠ 0) (found : r.found = some p) :
    r.isrAtomic.Lone p (now + 1) (now + 1) sec msec recurring := by
  have ticked := lone.advance early
  have again : (r.advance.entries p).recurring ≠ 0 := by rwa [ticked.recurring]
  have registered := Roster.lone_registered (.inr ticked.cells) ticked.normal limit range recurring
    (r.advance.entries p).callback (r.advance.entries p).userData
  rw [ticked.now] at registered
  simp only [Roster.isrAtomic, found]
  rw [r.advance.fire_of_recurring again, ticked.sec, ticked.msec, ticked.recurring]
  exact registered

theorem Roster.Lone.tick_oneShot (lone : r.Lone p now since sec msec 0) (found : r.found = some p) :
    r.isrAtomic.cells = [] := by
  have cells : r.advance.cells = [p] := lone.cells
  simp only [Roster.isrAtomic, found]
  rw [r.advance.fire_of_oneShot lone.recurring, Roster.unregisterCallback, cells]
  exact List.erase_cons_head ..

end Tick

theorem Roster.isrAtomic_of_empty {r : Roster Ptr Fn Data} (empty : r.cells = []) : r.isrAtomic.cells = [] := by
  rw [Roster.isrAtomic, Roster.found_of_empty empty]
  exact empty

theorem Roster.count_ticked_quiet (r : Roster Ptr Fn Data) (n : Nat) :
    (r.run (List.replicate n .quiet)).2.count .ticked = n := by
  induction n with
  | zero => rfl
  | succ n ih =>
    rw [Roster.run_quiet_succ, List.count_append, ih, List.count_cons]
    cases (r.run (List.replicate n .quiet)).1.found <;> simp

theorem Roster.invocationTicks_quiet_succ (r : Roster Ptr Fn Data) (p : Ptr) (n : Nat) :
    invocationTicks p 0 (r.run (List.replicate (n + 1) .quiet)).2 =
      invocationTicks p 0 (r.run (List.replicate n .quiet)).2 ++
        if (r.run (List.replicate n .quiet)).1.found = some p then [n + 1] else [] := by
  rw [Roster.run_quiet_succ, invocationTicks_append, r.count_ticked_quiet n, Nat.zero_add]
  cases found : (r.run (List.replicate n .quiet)).1.found with
  | none => rfl
  | some q => simp [invocationTicks]

/-- The ticks from one registration to the invocation. -/
def wait (sec msec : UInt16) : Nat := max (period sec msec) 1

theorem Roster.Lone.run_recurring {r : Roster Ptr Fn Data} {p : Ptr} {start : Nat} {sec msec : UInt16}
    {recurring : UInt8} (lone : r.Lone p start start sec msec recurring) (limit : sec.toNat ≤ 65534)
    (range : msec.toNat ≤ 999) (repeats : recurring ≠ 0) (n : Nat) (early : start + n < dayLimit)
    (ahead : ∀ j, j * wait sec msec < n → start + j * wait sec msec + period sec msec < dayLimit) :
    (r.run (List.replicate n .quiet)).1.Lone p (start + n) (start + n / wait sec msec * wait sec msec) sec msec
        recurring ∧
      invocationTicks p 0 (r.run (List.replicate n .quiet)).2 =
        (List.range (n / wait sec msec)).map (fun i => (i + 1) * wait sec msec) := by
  have positive : 0 < wait sec msec := by
    unfold wait
    omega
  induction n with
  | zero =>
    rw [Nat.zero_div, Nat.zero_mul]
    exact ⟨lone, rfl⟩
  | succ n ih =>
    obtain ⟨now, seen⟩ := ih (by omega) (fun j before => ahead j (by omega))
    have begun := Nat.div_mul_le_self n (wait sec msec)
    have found := now.found (by omega) (ahead (n / wait sec msec) (by omega))
    have whole := Nat.div_add_mod' n (wait sec msec)
    rw [Roster.invocationTicks_quiet_succ, seen, Roster.run_quiet_succ]
    rcases MixedRadix.succ_digit n (wait sec msec) positive with ⟨under, -, rest⟩ | ⟨full, -, rest⟩
    · have pending : ¬ start + n / wait sec msec * wait sec msec + period sec msec ≤ start + n + 1 := by
        have same : period sec msec = wait sec msec := by
          unfold wait at under ⊢
          omega
        omega
      rw [if_neg pending] at found
      rw [rest, found]
      exact ⟨now.tick_none (by omega) found, by simp⟩
    · have due : start + n / wait sec msec * wait sec msec + period sec msec ≤ start + n + 1 := by
        have small : period sec msec ≤ wait sec msec := by
          unfold wait
          omega
        omega
      have next : (n / wait sec msec + 1) * wait sec msec = n + 1 := by
        rw [Nat.succ_mul]
        omega
      rw [if_pos due] at found
      rw [rest, found, next, if_pos rfl, List.range_succ, List.map_append, List.map_singleton, next]
      exact ⟨now.tick_recurring (by omega) limit range repeats found, rfl⟩

theorem Roster.Lone.run_oneShot {r : Roster Ptr Fn Data} {p : Ptr} {start : Nat} {sec msec : UInt16}
    (lone : r.Lone p start start sec msec 0) (n : Nat) (early : start + n < dayLimit)
    (ahead : 0 < n → start + period sec msec < dayLimit) :
    if wait sec msec ≤ n then
      (r.run (List.replicate n .quiet)).1.cells = [] ∧
        invocationTicks p 0 (r.run (List.replicate n .quiet)).2 = [wait sec msec]
    else
      (r.run (List.replicate n .quiet)).1.Lone p (start + n) start sec msec 0 ∧
        invocationTicks p 0 (r.run (List.replicate n .quiet)).2 = [] := by
  induction n with
  | zero =>
    have never : ¬ wait sec msec ≤ 0 := by
      unfold wait
      omega
    rw [if_neg never]
    exact ⟨lone, rfl⟩
  | succ n ih =>
    have before := ih (by omega) (fun _ => ahead (by omega))
    rw [Roster.invocationTicks_quiet_succ, Roster.run_quiet_succ]
    by_cases passed : wait sec msec ≤ n
    · rw [if_pos passed] at before
      obtain ⟨empty, seen⟩ := before
      rw [if_pos (by omega), seen, Roster.found_of_empty empty]
      exact ⟨Roster.isrAtomic_of_empty empty, rfl⟩
    · rw [if_neg passed] at before
      obtain ⟨now, seen⟩ := before
      have found := now.found (by omega) (ahead (by omega))
      rw [seen]
      by_cases last : wait sec msec ≤ n + 1
      · have due : start + period sec msec ≤ start + n + 1 := by
          unfold wait at last
          omega
        have equal : wait sec msec = n + 1 := by omega
        rw [if_pos due] at found
        rw [if_pos last, if_pos found, equal]
        exact ⟨now.tick_oneShot found, rfl⟩
      · have pending : ¬ start + period sec msec ≤ start + n + 1 := by
          unfold wait at last
          omega
        rw [if_neg pending] at found
        rw [if_neg last, found]
        exact ⟨now.tick_none (by omega) found, rfl⟩

variable [Fintype Ptr]

/-- A struct that is alone on the chain is invoked after its delay, or with the next tick if that is zero, and again
    after each further delay if it is recurring, while the deadlines set before the last tick are ahead of the end
    of the day counter. -/
theorem lone_schedule (c : Clock Ptr Fn Data) (p : Ptr) (alone : c.links.Holds [] ∨ c.links.Holds [p]) (fuel : Nat)
    (enough : Fintype.card Ptr < fuel) (normal : c.walltimer.Normal) (sec msec : UInt16) (limit : sec.toNat ≤ 65534)
    (range : msec.toNat ≤ 999) (recurring : UInt8) (callback : Fn) (userData : Data) (n : Nat)
    (early : c.walltimer.total + n < dayLimit)
    (ahead : ∀ j, j * wait sec msec < n → (recurring = 0 → j = 0) →
      c.walltimer.total + j * wait sec msec + period sec msec < dayLimit) :
    ∃ registered after seen,
      c.registerCallback fuel sec msec recurring callback userData p = some registered ∧
      registered.run fuel (List.replicate n .quiet) = some (after, seen) ∧
      (recurring = 0 → invocationTicks p 0 seen = (if wait sec msec ≤ n then [wait sec msec] else []) ∧
        (wait sec msec ≤ n → after.chain = none)) ∧
      (recurring ≠ 0 →
        invocationTicks p 0 seen = (List.range (n / wait sec msec)).map (fun i => (i + 1) * wait sec msec)) := by
  obtain ⟨cells, chain, only⟩ : ∃ cells, c.links.Holds cells ∧ (cells = [] ∨ cells = [p]) := by
    rcases alone with none | one
    · exact ⟨[], none, .inl rfl⟩
    · exact ⟨[p], one, .inr rfl⟩
  have represents := Clock.roster_represents chain
  obtain ⟨registered, done, represents⟩ :=
    represents.registerCallback (represents.enough enough) sec msec recurring callback userData p
  obtain ⟨after, ticked, represents⟩ := represents.run enough (List.replicate n .quiet)
  have lone := Roster.lone_registered (r := c.roster cells) only normal limit range recurring callback userData
  refine ⟨registered, after, _, done, ticked, ?_, ?_⟩
  · rintro rfl
    have schedule := lone.run_oneShot n early fun some => by
      have first := ahead 0 (by omega) fun _ => rfl
      rwa [Nat.zero_mul, Nat.add_zero] at first
    by_cases passed : wait sec msec ≤ n
    · rw [if_pos passed] at schedule ⊢
      refine ⟨schedule.2, fun _ => ?_⟩
      have head := represents.holds.head_eq
      rw [schedule.1] at head
      exact head
    · rw [if_neg passed] at schedule ⊢
      exact ⟨schedule.2, fun reached => absurd reached passed⟩
  · intro repeats
    exact (lone.run_recurring limit range repeats n early fun j before => ahead j before fun zero =>
      absurd zero repeats).2

theorem lone_schedule_every_second_tick :
    ∃ registered after seen, (Clock.stray 1).init.registerCallback 2 0 2 1 () () 0 = some registered ∧
      registered.run 2 (List.replicate 5 .quiet) = some (after, seen) ∧ invocationTicks 0 0 seen = [2, 4] := by
  obtain ⟨registered, after, seen, done, ticked, -, recurring⟩ := lone_schedule (Clock.stray 1).init 0 (.inl rfl) 2
    (by decide) (WallTime.ofTicks_normal 0) 0 2 (by decide) (by decide) 1 () () 5 (by decide)
    (fun j before _ => by
      have small : j < 5 := by
        change j * 2 < 5 at before
        omega
      change 0 + j * 2 + 2 < dayLimit
      unfold dayLimit
      omega)
  exact ⟨registered, after, seen, done, ticked, recurring (by decide)⟩

/-- Two seconds before the day counter ends a one-shot of five seconds is invoked at the first tick. -/
theorem lone_schedule_last_day :
    let c : Clock (Fin 1) Unit Unit := { (Clock.stray 1).init with walltimer := ⟨0, 58, 59, 23, 65535, 0⟩ }
    c.walltimer.Normal ∧ c.walltimer.total + 1 < dayLimit ∧
      ∃ registered after seen, c.registerCallback 2 5 0 0 () () 0 = some registered ∧
        registered.run 2 [.quiet] = some (after, seen) ∧ invocationTicks 0 0 seen = [1] ∧ wait 5 0 = 5000 :=
  ⟨⟨by decide, by decide, by decide, by decide⟩, by decide, _, _, _, rfl, rfl, by decide, by decide⟩

end Minimus32.Timer1
