import Minimus32.Timer1.Timing

namespace Minimus32.Timer1

open Linked WallTime

variable {Ptr Fn Data : Type}

/-- The tick of the `k`-th invocation of a callback of period `second` behind one of period `first`:
    it waits one tick whenever the other callback is invoked at the tick it is due. -/
def slipped (first second : Nat) : Nat → Nat
  | 0 => 0
  | k + 1 =>
    let due := slipped first second k + second
    if due % first = 0 then due + 1 else due

theorem slipped_gap (first second k : Nat) :
    slipped first second (k + 1) = slipped first second k + second ∨
      slipped first second (k + 1) = slipped first second k + second + 1 := by
  simp only [slipped]
  split
  · exact .inr rfl
  · exact .inl rfl

theorem slipped_bounds (first second k : Nat) :
    k * second ≤ slipped first second k ∧ slipped first second k ≤ k * (second + 1) := by
  induction k with
  | zero => simp [slipped]
  | succ k ih =>
    rw [Nat.succ_mul, Nat.succ_mul]
    rcases slipped_gap first second k with gap | gap <;> omega

/-- The numbers of the ticks at which `p` is invoked, the first tick of the trace being `n + 1`. -/
def invocationTicks [DecidableEq Ptr] (p : Ptr) : Nat → List (Observation Ptr) → List Nat
  | _, [] => []
  | n, .ticked :: trace => invocationTicks p (n + 1) trace
  | n, .invoked q :: trace => if q = p then n :: invocationTicks p n trace else invocationTicks p n trace
  | n, .registered _ _ _ :: trace => invocationTicks p n trace
  | n, .unregistered _ :: trace => invocationTicks p n trace

/-- Two recurring callbacks `t` ticks after both were registered at tick `start`, with `k` invocations
    of the second so far. -/
structure Schedule.Pair (a b : Ptr) (start first second t k : Nat) (s : Schedule Ptr) : Prop where
  now : s.now = start + t
  chain : s.chain = [a, b]
  armedFirst : s.armed a = some ⟨start + first * (t / first), first, true⟩
  armedSecond : s.armed b = some ⟨start + slipped first second k, second, true⟩
  begun : slipped first second k ≤ t
  pending : t < slipped first second (k + 1)

theorem not_both_zero {first t : Nat} (long : 2 ≤ first) (zero : t % first = 0) : (t + 1) % first ≠ 0 := by
  have carry := MixedRadix.succ_digit t first (by omega)
  omega

theorem slipped_clear {first t : Nat} (second k : Nat) (long : 2 ≤ first) (hit : (t + 1) % first = 0) :
    slipped first second (k + 1) ≠ t + 1 := by
  simp only [slipped]
  split
  · rename_i due
    intro same
    have before : slipped first second k + second = t := by omega
    rw [before] at due
    exact not_both_zero long due hit
  · rename_i due
    intro same
    rw [same] at due
    exact due hit

theorem Schedule.Pair.found {a b : Ptr} {start first second t k : Nat} {s : Schedule Ptr}
    (pair : s.Pair a b start first second t k) (long : 2 ≤ first) :
    s.chain.find? (fun p => s.deadlineOf p ≤ s.now + 1) =
      if (t + 1) % first = 0 then some a else if slipped first second (k + 1) = t + 1 then some b else none := by
  have dueFirst : s.deadlineOf a ≤ s.now + 1 ↔ (t + 1) % first = 0 := by
    rw [Schedule.deadlineOf_armed pair.armedFirst, pair.now]
    simp only [Arming.deadline]
    have whole := Nat.div_add_mod t first
    have carry := MixedRadix.succ_digit t first (by omega)
    omega
  rw [pair.chain, List.find?_cons]
  by_cases hit : (t + 1) % first = 0
  · rw [decide_eq_true (dueFirst.mpr hit), if_pos hit]
  · have dueSecond : s.deadlineOf b ≤ s.now + 1 ↔ slipped first second (k + 1) = t + 1 := by
      rw [Schedule.deadlineOf_armed pair.armedSecond, pair.now]
      have pending := pair.pending
      simp only [Arming.deadline, slipped] at pending ⊢
      split at pending
      · rename_i due
        rw [if_pos due]
        have other : slipped first second k + second ≠ t + 1 := by
          intro same
          rw [same] at due
          exact hit due
        omega
      · rename_i due
        rw [if_neg due]
        omega
    rw [decide_eq_false (fun due => hit (dueFirst.mp due)), if_neg hit, List.find?_cons, List.find?_nil]
    by_cases turn : slipped first second (k + 1) = t + 1
    · rw [decide_eq_true (dueSecond.mpr turn), if_pos turn]
    · rw [decide_eq_false (fun due => turn (dueSecond.mp due)), if_neg turn]

section

variable [DecidableEq Ptr]

theorem Schedule.tick_recurring {s : Schedule Ptr} {p : Ptr} {since delay : Nat}
    (armed : s.armed p = some ⟨since, delay, true⟩) :
    s.tick (some p) =
      ⟨s.now + 1, s.chain, Function.update s.armed p (some ⟨s.now + 1, delay, true⟩)⟩ := by
  have ticked : (s.observe .ticked).armed p = some ⟨since, delay, true⟩ := armed
  rw [Schedule.tick, Schedule.observe_invoked_of_recurring ticked rfl]
  rfl

theorem Schedule.Pair.tick_first {a b : Ptr} {start first second t k : Nat} {s : Schedule Ptr}
    (pair : s.Pair a b start first second t k) (distinct : a ≠ b) (long : 2 ≤ first) (hit : (t + 1) % first = 0) :
    (s.tick (some a)).Pair a b start first second (t + 1) k := by
  rw [Schedule.tick_recurring pair.armedFirst, pair.now]
  have quotient := Nat.div_add_mod (t + 1) first
  have pending := pair.pending
  have clear := slipped_clear second k long hit
  refine ⟨Nat.add_assoc .., pair.chain, ?_, ?_, Nat.le_succ_of_le pair.begun, by omega⟩
  · simp only [Function.update_self, Option.some.injEq, Arming.mk.injEq, and_true]
    omega
  · simp only [Function.update_of_ne distinct.symm, pair.armedSecond]

theorem Schedule.Pair.tick_second {a b : Ptr} {start first second t k : Nat} {s : Schedule Ptr}
    (pair : s.Pair a b start first second t k) (distinct : a ≠ b) (long : 2 ≤ first) (positive : 1 ≤ second)
    (miss : (t + 1) % first ≠ 0) (turn : slipped first second (k + 1) = t + 1) :
    (s.tick (some b)).Pair a b start first second (t + 1) (k + 1) := by
  rw [Schedule.tick_recurring pair.armedSecond, pair.now]
  have carry := MixedRadix.succ_digit t first (by omega)
  have gap := slipped_gap first second (k + 1)
  refine ⟨Nat.add_assoc .., pair.chain, ?_, ?_, by omega, by omega⟩
  · have same : (t + 1) / first = t / first := by omega
    simp only [Function.update_of_ne distinct, pair.armedFirst, same]
  · simp only [Function.update_self, Option.some.injEq, Arming.mk.injEq, and_true]
    omega

theorem Schedule.Pair.tick_none {a b : Ptr} {start first second t k : Nat} {s : Schedule Ptr}
    (pair : s.Pair a b start first second t k) (long : 2 ≤ first) (miss : (t + 1) % first ≠ 0)
    (early : slipped first second (k + 1) ≠ t + 1) :
    (s.tick none).Pair a b start first second (t + 1) k := by
  have carry := MixedRadix.succ_digit t first (by omega)
  have same : (t + 1) / first = t / first := by omega
  have pending := pair.pending
  refine ⟨?_, pair.chain, ?_, pair.armedSecond, Nat.le_succ_of_le pair.begun, by omega⟩
  · simp only [Schedule.tick, Schedule.observe, pair.now, Nat.add_assoc]
  · simp only [Schedule.tick, Schedule.observe, pair.armedFirst, same]

theorem invocationTicks_append (p : Ptr) (n : Nat) (left right : List (Observation Ptr)) :
    invocationTicks p n (left ++ right) =
      invocationTicks p n left ++ invocationTicks p (n + left.count .ticked) right := by
  induction left generalizing n with
  | nil => rfl
  | cons seen left ih =>
    cases seen with
    | ticked => simp [invocationTicks, ih, Nat.add_assoc, Nat.add_comm 1]
    | invoked q => by_cases same : q = p <;> simp [invocationTicks, ih, same]
    | registered q delay recurring => simp [invocationTicks, ih]
    | unregistered q => simp [invocationTicks, ih]

structure PairSeen (a b : Ptr) (first second n k : Nat) (seen : List (Observation Ptr)) : Prop where
  ticks : seen.count .ticked = n
  invokedFirst : invocationTicks a 0 seen = (List.range (n / first)).map (fun i => (i + 1) * first)
  invokedSecond : invocationTicks b 0 seen = (List.range k).map (fun i => slipped first second (i + 1))

theorem PairSeen.tick_first {a b : Ptr} {first second n k : Nat} {seen : List (Observation Ptr)}
    (before : PairSeen a b first second n k seen) (distinct : a ≠ b) (long : 2 ≤ first)
    (hit : (n + 1) % first = 0) : PairSeen a b first second (n + 1) k (seen ++ [.ticked, .invoked a]) := by
  have carry := MixedRadix.succ_digit n first (by omega)
  have next : (n + 1) / first = n / first + 1 := by omega
  have whole : (n / first + 1) * first = n + 1 := by
    have quotient := Nat.div_add_mod (n + 1) first
    rw [hit, next, Nat.mul_comm] at quotient
    exact quotient
  refine ⟨?_, ?_, ?_⟩
  · simp [before.ticks]
  · simp [invocationTicks_append, before.ticks, before.invokedFirst, invocationTicks, next, whole,
      List.range_succ]
  · simp [invocationTicks_append, before.invokedSecond, invocationTicks, distinct]

theorem PairSeen.tick_second {a b : Ptr} {first second n k : Nat} {seen : List (Observation Ptr)}
    (before : PairSeen a b first second n k seen) (distinct : a ≠ b) (long : 2 ≤ first)
    (miss : (n + 1) % first ≠ 0) (turn : slipped first second (k + 1) = n + 1) :
    PairSeen a b first second (n + 1) (k + 1) (seen ++ [.ticked, .invoked b]) := by
  have carry := MixedRadix.succ_digit n first (by omega)
  have same : (n + 1) / first = n / first := by omega
  refine ⟨?_, ?_, ?_⟩
  · simp [before.ticks]
  · simp [invocationTicks_append, before.invokedFirst, invocationTicks, same, distinct.symm]
  · simp [invocationTicks_append, before.ticks, before.invokedSecond, invocationTicks, turn, List.range_succ]

theorem PairSeen.tick_none {a b : Ptr} {first second n k : Nat} {seen : List (Observation Ptr)}
    (before : PairSeen a b first second n k seen) (long : 2 ≤ first) (miss : (n + 1) % first ≠ 0) :
    PairSeen a b first second (n + 1) k (seen ++ [.ticked]) := by
  have carry := MixedRadix.succ_digit n first (by omega)
  have same : (n + 1) / first = n / first := by omega
  refine ⟨?_, ?_, ?_⟩
  · simp [before.ticks]
  · simp [invocationTicks_append, before.invokedFirst, invocationTicks, same]
  · simp [invocationTicks_append, before.invokedSecond, invocationTicks]

theorem Schedule.after_quiet (s : Schedule Ptr) (found : Option Ptr) :
    s.after (.ticked :: found.toList.map .invoked) = s.tick found := by
  cases found <;> rfl

theorem Roster.run_quiet_succ (r : Roster Ptr Fn Data) (n : Nat) :
    let before := r.run (List.replicate n .quiet)
    r.run (List.replicate (n + 1) .quiet) =
      (before.1.isrAtomic, before.2 ++ .ticked :: before.1.found.toList.map .invoked) := by
  intro before
  rw [List.replicate_succ', Roster.run_append]
  simp only [Roster.run, Roster.step_quiet, List.append_nil, before]

theorem Roster.Tracks.pair_run {r : Roster Ptr Fn Data} {s : Schedule Ptr} (tracks : r.Tracks s) {a b : Ptr}
    {start first second : Nat} (pair : s.Pair a b start first second 0 0) (distinct : a ≠ b) (long : 2 ≤ first)
    (positive : 1 ≤ second) (n : Nat) (early : start + n < horizon) :
    ∃ k, (s.after (r.run (List.replicate n .quiet)).2).Pair a b start first second n k ∧
      PairSeen a b first second n k (r.run (List.replicate n .quiet)).2 := by
  induction n with
  | zero => exact ⟨0, pair, rfl, by simp [Roster.run, invocationTicks], by simp [Roster.run, invocationTicks]⟩
  | succ n ih =>
    obtain ⟨k, now, seen⟩ := ih (Nat.lt_of_succ_lt early)
    have allowed : ∀ e ∈ List.replicate n (Event.quiet : Event Ptr Fn Data), e.Calls Op.DelayFits := by
      intro e member
      rw [List.eq_of_mem_replicate member]
      exact Event.quiet_calls _
    have found := (tracks.run _ allowed).found_eq (by rw [now.now]; exact early)
    rw [now.found long] at found
    rw [Roster.run_quiet_succ, Schedule.after_append, Schedule.after_quiet, found]
    by_cases hit : (n + 1) % first = 0
    · rw [if_pos hit]
      exact ⟨k, now.tick_first distinct long hit, seen.tick_first distinct long hit⟩
    · rw [if_neg hit]
      by_cases turn : slipped first second (k + 1) = n + 1
      · rw [if_pos turn]
        exact ⟨k + 1, now.tick_second distinct long positive hit turn, seen.tick_second distinct long hit turn⟩
      · rw [if_neg turn]
        exact ⟨k, now.tick_none long hit turn, seen.tick_none long hit⟩

def period (sec msec : UInt16) : Nat := 1000 * sec.toNat + msec.toNat

theorem Schedule.pair_registered {s : Schedule Ptr} (idle : s.chain = []) {a b : Ptr} (distinct : a ≠ b)
    (first second : Nat) (positive : 1 ≤ second) :
    (s.after [.registered a first true, .registered b second true]).Pair a b s.now first second 0 0 := by
  have gap := slipped_gap first second 0
  simp only [Schedule.after, List.foldl_cons, List.foldl_nil, Schedule.observe, idle]
  refine ⟨rfl, ?_, ?_, ?_, Nat.le_refl _, by omega⟩
  · simp [enqueue, distinct.symm]
  · simp [Function.update_of_ne distinct]
  · simp [slipped]

variable [Fintype Ptr]

/-- Two recurring callbacks registered at the same instant on an empty chain. The first is invoked at
    every multiple of its period; the second falls one tick behind for good at every collision. -/
theorem recurring_pair_invocations (c : Clock Ptr Fn Data) (fuel : Nat) (enough : Fintype.card Ptr < fuel)
    (events : List (Event Ptr Fn Data)) (fits : ∀ e ∈ events, e.Calls Op.DelayFits)
    (before : Clock Ptr Fn Data) (trace : List (Observation Ptr))
    (reached : c.init.run fuel events = some (before, trace)) (idle : before.chain = none)
    (a b : Ptr) (distinct : a ≠ b) (sec₁ msec₁ sec₂ msec₂ : UInt16) (fits₁ : DelayFits sec₁ msec₁)
    (fits₂ : DelayFits sec₂ msec₂) (long₁ : 2 ≤ period sec₁ msec₁) (long₂ : 2 ≤ period sec₂ msec₂)
    (recurring₁ recurring₂ : UInt8) (repeats₁ : recurring₁ ≠ 0) (repeats₂ : recurring₂ ≠ 0) (f₁ f₂ : Fn) (d₁ d₂ : Data)
    (n : Nat) (early : (Schedule.of trace).now + n < horizon) :
    ∃ registered calls final seen k,
      before.run fuel [.op (.register sec₁ msec₁ recurring₁ f₁ d₁ a), .op (.register sec₂ msec₂ recurring₂ f₂ d₂ b)] =
        some (registered, calls) ∧
      registered.run fuel (List.replicate n .quiet) = some (final, seen) ∧
      invocationTicks a 0 seen =
        (List.range (n / period sec₁ msec₁)).map (fun i => (i + 1) * period sec₁ msec₁) ∧
      invocationTicks b 0 seen =
        (List.range k).map (fun i => slipped (period sec₁ msec₁) (period sec₂ msec₂) (i + 1)) ∧
      slipped (period sec₁ msec₁) (period sec₂ msec₂) k ≤ n ∧
      n < slipped (period sec₁ msec₁) (period sec₂ msec₂) (k + 1) ∧
      ∀ i, i * period sec₂ msec₂ ≤ slipped (period sec₁ msec₁) (period sec₂ msec₂) i ∧
        slipped (period sec₁ msec₁) (period sec₂ msec₂) i ≤ i * (period sec₂ msec₂ + 1) := by
  obtain ⟨reachedBefore, finished, represents⟩ := c.init_represents.run enough events
  have same := Option.some.inj (reached.symm.trans finished)
  simp only [Prod.mk.injEq] at same
  obtain ⟨rfl, rfl⟩ := same
  have tracks := (Roster.start_tracks c).run events fits
  have empty : (Schedule.of ((Roster.start c).run events).2).chain = [] := by
    have head := represents.holds.head_eq
    rw [tracks.cells] at head
    exact List.head?_eq_none_iff.mp (head.symm.trans idle)
  obtain ⟨registered, called, represents⟩ := represents.run enough
    [.op (.register sec₁ msec₁ recurring₁ f₁ d₁ a), .op (.register sec₂ msec₂ recurring₂ f₂ d₂ b)]
  obtain ⟨final, ticked, _⟩ := represents.run enough (List.replicate n .quiet)
  have tracks := tracks.run
    [.op (.register sec₁ msec₁ recurring₁ f₁ d₁ a), .op (.register sec₂ msec₂ recurring₂ f₂ d₂ b)]
    (by simp [Event.Calls, Op.DelayFits, fits₁, fits₂])
  have pair := Schedule.pair_registered empty distinct (period sec₁ msec₁) _ (Nat.le_of_succ_le long₂)
  simp only [Roster.run, Roster.step, Op.observation, bne_iff_ne.mpr repeats₁, bne_iff_ne.mpr repeats₂] at tracks
  obtain ⟨k, now, seen⟩ := tracks.pair_run pair distinct long₁ (Nat.le_of_succ_le long₂) n early
  exact ⟨registered, _, final, _, k, called, ticked, seen.invokedFirst, seen.invokedSecond, now.begun, now.pending,
    slipped_bounds _ _⟩

theorem recurring_pair_invocations_two_three :
    let before : Clock (Fin 2) Unit Unit := (Clock.stray 2).init
    let calls : List (Event (Fin 2) Unit Unit) := [.op (.register 0 2 1 () () 0), .op (.register 0 3 1 () () 1)]
    before.chain = none ∧ ∃ registered seenCalls final seen k,
      before.run 3 calls = some (registered, seenCalls) ∧
      registered.run 3 (List.replicate 11 .quiet) = some (final, seen) ∧
      invocationTicks 0 0 seen = (List.range (11 / period 0 2)).map (fun i => (i + 1) * period 0 2) ∧
      invocationTicks 1 0 seen = (List.range k).map (fun i => slipped (period 0 2) (period 0 3) (i + 1)) ∧
      slipped (period 0 2) (period 0 3) k ≤ 11 ∧ 11 < slipped (period 0 2) (period 0 3) (k + 1) ∧
      ∀ i, i * period 0 3 ≤ slipped (period 0 2) (period 0 3) i ∧
        slipped (period 0 2) (period 0 3) i ≤ i * (period 0 3 + 1) :=
  ⟨rfl, recurring_pair_invocations (Clock.stray 2) 3 (by decide) [] (by simp) _ [] rfl rfl 0 1 (by decide) 0 2 0 3
    (by simp [DelayFits]) (by simp [DelayFits]) (by decide) (by decide) 1 1 (by decide) (by decide) () () () () 11
    (by decide)⟩

/-- Periods of two and three ticks: the third invocation of the slower callback comes at tick 11. -/
theorem recurring_pair_drifts :
    let calls : List (Event (Fin 2) Unit Unit) := [.op (.register 0 2 1 () () 0), .op (.register 0 3 1 () () 1)]
    ∃ registered seenCalls final seen, (Clock.stray 2).init.run 3 calls = some (registered, seenCalls) ∧
      registered.run 3 (List.replicate 11 .quiet) = some (final, seen) ∧
      invocationTicks 1 0 seen = [3, 7, 11] ∧ 3 * period 0 3 + 1 < 11 := by
  exact ⟨_, _, _, _, rfl, rfl, by decide, by decide⟩

end

end Minimus32.Timer1
