import Minimus32.BoardSupport.Spi
import Minimus32.Library.TracedRun
import Mathlib.Logic.Function.Basic

namespace Minimus32.BusLock

inductive Bus where
  | spi
  | twi
deriving DecidableEq

/-- Where a context is in the obtain function of a bus: outside, before the atomic block, or behind it. -/
inductive Pc where
  | outside
  | looping (bus : Bus) (blocking : UInt8)
  | attempted (bus : Bus) (blocking lockCopy : UInt8)
deriving DecidableEq

/-- The lock variables, where each context is, and for which buses its obtain has returned 1 and it has not called
    release. -/
structure State (C : Type*) where
  busLock : Bus → UInt8
  pc : C → Pc
  obtained : C → Bus → Bool

inductive Action where
  | obtain (bus : Bus) (blocking : UInt8)
  | attempt
  | check
  | release (bus : Bus)
deriving DecidableEq

structure Return (C : Type*) where
  context : C
  bus : Bus
  value : UInt8
deriving DecidableEq

variable {C : Type*} [DecidableEq C]

def State.enter (s : State C) (c : C) (pc : Pc) : State C := { s with pc := Function.update s.pc c pc }

def State.write (s : State C) (bus : Bus) (value : UInt8) : State C :=
  { s with busLock := Function.update s.busLock bus value }

def State.mark (s : State C) (c : C) (bus : Bus) (value : Bool) : State C :=
  { s with obtained := Function.update s.obtained c (Function.update (s.obtained c) bus value) }

/-- One atomic step of a context: the call of `spi_obtain_bus` or `twi_obtain_bus`, its atomic block, its loop
    condition with the return, and the store of the release function. -/
def step (s : State C) : C × Action → Option (State C × List (Return C))
  | (c, .obtain bus blocking) => if s.pc c = .outside then some (s.enter c (.looping bus blocking), []) else none
  | (c, .attempt) =>
    match s.pc c with
    | .looping bus blocking => some ((s.write bus 1).enter c (.attempted bus blocking (s.busLock bus)), [])
    | .outside | .attempted .. => none
  | (c, .check) =>
    match s.pc c with
    | .attempted bus blocking lockCopy =>
      if blocking = 0 ∨ lockCopy = 0 then
        if lockCopy = 0 then some ((s.mark c bus true).enter c .outside, [⟨c, bus, 1⟩])
        else some (s.enter c .outside, [⟨c, bus, 0⟩])
      else some (s.enter c (.looping bus blocking), [])
    | .outside | .looping .. => none
  | (c, .release bus) =>
    if s.pc c = .outside ∧ s.obtained c bus = true then some ((s.write bus 0).mark c bus false, []) else none

def State.initial : State C := ⟨fun _ => 0, fun _ => .outside, fun _ _ => false⟩

def Pc.gotten (pc : Pc) (bus : Bus) : Bool :=
  match pc with
  | .attempted tried _ lockCopy => tried == bus && lockCopy == 0
  | .outside | .looping .. => false

/-- A context holds a bus from the atomic block that found it free to the store that frees it. -/
def State.holds (s : State C) (c : C) (bus : Bus) : Bool := s.obtained c bus || (s.pc c).gotten bus

/-- The lock a bus is meant to have: it knows its owner. -/
structure State.OwnedBy (s : State C) (owner : Bus → Option C) : Prop where
  lock : ∀ bus, s.busLock bus = if (owner bus).isSome then 1 else 0
  holder : ∀ c bus, s.holds c bus = true ↔ owner bus = some c

/-- The step leaves every lock variable and every holder. -/
def State.Unchanged (s after : State C) : Prop :=
  after.busLock = s.busLock ∧ ∀ c bus, after.holds c bus = s.holds c bus

theorem holds_enter_self (s : State C) (c : C) (pc : Pc) (bus : Bus) :
    (s.enter c pc).holds c bus = (s.obtained c bus || pc.gotten bus) := by
  simp [State.holds, State.enter]

theorem holds_enter_of_ne (s : State C) {c d : C} (other : d ≠ c) (pc : Pc) (bus : Bus) :
    (s.enter c pc).holds d bus = s.holds d bus := by
  simp [State.holds, State.enter, Function.update_of_ne other]

theorem Unchanged.enter (s : State C) (c : C) {pc : Pc} (same : ∀ bus, pc.gotten bus = (s.pc c).gotten bus) :
    s.Unchanged (s.enter c pc) := by
  refine ⟨rfl, ?_⟩
  intro d bus
  by_cases self : d = c
  · rw [self, holds_enter_self, same]
    rfl
  · rw [holds_enter_of_ne s self]

omit [DecidableEq C] in
theorem State.OwnedBy.of_unchanged {s after : State C} {owner : Bus → Option C} (owned : s.OwnedBy owner)
    (same : s.Unchanged after) : after.OwnedBy owner := by
  refine ⟨?_, ?_⟩
  · rw [same.1]
    exact owned.lock
  · intro c bus
    rw [same.2]
    exact owned.holder c bus

theorem State.OwnedBy.attempt_taken {s : State C} {owner : Bus → Option C} (owned : s.OwnedBy owner) {c : C}
    {bus : Bus} {blocking : UInt8} (here : s.pc c = .looping bus blocking) (taken : s.busLock bus ≠ 0) :
    s.Unchanged ((s.write bus 1).enter c (.attempted bus blocking (s.busLock bus))) := by
  have locked : s.busLock bus = 1 := by
    have lock := owned.lock bus
    split at lock
    · exact lock
    · exact absurd lock taken
  have written : s.write bus 1 = s := by
    rw [State.write, ← locked, Function.update_eq_self]
  rw [written]
  apply Unchanged.enter
  intro other
  rw [here, locked]
  simp [Pc.gotten]

theorem State.OwnedBy.attempt_free {s : State C} {owner : Bus → Option C} (owned : s.OwnedBy owner) {c : C}
    {bus : Bus} {blocking : UInt8} (here : s.pc c = .looping bus blocking) (free : s.busLock bus = 0) :
    owner bus = none ∧ ((s.write bus 1).enter c (.attempted bus blocking (s.busLock bus))).OwnedBy
      (Function.update owner bus (some c)) := by
  have none : owner bus = none := by
    have lock := owned.lock bus
    rw [free] at lock
    cases found : owner bus with
    | none => rfl
    | some d =>
      rw [found] at lock
      exact absurd lock (by simp)
  have before (d : C) (other : Bus) : s.obtained d other = true ∨ (s.pc d).gotten other = true ↔
      owner other = some d := by
    rw [← owned.holder, State.holds, Bool.or_eq_true]
  refine ⟨none, ?_, ?_⟩
  · intro other
    by_cases same : other = bus
    · simp [State.enter, State.write, same]
    · simp [State.enter, State.write, Function.update_of_ne same, owned.lock]
  · intro d other
    by_cases self : d = c
    · subst self
      rw [holds_enter_self, free]
      have old := before d other
      rw [here] at old
      by_cases same : other = bus
      · simp [same, Pc.gotten]
      · have differ : bus ≠ other := fun equal => same equal.symm
        simpa [State.write, Pc.gotten, differ, Function.update_of_ne same] using old
    · rw [holds_enter_of_ne _ self]
      show s.holds d other = true ↔ _
      rw [owned.holder]
      by_cases same : other = bus
      · have differ : c ≠ d := fun equal => self equal.symm
        simp [same, none, differ]
      · rw [Function.update_of_ne same]

theorem State.OwnedBy.release {s : State C} {owner : Bus → Option C} (owned : s.OwnedBy owner) {c : C} {bus : Bus}
    (outside : s.pc c = .outside) (obtained : s.obtained c bus = true) :
    owner bus = some c ∧ ((s.write bus 0).mark c bus false).OwnedBy (Function.update owner bus none) := by
  have holder : owner bus = some c := (owned.holder c bus).mp (by simp [State.holds, obtained])
  refine ⟨holder, ?_, ?_⟩
  · intro other
    by_cases same : other = bus
    · simp [State.mark, State.write, same]
    · simp [State.mark, State.write, Function.update_of_ne same, owned.lock]
  · intro d other
    have old := owned.holder d other
    by_cases same : other = bus
    · subst same
      by_cases self : d = c
      · simp [State.holds, State.mark, State.write, self, outside, Pc.gotten]
      · have unheld : ¬ s.holds d other = true := by
          rw [old, holder]
          simp [Ne.symm self]
        simpa [State.holds, State.mark, State.write, Function.update_of_ne self] using unheld
    · rw [Function.update_of_ne same, ← old]
      by_cases self : d = c
      · simp [State.holds, State.mark, State.write, self, Function.update_of_ne same]
      · simp [State.holds, State.mark, State.write, Function.update_of_ne self]

/-- A context that has found the bus free goes on holding it when its call returns. -/
theorem Unchanged.mark (s : State C) {c : C} {bus : Bus} {blocking : UInt8}
    (here : s.pc c = .attempted bus blocking 0) : s.Unchanged ((s.mark c bus true).enter c .outside) := by
  refine ⟨rfl, ?_⟩
  intro d other
  by_cases self : d = c
  · subst self
    rw [holds_enter_self, State.holds, here]
    by_cases same : other = bus
    · simp [State.mark, same, Pc.gotten]
    · have differ : bus ≠ other := fun equal => same equal.symm
      simp [State.mark, Function.update_of_ne same, Pc.gotten, differ]
  · rw [holds_enter_of_ne _ self]
    simp [State.holds, State.mark, Function.update_of_ne self]

theorem gotten_attempted_taken (bus other : Bus) (blocking : UInt8) {lockCopy : UInt8} (taken : lockCopy ≠ 0) :
    (Pc.attempted bus blocking lockCopy).gotten other = false := by
  simp [Pc.gotten, taken]

/-- Every step leaves the owners, or takes a bus that has none, or gives one back. -/
theorem State.OwnedBy.step {s after : State C} {owner : Bus → Option C} (owned : s.OwnedBy owner) {c : C} {a : Action}
    {seen : List (Return C)} (stepped : step s (c, a) = some (after, seen)) :
    s.Unchanged after ∨
      ∃ bus, owner bus = none ∧ after.OwnedBy (Function.update owner bus (some c)) ∨
        owner bus = some c ∧ after.OwnedBy (Function.update owner bus none) := by
  cases a with
  | obtain bus blocking =>
    simp only [BusLock.step, Option.ite_none_right_eq_some, Option.some.injEq, Prod.mk.injEq] at stepped
    obtain ⟨outside, rfl, _⟩ := stepped
    refine .inl (Unchanged.enter s c ?_)
    intro other
    rw [outside]
    rfl
  | attempt =>
    cases here : s.pc c with
    | outside => simp [BusLock.step, here] at stepped
    | attempted bus blocking lockCopy => simp [BusLock.step, here] at stepped
    | looping bus blocking =>
      simp only [BusLock.step, here, Option.some.injEq, Prod.mk.injEq] at stepped
      obtain ⟨rfl, _⟩ := stepped
      by_cases free : s.busLock bus = 0
      · exact .inr ⟨bus, .inl (owned.attempt_free here free)⟩
      · exact .inl (owned.attempt_taken here free)
  | check =>
    cases here : s.pc c with
    | outside => simp [BusLock.step, here] at stepped
    | looping bus blocking => simp [BusLock.step, here] at stepped
    | attempted bus blocking lockCopy =>
      simp only [BusLock.step, here] at stepped
      by_cases free : lockCopy = 0
      · simp only [free, or_true, if_true, Option.some.injEq, Prod.mk.injEq] at stepped
        obtain ⟨rfl, _⟩ := stepped
        exact .inl (Unchanged.mark s (free ▸ here))
      · have same : ∀ pc : Pc, (∀ other, pc.gotten other = false) → s.Unchanged (s.enter c pc) := by
          intro pc none
          apply Unchanged.enter
          intro other
          rw [none, here, gotten_attempted_taken bus other blocking free]
        simp only [free, or_false, if_false] at stepped
        split at stepped
        all_goals
          simp only [Option.some.injEq, Prod.mk.injEq] at stepped
          obtain ⟨rfl, _⟩ := stepped
          exact .inl (same _ (fun _ => rfl))
  | release bus =>
    simp only [BusLock.step, Option.ite_none_right_eq_some, Option.some.injEq, Prod.mk.injEq] at stepped
    obtain ⟨⟨outside, obtained⟩, rfl, _⟩ := stepped
    exact .inr ⟨bus, .inr (owned.release outside obtained)⟩

omit [DecidableEq C] in
theorem State.OwnedBy.initial : (State.initial : State C).OwnedBy fun _ => none :=
  ⟨fun _ => rfl, by simp [State.holds, State.initial, Pc.gotten]⟩

theorem exists_ownedBy {schedule : List (C × Action)} {s : State C} {returns : List (Return C)}
    (ran : TracedRun.run step State.initial schedule = some (s, returns)) : ∃ owner, s.OwnedBy owner := by
  refine TracedRun.run_preserves (fun s => ∃ owner, s.OwnedBy owner) ?_ ⟨_, State.OwnedBy.initial⟩ ran
  rintro s ⟨c, a⟩ after seen ⟨owner, owned⟩ stepped
  rcases owned.step stepped with same | ⟨bus, ⟨_, taken⟩ | ⟨_, given⟩⟩
  · exact ⟨owner, owned.of_unchanged same⟩
  · exact ⟨_, taken⟩
  · exact ⟨_, given⟩

theorem step_obtain {s : State C} {c : C} (outside : s.pc c = .outside) (bus : Bus) (blocking : UInt8) :
    step s (c, .obtain bus blocking) = some (s.enter c (.looping bus blocking), []) := by
  simp [step, outside]

theorem step_attempt {s : State C} {c : C} {bus : Bus} {blocking : UInt8} (here : s.pc c = .looping bus blocking) :
    step s (c, .attempt) = some ((s.write bus 1).enter c (.attempted bus blocking (s.busLock bus)), []) := by
  simp [step, here]

theorem step_check_failed {s : State C} {c : C} {bus : Bus} {lockCopy : UInt8}
    (here : s.pc c = .attempted bus 0 lockCopy) (taken : lockCopy ≠ 0) :
    step s (c, .check) = some (s.enter c .outside, [⟨c, bus, 0⟩]) := by
  simp [step, here, taken]

/-- Each round of the loop does what `obtainBus` does in a round without a release. -/
theorem round_eq_obtainBus {s : State C} {c : C} {bus : Bus} {blocking : UInt8}
    (here : s.pc c = .looping bus blocking) :
    ∃ after seen, TracedRun.run step s [(c, .attempt), (c, .check)] = some (after, seen) ∧ after.busLock bus = 1 ∧
      match Spi.obtainBus blocking [false] (s.busLock bus) with
      | some (value, lock) => seen = [⟨c, bus, value⟩] ∧ after.busLock bus = lock ∧ after.pc c = .outside
      | none => seen = [] ∧ after.pc c = .looping bus blocking := by
  simp only [TracedRun.run, step_attempt here, Option.bind_some]
  by_cases free : s.busLock bus = 0
  · simp [step, State.enter, State.write, State.mark, Spi.obtainBus, free]
  · by_cases waits : blocking = 0
    · simp [step, State.enter, State.write, Spi.obtainBus, free, waits]
    · simp [step, State.enter, State.write, Spi.obtainBus, free, waits]

/-- Whatever the contexts do, a bus has one holder at most, its lock variable is 1 exactly while it has one, and the
    three steps of a call that does not wait and fails leave both. -/
theorem bus_lock_exclusive (schedule : List (C × Action)) (s : State C) (returns : List (Return C))
    (ran : TracedRun.run step State.initial schedule = some (s, returns)) :
    (∀ bus c d, s.holds c bus = true → s.holds d bus = true → c = d) ∧
      (∀ bus, s.busLock bus = 1 ↔ ∃ c, s.holds c bus = true) ∧
      (∀ c bus, s.pc c = .outside → ∃ after, step s (c, .obtain bus 0) = some (after, []) ∧
        after.pc c = .looping bus 0 ∧ s.Unchanged after) ∧
      (∀ c bus, s.pc c = .looping bus 0 → s.busLock bus ≠ 0 → ∃ after, step s (c, .attempt) = some (after, []) ∧
        after.pc c = .attempted bus 0 (s.busLock bus) ∧ s.Unchanged after) ∧
      ∀ c bus lockCopy, s.pc c = .attempted bus 0 lockCopy → lockCopy ≠ 0 →
        ∃ after, step s (c, .check) = some (after, [⟨c, bus, 0⟩]) ∧ s.Unchanged after := by
  obtain ⟨owner, owned⟩ := exists_ownedBy ran
  refine ⟨?_, ?_, ?_, ?_, ?_⟩
  · intro bus c d first second
    rw [owned.holder] at first second
    exact Option.some.inj (first.symm.trans second)
  · intro bus
    simp only [owned.holder, owned.lock]
    cases owner bus with
    | none => simp
    | some c => simp
  · intro c bus outside
    refine ⟨_, step_obtain outside bus 0, by simp [State.enter], Unchanged.enter s c ?_⟩
    intro other
    rw [outside]
    rfl
  · intro c bus here taken
    exact ⟨_, step_attempt here, by simp [State.enter], owned.attempt_taken here taken⟩
  · intro c bus lockCopy here taken
    refine ⟨_, step_check_failed here taken, Unchanged.enter s c ?_⟩
    intro other
    rw [here, gotten_attempted_taken bus other 0 taken]
    rfl

theorem bus_lock_exclusive_interrupted :
    ∃ s : State Bool,
      TracedRun.run step State.initial
        [(false, .obtain .spi 1), (false, .attempt), (true, .obtain .spi 0), (true, .attempt), (true, .check),
          (false, .check), (true, .obtain .twi 0), (true, .attempt)] =
        some (s, [⟨true, .spi, 0⟩, ⟨false, .spi, 1⟩]) ∧
      (∃ c, s.holds c .spi = true) ∧ ∀ bus c d, s.holds c bus = true → s.holds d bus = true → c = d := by
  have ran : ∃ s : State Bool, TracedRun.run step State.initial
      [(false, .obtain .spi 1), (false, .attempt), (true, .obtain .spi 0), (true, .attempt), (true, .check),
        (false, .check), (true, .obtain .twi 0), (true, .attempt)] =
      some (s, [⟨true, .spi, 0⟩, ⟨false, .spi, 1⟩]) ∧ s.busLock .spi = 1 := ⟨_, rfl, rfl⟩
  obtain ⟨s, finished, locked⟩ := ran
  have exclusive := bus_lock_exclusive _ s _ finished
  exact ⟨s, finished, (exclusive.2.1 .spi).mp locked, exclusive.1⟩

end Minimus32.BusLock
