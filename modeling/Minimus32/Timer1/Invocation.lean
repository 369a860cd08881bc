import Minimus32.Timer1.Timing

namespace Minimus32.Timer1

open Linked WallTime

variable {Ptr Fn Data : Type}

def Observation.invocation : Observation Ptr → Option Ptr
  | .invoked p => some p
  | _ => none

def invocations (trace : List (Observation Ptr)) : List Ptr := trace.filterMap Observation.invocation

@[simp]
theorem invocations_ticked (trace : List (Observation Ptr)) : invocations (.ticked :: trace) = invocations trace := rfl

@[simp]
theorem invocations_invoked (p : Ptr) (trace : List (Observation Ptr)) :
    invocations (.invoked p :: trace) = p :: invocations trace := rfl

theorem invocations_calls (ops : List (Op Ptr Fn Data)) : invocations (ops.map Op.observation) = [] := by
  induction ops with
  | nil => rfl
  | cons o ops ih => cases o <;> simpa [invocations, Op.observation, Observation.invocation] using ih

section

variable [DecidableEq Ptr]

theorem Roster.isr_invocations (r : Roster Ptr Fn Data) (body : Fn → Data → List (Op Ptr Fn Data)) :
    invocations (r.isr body).2 = r.found.toList := by
  cases found : r.found with
  | none =>
    simp only [Roster.isr, found]
    rfl
  | some p =>
    simp only [Roster.isr, found, invocations_ticked, invocations_invoked, invocations_calls]
    rfl

structure Schedule.Invokable (s : Schedule Ptr) (front : List Ptr) (p : Ptr) : Prop where
  due : ∃ a, s.armed p = some a ∧ (a.deadline ≤ s.now + 1 ∨ dayLimit ≤ a.deadline)
  first : ∀ q ∈ front, ∃ b, s.armed q = some b ∧ s.now + 1 < b.deadline

theorem Roster.Tracks.found_invokable {r : Roster Ptr Fn Data} {s : Schedule Ptr} (tracks : r.Tracks s)
    (early : s.now + 1 < dayLimit) {p : Ptr} (found : r.found = some p) :
    ∃ front back, r.cells = front ++ p :: back ∧ s.Invokable front p := by
  obtain ⟨due, front, back, split, passed⟩ := List.find?_eq_some_iff_append.mp found
  have ticked := tracks.advance
  have now : (s.observe .ticked).now % dayLimit = s.now + 1 := Nat.mod_eq_of_lt early
  have armedOf : ∀ q ∈ r.cells, ∃ a, s.armed q = some a := by
    intro q member
    rw [tracks.cells] at member
    exact tracks.armed_of_mem member
  refine ⟨front, back, split, ?_, ?_⟩
  · obtain ⟨a, armed⟩ := armedOf p (by rw [split]; simp)
    have reached := (ticked.due_iff armed).mp due
    rw [now] at reached
    refine ⟨a, armed, ?_⟩
    by_cases wraps : a.deadline < dayLimit
    · rw [Nat.mod_eq_of_lt wraps] at reached
      exact .inl reached
    · exact .inr (Nat.le_of_not_lt wraps)
  · intro q member
    obtain ⟨b, armed⟩ := armedOf q (by rw [split]; simp [member])
    have pending : ¬ r.advance.due q = true := by simpa using passed q member
    rw [ticked.due_iff armed, now, Nat.not_le] at pending
    exact ⟨b, armed, Nat.lt_of_lt_of_le pending (Nat.mod_le _ _)⟩

theorem Roster.run_idle (n m : Nat) (entries : Ptr → Entry Fn Data) :
    Roster.run ⟨.ofTicks m, [], entries⟩ (List.replicate n .quiet) =
      (⟨.ofTicks (m + n), [], entries⟩, List.replicate n .ticked) := by
  induction n generalizing m with
  | zero => rfl
  | succ n ih =>
    have stepped : Roster.step (⟨.ofTicks m, [], entries⟩ : Roster Ptr Fn Data) .quiet =
        (⟨.ofTicks (m + 1), [], entries⟩, [.ticked]) := by
      simp [Roster.step_quiet, Roster.isrAtomic, Roster.found, Roster.advance, advance_ofTicks]
    simp only [List.replicate_succ, Roster.run, stepped, ih, List.singleton_append]
    rw [Nat.add_right_comm, Nat.add_assoc]

theorem Schedule.after_idle (n : Nat) (s : Schedule Ptr) :
    s.after (List.replicate n .ticked) = { s with now := s.now + n } := by
  induction n generalizing s with
  | zero => rfl
  | succ n ih =>
    have stepped : s.after (List.replicate (n + 1) .ticked) =
        (s.observe .ticked).after (List.replicate n .ticked) := by
      rw [List.replicate_succ]
      rfl
    rw [stepped, ih]
    simp only [Schedule.observe, Schedule.mk.injEq, and_true]
    omega

variable [Fintype Ptr]

/-- Each interrupt invokes at most one struct. The struct was on the chain, its latest request is still
    in force and its delay is over unless that deadline lies past the end of the day counter, and no
    struct before it on the chain was due. -/
theorem isr_invokes_first_due (c : Clock Ptr Fn Data) (fuel : Nat) (enough : Fintype.card Ptr < fuel)
    (events : List (Event Ptr Fn Data)) (fits : ∀ e ∈ events, e.Calls Op.DelayFits)
    (body : Fn → Data → List (Op Ptr Fn Data)) :
    ∃ before trace after seen, c.init.run fuel events = some (before, trace) ∧
      before.isr fuel body = some (after, seen) ∧ (invocations seen).length ≤ 1 ∧
      ((Schedule.of trace).now + 1 < dayLimit → ∀ p ∈ invocations seen, ∃ front back,
        before.links.Holds (front ++ p :: back) ∧ (Schedule.of trace).Invokable front p) := by
  obtain ⟨before, finished, represents⟩ := c.init_represents.run enough events
  obtain ⟨after, interrupted, _⟩ := represents.isr enough body
  have tracks := (Roster.start_tracks c).run events fits
  refine ⟨before, _, after, _, finished, interrupted, ?_, ?_⟩
  · rw [Roster.isr_invocations]
    cases (Roster.run (.start c) events).1.found <;> simp
  · intro early p invoked
    rw [Roster.isr_invocations, Option.mem_toList] at invoked
    obtain ⟨front, back, split, invokable⟩ := tracks.found_invokable early invoked
    exact ⟨front, back, split ▸ represents.holds, invokable⟩

theorem isr_invokes_first_due_pair :
    let events : List (Event (Fin 2) Unit Unit) :=
      [.op (.register 0 1 1 () () 0), .op (.register 0 1 0 () () 1), .quiet]
    Fintype.card (Fin 2) < 3 ∧ (∀ e ∈ events, e.Calls Op.DelayFits) ∧
      ∃ before trace after seen, (Clock.stray 2).init.run 3 events = some (before, trace) ∧
        before.isr 3 (fun _ _ => []) = some (after, seen) ∧ (invocations seen).length ≤ 1 ∧
        ((Schedule.of trace).now + 1 < dayLimit → ∀ p ∈ invocations seen, ∃ front back,
          before.links.Holds (front ++ p :: back) ∧ (Schedule.of trace).Invokable front p) := by
  intro events
  have fits : ∀ e ∈ events, e.Calls Op.DelayFits := by
    simp only [events, List.forall_mem_cons, Event.quiet_calls]
    simp [Event.Calls, Op.DelayFits, DelayFits]
  exact ⟨by decide, fits, isr_invokes_first_due (Clock.stray 2) 3 (by decide) events fits _⟩

def lateRegistration (n : Nat) : List (Event (Fin 1) Unit Unit) :=
  List.replicate n .quiet ++ [.op (.register 5 0 0 () () 0)]

theorem lateRegistration_fits (n : Nat) : ∀ e ∈ lateRegistration n, e.Calls Op.DelayFits := by
  intro e member
  rcases List.mem_append.mp member with idle | last
  · rw [List.eq_of_mem_replicate idle]
    exact Event.quiet_calls _
  · rw [List.mem_singleton.mp last]
    simp [Event.Calls, Op.DelayFits, DelayFits]

theorem lateRegistration_run (n : Nat) :
    ((Roster.start (Clock.stray 1)).run (lateRegistration n)).1.cells = [0] ∧
      Schedule.of ((Roster.start (Clock.stray 1)).run (lateRegistration n)).2 =
        ⟨n, [0], fun _ => some ⟨n, 5000, false⟩⟩ := by
  have begun : Roster.start (Clock.stray 1) = ⟨.ofTicks 0, [], (Roster.start (Clock.stray 1)).entries⟩ := rfl
  rw [lateRegistration, Roster.run_append, begun, Roster.run_idle]
  refine ⟨rfl, ?_⟩
  simp only [Schedule.of, Schedule.after_append, Schedule.after_idle]
  simp only [Schedule.after, Schedule.empty, Roster.run, Roster.step, Op.observation, Schedule.observe,
    List.append_nil, List.foldl_cons, List.foldl_nil, Nat.zero_add, Schedule.mk.injEq]
  refine ⟨trivial, rfl, ?_⟩
  funext p
  rw [Subsingleton.elim p 0, Function.update_self]
  rfl

theorem lateRegistration_found (n : Nat) (wrapped : (n + 5000) % dayLimit ≤ (n + 1) % dayLimit) :
    ((Roster.start (Clock.stray 1)).run (lateRegistration n)).1.found = some 0 := by
  obtain ⟨cells, schedule⟩ := lateRegistration_run n
  have tracks := (Roster.start_tracks (Clock.stray 1)).run _ (lateRegistration_fits n)
  change Roster.Tracks _ (Schedule.of _) at tracks
  rw [schedule] at tracks
  have due : ((Roster.start (Clock.stray 1)).run (lateRegistration n)).1.advance.due 0 = true :=
    (tracks.advance.due_iff rfl).mpr wrapped
  rw [Roster.found, cells, List.find?_cons, due]

/-- A one-shot of five seconds registered two seconds before the day counter ends is stored with day 0
    and is invoked at the very next tick, while the wall clock has not wrapped. -/
theorem early_invocation_on_last_day :
    (∀ e ∈ lateRegistration (dayLimit - 2000), e.Calls Op.DelayFits) ∧
      ∃ before trace after seen, (Clock.stray 1).init.run 2 (lateRegistration (dayLimit - 2000)) = some (before, trace) ∧
        before.isr 2 (fun _ _ => []) = some (after, seen) ∧ (Schedule.of trace).now + 1 < dayLimit ∧
        0 ∈ invocations seen ∧ ∃ a, (Schedule.of trace).armed 0 = some a ∧ (Schedule.of trace).now + 1 < a.deadline := by
  have enough : Fintype.card (Fin 1) < 2 := by decide
  have wrapped : (dayLimit - 2000 + 5000) % dayLimit ≤ (dayLimit - 2000 + 1) % dayLimit := by decide
  have early : dayLimit - 2000 + 1 < dayLimit ∧ dayLimit - 2000 + 1 < dayLimit - 2000 + 5000 := by decide
  generalize dayLimit - 2000 = n at wrapped early ⊢
  obtain ⟨before, finished, represents⟩ := (Clock.stray 1).init_represents.run enough (lateRegistration n)
  obtain ⟨after, interrupted, _⟩ := represents.isr enough (fun _ _ => [])
  refine ⟨lateRegistration_fits n, before, _, after, _, finished, interrupted, ?_⟩
  rw [(lateRegistration_run n).2, Roster.isr_invocations, lateRegistration_found n wrapped]
  exact ⟨early.1, by simp, ⟨n, 5000, false⟩, rfl, early.2⟩

end

end Minimus32.Timer1
