import Minimus32.Library.FirstDue
import Minimus32.Timer1.Timing

namespace Minimus32.Timer1

open Linked WallTime FirstDue

variable {Ptr Fn Data : Type}

def Op.DelayAtLeast (bound : Nat) : Op Ptr Fn Data → Prop
  | .register sec msec _ _ _ _ => Timer1.DelayFits sec msec ∧ bound ≤ 1000 * sec.toNat + msec.toNat
  | .unregister _ => True

structure Roster.Punctual (bound : Nat) (r : Roster Ptr Fn Data) (s : Schedule Ptr) : Prop where
  tracks : r.Tracks s
  delays : ∀ p a, s.armed p = some a → bound ≤ a.delay
  punctual : s.now < horizon → FirstDue.Punctual bound s.now s.deadlineOf s.chain

section

variable [DecidableEq Ptr]

theorem Schedule.deadlineOf_update (s : Schedule Ptr) (p : Ptr) (a : Arming) (chain : List Ptr) :
    Schedule.deadlineOf ⟨s.now, chain, Function.update s.armed p (some a)⟩ =
      Function.update s.deadlineOf p a.deadline := by
  funext q
  by_cases same : q = p
  · subst q
    simp [Schedule.deadlineOf]
  · simp [Schedule.deadlineOf, Function.update_of_ne same]

theorem Roster.Punctual.registered {bound : Nat} {r : Roster Ptr Fn Data} {s : Schedule Ptr}
    (link : r.Punctual bound s) (positive : 1 ≤ bound) {sec msec : UInt16} (fits : Timer1.DelayFits sec msec)
    (long : bound ≤ 1000 * sec.toNat + msec.toNat) (recurring : UInt8) (callback : Fn) (userData : Data) (p : Ptr) :
    (r.registerCallback sec msec recurring callback userData p).Punctual bound
      (s.observe (.registered p (1000 * sec.toNat + msec.toNat) (recurring != 0))) := by
  refine ⟨link.tracks.registered fits recurring callback userData p, ?_, ?_⟩
  · intro q a armed
    rcases armed_update armed with ⟨_, rfl⟩ | ⟨_, before⟩
    · exact long
    · exact link.delays q a before
  · intro early
    have rearmed := (link.punctual early).rearm p positive (Nat.add_le_add_left long s.now)
    simp only [Schedule.observe, Schedule.deadlineOf_update, enqueue]
    split
    · exact rearmed
    · apply rearmed.append
      rw [Function.update_self]
      omega

theorem Roster.Punctual.removed {bound : Nat} {r : Roster Ptr Fn Data} {s : Schedule Ptr}
    (link : r.Punctual bound s) (p : Ptr) : (r.unregisterCallback p).Punctual bound (s.remove p) := by
  refine ⟨link.tracks.removed p, ?_, ?_⟩
  · intro q a armed
    exact link.delays q a (Schedule.armed_of_remove armed)
  · intro early
    apply ((link.punctual early).sublist (List.erase_sublist)).congr
    intro q member
    have other : q ≠ p := by
      rintro rfl
      exact link.tracks.nodup.not_mem_erase member
    simp [Schedule.remove, Schedule.deadlineOf, Function.update_of_ne other]

theorem Roster.Punctual.perform {bound : Nat} {r : Roster Ptr Fn Data} {s : Schedule Ptr}
    (link : r.Punctual bound s) (positive : 1 ≤ bound) {o : Op Ptr Fn Data} (long : o.DelayAtLeast bound) :
    (r.perform o).Punctual bound (s.observe o.observation) := by
  cases o with
  | register sec msec recurring callback userData p =>
    exact link.registered positive long.1 long.2 recurring callback userData p
  | unregister p => exact link.removed p

theorem Roster.Punctual.idle {bound : Nat} {r : Roster Ptr Fn Data} {s : Schedule Ptr}
    (link : r.Punctual bound s) (found : r.found = none) : r.advance.Punctual bound (s.observe .ticked) := by
  refine ⟨link.tracks.advance, link.delays, ?_⟩
  intro early
  rw [link.tracks.found_eq early, List.find?_eq_none] at found
  apply punctual_of_pending
  intro p member
  have pending : ¬ s.deadlineOf p ≤ s.now + 1 := by simpa using found p member
  exact Nat.lt_of_not_le pending

theorem Roster.Punctual.served {bound : Nat} {r : Roster Ptr Fn Data} {s : Schedule Ptr}
    (link : r.Punctual bound s) (positive : 1 ≤ bound) (room : r.cells.length ≤ bound) {p : Ptr}
    (found : r.found = some p) (early : s.now + 1 < horizon) (fresh : Nat) (late : s.now + 1 + bound ≤ fresh) :
    FirstDue.Punctual bound (s.now + 1) (Function.update s.deadlineOf p fresh) s.chain := by
  rw [link.tracks.found_eq early] at found
  obtain ⟨due, front, back, split, passed⟩ := List.find?_eq_some_iff_append.mp found
  have punctual := link.punctual (Nat.lt_of_succ_lt early)
  rw [link.tracks.cells, split] at room
  rw [split] at punctual ⊢
  refine punctual.serve positive room (by simpa using due) ?_ late
  intro q member
  simpa using passed q member

theorem Roster.Punctual.tick_recurring {bound : Nat} {r : Roster Ptr Fn Data} {s : Schedule Ptr}
    (link : r.Punctual bound s) (positive : 1 ≤ bound) (room : r.cells.length ≤ bound) {p : Ptr}
    (found : r.found = some p) {a : Arming} (armed : s.armed p = some a) (recurring : a.recurring = true) :
    r.isrAtomic.Punctual bound (s.tick (some p)) := by
  have armedTicked : (s.observe .ticked).armed p = some a := armed
  have observed : s.tick (some p) =
      ⟨s.now + 1, s.chain, Function.update s.armed p (some { a with since := s.now + 1 })⟩ :=
    Schedule.observe_invoked_of_recurring armedTicked recurring
  have tracks := link.tracks.tick
  rw [found, observed] at tracks
  rw [observed]
  refine ⟨tracks, ?_, ?_⟩
  · intro q b armedQ
    rcases armed_update armedQ with ⟨_, rfl⟩ | ⟨_, before⟩
    · exact link.delays p a armed
    · exact link.delays q b before
  · intro early
    have again := link.served positive room found early (s.now + 1 + a.delay)
      (Nat.add_le_add_left (link.delays p a armed) _)
    have updated := Schedule.deadlineOf_update (s.observe .ticked) p { a with since := s.now + 1 } s.chain
    simp only [Schedule.observe] at updated
    rw [updated]
    exact again

theorem Roster.Punctual.tick_oneShot {bound : Nat} {r : Roster Ptr Fn Data} {s : Schedule Ptr}
    (link : r.Punctual bound s) (positive : 1 ≤ bound) (room : r.cells.length ≤ bound) {p : Ptr}
    (found : r.found = some p) {a : Arming} (armed : s.armed p = some a) (oneShot : a.recurring = false) :
    r.isrAtomic.Punctual bound (s.tick (some p)) := by
  have armedTicked : (s.observe .ticked).armed p = some a := armed
  have observed : s.tick (some p) = (s.observe .ticked).remove p :=
    Schedule.observe_invoked_of_oneShot armedTicked oneShot
  have tracks := link.tracks.tick
  rw [found, observed] at tracks
  rw [observed]
  refine ⟨tracks, fun q b armedQ => link.delays q b (Schedule.armed_of_remove armedQ), ?_⟩
  intro early
  have again := link.served positive room found early _ (Nat.le_refl _)
  apply (again.sublist List.erase_sublist).congr
  intro q memberQ
  have other : q ≠ p := by
    rintro rfl
    exact link.tracks.nodup.not_mem_erase memberQ
  simp [Schedule.remove, Schedule.observe, Schedule.deadlineOf, Function.update_of_ne other]

theorem Roster.Punctual.tick {bound : Nat} {r : Roster Ptr Fn Data} {s : Schedule Ptr}
    (link : r.Punctual bound s) (positive : 1 ≤ bound) (room : r.cells.length ≤ bound) :
    r.isrAtomic.Punctual bound (s.tick r.found) := by
  cases found : r.found with
  | none => simpa [Roster.isrAtomic, Schedule.tick, found] using link.idle found
  | some p =>
    have member : p ∈ s.chain := by
      rw [← link.tracks.cells]
      exact r.found_mem found
    obtain ⟨a, armed⟩ := link.tracks.armed_of_mem member
    cases kind : a.recurring with
    | true => exact link.tick_recurring positive room found armed kind
    | false => exact link.tick_oneShot positive room found armed kind

end

theorem Roster.start_punctual (bound : Nat) (c : Clock Ptr Fn Data) : (Roster.start c).Punctual bound .empty :=
  ⟨Roster.start_tracks c, by simp [Schedule.empty], fun _ => punctual_of_pending (by simp [Schedule.empty])⟩

section

variable [DecidableEq Ptr] [Fintype Ptr]

/-- If the chain never holds more than `bound` structs when an interrupt comes, and every delay is at
    least `bound` milliseconds, no deadline is `bound` or more ticks in the past. -/
theorem lateness_bounded (c : Clock Ptr Fn Data) (fuel : Nat) (enough : Fintype.card Ptr < fuel)
    (bound : Nat) (positive : 1 ≤ bound) (events : List (Event Ptr Fn Data))
    (long : ∀ e ∈ events, e.Calls (Op.DelayAtLeast bound))
    (room : ∀ front, front <+: events → ∀ before trace cells, c.init.run fuel front = some (before, trace) →
      before.links.Holds cells → cells.length ≤ bound) :
    ∃ final trace, c.init.run fuel events = some (final, trace) ∧
      final.links.Holds (Schedule.of trace).chain ∧
      ((Schedule.of trace).now < horizon → ∀ p ∈ (Schedule.of trace).chain,
        final.walltimer.total < (final.structs p).time.total + bound) := by
  obtain ⟨final, finished, represents⟩ := c.init_represents.run enough events
  have link : Roster.Punctual bound _ (Schedule.of _) :=
    Roster.run_link (Roster.Punctual bound) (Op.DelayAtLeast bound) (fun r => r.cells.length ≤ bound)
      (fun _ _ _ linked allowed => linked.perform positive allowed)
      (fun _ _ linked small => linked.tick positive small) events (.start c) .empty
      (Roster.start_punctual bound c) long (by
        intro front isPrefix
        obtain ⟨before, ran, representsFront⟩ := c.init_represents.run enough front
        exact room front isPrefix before _ _ ran representsFront.holds)
  have holds := represents.holds
  rw [link.tracks.cells] at holds
  refine ⟨final, _, finished, holds, ?_⟩
  intro early p member
  obtain ⟨a, armed⟩ := link.tracks.armed_of_mem member
  have late := (link.punctual early).lateness positive member
  have stored := link.tracks.entry p a armed
  have small := Nat.lt_of_lt_of_le early (Nat.sub_le dayLimit 65535000)
  rw [Schedule.deadlineOf_armed armed] at late
  rw [represents.walltimer, link.tracks.walltimer, ofTicks_total_of_lt small, represents.entries, stored.total,
    Nat.mod_eq_of_lt (link.tracks.deadline_lt early armed)]
  exact late

theorem lateness_bounded_pair :
    let events : List (Event (Fin 2) Unit Unit) :=
      [.op (.register 0 2 1 () () 0), .op (.register 0 2 1 () () 1), .quiet, .quiet]
    (∀ e ∈ events, e.Calls (Op.DelayAtLeast 2)) ∧
      ∃ final trace, (Clock.stray 2).init.run 3 events = some (final, trace) ∧
        final.links.Holds (Schedule.of trace).chain ∧
        ((Schedule.of trace).now < horizon → ∀ p ∈ (Schedule.of trace).chain,
          final.walltimer.total < (final.structs p).time.total + 2) := by
  intro events
  have long : ∀ e ∈ events, e.Calls (Op.DelayAtLeast 2) := by
    simp only [events, List.forall_mem_cons, Event.quiet_calls]
    simp [Event.Calls, Op.DelayAtLeast, DelayFits]
  exact ⟨long, lateness_bounded (Clock.stray 2) 3 (by decide) 2 (by decide) events long
    (fun _ _ _ _ _ _ holds => holds.length_le)⟩

/-- With a millisecond each, the first of two recurring callbacks takes every tick and after four of
    them the second is three ticks late; and of four one-shots due together the last is left alone on the chain with
    its deadline two ticks in the past. -/
theorem lateness_exceeds_chain_length :
    (∃ final trace, (Clock.stray 2).init.run 3
        ([.op (.register 0 1 1 () () 0), .op (.register 0 1 1 () () 1)] ++
          List.replicate 4 .quiet) = some (final, trace) ∧
      final.links.Holds [0, 1] ∧ (final.structs 1).time.total + 2 < final.walltimer.total) ∧
    (∃ final trace, (Clock.stray 4).init.run 5
        ([.op (.register 0 1 0 () () 0), .op (.register 0 1 0 () () 1), .op (.register 0 1 0 () () 2),
          .op (.register 0 1 0 () () 3)] ++ List.replicate 3 .quiet) = some (final, trace) ∧
      final.links.Holds [3] ∧ (final.structs 3).time.total + 1 < final.walltimer.total) := by
  refine ⟨⟨_, _, rfl, ?_, ?_⟩, ⟨_, _, rfl, ?_, ?_⟩⟩
  · exact ⟨rfl, rfl, rfl⟩
  · decide
  · exact ⟨rfl, rfl⟩
  · decide

end

end Minimus32.Timer1
