import Mathlib.Data.List.Find
import Minimus32.Timer1.Schedule
import Minimus32.Timer1.WallTime

namespace Minimus32.Timer1

open Linked WallTime

variable {Ptr Fn Data : Type}

/-- The range of `timer1_clock_register_callback` in which its seconds cannot wrap. -/
def DelayFits (sec msec : UInt16) : Prop := msec.toNat ≤ 999 ∧ 1000 * sec.toNat + msec.toNat ≤ 65535000

def Op.DelayFits : Op Ptr Fn Data → Prop
  | .register sec msec _ _ _ _ => Timer1.DelayFits sec msec
  | .unregister _ => True

theorem DelayFits.carryFits {sec msec : UInt16} (fits : DelayFits sec msec) (n : Nat) :
    (WallTime.ofTicks n).CarryFits sec msec := by
  have normal := (WallTime.ofTicks_normal n).msec
  obtain ⟨range, total⟩ := fits
  unfold WallTime.CarryFits
  omega

structure Entry.Matches (e : Entry Fn Data) (a : Arming) : Prop where
  normal : e.time.Normal
  total : e.time.total = a.deadline % WallTime.dayLimit
  fits : DelayFits e.time.freerunningSec e.recurringMsec
  delay : 1000 * e.time.freerunningSec.toNat + e.recurringMsec.toNat = a.delay

theorem Entry.arm_matches (n : Nat) {sec msec : UInt16} (fits : DelayFits sec msec) (recurring : UInt8)
    (callback : Fn) (userData : Data) (repeats : Bool) :
    (Entry.arm (.ofTicks n) sec msec recurring callback userData).Matches
      ⟨n, 1000 * sec.toNat + msec.toNat, repeats⟩ := by
  have stored := WallTime.deadline_normal (WallTime.ofTicks_normal n) fits.1 (fits.carryFits n)
  refine ⟨stored.1, ?_, fits, rfl⟩
  rw [Entry.arm, stored.2, WallTime.ofTicks_total, Nat.mod_add_mod]
  rfl

structure Roster.Tracks (r : Roster Ptr Fn Data) (s : Schedule Ptr) : Prop extends r.Agrees s where
  walltimer : r.walltimer = .ofTicks s.now
  entry : ∀ p a, s.armed p = some a → (r.entries p).Matches a
  since : ∀ p a, s.armed p = some a → a.since ≤ s.now

section

variable [DecidableEq Ptr]

theorem Roster.Tracks.registered {r : Roster Ptr Fn Data} {s : Schedule Ptr} (tracks : r.Tracks s)
    {sec msec : UInt16} (fits : Timer1.DelayFits sec msec) (recurring : UInt8) (callback : Fn) (userData : Data)
    (p : Ptr) :
    (r.registerCallback sec msec recurring callback userData p).Tracks
      (s.observe (.registered p (1000 * sec.toNat + msec.toNat) (recurring != 0))) := by
  refine ⟨tracks.toAgrees.registered sec msec recurring callback userData p _, tracks.walltimer, ?_, ?_⟩
  · intro q a armed
    rcases armed_update armed with ⟨rfl, rfl⟩ | ⟨other, before⟩
    · simp only [Roster.registerCallback, Function.update_self, tracks.walltimer]
      exact Entry.arm_matches s.now fits recurring callback userData _
    · simp only [Roster.registerCallback, Function.update_of_ne other]
      exact tracks.entry q a before
  · intro q a armed
    rcases armed_update armed with ⟨_, rfl⟩ | ⟨_, before⟩
    · exact Nat.le_refl _
    · exact tracks.since q a before

theorem Roster.Tracks.removed {r : Roster Ptr Fn Data} {s : Schedule Ptr} (tracks : r.Tracks s) (p : Ptr) :
    (r.unregisterCallback p).Tracks (s.remove p) :=
  ⟨tracks.toAgrees.removed p, tracks.walltimer, fun q a armed => tracks.entry q a (Schedule.armed_of_remove armed),
    fun q a armed => tracks.since q a (Schedule.armed_of_remove armed)⟩

theorem Roster.Tracks.perform {r : Roster Ptr Fn Data} {s : Schedule Ptr} (tracks : r.Tracks s)
    {o : Op Ptr Fn Data} (fits : o.DelayFits) : (r.perform o).Tracks (s.observe o.observation) := by
  cases o with
  | register sec msec recurring callback userData p =>
    exact tracks.registered fits recurring callback userData p
  | unregister p => exact tracks.removed p

theorem Roster.Tracks.advance {r : Roster Ptr Fn Data} {s : Schedule Ptr} (tracks : r.Tracks s) :
    r.advance.Tracks (s.observe .ticked) := by
  refine ⟨tracks.toAgrees.advance, ?_, tracks.entry, ?_⟩
  · rw [Roster.advance, tracks.walltimer, WallTime.advance_ofTicks]
    rfl
  · intro p a armed
    exact Nat.le_succ_of_le (tracks.since p a armed)

theorem Roster.Tracks.fire {r : Roster Ptr Fn Data} {s : Schedule Ptr} (tracks : r.Tracks s) {p : Ptr}
    (member : p ∈ r.cells) : (r.fire p).Tracks (s.observe (.invoked p)) := by
  rw [tracks.cells] at member
  obtain ⟨a, armed⟩ := tracks.armed_of_mem member
  have stored := tracks.entry p a armed
  rcases tracks.fire_cases member armed with ⟨fired, seen⟩ | ⟨fired, seen⟩
  · rw [fired, seen]
    exact tracks.removed p
  · rw [fired, seen, ← stored.delay]
    exact tracks.registered stored.fits _ _ _ p

theorem Roster.Tracks.tick {r : Roster Ptr Fn Data} {s : Schedule Ptr} (tracks : r.Tracks s) :
    r.isrAtomic.Tracks (s.tick r.found) := by
  cases found : r.found with
  | none => simpa [Roster.isrAtomic, Schedule.tick, found] using tracks.advance
  | some p =>
    simp only [Roster.isrAtomic, Schedule.tick, found]
    exact tracks.advance.fire (r.found_mem found)

theorem Roster.Tracks.run {r : Roster Ptr Fn Data} {s : Schedule Ptr} (tracks : r.Tracks s)
    (events : List (Event Ptr Fn Data)) (fits : ∀ e ∈ events, e.Calls Op.DelayFits) :
    (r.run events).1.Tracks (s.after (r.run events).2) :=
  Roster.run_link Roster.Tracks Op.DelayFits (fun _ => True) (fun _ _ _ linked allowed => linked.perform allowed)
    (fun _ _ linked _ => linked.tick) events r s tracks fits (fun _ _ => trivial)

end

theorem Roster.start_tracks (c : Clock Ptr Fn Data) : (Roster.start c).Tracks .empty :=
  ⟨Roster.start_agrees c, WallTime.ofTicks_zero.symm, by simp [Schedule.empty], by simp [Schedule.empty]⟩

theorem Roster.Tracks.due_iff {r : Roster Ptr Fn Data} {s : Schedule Ptr} (tracks : r.Tracks s) {p : Ptr}
    {a : Arming} (armed : s.armed p = some a) :
    r.due p = true ↔ a.deadline % WallTime.dayLimit ≤ s.now % WallTime.dayLimit := by
  have stored := tracks.entry p a armed
  have expired := WallTime.expired_iff (WallTime.ofTicks_normal s.now) stored.normal
  rw [WallTime.ofTicks_total, stored.total] at expired
  rw [← expired, Roster.due, tracks.walltimer, decide_eq_true_iff]

/-- Until this tick no deadline the clock computes can wrap. -/
def horizon : Nat := dayLimit - 65535000

def Schedule.deadlineOf (s : Schedule Ptr) (p : Ptr) : Nat := ((s.armed p).map Arming.deadline).getD 0

theorem Schedule.deadlineOf_armed {s : Schedule Ptr} {p : Ptr} {a : Arming} (armed : s.armed p = some a) :
    s.deadlineOf p = a.deadline := by
  simp [Schedule.deadlineOf, armed]

theorem Roster.Tracks.deadline_lt {r : Roster Ptr Fn Data} {s : Schedule Ptr} (tracks : r.Tracks s)
    (early : s.now < horizon) {p : Ptr} {a : Arming} (armed : s.armed p = some a) : a.deadline < dayLimit := by
  have stored := tracks.entry p a armed
  have since := tracks.since p a armed
  have longest := stored.fits.2
  rw [stored.delay] at longest
  unfold horizon at early
  unfold Arming.deadline
  omega

theorem Roster.Tracks.found_eq {r : Roster Ptr Fn Data} {s : Schedule Ptr} [DecidableEq Ptr] (tracks : r.Tracks s)
    (early : s.now + 1 < horizon) : r.found = s.chain.find? (fun p => s.deadlineOf p ≤ s.now + 1) := by
  have small : s.now + 1 < dayLimit := Nat.lt_of_lt_of_le early (Nat.sub_le _ _)
  rw [Roster.found, tracks.cells]
  apply List.find?_congr
  intro p member
  obtain ⟨a, armed⟩ := tracks.armed_of_mem member
  have due := tracks.advance.due_iff (p := p) armed
  have now : (s.observe .ticked).now % dayLimit = s.now + 1 := Nat.mod_eq_of_lt small
  rw [now, Nat.mod_eq_of_lt (tracks.deadline_lt (Nat.lt_of_succ_lt early) armed)] at due
  rw [Schedule.deadlineOf_armed armed, Bool.eq_iff_iff, due, decide_eq_true_iff]

end Minimus32.Timer1
