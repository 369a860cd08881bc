import Minimus32.Timer1.Schedule
import Minimus32.Timer1.WallTime

namespace Minimus32.Timer1

open WallTime

theorem WallTime.Normal.total_lt {t : WallTime} (normal : t.Normal) : t.total < dayLimit := by
  obtain ⟨msec, sec, min, hour⟩ := normal
  have day := t.day.toNat_lt
  unfold WallTime.total dayLimit
  omega

/-- A delay of the most seconds with a carry out of the milliseconds is taken for no seconds at all. -/
theorem WallTime.deadline_total_of_wrap {now : WallTime} (normal : now.Normal) {sec msec : UInt16}
    (range : msec.toNat ≤ 999) (wraps : ¬ now.CarryFits sec msec) :
    (now.deadline sec msec).total = now.total + msec.toNat - 1000 := by
  obtain ⟨msecNow, secNow, minNow, hourNow⟩ := normal
  have secBound := sec.toNat_lt
  unfold CarryFits at wraps
  have tmp0 : (now.msec + msec).toNat = now.msec.toNat + msec.toNat := by
    rw [UInt16.toNat_add]
    omega
  have full : now.msec + msec ≥ 1000 := by
    rw [ge_iff_le, UInt16.le_iff_toNat_le, tmp0]
    show 1000 ≤ _
    omega
  have zero : sec + carryOf 1000 (now.msec + msec) = 0 := by
    rw [carryOf, if_pos full, ← UInt16.toNat_inj, UInt16.toNat_add]
    show (sec.toNat + 1) % 65536 = 0
    omega
  have low : ∀ {digit : UInt8} {limit : UInt16}, digit.toNat < limit.toNat →
      carryOf limit digit.toUInt16 = 0 ∧ (reduced limit digit.toUInt16).toUInt8 = digit := by
    intro digit limit small
    have under : ¬ digit.toUInt16 ≥ limit := by
      rw [ge_iff_le, UInt16.le_iff_toNat_le, UInt8.toNat_toUInt16]
      omega
    rw [carryOf, reduced, if_neg under, if_neg under]
    exact ⟨rfl, by simp⟩
  have secs := low (show now.sec.toNat < (60 : UInt16).toNat from secNow)
  have mins := low (show now.min.toNat < (60 : UInt16).toNat from minNow)
  have hours := low (show now.hour.toNat < (24 : UInt16).toNat from hourNow)
  have left : (reduced 1000 (now.msec + msec)).toNat = now.msec.toNat + msec.toNat - 1000 := by
    rw [reduced, if_pos full, UInt16.toNat_sub_of_le _ _ full, tmp0]
    rfl
  have digits : now.deadline sec msec =
      ⟨reduced 1000 (now.msec + msec), now.sec, now.min, now.hour, now.day, sec⟩ := by
    simp [WallTime.deadline, zero, secs, mins, hours]
  rw [digits]
  unfold WallTime.total
  dsimp only
  omega

theorem WallTime.deadline_right_iff {now : WallTime} (normal : now.Normal) {sec msec : UInt16}
    (range : msec.toNat ≤ 999) :
    ((now.deadline sec msec).Normal ∧
      (now.deadline sec msec).total = (now.total + (1000 * sec.toNat + msec.toNat)) % dayLimit) ↔
    now.CarryFits sec msec := by
  constructor
  · intro right
    by_contra wraps
    have wrong := deadline_total_of_wrap normal range wraps
    have bound := normal.total_lt
    have secBound := sec.toNat_lt
    unfold CarryFits at wraps
    have msecs : 1000 ≤ now.total + msec.toNat := by
      unfold WallTime.total
      omega
    rw [right.2] at wrong
    unfold dayLimit at wrong bound
    omega
  · intro fits
    exact deadline_normal normal range fits

variable {Ptr Fn Data : Type} [DecidableEq Ptr]

/-- Whenever the struct expires with what is stored in it now, `timer1_clock_check` asks for this delay again. -/
def Clock.Repeats (c : Clock Ptr Fn Data) (fuel : Nat) (sec msec : UInt16) (recurring : UInt8) (callback : Fn)
    (userData : Data) (p : Ptr) : Prop :=
  ∀ later : Clock Ptr Fn Data, (later.structs p).toEntry = (c.structs p).toEntry →
    later.walltimer.Expired (later.structs p).time →
    later.check fuel p = (later.registerCallback fuel sec msec recurring callback userData p).map (·, true)

theorem Clock.registerCallback_repeats {c : Clock Ptr Fn Data} {fuel : Nat} {sec msec : UInt16} {recurring : UInt8}
    {callback : Fn} {userData : Data} {p : Ptr} {now : WallTime} (repeats : recurring ≠ 0)
    (stored : (c.structs p).toEntry = .arm now sec msec recurring callback userData) :
    c.Repeats fuel sec msec recurring callback userData p := by
  intro later same expired
  rw [stored] at same
  simp only [Clock.check, if_pos expired]
  rw [same]
  exact if_pos repeats

/-- For every wall time and delay: what `timer1_clock_register_callback` stores is the wall time that much later,
    exactly if the seconds survive the carry out of the milliseconds; the delay itself is always kept. -/
theorem registered_deadline_iff (c : Clock Ptr Fn Data) (cells : List Ptr) (chain : c.links.Holds cells) (fuel : Nat)
    (enough : cells.length < fuel) (normal : c.walltimer.Normal) (sec msec : UInt16) (range : msec.toNat ≤ 999)
    (recurring : UInt8) (callback : Fn) (userData : Data) (p : Ptr) :
    ∃ after, c.registerCallback fuel sec msec recurring callback userData p = some after ∧
      (((after.structs p).time.Normal ∧
          (after.structs p).time.total = (c.walltimer.total + (1000 * sec.toNat + msec.toNat)) % dayLimit ∧
          (after.structs p).time.freerunningSec = sec ∧ (after.structs p).recurringMsec = msec ∧
          (recurring ≠ 0 → after.Repeats fuel sec msec recurring callback userData p)) ↔
        c.walltimer.CarryFits sec msec) := by
  obtain ⟨after, done, represents⟩ :=
    (Clock.roster_represents chain).registerCallback enough sec msec recurring callback userData p
  have stored : (after.structs p).toEntry = .arm c.walltimer sec msec recurring callback userData := by
    rw [represents.entries p]
    exact Function.update_self ..
  refine ⟨after, done, ?_⟩
  rw [stored, ← deadline_right_iff normal range]
  constructor
  · intro right
    exact ⟨right.1, right.2.1⟩
  · intro right
    exact ⟨right.1, right.2, rfl, rfl, fun repeats => Clock.registerCallback_repeats repeats stored⟩

theorem registered_deadline_iff_one_and_a_half :
    ∃ after, (Clock.stray 1).init.registerCallback 1 1 500 1 () () 0 = some after ∧
      (after.structs 0).time.total = 1500 ∧ after.Repeats 1 1 500 1 () () 0 := by
  obtain ⟨after, done, right⟩ := registered_deadline_iff (Clock.stray 1).init [] rfl 1 (by decide)
    (WallTime.ofTicks_normal 0) 1 500 (by decide) 1 () () 0
  obtain ⟨-, total, -, -, repeats⟩ := right.mpr (.inl (by decide))
  exact ⟨after, done, total, repeats (by decide)⟩

/-- One millisecond after the start, the longest delay gives a deadline that has already passed. -/
theorem longest_delay_wraps :
    let c : Clock (Fin 1) Unit Unit := { (Clock.stray 1).init with walltimer := .ofTicks 1 }
    c.walltimer.Normal ∧ ∃ after, c.registerCallback 1 65535 999 1 () () 0 = some after ∧
      (after.structs 0).time.total = 0 ∧ (c.walltimer.total + (1000 * 65535 + 999)) % dayLimit = 65536000 :=
  ⟨WallTime.ofTicks_normal 1, _, rfl, by decide, by decide⟩

end Minimus32.Timer1
