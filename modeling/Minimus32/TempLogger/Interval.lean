import Minimus32.TempLogger.Serial

namespace Minimus32.TempLogger

/-- What the characters behind `L:` spell in decimal, dots skipped and every other character taken for a digit. -/
def number (text : List UInt8) : Int :=
  (body text).foldl (fun n c => if c ≠ ascii '.' then n * 10 + c.toInt8.toInt - 48 else n) 0

/-- The text of an accepted command that sets the logging interval. -/
def SetsInterval (text : List UInt8) : Prop :=
  text.getD 0 0 = ascii 'L' ∧ text.getD 1 0 = ascii ':' ∧ dots text ≤ 1

instance (text : List UInt8) : Decidable (SetsInterval text) := inferInstanceAs (Decidable (_ ∧ _))

def setInterval (programLog : UInt16) (text : List UInt8) : UInt16 :=
  if SetsInterval text then (body text).foldl addDigit 0 else programLog

theorem toInt8_mod (c : UInt8) : (c.toInt8.toInt16.toUInt16.toNat : Int) % 65536 = c.toInt8.toInt % 65536 := by
  have every : ∀ bits : BitVec 8, ((⟨bits⟩ : UInt8).toInt8.toInt16.toUInt16.toNat : Int) % 65536 =
      (⟨bits⟩ : UInt8).toInt8.toInt % 65536 := by decide +kernel
  exact every c.toBitVec

theorem addDigit_mod {deciTemp : UInt16} {n : Int} (same : (deciTemp.toNat : Int) % 65536 = n % 65536) (c : UInt8) :
    ((addDigit deciTemp c).toNat : Int) % 65536 =
      (if c ≠ ascii '.' then n * 10 + c.toInt8.toInt - 48 else n) % 65536 := by
  have digit := toInt8_mod c
  unfold addDigit
  split
  · rw [UInt16.toNat_sub, UInt16.toNat_add, UInt16.toNat_mul]
    change (((65536 - 48 + (deciTemp.toNat * 10 % 65536 + _) % 65536) % 65536 : Nat) : Int) % 65536 = _
    omega
  · exact same

theorem foldl_addDigit_mod (text : List UInt8) :
    (((body text).foldl addDigit 0).toNat : Int) % 65536 = number text % 65536 := by
  unfold number
  generalize body text = characters
  have from_any : ∀ (deciTemp : UInt16) (n : Int), (deciTemp.toNat : Int) % 65536 = n % 65536 →
      ((characters.foldl addDigit deciTemp).toNat : Int) % 65536 =
        characters.foldl (fun n c => if c ≠ ascii '.' then n * 10 + c.toInt8.toInt - 48 else n) n % 65536 := by
    induction characters with
    | nil => exact fun _ _ same => same
    | cons c characters ih => exact fun _ _ same => ih _ _ (addDigit_mod same c)
  exact from_any 0 0 rfl

/-- The divisor wraps to zero for the multiples of 16384, not only for zero. -/
theorem divisor_eq_zero_iff (programLog : UInt16) : programLog * 100 = 0 ↔ 16384 ∣ programLog.toNat := by
  have bound := programLog.toNat_lt
  rw [← UInt16.toNat_inj, UInt16.toNat_mul]
  change programLog.toNat * 100 % 65536 = 0 ↔ _
  omega

theorem setInterval_divisor {text : List UInt8} (sets : SetsInterval text) (programLog : UInt16) :
    setInterval programLog text * 100 = 0 ↔ (16384 : Int) ∣ number text := by
  have same := foldl_addDigit_mod text
  rw [setInterval, if_pos sets, divisor_eq_zero_iff]
  omega

theorem body_append {text : List UInt8} (long : 2 ≤ text.length) (stale : List UInt8) :
    body (text ++ 0 :: stale) = body text := by
  unfold body
  rw [List.drop_append_of_le_length long, List.takeWhile_append]
  split
  · rename_i whole
    rw [(List.takeWhile_sublist _).eq_of_length whole]
    simp
  · rfl

theorem Status.programLog_ite {p : Prop} [Decidable p] {v w : Status} {interval : UInt16}
    (yes : v.programLog = interval) (no : w.programLog = interval) :
    (if p then v else w).programLog = interval := by
  split
  · exact yes
  · exact no

theorem Status.programLog_command (v : Status) (type : UInt8) (deciTemp : UInt16) :
    (v.command type deciTemp).programLog = if type = ascii 'L' then deciTemp else v.programLog := by
  unfold Status.command
  by_cases interval : type = ascii 'L'
  · subst interval
    rfl
  · rw [if_neg interval, if_neg interval]
    refine programLog_ite rfl ?_
    refine programLog_ite rfl ?_
    refine programLog_ite rfl ?_
    refine programLog_ite (programLog_ite rfl rfl) ?_
    refine programLog_ite (v.programLog_change _ _ fun _ => rfl) ?_
    refine programLog_ite (v.programLog_change _ _ fun _ => rfl) ?_
    refine programLog_ite (v.programLog_change _ _ fun _ => rfl) ?_
    exact programLog_ite (v.programLog_change _ _ fun _ => rfl) rfl

theorem not_bare_interval : ¬ Bare (ascii 'L') := by decide

theorem null_ne_colon : (0 : UInt8) ≠ ascii ':' := by decide

theorem Status.programLog_handle (v : Status) (text stale : List UInt8) :
    (v.handle (text ++ 0 :: stale)).programLog = setInterval v.programLog text := by
  unfold Status.handle
  match text with
  | [] =>
    split
    · rw [Status.programLog_command]
      rfl
    · rfl
  | [type] =>
    have ignored : ¬ SetsInterval [type] := fun sets => null_ne_colon sets.2.1
    rw [setInterval, if_neg ignored]
    split
    · rename_i accepted
      have bare : Bare type := accepted.1.resolve_right null_ne_colon
      rw [Status.programLog_command, if_neg]
      exact fun interval : type = ascii 'L' => not_bare_interval (interval ▸ bare)
    · rfl
  | type :: colon :: rest =>
    have same : body (type :: colon :: rest ++ 0 :: stale) = body (type :: colon :: rest) :=
      body_append (by simp) stale
    have counted : dots (type :: colon :: rest ++ 0 :: stale) = dots (type :: colon :: rest) :=
      congrArg (List.count (ascii '.')) same
    by_cases sets : SetsInterval (type :: colon :: rest)
    · have interval : type = ascii 'L' := sets.1
      have accepted : Accepted (type :: colon :: rest ++ 0 :: stale) := ⟨.inr sets.2.1, counted.trans_le sets.2.2⟩
      rw [setInterval, if_pos sets, if_pos accepted, Status.programLog_command]
      refine (if_pos interval).trans ?_
      rw [valueOf, same]
      exact if_neg (fun other => other.2 interval)
    · rw [setInterval, if_neg sets]
      split
      · rename_i accepted
        rw [Status.programLog_command, if_neg]
        intro interval
        refine sets ⟨interval, accepted.1.resolve_left ?_, counted.symm.trans_le accepted.2⟩
        rw [interval]
        exact not_bare_interval
      · rfl

end Minimus32.TempLogger
