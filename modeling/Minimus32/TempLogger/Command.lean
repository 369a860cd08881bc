import Minimus32.TempLogger.Relay

namespace Minimus32.TempLogger

/-- The program's variables and flags and the relay, without the timers and the serial buffer. -/
structure Status where
  programC : Int16
  programD : Int16
  programT : Int16
  programW : Int16
  programLog : UInt16
  programChar : UInt8
  runningChar : UInt8
  alwaysRun : UInt8
  nowTemp : Vector UInt8 7
  relay : Bool
deriving DecidableEq

def Logger.status (l : Logger) : Status where
  programC := l.programC
  programD := l.programD
  programT := l.programT
  programW := l.programW
  programLog := l.programLog
  programChar := l.programChar
  runningChar := l.runningChar
  alwaysRun := l.alwaysRun
  nowTemp := l.nowTemp
  relay := l.relayOn

namespace Status

def setRelay (v : Status) : Status :=
  if v.alwaysRun ≠ 0 then { v with relay := true, runningChar := ascii '+' }
  else if v.programChar = ascii 'R' ∧ v.runningChar = ascii ' ' then
    let deciTemp := fillDeciTemp v.nowTemp.toList 6 0 (List.replicate 6 (ascii ' ') ++ [0])
    if atoi deciTemp ≤ v.programC - v.programD then { v with relay := true, runningChar := ascii 'O' }
    else { v with relay := false }
  else v

def change (v : Status) (old : Int16) (deciTemp : UInt16) (set : Status → Int16 → Status) : Status :=
  if old.toUInt16 ≠ deciTemp then (set v deciTemp.toInt16).setRelay else v

def deactivate (v : Status) : Status :=
  { v with programChar := ascii ' ', relay := false, runningChar := ascii ' ' }

def command (v : Status) (type : UInt8) (deciTemp : UInt16) : Status :=
  if type = ascii '+' then { v with alwaysRun := 1, relay := true }
  else if type = ascii '-' then { v with alwaysRun := 0 }.deactivate
  else if type = ascii 'S' then v.deactivate
  else if type = ascii 'R' then
    if v.programC ≠ 0 ∧ v.programD ≠ 0 ∧ v.programT ≠ 0 ∧ v.programW ≠ 0 then { v with programChar := ascii 'R' }
    else v
  else if type = ascii 'C' then v.change v.programC deciTemp (fun v value => { v with programC := value })
  else if type = ascii 'D' then v.change v.programD deciTemp (fun v value => { v with programD := value })
  else if type = ascii 'T' then v.change v.programT deciTemp (fun v value => { v with programT := value })
  else if type = ascii 'W' then v.change v.programW deciTemp (fun v value => { v with programW := value })
  else if type = ascii 'L' then { v with programLog := deciTemp }
  else v

end Status

/-- The call leaves the status `v` and does not touch the serial buffer. -/
structure Logger.Leaves (l : Logger) (v : Status) (after : Logger) : Prop where
  status : after.status = v
  value : after.programValue = l.programValue
  pointer : after.programPointer = l.programPointer

namespace Logger.Leaves

theorem refl (l : Logger) : l.Leaves l.status l := ⟨rfl, rfl, rfl⟩

theorem trans {l between after : Logger} {v w : Status} (first : l.Leaves v between)
    (second : between.Leaves w after) : l.Leaves w after :=
  ⟨second.status, second.value.trans first.value, second.pointer.trans first.pointer⟩

end Logger.Leaves

namespace Logger

variable {l after : Logger}

theorem leaves_of_register {sec msec : UInt16} {callback : Handler} {timer : Timer}
    (done : l.register sec msec callback timer = some after) : l.Leaves l.status after := by
  obtain ⟨clock, _, rfl⟩ := Option.map_eq_some_iff.mp done
  exact ⟨rfl, rfl, rfl⟩

theorem relayStatus_on (l : Logger) : (l.relayStatus 1).relayOn = true := by
  show Register.bit (l.portd ||| 0b00000010) 1 = true
  rw [Register.bit_or]
  exact Bool.or_true _

theorem relayStatus_off (l : Logger) : (l.relayStatus 0).relayOn = false := by
  show Register.bit (l.portd &&& 0b11111101) 1 = false
  rw [Register.bit_and]
  exact Bool.and_false _

theorem leaves_relayStatus_off (l : Logger) : l.Leaves { l.status with relay := false } (l.relayStatus 0) :=
  ⟨congrArg (fun on => { l.status with relay := on }) l.relayStatus_off, rfl, rfl⟩

theorem leaves_of_stopWaiting (done : l.stopWaiting = some after) :
    l.Leaves { l.status with runningChar := ascii ' ' } after := by
  obtain ⟨freed, unregistered, rfl⟩ := Option.map_eq_some_iff.mp done
  obtain ⟨clock, _, rfl⟩ := Option.map_eq_some_iff.mp unregistered
  exact ⟨rfl, rfl, rfl⟩

theorem leaves_of_startRelayTimer (done : l.startRelayTimer = some after) :
    l.Leaves { l.status with relay := true, runningChar := ascii 'O' } after := by
  obtain ⟨started, registered, rfl⟩ := Option.map_eq_some_iff.mp done
  obtain ⟨clock, _, rfl⟩ := Option.map_eq_some_iff.mp registered
  exact ⟨congrArg (fun on => { l.status with relay := on, runningChar := ascii 'O' }) l.relayStatus_on, rfl, rfl⟩

theorem leaves_of_ite {p : Prop} [Decidable p] {first second : Option Logger} {v w : Status}
    (yes : first = some after → l.Leaves v after) (no : second = some after → l.Leaves w after)
    (done : (if p then first else second) = some after) : l.Leaves (if p then v else w) after := by
  by_cases holds : p
  · rw [if_pos holds] at done ⊢
    exact yes done
  · rw [if_neg holds] at done ⊢
    exact no done

theorem leaves_of_setRelay (done : l.setRelay = some after) : l.Leaves l.status.setRelay after := by
  refine leaves_of_ite ?_ (leaves_of_ite (leaves_of_ite leaves_of_startRelayTimer ?_) ?_) done
  · rintro ⟨⟩
    exact ⟨congrArg (fun on => { l.status with relay := on, runningChar := ascii '+' }) l.relayStatus_on, rfl, rfl⟩
  · rintro ⟨⟩
    exact l.leaves_relayStatus_off
  · rintro ⟨⟩
    exact Leaves.refl l

theorem leaves_of_change {old : Int16} {deciTemp : UInt16} {set : Logger → Int16 → Logger}
    {setStatus : Status → Int16 → Status} (sets : ∀ value, l.Leaves (setStatus l.status value) (set l value))
    (done : l.change old deciTemp set = some after) : l.Leaves (l.status.change old deciTemp setStatus) after := by
  refine leaves_of_ite ?_ ?_ done
  · intro updated
    have changed := sets deciTemp.toInt16
    rw [← changed.status]
    exact changed.trans (leaves_of_setRelay updated)
  · rintro ⟨⟩
    exact Leaves.refl l

theorem leaves_of_deactivate (done : l.deactivate = some after) : l.Leaves l.status.deactivate after := by
  have stopped := leaves_of_stopWaiting done
  refine ⟨stopped.status.trans ?_, stopped.value, stopped.pointer⟩
  exact congrArg (fun on => { l.status.deactivate with relay := on })
    (relayStatus_off { l with programChar := ascii ' ' })

theorem leaves_of_release (done : { l with alwaysRun := 0 }.deactivate = some after) :
    l.Leaves { l.status with alwaysRun := 0 }.deactivate after := by
  have released := leaves_of_deactivate done
  exact ⟨released.status, released.value, released.pointer⟩

theorem leaves_of_command {type : UInt8} {deciTemp : UInt16} (done : l.command type deciTemp = some after) :
    l.Leaves (l.status.command type deciTemp) after := by
  refine leaves_of_ite ?_ (leaves_of_ite leaves_of_release (leaves_of_ite leaves_of_deactivate (leaves_of_ite ?_
    (leaves_of_ite (leaves_of_change (fun _ => ⟨rfl, rfl, rfl⟩))
    (leaves_of_ite (leaves_of_change (fun _ => ⟨rfl, rfl, rfl⟩))
    (leaves_of_ite (leaves_of_change (fun _ => ⟨rfl, rfl, rfl⟩))
    (leaves_of_ite (leaves_of_change (fun _ => ⟨rfl, rfl, rfl⟩)) (leaves_of_ite ?_ ?_)))))))) done
  · rintro ⟨⟩
    exact ⟨congrArg (fun on => { l.status with alwaysRun := 1, relay := on })
      (relayStatus_on { l with alwaysRun := 1 }), rfl, rfl⟩
  · rintro ⟨⟩
    by_cases set : l.programC ≠ 0 ∧ l.programD ≠ 0 ∧ l.programT ≠ 0 ∧ l.programW ≠ 0
    · rw [if_pos set]
      exact ⟨(if_pos set).symm, rfl, rfl⟩
    · rw [if_neg set]
      exact ⟨(if_neg set).symm, rfl, rfl⟩
  · rintro ⟨⟩
    exact ⟨rfl, rfl, rfl⟩
  · rintro ⟨⟩
    exact Leaves.refl l

end Logger

/-- The characters of a command after the two that say what it is, up to its end. -/
def body (str : List UInt8) : List UInt8 := (str.drop 2).takeWhile (· ≠ 0)

def dots (str : List UInt8) : Nat := (body str).count (ascii '.')

def addDigit (deciTemp : UInt16) (c : UInt8) : UInt16 :=
  if c ≠ ascii '.' then deciTemp * 10 + c.toInt8.toInt16.toUInt16 - (ascii '0').toUInt16 else deciTemp

def valueOf (str : List UInt8) : UInt16 :=
  let deciTemp := (body str).foldl addDigit 0
  if dots str = 0 ∧ str.getD 0 0 ≠ ascii 'L' then deciTemp * 10 else deciTemp

def Bare (type : UInt8) : Prop := type = ascii 'R' ∨ type = ascii 'S' ∨ type = ascii '+' ∨ type = ascii '-'

instance (type : UInt8) : Decidable (Bare type) := inferInstanceAs (Decidable (_ ∨ _))

def Accepted (str : List UInt8) : Prop := (Bare (str.getD 0 0) ∨ str.getD 1 0 = ascii ':') ∧ dots str ≤ 1

instance (str : List UInt8) : Decidable (Accepted str) := inferInstanceAs (Decidable (_ ∧ _))

def Status.handle (v : Status) (str : List UInt8) : Status :=
  if Accepted str then v.command (str.getD 0 0) (valueOf str) else v

theorem scanValue_eq {str : List UInt8} (terminated : 0 ∈ str) (deciTemp : UInt16) (dotFound : UInt8) :
    scanValue str deciTemp dotFound = some ((str.takeWhile (· ≠ 0)).foldl addDigit deciTemp,
      dotFound + UInt8.ofNat ((str.takeWhile (· ≠ 0)).count (ascii '.'))) := by
  induction str generalizing deciTemp dotFound with
  | nil => cases terminated
  | cons c str ih =>
    unfold scanValue
    by_cases null : c = 0
    · subst null
      simp
    · have later : 0 ∈ str := (List.mem_cons.mp terminated).resolve_left (Ne.symm null)
      rw [if_neg null, List.takeWhile_cons_of_pos (by simpa using null), List.foldl_cons]
      by_cases digit : c ≠ ascii '.'
      · rw [if_pos digit, ih later, List.count_cons_of_ne digit, addDigit, if_pos digit]
      · rw [not_not] at digit
        subst digit
        rw [if_neg (by simp), ih later, List.count_cons_self, addDigit, if_neg (by simp), Nat.add_comm,
          UInt8.ofNat_add, UInt8.add_assoc]
        rfl

theorem dots_lt {str : List UInt8} (short : str.length ≤ 256) : dots str < 256 := by
  have counted : dots str ≤ (body str).length := List.count_le_length
  have taken : (body str).length ≤ (str.drop 2).length := (List.takeWhile_sublist _).length_le
  rw [List.length_drop] at taken
  omega

theorem ignored_iff {type colon : UInt8} :
    (type ≠ ascii 'R' ∧ type ≠ ascii 'S' ∧ type ≠ ascii '+' ∧ type ≠ ascii '-' ∧ colon ≠ ascii ':') ↔
      ¬ (Bare type ∨ colon = ascii ':') := by
  simp only [Bare, not_or, and_assoc, ne_eq]

theorem Logger.setProgramVariable_eq (l : Logger) {str : List UInt8} (short : str.length ≤ 256)
    (terminated : Terminated str) :
    l.setProgramVariable str = if Accepted str then
      (l.command (str.getD 0 0) (valueOf str)).map (·, [.commanded (str.getD 0 0)]) else some (l, []) := by
  have whole : (str.drop 2).take 256 = str.drop 2 := List.take_of_length_le (by simp; omega)
  have few := dots_lt short
  rw [Terminated, whole] at terminated
  have many : (0 + UInt8.ofNat (dots str) > 1) ↔ ¬ dots str ≤ 1 := by
    rw [UInt8.zero_add, gt_iff_lt, UInt8.lt_iff_toNat_lt, UInt8.toNat_ofNat', Nat.mod_eq_of_lt few]
    exact Nat.not_le.symm
  have none : 0 + UInt8.ofNat (dots str) = 0 ↔ dots str = 0 := by
    rw [UInt8.zero_add, ← UInt8.toNat_inj, UInt8.toNat_ofNat', Nat.mod_eq_of_lt few]
    rfl
  unfold Logger.setProgramVariable
  dsimp only
  rw [whole, scanValue_eq terminated, Option.bind_some]
  change (if _ then _ else if 0 + UInt8.ofNat (dots str) > 1 then _ else
    (l.command _ (if 0 + UInt8.ofNat (dots str) = 0 ∧ _ then _ else _)).map _) = _
  simp only [many, none]
  by_cases addressed : Bare (str.getD 0 0) ∨ str.getD 1 0 = ascii ':'
  · rw [if_neg (fun ignored => ignored_iff.mp ignored addressed)]
    by_cases single : dots str ≤ 1
    · have accepted : Accepted str := ⟨addressed, single⟩
      rw [if_neg (not_not.mpr single), if_pos accepted]
      rfl
    · rw [if_pos single, if_neg (fun accepted : Accepted str => single accepted.2)]
  · rw [if_pos (ignored_iff.mpr addressed), if_neg (fun accepted : Accepted str => addressed accepted.1)]

theorem Logger.leaves_of_setProgramVariable {l after : Logger} {str : List UInt8} {seen : List Observation}
    (short : str.length ≤ 256) (terminated : Terminated str)
    (done : l.setProgramVariable str = some (after, seen)) : l.Leaves (l.status.handle str) after := by
  rw [l.setProgramVariable_eq short terminated] at done
  unfold Status.handle
  split at done
  · rename_i accepted
    obtain ⟨commanded, run, same⟩ := Option.map_eq_some_iff.mp done
    cases same
    rw [if_pos accepted]
    exact leaves_of_command run
  · rename_i ignored
    cases done
    rw [if_neg ignored]
    exact Leaves.refl l

end Minimus32.TempLogger
