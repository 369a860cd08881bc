import Minimus32.BoardSupport.Twi

namespace Minimus32.Twi

open Interaction Program

/-- What the unit presents: the value of `TWSR` at every wait, and the values of the other registers behind it. -/
structure Presented where
  twsr : Nat → UInt8
  twcr : Nat → UInt8
  twdr : Nat → UInt8

/-- The state is the number of waits so far. -/
def Presented.answer (h : Presented) (waits : Nat) : (op : Access) → Option (op.Reply × Nat)
  | .wait => some ((), waits + 1)
  | .readTwsr => some (h.twsr (waits - 1), waits)
  | .readTwcr => some (h.twcr waits, waits)
  | .readTwdr => some (h.twdr waits, waits)
  | .writeTwcr _ | .writeTwdr _ => some ((), waits)

def Presented.status (h : Presented) (i : Nat) : UInt8 := h.twsr i &&& statusMask

inductive Step where
  | start
  | address (reads : Bool)
  | data (reads : Bool)
deriving DecidableEq

/-- The codes with which a step has succeeded. -/
def Step.success : Step → List UInt8
  | .start => [0x08, 0x10]
  | .address reads => if reads then [0x40] else [0x18]
  | .data reads => if reads then [0x50] else [0x28]

/-- A code for which the operation returns an error. -/
def Step.Caught : Step → UInt8 → Prop
  | .start, code => code ∉ [0x08, 0x10]
  | .address _, code => code ∈ [0x20, 0x48] ∨ code = 0x38
  | .data reads, code => code ∈ (if reads then [0x58] else [0x30]) ∨ code = 0x38

instance (step : Step) (code : UInt8) : Decidable (step.Caught code) :=
  match step with
  | .start => inferInstanceAs (Decidable (_ ∉ _))
  | .address _ | .data _ => inferInstanceAs (Decidable (_ ∨ _))

def reads (address : UInt8) : Bool := decide (address &&& addressRead ≠ 0)

def opening (address flags : UInt8) : List Step :=
  if flags &&& dontSendStartCond = 0 then [.start, .address (reads address)] else []

/-- The steps of an operation that goes through. -/
def steps (address bufferLength flags : UInt8) : List Step :=
  opening address flags ++ List.replicate bufferLength.toNat (.data (reads address))

section

variable {h : Presented} {waits : Nat}

theorem steady_presented : Steady h.answer (· = waits + 1) (h.twsr waits) := by
  rintro _ rfl
  exact ⟨waits + 1, rfl, rfl⟩

theorem ends_statusIn (codes : List UInt8) :
    Ends h.answer (statusIn codes) (waits + 1) fun found after =>
      after = waits + 1 ∧ (found = true ↔ h.status waits ∈ codes) :=
  steady_presented.ends_statusIn rfl codes

/-- The wait of this number, in this step, lets the operation go on. -/
def Presented.Good (h : Presented) (step : Step) (i : Nat) : Prop := ¬ step.Caught (h.status i)

/-- A piece of the code: whether the operation goes on behind it, with how many waits, and never with an early
    success. -/
structure Passes (going : Prop) (finish : Nat) (early : Option TwiError) (after : Nat) : Prop where
  goes : early = none ↔ going
  waited : early = none → after = finish
  fails : early ≠ some .noError

theorem passes_none {going : Prop} (goes : going) (waits : Nat) : Passes going waits none waits :=
  ⟨iff_of_true rfl goes, fun _ => rfl, by simp⟩

theorem passes_error {going : Prop} {error : TwiError} (other : error ≠ .noError) (stays : ¬ going)
    (finish after : Nat) : Passes going finish (some error) after :=
  ⟨iff_of_false (by simp) stays, by simp, by simpa using other⟩

theorem ends_check {missing : List UInt8} {error : TwiError} (other : error ≠ .noError) :
    Ends h.answer (check missing error) (waits + 1)
      (Passes (¬ (h.status waits ∈ missing ∨ h.status waits = 0x38)) (waits + 1)) := by
  refine (ends_statusIn missing).bind ?_
  rintro found _ ⟨rfl, sure⟩
  by_cases absent : h.status waits ∈ missing
  · rw [if_pos (sure.mpr absent)]
    exact ends_call rfl (ends_pure (passes_error other (not_not.mpr (.inl absent)) _ _))
  · rw [if_neg (sure.not.mpr absent)]
    refine (ends_statusIn [0x38]).bind ?_
    rintro lost _ ⟨rfl, sure⟩
    rw [List.mem_singleton] at sure
    by_cases arbitration : h.status waits = 0x38
    · rw [if_pos (sure.mpr arbitration)]
      exact ends_call rfl (ends_pure (passes_error (by decide) (not_not.mpr (.inr arbitration)) _ _))
    · rw [if_neg (sure.not.mpr arbitration)]
      exact ends_pure (passes_none (not_or.mpr ⟨absent, arbitration⟩) _)

theorem ends_startCondition (address : UInt8) :
    Ends h.answer (startCondition address) 0
      (Passes (h.Good .start 0 ∧ h.Good (.address (reads address)) 1) 2) := by
  refine ends_call rfl (ends_call rfl ?_)
  refine (ends_statusIn [0x08, 0x10]).bind ?_
  rintro sent _ ⟨rfl, sure⟩
  by_cases started : h.status 0 ∈ [0x08, 0x10]
  · rw [if_pos (sure.mpr started)]
    refine ends_call rfl (ends_call rfl (ends_call rfl ?_))
    apply (ends_check (by decide)).mono
    intro early after passes
    exact ⟨passes.goes.trans (and_iff_right (not_not.mpr started)).symm, passes.waited, passes.fails⟩
  · rw [if_neg (sure.not.mpr started)]
    exact ends_pure (passes_error (by decide) (fun both => both.1 started) _ _)

theorem Passes.now {step : Step} {finish between : Nat} {error : TwiError}
    (passes : Passes (h.Good step waits) finish (some error) between) (n after : Nat) :
    Passes (∀ j < n + 1, h.Good step (waits + j)) (waits + (n + 1)) (some error) after := by
  apply passes_error (by simpa using passes.fails)
  intro all
  exact absurd (passes.goes.mpr (all 0 (Nat.succ_pos n))) (by simp)

theorem Passes.later {step : Step} {n after : Nat} {early : Option TwiError} (first : h.Good step waits)
    (passes : Passes (∀ j < n, h.Good step (waits + 1 + j)) (waits + 1 + n) early after) :
    Passes (∀ j < n + 1, h.Good step (waits + j)) (waits + (n + 1)) early after := by
  have both : (∀ j < n + 1, h.Good step (waits + j)) ↔ ∀ j < n, h.Good step (waits + 1 + j) := by
    rw [Nat.forall_lt_succ_left]
    simp only [Nat.add_zero, first, true_and, Nat.add_assoc, Nat.add_comm 1]
  refine ⟨passes.goes.trans both.symm, ?_, passes.fails⟩
  intro none
  rw [passes.waited none, Nat.add_assoc, Nat.add_comm 1]

def failure {α : Type} : Except TwiError α → Option TwiError
  | .error error => some error
  | .ok _ => none

theorem ends_readByte :
    Ends h.answer readByte waits fun result => Passes (h.Good (.data true) waits) (waits + 1) (failure result) := by
  refine ends_call rfl (ends_call rfl (ends_call rfl ?_))
  refine (ends_check (by decide)).bind ?_
  intro early between passes
  cases early with
  | some error => exact ends_pure passes
  | none => exact ends_call rfl (ends_call rfl (ends_pure passes))

theorem ends_readLoop (n i : Nat) (buffer : Nat → UInt8) :
    Ends h.answer (readLoop n i buffer) waits fun result =>
      Passes (∀ j < n, h.Good (.data true) (waits + j)) (waits + n) result.1 := by
  induction n generalizing waits i buffer with
  | zero => exact ends_pure (passes_none (by simp) waits)
  | succ n ih =>
    refine ends_readByte.bind ?_
    intro result between first
    cases result with
    | error error => exact ends_pure (first.now n between)
    | ok byte =>
      cases first.waited rfl
      apply (ih _ _).mono
      intro result after later
      exact later.later (first.goes.mp rfl)

theorem ends_writeLoop (buffer : Nat → UInt8) (n i : Nat) :
    Ends h.answer (writeLoop buffer n i) waits
      (Passes (∀ j < n, h.Good (.data false) (waits + j)) (waits + n)) := by
  induction n generalizing waits i with
  | zero => exact ends_pure (passes_none (by simp) waits)
  | succ n ih =>
    refine ends_call rfl (ends_call rfl (ends_call rfl ?_))
    refine (ends_check (by decide)).bind ?_
    intro early between passes
    have first : Passes (h.Good (.data false) waits) (waits + 1) early between := passes
    cases early with
    | some error => exact ends_pure (first.now n between)
    | none =>
      cases first.waited rfl
      apply (ih _).mono
      intro result after later
      exact later.later (first.goes.mp rfl)

theorem ends_transfer (address bufferLength : UInt8) (buffer : Nat → UInt8) :
    Ends h.answer (transfer address bufferLength buffer) waits fun result =>
      Passes (∀ j < bufferLength.toNat, h.Good (.data (reads address)) (waits + j))
        (waits + bufferLength.toNat) result.1 := by
  unfold transfer reads
  by_cases read : address &&& addressRead ≠ 0
  · rw [if_pos read, decide_eq_true read]
    exact ends_readLoop _ _ _
  · rw [if_neg read, decide_eq_false read]
    refine (ends_writeLoop _ _ _).bind ?_
    intro early after passes
    exact ends_pure passes

/-- Every wait, in the step that comes with it, lets the operation go on. -/
def Presented.AllGood (h : Presented) (steps : List Step) : Prop := ∀ i step, steps[i]? = some step → h.Good step i

theorem allGood_append (front : List Step) (n : Nat) (step : Step) :
    h.AllGood (front ++ List.replicate n step) ↔ h.AllGood front ∧ ∀ j < n, h.Good step (front.length + j) := by
  constructor
  · intro all
    constructor
    · intro i other found
      exact all i other (by rw [List.getElem?_append_left (List.getElem?_eq_some_iff.mp found).1, found])
    · intro j inside
      refine all _ step ?_
      rw [List.getElem?_append_right (Nat.le_add_right _ _), Nat.add_sub_cancel_left,
        List.getElem?_replicate_of_lt inside]
  · rintro ⟨begun, rest⟩ i other found
    by_cases early : i < front.length
    · rw [List.getElem?_append_left early] at found
      exact begun i other found
    · rw [List.getElem?_append_right (by omega)] at found
      obtain ⟨inside, same⟩ := List.getElem?_eq_some_iff.mp found
      rw [List.getElem_replicate] at same
      rw [List.length_replicate] at inside
      have good := rest (i - front.length) inside
      rwa [Nat.add_sub_cancel' (by omega), same] at good

theorem ends_openBus (address flags : UInt8) :
    Ends h.answer (openBus address flags) 0
      (Passes (h.AllGood (opening address flags)) (opening address flags).length) := by
  unfold openBus opening
  by_cases starts : flags &&& dontSendStartCond = 0
  · rw [if_pos starts, if_pos starts]
    apply (ends_startCondition address).mono
    intro early after passes
    refine ⟨passes.goes.trans ⟨?_, ?_⟩, passes.waited, passes.fails⟩
    · rintro ⟨first, second⟩ i step found
      match i with
      | 0 =>
        cases found
        exact first
      | 1 =>
        cases found
        exact second
      | i + 2 => cases found
    · intro all
      exact ⟨all 0 .start rfl, all 1 _ rfl⟩
  · rw [if_neg starts, if_neg starts]
    exact ends_pure (passes_none (fun i step found => by cases found) 0)

/-- The operation goes through exactly if every wait is good, and has then waited for all of its steps. -/
theorem ends_blockingMasterOpperation (address bufferLength : UInt8) (buffer : Nat → UInt8) (flags : UInt8) :
    Ends h.answer (blockingMasterOpperation address bufferLength buffer flags) 0 fun result waits =>
      (result.1 = .noError ↔ h.AllGood (steps address bufferLength flags)) ∧
        (result.1 = .noError → waits = (steps address bufferLength flags).length) := by
  have size : (steps address bufferLength flags).length = (opening address flags).length + bufferLength.toNat := by
    rw [steps, List.length_append, List.length_replicate]
  rw [size, steps, allGood_append]
  refine (ends_openBus address flags).bind ?_
  intro early between begun
  cases early with
  | some error =>
    have other : error ≠ .noError := by simpa using begun.fails
    refine ends_pure ⟨iff_of_false other ?_, fun none => absurd none other⟩
    intro both
    exact absurd (begun.goes.mpr both.1) (by simp)
  | none =>
    cases begun.waited rfl
    refine (ends_transfer address bufferLength buffer).bind ?_
    rintro ⟨early, written⟩ after passes
    cases early with
    | some error =>
      have other : error ≠ .noError := by simpa using passes.fails
      refine ends_pure ⟨iff_of_false other ?_, fun none => absurd none other⟩
      intro both
      exact absurd (passes.goes.mpr both.2) (by simp)
    | none =>
      have good := And.intro (begun.goes.mp rfl) (passes.goes.mp rfl)
      dsimp only
      split
      · exact ends_call rfl (ends_pure ⟨iff_of_true rfl good, fun _ => passes.waited rfl⟩)
      · exact ends_pure ⟨iff_of_true rfl good, fun _ => passes.waited rfl⟩

end

theorem blockingMasterOpperation_sound_iff (h : Presented) (address bufferLength : UInt8) (buffer : Nat → UInt8)
    (flags : UInt8) :
    ∃ error stored waits,
      (blockingMasterOpperation address bufferLength buffer flags).run h.answer 0 = some ((error, stored), waits) ∧
      (error = .noError ↔
        ∀ (i : Nat) (step : Step), (steps address bufferLength flags)[i]? = some step → ¬ step.Caught (h.status i)) ∧
      ((error = .noError →
          ∀ i < waits, ∃ step, (steps address bufferLength flags)[i]? = some step ∧ h.status i ∈ step.success) ↔
        (∃ (i : Nat) (step : Step), (steps address bufferLength flags)[i]? = some step ∧ step.Caught (h.status i)) ∨
          ∀ i step, (steps address bufferLength flags)[i]? = some step → h.status i ∈ step.success) := by
  obtain ⟨⟨error, stored⟩, waits, ran, goes, waited⟩ :=
    ends_blockingMasterOpperation (h := h) address bufferLength buffer flags
  refine ⟨error, stored, waits, ran, goes, ?_⟩
  by_cases caught : ∃ (i : Nat) (step : Step),
      (steps address bufferLength flags)[i]? = some step ∧ step.Caught (h.status i)
  · refine iff_of_true ?_ (.inl caught)
    intro none
    obtain ⟨i, step, found, tested⟩ := caught
    exact absurd tested (goes.mp none i step found)
  · rw [or_iff_right caught]
    have none : error = .noError := goes.mpr fun i step found tested => caught ⟨i, step, found, tested⟩
    have all := waited none
    constructor
    · intro sound i step found
      obtain ⟨other, same, good⟩ := sound none i (all ▸ (List.getElem?_eq_some_iff.mp found).1)
      cases same.symm.trans found
      exact good
    · intro good _ i inside
      have found := List.getElem?_eq_getElem (all ▸ inside)
      exact ⟨_, found, good i _ found⟩

/-- A bus error behind the address is not seen. -/
theorem blockingMasterOpperation_unsound :
    ((blockingMasterOpperation 0x50 0 (fun _ => 0) 0).run
        (Presented.answer ⟨fun i => if i = 0 then 0x08 else 0x00, fun _ => 0, fun _ => 0⟩) 0).map (·.1.1) =
      some .noError ∧
    (0x00 : UInt8) ∉ (Step.address false).success := by
  decide

end Minimus32.Twi
