import Minimus32.SdCard.Driver

namespace Minimus32.SdCard

open Interaction Program

/-- Anything at all on the bus: what it sends and becomes when a byte is exchanged while it is selected or not. -/
structure Device (σ : Type) where
  exchange : Bool → UInt8 → σ → UInt8 × σ

/-- The state is that of the select line, true while it is held, and that of the device. -/
def Device.respond {σ : Type} (device : Device σ) (s : Bool × σ) :
    (access : Access) → Option (access.Reply × (Bool × σ))
  | .select => some ((), true, s.2)
  | .deselect => some ((), false, s.2)
  | .power _ => some ((), s)
  | .xchg val => some ((device.exchange s.1 val s.2).1, s.1, (device.exchange s.1 val s.2).2)

/-- A call of the driver, once it has been registered. -/
inductive Operation where
  | power (hasPower on : Bool) (response : UInt8)
  | readcsd
  | readsector (lba : Nat)
  | writesector (lba : Nat) (buffer : List UInt8)
  | waitforready

def operate : Operation → Code Status
  | .power hasPower on response => sdPower hasPower on response
  | .readcsd => do
    let out ← sdReadcsd true
    pure out.1
  | .readsector lba => do
    let out ← sdReadsector true lba
    pure out.1
  | .writesector lba buffer => sdWritesector true lba buffer
  | .waitforready => sdWaitforready true

def operateAll : List Operation → Code (List Status)
  | [] => pure []
  | operation :: operations => do
    let status ← operate operation
    let later ← operateAll operations
    pure (status :: later)

section

variable {σ α : Type} {device : Device σ}

theorem Device.respond_isSome (device : Device σ) (s : Bool × σ) (access : Access) :
    (device.respond s access).isSome := by
  cases access <;> rfl

theorem ends_anyhow (program : Code α) (s : Bool × σ) : Ends device.respond program s fun _ _ => True :=
  ends_total device.respond_isSome program s

theorem ends_clockAndRelease_any (s : Bool × σ) :
    Ends device.respond sdClockAndRelease s fun _ after => after.1 = false := by
  apply ends_call (show device.respond s .deselect = some ((), false, s.2) from rfl)
  apply ends_call rfl
  exact ends_pure rfl

theorem ends_readBlock_any (n : Nat) (s : Bool × σ) :
    Ends device.respond (readBlock n) s fun _ after => after.1 = false := by
  apply (ends_anyhow sdDatatoken s).bind
  intro status after _
  split
  · apply (ends_clockAndRelease_any after).bind
    intro _ final released
    exact ends_pure released
  · apply (ends_anyhow (readBytes n) after).bind
    intro buffer after _
    apply ends_call rfl
    apply ends_call rfl
    apply (ends_clockAndRelease_any _).bind
    intro _ final released
    exact ends_pure released

/-- A card that refuses a block is left selected. -/
theorem ends_writesector_any (lba : Nat) (buffer : List UInt8) (s : Bool × σ) :
    Ends device.respond (sdWritesector true lba buffer) s fun status after =>
      after.1 = false ∨ status = .rwFail := by
  rw [sdWritesector, if_neg (by decide)]
  apply (ends_anyhow _ s).bind
  intro response after _
  apply (ends_anyhow _ after).bind
  intro answered after _
  split
  · apply (ends_clockAndRelease_any after).bind
    intro _ final released
    exact ends_pure (.inl released)
  · apply ends_call rfl
    apply (ends_anyhow (writeBytes buffer) _).bind
    intro _ after _
    apply ends_call rfl
    apply ends_call rfl
    apply ends_call rfl
    split
    · exact ends_pure (.inr rfl)
    · apply (ends_anyhow (busyLoop 0xffff) _).bind
      intro _ after _
      apply (ends_clockAndRelease_any after).bind
      intro _ final released
      exact ends_pure (.inl released)

theorem ends_waitforready_any (s : Bool × σ) :
    Ends device.respond (sdWaitforready true) s fun _ after => after.1 = false := by
  rw [sdWaitforready, if_neg (by decide)]
  apply ends_call (show device.respond s .select = some ((), true, s.2) from rfl)
  apply ends_call rfl
  apply (ends_anyhow (readyLoop 4999) _).bind
  intro i after _
  apply (ends_clockAndRelease_any after).bind
  intro _ final released
  exact ends_pure released

/-- Each command of the startup is followed by a release. -/
theorem ends_command_any {command : UInt8} {rest : UInt8 → Code α} {post : α → Bool × σ → Prop} (s : Bool × σ)
    (later : ∀ response now, Ends device.respond (rest response) (false, now) post) :
    Ends device.respond (do
      let response ← sdSendCommand command 0 0
      deselect
      let _ ← xchg 0xff
      rest response) s post := by
  apply (ends_anyhow _ s).bind
  intro response after _
  apply ends_call (show device.respond after .deselect = some ((), false, after.2) from rfl)
  apply ends_call rfl
  exact later response _

theorem ends_detectLoop_any (i : Nat) (response : UInt8) {s : Bool × σ} (released : s.1 = false) :
    Ends device.respond (detectLoop i response) s fun _ after => after.1 = false := by
  induction i generalizing response s with
  | zero => exact ends_pure released
  | succ i ih =>
    apply ends_command_any s
    intro response now
    apply ends_call rfl
    split
    · exact ends_pure rfl
    · exact ih response rfl

theorem ends_startLoop_any (i : Nat) (response : UInt8) {s : Bool × σ} (released : s.1 = false) :
    Ends device.respond (startLoop i response) s fun _ after => after.1 = false := by
  induction i generalizing response s with
  | zero => exact ends_pure released
  | succ i ih =>
    apply ends_command_any s
    intro _ now
    apply ends_command_any (false, now)
    intro response now
    split
    · exact ends_pure rfl
    · exact ih response rfl

theorem ends_readBytes_any (n : Nat) (now : σ) :
    Ends device.respond (readBytes n) (false, now) fun _ after => after.1 = false := by
  induction n generalizing now with
  | zero => exact ends_pure rfl
  | succ n ih =>
    apply ends_call rfl
    apply (ih _).bind
    intro _ after released
    exact ends_pure released

theorem ends_initialise_any (response : UInt8) (s : Bool × σ) :
    Ends device.respond (initialise response) s fun _ after => after.1 = false := by
  rw [initialise]
  apply ends_call (show device.respond s .deselect = some ((), false, s.2) from rfl)
  apply (ends_readBytes_any 10 s.2).bind
  intro _ after released
  apply (ends_detectLoop_any 0xfe response released).bind
  intro response after released
  split
  · exact ends_pure released
  · apply (ends_startLoop_any 0xfffe response released).bind
    intro response after released
    exact ends_pure released

theorem ends_power_any (hasPower on : Bool) (response : UInt8) (s : Bool × σ) :
    Ends device.respond (sdPower hasPower on response) s fun _ after => after.1 = true → s.1 = true := by
  have switched : Ends device.respond (switchPower hasPower on) s fun _ after => after = s := by
    cases hasPower with
    | false => exact ends_pure rfl
    | true => exact ⟨(), s, rfl, rfl⟩
  apply switched.bind
  rintro _ after rfl
  split
  · apply (ends_initialise_any response after).mono
    intro _ final released held
    rw [released] at held
    cases held
  · exact ends_pure id

theorem ends_operate_any (operation : Operation) (s : Bool × σ) :
    Ends device.respond (operate operation) s fun status after =>
      after.1 = true → s.1 = true ∨ ∃ lba buffer, operation = .writesector lba buffer ∧ status = .rwFail := by
  have never {b : Bool} {p : Prop} (released : b = false) (held : b = true) : p := by
    rw [released] at held
    cases held
  cases operation with
  | power hasPower on response =>
    apply (ends_power_any hasPower on response s).mono
    intro status after kept held
    exact .inl (kept held)
  | readcsd =>
    apply Ends.bind (Ends.bind (ends_anyhow _ s) fun _ after _ => ends_readBlock_any 16 after)
    intro out after released
    exact ends_pure (never released)
  | readsector lba =>
    apply Ends.bind (Ends.bind (ends_anyhow _ s) fun _ after _ => ends_readBlock_any 512 after)
    intro out after released
    exact ends_pure (never released)
  | writesector lba buffer =>
    apply (ends_writesector_any lba buffer s).mono
    intro status after outcome held
    rcases outcome with released | failed
    · exact never released held
    · exact .inr ⟨lba, buffer, rfl, failed⟩
  | waitforready =>
    apply (ends_waitforready_any s).mono
    intro status after released
    exact never released

theorem ends_operateAll_any (operations : List Operation) (s : Bool × σ) :
    Ends device.respond (operateAll operations) s fun statuses after =>
      after.1 = true → s.1 = true ∨ ∃ (i : Nat) (lba : Nat) (buffer : List UInt8),
        operations[i]? = some (.writesector lba buffer) ∧ statuses[i]? = some .rwFail := by
  induction operations generalizing s with
  | nil => exact ends_pure .inl
  | cons operation operations ih =>
    apply (ends_operate_any operation s).bind
    intro status between first
    apply (ih between).bind
    intro statuses after later
    apply ends_pure
    intro held
    rcases later held with before | ⟨i, lba, buffer, write, failed⟩
    · apply (first before).imp_right
      rintro ⟨lba, buffer, rfl, rfl⟩
      exact ⟨0, lba, buffer, rfl, rfl⟩
    · exact .inr ⟨i + 1, lba, buffer, write, failed⟩

/-- Whatever is on the bus, the select line is held behind a call only if a write has failed. -/
theorem operateAll_released (device : Device σ) (operations : List Operation) (start : σ) :
    Ends device.respond (operateAll operations) (false, start) fun statuses after =>
      after.1 = true → ∃ (i : Nat) (lba : Nat) (buffer : List UInt8),
        operations[i]? = some (.writesector lba buffer) ∧ statuses[i]? = some .rwFail := by
  apply (ends_operateAll_any operations (false, start)).mono
  intro statuses after outcome held
  exact (outcome held).resolve_left Bool.false_ne_true

end

end Minimus32.SdCard
