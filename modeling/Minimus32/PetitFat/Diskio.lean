import Minimus32.PetitFat.FileSystem
import Minimus32.SdCard.Startup

namespace Minimus32.PetitFat

open Interaction Program SdCard

/-- disk_readp of the drive that keeps no sector. -/
def diskReadpSd (inited : Bool) (call : Readp) : Code (Option (List UInt8)) := do
  let out ← sdReadsector inited call.sector
  pure (if out.1 ≠ .ok then none else some ((out.2.drop call.ofs).take call.count))

/-- A program that reads a disk, on the card. -/
def onCard {α : Type} (program : Disk α) : Code α := program.handle (diskReadpSd true)

variable {α : Type} {card start : Card} {area : Nat → Prop}

/-- The card keeps the contract of a drive, which is faulty if some block may come too late. -/
theorem ends_diskReadpSd (behind : ∀ n, 1 ≤ start.timing.response n)
    (within : ∀ sector, area sector → sector < start.sectors ∧ sector < 8388608) (call : Readp)
    (held : card.isReady = true ∧ start.SameDisk card)
    (asked : (service start.medium (∃ n, 511 < start.timing.response n + start.timing.token n) area).demand call) :
    Ends Card.respond (diskReadpSd true call) card fun reply after =>
      (service start.medium (∃ n, 511 < start.timing.response n + start.timing.token n) area).reply call reply ∧
      after.isReady = true ∧ start.SameDisk after := by
  obtain ⟨ready, same⟩ := held
  obtain ⟨inside, small⟩ := within call.sector asked.1
  have address : call.sector % 8388608 = call.sector := Nat.mod_eq_of_lt small
  have room : call.sector % 8388608 < card.sectors := by rw [address, same.sectors]; exact inside
  have early := behind card.served
  have finished : start.SameDisk card.finished :=
    ⟨same.toFree.finished, same.medium, same.sectors, same.timing, same.accepts⟩
  rw [← same.timing] at early ⊢
  by_cases soon : card.timing.response card.served + card.timing.token card.served ≤ 511
  · apply (ends_readsector_ok same.toFree ready room ⟨by omega, soon⟩).bind
    rintro out after ⟨rfl, rfl⟩
    apply ends_pure
    refine ⟨.inl ?_, ready, finished⟩
    simp only [ne_eq, not_true_eq_false, if_false, address, same.medium]
    rfl
  · apply (ends_readsector_failed same.toFree ready (.inr (by omega))).bind
    rintro out after ⟨rfl, rfl⟩
    exact ends_pure ⟨.inr ⟨⟨card.served, by omega⟩, rfl⟩, ready, finished⟩

/-- What holds of a program on any drive holds of it on the card. -/
theorem ends_onCard {program : Disk α} {post : α → Prop} (behind : ∀ n, 1 ≤ start.timing.response n)
    (within : ∀ sector, area sector → sector < start.sectors ∧ sector < 8388608)
    (under : program.Under
      (service start.medium (∃ n, 511 < start.timing.response n + start.timing.token n) area) post)
    (held : card.isReady = true ∧ start.SameDisk card) :
    Ends Card.respond (onCard program) card fun a after => post a ∧ after.isReady = true ∧ start.SameDisk after :=
  under.ends_handle (fun _ call held asked => ends_diskReadpSd behind within call held asked) held

end Minimus32.PetitFat
