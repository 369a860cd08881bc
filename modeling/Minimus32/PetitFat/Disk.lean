import Minimus32.Library.Contract
import Minimus32.SdCard.Medium

namespace Minimus32.PetitFat

open Interaction

def word (n : Nat) : Nat := n % 65536

def dword (n : Nat) : Nat := n % 4294967296

theorem word_of_lt {n : Nat} (small : n < 65536) : word n = n := Nat.mod_eq_of_lt small

theorem dword_of_lt {n : Nat} (small : n < 4294967296) : dword n = n := Nat.mod_eq_of_lt small

def ldWord (buf : List UInt8) (i : Nat) : Nat := (buf.getD (i + 1) 0).toNat <<< 8 ||| (buf.getD i 0).toNat

def ldDword (buf : List UInt8) (i : Nat) : Nat :=
  (buf.getD (i + 3) 0).toNat <<< 24 ||| (buf.getD (i + 2) 0).toNat <<< 16 |||
    (buf.getD (i + 1) 0).toNat <<< 8 ||| (buf.getD i 0).toNat

theorem ldWord_eq (buf : List UInt8) (i : Nat) :
    ldWord buf i = 256 * (buf.getD (i + 1) 0).toNat + (buf.getD i 0).toNat := by
  have low := (buf.getD i 0).toNat_lt
  rw [ldWord, ← Nat.shiftLeft_add_eq_or_of_lt low, Nat.shiftLeft_eq]
  omega

inductive FResult where
  | ok
  | diskErr
  | notReady
  | noFile
  | noPath
  | notOpened
  | notEnabled
  | noFilesystem
  deriving DecidableEq, Repr

/-- A call of disk_readp. -/
structure Readp where
  sector : Nat
  ofs : Nat
  count : Nat

/-- Programs that read a disk. The reply is what disk_readp copied, none where its result is not RES_OK. -/
abbrev Disk := Program Readp fun _ => Option (List UInt8)

def diskReadp (sector ofs count : Nat) : Disk (Option (List UInt8)) :=
  Program.call (fun _ => Option (List UInt8)) ⟨sector, ofs, count⟩

/-- A drive gives the bytes of its medium and, if it is faulty, may also fail at any call. It is asked for sectors
of one area, and for nothing beyond the end of a sector. -/
def service (medium : Medium) (faulty : Prop) (area : Nat → Prop) : Contract Readp fun _ => Option (List UInt8) where
  demand call := area call.sector ∧ call.ofs + call.count ≤ 512
  reply call reply := reply = some (medium.piece call.sector call.ofs call.count) ∨ faulty ∧ reply = none

variable {α : Type} {medium : Medium} {faulty : Prop} {area : Nat → Prop} {post : α → Prop}

theorem diskReadp_under {sector ofs count : Nat} (there : area sector) (inside : ofs + count ≤ 512) :
    (diskReadp sector ofs count).Under (service medium faulty area) fun reply =>
      reply = some (medium.piece sector ofs count) ∨ faulty ∧ reply = none :=
  ⟨⟨there, inside⟩, fun _ allowed => allowed⟩

theorem under_diskReadp {sector ofs count : Nat} {rest : Option (List UInt8) → Disk α} (there : area sector)
    (inside : ofs + count ≤ 512)
    (given : (rest (some (medium.piece sector ofs count))).Under (service medium faulty area) post)
    (failed : faulty → (rest none).Under (service medium faulty area) post) :
    (diskReadp sector ofs count >>= rest).Under (service medium faulty area) post := by
  apply Program.Under.bind (diskReadp_under there inside)
  intro reply allowed
  rcases allowed with rfl | ⟨fault, rfl⟩
  · exact given
  · exact failed fault

end Minimus32.PetitFat
