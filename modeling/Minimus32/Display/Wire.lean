import Mathlib.Data.List.GetD
import Minimus32.Library.Register

namespace Minimus32.Display

/-- Program memory from some address on, as `pgm_read_byte` sees it; addresses have sixteen bits. -/
abbrev Flash := UInt16 → UInt8

/-- The table lies at the start of that memory. -/
def Flash.Holds (flash : Flash) (table : List UInt8) : Prop :=
  ∀ (j : Nat) (inside : j < table.length), flash (UInt16.ofNat j) = table[j]

theorem Flash.Holds.of_getElem? {flash : Flash} {table : List Nat} (holds : flash.Holds (table.map UInt8.ofNat))
    {i value : Nat} (found : table[i]? = some value) : flash (UInt16.ofNat i) = UInt8.ofNat value := by
  obtain ⟨inside, listed⟩ := List.getElem?_eq_some_iff.mp found
  rw [holds i (by rwa [List.length_map]), List.getElem_map, listed]

theorem Flash.exists_holds {table : List UInt8} (short : table.length ≤ 65536) :
    ∃ flash : Flash, flash.Holds table := by
  refine ⟨fun address => table.getD address.toNat 0, ?_⟩
  intro j inside
  have small : j % 65536 = j := Nat.mod_eq_of_lt (by omega)
  show table.getD (UInt16.ofNat j).toNat 0 = table[j]
  rw [UInt16.toNat_ofNat', small, List.getD_eq_getElem _ _ inside]

/-- What a drawing function does: it sends bytes to a display, as commands or as data, and reads a table. -/
inductive Action where
  | command (byte : UInt8)
  | data (byte : UInt8)
  | fetch (offset : UInt16)
deriving DecidableEq

def Action.sent : Action → Option UInt8
  | .data byte => some byte
  | .command _ | .fetch _ => none

def Action.fetched : Action → Option UInt16
  | .fetch offset => some offset
  | .command _ | .data _ => none

def Action.Commands : Action → Prop
  | .command _ => True
  | .data _ | .fetch _ => False

def collect (sent : List UInt8) : Action → List UInt8
  | .command _ => []
  | .data byte => sent ++ [byte]
  | .fetch _ => sent

/-- The data bytes behind the last command. -/
def payload (actions : List Action) : List UInt8 := actions.foldl collect []

/-- Pixels of sixteen bits, the high byte first. -/
def words : List UInt8 → List UInt16
  | high :: low :: rest => Register.word high low :: words rest
  | _ => []

theorem foldl_collect {actions : List Action} (silent : ∀ a ∈ actions, ¬ a.Commands) (before : List UInt8) :
    actions.foldl collect before = before ++ actions.filterMap Action.sent := by
  induction actions generalizing before with
  | nil => simp
  | cons a actions ih =>
    have later := ih (fun other member => silent other (by simp [member]))
    cases a with
    | command byte => exact absurd trivial (silent (.command byte) (by simp))
    | data byte =>
      rw [List.foldl_cons, later]
      simp [collect, Action.sent]
    | fetch offset =>
      rw [List.foldl_cons, later]
      rfl

theorem payload_command (before : List Action) (byte : UInt8) {after : List Action}
    (silent : ∀ a ∈ after, ¬ a.Commands) :
    payload (before ++ .command byte :: after) = after.filterMap Action.sent := by
  rw [payload, List.foldl_append, List.foldl_cons, foldl_collect silent]
  rfl

end Minimus32.Display
