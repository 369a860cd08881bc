import Minimus32.Fonts.CreateVerticalByteFont
import Minimus32.Pcd8544.Driver

namespace Minimus32.Pcd8544

open Display Raster

structure Board.Active (b : Board) : Prop where
  selected : b.selected = true
  dataMode : b.command = false
  mode : b.controller.Vertical

theorem Board.Active.spiIo {b : Board} (active : b.Active) (txData : UInt8) :
    b.spiIo txData = { b with controller := b.controller.data txData } := by
  rw [Board.spiIo, if_pos active.selected, active.dataMode]
  rfl

/-- `sendBytes` fills a column downwards from the address. -/
theorem sendBytes_patched (flash : Flash) {n : Nat} {b : Board} (active : b.Active) {x y : Nat} (column : x < 84)
    (rows : y + n ≤ 6) (address : 0 < n → b.controller.x = x ∧ b.controller.y = y) (bytes : UInt16) :
    (sendBytes flash n bytes b).1.Active ∧ (sendBytes flash n bytes b).2 = bytes + UInt16.ofNat n ∧
      Patched b.controller.ram (sendBytes flash n bytes b).1.controller.ram x 1 y n
        fun _ j => flash (bytes + UInt16.ofNat j) := by
  induction n generalizing b y bytes with
  | zero => exact ⟨active, (UInt16.add_zero bytes).symm, .refl_height _ _ _ _ _⟩
  | succ n ih =>
    obtain ⟨atX, atY⟩ := address (Nat.zero_lt_succ n)
    have still : Board.Active { b with controller := b.controller.data (flash bytes) } :=
      ⟨active.selected, active.dataMode, active.mode.data _⟩
    have below : 0 < n → (b.controller.data (flash bytes)).x = x ∧ (b.controller.data (flash bytes)).y = y + 1 := by
      intro more
      obtain ⟨sameX, nextY⟩ := active.mode.data_address (flash bytes) (by omega)
      exact ⟨sameX.trans atX, by rw [nextY, atY]⟩
    have next (j : Nat) : bytes + UInt16.ofNat (1 + j) = bytes + 1 + UInt16.ofNat j := by
      rw [UInt16.ofNat_add, UInt16.add_assoc]
      rfl
    have first := b.controller.data_patched (flash bytes) (by omega) (by omega)
    rw [atX, atY] at first
    obtain ⟨after, pointer, rest⟩ := ih still (by omega) below (bytes + 1)
    rw [sendBytes, active.spiIo]
    refine ⟨after, ?_, ?_⟩
    · rw [pointer, Nat.add_comm n 1, next]
    · apply first.below rest (Nat.add_comm n 1)
      · intro _ j top
        rw [Nat.lt_one_iff.mp top, show UInt16.ofNat 0 = 0 from rfl, UInt16.add_zero]
      · intro _ j _
        rw [next]

theorem printColumn_patched (flash : Flash) {b : Board} (active : b.Active) {x y : Nat} {height : UInt8}
    (column : x < 84) (rows : y + height.toNat ≤ 6) (bytes : UInt16) :
    (printColumn flash (UInt8.ofNat y + cmdSetY) height (UInt8.ofNat x + cmdSetX) bytes b).1.Active ∧
      (printColumn flash (UInt8.ofNat y + cmdSetY) height (UInt8.ofNat x + cmdSetX) bytes b).2 =
        bytes + UInt16.ofNat height.toNat ∧
      Patched b.controller.ram
        (printColumn flash (UInt8.ofNat y + cmdSetY) height (UInt8.ofNat x + cmdSetX) bytes b).1.controller.ram
        x 1 y height.toNat fun _ j => flash (bytes + UInt16.ofNat j) := by
  have addressed : ({ b with command := true }.spiIo (UInt8.ofNat y + cmdSetY)).spiIo (UInt8.ofNat x + cmdSetX) =
      { b with command := true, controller := { b.controller with y := y, x := x } } := by
    have setY := active.mode.setY (show y < 8 by omega)
    have setX := Controller.Vertical.setX (c := { b.controller with y := y }) ⟨active.mode.vertical, active.mode.basic⟩
      column
    have first : { b with command := true }.spiIo (UInt8.ofNat y + cmdSetY) =
        { b with command := true, controller := { b.controller with y := y } } := by
      rw [Board.spiIo, if_pos active.selected]
      exact congrArg (fun c => Board.mk b.spiBusLock b.selected true c) setY
    rw [first, Board.spiIo, if_pos active.selected]
    exact congrArg (fun c => Board.mk b.spiBusLock b.selected true c) setX
  rw [printColumn, addressed]
  exact sendBytes_patched flash (b := { b with command := false, controller := { b.controller with y := y, x := x } })
    ⟨active.selected, rfl, active.mode.vertical, active.mode.basic⟩ column rows (fun _ => ⟨rfl, rfl⟩) bytes

theorem printColumns_patched (flash : Flash) {n : Nat} {b : Board} (active : b.Active) {x y : Nat} {height : UInt8}
    (columns : x + n ≤ 84) (rows : y + height.toNat ≤ 6) (bytes : UInt16) :
    (printColumns flash (UInt8.ofNat y + cmdSetY) height n (UInt8.ofNat x + cmdSetX) bytes b).1.Active ∧
      (printColumns flash (UInt8.ofNat y + cmdSetY) height n (UInt8.ofNat x + cmdSetX) bytes b).2 =
        UInt8.ofNat (x + n) + cmdSetX ∧
      Patched b.controller.ram
        (printColumns flash (UInt8.ofNat y + cmdSetY) height n (UInt8.ofNat x + cmdSetX) bytes b).1.controller.ram
        x n y height.toNat fun c j => flash (bytes + UInt16.ofNat (height.toNat * c + j)) := by
  induction n generalizing b x bytes with
  | zero => exact ⟨active, rfl, .refl_width _ _ _ _ _⟩
  | succ n ih =>
    obtain ⟨still, pointer, first⟩ := printColumn_patched flash active (show x < 84 by omega) rows bytes
    have right : UInt8.ofNat x + cmdSetX + 1 = UInt8.ofNat (x + 1) + cmdSetX := by
      rw [UInt8.ofNat_add, UInt8.add_assoc, UInt8.add_comm cmdSetX, ← UInt8.add_assoc]
      rfl
    obtain ⟨after, position, rest⟩ := ih still (x := x + 1) (by omega) (bytes + UInt16.ofNat height.toNat)
    rw [printColumns, right, pointer]
    refine ⟨after, ?_, ?_⟩
    · rw [position, Nat.add_assoc, Nat.add_comm 1 n]
    · apply first.beside rest (Nat.add_comm n 1)
      · intro c j left
        rw [Nat.lt_one_iff.mp left, Nat.mul_zero, Nat.zero_add]
      · intro c j _
        rw [Nat.mul_add, Nat.mul_one, Nat.add_assoc, UInt16.ofNat_add, ← UInt16.add_assoc]

def VerticalByteFont.address (font : VerticalByteFont) (data : UInt8) : UInt16 :=
  (data.toUInt16 - font.start.toUInt16) * (font.width.toUInt16 * font.height.toUInt16)

theorem printString_patched (font : VerticalByteFont) {text : List UInt8} (rest : List UInt8)
    (nonzero : ∀ data ∈ text, data ≠ 0) {b : Board} (active : b.Active) {x y : Nat}
    (columns : x + font.width.toNat * text.length ≤ 84) (rows : y + font.height.toNat ≤ 6) :
    ∃ after, printString font (UInt8.ofNat y + cmdSetY) (text ++ 0 :: rest) (UInt8.ofNat x + cmdSetX) b = some after ∧
      after.Active ∧
      Patched b.controller.ram after.controller.ram x (font.width.toNat * text.length) y font.height.toNat fun k j =>
        font.bytes (font.address (text.getD (k / font.width.toNat) 0) +
          UInt16.ofNat (font.height.toNat * (k % font.width.toNat) + j)) := by
  induction text generalizing b x with
  | nil => exact ⟨b, rfl, active, .refl_width _ _ _ _ _⟩
  | cons data text ih =>
    rw [List.length_cons, Nat.mul_succ] at columns
    obtain ⟨still, position, first⟩ :=
      printColumns_patched font.bytes active (show x + font.width.toNat ≤ 84 by omega) rows (font.address data)
    obtain ⟨after, done, activeAfter, others⟩ :=
      ih (fun other member => nonzero other (by simp [member])) still (x := x + font.width.toNat) (by omega)
    refine ⟨after, ?_, activeAfter, ?_⟩
    · rw [List.cons_append, printString, if_neg (nonzero data (by simp))]
      dsimp only
      rw [← VerticalByteFont.address, position]
      exact done
    · rw [List.length_cons]
      apply first.beside others (by rw [Nat.mul_succ, Nat.add_comm])
      · intro k j inside
        rw [Nat.div_eq_of_lt inside, Nat.mod_eq_of_lt inside]
        rfl
      · intro k j inside
        have wide : 0 < font.width.toNat := Nat.pos_of_mul_pos_right (Nat.zero_lt_of_lt inside)
        rw [Nat.add_mod_left, Nat.add_div_left _ wide]
        rfl

end Minimus32.Pcd8544
