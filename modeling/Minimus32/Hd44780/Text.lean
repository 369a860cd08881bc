import Mathlib.Data.List.GetD
import Minimus32.Hd44780.Session

namespace Minimus32.Hd44780

/-- A memory with a text in it. -/
def put (memory : Nat → UInt8) (a : Nat) (text : List UInt8) : Nat → UInt8 := fun x =>
  if a ≤ x ∧ x < a + text.length then text.getD (x - a) 0 else memory x

theorem put_nil (memory : Nat → UInt8) (a : Nat) : put memory a [] = memory := by
  funext x
  exact if_neg (by rw [List.length_nil]; omega)

theorem put_cons (memory : Nat → UInt8) (a : Nat) (c : UInt8) (text : List UInt8) :
    put (fun x => if x = a then c else memory x) (a + 1) text = put memory a (c :: text) := by
  funext x
  unfold put
  rw [List.length_cons]
  by_cases first : x = a
  · subst first
    rw [if_neg (by omega), if_pos (show x ≤ x ∧ x < x + (text.length + 1) by omega), Nat.sub_self,
      List.getD_cons_zero]
    exact if_pos rfl
  · by_cases later : a + 1 ≤ x ∧ x < a + 1 + text.length
    · rw [if_pos later, if_pos (by omega), show x - a = (x - (a + 1)) + 1 by omega, List.getD_cons_succ]
    · rw [if_neg later, if_neg (show ¬(a ≤ x ∧ x < a + (text.length + 1)) by omega)]
      exact if_neg first

/-- A place of the memory with room for so many characters in its line. -/
def Fits (a n : Nat) : Prop := a + n ≤ 0x28 ∨ 0x40 ≤ a ∧ a + n ≤ 0x68

namespace Registers

variable {r : Registers} {cgram ddram : Nat → UInt8}

/-- A display of two lines that is switched on, with these memories, and takes characters one behind the other. -/
structure Shows (cgram ddram : Nat → UInt8) (r : Registers) : Prop where
  graphics : r.cgram = cgram
  characters : r.ddram = ddram
  increment : r.increment = true
  still : r.shifting = false
  home : r.shift = 0
  on : r.on = true
  twoLines : r.twoLines = true

theorem Shows.shown (shows : r.Shows cgram ddram) (line : Nat) {column : Nat} (inside : column < 40) :
    r.shown line column = some (ddram (0x40 * line + column)) := by
  rw [Registers.shown, if_pos shows.on, shows.characters, shows.home, Nat.add_zero, Nat.mod_eq_of_lt inside]

theorem executeAll_append (r : Registers) (front back : List (Bool × UInt8)) :
    r.executeAll (front ++ back) = (r.executeAll front).executeAll back := List.foldl_append

theorem data_ddram (shows : r.Shows cgram ddram) (inDdram : r.inCgram = false) (byte : UInt8) :
    (r.data byte).Shows cgram (fun x => if x = r.address then byte else ddram x) ∧
    (r.data byte).inCgram = false ∧ (r.data byte).address = r.nextAddress := by
  rcases r with ⟨ddram, cgram, address, inCgram, increment, shifting, shift, on, cursor, blink, twoLines⟩
  obtain rfl : inCgram = false := inDdram
  obtain rfl : increment = true := shows.increment
  obtain rfl : shifting = false := shows.still
  obtain rfl : ddram = _ := shows.characters
  exact ⟨⟨shows.graphics, rfl, rfl, rfl, shows.home, shows.on, shows.twoLines⟩, rfl, rfl⟩

theorem data_cgram (shows : r.Shows cgram ddram) (selected : r.inCgram = true) (byte : UInt8) :
    (r.data byte).Shows (fun x => if x = r.address then byte else cgram x) ddram ∧
    (r.data byte).inCgram = true ∧ (r.data byte).address = r.nextAddress := by
  rcases r with ⟨ddram, cgram, address, inCgram, increment, shifting, shift, on, cursor, blink, twoLines⟩
  obtain rfl : inCgram = true := selected
  obtain rfl : increment = true := shows.increment
  obtain rfl : shifting = false := shows.still
  obtain rfl : cgram = _ := shows.graphics
  exact ⟨⟨rfl, shows.characters, rfl, rfl, shows.home, shows.on, shows.twoLines⟩, rfl, rfl⟩

theorem Shows.line {text : List UInt8} (shows : r.Shows cgram ddram) (inDdram : r.inCgram = false)
    (fits : Fits r.address text.length) :
    (r.executeAll (text.map (true, ·))).Shows cgram (put ddram r.address text) := by
  induction text generalizing r ddram with
  | nil =>
    rw [put_nil]
    exact shows
  | cons c text ih =>
    rw [List.length_cons, Fits] at fits
    have stored := data_ddram shows inDdram c
    rw [← put_cons]
    show ((r.data c).executeAll (text.map (true, ·))).Shows _ _
    by_cases last : text = []
    · subst last
      rw [put_nil]
      exact stored.1
    · have some := List.length_pos_iff.mpr last
      have next : (r.data c).address = r.address + 1 := by
        rw [stored.2.2, nextAddress, inDdram, shows.twoLines]
        show (if r.address = 0x27 then _ else if r.address = 0x67 then _ else (r.address + 1) % 128) = _
        rw [if_neg (by omega), if_neg (by omega)]
        omega
      rw [← next]
      apply ih stored.1 stored.2.1
      rw [next, Fits]
      omega

theorem Shows.graphicsText {bytes : List UInt8} (shows : r.Shows cgram ddram) (inCgram : r.inCgram = true)
    (fits : r.address + bytes.length ≤ 64) :
    (r.executeAll (bytes.map (true, ·))).Shows (put cgram r.address bytes) ddram := by
  induction bytes generalizing r cgram with
  | nil =>
    rw [put_nil]
    exact shows
  | cons byte bytes ih =>
    rw [List.length_cons] at fits
    have stored := data_cgram shows inCgram byte
    rw [← put_cons]
    show ((r.data byte).executeAll (bytes.map (true, ·))).Shows _ _
    by_cases last : bytes = []
    · subst last
      rw [put_nil]
      exact stored.1
    · have some := List.length_pos_iff.mpr last
      have next : (r.data byte).address = r.address + 1 := by
        rw [stored.2.2, nextAddress, inCgram]
        show (r.address + 1) % 64 = _
        omega
      rw [← next]
      apply ih stored.1 stored.2.1
      rw [next]
      omega

theorem command_customChar {index : UInt8} (inside : index < 8) (r : Registers) :
    r.command ((index <<< 3) + 64) = { r with inCgram := true, address := 8 * index.toNat } := by
  have every : ∀ index : BitVec 8, (⟨index⟩ : UInt8) < 8 → Register.bit (((⟨index⟩ : UInt8) <<< 3) + 64) 7 = false ∧
      Register.bit (((⟨index⟩ : UInt8) <<< 3) + 64) 6 = true ∧
      ((((⟨index⟩ : UInt8) <<< 3) + 64) &&& 0x3f).toNat = 8 * (⟨index⟩ : UInt8).toNat := by decide +kernel
  have bits := every index.toBitVec inside
  rw [command, bits.1, if_neg Bool.false_ne_true, if_pos bits.2.1, bits.2.2]

theorem Shows.setCustomChar {index : UInt8} {graphics : List UInt8} (shows : r.Shows cgram ddram) (inside : index < 8)
    (eight : graphics.length = 8) :
    (r.executeAll ((false, (index <<< 3) + 64) :: graphics.map (true, ·))).Shows
      (put cgram (8 * index.toNat) graphics) ddram := by
  have below : index.toNat < 8 := UInt8.lt_iff_toNat_lt.mp inside
  show ((r.command ((index <<< 3) + 64)).executeAll _).Shows _ _
  rw [command_customChar inside]
  apply @graphicsText { r with inCgram := true, address := 8 * index.toNat } cgram ddram graphics
    ⟨shows.1, shows.2, shows.3, shows.4, shows.5, shows.6, shows.7⟩ rfl
  show 8 * index.toNat + graphics.length ≤ 64
  omega

end Registers

open Interaction Program

variable {α : Type} {polls a : Nat} {bench : Bench} {cgram ddram : Nat → UInt8} {post : α → Bench → Prop}

end Minimus32.Hd44780
