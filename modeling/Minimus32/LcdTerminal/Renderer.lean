import Minimus32.Ili9341.Glyph

namespace Minimus32.LcdTerminal

open Display Ili9341

/-- The loop of `drawChar`: two bits a round, counted in one byte. `none` when the fuel does not last. -/
def drawLoop (flash : Flash) (fg bg : UInt16) : Nat → UInt8 → Reader → Option (List Action)
  | 0, _, _ => none
  | fuel + 1, bitCount, r =>
    if bitCount = 0 then some []
    else
      let colourA := if r.currentByte &&& 128 ≠ 0 then fg else bg
      let colourB := if r.currentByte &&& 64 ≠ 0 then fg else bg
      (drawLoop flash fg bg fuel (bitCount - 2) (r.next flash 2).2).map fun rest =>
        (r.next flash 2).1 ++ .data ((0xff : UInt16) &&& (colourA >>> 4)).toUInt8 ::
          .data (((colourA &&& 0xf) <<< 4) ||| ((0x0f : UInt16) &&& (colourB >>> 8))).toUInt8 ::
          .data (colourB &&& 0xff).toUInt8 :: rest

/-- `CASET`, `PASET` and `RAMWR` -/
def caset : UInt8 := 0x2A

def paset : UInt8 := 0x2B

def ramwr : UInt8 := 0x2C

def drawChar (fuel : Nat) (x y character : UInt8) (font : Bitfont) (fg bg : UInt16) : Option (List Action) :=
  (drawLoop font.bits fg bg fuel (font.width * font.height) (Reader.load font.bits (font.offset character))).map
    fun loop => [.command caset, .data x, .data (x + font.width - 1), .command paset, .data y,
      .data (y + font.height - 1)] ++ .command ramwr :: .fetch (font.offset character) :: loop

/-- Two pixels of twelve bits from every three bytes. -/
def unpack12 : List UInt8 → List UInt16
  | a :: b :: c :: rest =>
    UInt16.ofNat (16 * a.toNat + b.toNat / 16) :: UInt16.ofNat (256 * (b.toNat % 16) + c.toNat) :: unpack12 rest
  | _ => []

def pack12 (a b : UInt16) : List UInt8 :=
  [((0xff : UInt16) &&& (a >>> 4)).toUInt8, (((a &&& 0xf) <<< 4) ||| ((0x0f : UInt16) &&& (b >>> 8))).toUInt8,
    (b &&& 0xff).toUInt8]

theorem toNat_pack12_middle (a : UInt16) {b : UInt16} (smallB : b.toNat < 4096) :
    ((((a &&& 0xf) <<< 4) ||| ((0x0f : UInt16) &&& (b >>> 8))).toUInt8).toNat = a.toNat % 16 * 16 + b.toNat / 256 := by
  have low : (a &&& 0xf).toNat = a.toNat % 16 := by
    rw [UInt16.toNat_and]
    exact Nat.and_two_pow_sub_one_eq_mod _ 4
  have shifted : ((a &&& 0xf) <<< 4).toNat = (a.toNat % 16) <<< 4 := by
    rw [UInt16.toNat_shiftLeft, low]
    change (a.toNat % 16) <<< 4 % 65536 = _
    rw [Nat.shiftLeft_eq]
    omega
  have moved : (b >>> 8).toNat = b.toNat / 256 := by simp [Nat.shiftRight_eq_div_pow]
  have high : ((0x0f : UInt16) &&& (b >>> 8)).toNat = b.toNat / 256 := by
    rw [UInt16.toNat_and, moved, Nat.and_comm]
    refine (Nat.and_two_pow_sub_one_eq_mod _ 4).trans ?_
    omega
  rw [UInt16.toNat_toUInt8, UInt16.toNat_or, shifted, high, ← Nat.shiftLeft_add_eq_or_of_lt (by omega),
    Nat.shiftLeft_eq]
  omega

theorem unpack12_pack12 {a b : UInt16} (smallA : a.toNat < 4096) (smallB : b.toNat < 4096) (rest : List UInt8) :
    unpack12 (pack12 a b ++ rest) = a :: b :: unpack12 rest := by
  have first : ((0xff : UInt16) &&& (a >>> 4)).toUInt8.toNat = a.toNat / 16 := by
    have moved : (a >>> 4).toNat = a.toNat / 16 := by simp [Nat.shiftRight_eq_div_pow]
    rw [UInt16.toNat_toUInt8, UInt16.toNat_and, moved, Nat.and_comm]
    rw [show UInt16.toNat 0xff = 2 ^ 8 - 1 from rfl, Nat.and_two_pow_sub_one_eq_mod]
    omega
  have last : (b &&& 0xff).toUInt8.toNat = b.toNat % 256 := by
    rw [UInt16.toNat_toUInt8, UInt16.toNat_and, show UInt16.toNat 0xff = 2 ^ 8 - 1 from rfl,
      Nat.and_two_pow_sub_one_eq_mod]
    omega
  have middle := toNat_pack12_middle a smallB
  show unpack12 (_ :: _ :: _ :: rest) = _
  rw [unpack12, first, middle, last]
  congr 1
  · rw [← UInt16.toNat_inj, UInt16.toNat_ofNat']
    omega
  · congr 1
    rw [← UInt16.toNat_inj, UInt16.toNat_ofNat']
    omega

def colour (fg bg : UInt16) (set : Bool) : UInt16 := if set then fg else bg

/-- What `n` rounds of the loop do from bit `p` on. -/
structure Rendered (flash : Flash) (fg bg offset : UInt16) (p n : Nat) (actions : List Action) : Prop where
  silent : ∀ a ∈ actions, ¬ a.Commands
  sent : actions.filterMap Action.sent = (List.range n).flatMap fun j =>
    pack12 (colour fg bg (flash.bit offset (p + 2 * j))) (colour fg bg (flash.bit offset (p + 2 * j + 1)))
  fetched : actions.filterMap Action.fetched =
    (List.range' (p / 8 + 1) ((p + 2 * n) / 8 - p / 8)).map fun b => offset + UInt16.ofNat b

section

variable {flash : Flash} {fg bg offset : UInt16}

theorem Rendered.next {p n : Nat} {r : Reader} (reads : r.At flash offset p) (even : p % 2 = 0) {rest : List Action}
    (rendered : Rendered flash fg bg offset (p + 2) n rest) :
    Rendered flash fg bg offset p (n + 1) ((r.next flash 2).1 ++
      (pack12 (colour fg bg (flash.bit offset p)) (colour fg bg (flash.bit offset (p + 1)))).map .data ++ rest) := by
  have room : p % 8 + (2 : UInt8).toNat ≤ 8 := by
    change p % 8 + 2 ≤ 8
    omega
  constructor
  · intro a member
    rcases List.mem_append.mp member with here | later
    · rcases List.mem_append.mp here with fetch | byte
      · exact r.next_silent flash 2 a fetch
      · obtain ⟨_, _, rfl⟩ := List.mem_map.mp byte
        exact id
    · exact rendered.silent a later
  · have shifted (j : Nat) : p + 2 + 2 * j = p + 2 * (j + 1) := by omega
    have data (bytes : List UInt8) : (bytes.map Action.data).filterMap Action.sent = bytes := by
      rw [List.filterMap_map]
      exact List.filterMap_some
    rw [List.filterMap_append, List.filterMap_append, r.sent_next, data, rendered.sent, List.range_succ_eq_map,
      List.flatMap_cons, List.flatMap_map]
    simp only [shifted]
    rfl
  · have data (bytes : List UInt8) : (bytes.map Action.data).filterMap Action.fetched = [] := by
      rw [List.filterMap_map]
      exact List.filterMap_eq_nil_iff.mpr (fun _ _ => rfl)
    have joined := List.range'_append_1 (s := p / 8 + 1) (m := (p + 2) / 8 - p / 8)
      (n := (p + 2 * (n + 1)) / 8 - (p + 2) / 8)
    rw [show p / 8 + 1 + ((p + 2) / 8 - p / 8) = (p + 2) / 8 + 1 by omega,
      show (p + 2) / 8 - p / 8 + ((p + 2 * (n + 1)) / 8 - (p + 2) / 8) = (p + 2 * (n + 1)) / 8 - p / 8 by omega]
      at joined
    rw [List.filterMap_append, List.filterMap_append, reads.fetched_next room, data, rendered.fetched, List.append_nil,
      ← joined, List.map_append, show p + 2 + 2 * n = p + 2 * (n + 1) by omega]
    rfl

/-- With an odd count the loop steps over zero and goes on for ever. -/
theorem drawLoop_odd (fuel : Nat) {bitCount : UInt8} (odd : bitCount.toNat % 2 = 1) (r : Reader) :
    drawLoop flash fg bg fuel bitCount r = none := by
  induction fuel generalizing bitCount r with
  | zero => rfl
  | succ fuel ih =>
    have more : bitCount ≠ 0 := by
      rintro rfl
      exact absurd odd (by decide)
    have stillOdd : (bitCount - 2).toNat % 2 = 1 := by
      have bound := bitCount.toNat_lt
      rw [UInt8.toNat_sub]
      change (256 - 2 + bitCount.toNat) % 256 % 2 = 1
      omega
    rw [drawLoop, if_neg more]
    dsimp only
    rw [ih stillOdd, Option.map_none]

/-- With an even count it ends, and has sent the colours of the bits two by two. -/
theorem drawLoop_even (n : Nat) {bitCount : UInt8} (count : bitCount.toNat = 2 * n) {p : Nat} {r : Reader}
    (reads : r.At flash offset p) (even : p % 2 = 0) :
    ∃ actions, drawLoop flash fg bg (n + 1) bitCount r = some actions ∧ Rendered flash fg bg offset p n actions := by
  induction n generalizing bitCount p r with
  | zero =>
    have done : bitCount = 0 := by
      rw [← UInt8.toNat_inj, count]
      rfl
    exact ⟨[], by rw [drawLoop, if_pos done], by simp, rfl, by simp⟩
  | succ n ih =>
    have bound := bitCount.toNat_lt
    have more : bitCount ≠ 0 := by
      rintro rfl
      change 0 = _ at count
      omega
    have left : (bitCount - 2).toNat = 2 * n := by
      rw [UInt8.toNat_sub]
      change (256 - 2 + bitCount.toNat) % 256 = _
      omega
    have room : p % 8 + (2 : UInt8).toNat ≤ 8 := by
      change p % 8 + 2 ≤ 8
      omega
    have evenNext : (p + (2 : UInt8).toNat) % 2 = 0 := by
      change (p + 2) % 2 = 0
      omega
    obtain ⟨rest, done, rendered⟩ := ih left (reads.next room (by decide)) evenNext
    refine ⟨_, ?_, rendered.next reads even⟩
    rw [drawLoop, if_neg more]
    dsimp only
    rw [done, if_congr reads.top_bit rfl rfl, if_congr (reads.second_bit (by omega)) rfl rfl, List.append_assoc]
    rfl

end

end Minimus32.LcdTerminal
