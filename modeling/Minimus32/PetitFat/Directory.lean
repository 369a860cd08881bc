import Minimus32.PetitFat.Chain

namespace Minimus32.PetitFat

open Interaction

/-- The directory object. `fn` has the eleven characters of the name, `last` is the status byte behind them. -/
structure Dir where
  index : Nat
  fn : List UInt8
  last : Bool
  sclust : Nat
  clust : Nat
  sect : Nat

/-- The difference of the first two characters that are not the same; `char` has a sign. -/
def memCmp : List UInt8 → List UInt8 → Nat → Int
  | dst, src, cnt + 1 =>
    let r := (dst.headD 0).toInt8.toInt - (src.headD 0).toInt8.toInt
    if r = 0 then memCmp dst.tail src.tail cnt else r
  | _, _, 0 => 0

def dirRewind (v : Volume) (dj : Dir) : FResult × Dir :=
  if dj.sclust = 1 ∨ v.nFatent ≤ dj.sclust then (.diskErr, { dj with index := 0 })
  else (.ok, { dj with
    index := 0, clust := dj.sclust, sect := if dj.sclust ≠ 0 then clust2sect v dj.sclust else v.dirbase })

def dirNext (v : Volume) (dj : Dir) : Disk (FResult × Dir) :=
  let i := word (dj.index + 1)
  if i = 0 ∨ dj.sect = 0 then pure (.noFile, dj)
  else if i % 16 ≠ 0 then pure (.ok, { dj with index := i })
  else
    let sect := dword (dj.sect + 1)
    if dj.clust = 0 then
      pure (if v.nRootdir ≤ i then (.noFile, { dj with sect := sect }) else (.ok, { dj with sect := sect, index := i }))
    else if i / 16 &&& (v.csize - 1) ≠ 0 then pure (.ok, { dj with sect := sect, index := i })
    else do
      let clst ← getFat v dj.clust
      pure (if clst ≤ 1 then (.diskErr, { dj with sect := sect })
        else if v.nFatent ≤ clst then (.noFile, { dj with sect := sect })
        else (.ok, { dj with clust := clst, sect := clust2sect v clst, index := i }))

/-- The volume label and long names are no objects to find. -/
def isVolume (dir : List UInt8) : Bool := dir.getD 11 0 &&& 0x08 ≠ 0

def isDir (dir : List UInt8) : Bool := dir.getD 11 0 &&& 0x10 ≠ 0

/-- An entry that is free again. dir_find does not look at the mark, which is the first character of the name. -/
def isDeleted (dir : List UInt8) : Bool := dir.getD 0 0 = 0xe5

/-- The loop of dir_find, with the number of entries until the index has gone round. -/
def dirFindLoop (v : Volume) : Nat → Dir → List UInt8 → Disk (FResult × Dir × List UInt8)
  | 0, dj, dir => pure (.noFile, dj, dir)
  | n + 1, dj, dir => do
    let read ← diskReadp dj.sect (dj.index % 16 * 32) 32
    match read with
    | none => pure (.diskErr, dj, dir)
    | some dir =>
      if dir.getD 0 0 = 0 then pure (.noFile, dj, dir)
      else if isVolume dir = false ∧ memCmp dir dj.fn 11 = 0 then pure (.ok, dj, dir)
      else do
        let next ← dirNext v dj
        match next.1 with
        | .ok => dirFindLoop v n next.2 dir
        | res => pure (res, next.2, dir)

def dirFind (v : Volume) (dj : Dir) (dir : List UInt8) : Disk (FResult × Dir × List UInt8) :=
  match dirRewind v dj with
  | (.ok, dj) => dirFindLoop v 65536 dj dir
  | (res, dj) => pure (res, dj, dir)

theorem toInt_sub_eq_zero (d s : UInt8) : d.toInt8.toInt - s.toInt8.toInt = 0 ↔ d = s := by
  rw [Int.sub_eq_zero, Int8.toInt_inj]
  constructor
  · intro same
    simpa using congrArg Int8.toUInt8 same
  · intro same
    rw [same]

theorem memCmp_eq_zero {dst src : List UInt8} {cnt : Nat} (long : cnt ≤ dst.length) (enough : cnt ≤ src.length) :
    memCmp dst src cnt = 0 ↔ dst.take cnt = src.take cnt := by
  induction cnt generalizing dst src with
  | zero => simp [memCmp]
  | succ cnt ih =>
    match dst, src with
    | d :: dst, s :: src =>
      have later := ih (show cnt ≤ dst.length by simpa using long) (show cnt ≤ src.length by simpa using enough)
      simp only [memCmp, List.headD_cons, List.tail_cons, List.take_succ_cons, List.cons.injEq]
      by_cases equal : d = s
      · simp [equal, later]
      · have other := mt (toInt_sub_eq_zero d s).mp equal
        simp [equal, other]

/-- Where a directory lies: in the area of the root, or on clusters. -/
inductive Extent where
  | root
  | chain (clusters : List Nat)

namespace Extent

def sectors (v : Volume) : Extent → List Nat
  | root => (List.range (v.nRootdir / 16)).map (v.dirbase + ·)
  | chain clusters => v.sectorsOf clusters

def Starts : Extent → Nat → Prop
  | root, start => start = 0
  | chain clusters, start => clusters[0]? = some start

def Valid (v : Volume) (entries : List Nat) : Extent → Prop
  | root => 0 < v.nRootdir
  | chain clusters => v.Chain entries clusters ∧
    ∀ c, clusters.getLast? = some c → ∃ mark, entries[c]? = some mark ∧ v.nFatent ≤ mark ∧ 1 < mark

/-- The current cluster at an index, which is zero in the root. -/
def Current (v : Volume) (index clust : Nat) : Extent → Prop
  | root => clust = 0
  | chain clusters => clusters[index / 16 / v.csize]? = some clust

end Extent

/-- The directory object stands at an entry of the directory. -/
structure Dir.At (dj : Dir) (v : Volume) (extent : Extent) : Prop where
  index : dj.index < 65536
  sector : (extent.sectors v)[dj.index / 16]? = some dj.sect
  current : extent.Current v dj.index dj.clust

/-- What the search in a directory leaves alone. -/
structure Dir.Same (dj after : Dir) : Prop where
  fn : after.fn = dj.fn
  last : after.last = dj.last
  sclust : after.sclust = dj.sclust

variable {medium : Medium} {faulty : Prop} {v : Volume} {entries : List Nat} {extent : Extent} {dj : Dir}

theorem Extent.area_of_mem (formatted : v.Formatted medium entries) (valid : extent.Valid v entries) {sector : Nat}
    (member : sector ∈ extent.sectors v) : v.area sector := by
  cases extent with
  | root =>
    obtain ⟨k, small, rfl⟩ : ∃ k < v.nRootdir / 16, v.dirbase + k = sector := by simpa [sectors] using member
    have fat := formatted.fat_room
    have root := formatted.root_room
    constructor <;> omega
  | chain clusters => exact valid.1.area_of_mem formatted member

theorem Extent.length_sectors (formatted : v.Formatted medium entries) : 16 * (sectors v root).length = v.nRootdir := by
  rw [sectors, List.length_map, List.length_range]
  exact Nat.mul_div_cancel' formatted.aligned

/-- The next entry is in the next sector of the root. -/
theorem nextSector_root (formatted : v.Formatted medium entries) (located : dj.At v .root)
    (boundary : (dj.index + 1) % 16 = 0) (small : dj.index + 1 < 65536) (more : dj.index + 1 < v.nRootdir) :
    ({ dj with sect := dword (dj.sect + 1), index := dj.index + 1 } : Dir).At v .root := by
  have index : dj.index / 16 + 1 < v.nRootdir / 16 := by
    have aligned := formatted.aligned
    omega
  have here : dj.sect = v.dirbase + dj.index / 16 := by
    have sector := located.sector
    simp only [Extent.sectors, List.getElem?_map, List.getElem?_range (show dj.index / 16 < v.nRootdir / 16 by omega),
      Option.map_some, Option.some.injEq] at sector
    exact sector.symm
  have next : (Extent.sectors v .root)[dj.index / 16 + 1]? = some (v.dirbase + (dj.index / 16 + 1)) := by
    simp [Extent.sectors, index]
  have valid : Extent.root.Valid v entries := Nat.lt_of_le_of_lt (Nat.zero_le _) more
  have below := formatted.lt_of_area (Extent.area_of_mem formatted valid (List.mem_of_getElem? next))
  refine ⟨small, ?_, located.current⟩
  show (Extent.sectors v .root)[(dj.index + 1) / 16]? = some (dword (dj.sect + 1))
  rw [here, dword_of_lt (by omega), show (dj.index + 1) / 16 = dj.index / 16 + 1 by omega, next]
  rfl

/-- The next entry is in the next sector of the same cluster. -/
theorem nextSector_chain {clusters : List Nat} (formatted : v.Formatted medium entries)
    (chain : v.Chain entries clusters) (located : dj.At v (.chain clusters)) (boundary : (dj.index + 1) % 16 = 0)
    (small : dj.index + 1 < 65536) (inner : (dj.index + 1) / 16 % v.csize ≠ 0) :
    ({ dj with sect := dword (dj.sect + 1), index := dj.index + 1 } : Dir).At v (.chain clusters) := by
  have here : clusters[dj.index / 16 / v.csize]? = some dj.clust := located.current
  have sector : (v.sectorsOf clusters)[dj.index / 16]? = some dj.sect := located.sector
  have step : (dj.index + 1) / 16 = dj.index / 16 + 1 := by omega
  rw [step] at inner
  obtain ⟨same, further⟩ := v.succ_div_csize inner
  have next := Volume.getElem?_sectorsOf (by rw [same]; exact here)
  have below := formatted.lt_of_area (chain.area_of_mem formatted (List.mem_of_getElem? next))
  rw [Volume.getElem?_sectorsOf here, Option.some.injEq] at sector
  refine ⟨small, ?_, ?_⟩
  · show (v.sectorsOf clusters)[(dj.index + 1) / 16]? = some (dword (dj.sect + 1))
    rw [step, next, ← sector, dword_of_lt (by omega), further]
    rfl
  · show clusters[(dj.index + 1) / 16 / v.csize]? = some dj.clust
    rw [step, same]
    exact here

/-- The next entry is in the same sector. -/
theorem nextEntry (located : dj.At v extent) (inner : (dj.index + 1) % 16 ≠ 0) (small : dj.index + 1 < 65536) :
    ({ dj with index := dj.index + 1 } : Dir).At v extent := by
  have same : (dj.index + 1) / 16 = dj.index / 16 := by omega
  refine ⟨small, ?_, ?_⟩
  · show (extent.sectors v)[(dj.index + 1) / 16]? = _
    rw [same]
    exact located.sector
  · show extent.Current v (dj.index + 1) dj.clust
    have current := located.current
    cases extent with
    | root => exact current
    | chain clusters =>
      rw [Extent.Current, same]
      exact current

/-- The next entry is in the next cluster, if there is one. -/
theorem nextCluster_chain {clusters : List Nat} (formatted : v.Formatted medium entries)
    (valid : (Extent.chain clusters).Valid v entries) (located : dj.At v (.chain clusters))
    (boundary : (dj.index + 1) % 16 = 0) (small : dj.index + 1 < 65536) (first : (dj.index + 1) / 16 % v.csize = 0) :
    (getFat v dj.clust).Under (service medium faulty v.area) fun clst =>
      1 < clst ∧ clst < v.nFatent ∧
        ({ dj with clust := clst, sect := clust2sect v clst, index := dj.index + 1 } : Dir).At v (.chain clusters) ∨
      1 < clst ∧ v.nFatent ≤ clst ∧ 16 * (v.sectorsOf clusters).length = dj.index + 1 ∨
      faulty ∧ clst ≤ 1 := by
  have here : clusters[dj.index / 16 / v.csize]? = some dj.clust := located.current
  have bounds := valid.1.valid _ (List.mem_of_getElem? here)
  have step : (dj.index + 1) / 16 = dj.index / 16 + 1 := by omega
  rw [step] at first
  have divides := Nat.dvd_of_mod_eq_zero first
  have further : (dj.index / 16 + 1) / v.csize = dj.index / 16 / v.csize + 1 := by
    rw [Nat.succ_div, if_pos divides]
  apply (getFat_under formatted bounds.1 bounds.2).mono
  intro clst read
  rcases read with entry | ⟨fault, rfl⟩
  · cases follows : clusters[dj.index / 16 / v.csize + 1]? with
    | some next =>
      left
      rw [valid.1.linked _ _ _ here follows, Option.some.injEq] at entry
      subst entry
      have range := valid.1.valid _ (List.mem_of_getElem? follows)
      rw [← further] at follows
      refine ⟨range.1, range.2, small, ?_, ?_⟩
      · show (v.sectorsOf clusters)[(dj.index + 1) / 16]? = some _
        rw [step, Volume.getElem?_sectorsOf follows, first, formatted.clust2sect_eq range.1 range.2, Nat.add_zero]
      · show clusters[(dj.index + 1) / 16 / v.csize]? = some next
        rw [step]
        exact follows
    | none =>
      right
      left
      have count : clusters.length = dj.index / 16 / v.csize + 1 := by
        have inside := (List.getElem?_eq_some_iff.mp here).1
        have outside := List.getElem?_eq_none_iff.mp follows
        omega
      have last : clusters.getLast? = some dj.clust := by
        rw [List.getLast?_eq_getElem?, count, Nat.add_sub_cancel]
        exact here
      obtain ⟨mark, marked, beyond, large⟩ := valid.2 _ last
      rw [marked, Option.some.injEq] at entry
      subst entry
      refine ⟨large, beyond, ?_⟩
      rw [v.length_sectorsOf, count, ← further, Nat.mul_div_cancel' divides]
      omega
  · exact .inr (.inr ⟨fault, Nat.le_refl 1⟩)

theorem dirNext_under (formatted : v.Formatted medium entries) (valid : extent.Valid v entries)
    (located : dj.At v extent) :
    (dirNext v dj).Under (service medium faulty v.area) fun next => dj.Same next.2 ∧
      (next.1 = .ok ∧ next.2.At v extent ∧ next.2.index = dj.index + 1 ∨
        next.1 = .noFile ∧ min (16 * (extent.sectors v).length) 65536 ≤ dj.index + 1 ∨
        faulty ∧ next.1 = .diskErr) := by
  have limit := located.index
  have there := Extent.area_of_mem formatted valid (List.mem_of_getElem? located.sector)
  have boot := formatted.boot
  simp only [dirNext]
  split
  · rename_i done
    have last := there.1
    rw [word] at done
    exact ⟨⟨rfl, rfl, rfl⟩, .inr (.inl ⟨rfl, by omega⟩)⟩
  · rename_i inside
    have small : dj.index + 1 < 65536 := by
      rw [word] at inside
      omega
    rw [word_of_lt small]
    split
    · rename_i inner
      exact ⟨⟨rfl, rfl, rfl⟩, .inl ⟨rfl, nextEntry located inner small, rfl⟩⟩
    · rename_i edge
      have boundary : (dj.index + 1) % 16 = 0 := by omega
      cases extent with
      | root =>
        have zero : dj.clust = 0 := located.current
        rw [if_pos zero]
        apply Program.under_pure
        split
        · rename_i done
          have length := Extent.length_sectors formatted
          exact ⟨⟨rfl, rfl, rfl⟩, .inr (.inl ⟨rfl, by omega⟩)⟩
        · rename_i more
          exact ⟨⟨rfl, rfl, rfl⟩, .inl ⟨rfl, nextSector_root formatted located boundary small (by omega), rfl⟩⟩
      | chain clusters =>
        have bounds := valid.1.valid _ (List.mem_of_getElem? located.current)
        rw [if_neg (by omega), formatted.land_csize]
        split
        · rename_i inner
          exact ⟨⟨rfl, rfl, rfl⟩, .inl ⟨rfl, nextSector_chain formatted valid.1 located boundary small inner, rfl⟩⟩
        · rename_i first
          apply (nextCluster_chain formatted valid located boundary small (by omega)).bind
          intro clst read
          apply Program.under_pure
          rcases read with ⟨large, inside, moved⟩ | ⟨large, outside, whole⟩ | ⟨fault, err⟩
          · rw [if_neg (by omega), if_neg (by omega)]
            exact ⟨⟨rfl, rfl, rfl⟩, .inl ⟨rfl, moved, rfl⟩⟩
          · rw [if_neg (by omega), if_pos outside]
            have length : 16 * ((Extent.chain clusters).sectors v).length = dj.index + 1 := whole
            exact ⟨⟨rfl, rfl, rfl⟩, .inr (.inl ⟨rfl, by omega⟩)⟩
          · rw [if_pos err]
            exact ⟨⟨rfl, rfl, rfl⟩, .inr (.inr ⟨fault, rfl⟩)⟩

def records (medium : Medium) (sectors : List Nat) : List (List UInt8) :=
  sectors.flatMap fun sector => (List.range 16).map fun k => medium.piece sector (k * 32) 32

/-- The first entry with the name before the end of the table that is no volume label. -/
def find (fn : List UInt8) (records : List (List UInt8)) : Option (List UInt8) :=
  (records.takeWhile fun dir => dir.getD 0 0 ≠ 0).find? fun dir => isVolume dir = false ∧ dir.take 11 = fn

theorem find_cons_end {fn dir : List UInt8} {records : List (List UInt8)} (last : dir.getD 0 0 = 0) :
    find fn (dir :: records) = none := by
  rw [find, List.takeWhile_cons_of_neg (by simpa using last), List.find?_nil]

theorem find_cons_found {fn dir : List UInt8} {records : List (List UInt8)} (more : dir.getD 0 0 ≠ 0)
    (found : isVolume dir = false ∧ dir.take 11 = fn) : find fn (dir :: records) = some dir := by
  rw [find, List.takeWhile_cons_of_pos (by simpa using more), List.find?_cons_of_pos (by simpa using found)]

theorem find_cons_other {fn dir : List UInt8} {records : List (List UInt8)} (more : dir.getD 0 0 ≠ 0)
    (other : ¬ (isVolume dir = false ∧ dir.take 11 = fn)) : find fn (dir :: records) = find fn records := by
  rw [find, List.takeWhile_cons_of_pos (by simpa using more), List.find?_cons_of_neg (by simpa using other), find]

theorem length_records (medium : Medium) (sectors : List Nat) :
    (records medium sectors).length = 16 * sectors.length :=
  RowMajor.length_flatMap (by simp)

theorem getElem?_records (medium : Medium) {sectors : List Nat} {i sector : Nat}
    (here : sectors[i / 16]? = some sector) :
    (records medium sectors)[i]? = some (medium.piece sector (i % 16 * 32) 32) := by
  have inside := Nat.mod_lt i (show 0 < 16 by decide)
  have even : ∀ sector ∈ sectors, ((List.range 16).map fun k => medium.piece sector (k * 32) 32).length = 16 := by simp
  have place := RowMajor.getElem?_flatMap even (i / 16) inside
  rw [Nat.div_add_mod, here] at place
  rw [records, place]
  simp [inside]

/-- The entries from here on, of those that an index of sixteen bits can come to. -/
theorem drop_records (medium : Medium) (located : dj.At v extent) :
    ((records medium (extent.sectors v)).take 65536).drop dj.index =
      medium.piece dj.sect (dj.index % 16 * 32) 32 ::
        ((records medium (extent.sectors v)).take 65536).drop (dj.index + 1) := by
  have limit := located.index
  obtain ⟨inside, value⟩ := List.getElem?_eq_some_iff.mp (getElem?_records medium located.sector)
  have within : dj.index < ((records medium (extent.sectors v)).take 65536).length := by
    rw [List.length_take]
    omega
  rw [List.drop_eq_getElem_cons within, List.getElem_take, value]

/-- What the search in the entries from here on comes to. -/
def Dir.Found (dj : Dir) (faulty : Prop) (records : List (List UInt8)) (out : FResult × Dir × List UInt8) : Prop :=
  dj.Same out.2.1 ∧
    (out.1 = .ok ∧ find dj.fn records = some out.2.2 ∨ out.1 = .noFile ∧ find dj.fn records = none ∨
      faulty ∧ out.1 = .diskErr)

theorem Dir.Found.later {after : Dir} {faulty : Prop} {records : List (List UInt8)} {out : FResult × Dir × List UInt8}
    (same : dj.Same after) (found : after.Found faulty records out) : dj.Found faulty records out := by
  refine ⟨⟨found.1.fn.trans same.fn, found.1.last.trans same.last, found.1.sclust.trans same.sclust⟩, ?_⟩
  rw [← same.fn]
  exact found.2

theorem dirFindLoop_under (formatted : v.Formatted medium entries) (valid : extent.Valid v entries) {n : Nat}
    (located : dj.At v extent) (name : dj.fn.length = 11) (count : n + dj.index = 65536) (dir : List UInt8) :
    (dirFindLoop v n dj dir).Under (service medium faulty v.area)
      (dj.Found faulty (((records medium (extent.sectors v)).take 65536).drop dj.index)) := by
  induction n generalizing dj dir with
  | zero =>
    have limit := located.index
    omega
  | succ n ih =>
    have there := Extent.area_of_mem formatted valid (List.mem_of_getElem? located.sector)
    have entry := drop_records medium located
    have length : (medium.piece dj.sect (dj.index % 16 * 32) 32).length = 32 := medium.length_piece (by omega)
    have compared := memCmp_eq_zero (show 11 ≤ _ by rw [length]; decide) (show 11 ≤ dj.fn.length by omega)
    rw [List.take_of_length_le (show dj.fn.length ≤ 11 by omega)] at compared
    rw [dirFindLoop]
    apply under_diskReadp there (by omega)
    · rw [entry]
      simp only
      split
      · rename_i last
        exact ⟨⟨rfl, rfl, rfl⟩, .inr (.inl ⟨rfl, find_cons_end last⟩)⟩
      · rename_i more
        split
        · rename_i found
          rw [compared] at found
          exact ⟨⟨rfl, rfl, rfl⟩, .inl ⟨rfl, find_cons_found more found⟩⟩
        · rename_i other
          rw [compared] at other
          apply (dirNext_under formatted valid located).bind
          intro next moved
          obtain ⟨res, after⟩ := next
          obtain ⟨same, ⟨rfl, step, index⟩ | ⟨rfl, last⟩ | ⟨fault, rfl⟩⟩ := moved
          · have later := ih step (by rw [same.fn]; exact name) (by omega)
              (medium.piece dj.sect (dj.index % 16 * 32) 32)
            rw [index] at later
            apply later.mono
            intro out found
            have shown := found.later same
            rw [Dir.Found, find_cons_other more other]
            exact shown
          · have none : ((records medium (extent.sectors v)).take 65536).drop (dj.index + 1) = [] := by
              apply List.drop_of_length_le
              rw [List.length_take, length_records medium]
              omega
            rw [none]
            exact ⟨same, .inr (.inl ⟨rfl, by rw [find_cons_other more other]; rfl⟩)⟩
          · exact ⟨same, .inr (.inr ⟨fault, rfl⟩)⟩
    · intro fault
      exact ⟨⟨rfl, rfl, rfl⟩, .inr (.inr ⟨fault, rfl⟩)⟩

/-- The entries of a directory as far as an index reaches. -/
def Extent.listing (v : Volume) (medium : Medium) (extent : Extent) : List (List UInt8) :=
  (records medium (extent.sectors v)).take 65536

theorem dirRewind_eq (formatted : v.Formatted medium entries) (valid : extent.Valid v entries)
    (start : extent.Starts dj.sclust) :
    ∃ after, dirRewind v dj = (.ok, after) ∧ after.At v extent ∧ after.index = 0 ∧ dj.Same after := by
  have reserved := formatted.reserved
  cases extent with
  | root =>
    have zero : dj.sclust = 0 := start
    have aligned := formatted.aligned
    have some : 0 < v.nRootdir := valid
    refine ⟨_, if_neg (by omega), ⟨?_, ?_, zero⟩, rfl, rfl, rfl, rfl⟩
    · show 0 < 65536
      decide
    · have count : 0 < v.nRootdir / 16 := by omega
      simp [zero, Extent.sectors, count]
  | chain clusters =>
    have first : clusters[0]? = some dj.sclust := start
    have bounds := valid.1.valid _ (List.mem_of_getElem? first)
    rw [← Nat.zero_div v.csize] at first
    refine ⟨_, if_neg (by omega), ⟨?_, ?_, ?_⟩, rfl, rfl, rfl, rfl⟩
    · show 0 < 65536
      decide
    · have sector := Volume.getElem?_sectorsOf first
      rw [Nat.zero_mod, Nat.add_zero, ← formatted.clust2sect_eq bounds.1 bounds.2] at sector
      simp only [show dj.sclust ≠ 0 by omega, ne_eq, not_false_eq_true, if_true]
      exact sector
    · show clusters[0 / 16 / v.csize]? = some dj.sclust
      exact first

/-- The search in a directory finds the first entry with the name, and misses it only if there is none. -/
theorem dirFind_under (formatted : v.Formatted medium entries) (valid : extent.Valid v entries)
    (start : extent.Starts dj.sclust) (name : dj.fn.length = 11) (dir : List UInt8) :
    (dirFind v dj dir).Under (service medium faulty v.area) (dj.Found faulty (extent.listing v medium)) := by
  obtain ⟨after, rewound, located, index, same⟩ := dirRewind_eq formatted valid start
  rw [dirFind, rewound]
  have found : (dirFindLoop v 65536 after dir).Under (service medium faulty v.area) _ :=
    dirFindLoop_under formatted valid located (by rw [same.fn]; exact name) (by rw [index]) dir
  rw [index, List.drop_zero] at found
  exact found.mono fun out shown => shown.later same

end Minimus32.PetitFat
