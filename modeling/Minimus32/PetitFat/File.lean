import Mathlib.Algebra.Order.Ring.Nat
import Minimus32.PetitFat.Chain

namespace Minimus32.PetitFat

open Interaction

/-- `flag` is FA_OPENED, the one bit of the flags that is used without pf_write. -/
structure Fatfs extends Volume where
  flag : Bool
  fptr : Nat
  fsize : Nat
  orgClust : Nat
  currClust : Nat
  dsect : Nat
  deriving DecidableEq

def nextCluster (fs : Fatfs) : Disk Nat :=
  if fs.fptr = 0 then pure fs.orgClust else getFat fs.toVolume fs.currClust

def setSector (fs : Fatfs) (cs : Nat) : Fatfs × Bool :=
  let sect := clust2sect fs.toVolume fs.currClust
  if sect = 0 then (fs, false) else ({ fs with dsect := dword (sect + cs) }, true)

/-- The head of a pass of pf_read, false where it goes to fr_abort. -/
def findSector (fs : Fatfs) : Disk (Fatfs × Bool) :=
  if fs.fptr % 512 ≠ 0 then pure (fs, true)
  else
    let cs := (fs.fptr / 512 &&& (fs.csize - 1)) % 256
    if cs ≠ 0 then pure (setSector fs cs)
    else do
      let clst ← nextCluster fs
      pure (if clst ≤ 1 then (fs, false) else setSector { fs with currClust := clst } cs)

/-- What pf_read gives back: its result, `*br`, the bytes put into the buffer and the file system object. -/
structure Reading where
  res : FResult
  br : Nat
  data : List UInt8
  fs : Fatfs

def Reading.abort (fs : Fatfs) : Reading := ⟨.diskErr, 0, [], { fs with flag := false }⟩

def Reading.behind (rcnt : Nat) (data : List UInt8) (r : Reading) : Reading :=
  { r with br := rcnt + r.br, data := data ++ r.data }

def readLoop (fs : Fatfs) (btr : Nat) : Disk Reading :=
  if btr = 0 then pure ⟨.ok, 0, [], fs⟩
  else do
    let found ← findSector fs
    let fs := found.1
    let rcnt := min (512 - fs.fptr % 512) btr
    match found.2 with
    | false => pure (.abort fs)
    | true => do
      let dr ← diskReadp fs.dsect (fs.fptr % 512) rcnt
      match dr with
      | none => pure (.abort fs)
      | some data => do
        let later ← readLoop { fs with fptr := dword (fs.fptr + rcnt) } (btr - rcnt)
        pure (later.behind rcnt data)
termination_by btr

/-- The file system object is none before pf_mount and after it fails. -/
def pfRead (FatFs : Option Fatfs) (btr : Nat) : Disk (FResult × Nat × List UInt8 × Option Fatfs) :=
  match FatFs with
  | none => pure (.notEnabled, 0, [], none)
  | some fs =>
    if fs.flag = false then pure (.notOpened, 0, [], some fs)
    else do
      let remain := dword (fs.fsize + 4294967296 - fs.fptr)
      let reading ← readLoop fs (if remain < btr then word remain else btr)
      pure (reading.res, reading.br, reading.data, some reading.fs)

/-- A file with this first cluster and this size lies on these clusters. -/
structure Volume.Stores (v : Volume) (entries clusters : List Nat) (start size : Nat) : Prop
    extends v.Chain entries clusters where
  first : size = 0 ∨ clusters[0]? = some start
  enough : size ≤ 512 * (v.csize * clusters.length)
  small : size < 4294967296

variable {medium : Medium} {faulty : Prop} {v : Volume} {fs : Fatfs} {entries clusters : List Nat}

/-- The file pointer stands inside the file, with the cluster of the byte before it and, inside a sector, the sector
as they are on the disk. -/
structure Fatfs.At (fs : Fatfs) (clusters : List Nat) : Prop where
  inside : fs.fptr ≤ fs.fsize
  cluster : 0 < fs.fptr → clusters[(fs.fptr - 1) / 512 / fs.csize]? = some fs.currClust
  sector : fs.fptr % 512 ≠ 0 → (fs.sectorsOf clusters)[fs.fptr / 512]? = some fs.dsect

theorem setSector_eq (formatted : fs.Formatted medium entries) (chain : fs.Chain entries clusters) {k : Nat}
    (here : clusters[k / fs.csize]? = some fs.currClust) :
    ∃ dsect, setSector fs (k % fs.csize) = ({ fs with dsect := dsect }, true) ∧
      (fs.sectorsOf clusters)[k]? = some dsect := by
  have bounds := chain.valid _ (List.mem_of_getElem? here)
  have place := Volume.getElem?_sectorsOf here
  have there := chain.area_of_mem formatted (List.mem_of_getElem? place)
  have below := formatted.lt_of_area there
  have boot := formatted.boot
  have fat := formatted.fat_room
  have root := formatted.root_room
  refine ⟨_, ?_, place⟩
  simp only [setSector]
  rw [formatted.clust2sect_eq bounds.1 bounds.2, if_neg (by omega), dword_of_lt below]

/-- The cluster of the byte before the file pointer is that of the byte behind it, or the one before in the chain. -/
theorem Fatfs.At.cluster_cases (located : fs.At clusters) {q : Nat} (boundary : fs.fptr = 512 * (q + 1)) :
    clusters[q / fs.csize]? = some fs.currClust := by
  have before := located.cluster (by omega)
  rw [show (fs.fptr - 1) / 512 = q by omega] at before
  exact before

theorem nextCluster_under (formatted : fs.Formatted medium entries)
    (stores : fs.Stores entries clusters fs.orgClust fs.fsize) (located : fs.At clusters) (more : fs.fptr < fs.fsize)
    (boundary : fs.fptr % 512 = 0) (first : fs.fptr / 512 % fs.csize = 0) {c : Nat}
    (here : clusters[fs.fptr / 512 / fs.csize]? = some c) :
    (nextCluster fs).Under (service medium faulty fs.area) fun next => next = c ∨ faulty ∧ next = 1 := by
  rw [nextCluster]
  split
  · rename_i start
    rcases stores.first with empty | found
    · omega
    · simp only [start, Nat.zero_div, found] at here
      exact .inl (Option.some.inj here)
  · obtain ⟨q, pointer⟩ : ∃ q, fs.fptr = 512 * (q + 1) := ⟨fs.fptr / 512 - 1, by omega⟩
    have before := located.cluster_cases pointer
    rw [pointer, Nat.mul_div_cancel_left _ (by decide)] at first here
    rw [Nat.succ_div, if_pos (Nat.dvd_of_mod_eq_zero first)] at here
    have bounds := stores.valid _ (List.mem_of_getElem? before)
    apply (getFat_under formatted bounds.1 bounds.2).mono
    intro next read
    rcases read with entry | failed
    · rw [stores.linked _ _ _ before here] at entry
      exact .inl (Option.some.inj entry).symm
    · exact .inr failed

/-- The file system object stands for an open file on these clusters of which these bytes are left. -/
structure Fatfs.Opened (fs : Fatfs) (v : Volume) (medium : Medium) (entries clusters : List Nat)
    (left : List UInt8) : Prop where
  volume : fs.toVolume = v
  formatted : v.Formatted medium entries
  stores : v.Stores entries clusters fs.orgClust fs.fsize
  located : fs.At clusters
  flag : fs.flag = true
  left_eq : left = ((v.bytesOf medium clusters).take fs.fsize).drop fs.fptr

variable {left : List UInt8}

theorem Fatfs.Opened.length_left (opened : fs.Opened v medium entries clusters left) :
    left.length = fs.fsize - fs.fptr := by
  have enough := opened.stores.enough
  rw [opened.left_eq, List.length_drop, List.length_take, v.length_bytesOf]
  omega

theorem findSector_under (opened : fs.Opened v medium entries clusters left) (more : 0 < left.length) :
    (findSector fs).Under (service medium faulty v.area) fun found =>
      (∃ curr dsect, found = ({ fs with currClust := curr, dsect := dsect }, true) ∧
        clusters[fs.fptr / 512 / v.csize]? = some curr ∧ (v.sectorsOf clusters)[fs.fptr / 512]? = some dsect) ∨
      faulty ∧ found = (fs, false) := by
  have length := opened.length_left
  obtain ⟨rfl, formatted, stores, located, -, -⟩ := opened
  have enough := stores.enough
  have index : fs.fptr / 512 / fs.csize < clusters.length := by
    apply Nat.div_lt_of_lt_mul
    omega
  obtain ⟨c, here⟩ : ∃ c, clusters[fs.fptr / 512 / fs.csize]? = some c := ⟨_, List.getElem?_eq_getElem index⟩
  rw [findSector]
  split
  · rename_i inner
    left
    have before := located.cluster (by omega)
    rw [show (fs.fptr - 1) / 512 = fs.fptr / 512 by omega] at before
    exact ⟨_, _, rfl, before, located.sector inner⟩
  · rename_i boundary
    have below := Nat.mod_lt (fs.fptr / 512) fs.csize_pos
    have bound := fs.csize_lt
    simp only [formatted.land_csize, Nat.mod_eq_of_lt (show fs.fptr / 512 % fs.csize < 256 by omega)]
    split
    · rename_i same
      left
      obtain ⟨q, pointer⟩ : ∃ q, fs.fptr = 512 * (q + 1) := by
        refine ⟨fs.fptr / 512 - 1, ?_⟩
        have nonzero : fs.fptr / 512 ≠ 0 := by
          intro zero
          rw [zero, Nat.zero_mod] at same
          exact same rfl
        omega
      have before := located.cluster_cases pointer
      have index : fs.fptr / 512 = q + 1 := by omega
      rw [index] at same ⊢
      rw [← (fs.succ_div_csize same).1] at before
      obtain ⟨dsect, set, place⟩ := setSector_eq formatted stores.toChain before
      exact ⟨_, dsect, set, before, place⟩
    · rename_i first
      apply (nextCluster_under formatted stores located (by omega) (by omega) (by omega) here).bind
      intro next read
      rcases read with rfl | ⟨fault, rfl⟩
      · have bounds := stores.valid _ (List.mem_of_getElem? here)
        have moved : ({ fs with currClust := next } : Fatfs).Formatted medium entries := formatted
        have chain : ({ fs with currClust := next } : Fatfs).Chain entries clusters := stores.toChain
        obtain ⟨dsect, set, place⟩ := setSector_eq moved chain here
        rw [if_neg (by omega)]
        exact .inl ⟨next, dsect, set, here, place⟩
      · exact .inr ⟨fault, rfl⟩

/-- One pass of pf_read: the piece up to the end of the sector at most. -/
theorem Fatfs.Opened.advance (opened : fs.Opened v medium entries clusters left) {curr dsect : Nat} (rcnt : Nat)
    (cluster : clusters[fs.fptr / 512 / v.csize]? = some curr)
    (sector : (v.sectorsOf clusters)[fs.fptr / 512]? = some dsect) (positive : 0 < rcnt)
    (within : fs.fptr % 512 + rcnt ≤ 512) (more : rcnt ≤ left.length) :
    medium.piece dsect (fs.fptr % 512) rcnt = left.take rcnt ∧
    ({ fs with currClust := curr, dsect := dsect, fptr := dword (fs.fptr + rcnt) } : Fatfs).Opened v medium entries
      clusters (left.drop rcnt) := by
  have length := opened.length_left
  have small := opened.stores.small
  have same : dword (fs.fptr + rcnt) = fs.fptr + rcnt := dword_of_lt (by omega)
  constructor
  · rw [opened.left_eq, List.drop_take, List.take_take, min_eq_left (by omega), Volume.bytesOf,
      RowMajor.take_drop_flatMap (fun sector _ => medium.length_bytes sector) sector within]
    rfl
  · rw [same]
    refine ⟨opened.volume, opened.formatted, opened.stores, ⟨?_, ?_, ?_⟩, opened.flag, ?_⟩
    · show fs.fptr + rcnt ≤ fs.fsize
      omega
    · intro _
      show clusters[(fs.fptr + rcnt - 1) / 512 / fs.csize]? = some curr
      rw [show (fs.fptr + rcnt - 1) / 512 = fs.fptr / 512 by omega, opened.volume]
      exact cluster
    · intro inner
      show (fs.sectorsOf clusters)[(fs.fptr + rcnt) / 512]? = some dsect
      replace inner : (fs.fptr + rcnt) % 512 ≠ 0 := inner
      rw [show (fs.fptr + rcnt) / 512 = fs.fptr / 512 by omega, opened.volume]
      exact sector
    · rw [opened.left_eq, List.drop_drop]

/-- What a read of `btr` bytes of what is left comes to. -/
def Reading.Of (v : Volume) (medium : Medium) (faulty : Prop) (entries clusters : List Nat) (left : List UInt8)
    (btr : Nat) (r : Reading) : Prop :=
  r.br = r.data.length ∧
    (r.res = .ok ∧ r.data = left.take btr ∧ r.fs.Opened v medium entries clusters (left.drop btr) ∨
      faulty ∧ r.res = .diskErr ∧ r.data <+: left.take btr ∧ r.fs.flag = false ∧ r.fs.toVolume = v)

theorem Reading.Of.abort (fault : faulty) (volume : fs.toVolume = v) (btr : Nat) :
    (Reading.abort fs).Of v medium faulty entries clusters left btr :=
  ⟨rfl, .inr ⟨fault, rfl, List.nil_prefix, rfl, volume⟩⟩

/-- A piece and then a read of what is behind it is a read of both. -/
theorem Reading.Of.behind {rcnt btr : Nat} {later : Reading} (short : rcnt ≤ btr) (more : rcnt ≤ left.length)
    (read : later.Of v medium faulty entries clusters (left.drop rcnt) (btr - rcnt)) :
    (later.behind rcnt (left.take rcnt)).Of v medium faulty entries clusters left btr := by
  have pieces : left.take rcnt ++ (left.drop rcnt).take (btr - rcnt) = left.take btr := by
    rw [← List.take_add, Nat.add_sub_of_le short]
  obtain ⟨count, outcome⟩ := read
  refine ⟨?_, ?_⟩
  · simp [Reading.behind, count, more]
  · rcases outcome with ⟨ok, data, opened⟩ | ⟨fault, err, front, closed⟩
    · left
      rw [List.drop_drop, Nat.add_sub_of_le short] at opened
      refine ⟨ok, ?_, opened⟩
      show left.take rcnt ++ later.data = _
      rw [data, pieces]
    · right
      refine ⟨fault, err, ?_, closed⟩
      rw [← pieces]
      exact (List.prefix_append_right_inj _).mpr front

theorem readLoop_under {btr : Nat} (opened : fs.Opened v medium entries clusters left) (enough : btr ≤ left.length) :
    (readLoop fs btr).Under (service medium faulty v.area)
      (Reading.Of v medium faulty entries clusters left btr) := by
  induction btr using Nat.strong_induction_on generalizing fs left with
  | _ btr ih =>
    rw [readLoop]
    split
    · rename_i nothing
      subst nothing
      exact ⟨rfl, .inl ⟨rfl, rfl, opened⟩⟩
    · rename_i more
      have length := opened.length_left
      apply (findSector_under opened (by omega)).bind
      intro found outcome
      rcases outcome with ⟨curr, dsect, rfl, cluster, sector⟩ | ⟨fault, rfl⟩
      · have there := opened.stores.area_of_mem opened.formatted (List.mem_of_getElem? sector)
        have step := opened.advance (min (512 - fs.fptr % 512) btr) cluster sector (by omega) (by omega) (by omega)
        apply under_diskReadp there (by omega)
        · apply Program.Under.bind (ih _ (by omega) step.2 (by simp; omega))
          intro later read
          rw [step.1]
          exact read.behind (by omega) (by omega)
        · intro fault
          apply Reading.Of.abort fault
          exact opened.volume
      · exact Reading.Of.abort fault opened.volume btr

theorem pfRead_under {btr : Nat} (opened : fs.Opened v medium entries clusters left) (size : btr < 65536) :
    (pfRead (some fs) btr).Under (service medium faulty v.area) fun out =>
      ∃ r : Reading, r.Of v medium faulty entries clusters left btr ∧ out = (r.res, r.br, r.data, some r.fs) := by
  have length := opened.length_left
  have small := opened.stores.small
  have inside := opened.located.inside
  have remain : dword (fs.fsize + 4294967296 - fs.fptr) = left.length := by
    rw [dword]
    omega
  simp only [pfRead, opened.flag, Bool.true_eq_false, if_false, remain]
  split
  · rename_i short
    rw [word_of_lt (by omega)]
    apply (readLoop_under opened (Nat.le_refl _)).bind
    intro r read
    refine ⟨r, ?_, rfl⟩
    have all : left.take left.length = left.take btr := by rw [List.take_length, List.take_of_length_le (by omega)]
    have rest : left.drop left.length = left.drop btr := by rw [List.drop_length, List.drop_of_length_le (by omega)]
    rw [Reading.Of, all, rest] at read
    exact read
  · rename_i long
    apply (readLoop_under opened (by omega)).bind
    intro r read
    exact ⟨r, read, rfl⟩

end Minimus32.PetitFat
