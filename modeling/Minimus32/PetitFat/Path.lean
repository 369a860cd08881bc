import Mathlib.Data.List.TakeWhile
import Minimus32.PetitFat.Directory
import Minimus32.PetitFat.File

namespace Minimus32.PetitFat

open Interaction

def toUpper (c : UInt8) : UInt8 := if 'a'.toUInt8 ≤ c ∧ c ≤ 'z'.toUInt8 then c - 0x20 else c

/-- The loop of create_name over the characters up to the null: the name, whether the path ends here, and the rest of
the path. -/
def createNameLoop : List UInt8 → List UInt8 → Nat → Nat → List UInt8 × Bool × List UInt8
  | [], sfn, _, _ => (sfn, true, [])
  | c :: path, sfn, i, ni =>
    if c ≤ ' '.toUInt8 ∨ c = '/'.toUInt8 then (sfn, decide (c ≤ ' '.toUInt8), path)
    else if c = '.'.toUInt8 ∨ ni ≤ i then
      if ni ≠ 8 ∨ c ≠ '.'.toUInt8 then (sfn, false, path) else createNameLoop path sfn 8 11
    else createNameLoop path (sfn.set i (toUpper c)) (i + 1) ni

def createName (path : List UInt8) : List UInt8 × Bool × List UInt8 :=
  createNameLoop path (List.replicate 11 ' '.toUInt8) 0 8

theorem createNameLoop_rest {path sfn : List UInt8} {i ni : Nat} (more : (createNameLoop path sfn i ni).2.1 = false) :
    (createNameLoop path sfn i ni).2.2.length < path.length := by
  induction path generalizing sfn i ni with
  | nil => simp [createNameLoop] at more
  | cons c path ih =>
    rw [createNameLoop] at more ⊢
    split
    · simp
    · rename_i inner
      rw [if_neg inner] at more
      split
      · rename_i dot
        rw [if_pos dot] at more
        split
        · simp
        · rename_i first
          rw [if_neg first] at more
          have later := ih more
          simp only [List.length_cons]
          omega
      · rename_i plain
        rw [if_neg plain] at more
        have later := ih more
        simp only [List.length_cons]
        omega

theorem length_createNameLoop (path sfn : List UInt8) (i ni : Nat) :
    (createNameLoop path sfn i ni).1.length = sfn.length := by
  induction path generalizing sfn i ni with
  | nil => rfl
  | cons c path ih =>
    rw [createNameLoop]
    split
    · rfl
    · split
      · split
        · rfl
        · exact ih _ _ _
      · rw [ih, List.length_set]

/-- The segments of a path in directory form. -/
def segments (path : List UInt8) : List (List UInt8) :=
  if _ : (createName path).2.1 = false then (createName path).1 :: segments (createName path).2.2
  else [(createName path).1]
termination_by path.length
decreasing_by exact createNameLoop_rest ‹_›

/-- The directory object with the name that create_name makes of the next segment. -/
def Dir.setName (dj : Dir) (path : List UInt8) : Dir :=
  { dj with fn := (createName path).1, last := (createName path).2.1 }

def followLoop (v : Volume) (dj : Dir) (dir path : List UInt8) : Disk (FResult × Dir × List UInt8) := do
  let out ← dirFind v (dj.setName path) dir
  match out.1 with
  | .ok =>
    if _ : (createName path).2.1 = false then
      if isDir out.2.2 = false then pure (.noPath, out.2)
      else followLoop v { out.2.1 with sclust := ldWord out.2.2 26 } out.2.2 (createName path).2.2
    else pure (.ok, out.2)
  | .noFile => pure (if (createName path).2.1 = false then .noPath else .noFile, out.2)
  | res => pure (res, out.2)
termination_by path.length
decreasing_by exact createNameLoop_rest ‹_›

/-- The path without leading blanks and without one separator behind them. -/
def relative (path : List UInt8) : List UInt8 :=
  let path := path.dropWhile (· = ' '.toUInt8)
  if path.head? = some '/'.toUInt8 then path.tail else path

def followPath (v : Volume) (dj : Dir) (dir path : List UInt8) : Disk (FResult × Dir × List UInt8) :=
  if (relative path).headD 0 ≤ ' '.toUInt8 then
    let out := dirRewind v { dj with sclust := 0 }
    pure (out.1, out.2, dir.set 0 0)
  else followLoop v { dj with sclust := 0 } dir (relative path)

def Fatfs.close (fs : Fatfs) : Fatfs := { fs with flag := false }

def Fatfs.openEntry (fs : Fatfs) (dir : List UInt8) : Fatfs :=
  { fs with orgClust := ldWord dir 26, fsize := ldDword dir 28, fptr := 0, flag := true }

/-- `dj` and `dir` are the local objects as they come. -/
def pfOpen (FatFs : Option Fatfs) (dj : Dir) (dir path : List UInt8) : Disk (FResult × Option Fatfs) :=
  match FatFs with
  | none => pure (.notEnabled, none)
  | some fs => do
    let out ← followPath fs.toVolume dj dir path
    pure (if out.1 ≠ .ok then (out.1, some fs.close)
      else if out.2.2.getD 0 0 = 0 ∨ isDir out.2.2 then (.noFile, some fs.close)
      else (.ok, some (fs.openEntry out.2.2)))

/-- The object that the names lead to from a directory on. -/
def resolve (listing : Nat → List (List UInt8)) : Nat → List (List UInt8) → Except FResult (List UInt8)
  | _, [] => .error .noPath
  | start, [fn] => (find fn (listing start)).elim (.error .noFile) .ok
  | start, fn :: more => (find fn (listing start)).elim (.error .noPath) fun dir =>
    if isDir dir then resolve listing (ldWord dir 26) more else .error .noPath

/-- The file at a path. -/
def lookup (listing : Nat → List (List UInt8)) (path : List UInt8) : Except FResult (List UInt8) :=
  if (relative path).headD 0 ≤ ' '.toUInt8 then .error .noFile
  else do
    let dir ← resolve listing 0 (segments (relative path))
    if isDir dir then .error .noFile else .ok dir

/-- A path without a segment that a deleted entry could have. -/
def Undeleted (path : List UInt8) : Prop := ∀ fn ∈ segments (relative path), isDeleted fn = false

/-- Where the directories of a volume lie, by their first cluster. -/
structure Volume.Directories (v : Volume) (medium : Medium) (entries : List Nat) (extents : Nat → Option Extent) :
    Prop where
  root : extents 0 = some .root
  valid : ∀ start extent, extents start = some extent → extent.Starts start ∧ extent.Valid v entries
  closed : ∀ start extent fn dir, extents start = some extent → find fn (extent.listing v medium) = some dir →
    isDir dir → isDeleted dir = false → (extents (ldWord dir 26)).isSome

/-- The listings of the directories; there are none where no directory starts. -/
def listings (v : Volume) (medium : Medium) (extents : Nat → Option Extent) (start : Nat) : List (List UInt8) :=
  (extents start).elim [] (Extent.listing v medium)

variable {medium : Medium} {faulty : Prop} {v : Volume} {fs : Fatfs} {entries : List Nat}
  {extents : Nat → Option Extent} {listing : Nat → List (List UInt8)}

/-- The search along a path ends with this object or with this error, unless the drive fails. -/
def Leads (faulty : Prop) (goal : Except FResult (List UInt8)) (out : FResult × Dir × List UInt8) : Prop :=
  (match goal with
    | .ok dir => out.1 = .ok ∧ out.2.2 = dir
    | .error res => out.1 = res) ∨
  faulty ∧ out.1 = .diskErr

theorem resolve_cons {fn : List UInt8} {start : Nat} {more : List (List UInt8)} (path : more ≠ []) :
    resolve listing start (fn :: more) = (find fn (listing start)).elim (.error .noPath) fun dir =>
      if isDir dir then resolve listing (ldWord dir 26) more else .error .noPath := by
  obtain ⟨next, later, rfl⟩ := List.exists_cons_of_ne_nil path
  rw [resolve]
  simp

theorem segments_ne_nil (path : List UInt8) : segments path ≠ [] := by
  rw [segments]
  split <;> simp

/-- One segment of a path is searched for in the directory that has been reached. -/
theorem dirFind_segment (formatted : v.Formatted medium entries) (directories : v.Directories medium entries extents)
    {dj : Dir} (path dir : List UInt8) (start : (extents dj.sclust).isSome) :
    (dirFind v (dj.setName path) dir).Under (service medium faulty v.area)
      ((dj.setName path).Found faulty (listings v medium extents dj.sclust)) := by
  obtain ⟨extent, lies⟩ := Option.isSome_iff_exists.mp start
  obtain ⟨starts, valid⟩ := directories.valid _ _ lies
  rw [listings, lies]
  apply dirFind_under formatted valid
  · exact starts
  · exact length_createNameLoop _ _ _ _

theorem isDeleted_of_find {fn dir : List UInt8} {records : List (List UInt8)} (found : find fn records = some dir) :
    isDeleted dir = isDeleted fn := by
  have same : isVolume dir = false ∧ dir.take 11 = fn := by simpa using List.find?_some found
  rw [← same.2]
  cases dir <;> rfl

theorem Volume.Directories.isSome_of_find (directories : v.Directories medium entries extents) {start : Nat}
    {fn dir : List UInt8} (found : find fn (listings v medium extents start) = some dir) (sub : isDir dir)
    (live : isDeleted fn = false) : (extents (ldWord dir 26)).isSome := by
  rw [← isDeleted_of_find found] at live
  rw [listings] at found
  cases lies : extents start with
  | none =>
    rw [lies] at found
    cases found
  | some extent =>
    rw [lies] at found
    exact directories.closed start extent fn dir lies found sub live

/-- Following a path finds what its segments lead to. -/
theorem followLoop_under (formatted : v.Formatted medium entries) (directories : v.Directories medium entries extents)
    {dj : Dir} (path dir : List UInt8) (start : (extents dj.sclust).isSome)
    (live : ∀ fn ∈ segments path, isDeleted fn = false) :
    (followLoop v dj dir path).Under (service medium faulty v.area)
      (Leads faulty (resolve (listings v medium extents) dj.sclust (segments path))) := by
  induction path using segments.induct generalizing dj dir with
  | case1 path more ih =>
    rw [segments, dif_pos more, List.forall_mem_cons] at live
    rw [followLoop, segments, dif_pos more, resolve_cons (segments_ne_nil _)]
    apply (dirFind_segment formatted directories path dir start).bind
    intro out outcome
    obtain ⟨res, after, entry⟩ := out
    obtain ⟨same, ⟨rfl, hit⟩ | ⟨rfl, missed⟩ | ⟨fault, rfl⟩⟩ := outcome
    · replace hit : find (createName path).1 (listings v medium extents dj.sclust) = some entry := hit
      simp only [hit, more, dite_true, Option.elim_some]
      split
      · rename_i file
        rw [if_neg (by rw [file]; decide)]
        exact .inl rfl
      · rename_i sub
        have directory : isDir entry = true := by simpa using sub
        rw [if_pos directory]
        exact ih entry (directories.isSome_of_find hit directory live.1) live.2
    · replace missed : find (createName path).1 (listings v medium extents dj.sclust) = none := missed
      simp only [missed, more, if_true]
      exact .inl rfl
    · exact .inr ⟨fault, rfl⟩
  | case2 path last =>
    rw [followLoop, segments, dif_neg last, resolve]
    apply (dirFind_segment formatted directories path dir start).bind
    intro out outcome
    obtain ⟨res, after, entry⟩ := out
    obtain ⟨same, ⟨rfl, hit⟩ | ⟨rfl, missed⟩ | ⟨fault, rfl⟩⟩ := outcome
    · replace hit : find (createName path).1 (listings v medium extents dj.sclust) = some entry := hit
      simp only [hit, last]
      exact .inl ⟨rfl, rfl⟩
    · replace missed : find (createName path).1 (listings v medium extents dj.sclust) = none := missed
      simp only [missed, last]
      exact .inl rfl
    · exact .inr ⟨fault, rfl⟩

theorem getD_of_find {fn dir : List UInt8} {records : List (List UInt8)} (found : find fn records = some dir) :
    dir.getD 0 0 ≠ 0 := by
  simpa using List.mem_takeWhile_imp (List.mem_of_find?_eq_some found)

/-- A path leads to an entry of some directory, or to one of the two errors. -/
theorem resolve_cases (start : Nat) (names : List (List UInt8)) :
    (∃ fn ∈ names, ∃ place dir, find fn (listing place) = some dir ∧ resolve listing start names = .ok dir) ∨
      resolve listing start names = .error .noFile ∨ resolve listing start names = .error .noPath := by
  induction names generalizing start with
  | nil => exact .inr (.inr rfl)
  | cons fn more ih =>
    cases hit : find fn (listing start) with
    | none =>
      cases more with
      | nil => simp [resolve, hit]
      | cons next later => simp [resolve_cons (List.cons_ne_nil next later), hit]
    | some dir =>
      cases more with
      | nil =>
        left
        exact ⟨fn, List.mem_singleton_self fn, start, dir, hit, by simp [resolve, hit]⟩
      | cons next later =>
        rw [resolve_cons (List.cons_ne_nil next later), hit, Option.elim_some]
        split
        · exact (ih _).imp_left fun ⟨fn, member, found⟩ => ⟨fn, List.mem_cons_of_mem _ member, found⟩
        · exact .inr (.inr rfl)

theorem followPath_under (formatted : v.Formatted medium entries) (directories : v.Directories medium entries extents)
    (dj : Dir) (dir : List UInt8) {path : List UInt8} (live : Undeleted path) :
    (followPath v dj dir path).Under (service medium faulty v.area) fun out =>
      (relative path).headD 0 ≤ ' '.toUInt8 ∧ out.1 = .ok ∧ out.2.2.getD 0 0 = 0 ∨
      ' '.toUInt8 < (relative path).headD 0 ∧
        Leads faulty (resolve (listings v medium extents) 0 (segments (relative path))) out := by
  rw [followPath]
  split
  · rename_i blank
    have reserved := formatted.reserved
    refine .inl ⟨blank, ?_, ?_⟩
    · rw [dirRewind, if_neg (by simp only; omega)]
    · cases dir <;> rfl
  · rename_i inside
    apply (followLoop_under formatted directories (relative path) dir (by rw [directories.root]; rfl) live).mono
    intro out leads
    exact .inr ⟨by simpa using inside, leads⟩

/-- Opening a path opens the file that it names in the directories, or says why there is none. -/
theorem pfOpen_lookup (formatted : fs.Formatted medium entries) (directories : fs.Directories medium entries extents)
    (dj : Dir) (dir : List UInt8) {path : List UInt8} (live : Undeleted path) :
    (pfOpen (some fs) dj dir path).Under (service medium faulty fs.area) fun out =>
      (match lookup (listings fs.toVolume medium extents) path with
        | .ok entry => out = (.ok, some (fs.openEntry entry))
        | .error res => out = (res, some fs.close)) ∨
      faulty ∧ out = (.diskErr, some fs.close) := by
  rw [pfOpen]
  apply (followPath_under formatted directories dj dir live).bind
  intro out outcome
  apply Program.under_pure
  rcases outcome with ⟨blank, ok, null⟩ | ⟨inside, goal | ⟨fault, err⟩⟩
  · left
    rw [lookup, if_pos blank, ok, if_neg (by decide), if_pos (.inl null)]
  · left
    rw [lookup, if_neg (by simpa using inside)]
    rcases resolve_cases 0 (segments (relative path)) with ⟨fn, -, start, entry, hit, found⟩ | found | found
    · rw [found] at goal ⊢
      obtain ⟨ok, rfl⟩ := goal
      have some := getD_of_find hit
      simp only [ok, bind, Except.bind]
      cases directory : isDir out.2.2 with
      | true => simp
      | false => simpa using some
    all_goals
      rw [found] at goal ⊢
      simp [show out.1 = _ from goal]
      rfl
  · right
    simp [fault, err]

end Minimus32.PetitFat
