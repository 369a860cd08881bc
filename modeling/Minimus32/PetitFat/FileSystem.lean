import Minimus32.PetitFat.Mount
import Minimus32.PetitFat.Names

namespace Minimus32.PetitFat

open Interaction

/-- A medium with a volume on it whose directories and files lie on their clusters whole. -/
structure FileSystem where
  v : Volume
  medium : Medium
  entries : List Nat
  extents : Nat → Option Extent
  clusters : List UInt8 → List Nat
  formatted : v.Formatted medium entries
  directories : v.Directories medium entries extents
  files : ∀ start extent fn dir, extents start = some extent → find fn (extent.listing v medium) = some dir →
    isDir dir = false → isDeleted dir = false → v.Stores entries (clusters dir) (ldWord dir 26) (ldDword dir 28)

namespace FileSystem

variable (disk : FileSystem)

def listing : Nat → List (List UInt8) := listings disk.v disk.medium disk.extents

def contents (dir : List UInt8) : List UInt8 :=
  (disk.v.bytesOf disk.medium (disk.clusters dir)).take (ldDword dir 28)

/-- What stands in the file at a path. -/
def file (path : List UInt8) : Except FResult (List UInt8) := (lookup disk.listing path).map disk.contents

theorem stores_of_find {start : Nat} {fn dir : List UInt8} (found : find fn (disk.listing start) = some dir)
    (file : isDir dir = false) (live : isDeleted fn = false) :
    disk.v.Stores disk.entries (disk.clusters dir) (ldWord dir 26) (ldDword dir 28) := by
  rw [← isDeleted_of_find found] at live
  rw [listing, listings] at found
  cases lies : disk.extents start with
  | none =>
    rw [lies] at found
    cases found
  | some extent =>
    rw [lies] at found
    exact disk.files start extent fn dir lies found file live

end FileSystem

theorem find_of_lookup {listing : Nat → List (List UInt8)} {path dir : List UInt8}
    (found : lookup listing path = .ok dir) :
    ∃ fn ∈ segments (relative path), ∃ start, find fn (listing start) = some dir ∧ isDir dir = false := by
  rw [lookup] at found
  split at found
  · cases found
  · rcases resolve_cases 0 (segments (relative path)) with
      ⟨fn, member, start, entry, hit, resolved⟩ | resolved | resolved
    · rw [resolved] at found
      simp only [bind, Except.bind] at found
      split at found
      · cases found
      · rename_i file
        cases found
        exact ⟨fn, member, start, hit, by simpa using file⟩
    all_goals
      rw [resolved] at found
      cases found

/-- The calls of a program that reads files; `dj` and `dir` are the local objects of pf_open as they come. -/
inductive Call where
  | openPath (dj : Dir) (dir path : List UInt8)
  | read (btr : UInt16)

/-- A call that does not ask for a deleted entry. -/
def Call.Live : Call → Prop
  | .openPath _ _ path => Undeleted path
  | .read _ => True

/-- The result of a call, the number of bytes and the bytes. -/
abbrev Outcome := FResult × Nat × List UInt8

def perform (FatFs : Option Fatfs) : Call → Disk (Outcome × Option Fatfs)
  | .openPath dj dir path => do
    let out ← pfOpen FatFs dj dir path
    pure ((out.1, 0, []), out.2)
  | .read btr => do
    let out ← pfRead FatFs btr.toNat
    pure ((out.1, out.2.1, out.2.2.1), out.2.2.2)

def performAll : Option Fatfs → List Call → Disk (List Outcome)
  | _, [] => pure []
  | FatFs, call :: calls => do
    let out ← perform FatFs call
    let later ← performAll out.2 calls
    pure (out.1 :: later)

/-- The calls as a reader of files sees them, who knows what is left of the open file. A faulty drive may end any call
with an error, and the file is closed then. -/
def FileSystem.Step (disk : FileSystem) (faulty : Prop) (left : Option (List UInt8)) (call : Call) (out : Outcome)
    (after : Option (List UInt8)) : Prop :=
  match call, left with
  | .openPath _ _ path, _ =>
    (match disk.file path with
      | .ok bytes => out = (.ok, 0, []) ∧ after = some bytes
      | .error res => out = (res, 0, []) ∧ after = none) ∨
    faulty ∧ out = (.diskErr, 0, []) ∧ after = none
  | .read _, none => out = (.notOpened, 0, []) ∧ after = none
  | .read btr, some left =>
    out = (.ok, (left.take btr.toNat).length, left.take btr.toNat) ∧ after = some (left.drop btr.toNat) ∨
    faulty ∧ ∃ data, data <+: left.take btr.toNat ∧ out = (.diskErr, data.length, data) ∧ after = none

def FileSystem.Runs (disk : FileSystem) (faulty : Prop) : Option (List UInt8) → List Call → List Outcome → Prop
  | _, [], outs => outs = []
  | left, call :: calls, outs =>
    ∃ out after later, disk.Step faulty left call out after ∧ outs = out :: later ∧ disk.Runs faulty after calls later

/-- The object of the file system stands for what is left of the open file. -/
def Fatfs.Stands (fs : Fatfs) (disk : FileSystem) : Option (List UInt8) → Prop
  | none => fs.toVolume = disk.v ∧ fs.flag = false
  | some left => ∃ clusters, fs.Opened disk.v disk.medium disk.entries clusters left

theorem Fatfs.Stands.volume {fs : Fatfs} {disk : FileSystem} {left : Option (List UInt8)}
    (stands : fs.Stands disk left) : fs.toVolume = disk.v := by
  cases left with
  | none => exact stands.1
  | some left =>
    obtain ⟨clusters, opened⟩ := stands
    exact opened.volume

theorem FileSystem.stands_openEntry (disk : FileSystem) {fs : Fatfs} (volume : fs.toVolume = disk.v)
    {path dir : List UInt8} (live : Undeleted path) (found : lookup disk.listing path = .ok dir) :
    (fs.openEntry dir).Stands disk (some (disk.contents dir)) := by
  obtain ⟨fn, member, start, hit, file⟩ := find_of_lookup found
  refine ⟨disk.clusters dir, volume, disk.formatted, disk.stores_of_find hit file (live fn member), ⟨?_, ?_, ?_⟩, rfl,
    rfl⟩
  · exact Nat.zero_le _
  · exact fun some => absurd some (Nat.lt_irrefl 0)
  · exact fun inner => absurd rfl inner

variable {disk : FileSystem} {faulty : Prop} {fs : Fatfs} {left : Option (List UInt8)}

theorem pfOpen_file (mounted : fs.toVolume = disk.v) (dj : Dir) (dir : List UInt8) {path : List UInt8}
    (live : Undeleted path) :
    (pfOpen (some fs) dj dir path).Under (service disk.medium faulty disk.v.area) fun out =>
      (match disk.file path with
        | .ok bytes => out.1 = .ok ∧ ∃ after, out.2 = some after ∧ after.Stands disk (some bytes)
        | .error res => out = (res, some fs.close)) ∨
      faulty ∧ out = (.diskErr, some fs.close) := by
  have opening : (pfOpen (some fs) dj dir path).Under (service disk.medium faulty fs.area) _ :=
    pfOpen_lookup (by rw [mounted]; exact disk.formatted) (by rw [mounted]; exact disk.directories) dj dir live
  rw [mounted] at opening
  apply opening.mono
  intro out outcome
  apply outcome.imp_left
  change (match lookup disk.listing path with
    | .ok entry => out = (.ok, some (fs.openEntry entry))
    | .error res => out = (res, some fs.close)) → _
  rw [FileSystem.file]
  cases found : lookup disk.listing path with
  | ok entry =>
    rintro rfl
    exact ⟨rfl, _, rfl, disk.stands_openEntry mounted live found⟩
  | error res => exact id

theorem perform_under (stands : fs.Stands disk left) {call : Call} (live : call.Live) :
    (perform (some fs) call).Under (service disk.medium faulty disk.v.area) fun out =>
      ∃ fs' after, out.2 = some fs' ∧ disk.Step faulty left call out.1 after ∧ fs'.Stands disk after := by
  have mounted := stands.volume
  cases call with
  | openPath dj dir path =>
    apply (pfOpen_file mounted dj dir live).bind
    intro out outcome
    rcases outcome with outcome | ⟨fault, rfl⟩
    · cases found : disk.file path with
      | ok bytes =>
        rw [found] at outcome
        obtain ⟨ok, after, same, opened⟩ := outcome
        refine ⟨after, some bytes, same, .inl ?_, opened⟩
        rw [found]
        exact ⟨by rw [ok], rfl⟩
      | error res =>
        rw [found] at outcome
        obtain rfl := outcome
        refine ⟨_, none, rfl, .inl ?_, mounted, rfl⟩
        rw [found]
        exact ⟨rfl, rfl⟩
    · exact ⟨_, none, rfl, .inr ⟨fault, rfl, rfl⟩, mounted, rfl⟩
  | read btr =>
    cases left with
    | none =>
      rw [perform, pfRead, if_pos stands.2]
      exact ⟨fs, none, rfl, ⟨rfl, rfl⟩, stands⟩
    | some left =>
      obtain ⟨clusters, opened⟩ := stands
      apply (pfRead_under opened btr.toNat_lt).bind
      rintro out ⟨r, ⟨count, outcome⟩, rfl⟩
      rcases outcome with ⟨ok, data, rest⟩ | ⟨fault, err, front, closed, same⟩
      · exact ⟨r.fs, _, rfl, .inl ⟨by rw [ok, count, data], rfl⟩, clusters, rest⟩
      · exact ⟨r.fs, none, rfl, .inr ⟨fault, r.data, front, by rw [err, count], rfl⟩, same, closed⟩

theorem performAll_under (stands : fs.Stands disk left) {calls : List Call} (live : ∀ call ∈ calls, call.Live) :
    (performAll (some fs) calls).Under (service disk.medium faulty disk.v.area) (disk.Runs faulty left calls) := by
  induction calls generalizing fs left with
  | nil => exact Program.under_pure rfl
  | cons call calls ih =>
    rw [List.forall_mem_cons] at live
    apply (perform_under stands live.1).bind
    rintro out ⟨fs', after, same, step, stands⟩
    rw [same]
    apply (ih stands live.2).bind
    intro later runs
    exact Program.under_pure ⟨out.1, after, later, step, rfl, runs⟩

/-- The volume of `tinyLayout` has one directory, the root. -/
def tinyExtents (start : Nat) : Option Extent := if start = 0 then some .root else none

theorem tiny_formatted : (tinyLayout.volume 0).Formatted tinyMedium tinyEntries where
  power := ⟨0, rfl⟩
  boot := by decide
  reserved := by decide
  length := rfl
  small := by decide
  stored := by decide +kernel
  aligned := by decide
  fat_room := by decide
  root_room := by decide
  data_room := by decide

theorem tiny_find {start : Nat} {extent : Extent} {fn dir : List UInt8} (lies : tinyExtents start = some extent)
    (found : find fn (extent.listing (tinyLayout.volume 0) tinyMedium) = some dir) :
    start = 0 ∧ extent = .root ∧ dir = tinyFile := by
  rw [tinyExtents] at lies
  split at lies
  · rename_i zero
    cases lies
    have used : ((Extent.root.listing (tinyLayout.volume 0) tinyMedium).takeWhile fun dir => dir.getD 0 0 ≠ 0) =
        [tinyFile] := by decide +kernel
    have member := List.mem_of_find?_eq_some found
    rw [used, List.mem_singleton] at member
    exact ⟨zero, rfl, member⟩
  · cases lies

def tinyDisk : FileSystem where
  v := tinyLayout.volume 0
  medium := tinyMedium
  entries := tinyEntries
  extents := tinyExtents
  clusters _ := [2, 3]
  formatted := tiny_formatted
  directories := {
    root := rfl
    valid := by
      intro start extent lies
      rw [tinyExtents] at lies
      split at lies
      · cases lies
        exact ⟨‹_›, Nat.succ_pos 15⟩
      · cases lies
    closed := by
      intro start extent fn dir lies found sub live
      obtain ⟨-, -, rfl⟩ := tiny_find lies found
      exact absurd sub (by decide +kernel) }
  files := by
    intro start extent fn dir lies found file live
    obtain ⟨-, -, rfl⟩ := tiny_find lies found
    refine ⟨⟨by decide, ?_⟩, .inr rfl, by decide +kernel, by decide +kernel⟩
    intro i c next here behind
    match i with
    | 0 =>
      cases here
      exact behind
    | i + 1 => cases behind

/-- On a mounted volume, opens and reads in any order behave as those of a reader who knows the files. -/
theorem performAll_runs (disk : FileSystem) (faulty : Prop) {fs : Fatfs} (mounted : fs.toVolume = disk.v)
    (closed : fs.flag = false) {calls : List Call} (live : ∀ call ∈ calls, call.Live) :
    (performAll (some fs) calls).Under (service disk.medium faulty disk.v.area) (disk.Runs faulty none calls) :=
  performAll_under (show fs.Stands disk none from ⟨mounted, closed⟩) live

theorem performAll_runs_tiny :
    (performAll (some (tinyFatfs.mount (tinyLayout.volume 0))) [.read 1]).Under
      (service tinyMedium True tinyDisk.v.area) (tinyDisk.Runs True none [.read 1]) :=
  performAll_runs tinyDisk True rfl rfl (by simp [Call.Live])

/-- What stands in the file with these names, from the root on. -/
def FileSystem.named (disk : FileSystem) (names : List ShortName) : Except FResult (List UInt8) := do
  let dir ← resolve disk.listing 0 (names.map fun n => n.field)
  if isDir dir then .error .noFile else .ok (disk.contents dir)

theorem FileSystem.file_pathOf (disk : FileSystem) {names : List ShortName} (some : names ≠ []) (blanks : Nat)
    {slash : List UInt8} (optional : slash = [] ∨ slash = ['/'.toUInt8]) :
    disk.file (List.replicate blanks ' '.toUInt8 ++ (slash ++ pathOf names)) = disk.named names := by
  obtain ⟨c, rest, path, above, -⟩ := pathOf_head some
  have inside : ¬ (pathOf names).headD 0 ≤ ' '.toUInt8 := by
    rw [path]
    simpa using above
  rw [file, lookup, relative_pathOf some blanks optional, if_neg inside, segments_pathOf some, named]
  cases resolve disk.listing 0 (names.map fun n => n.field) with
  | error res => rfl
  | ok dir =>
    simp only [bind, Except.bind]
    split <;> rfl

theorem undeleted_pathOf {names : List ShortName} (some : names ≠ []) (blanks : Nat) {slash : List UInt8}
    (optional : slash = [] ∨ slash = ['/'.toUInt8]) :
    Undeleted (List.replicate blanks ' '.toUInt8 ++ (slash ++ pathOf names)) := by
  rw [Undeleted, relative_pathOf some blanks optional, segments_pathOf some, List.forall_mem_map]
  exact fun n _ => n.isDeleted_field

theorem FileSystem.ne_ok_of_named (disk : FileSystem) {names : List ShortName} {res : FResult}
    (found : disk.named names = .error res) : res ≠ .ok := by
  rw [named] at found
  rcases resolve_cases 0 (names.map fun n => n.field) with ⟨fn, -, start, dir, hit, resolved⟩ | resolved | resolved
  all_goals
    rw [resolved] at found
    simp only [bind, Except.bind] at found
  · split at found
    · cases found
      decide
    · cases found
  all_goals
    cases found
    decide

theorem pfOpen_pathOf (mounted : fs.toVolume = disk.v) {names : List ShortName} (some : names ≠ []) (blanks : Nat)
    {slash : List UInt8} (optional : slash = [] ∨ slash = ['/'.toUInt8]) (dj : Dir) (dir : List UInt8) :
    (pfOpen (.some fs) dj dir (List.replicate blanks ' '.toUInt8 ++ (slash ++ pathOf names))).Under
      (service disk.medium False disk.v.area) fun out =>
        match disk.named names with
        | .ok bytes => out.1 = .ok ∧ ∃ after, out.2 = .some after ∧ after.Stands disk (.some bytes)
        | .error res => out = (res, .some fs.close) := by
  rw [← disk.file_pathOf some blanks optional]
  apply (pfOpen_file mounted dj dir (undeleted_pathOf some blanks optional)).mono
  intro out outcome
  exact outcome.resolve_right And.left

/-- A path of short names opens the file that has them in the directories in upper case. -/
theorem pfOpen_names (disk : FileSystem) {fs : Fatfs} (mounted : fs.toVolume = disk.v) {names : List ShortName}
    (some : names ≠ []) (blanks : Nat) {slash : List UInt8} (optional : slash = [] ∨ slash = ['/'.toUInt8]) (dj : Dir)
    (dir : List UInt8) :
    (pfOpen (.some fs) dj dir (List.replicate blanks ' '.toUInt8 ++ (slash ++ pathOf names))).Under
      (service disk.medium False disk.v.area) fun out =>
        match disk.named names with
        | .ok bytes => out.1 = .ok ∧ ∃ after, out.2 = .some after ∧ after.Stands disk (.some bytes)
        | .error res => out = (res, .some fs.close) :=
  pfOpen_pathOf mounted some blanks optional dj dir

/-- The file of `tinyDisk`, in lower case. -/
def helloTxt : ShortName where
  base := "hello".toList.map Char.toUInt8
  ext := some ("txt".toList.map Char.toUInt8)
  base_le := by decide
  ext_le := by decide
  base_plain := by
    unfold Plain
    decide +kernel
  ext_plain := by
    unfold Plain
    decide +kernel
  base_ne_nil := by decide
  live := by decide

theorem pfOpen_names_tiny :
    (pfOpen (some (tinyFatfs.mount (tinyLayout.volume 0))) ⟨0, [], false, 0, 0, 0⟩ []
      (List.replicate 2 ' '.toUInt8 ++ (['/'.toUInt8] ++ pathOf [helloTxt]))).Under
      (service tinyDisk.medium False tinyDisk.v.area) fun out =>
        match tinyDisk.named [helloTxt] with
        | .ok bytes => out.1 = .ok ∧ ∃ after, out.2 = some after ∧ after.Stands tinyDisk (some bytes)
        | .error res => out = (res, some (tinyFatfs.mount (tinyLayout.volume 0)).close) :=
  pfOpen_names tinyDisk rfl (by simp) 2 (.inr rfl) ⟨0, [], false, 0, 0, 0⟩ []

/-- A name that is too long is not refused, wherever it stands: the first character too many counts as a separator,
and is lost. -/
theorem pfOpen_overrun (blanks : Nat) {slash : List UInt8} (optional : slash = [] ∨ slash = ['/'.toUInt8])
    (names : List Stem) {s : Stem} {c : UInt8} (excess : s.Overrun c) (rest : List UInt8) (FatFs : Option Fatfs)
    (dj : Dir) (dir : List UInt8) :
    pfOpen FatFs dj dir
        (List.replicate blanks ' '.toUInt8 ++ (slash ++ (folders names ++ (s.text ++ c :: rest)))) =
      pfOpen FatFs dj dir
        (List.replicate blanks ' '.toUInt8 ++ (slash ++ (folders names ++ (s.text ++ '/'.toUInt8 :: rest)))) := by
  have made : createName (s.text ++ c :: rest) = createName (s.text ++ '/'.toUInt8 :: rest) := by
    rw [Stem.createName_overrun excess, s.createName_slash]
  obtain ⟨left, relative⟩ := relative_folders blanks optional names (Stem.text_ne_nil excess)
  have head : (folders left ++ (s.text ++ c :: rest)).headD 0 =
      (folders left ++ (s.text ++ '/'.toUInt8 :: rest)).headD 0 := by
    obtain ⟨first, front, chars⟩ := List.exists_cons_of_ne_nil
      (List.append_ne_nil_of_right_ne_nil (folders left) (Stem.text_ne_nil excess))
    rw [← List.append_assoc, ← List.append_assoc, chars]
    rfl
  cases FatFs with
  | none => rfl
  | some fs =>
    rw [pfOpen, pfOpen, followPath, followPath, relative, relative, head, followLoop_folders made]

/-- A name without an extension, but with the dot in front of it. -/
def dotted : Stem where
  base := "name".toList.map Char.toUInt8
  ext := some []
  base_le := by decide
  ext_le := by decide
  base_plain := by
    unfold Plain
    decide +kernel
  ext_plain := by simp

theorem pfOpen_overrun_dotted :
    pfOpen (some tinyFatfs) ⟨0, [], false, 0, 0, 0⟩ [] (List.replicate 1 ' '.toUInt8 ++
        ([] ++ (folders [helloTxt.toStem] ++ (dotted.text ++ '.'.toUInt8 :: ['b'.toUInt8])))) =
      pfOpen (some tinyFatfs) ⟨0, [], false, 0, 0, 0⟩ [] (List.replicate 1 ' '.toUInt8 ++
        ([] ++ (folders [helloTxt.toStem] ++ (dotted.text ++ '/'.toUInt8 :: ['b'.toUInt8])))) :=
  pfOpen_overrun 1 (.inl rfl) [helloTxt.toStem]
    (show dotted.Overrun '.'.toUInt8 from ⟨by decide, by decide, .inr rfl⟩) ['b'.toUInt8] (some tinyFatfs)
    ⟨0, [], false, 0, 0, 0⟩ []

end Minimus32.PetitFat
