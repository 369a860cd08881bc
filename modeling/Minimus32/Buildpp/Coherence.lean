import Minimus32.Buildpp.Cache
import Minimus32.Buildpp.Flags

namespace Minimus32.Buildpp

structure Edited (edited : List Name) (files files' : Files) : Prop where
  names : files'.names = files.names
  others : ∀ m, m ∉ edited → files'.entries.lookup m = files.entries.lookup m

/-- With these `.d` files, a run that begins with this file has the entries of a new parse. -/
def Coherent (cfg : Config) (files : Files) (time : Name → Int) (now : Int) (dFiles : Name → Option (Int × List Item))
    (file : Name) : Prop :=
  ∃ run deps passed fresh, parseFileCached cfg files time now (Run.start dFiles) file = some (run, deps) ∧
    (∀ fuel > files.entries.length, parseFileRecurcive cfg files fuel [] file = some (passed, fresh)) ∧
    ∀ i, i ∈ deps ↔ i ∈ fresh

section

variable {cfg : Config} {files files' : Files} {time : Name → Int} {written now : Int} {edited : List Name}
  {file : Name} {deps : List Item}

theorem Edited.length (edit : Edited edited files files') : files'.entries.length = files.entries.length := by
  have same := congrArg List.length edit.names
  rwa [Files.names, Files.names, List.length_map, List.length_map] at same

theorem Edited.withFlags {texts : List Name} {e : Name} (member : e ∈ edited) :
    Edited edited files (files.withFlags fun name => if name = e then texts else []) where
  names := files.names_withFlags _
  others := by
    intro m outside
    have different : m ≠ e := fun same => outside (same ▸ member)
    rw [files.lookup_withFlags, if_neg different]
    simp

/-- An edit that nothing of the file's list comes from does not change the list. -/
theorem Edited.parseFileRecurcive_eq (edit : Edited edited files files') (present : Present cfg files file)
    (apart : ∀ e ∈ edited, ¬ (source cfg files).Reaches (cfg.strip file) e) (fuel : Nat) :
    (parseFileRecurcive cfg files' fuel [] file).map Prod.snd =
      (parseFileRecurcive cfg files fuel [] file).map Prod.snd := by
  have agree (m : Name) (path : (source cfg files).Reaches (cfg.strip file) m) :
      (source cfg files').items m = (source cfg files).items m ∧ (m ∈ [] ↔ m ∈ []) := by
    have name := cfg.strip_of_mem_names (present.complete m path).1
    have same : parseFile cfg files' m = parseFile cfg files m := by
      unfold parseFile
      rw [name, edit.others m (fun inside => apart m inside path)]
    exact ⟨same, Iff.rfl⟩
  rw [parseFileRecurcive_eq_collect, parseFileRecurcive_eq_collect]
  have next : (source cfg files').next = (source cfg files).next := rfl
  exact FilteredWalk.collect_same_items next rfl agree fuel

theorem parseFileCached_start (name : cfg.strip file = file) {dFiles : Name → Option (Int × List Item)}
    (disk : dFiles file = some (written, deps)) :
    parseFileCached cfg files time now (Run.start dFiles) file =
      (rebuild cfg files time (some (written, deps)) file).bind fun stale =>
        if stale then
          (parseFileRecurcive cfg files (files.entries.length + 1) [] file).map fun out =>
            ((Run.start dFiles).store now file out.1 out.2, out.2)
        else some (Run.start dFiles, deps) := by
  have found : (Run.start dFiles).dFiles file = some (written, deps) := disk
  rw [parseFileCached_of_absent name rfl, found]
  rfl

theorem coherent_of_stale (name : cfg.strip file = file) (present : Present cfg files file)
    {dFiles : Name → Option (Int × List Item)} (disk : dFiles file = some (written, deps))
    (stale : rebuild cfg files time (some (written, deps)) file = some true) :
    Coherent cfg files time now dFiles file := by
  obtain ⟨passed, _, fresh, _, parsed, _, _⟩ := present.parseFileRecurcive []
  refine ⟨(Run.start dFiles).store now file passed fresh, fresh, passed, fresh, ?_, parsed, fun _ => Iff.rfl⟩
  rw [parseFileCached_start name disk, stale, Option.bind_some, if_pos rfl, parsed _ (Nat.lt_succ_self _)]
  rfl

/-- A `.d` file that is taken as it is has to have the entries of a new parse. -/
theorem coherent_iff_of_fresh (name : cfg.strip file = file) (present : Present cfg files file)
    {dFiles : Name → Option (Int × List Item)} (disk : dFiles file = some (written, deps))
    (fresh : rebuild cfg files time (some (written, deps)) file = some false) {passed : List Name} {items : List Item}
    (parsed : parseFileRecurcive cfg files (files.entries.length + 1) [] file = some (passed, items)) :
    Coherent cfg files time now dFiles file ↔ ∀ i, i ∈ deps ↔ i ∈ items := by
  have called : parseFileCached cfg files time now (Run.start dFiles) file = some (Run.start dFiles, deps) := by
    rw [parseFileCached_start name disk, fresh]
    rfl
  constructor
  · rintro ⟨_, _, _, _, again, every, same⟩
    cases called.symm.trans again
    cases parsed.symm.trans (every _ (Nat.lt_succ_self _))
    exact same
  · intro same
    obtain ⟨_, _, _, _, every, _, _⟩ := present.parseFileRecurcive []
    cases parsed.symm.trans (every _ (Nat.lt_succ_self _))
    exact ⟨_, deps, passed, items, called, every, same⟩

end

/-- The `.d` file that a run has written stays good through every edit of these files exactly when it is then found to
    be stale, or when nothing of its list comes from them. -/
theorem parseFileCached_coherent_iff (cfg : Config) (files : Files) (file : Name) (found : file ∈ files.names)
    (present : Present cfg files file) (times : Name → Int) (written : Int) (dFiles : Name → Option (Int × List Item))
    (stale : rebuild cfg files times (dFiles file) file = some true) (run : Run) (deps : List Item)
    (first : parseFileCached cfg files times written (Run.start dFiles) file = some (run, deps))
    (edited : List Name) (time : Name → Int) (now : Int) :
    (∀ files', Edited edited files files' → Present cfg files' file →
        Coherent cfg files' time now run.dFiles file) ↔
      rebuild cfg files time (some (written, deps)) file = some true ∨
        rebuild cfg files time (some (written, deps)) file = some false ∧
          ∀ e ∈ edited, ¬ (source cfg files).Reaches file e := by
  have name := cfg.strip_of_mem_names found
  have root : (source cfg files).Reaches (cfg.strip file) = (source cfg files).Reaches file := by rw [name]
  obtain ⟨passed, parsed, disk⟩ : ∃ passed, parseFileRecurcive cfg files (files.entries.length + 1) [] file =
      some (passed, deps) ∧ run.dFiles file = some (written, deps) := by
    rw [parseFileCached_of_absent name rfl, show (Run.start dFiles).dFiles file = dFiles file from rfl, stale] at first
    obtain ⟨⟨passed, items⟩, parsed, same⟩ := Option.map_eq_some_iff.mp first
    cases same
    exact ⟨passed, parsed, Function.update_self ..⟩
  constructor
  · intro coherent
    cases tested : rebuild cfg files time (some (written, deps)) file with
    | none =>
      obtain ⟨_, _, _, _, called, _⟩ := coherent files ⟨rfl, fun _ _ => rfl⟩ present
      rw [parseFileCached_start name disk, tested] at called
      cases called
    | some again =>
      cases again with
      | true => exact .inl rfl
      | false =>
        refine .inr ⟨rfl, ?_⟩
        intro e member reached
        -- A new line in the edited file is in the list of a new parse, and not in the old one.
        obtain ⟨text, unlisted⟩ := exists_text_notMem deps
        have edit : Edited edited files (files.withFlags fun name => if name = e then [text] else []) :=
          .withFlags member
        have later := present.withFlags fun name => if name = e then [text] else []
        obtain ⟨after, _, items, _, reparsed, _, _⟩ := later.parseFileRecurcive []
        have listed : .directive .ldflags text ∈ items :=
          flag_mem present (root ▸ reached) (by simp) (reparsed _ (by rw [edit.length]; exact Nat.lt_succ_self _))
        have same := (coherent_iff_of_fresh name later disk (by rw [rebuild_of_names edit.names, tested])
          (reparsed _ (Nat.lt_succ_self _))).mp (coherent _ edit later)
        exact unlisted ((same _).mpr listed)
  · rintro (tested | ⟨tested, apart⟩) files' edit later
    · exact coherent_of_stale name later disk (by rw [rebuild_of_names edit.names, tested])
    · rw [← root] at apart
      have same := edit.parseFileRecurcive_eq present apart (files.entries.length + 1)
      rw [parsed] at same
      obtain ⟨⟨after, items⟩, reparsed, equal⟩ := Option.map_eq_some_iff.mp same
      rw [← edit.length] at reparsed
      refine (coherent_iff_of_fresh name later disk (by rw [rebuild_of_names edit.names, tested]) reparsed).mpr ?_
      intro i
      rw [show items = deps from equal]

def smallFiles : Files where
  entries := [(['f', '.', 'c'], [includeLine ['a', '.', 'h']]), (['a', '.', 'h'], []), (['a', '.', 'c'], []),
    (['b', '.', 'h'], [])]
  plain := by decide

def smallDeps : List Item := [.inc oneBlank ['a', '.', 'h'], .link ['a']]

/-- A blank between the quotes is enough for a name that is not found. -/
example : rebuild cConfig smallFiles (fun _ => 1) (some (10, [.inc ⟨[' '], [' '], []⟩ ['a', '.', 'h'], .link ['a']]))
    ['f', '.', 'c'] = none := by decide

/-- The run that writes `f.c.d` at the time 10. -/
theorem parseFileCached_small :
    ∃ run, parseFileCached cConfig smallFiles (fun _ => 1) 10 (Run.start fun _ => none) ['f', '.', 'c'] =
      some (run, smallDeps) := by
  have parsed : parseFileRecurcive cConfig smallFiles (smallFiles.entries.length + 1)
      (Run.start fun _ => none).passed ['f', '.', 'c'] =
      some ([['a', '.', 'c'], ['a', '.', 'h'], ['f', '.', 'c']], smallDeps) := by decide +kernel
  have stale : rebuild cConfig smallFiles (fun _ => 1) ((Run.start fun _ => none).dFiles ['f', '.', 'c'])
      ['f', '.', 'c'] = some true := rfl
  rw [parseFileCached_of_absent rfl rfl, stale, Option.bind_some, if_pos rfl, parsed]
  exact ⟨_, rfl⟩

theorem parseFileCached_coherent_header :
    ∃ run, parseFileCached cConfig smallFiles (fun _ => 1) 10 (Run.start fun _ => none) ['f', '.', 'c'] =
        some (run, smallDeps) ∧
      ∀ files', Edited [['a', '.', 'h']] smallFiles files' → Present cConfig files' ['f', '.', 'c'] →
        Coherent cConfig files' (fun name => if name = ['a', '.', 'h'] then 11 else 1) 12 run.dFiles
          ['f', '.', 'c'] := by
  obtain ⟨run, called⟩ := parseFileCached_small
  refine ⟨run, called, ?_⟩
  exact (parseFileCached_coherent_iff cConfig smallFiles ['f', '.', 'c'] (by decide)
    (Present.of_closed smallFiles.names (by decide +kernel) (by decide)) (fun _ => 1) 10 (fun _ => none) rfl run
    smallDeps called [['a', '.', 'h']] (fun name => if name = ['a', '.', 'h'] then 11 else 1) 12).mpr
    (.inl (by decide))

/-- The code file of the header gets a line `//#ldflags` at the time 11. -/
def smallFlags : Name → List Name := fun name => if name = ['a', '.', 'c'] then [['-', 'l', 'm']] else []

theorem parseFileCached_incoherent_code :
    ∃ run, parseFileCached cConfig smallFiles (fun _ => 1) 10 (Run.start fun _ => none) ['f', '.', 'c'] =
        some (run, smallDeps) ∧
      Edited [['a', '.', 'c']] smallFiles (smallFiles.withFlags smallFlags) ∧
      Present cConfig (smallFiles.withFlags smallFlags) ['f', '.', 'c'] ∧
      ¬ Coherent cConfig (smallFiles.withFlags smallFlags) (fun name => if name = ['a', '.', 'c'] then 11 else 1) 12
        run.dFiles ['f', '.', 'c'] := by
  obtain ⟨run, called⟩ := parseFileCached_small
  have edit : Edited [['a', '.', 'c']] smallFiles (smallFiles.withFlags smallFlags) := .withFlags (by decide)
  have present : Present cConfig (smallFiles.withFlags smallFlags) ['f', '.', 'c'] :=
    (Present.of_closed smallFiles.names (by decide +kernel) (by decide)).withFlags smallFlags
  refine ⟨run, called, edit, present, ?_⟩
  have disk : run.dFiles ['f', '.', 'c'] = some (10, smallDeps) := by
    rcases parseFileCached_cases called with ⟨cached, _⟩ | ⟨_, ⟨_, _, _, rfl⟩ | ⟨_, written, _⟩⟩
    · cases cached
    · rfl
    · cases written
  have parsed : parseFileRecurcive cConfig (smallFiles.withFlags smallFlags) 5 [] ['f', '.', 'c'] =
      some ([['a', '.', 'c'], ['a', '.', 'h'], ['f', '.', 'c']],
        smallDeps ++ [.directive .ldflags ['-', 'l', 'm']]) := by decide +kernel
  rw [coherent_iff_of_fresh rfl present disk (by decide) parsed]
  intro same
  exact absurd ((same (.directive .ldflags ['-', 'l', 'm'])).mpr (by simp)) (by decide)

end Minimus32.Buildpp
