import Minimus32.Buildpp.Entries

namespace Minimus32.Buildpp

/-- The loop of `findBuildFilesForFile` over the list, with the objects of `%linkMap` by their names without suffix, in
    the order of `$linkLine`. -/
def pushObjects : List Item → List Name → List Name
  | [], objects => objects
  | .link oFile :: linkList, objects =>
    if oFile = [] ∨ oFile ∈ objects then pushObjects linkList objects else pushObjects linkList (objects ++ [oFile])
  | .inc .. :: linkList, objects => pushObjects linkList objects
  | .directive .. :: linkList, objects => pushObjects linkList objects

def linkedObjects (filename : Name) (linkList : List Item) : List Name := pushObjects linkList [filename]

theorem pushObjects_spec (linkList : List Item) {objects : List Name} (once : objects.Nodup) :
    (pushObjects linkList objects).Nodup ∧
      ∀ base, base ∈ pushObjects linkList objects ↔ base ∈ objects ∨ base ≠ [] ∧ .link base ∈ linkList := by
  induction linkList generalizing objects with
  | nil => exact ⟨once, by simp [pushObjects]⟩
  | cons item linkList ih =>
    cases item with
    | inc blanks name =>
      obtain ⟨nodup, members⟩ := ih once
      exact ⟨nodup, by simpa [pushObjects] using members⟩
    | directive kind text =>
      obtain ⟨nodup, members⟩ := ih once
      exact ⟨nodup, by simpa [pushObjects] using members⟩
    | link oFile =>
      unfold pushObjects
      split
      next skipped =>
        obtain ⟨nodup, members⟩ := ih once
        refine ⟨nodup, ?_⟩
        intro base
        rw [members]
        simp only [List.mem_cons, Item.link.injEq]
        constructor
        · rintro (old | ⟨stem, later⟩)
          · exact .inl old
          · exact .inr ⟨stem, .inr later⟩
        · rintro (old | ⟨stem, rfl | later⟩)
          · exact .inl old
          · exact .inl (skipped.resolve_left stem)
          · exact .inr ⟨stem, later⟩
      next pushed =>
        have longer : (objects ++ [oFile]).Nodup := by
          rw [← List.concat_eq_append]
          exact once.concat (fun old => pushed (.inr old))
        obtain ⟨nodup, members⟩ := ih longer
        refine ⟨nodup, ?_⟩
        intro base
        rw [members]
        simp only [List.mem_append, List.mem_cons, List.not_mem_nil, or_false, Item.link.injEq]
        constructor
        · rintro ((old | rfl) | ⟨stem, later⟩)
          · exact .inl old
          · exact .inr ⟨fun empty => pushed (.inl empty), .inl rfl⟩
          · exact .inr ⟨stem, .inr later⟩
        · rintro (old | ⟨stem, rfl | later⟩)
          · exact .inl (.inl old)
          · exact .inl (.inr rfl)
          · exact .inr ⟨stem, later⟩

def Unswitched (files : Files) : Prop := ∀ e ∈ files.entries, ∀ line ∈ e.2, line.lazylinking = none

theorem link_mem_parseFile {cfg : Config} {files : Files} (lazily : cfg.lazyLinking = true)
    (unswitched : Unswitched files) {file : Name} {dep : List Item} (parsed : parseFile cfg files file = some dep)
    {blanks : Blanks} {name : Name} (member : .inc blanks name ∈ dep) : .link (dropSuffix name) ∈ dep := by
  obtain ⟨lines, found, rfl⟩ := Option.map_eq_some_iff.mp parsed
  exact link_mem_parseLines lazily (unswitched _ (mem_entries_of_lookup found)) member

theorem link_of_reached {cfg : Config} {files : Files} (lazily : cfg.lazyLinking = true)
    (unswitched : Unswitched files) {file base : Name}
    (reached : (source cfg files).Reaches file (cfg.codeFile base)) :
    file = cfg.codeFile base ∨ ∃ m dep, (source cfg files).Reaches file m ∧ parseFile cfg files m = some dep ∧
      .link base ∈ dep := by
  rcases Relation.ReflTransGen.cases_tail reached with same | ⟨m, path, edge⟩
  · exact .inl same.symm
  · obtain ⟨dep, parsed, ⟨blanks, _, member⟩ | ⟨other, _, member, same⟩⟩ := edge_iff.mp edge
    · have linked := link_mem_parseFile lazily unswitched parsed member
      rw [cfg.dropSuffix_codeFile] at linked
      exact .inr ⟨m, dep, path, parsed, linked⟩
    · rw [← cfg.codeFile_inj same] at member
      exact .inr ⟨m, dep, path, parsed, member⟩

theorem reached_of_link {cfg : Config} {files : Files} {file m base : Name} {dep : List Item}
    (path : (source cfg files).Reaches file m) (parsed : parseFile cfg files m = some dep) (stem : base ≠ [])
    (member : .link base ∈ dep) : (source cfg files).Reaches file (cfg.codeFile base) :=
  path.tail (edge_iff.mpr ⟨dep, parsed, .inr ⟨base, stem, member, rfl⟩⟩)

/-- The objects of an executable are those of the code files it reaches; only a file whose name is the suffix alone
    has no link that names it. -/
theorem linkedObjects_complete_iff (cfg : Config) (files : Files) (lazily : cfg.lazyLinking = true)
    (unswitched : Unswitched files) (file : Name) (found : cfg.codeFile file ∈ files.names)
    (present : Present cfg files (cfg.codeFile file)) :
    ∃ passed linkList,
      (∀ fuel > files.entries.length,
        parseFileRecurcive cfg files fuel [] (cfg.codeFile file) = some (passed, linkList)) ∧
      (linkedObjects file linkList).Nodup ∧
      (∀ base ∈ linkedObjects file linkList, (source cfg files).Reaches (cfg.codeFile file) (cfg.codeFile base)) ∧
      ((∀ base, (source cfg files).Reaches (cfg.codeFile file) (cfg.codeFile base) →
          base ∈ linkedObjects file linkList) ↔
        file = [] ∨ ¬ (source cfg files).Reaches (cfg.codeFile file) (cfg.codeFile [])) := by
  obtain ⟨passed, _, linkList, _, parsed, _, _⟩ := present.parseFileRecurcive []
  refine ⟨passed, linkList, parsed, ?_⟩
  have links (base : Name) : .link base ∈ linkList ↔ ∃ m dep,
      (source cfg files).Reaches (cfg.codeFile file) m ∧ parseFile cfg files m = some dep ∧ .link base ∈ dep := by
    have collected := parsed _ (Nat.lt_succ_self files.entries.length)
    rw [parseFileRecurcive_eq_collect] at collected
    have members := FilteredWalk.mem_collect_iff present.complete
      (show files.names.length < _ by simp [Files.names]) collected (i := .link base) rfl
    rw [cfg.strip_of_mem_names found] at members
    exact members
  obtain ⟨once, members⟩ := pushObjects_spec linkList (List.nodup_singleton file)
  refine ⟨once, ?_, ?_⟩
  · intro base listed
    rcases (members base).mp listed with own | ⟨stem, member⟩
    · rw [List.mem_singleton.mp own]
      exact .refl
    · obtain ⟨m, dep, path, found, inside⟩ := (links base).mp member
      exact reached_of_link path found stem inside
  · constructor
    · intro every
      by_cases reached : (source cfg files).Reaches (cfg.codeFile file) (cfg.codeFile [])
      · rcases (members []).mp (every [] reached) with own | ⟨stem, _⟩
        · exact .inl (List.mem_singleton.mp own).symm
        · exact absurd rfl stem
      · exact .inr reached
    · intro stems base reached
      apply (members base).mpr
      rcases link_of_reached lazily unswitched reached with same | linked
      · exact .inl (List.mem_singleton.mpr (cfg.codeFile_inj same).symm)
      · by_cases empty : base = []
        · rw [empty] at reached ⊢
          exact .inl (List.mem_singleton.mpr (stems.resolve_right (not_not_intro reached)).symm)
        · exact .inr ⟨empty, (links base).mpr linked⟩

/-- Two headers that include each other, with their code files. -/
def cycleFiles : Files where
  entries := [(['m', '.', 'c'], [includeLine ['a', '.', 'h']]), (['a', '.', 'h'], [includeLine ['b', '.', 'h']]),
    (['a', '.', 'c'], [includeLine ['a', '.', 'h'], includeLine ['b', '.', 'h']]),
    (['b', '.', 'h'], [includeLine ['a', '.', 'h']]), (['b', '.', 'c'], [])]
  plain := by decide

theorem linkedObjects_complete_cycle :
    ∃ passed linkList,
      (∀ fuel > 5, parseFileRecurcive cConfig cycleFiles fuel [] ['m', '.', 'c'] = some (passed, linkList)) ∧
      (linkedObjects ['m'] linkList).Nodup ∧
      ∀ base, base ∈ linkedObjects ['m'] linkList ↔
        (source cConfig cycleFiles).Reaches ['m', '.', 'c'] (cConfig.codeFile base) := by
  have present : Present cConfig cycleFiles ['m', '.', 'c'] := Present.of_closed cycleFiles.names (by decide +kernel)
    (by decide)
  have stems : ¬ (source cConfig cycleFiles).Reaches ['m', '.', 'c'] ['.', 'c'] := by
    intro reached
    obtain ⟨dep, parsed⟩ := present _ reached
    exact absurd parsed (by rw [show parseFile cConfig cycleFiles ['.', 'c'] = none by decide]; exact nofun)
  obtain ⟨passed, linkList, parsed, once, sound, complete⟩ := linkedObjects_complete_iff cConfig cycleFiles rfl
    (by unfold Unswitched; decide) ['m'] (by decide) present
  exact ⟨passed, linkList, parsed, once, fun base => ⟨sound base, complete.mpr (.inr stems) base⟩⟩

/-- A code file without a stem, and one that includes it. -/
def suffixAlone : Files where
  entries := [(['m', '.', 'c'], [includeLine ['.', 'c']]), (['.', 'c'], [])]
  plain := by decide

theorem linkedObjects_suffixAlone :
    Present cConfig suffixAlone ['m', '.', 'c'] ∧
      (source cConfig suffixAlone).Reaches ['m', '.', 'c'] (cConfig.codeFile []) ∧
      ∃ passed linkList,
        (∀ fuel > 2, parseFileRecurcive cConfig suffixAlone fuel [] ['m', '.', 'c'] = some (passed, linkList)) ∧
        [] ∉ linkedObjects ['m'] linkList := by
  have present : Present cConfig suffixAlone ['m', '.', 'c'] := Present.of_closed suffixAlone.names (by decide +kernel)
    (by decide)
  have edge : (source cConfig suffixAlone).Edge ['m', '.', 'c'] ['.', 'c'] :=
    edge_iff.mpr ⟨[.inc oneBlank ['.', 'c'], .link []], by decide, .inl ⟨oneBlank, by decide, by decide⟩⟩
  refine ⟨present, .single edge, ?_⟩
  obtain ⟨passed, _, linkList, _, parsed, _, _⟩ := present.parseFileRecurcive []
  refine ⟨passed, linkList, parsed, ?_⟩
  have first : parseFileRecurcive cConfig suffixAlone 3 [] ['m', '.', 'c'] =
      some ([['.', 'c'], ['m', '.', 'c']], [.inc oneBlank ['.', 'c'], .link []]) := by decide +kernel
  cases first.symm.trans (parsed 3 (by decide))
  decide

end Minimus32.Buildpp
