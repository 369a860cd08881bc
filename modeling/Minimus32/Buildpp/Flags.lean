import Minimus32.Buildpp.Entries
import Mathlib.Data.Fintype.EquivFin

namespace Minimus32.Buildpp

/-- The files with further lines `//#ldflags` at the beginning, with these texts. -/
def Files.withFlags (files : Files) (extra : Name → List Name) : Files where
  entries := files.entries.map fun e => (e.1, (extra e.1).map flagLine ++ e.2)
  plain := by
    intro e member
    obtain ⟨own, inside, rfl⟩ := List.mem_map.mp member
    exact files.plain own inside

section

variable {cfg : Config} {files : Files} {extra : Name → List Name} {file a b : Name}

theorem Files.names_withFlags (files : Files) (extra : Name → List Name) :
    (files.withFlags extra).names = files.names := by
  simp [Files.names, Files.withFlags, Function.comp_def]

theorem Files.length_withFlags (files : Files) (extra : Name → List Name) :
    (files.withFlags extra).entries.length = files.entries.length := List.length_map _

theorem Files.lookup_withFlags (files : Files) (extra : Name → List Name) (name : Name) :
    (files.withFlags extra).entries.lookup name =
      (files.entries.lookup name).map fun lines => (extra name).map flagLine ++ lines := by
  show (files.entries.map _).lookup name = _
  induction files.entries with
  | nil => rfl
  | cons e entries ih =>
    rw [List.map_cons, List.lookup_cons, List.lookup_cons]
    by_cases same : name = e.1
    · simp [same]
    · have other : (name == e.1) = false := beq_eq_false_iff_ne.mpr same
      simp only [other]
      exact ih

theorem parseLines_flagLines (cfg : Config) (texts : List Name) (lines : List Line) :
    parseLines cfg (texts.map flagLine ++ lines) = texts.map (Item.directive .ldflags) ++ parseLines cfg lines := by
  induction texts with
  | nil => rfl
  | cons text texts ih =>
    rw [List.map_cons, List.cons_append, parseLines_flagLine, ih]
    rfl

theorem parseFile_withFlags (cfg : Config) (files : Files) (extra : Name → List Name) (file : Name) :
    parseFile cfg (files.withFlags extra) file =
      (parseFile cfg files file).map fun dep => (extra (cfg.strip file)).map (Item.directive .ldflags) ++ dep := by
  unfold parseFile
  rw [files.lookup_withFlags, Option.map_map, Option.map_map]
  congr 1
  funext lines
  exact parseLines_flagLines cfg _ lines

theorem edge_withFlags : (source cfg (files.withFlags extra)).Edge a b ↔ (source cfg files).Edge a b := by
  rw [edge_iff, edge_iff, parseFile_withFlags]
  cases parseFile cfg files a <;> simp

theorem reaches_withFlags :
    (source cfg (files.withFlags extra)).Reaches a b ↔ (source cfg files).Reaches a b := by
  have same : (source cfg (files.withFlags extra)).Edge = (source cfg files).Edge := by
    funext x y
    exact propext edge_withFlags
  unfold FilteredWalk.Source.Reaches
  rw [same]

theorem Present.withFlags (present : Present cfg files file) (extra : Name → List Name) :
    Present cfg (files.withFlags extra) file := by
  intro m path
  obtain ⟨dep, parsed⟩ := present m (reaches_withFlags.mp path)
  exact ⟨_, by rw [parseFile_withFlags, parsed]; rfl⟩

theorem flag_mem (present : Present cfg files file) {m text : Name} {after : List Name} {items : List Item}
    (reached : (source cfg files).Reaches (cfg.strip file) m) (line : text ∈ extra m)
    (parsed : parseFileRecurcive cfg (files.withFlags extra) (files.entries.length + 1) [] file =
      some (after, items)) : .directive .ldflags text ∈ items := by
  rw [parseFileRecurcive_eq_collect] at parsed
  have enough : (files.withFlags extra).names.length < files.entries.length + 1 := by
    rw [files.names_withFlags, Files.names, List.length_map]
    exact Nat.lt_succ_self _
  rw [FilteredWalk.mem_collect_iff (present.withFlags extra).complete enough parsed rfl]
  obtain ⟨dep, found⟩ := present m reached
  have own : parseFile cfg (files.withFlags extra) m = some ((extra m).map (Item.directive .ldflags) ++ dep) := by
    rw [parseFile_withFlags, found, cfg.strip_of_mem_names (present.complete m reached).1]
    rfl
  exact ⟨m, _, reaches_withFlags.mpr reached, own, List.mem_append_left _ (List.mem_map_of_mem line)⟩

end

theorem exists_text_notMem (items : List Item) : ∃ text, Item.directive .ldflags text ∉ items := by
  let texts := items.filterMap fun i => match i with
    | .directive .ldflags text => some text
    | _ => none
  obtain ⟨text, fresh⟩ := Infinite.exists_notMem_finset texts.toFinset
  refine ⟨text, ?_⟩
  intro member
  apply fresh
  rw [List.mem_toFinset, List.mem_filterMap]
  exact ⟨_, member, rfl⟩

end Minimus32.Buildpp
