import Minimus32.Buildpp.Entries
import Mathlib.Logic.Function.Basic

namespace Minimus32.Buildpp

/-- `/\#link\s+([^[\r\n]]+)/` on the entry of a link: a character other than `[`, and the `]` that follow it. -/
def linkPattern : Name → Option Name
  | c :: ']' :: rest => if c = '[' then none else some (c :: ']' :: rest.takeWhile (· = ']'))
  | _ => none

/-- `/\#include\s+\"([^"]+)\"/` on the entry of an include: all that is between its quotes, blanks too. -/
def includePattern (blanks : Blanks) (name : Name) : Option Name :=
  let quoted := (blanks.before ++ name ++ blanks.after).takeWhile (· ≠ '\x22')
  if blanks.gap = [] ∨ quoted = [] then none else some quoted

def Item.depName (cfg : Config) : Item → Option Name
  | .inc blanks name => includePattern blanks name
  | .link name => (linkPattern name).map cfg.codeFile
  | .directive .. => none

/-- The loop of `parseFileCached` over the `.d` file; `none` when a file is not found. -/
def scanLines (cfg : Config) (files : Files) (time : Name → Int) (dTime : Int) : List Item → Option Bool
  | [] => some false
  | line :: lines =>
    match line.depName cfg with
    | none => scanLines cfg files time dTime lines
    | some depName =>
      if depName ∉ files.names then none
      else if dTime ≤ time depName then some true
      else scanLines cfg files time dTime lines

/-- `$rebuild` of `parseFileCached`, from the time and the lines of the `.d` file. -/
def rebuild (cfg : Config) (files : Files) (time : Name → Int) (dFile : Option (Int × List Item)) (filename : Name) :
    Option Bool :=
  match dFile with
  | none => some true
  | some (dTime, lines) =>
    if dTime = -1 ∨ dTime ≤ time filename then some true else scanLines cfg files time dTime lines

/-- `%recurivePassedFiles`, `%depCache` and the `.d` files. -/
structure Run where
  passed : List Name
  depCache : Name → Option (List Item)
  dFiles : Name → Option (Int × List Item)

def Run.start (dFiles : Name → Option (Int × List Item)) : Run := ⟨[], fun _ => none, dFiles⟩

def Run.store (run : Run) (now : Int) (filename : Name) (passed : List Name) (deps : List Item) : Run where
  passed := passed
  depCache := Function.update run.depCache filename (some deps)
  dFiles := Function.update run.dFiles filename (some (now, deps))

/-- `parseFileCached`, when a `.d` file that is written gets the time `now`; `none` when it dies. -/
def parseFileCached (cfg : Config) (files : Files) (time : Name → Int) (now : Int) (run : Run) (filename : Name) :
    Option (Run × List Item) :=
  let filename := cfg.strip filename
  match run.depCache filename with
  | some deps => some (run, deps)
  | none => (rebuild cfg files time (run.dFiles filename) filename).bind fun stale =>
    if stale then
      (parseFileRecurcive cfg files (files.entries.length + 1) run.passed filename).map fun out =>
        (run.store now filename out.1 out.2, out.2)
    else (run.dFiles filename).map fun dFile => (run, dFile.2)

section

variable {cfg : Config} {files : Files} {time : Name → Int} {now : Int} {run after : Run} {filename other : Name}
  {deps others : List Item}

/-- Whether a `.d` file is stale is decided without the contents of the files. -/
theorem rebuild_of_names {files' : Files} (names : files'.names = files.names) (dFile : Option (Int × List Item)) :
    rebuild cfg files' time dFile filename = rebuild cfg files time dFile filename := by
  have scan (dTime : Int) (lines : List Item) :
      scanLines cfg files' time dTime lines = scanLines cfg files time dTime lines := by
    induction lines with
    | nil => rfl
    | cons line lines ih =>
      unfold scanLines
      rw [names, ih]
  unfold rebuild
  cases dFile with
  | none => rfl
  | some d =>
    dsimp only
    rw [scan]

theorem parseFileCached_of_absent (plain : cfg.strip filename = filename) (absent : run.depCache filename = none) :
    parseFileCached cfg files time now run filename =
      (rebuild cfg files time (run.dFiles filename) filename).bind fun stale =>
        if stale then
          (parseFileRecurcive cfg files (files.entries.length + 1) run.passed filename).map fun out =>
            (run.store now filename out.1 out.2, out.2)
        else (run.dFiles filename).map fun dFile => (run, dFile.2) := by
  simp only [parseFileCached, plain, absent]

theorem dFile_of_fresh {dFile : Option (Int × List Item)}
    (fresh : rebuild cfg files time dFile filename = some false) : ∃ dTime lines, dFile = some (dTime, lines) := by
  cases dFile with
  | none => cases fresh
  | some d => exact ⟨d.1, d.2, rfl⟩

/-- Every further call gives this list: it is in the memory, or on the disk and fresh. -/
def Settled (cfg : Config) (files : Files) (time : Name → Int) (run : Run) (filename : Name) (deps : List Item) :
    Prop :=
  run.depCache (cfg.strip filename) = some deps ∨
    run.depCache (cfg.strip filename) = none ∧
      ∃ dTime, run.dFiles (cfg.strip filename) = some (dTime, deps) ∧
        rebuild cfg files time (some (dTime, deps)) (cfg.strip filename) = some false

theorem Settled.answer (settled : Settled cfg files time run filename deps) (passed : List Name) :
    parseFileCached cfg files time now { run with passed } filename = some ({ run with passed }, deps) := by
  rcases settled with cached | ⟨absent, dTime, written, fresh⟩
  · simp [parseFileCached, cached]
  · simp [parseFileCached, absent, written, fresh]

/-- A call finds the list in the memory, parses again and stores it, or reads a fresh `.d` file. -/
theorem parseFileCached_cases (called : parseFileCached cfg files time now run filename = some (after, deps)) :
    run.depCache (cfg.strip filename) = some deps ∧ after = run ∨
      run.depCache (cfg.strip filename) = none ∧
        ((∃ passed, rebuild cfg files time (run.dFiles (cfg.strip filename)) (cfg.strip filename) = some true ∧
            parseFileRecurcive cfg files (files.entries.length + 1) run.passed (cfg.strip filename) =
              some (passed, deps) ∧ after = run.store now (cfg.strip filename) passed deps) ∨
          ∃ dTime, run.dFiles (cfg.strip filename) = some (dTime, deps) ∧
            rebuild cfg files time (some (dTime, deps)) (cfg.strip filename) = some false ∧ after = run) := by
  unfold parseFileCached at called
  dsimp only at called
  cases cached : run.depCache (cfg.strip filename) with
  | some known =>
    rw [cached] at called
    cases called
    exact .inl ⟨rfl, rfl⟩
  | none =>
    rw [cached] at called
    refine .inr ⟨rfl, ?_⟩
    obtain ⟨stale, tested, result⟩ := Option.bind_eq_some_iff.mp called
    cases stale with
    | true =>
      obtain ⟨out, parsed, stored⟩ := Option.map_eq_some_iff.mp result
      cases stored
      exact .inl ⟨out.1, tested, parsed, rfl⟩
    | false =>
      obtain ⟨dFile, written, same⟩ := Option.map_eq_some_iff.mp result
      cases same
      rw [written] at tested
      exact .inr ⟨dFile.1, written, tested, rfl⟩

theorem settled_of_parseFileCached (called : parseFileCached cfg files time now run filename = some (after, deps)) :
    Settled cfg files time after filename deps := by
  rcases parseFileCached_cases called with ⟨cached, rfl⟩ | ⟨absent, ⟨passed, _, _, rfl⟩ | ⟨dTime, written, fresh, rfl⟩⟩
  · exact .inl cached
  · exact .inl (Function.update_self ..)
  · exact .inr ⟨absent, dTime, written, fresh⟩

/-- A call changes nothing that is kept for another file. -/
theorem parseFileCached_frame (called : parseFileCached cfg files time now run filename = some (after, deps))
    (different : other ≠ cfg.strip filename) :
    after.depCache other = run.depCache other ∧ after.dFiles other = run.dFiles other := by
  rcases parseFileCached_cases called with ⟨_, rfl⟩ | ⟨_, ⟨_, _, _, rfl⟩ | ⟨_, _, _, rfl⟩⟩
  · exact ⟨rfl, rfl⟩
  · exact ⟨Function.update_of_ne different .., Function.update_of_ne different ..⟩
  · exact ⟨rfl, rfl⟩

theorem Settled.step (settled : Settled cfg files time run filename deps)
    (called : parseFileCached cfg files time now run other = some (after, others)) :
    Settled cfg files time after filename deps := by
  by_cases same : cfg.strip filename = cfg.strip other
  · have known : parseFileCached cfg files time now run other = some (run, deps) := by
      have again : Settled cfg files time run other deps := by
        unfold Settled at settled ⊢
        rwa [← same]
      exact again.answer run.passed
    cases known.symm.trans called
    exact settled
  · obtain ⟨cache, disk⟩ := parseFileCached_frame called same
    unfold Settled at settled ⊢
    rwa [cache, disk]

end

end Minimus32.Buildpp
