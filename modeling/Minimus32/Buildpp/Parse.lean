import Minimus32.Library.FilteredWalk
import Mathlib.Data.List.DropRight

namespace Minimus32.Buildpp

/-- A file name, or another text of a source line. -/
abbrev Name := List Char

instance : LawfulBEq Name := inferInstanceAs (LawfulBEq (List Char))

structure Config where
  codeSuffix : Name
  target : Name
  lazyLinking : Bool
  stripIncludePath : Bool
  suffix_ne : codeSuffix ≠ []
  suffix_plain : ∀ c ∈ codeSuffix, c ≠ '.' ∧ c ≠ '/'

/-- `s/^.+\///` -/
def stripPath (name : Name) : Name :=
  let base := name.rtakeWhile (· ≠ '/')
  if name.length ≤ base.length + 1 then name else base

def Config.strip (cfg : Config) (name : Name) : Name := if cfg.stripIncludePath then stripPath name else name

/-- `s/\.[^\.]+$//` -/
def dropSuffix (name : Name) : Name :=
  let suffix := name.rtakeWhile (· ≠ '.')
  if suffix = [] ∨ suffix.length = name.length then name else name.take (name.length - suffix.length - 1)

def Config.codeFile (cfg : Config) (name : Name) : Name := name ++ '.' :: cfg.codeSuffix

inductive Directive where
  | cflags
  | ldflags
  | exe
  | target
  | lazylinking
  | globalCflags
deriving DecidableEq

/-- The blanks of an `#include`: before the first quote, and on both sides of the name between the quotes. -/
structure Blanks where
  gap : Name
  before : Name
  after : Name
deriving DecidableEq

/-- `/\#include\s+\"\s*(\S+)\s*\"/` matches the entry with these blanks and this name. -/
def Blanks.Accept (blanks : Blanks) (name : Name) : Prop := blanks.gap ≠ [] ∧ name ≠ []

instance (blanks : Blanks) (name : Name) : Decidable (blanks.Accept name) := inferInstanceAs (Decidable (_ ∧ _))

/-- What the patterns of `parseFile` find in a line: the argument of `#target`, that of `#lazylinking`, the blanks and
    the name of an `#include`, and a directive with its text. -/
structure Line where
  target : Option Name
  lazylinking : Option Name
  inc : Option (Blanks × Name)
  directive : Option (Directive × Name)

/-- An entry of a dependency list: `#include` with its blanks and a quoted name, `#link` and a name, or a directive. -/
inductive Item where
  | inc (blanks : Blanks) (name : Name)
  | link (name : Name)
  | directive (kind : Directive) (text : Name)
deriving DecidableEq

/-- The variables of `parseFile` while it reads. -/
structure Scan where
  currentTarget : Name
  currentLazyLinking : Bool
  includeList : List Item

def all : Name := ['a', 'l', 'l']

/-- A project of C files with lazy linking. -/
def cConfig : Config := ⟨['c'], all, true, false, by decide, by simp⟩

/-- `/off/i` and `/on/i`, in this order. -/
def switchLazyLinking (arg : Name) (lazyLinking : Bool) : Bool :=
  let lower := arg.map Char.toLower
  let lazyLinking := if ['o', 'f', 'f'] <:+: lower then false else lazyLinking
  if ['o', 'n'] <:+: lower then true else lazyLinking

def Scan.push (s : Scan) (items : List Item) : Scan := { s with includeList := s.includeList ++ items }

def Scan.pushInclude (cfg : Config) (s : Scan) : Option (Blanks × Name) → Scan
  | none => s
  | some (blanks, name) =>
    let lineFile := cfg.strip name
    s.push (.inc blanks lineFile :: if s.currentLazyLinking then [.link (dropSuffix lineFile)] else [])

def Scan.pushDirective (s : Scan) : Option (Directive × Name) → Scan
  | none => s
  | some (kind, text) => s.push [.directive kind text]

def Scan.line (cfg : Config) (s : Scan) (line : Line) : Scan :=
  let s := { s with
    currentTarget := line.target.getD s.currentTarget
    currentLazyLinking := (line.lazylinking.map (switchLazyLinking · s.currentLazyLinking)).getD s.currentLazyLinking }
  if s.currentTarget = all ∨ cfg.target = s.currentTarget then
    (s.pushInclude cfg line.inc).pushDirective line.directive
  else s

def parseLines (cfg : Config) (lines : List Line) : List Item :=
  (lines.foldl (Scan.line cfg) ⟨all, cfg.lazyLinking, []⟩).includeList

/-- The files that were found, by their names without a path. -/
structure Files where
  entries : List (Name × List Line)
  plain : ∀ e ∈ entries, '/' ∉ e.1

def Files.names (files : Files) : List Name := files.entries.map Prod.fst

/-- `parseFile`; `none` when the file is not found. -/
def parseFile (cfg : Config) (files : Files) (filename : Name) : Option (List Item) :=
  (files.entries.lookup (cfg.strip filename)).map (parseLines cfg)

/-- The entries that come back from a `#link`. -/
def Item.passesLink : Item → Bool
  | .link _ => true
  | .directive .ldflags _ => true
  | .directive .globalCflags _ => true
  | .inc .. | .directive .. => false

/-- The loop over `@subItem`, with `%unique` and `@result`. -/
def pushSubItems : List Item → List Item × List Item → List Item × List Item
  | [], lists => lists
  | subSubItem :: subItem, (unique, result) =>
    if subSubItem ∈ unique then pushSubItems subItem (unique, result)
    else pushSubItems subItem (subSubItem :: unique, result ++ [subSubItem])

/-- The loop over `@dep`. The call of `parseFile` before each recursion is left out: the recursion begins with it, or
    the file has been parsed before. -/
def followItems (cfg : Config) (recurse : List Name → Name → Option (List Name × List Item)) :
    List Item → List Name → List Item × List Item → Option (List Name × List Item)
  | [], passed, (_, result) => some (passed, result)
  | item :: dep, passed, lists =>
    match item with
    | .link newFile =>
      if newFile = [] then followItems cfg recurse dep passed lists
      else (recurse passed (cfg.codeFile newFile)).bind fun sub =>
        followItems cfg recurse dep sub.1 (pushSubItems (sub.2.filter Item.passesLink) lists)
    | .inc blanks newFile =>
      if blanks.Accept newFile then
        (recurse passed newFile).bind fun sub => followItems cfg recurse dep sub.1 (pushSubItems sub.2 lists)
      else followItems cfg recurse dep passed lists
    | .directive .. => followItems cfg recurse dep passed lists

/-- `parseFileRecurcive`, with `%recurivePassedFiles` before and after it; `none` when a file is not found, or when the
    fuel is not enough. -/
def parseFileRecurcive (cfg : Config) (files : Files) : Nat → List Name → Name → Option (List Name × List Item)
  | 0, _, _ => none
  | fuel + 1, passed, file =>
    let file := cfg.strip file
    if file ∈ passed then some (passed, [])
    else (parseFile cfg files file).bind fun dep =>
      followItems cfg (parseFileRecurcive cfg files fuel) dep (file :: passed) ([], dep)

/-- Where the walk goes from an entry; `#include` edges are whole, `#link` edges are not. -/
def Item.next (cfg : Config) : Item → Option (Bool × Name)
  | .link newFile => if newFile = [] then none else some (false, cfg.strip (cfg.codeFile newFile))
  | .inc blanks newFile => if blanks.Accept newFile then some (true, cfg.strip newFile) else none
  | .directive .. => none

def source (cfg : Config) (files : Files) : FilteredWalk.Source Name Item :=
  ⟨parseFile cfg files, Item.next cfg, Item.passesLink⟩

theorem pushSubItems_eq (subItem : List Item) (l : FilteredWalk.Loop Name Item) :
    pushSubItems subItem (l.unique, l.result) =
      ((subItem.foldl FilteredWalk.Loop.push l).unique, (subItem.foldl FilteredWalk.Loop.push l).result) := by
  induction subItem generalizing l with
  | nil => rfl
  | cons item subItem ih =>
    rw [pushSubItems, List.foldl_cons]
    split
    next old =>
      rw [ih, FilteredWalk.Loop.push, if_pos old]
    next new =>
      have pushed : l.push item = { l with unique := item :: l.unique, result := l.result ++ [item] } := if_neg new
      rw [pushed]
      exact ih { l with unique := item :: l.unique, result := l.result ++ [item] }

theorem followItems_eq (cfg : Config) (files : Files)
    {recurse visit : List Name → Name → Option (List Name × List Item)}
    (visits : ∀ passed file, recurse passed file = visit passed (cfg.strip file)) (dep : List Item)
    (l : FilteredWalk.Loop Name Item) :
    followItems cfg recurse dep l.seen (l.unique, l.result) =
      (FilteredWalk.follow (source cfg files) visit dep l).map fun l => (l.seen, l.result) := by
  have pushAll (seen : List Name) (l : FilteredWalk.Loop Name Item) (subItem : List Item) :
      pushSubItems subItem (l.unique, l.result) =
        ((l.pushAll seen subItem).unique, (l.pushAll seen subItem).result) :=
    pushSubItems_eq subItem { l with seen }
  induction dep generalizing l with
  | nil => rfl
  | cons item dep ih =>
    have later (seen : List Name) (subItem : List Item) :
        followItems cfg recurse dep seen (pushSubItems subItem (l.unique, l.result)) =
          (FilteredWalk.follow (source cfg files) visit dep (l.pushAll seen subItem)).map
            fun l => (l.seen, l.result) := by
      rw [← ih, l.seen_pushAll, pushAll]
    unfold followItems FilteredWalk.follow
    cases item with
    | link newFile =>
      by_cases empty : newFile = []
      · simp only [source, Item.next, if_pos empty]
        exact ih l
      · simp only [source, Item.next, if_neg empty, visits, Option.map_bind]
        congr 1
        funext sub
        exact later sub.1 (sub.2.filter Item.passesLink)
    | inc blanks newFile =>
      by_cases accept : blanks.Accept newFile
      · simp only [source, Item.next, if_pos accept, visits, Option.map_bind]
        congr 1
        funext sub
        have whole : (source cfg files).keep true sub.2 = sub.2 := List.filter_eq_self.mpr (fun _ _ => rfl)
        show _ = Option.map _ (FilteredWalk.follow (source cfg files) visit dep
          (l.pushAll sub.1 ((source cfg files).keep true sub.2)))
        rw [whole]
        exact later sub.1 sub.2
      · simp only [source, Item.next, if_neg accept]
        exact ih l
    | directive kind text => exact ih l

/-- The recursion is the filtered walk over the files' entries. -/
theorem parseFileRecurcive_eq_collect (cfg : Config) (files : Files) (fuel : Nat) (passed : List Name) (file : Name) :
    parseFileRecurcive cfg files fuel passed file =
      FilteredWalk.collect (source cfg files) fuel passed (cfg.strip file) := by
  induction fuel generalizing passed file with
  | zero => rfl
  | succ fuel ih =>
    unfold parseFileRecurcive FilteredWalk.collect
    dsimp only
    split
    · rfl
    · show Option.bind (parseFile cfg files _) _ = Option.bind (parseFile cfg files _) _
      congr 1
      funext dep
      exact followItems_eq cfg files (fun passed file => ih passed file) dep ⟨cfg.strip file :: passed, [], dep⟩

end Minimus32.Buildpp
