import Minimus32.Buildpp.Parse

namespace Minimus32.Buildpp

theorem mem_rtakeWhile {name : Name} {stop : Char} : stop ∉ name.rtakeWhile (· ≠ stop) := by
  intro member
  have passes := List.mem_rtakeWhile_imp member
  simp at passes

theorem rtakeWhile_append_cons {base suffix : Name} {stop : Char} (plain : stop ∉ suffix) :
    (base ++ stop :: suffix).rtakeWhile (· ≠ stop) = suffix := by
  have passes : ∀ c ∈ suffix.reverse, (c ≠ stop) := by
    intro c member equal
    rw [equal] at member
    exact plain (List.mem_reverse.mp member)
  rw [List.rtakeWhile, List.reverse_append, List.reverse_cons, List.append_assoc,
    List.takeWhile_append_of_pos (by simpa using passes)]
  simp

theorem stripPath_of_flat {name : Name} (flat : '/' ∉ name.tail) : stripPath name = name := by
  cases name with
  | nil => rfl
  | cons c tail =>
    have passes : ∀ d ∈ tail.reverse, decide (d ≠ '/') = true := by
      intro d member
      rw [decide_eq_true_iff]
      rintro rfl
      exact flat (List.mem_reverse.mp member)
    have long : (c :: tail).length ≤ ((c :: tail).rtakeWhile (· ≠ '/')).length + 1 := by
      rw [List.rtakeWhile, List.reverse_cons, List.takeWhile_append_of_pos passes]
      simp
    exact if_pos long

theorem stripPath_flat (name : Name) : '/' ∉ (stripPath name).tail := by
  obtain ⟨before, split⟩ := List.rtakeWhile_suffix (fun c => decide (c ≠ '/')) name
  have plain : '/' ∉ name.rtakeWhile (· ≠ '/') := mem_rtakeWhile
  unfold stripPath
  dsimp only
  generalize name.rtakeWhile (fun c => decide (c ≠ '/')) = base at split plain ⊢
  subst split
  split
  next short =>
    cases before with
    | nil => exact fun member => plain (List.mem_of_mem_tail member)
    | cons c before =>
      have empty : before = [] := by
        apply List.eq_nil_of_length_eq_zero
        rw [List.length_append, List.length_cons] at short
        omega
      rw [empty]
      exact plain
  next => exact fun member => plain (List.mem_of_mem_tail member)

theorem Config.strip_of_flat (cfg : Config) {name : Name} (flat : '/' ∉ name.tail) : cfg.strip name = name := by
  unfold Config.strip
  split
  · exact stripPath_of_flat flat
  · rfl

theorem Config.strip_strip (cfg : Config) (name : Name) : cfg.strip (cfg.strip name) = cfg.strip name := by
  unfold Config.strip
  split
  · exact stripPath_of_flat (stripPath_flat name)
  · rfl

theorem dropSuffix_eq_take (name : Name) : ∃ k, dropSuffix name = name.take k := by
  unfold dropSuffix
  dsimp only
  split
  · exact ⟨name.length, (List.take_length).symm⟩
  · exact ⟨_, rfl⟩

theorem Config.codeFile_flat (cfg : Config) {name : Name} (flat : '/' ∉ name.tail) :
    '/' ∉ (cfg.codeFile name).tail := by
  have plain : '/' ∉ '.' :: cfg.codeSuffix := by
    intro member
    rcases List.mem_cons.mp member with equal | inside
    · exact absurd equal (by decide)
    · exact (cfg.suffix_plain _ inside).2 rfl
  unfold Config.codeFile
  cases name with
  | nil => exact fun member => plain (List.mem_of_mem_tail member)
  | cons c name =>
    intro member
    rcases List.mem_append.mp member with inside | outside
    · exact flat inside
    · exact plain outside

/-- The code file of a link entry is found under the name the entry gives. -/
theorem Config.strip_codeFile_dropSuffix (cfg : Config) (raw : Name) :
    cfg.strip (cfg.codeFile (dropSuffix (cfg.strip raw))) = cfg.codeFile (dropSuffix (cfg.strip raw)) := by
  by_cases strips : cfg.stripIncludePath = true
  · have flat : '/' ∉ (cfg.strip raw).tail := by
      rw [Config.strip, if_pos strips]
      exact stripPath_flat raw
    obtain ⟨k, taken⟩ := dropSuffix_eq_take (cfg.strip raw)
    refine cfg.strip_of_flat (cfg.codeFile_flat ?_)
    rw [taken, ← List.drop_one, List.drop_take, List.drop_one]
    exact fun member => flat (List.mem_of_mem_take member)
  · rw [Config.strip, if_neg strips]

theorem Config.dropSuffix_codeFile (cfg : Config) (name : Name) : dropSuffix (cfg.codeFile name) = name := by
  have plain : '.' ∉ cfg.codeSuffix := fun member => (cfg.suffix_plain _ member).1 rfl
  unfold dropSuffix Config.codeFile
  rw [rtakeWhile_append_cons plain]
  have shorter : ¬ (cfg.codeSuffix = [] ∨ cfg.codeSuffix.length = (name ++ '.' :: cfg.codeSuffix).length) := by
    rintro (empty | equal)
    · exact cfg.suffix_ne empty
    · rw [List.length_append, List.length_cons] at equal
      omega
  dsimp only
  rw [if_neg shorter]
  refine List.take_left' ?_
  simp
  omega

theorem Config.codeFile_inj (cfg : Config) {a b : Name} (same : cfg.codeFile a = cfg.codeFile b) : a = b :=
  List.append_cancel_right same

/-- The entries a line adds do not depend on those before it. -/
theorem Scan.line_append (cfg : Config) (s : Scan) (line : Line) (before : List Item) :
    Scan.line cfg { s with includeList := before ++ s.includeList } line =
      { Scan.line cfg s line with includeList := before ++ (Scan.line cfg s line).includeList } := by
  unfold Scan.line
  dsimp only
  split
  · cases line.inc <;> cases line.directive <;> simp [Scan.pushInclude, Scan.pushDirective, Scan.push]
  · rfl

theorem foldl_line_append (cfg : Config) (lines : List Line) (s : Scan) (before : List Item) :
    (lines.foldl (Scan.line cfg) { s with includeList := before ++ s.includeList }).includeList =
      before ++ (lines.foldl (Scan.line cfg) s).includeList := by
  induction lines generalizing s with
  | nil => rfl
  | cons line lines ih => rw [List.foldl_cons, Scan.line_append, ih, List.foldl_cons]

/-- A line `//#ldflags` with this text. -/
def flagLine (text : Name) : Line := ⟨none, none, none, some (.ldflags, text)⟩

/-- `#include` with a blank before the quotes, and none between them. -/
def oneBlank : Blanks := ⟨[' '], [], []⟩

/-- A line `#include` with a blank and this name. -/
def includeLine (name : Name) : Line := ⟨none, none, some (oneBlank, name), none⟩

theorem parseLines_flagLine (cfg : Config) (text : Name) (lines : List Line) :
    parseLines cfg (flagLine text :: lines) = .directive .ldflags text :: parseLines cfg lines := by
  have first : Scan.line cfg ⟨all, cfg.lazyLinking, []⟩ (flagLine text) =
      ⟨all, cfg.lazyLinking, [.directive .ldflags text] ++ []⟩ := by
    simp [Scan.line, flagLine, Scan.pushInclude, Scan.pushDirective, Scan.push]
  unfold parseLines
  rw [List.foldl_cons, first]
  exact foldl_line_append cfg lines ⟨all, cfg.lazyLinking, []⟩ [.directive .ldflags text]

inductive Line.Adds (cfg : Config) (line : Line) : Item → Prop where
  | inc {blanks : Blanks} {name : Name} (found : line.inc = some (blanks, name)) :
      Adds cfg line (.inc blanks (cfg.strip name))
  | link {blanks : Blanks} {name : Name} (found : line.inc = some (blanks, name)) :
      Adds cfg line (.link (dropSuffix (cfg.strip name)))
  | directive {kind : Directive} {text : Name} (found : line.directive = some (kind, text)) :
      Adds cfg line (.directive kind text)

theorem Scan.mem_pushInclude {cfg : Config} {s : Scan} {inc : Option (Blanks × Name)} {i : Item}
    (member : i ∈ (s.pushInclude cfg inc).includeList) :
    i ∈ s.includeList ∨ ∃ blanks name, inc = some (blanks, name) ∧
      (i = .inc blanks (cfg.strip name) ∨ i = .link (dropSuffix (cfg.strip name))) := by
  cases inc with
  | none => exact .inl member
  | some inc =>
    rcases List.mem_append.mp member with old | new
    · exact .inl old
    · refine .inr ⟨inc.1, inc.2, rfl, ?_⟩
      rcases List.mem_cons.mp new with same | linked
      · exact .inl same
      · split at linked
        · exact .inr (List.mem_singleton.mp linked)
        · cases linked

theorem Scan.mem_pushDirective {s : Scan} {directive : Option (Directive × Name)} {i : Item}
    (member : i ∈ (s.pushDirective directive).includeList) :
    i ∈ s.includeList ∨ ∃ kind text, directive = some (kind, text) ∧ i = .directive kind text := by
  cases directive with
  | none => exact .inl member
  | some directive =>
    rcases List.mem_append.mp member with old | new
    · exact .inl old
    · exact .inr ⟨directive.1, directive.2, rfl, List.mem_singleton.mp new⟩

theorem Scan.mem_line {cfg : Config} {s : Scan} {line : Line} {i : Item}
    (member : i ∈ (Scan.line cfg s line).includeList) : i ∈ s.includeList ∨ line.Adds cfg i := by
  unfold Scan.line at member
  dsimp only at member
  split at member
  · rcases Scan.mem_pushDirective member with before | ⟨kind, text, found, rfl⟩
    · rcases Scan.mem_pushInclude before with old | ⟨blanks, name, found, rfl | rfl⟩
      · exact .inl old
      · exact .inr (.inc found)
      · exact .inr (.link found)
    · exact .inr (.directive found)
  · exact .inl member

theorem mem_foldl_line {cfg : Config} {lines : List Line} {s : Scan} {i : Item}
    (member : i ∈ (lines.foldl (Scan.line cfg) s).includeList) :
    i ∈ s.includeList ∨ ∃ line ∈ lines, line.Adds cfg i := by
  induction lines generalizing s with
  | nil => exact .inl member
  | cons line lines ih =>
    rcases ih member with old | ⟨other, inside, adds⟩
    · rcases Scan.mem_line old with before | new
      · exact .inl before
      · exact .inr ⟨line, by simp, new⟩
    · exact .inr ⟨other, by simp [inside], adds⟩

/-- Lazy linking is on, and each `#include` comes with the link of its name. -/
def Scan.Linked (s : Scan) : Prop :=
  s.currentLazyLinking = true ∧
    ∀ blanks name, .inc blanks name ∈ s.includeList → .link (dropSuffix name) ∈ s.includeList

theorem Scan.Linked.push {s : Scan} (linked : s.Linked) {items : List Item}
    (own : ∀ blanks name, .inc blanks name ∈ items → .link (dropSuffix name) ∈ items) : (s.push items).Linked := by
  refine ⟨linked.1, ?_⟩
  intro blanks name member
  rcases List.mem_append.mp member with old | new
  · exact List.mem_append_left _ (linked.2 blanks name old)
  · exact List.mem_append_right _ (own blanks name new)

theorem Scan.Linked.line {cfg : Config} {s : Scan} (linked : s.Linked) {line : Line}
    (unswitched : line.lazylinking = none) : (Scan.line cfg s line).Linked := by
  unfold Scan.line
  rw [unswitched]
  dsimp only [Option.map_none, Option.getD_none]
  split
  · have included : (Scan.pushInclude cfg { s with currentTarget := line.target.getD s.currentTarget }
        line.inc).Linked := by
      cases line.inc with
      | none => exact linked
      | some inc =>
        have start : ({ s with currentTarget := line.target.getD s.currentTarget } : Scan).Linked := linked
        refine start.push ?_
        rw [if_pos linked.1]
        intro blanks name member
        simp only [List.mem_cons, Item.inc.injEq, reduceCtorEq, List.not_mem_nil, or_false] at member
        rw [member.2]
        simp
    cases line.directive with
    | none => exact included
    | some directive => exact included.push (by simp)
  · exact linked

theorem link_mem_parseLines {cfg : Config} (lazily : cfg.lazyLinking = true) {lines : List Line}
    (unswitched : ∀ line ∈ lines, line.lazylinking = none) {blanks : Blanks} {name : Name}
    (member : .inc blanks name ∈ parseLines cfg lines) : .link (dropSuffix name) ∈ parseLines cfg lines := by
  have linked : (lines.foldl (Scan.line cfg) ⟨all, cfg.lazyLinking, []⟩).Linked := by
    apply List.foldlRecOn
    · exact ⟨lazily, by simp⟩
    · exact fun s linked line inside => linked.line (unswitched line inside)
  exact linked.2 blanks name member

theorem mem_entries_of_lookup {files : Files} {name : Name} {lines : List Line}
    (found : files.entries.lookup name = some lines) : (name, lines) ∈ files.entries := by
  obtain ⟨before, after, split, _⟩ := List.lookup_eq_some_iff.mp found
  rw [split]
  simp

theorem mem_parseFile {cfg : Config} {files : Files} {file : Name} {dep : List Item}
    (parsed : parseFile cfg files file = some dep) {i : Item} (member : i ∈ dep) :
    ∃ e ∈ files.entries, ∃ line ∈ e.2, line.Adds cfg i := by
  obtain ⟨lines, found, rfl⟩ := Option.map_eq_some_iff.mp parsed
  obtain ⟨line, inside, adds⟩ := (mem_foldl_line member).resolve_left (by simp)
  exact ⟨_, mem_entries_of_lookup found, line, inside, adds⟩

theorem strip_mem_names {cfg : Config} {files : Files} {file : Name} {dep : List Item}
    (parsed : parseFile cfg files file = some dep) : cfg.strip file ∈ files.names := by
  obtain ⟨lines, found, _⟩ := Option.map_eq_some_iff.mp parsed
  exact List.mem_map.mpr ⟨_, mem_entries_of_lookup found, rfl⟩

theorem Config.strip_of_mem_names (cfg : Config) {files : Files} {name : Name} (member : name ∈ files.names) :
    cfg.strip name = name := by
  obtain ⟨e, inside, rfl⟩ := List.mem_map.mp member
  exact cfg.strip_of_flat (fun slash => files.plain e inside (List.mem_of_mem_tail slash))

theorem next_eq_some_iff {cfg : Config} {files : Files} {file : Name} {dep : List Item}
    (parsed : parseFile cfg files file = some dep) {i : Item} (member : i ∈ dep) {whole : Bool} {name : Name} :
    i.next cfg = some (whole, name) ↔
      (∃ blanks, blanks.Accept name ∧ i = .inc blanks name ∧ whole = true) ∨
        ∃ base, base ≠ [] ∧ i = .link base ∧ name = cfg.codeFile base ∧ whole = false := by
  obtain ⟨_, _, line, _, adds⟩ := mem_parseFile parsed member
  cases adds with
  | inc found =>
    rename_i blanks raw
    by_cases accept : blanks.Accept (cfg.strip raw)
    · simp [Item.next, accept, cfg.strip_strip]
      constructor
      · rintro ⟨same, rfl⟩
        exact ⟨accept, rfl, same⟩
      · rintro ⟨_, rfl, same⟩
        exact ⟨same, rfl⟩
    · simp [Item.next, accept]
      rintro here rfl
      exact absurd here accept
  | link found =>
    rename_i blanks raw
    by_cases empty : dropSuffix (cfg.strip raw) = []
    · simp [Item.next, empty]
    · simp [Item.next, empty, cfg.strip_codeFile_dropSuffix]
      rw [and_comm, eq_comm]
  | directive found => simp [Item.next]

theorem edge_iff {cfg : Config} {files : Files} {a b : Name} :
    (source cfg files).Edge a b ↔ ∃ dep, parseFile cfg files a = some dep ∧
      ((∃ blanks, blanks.Accept b ∧ .inc blanks b ∈ dep) ∨
        ∃ base, base ≠ [] ∧ .link base ∈ dep ∧ b = cfg.codeFile base) := by
  constructor
  · rintro ⟨dep, parsed, i, member, whole, leads⟩
    refine ⟨dep, parsed, ?_⟩
    rcases (next_eq_some_iff parsed member).mp leads with ⟨blanks, accept, rfl, _⟩ | ⟨base, stem, rfl, same, _⟩
    · exact .inl ⟨blanks, accept, member⟩
    · exact .inr ⟨base, stem, member, same⟩
  · rintro ⟨dep, parsed, ⟨blanks, accept, member⟩ | ⟨base, stem, member, same⟩⟩
    · exact ⟨dep, parsed, _, member, true, (next_eq_some_iff parsed member).mpr (.inl ⟨blanks, accept, rfl, rfl⟩)⟩
    · exact ⟨dep, parsed, _, member, false, (next_eq_some_iff parsed member).mpr (.inr ⟨base, stem, rfl, same, rfl⟩)⟩

theorem wholeEdge_iff {cfg : Config} {files : Files} {a b : Name} :
    (source cfg files).WholeEdge a b ↔
      ∃ dep, parseFile cfg files a = some dep ∧ ∃ blanks, blanks.Accept b ∧ .inc blanks b ∈ dep := by
  constructor
  · rintro ⟨dep, parsed, i, member, leads⟩
    rcases (next_eq_some_iff parsed member).mp leads with ⟨blanks, accept, rfl, _⟩ | ⟨_, _, _, _, link⟩
    · exact ⟨dep, parsed, blanks, accept, member⟩
    · cases link
  · rintro ⟨dep, parsed, blanks, accept, member⟩
    exact ⟨dep, parsed, _, member, (next_eq_some_iff parsed member).mpr (.inl ⟨blanks, accept, rfl, rfl⟩)⟩

/-- Every file that is needed from here on is found. -/
def Present (cfg : Config) (files : Files) (file : Name) : Prop :=
  ∀ m, (source cfg files).Reaches (cfg.strip file) m → ∃ dep, parseFile cfg files m = some dep

theorem Present.complete {cfg : Config} {files : Files} {file : Name} (present : Present cfg files file) :
    (source cfg files).Complete files.names (cfg.strip file) := by
  intro m path
  obtain ⟨dep, parsed⟩ := present m path
  have stripped : cfg.strip m = m := by
    cases path with
    | refl => exact cfg.strip_strip file
    | tail _ edge =>
      obtain ⟨others, _, i, _, whole, leads⟩ := edge
      cases i with
      | inc blanks name =>
        simp only [source, Item.next, Option.ite_none_right_eq_some] at leads
        cases leads.2
        exact cfg.strip_strip name
      | link name =>
        simp only [source, Item.next, Option.ite_none_left_eq_some] at leads
        cases leads.2
        exact cfg.strip_strip _
      | directive kind text => cases leads
  exact ⟨stripped ▸ strip_mem_names parsed, dep, parsed⟩

/-- These files are all found and lead to no others. -/
def closed (cfg : Config) (files : Files) (nodes : List Name) : Bool :=
  nodes.all fun m => ((parseFile cfg files m).map fun dep =>
    dep.all fun i => ((i.next cfg).map fun e => decide (e.2 ∈ nodes)).getD true).getD false

theorem closed_parses {cfg : Config} {files : Files} {nodes : List Name} (isClosed : closed cfg files nodes = true)
    {m : Name} (inside : m ∈ nodes) :
    ∃ dep, parseFile cfg files m = some dep ∧ ∀ i ∈ dep, ∀ w b, i.next cfg = some (w, b) → b ∈ nodes := by
  have own := List.all_eq_true.mp isClosed m inside
  cases parsed : parseFile cfg files m with
  | none =>
    rw [parsed] at own
    cases own
  | some dep =>
    rw [parsed] at own
    refine ⟨dep, rfl, ?_⟩
    intro i member w b leads
    have single := List.all_eq_true.mp own i member
    rw [leads] at single
    exact of_decide_eq_true single

theorem mem_of_closed {cfg : Config} {files : Files} {nodes : List Name} (isClosed : closed cfg files nodes = true)
    {root m : Name} (inside : root ∈ nodes) (path : (source cfg files).Reaches root m) : m ∈ nodes := by
  induction path with
  | refl => exact inside
  | tail _ edge ih =>
    obtain ⟨dep, parsed, leads⟩ := closed_parses isClosed ih
    obtain ⟨_, again, i, member, w, next⟩ := edge
    cases parsed.symm.trans again
    exact leads i member w _ next

theorem Present.of_closed {cfg : Config} {files : Files} {file : Name} (nodes : List Name)
    (isClosed : closed cfg files nodes = true) (root : cfg.strip file ∈ nodes) : Present cfg files file := by
  intro m path
  obtain ⟨dep, parsed, _⟩ := closed_parses isClosed (mem_of_closed isClosed root path)
  exact ⟨dep, parsed⟩

/-- The recursion ends, and more fuel changes nothing. -/
theorem Present.parseFileRecurcive {cfg : Config} {files : Files} {file : Name} (present : Present cfg files file)
    (passed : List Name) :
    ∃ after entered items,
      FilteredWalk.enter (source cfg files) (files.entries.length + 1) passed (cfg.strip file) =
        some (after, entered) ∧
      (∀ fuel > files.entries.length, parseFileRecurcive cfg files fuel passed file = some (after, items)) ∧
      FilteredWalk.Outcome (source cfg files) passed (cfg.strip file) after entered ∧
      ∀ i, i ∈ items ↔ ∃ x ∈ entered, (source cfg files).Contributes x i := by
  have size : files.names.length = files.entries.length := List.length_map _
  obtain ⟨after, entered, items, entering, collected, outcome, members⟩ :=
    FilteredWalk.collect_complete present.complete (show files.names.length < files.entries.length + 1 by omega) passed
  refine ⟨after, entered, items, entering, ?_, outcome, members⟩
  intro fuel more
  rw [parseFileRecurcive_eq_collect]
  exact FilteredWalk.collect_mono more collected

end Minimus32.Buildpp
