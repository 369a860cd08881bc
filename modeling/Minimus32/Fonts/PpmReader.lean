import Mathlib.Data.List.Basic
import Minimus32.Fonts.Ppm

namespace Minimus32.Fonts

/-- The characters `\s` matches. -/
def isSpace (c : Char) : Bool :=
  c == ' ' || c == '\t' || c == '\n' || c == '\r' || c == '\x0b' || c == '\x0c'

/-- The tokens `/^\d+$/` matches. -/
def isNumber (token : List Char) : Bool := token ≠ [] && token.all Char.isDigit

def value (token : List Char) : Nat := token.foldl (fun n c => 10 * n + (c.toNat - '0'.toNat)) 0

/-- The next line with its line break, and what is left of the file. -/
def getLine : List Char → List Char × List Char
  | [] => ([], [])
  | c :: text =>
    if c = '\n' then ([c], text)
    else
      let (line, rest) := getLine text
      (c :: line, rest)

/-- The value of `!` in Perl, as a string. -/
def negation (text : List Char) : List Char := if text = [] ∨ text = ['0'] then ['1'] else []

def magic : List Char := ['P', '3']

/-- What the body of the `while` loop adds to `@data` for one line. -/
def lineData (line : List Char) : List Nat :=
  let line := line.takeWhile (· ≠ '#')
  ((line.splitOnP isSpace).filter isNumber).map value

/-- `readPPM` on the contents of the file. The match binds less than the negation, so it looks at the negation of the
    first line and not at the line. -/
def readPPMFile (text : List Char) : Option (List Nat) :=
  let (firstLine, rest) := getLine text
  if magic.isPrefixOf (negation firstLine) then none
  else readPPM ((rest.splitOn '\n').flatMap lineData)

/-- The text without its comments, which end before the line break; `inside` a comment at the start or not. -/
def uncomment : Bool → List Char → List Char
  | _, [] => []
  | inside, c :: text =>
    if c = '\n' then c :: uncomment false text
    else if inside || c = '#' then uncomment true text
    else c :: uncomment false text

def fields (text : List Char) : List (List Char) := (text.splitOnP isSpace).filter (· ≠ [])

def tokens (text : List Char) : List (List Char) := fields (uncomment false text)

def numerals (tokens : List (List Char)) : List Nat := (tokens.filter isNumber).map value

/-- Width, height, the number for full brightness and three samples for each pixel. -/
def Complete (data : List Nat) : Prop :=
  ∃ width height maxValue samples, data = width :: height :: maxValue :: samples ∧
    samples.length = width * height * 3

/-- A P3 image with the numbers `data`, of which the third is 255, in whatever layout. -/
structure WellFormed (text : List Char) (data : List Nat) : Prop where
  spelled : ∃ numbers, tokens text = magic :: numbers ∧ (∀ token ∈ numbers, isNumber token) ∧ numbers.map value = data
  complete : Complete data
  maxValue : data.getD 2 0 = 255
  samples : ∀ sample ∈ data.drop 3, sample ≤ 255

/-- The first token is not the magic number, or the tokens after the header are not as many as the header says. -/
def Malformed (text : List Char) : Prop :=
  (tokens text).head? ≠ some magic ∨
    ¬ ∃ width height maxValue samples, (tokens text).tail = width :: height :: maxValue :: samples ∧
      isNumber width ∧ isNumber height ∧ samples.length = value width * value height * 3

theorem complete_iff (data : List Nat) : Complete data ↔ data.length = data.getD 0 0 * data.getD 1 0 * 3 + 3 := by
  constructor
  · intro complete
    obtain ⟨width, height, maxValue, samples, rfl, size⟩ := complete
    simp [size]
  · intro size
    match data, size with
    | [], size => simp at size
    | [width], size => simp at size
    | [width, height], size => simp at size
    | width :: height :: maxValue :: samples, size =>
      exact ⟨width, height, maxValue, samples, rfl, by simpa using size⟩

theorem readPPM_of_complete {data : List Nat} (complete : Complete data) : readPPM data = some data :=
  if_pos ((complete_iff data).mp complete)

theorem readPPM_eq_none_iff (data : List Nat) : readPPM data = none ↔ ¬ Complete data := by
  rw [readPPM, complete_iff]
  split <;> simp_all

theorem eq_of_readPPM {data read : List Nat} (returned : readPPM data = some read) : data = read := by
  unfold readPPM at returned
  split at returned
  · exact Option.some.inj returned
  · cases returned

theorem getLine_last {line : List Char} (last : '\n' ∉ line) : getLine line = (line, []) := by
  induction line with
  | nil => rfl
  | cons c line ih =>
    rw [List.mem_cons, not_or] at last
    rw [getLine, if_neg (Ne.symm last.1), ih last.2]

theorem getLine_next {line : List Char} (none : '\n' ∉ line) (rest : List Char) :
    getLine (line ++ '\n' :: rest) = (line ++ ['\n'], rest) := by
  induction line with
  | nil => rfl
  | cons c line ih =>
    rw [List.mem_cons, not_or] at none
    rw [List.cons_append, getLine, if_neg (Ne.symm none.1), ih none.2]
    rfl

/-- A text is one line without a break, or such a line, the break and a shorter text. -/
theorem lines_induction {motive : List Char → Prop} (last : ∀ line, '\n' ∉ line → motive line)
    (next : ∀ line rest, '\n' ∉ line → motive rest → motive (line ++ '\n' :: rest)) (text : List Char) :
    motive text := by
  by_cases more : '\n' ∈ text
  · obtain ⟨line, rest, split, first⟩ := List.eq_append_cons_of_mem more
    have shorter : rest.length < text.length := by
      rw [split, List.length_append, List.length_cons]
      omega
    rw [split]
    exact next line rest first (lines_induction last next rest)
  · exact last text more
termination_by text.length

/-- The end of a line ends a comment. -/
theorem uncomment_inside {line tail : List Char} (none : '\n' ∉ line) (ends : tail.head? = some '\n' ∨ tail = []) :
    uncomment true (line ++ tail) = uncomment false tail := by
  induction line with
  | nil =>
    rcases ends with newline | stop
    · obtain ⟨rest, rfl⟩ := List.head?_eq_some_iff.mp newline
      rfl
    · rw [stop]
      rfl
  | cons c line ih =>
    rw [List.mem_cons, not_or] at none
    rw [List.cons_append, uncomment, if_neg (Ne.symm none.1), if_pos (by simp), ih none.2]

theorem uncomment_line {line tail : List Char} (none : '\n' ∉ line) (ends : tail.head? = some '\n' ∨ tail = []) :
    uncomment false (line ++ tail) = line.takeWhile (· ≠ '#') ++ uncomment false tail := by
  induction line with
  | nil => rfl
  | cons c line ih =>
    rw [List.mem_cons, not_or] at none
    rw [List.cons_append, uncomment, if_neg (Ne.symm none.1)]
    by_cases comment : c = '#'
    · rw [if_pos (by simp [comment]), uncomment_inside none.2 ends, comment]
      rfl
    · rw [if_neg (by simp [comment]), ih none.2, List.takeWhile_cons, if_pos (by simp [comment]), List.cons_append]

theorem tokens_last {line : List Char} (last : '\n' ∉ line) : tokens line = fields (line.takeWhile (· ≠ '#')) := by
  have stripped := uncomment_line last (.inr rfl)
  rw [List.append_nil] at stripped
  rw [tokens, stripped]
  exact congrArg fields (List.append_nil _)

theorem tokens_next {line : List Char} (none : '\n' ∉ line) (rest : List Char) :
    tokens (line ++ '\n' :: rest) = fields (line.takeWhile (· ≠ '#')) ++ tokens rest := by
  rw [tokens, uncomment_line none (.inl rfl), uncomment, if_pos rfl, fields, List.splitOnP_append_cons _ _ (by decide),
    List.filter_append]
  rfl

theorem tokens_getLine (text : List Char) : tokens text = tokens (getLine text).1 ++ tokens (getLine text).2 := by
  induction text using lines_induction with
  | last line last =>
    rw [getLine_last last]
    exact (List.append_nil _).symm
  | next line rest none ih =>
    rw [getLine_next none, tokens_next none, tokens_next none]
    simp [tokens, uncomment, fields]

theorem numerals_append (left right : List (List Char)) :
    numerals (left ++ right) = numerals left ++ numerals right := by
  rw [numerals, List.filter_append, List.map_append]
  rfl

theorem lineData_eq (line : List Char) : lineData line = numerals (fields (line.takeWhile (· ≠ '#'))) := by
  rw [lineData, numerals, fields, List.filter_filter]
  congr 2
  funext token
  cases token <;> simp [isNumber]

theorem flatMap_lineData (text : List Char) : (text.splitOn '\n').flatMap lineData = numerals (tokens text) := by
  induction text using lines_induction with
  | last line last => rw [List.splitOn_eq_singleton last, List.flatMap_singleton, lineData_eq, tokens_last last]
  | next line rest none ih =>
    have apart : ∀ c ∈ line, (c == '\n') = false := by
      intro c member
      simp only [beq_eq_false_iff_ne]
      exact fun newline => none (newline ▸ member)
    rw [List.splitOn] at ih ⊢
    rw [List.splitOnP_append_cons_of_forall_mem apart _ (by decide), List.flatMap_cons, ih, lineData_eq,
      tokens_next none, numerals_append]

theorem negation_not_magic (text : List Char) : magic.isPrefixOf (negation text) = false := by
  unfold negation
  split
  · rfl
  · rfl

/-- The first line takes no part in what is read, and nothing is asked of it. -/
theorem readPPMFile_eq (text : List Char) : readPPMFile text = readPPM (numerals (tokens (getLine text).2)) := by
  simp only [readPPMFile, negation_not_magic, flatMap_lineData]
  rfl

theorem WellFormed.numerals_eq {text : List Char} {data : List Nat} (formed : WellFormed text data) :
    numerals (tokens text) = data := by
  obtain ⟨numbers, split, digits, values⟩ := formed.spelled
  have kept : numbers.filter isNumber = numbers := List.filter_eq_self.mpr digits
  rw [split, numerals, List.filter_cons_of_neg (by decide), kept, values]

theorem WellFormed.token_cases {text : List Char} {data : List Nat} (formed : WellFormed text data) :
    ∀ token ∈ tokens text, token = magic ∨ isNumber token := by
  obtain ⟨numbers, split, digits, -⟩ := formed.spelled
  intro token member
  rw [split] at member
  rcases List.mem_cons.mp member with first | later
  · exact .inl first
  · exact .inr (digits token later)

theorem WellFormed.read_iff {text : List Char} {data : List Nat} (formed : WellFormed text data) :
    readPPMFile text = some data ↔ ∀ token ∈ tokens (getLine text).1, token = magic := by
  have split := formed.numerals_eq
  rw [tokens_getLine, numerals_append] at split
  rw [readPPMFile_eq]
  constructor
  · intro returned token member
    have rest := eq_of_readPPM returned
    rw [rest, List.append_left_eq_self] at split
    rcases formed.token_cases token (by rw [tokens_getLine]; simp [member]) with first | number
    · exact first
    · have kept : value token ∈ numerals (tokens (getLine text).1) :=
        List.mem_map_of_mem (List.mem_filter.mpr ⟨member, number⟩)
      rw [split] at kept
      exact absurd kept (by simp)
  · intro only
    have none : numerals (tokens (getLine text).1) = [] := by
      rw [numerals, List.map_eq_nil_iff, List.filter_eq_nil_iff]
      intro token member
      rw [only token member]
      decide
    rw [none, List.nil_append] at split
    rw [split]
    exact readPPM_of_complete formed.complete

/-- A file is read as it should be exactly if nothing but the magic number stands on the first line of a good one, and
    what follows the first line of a bad one does not pass for a picture. -/
theorem readPPMFile_right_iff (text : List Char) :
    ((∀ data, WellFormed text data → readPPMFile text = some data) ∧ (Malformed text → readPPMFile text = none)) ↔
    (∀ data, WellFormed text data → ∀ token ∈ tokens (getLine text).1, token = magic) ∧
      (Malformed text → ¬ Complete (numerals (tokens (getLine text).2))) := by
  apply and_congr
  · apply forall_congr'
    intro data
    apply forall_congr'
    intro formed
    exact formed.read_iff
  · apply forall_congr'
    intro bad
    rw [readPPMFile_eq, readPPM_eq_none_iff]

/-- A good file with its whole header on the first line is refused, and one of another format is read. -/
theorem readPPMFile_wrong :
    WellFormed "P3 1 1 255\n10 20 30\n".toList [1, 1, 255, 10, 20, 30] ∧
      readPPMFile "P3 1 1 255\n10 20 30\n".toList = none ∧
      Malformed "P6\n1 1 255\n10 20 30\n".toList ∧
      readPPMFile "P6\n1 1 255\n10 20 30\n".toList = some [1, 1, 255, 10, 20, 30] := by
  have spelled : tokens "P3 1 1 255\n10 20 30\n".toList =
      [magic, ['1'], ['1'], ['2', '5', '5'], ['1', '0'], ['2', '0'], ['3', '0']] := by decide +kernel
  refine ⟨⟨⟨_, spelled, by decide +kernel, by decide +kernel⟩, ⟨1, 1, 255, _, rfl, rfl⟩, rfl, by decide⟩, ?_, ?_, ?_⟩
  · decide +kernel
  · exact .inl (by decide +kernel)
  · decide +kernel

end Minimus32.Fonts
