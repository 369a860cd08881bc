import Minimus32.PetitFat.Path

namespace Minimus32.PetitFat

open Interaction

/-- A character that neither ends nor splits a name. -/
def Plain (c : UInt8) : Prop := ' '.toUInt8 < c ∧ c ≠ '/'.toUInt8 ∧ c ≠ '.'.toUInt8

/-- As much of a name as create_name has room for: up to eight characters, and up to three behind a dot if there is
one. -/
structure Stem where
  base : List UInt8
  ext : Option (List UInt8)
  base_le : base.length ≤ 8
  ext_le : (ext.getD []).length ≤ 3
  base_plain : ∀ c ∈ base, Plain c
  ext_plain : ∀ c ∈ ext.getD [], Plain c

/-- A name that a file can have: the first character is not the mark of a deleted entry. -/
structure ShortName extends Stem where
  base_ne_nil : base ≠ []
  live : base.headD 0 ≠ 0xe5

namespace Stem

def text (s : Stem) : List UInt8 := s.base ++ s.ext.elim [] ('.'.toUInt8 :: ·)

/-- The name as a directory has it: in upper case, both parts filled up with blanks. -/
def field (s : Stem) : List UInt8 :=
  (s.base.map toUpper).rightpad 8 ' '.toUInt8 ++ ((s.ext.getD []).map toUpper).rightpad 3 ' '.toUInt8

end Stem

theorem createNameLoop_plain {chars tail back sfn : List UInt8} {ni : Nat} (plain : ∀ c ∈ chars, Plain c)
    (front : List UInt8) (room : front.length + chars.length ≤ ni) (split : sfn = front ++ back)
    (long : chars.length ≤ back.length) :
    createNameLoop (chars ++ tail) sfn front.length ni =
      createNameLoop tail (front ++ chars.map toUpper ++ back.drop chars.length) (front.length + chars.length) ni := by
  induction chars generalizing front back sfn with
  | nil => simp [split]
  | cons c chars ih =>
    obtain ⟨above, noSlash, noDot⟩ := plain c (by simp)
    obtain ⟨b, back, rfl⟩ : ∃ b rest, back = b :: rest := List.exists_cons_of_length_pos (by simp at long; omega)
    have set : sfn.set front.length (toUpper c) = (front ++ [toUpper c]) ++ back := by simp [split]
    simp only [List.length_cons] at room long
    have later := ih (fun other member => plain other (by simp [member])) (front ++ [toUpper c])
      (by simp only [List.length_append, List.length_singleton]; omega) set (by omega)
    rw [List.cons_append, createNameLoop, if_neg, if_neg]
    · simp only [List.length_append, List.length_singleton] at later
      rw [later]
      simp [Nat.add_assoc, Nat.add_comm 1]
    · simp only [noDot, false_or]
      omega
    · simpa [noSlash] using above

/-- A part of a name fills up its place. -/
theorem createNameLoop_part {chars : List UInt8} {ni : Nat} (plain : ∀ c ∈ chars, Plain c)
    (front behind tail : List UInt8) (room : front.length + chars.length ≤ ni) (size : Nat)
    (fits : chars.length ≤ size) :
    createNameLoop (chars ++ tail) (front ++ (List.replicate size ' '.toUInt8 ++ behind)) front.length ni =
      createNameLoop tail (front ++ ((chars.map toUpper).rightpad size ' '.toUInt8 ++ behind))
        (front.length + chars.length) ni := by
  rw [createNameLoop_plain plain front room rfl (by simp only [List.length_append, List.length_replicate]; omega),
    List.drop_append_of_le_length (by simpa using fits), List.drop_replicate]
  simp [List.rightpad]

namespace Stem

/-- Where create_name stands behind the name, and the end of the part it is in. -/
def index (s : Stem) : Nat := s.ext.elim s.base.length fun ext => 8 + ext.length

def limit (s : Stem) : Nat := s.ext.elim 8 fun _ => 11

theorem createName_text (s : Stem) (tail : List UInt8) :
    createName (s.text ++ tail) = createNameLoop tail s.field s.index s.limit := by
  have base (tail : List UInt8) := createNameLoop_part s.base_plain [] (List.replicate 3 ' '.toUInt8) tail
    (show _ ≤ 8 by simpa using s.base_le) 8 s.base_le
  have width : ((s.base.map toUpper).rightpad 8 ' '.toUInt8).length = 8 := by simp [s.base_le]
  rw [createName, text, List.append_assoc]
  show createNameLoop _ ([] ++ (List.replicate 8 ' '.toUInt8 ++ List.replicate 3 ' '.toUInt8))
    ([] : List UInt8).length 8 = _
  rw [base, index, limit, field]
  have short := s.ext_le
  have plain := s.ext_plain
  cases dotted : s.ext with
  | none =>
    rw [List.nil_append, List.length_nil, Nat.zero_add]
    rfl
  | some chars =>
    rw [dotted] at short plain
    have ext := createNameLoop_part plain ((s.base.map toUpper).rightpad 8 ' '.toUInt8) [] tail
      (show _ ≤ 11 by omega) 3 short
    simp only [width, List.append_nil] at ext
    rw [Option.elim_some, List.cons_append, createNameLoop, if_neg (by decide), if_pos (.inl rfl), if_neg (by decide),
      List.nil_append]
    exact ext

theorem createName_slash (s : Stem) (rest : List UInt8) :
    createName (s.text ++ '/'.toUInt8 :: rest) = (s.field, false, rest) := by
  rw [s.createName_text, createNameLoop, if_pos (.inr rfl)]
  rfl

/-- A character for which the name has no room, or a second dot. -/
def Overrun (s : Stem) (c : UInt8) : Prop :=
  ' '.toUInt8 < c ∧ c ≠ '/'.toUInt8 ∧
    match s.ext with
    | none => s.base.length = 8 ∧ c ≠ '.'.toUInt8
    | some ext => ext.length = 3 ∨ c = '.'.toUInt8

theorem createName_overrun {s : Stem} {c : UInt8} (excess : s.Overrun c) (rest : List UInt8) :
    createName (s.text ++ c :: rest) = (s.field, false, rest) := by
  obtain ⟨above, noSlash, full⟩ := excess
  have inside : ¬ (c ≤ ' '.toUInt8 ∨ c = '/'.toUInt8) := by simpa [noSlash] using above
  have stop : (c = '.'.toUInt8 ∨ s.limit ≤ s.index) ∧ (s.limit ≠ 8 ∨ c ≠ '.'.toUInt8) := by
    rw [limit, index]
    cases dotted : s.ext with
    | none =>
      rw [dotted] at full
      exact ⟨.inr full.1.ge, .inr full.2⟩
    | some ext =>
      rw [dotted] at full
      have limited (three : ext.length = 3) : 11 ≤ 8 + ext.length := by rw [three]
      exact ⟨full.symm.imp_right limited, .inl (show 11 ≠ 8 by decide)⟩
  rw [s.createName_text, createNameLoop, if_neg inside, if_pos stop.1, if_pos stop.2]

theorem text_ne_nil {s : Stem} {c : UInt8} (excess : s.Overrun c) : s.text ≠ [] := by
  intro none
  obtain ⟨-, -, full⟩ := excess
  rw [text, List.append_eq_nil_iff] at none
  cases dotted : s.ext with
  | none =>
    rw [dotted, none.1] at full
    cases full.1
  | some ext =>
    rw [dotted] at none
    cases none.2

theorem ne_blank_of_text {s : Stem} {c : UInt8} (member : c ∈ s.text) : c ≠ ' '.toUInt8 ∧ c ≠ '/'.toUInt8 := by
  have plain {c : UInt8} (plain : Plain c) : c ≠ ' '.toUInt8 ∧ c ≠ '/'.toUInt8 :=
    ⟨fun same => absurd plain.1 (by rw [same]; decide), plain.2.1⟩
  have behind := s.ext_plain
  rw [text, List.mem_append] at member
  cases dotted : s.ext with
  | none =>
    rw [dotted] at member
    exact plain (s.base_plain c (member.resolve_right List.not_mem_nil))
  | some ext =>
    rw [dotted] at member behind
    rcases member with member | member
    · exact plain (s.base_plain c member)
    · rcases List.mem_cons.mp member with rfl | member
      · decide
      · exact plain (behind c member)

end Stem

theorem toUpper_ne_deleted {c : UInt8} (live : c ≠ 0xe5) : toUpper c ≠ 0xe5 := by
  rw [toUpper]
  split
  · rename_i letter
    have low : 97 ≤ c.toNat := letter.1
    have high : c.toNat ≤ 122 := letter.2
    intro same
    have number := congrArg UInt8.toNat same
    rw [UInt8.toNat_sub_of_le c 0x20 (UInt8.le_iff_toNat_le.mpr (by show 32 ≤ c.toNat; omega))] at number
    change c.toNat - 32 = 229 at number
    omega
  · exact live

theorem ShortName.isDeleted_field (n : ShortName) : isDeleted n.field = false := by
  obtain ⟨c, base, chars⟩ := List.exists_cons_of_ne_nil n.base_ne_nil
  have live : c ≠ 0xe5 := by simpa [chars] using n.live
  simp [isDeleted, Stem.field, chars, toUpper_ne_deleted live]

/-- A path of these names. -/
def pathOf : List ShortName → List UInt8
  | [] => []
  | [n] => n.text
  | n :: more => n.text ++ '/'.toUInt8 :: pathOf more

theorem segments_pathOf {names : List ShortName} (some : names ≠ []) :
    segments (pathOf names) = names.map fun n => n.field := by
  induction names with
  | nil => exact absurd rfl some
  | cons n more ih =>
    cases more with
    | nil =>
      have made : createName (n.text ++ []) = (n.field, true, []) := n.createName_text []
      rw [List.append_nil] at made
      rw [pathOf, segments, made]
      rfl
    | cons next later =>
      have made : createName (pathOf (n :: next :: later)) = (n.field, false, pathOf (next :: later)) := by
        rw [pathOf]
        · exact n.createName_slash _
        · simp
      rw [segments, made]
      simp only [dite_true]
      rw [ih (by simp)]
      rfl

theorem pathOf_head {names : List ShortName} (some : names ≠ []) : ∃ c rest, pathOf names = c :: rest ∧ Plain c := by
  obtain ⟨n, more, rfl⟩ := List.exists_cons_of_ne_nil some
  obtain ⟨c, base, chars⟩ := List.exists_cons_of_ne_nil n.base_ne_nil
  have plain := n.base_plain c (by simp [chars])
  cases more with
  | nil => exact ⟨c, _, by rw [pathOf, Stem.text, chars]; rfl, plain⟩
  | cons next later => exact ⟨c, _, by rw [pathOf, Stem.text, chars]; rfl; simp, plain⟩

theorem followLoop_congr {v : Volume} {dj : Dir} {dir path other : List UInt8}
    (same : createName path = createName other) :
    followLoop v dj dir path = followLoop v dj dir other := by
  rw [followLoop, followLoop, Dir.setName, Dir.setName, same]

/-- Folders in front of the rest of a path. -/
def folders (names : List Stem) : List UInt8 := names.flatMap fun s => s.text ++ ['/'.toUInt8]

/-- What create_name takes for the same is the same behind any folders. -/
theorem followLoop_folders {path other : List UInt8} (same : createName path = createName other) (names : List Stem)
    (v : Volume) (dj : Dir) (dir : List UInt8) :
    followLoop v dj dir (folders names ++ path) = followLoop v dj dir (folders names ++ other) := by
  induction names generalizing dj dir with
  | nil => exact followLoop_congr same
  | cons s names ih =>
    have made (tail : List UInt8) :
        createName (folders (s :: names) ++ tail) = (s.field, false, folders names ++ tail) := by
      rw [folders, List.flatMap_cons, List.append_assoc, List.append_assoc]
      exact s.createName_slash _
    rw [followLoop, followLoop, Dir.setName, Dir.setName]
    simp only [made, ih]

theorem relative_front (blanks : Nat) {slash : List UInt8} (optional : slash = [] ∨ slash = ['/'.toUInt8]) {c : UInt8}
    (noBlank : c ≠ ' '.toUInt8) (path : List UInt8) :
    relative (List.replicate blanks ' '.toUInt8 ++ (slash ++ c :: path)) =
      if slash = [] ∧ c = '/'.toUInt8 then path else c :: path := by
  rw [relative, List.dropWhile_append_of_pos (by simp)]
  rcases optional with rfl | rfl
  · have stays : (c :: path).dropWhile (· = ' '.toUInt8) = c :: path :=
      List.dropWhile_cons_of_neg (by simpa using noBlank)
    rw [List.nil_append, stays]
    simp
  · have other : '/'.toUInt8 ≠ ' '.toUInt8 := by decide
    simp [other]

theorem relative_text (blanks : Nat) {slash : List UInt8} (optional : slash = [] ∨ slash = ['/'.toUInt8]) {s : Stem}
    (some : s.text ≠ []) (tail : List UInt8) :
    relative (List.replicate blanks ' '.toUInt8 ++ (slash ++ (s.text ++ tail))) = s.text ++ tail := by
  obtain ⟨c, text, chars⟩ := List.exists_cons_of_ne_nil some
  have first : c ≠ ' '.toUInt8 ∧ c ≠ '/'.toUInt8 := Stem.ne_blank_of_text (by rw [chars]; exact List.mem_cons_self)
  rw [chars, List.cons_append, relative_front blanks optional first.1, if_neg fun both => first.2 both.2]

/-- What the path begins with takes away one folder without a name at most. -/
theorem relative_folders (blanks : Nat) {slash : List UInt8} (optional : slash = [] ∨ slash = ['/'.toUInt8])
    (names : List Stem) {s : Stem} (some : s.text ≠ []) :
    ∃ left : List Stem, ∀ tail, relative (List.replicate blanks ' '.toUInt8 ++
      (slash ++ (folders names ++ (s.text ++ tail)))) = folders left ++ (s.text ++ tail) := by
  cases names with
  | nil => exact ⟨[], fun tail => relative_text blanks optional some tail⟩
  | cons n names =>
    have parts (tail : List UInt8) : folders (n :: names) ++ (s.text ++ tail) =
        n.text ++ '/'.toUInt8 :: (folders names ++ (s.text ++ tail)) := by simp [folders]
    by_cases empty : n.text = []
    · have front (tail : List UInt8) := relative_front blanks optional (show '/'.toUInt8 ≠ ' '.toUInt8 by decide)
        (folders names ++ (s.text ++ tail))
      by_cases bare : slash = []
      · refine ⟨names, fun tail => ?_⟩
        rw [parts, empty, List.nil_append, front, if_pos ⟨bare, rfl⟩]
      · refine ⟨n :: names, fun tail => ?_⟩
        rw [parts, empty, List.nil_append, front, if_neg fun both => bare both.1]
    · refine ⟨n :: names, fun tail => ?_⟩
      rw [parts, relative_text blanks optional empty]

/-- Blanks and one separator in front of a path make no difference. -/
theorem relative_pathOf {names : List ShortName} (some : names ≠ []) (blanks : Nat) {slash : List UInt8}
    (optional : slash = [] ∨ slash = ['/'.toUInt8]) :
    relative (List.replicate blanks ' '.toUInt8 ++ (slash ++ pathOf names)) = pathOf names := by
  obtain ⟨c, rest, path, above, noSlash, -⟩ := pathOf_head some
  have noBlank : c ≠ ' '.toUInt8 := fun same => absurd above (by rw [same]; decide)
  rw [path, relative_front blanks optional noBlank, if_neg fun both => noSlash both.2]

end Minimus32.PetitFat
