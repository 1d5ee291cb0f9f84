import FileHolders.Proofs.Spellings

/-!
# Which paths have a drive

A path is split behind its drive exactly if it is one of the spellings of a path on that drive: a
letter and a colon, and then the root of the drive or nothing, with or without the mark in front.
What was split is a spelling again, and it is split into the same parts.

The rest of a path may be cut off by counting bytes.  A letter and a colon take up one byte each, so
that the cut behind two bytes never falls inside of a character, whatever comes after them.

    split path = some p ↔ ∃ a : Spelling, a.text = path ∧ a.drive = p.letter ∧ a.rest = p.rest
                                                                            (split_eq_some_iff)
    splitByCut path = some (split path)                                        (splitByCut_eq)
-/

namespace FileHolders.DrivePath

open FileHolders.Windows

/-! ## Spellings that are split -/

/-- The path of a letter and a rest, with the mark or without it. -/
def text (p : DrivePath) (marked : Bool) : String :=
  String.ofList ((if marked then Spelling.mark else []) ++ p.letter :: ':' :: p.rest)

theorem isRooted_iff {rest : List Char} : isRooted rest = true ↔
    rest = [] ∨ rest.head? = some '\\' ∨ rest.head? = some '/' := by
  cases rest with
  | nil => simp [isRooted]
  | cons c rest => simp [isRooted]

theorem toList_text (a : Spelling) :
    a.text.toList = (if a.marked then Spelling.mark else []) ++ a.letter :: ':' :: a.rest := by
  rw [Spelling.text, String.toList_ofList]

theorem text_eq_iff {a : Spelling} {path : String} : a.text = path ↔
    path.toList = (if a.marked then Spelling.mark else []) ++ a.letter :: ':' :: a.rest := by
  rw [← toList_text, String.toList_inj, eq_comm]

/-- The mark is passed over once, where it stands. -/
theorem unmarked_eq_or (path : List Char) :
    unmarked path = path ∨ Spelling.mark ++ unmarked path = path := by
  unfold unmarked
  split
  · exact .inr rfl
  · exact .inl rfl

/-- A path is split exactly if it is a spelling, and then into its drive and its rest. -/
theorem split_eq_some_iff {path : String} {p : DrivePath} :
    split path = some p ↔ ∃ a : Spelling, a.text = path ∧ a.drive = p.letter ∧ a.rest = p.rest := by
  constructor
  · intro h
    obtain ⟨c, hpath, halpha, hrooted, hletter⟩ := splitChars_eq_some_iff.mp h
    rcases unmarked_eq_or path.toList with hsame | hmark
    · refine ⟨⟨false, c, p.rest, halpha, hrooted⟩, text_eq_iff.mpr ?_, hletter, rfl⟩
      rw [← hsame, hpath]
      rfl
    · refine ⟨⟨true, c, p.rest, halpha, hrooted⟩, text_eq_iff.mpr ?_, hletter, rfl⟩
      rw [← hmark, hpath]
      rfl
  · rintro ⟨a, rfl, hletter, hrest⟩
    rw [a.split_text, hletter, hrest]

/-- What was split is split into the same parts again. -/
theorem split_text_of_split {path : String} {p : DrivePath} (h : split path = some p)
    (marked : Bool) : split (p.text marked) = some p := by
  obtain ⟨a, -, hletter, hrest⟩ := split_eq_some_iff.mp h
  obtain ⟨halpha, hupper⟩ := isAlpha_toUpper a.isAlpha
  rw [← Spelling.drive, hletter] at halpha hupper
  have hrooted := a.isRooted
  rw [hrest] at hrooted
  exact split_eq_some_iff.mpr ⟨⟨marked, p.letter, p.rest, halpha, hrooted⟩, rfl, hupper, rfl⟩

/-! ## The cut -/

/-- What follows a number of bytes of a text.  Nothing, if they end inside of a character or there
are not so many. -/
def behind? (text : String) (bytes : Nat) : Option String :=
  if h : (String.Pos.Raw.mk bytes).IsValid text then some (text.sliceFrom ⟨⟨bytes⟩, h⟩).copy
  else none

/-- Splits a path behind its drive, and cuts the rest off behind two bytes.  Nothing, if there is no
such cut. -/
def splitByCut (path : String) : Option (Option DrivePath) :=
  let plain := String.ofList (unmarked path.toList)
  match plain.toList with
  | c :: ':' :: _ =>
    if c.isAlpha then
      (behind? plain 2).map fun rest =>
        if isRooted rest.toList then some ⟨c.toUpper, rest.toList⟩ else none
    else some none
  | _ => some none

theorem behind?_append (s t : String) : behind? (s ++ t) s.utf8ByteSize = some t := by
  have hvalid : (String.Pos.Raw.mk s.utf8ByteSize).IsValid (s ++ t) :=
    String.Pos.Raw.isValid_iff_exists_append.mpr ⟨s, t, rfl, rfl⟩
  rw [behind?, dif_pos hvalid]
  exact congrArg some (String.copy_sliceFrom_eq_iff_exists_splits.mpr ⟨s, rfl, rfl⟩)

/-- A letter and a colon are two bytes. -/
theorem utf8ByteSize_drive {c : Char} (hc : c.isAlpha = true) :
    (String.ofList [c, ':']).utf8ByteSize = 2 := by
  have hone : c.utf8Size = 1 := by
    rw [Char.utf8Size_eq_one_iff, UInt32.le_iff_toNat_le]
    exact Nat.le_of_lt_succ (toNat_lt_of_isAlpha hc)
  have hdrive : String.ofList [c, ':'] = String.singleton c ++ String.singleton ':' := by
    rw [← String.toList_inj]
    simp
  rw [hdrive, String.utf8ByteSize_append, String.utf8ByteSize_singleton,
    String.utf8ByteSize_singleton, hone]
  rfl

/-- Behind a letter and a colon there is a cut, and what follows it is the rest of the path. -/
theorem behind?_two {c : Char} (hc : c.isAlpha = true) (rest : List Char) :
    behind? (String.ofList (c :: ':' :: rest)) 2 = some (String.ofList rest) := by
  have hcut : String.ofList (c :: ':' :: rest) = String.ofList [c, ':'] ++ String.ofList rest := by
    rw [← String.toList_inj]
    simp
  rw [hcut, ← utf8ByteSize_drive hc]
  exact behind?_append _ _

/-- There always is a cut, and it splits the path where its characters do. -/
theorem splitByCut_eq (path : String) : splitByCut path = some (split path) := by
  unfold splitByCut split
  simp only [String.toList_ofList]
  split
  · rename_i c rest hdrive
    rw [splitChars_of_drive hdrive, hdrive]
    by_cases hc : c.isAlpha = true
    · rw [if_pos hc, behind?_two hc]
      simp only [Option.map_some, String.toList_ofList, hc, Bool.true_and]
    · rw [if_neg hc]
      simp only [hc, Bool.false_and]
      rfl
  · rename_i hnone
    rw [splitChars_of_no_drive hnone]

/-! ## The paths that are split -/

/-- Which paths are split, and into what. -/
structure SplitsSpelled (path : String) : Prop where
  split_iff : ∀ letter rest, split path = some ⟨letter, rest⟩ ↔
    ∃ c : Char, c.isAlpha = true ∧ c.toUpper = letter ∧
      (rest = [] ∨ rest.head? = some '\\' ∨ rest.head? = some '/') ∧
      (path.toList = c :: ':' :: rest ∨ path.toList = ['\\', '\\', '?', '\\'] ++ c :: ':' :: rest)
  /-- Where the rest is cut off by its bytes, there is a cut. -/
  cut : splitByCut path = some (split path)
  again : ∀ p, split path = some p → ∀ marked, split (p.text marked) = some p

/-- Whatever text a path is, it is split if it is spelled with a drive. -/
theorem splits_spelled (path : String) : SplitsSpelled path where
  split_iff := by
    intro letter rest
    rw [split_eq_some_iff]
    constructor
    · rintro ⟨a, rfl, rfl, rfl⟩
      refine ⟨a.letter, a.isAlpha, rfl, isRooted_iff.mp a.isRooted, ?_⟩
      rw [toList_text]
      cases a.marked with
      | false => exact .inl rfl
      | true => exact .inr rfl
    · rintro ⟨c, halpha, rfl, hrooted, hpath | hpath⟩
      · exact ⟨⟨false, c, rest, halpha, isRooted_iff.mpr hrooted⟩, text_eq_iff.mpr hpath, rfl, rfl⟩
      · exact ⟨⟨true, c, rest, halpha, isRooted_iff.mpr hrooted⟩, text_eq_iff.mpr hpath, rfl, rfl⟩
  cut := splitByCut_eq path
  again := fun _ => split_text_of_split

end FileHolders.DrivePath
