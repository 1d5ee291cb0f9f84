/-!
# Paths with a drive letter

Kernel names of files begin with the device of their volume and never with a drive letter.  A path
`X:` or `X:\rest` is split into its letter and the rest, and joined again behind the device of that
drive.  A leading `\\?\` is passed over.

    splitChars path = some p → splitChars (p.letter :: ':' :: p.rest) = some p
                                                        (splitChars_letter_rest)
-/

namespace FileHolders

/-- A path with a drive letter in upper case. -/
structure DrivePath where
  letter : Char
  rest : List Char
deriving DecidableEq, Repr

namespace DrivePath

/-! ## Algorithm -/

/-- A path without the mark that it is to be taken literally. -/
def unmarked : List Char → List Char
  | '\\' :: '\\' :: '?' :: '\\' :: path => path
  | path => path

/-- Whether what follows the drive begins at the root of the drive.  A path such as `E:foo` has no
fixed place. -/
def isRooted : List Char → Bool
  | [] => true
  | c :: _ => c = '\\' || c = '/'

/-- Splits a path behind its drive. -/
def splitChars (path : List Char) : Option DrivePath :=
  match unmarked path with
  | c :: ':' :: rest => if c.isAlpha && isRooted rest then some ⟨c.toUpper, rest⟩ else none
  | _ => none

/-- Splits a path behind its drive. -/
def split (path : String) : Option DrivePath := splitChars path.toList

/-- Puts a rest behind a device, with every slash turned the one way. -/
def join (device : String) (rest : List Char) : String :=
  device ++ String.ofList (rest.map fun c => if c = '/' then '\\' else c)

/-- Whether the path is the whole drive. -/
def isWholeDrive (p : DrivePath) : Bool := p.rest = [] || p.rest = ['\\']

/-! ## Lemmas -/

theorem toNat_lt_of_isAlpha {c : Char} (h : c.isAlpha = true) : c.toNat < 128 := by
  rcases Bool.or_eq_true_iff.1 h with hu | hl
  · have hz : c.val ≤ 'Z'.val := (of_decide_eq_true hu).2
    exact Nat.lt_of_le_of_lt (UInt32.le_iff_toNat_le.1 hz) (by decide)
  · have hz : c.val ≤ 'z'.val := of_decide_eq_true (Bool.and_eq_true_iff.1 hl).2
    exact Nat.lt_of_le_of_lt (UInt32.le_iff_toNat_le.1 hz) (by decide)

theorem toUpper_of_lt : ∀ n, n < 128 → (Char.ofNat n).isAlpha = true →
    (Char.ofNat n).toUpper.isAlpha = true ∧
      (Char.ofNat n).toUpper.toUpper = (Char.ofNat n).toUpper := by
  decide +kernel

/-- The upper case of a letter is a letter and its own upper case. -/
theorem isAlpha_toUpper {c : Char} (h : c.isAlpha = true) :
    c.toUpper.isAlpha = true ∧ c.toUpper.toUpper = c.toUpper := by
  have hc := toUpper_of_lt c.toNat (toNat_lt_of_isAlpha h)
  rw [Char.ofNat_toNat] at hc
  exact hc h

theorem unmarked_of_isAlpha {c : Char} (h : c.isAlpha = true) (path : List Char) :
    unmarked (c :: path) = c :: path := by
  unfold unmarked
  split
  · rename_i heq
    cases heq
    exact absurd h (by decide)
  · rfl

theorem splitChars_of_drive {path rest : List Char} {c : Char}
    (h : unmarked path = c :: ':' :: rest) : splitChars path =
      if c.isAlpha && isRooted rest then some ⟨c.toUpper, rest⟩ else none := by
  unfold splitChars
  rw [h]
  rfl

theorem splitChars_of_no_drive {path : List Char} (h : ∀ c rest, unmarked path ≠ c :: ':' :: rest) :
    splitChars path = none := by
  unfold splitChars
  split
  · rename_i c rest hdrive
    exact absurd hdrive (h c rest)
  · rfl

/-- A path is split exactly if it is a letter, a colon and a rest that begins at the root. -/
theorem splitChars_eq_some_iff {path : List Char} {p : DrivePath} : splitChars path = some p ↔
    ∃ c : Char, unmarked path = c :: ':' :: p.rest ∧ c.isAlpha = true ∧
      isRooted p.rest = true ∧ c.toUpper = p.letter := by
  constructor
  · intro h
    by_cases hdrive : ∃ c rest, unmarked path = c :: ':' :: rest
    · obtain ⟨c, rest, hdrive⟩ := hdrive
      rw [splitChars_of_drive hdrive] at h
      split at h
      · rename_i hc
        obtain ⟨halpha, hrooted⟩ := Bool.and_eq_true_iff.1 hc
        cases h
        exact ⟨c, hdrive, halpha, hrooted, rfl⟩
      · cases h
    · rw [splitChars_of_no_drive fun c rest h => hdrive ⟨c, rest, h⟩] at h
      cases h
  · rintro ⟨c, hdrive, halpha, hrooted, hletter⟩
    rw [splitChars_of_drive hdrive, halpha, hrooted, hletter]
    rfl

/-- Splitting the letter and the rest of a split path again changes nothing. -/
theorem splitChars_letter_rest {path : List Char} {p : DrivePath} (h : splitChars path = some p) :
    splitChars (p.letter :: ':' :: p.rest) = some p := by
  obtain ⟨c, -, halpha, hrooted, hletter⟩ := splitChars_eq_some_iff.1 h
  obtain ⟨hupper, hagain⟩ := isAlpha_toUpper halpha
  rw [hletter] at hupper hagain
  exact splitChars_eq_some_iff.2
    ⟨p.letter, unmarked_of_isAlpha hupper _, hupper, hrooted, hagain⟩

end DrivePath

end FileHolders
