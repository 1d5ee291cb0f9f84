/-!
# UTF-16 code units

Object names are sequences of 16-bit code units that need not be well formed.  `encode` gives the
units of a string; `decode` reads any units and puts U+FFFD for each surrogate without a partner.

    decode (encode s) = s                                            (decode_encode)
-/

namespace FileHolders.Utf16

/-! ## Algorithm -/

/-- A first half of a surrogate pair. -/
def isLead (u : UInt16) : Bool := 0xD800 ≤ u && u < 0xDC00

/-- A second half of a surrogate pair. -/
def isTrail (u : UInt16) : Bool := 0xDC00 ≤ u && u < 0xE000

/-- The character of a surrogate pair. -/
def joined (lead trail : UInt16) : Char :=
  Char.ofNat (0x10000 + (lead.toNat - 0xD800) * 0x400 + (trail.toNat - 0xDC00))

/-- The code units of one character: one unit, or a pair above the basic plane. -/
def unitsOf (c : Char) : List UInt16 :=
  if c.toNat < 0x10000 then [c.toNat.toUInt16]
  else
    [(0xD800 + (c.toNat - 0x10000) / 0x400).toUInt16,
     (0xDC00 + (c.toNat - 0x10000) % 0x400).toUInt16]

/-- The code units of a string. -/
def encode (s : String) : List UInt16 := s.toList.flatMap unitsOf

/-- The character of a code unit that stands alone. -/
def alone (u : UInt16) : Char :=
  if isLead u || isTrail u then '\uFFFD' else Char.ofNat u.toNat

/-- The characters of any code units. -/
def decodeChars : List UInt16 → List Char
  | [] => []
  | [u] => [alone u]
  | u :: v :: rest =>
    if isLead u && isTrail v then joined u v :: decodeChars rest
    else alone u :: decodeChars (v :: rest)

/-- The string of any code units. -/
def decode (units : List UInt16) : String := String.ofList (decodeChars units)

/-! ## Lemmas -/

theorem toNat_lt_of_not_surrogate (c : Char) : c.toNat < 0xD800 ∨
    (0xDFFF < c.toNat ∧ c.toNat < 0x110000) := c.valid

theorem toNat_toUInt16 {n : Nat} (h : n < 0x10000) : n.toUInt16.toNat = n :=
  UInt16.toNat_ofNat_of_lt' h

/-- The unit of a character of the basic plane is no half of a pair. -/
theorem not_surrogate_of_char (c : Char) (h : c.toNat < 0x10000) :
    isLead c.toNat.toUInt16 = false ∧ isTrail c.toNat.toUInt16 = false := by
  have hv := toNat_lt_of_not_surrogate c
  have h1 : (0xD800 : UInt16).toNat = 0xD800 := rfl
  have h2 : (0xDC00 : UInt16).toNat = 0xDC00 := rfl
  have h3 : (0xE000 : UInt16).toNat = 0xE000 := rfl
  simp only [isLead, isTrail, Bool.and_eq_false_iff, decide_eq_false_iff_not,
    UInt16.le_iff_toNat_le, UInt16.lt_iff_toNat_lt, toNat_toUInt16 h]
  omega

theorem decodeChars_cons_of_not_isLead {u : UInt16} (h : isLead u = false) (rest : List UInt16) :
    decodeChars (u :: rest) = alone u :: decodeChars rest := by
  cases rest with
  | nil => rfl
  | cons v rest => simp [decodeChars, h]

theorem decodeChars_unitsOf (c : Char) (rest : List UInt16) :
    decodeChars (unitsOf c ++ rest) = c :: decodeChars rest := by
  have hv := toNat_lt_of_not_surrogate c
  unfold unitsOf
  split
  · rename_i h
    obtain ⟨hl, ht⟩ := not_surrogate_of_char c h
    rw [List.singleton_append, decodeChars_cons_of_not_isLead hl, alone, hl, ht,
      toNat_toUInt16 h, Char.ofNat_toNat]
    rfl
  · rename_i h
    have hl := toNat_toUInt16 (n := 0xD800 + (c.toNat - 0x10000) / 0x400) (by omega)
    have ht := toNat_toUInt16 (n := 0xDC00 + (c.toNat - 0x10000) % 0x400) (by omega)
    have hlead : isLead (0xD800 + (c.toNat - 0x10000) / 0x400).toUInt16 = true := by
      simp only [isLead, Bool.and_eq_true, decide_eq_true_eq, UInt16.le_iff_toNat_le,
        UInt16.lt_iff_toNat_lt, hl]
      exact ⟨by show 0xD800 ≤ _; omega, by show _ < 0xDC00; omega⟩
    have htrail : isTrail (0xDC00 + (c.toNat - 0x10000) % 0x400).toUInt16 = true := by
      simp only [isTrail, Bool.and_eq_true, decide_eq_true_eq, UInt16.le_iff_toNat_le,
        UInt16.lt_iff_toNat_lt, ht]
      exact ⟨by show 0xDC00 ≤ _; omega, by show _ < 0xE000; omega⟩
    have hj : joined (0xD800 + (c.toNat - 0x10000) / 0x400).toUInt16
        (0xDC00 + (c.toNat - 0x10000) % 0x400).toUInt16 = c := by
      rw [joined, hl, ht]
      have : 0x10000 + (0xD800 + (c.toNat - 0x10000) / 0x400 - 0xD800) * 0x400 +
          (0xDC00 + (c.toNat - 0x10000) % 0x400 - 0xDC00) = c.toNat := by omega
      rw [this, Char.ofNat_toNat]
    simp only [List.cons_append, List.nil_append, decodeChars, hlead, htrail, Bool.and_self,
      if_true, hj]

theorem decodeChars_flatMap (cs : List Char) : decodeChars (cs.flatMap unitsOf) = cs := by
  induction cs with
  | nil => simp [decodeChars]
  | cons c cs ih => rw [List.flatMap_cons, decodeChars_unitsOf, ih]

/-- Reading the units of a string gives the string back. -/
theorem decode_encode (s : String) : decode (encode s) = s := by
  rw [decode, encode, decodeChars_flatMap, String.ofList_toList]

end FileHolders.Utf16
