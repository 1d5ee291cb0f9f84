/-!
# Saturating and checked arithmetic on 64-bit words

Sizes, process ids and handle values are 64-bit words.  A sum or a difference that leaves the
range either stops at the end of the range (`addSat`, `subSat`, `double`) or is refused (`add?`,
`sub?`).  The lemmas say what each operation does to the value `toNat`.

    (addSat a b).toNat = min (a.toNat + b.toNat) (UInt64.size - 1)   (toNat_addSat)
    add? a b = some c ↔ c.toNat = a.toNat + b.toNat                  (add?_eq_some_iff)
-/

namespace FileHolders.Word

/-! ## Operations -/

/-- The largest word. -/
def largest : UInt64 := 18446744073709551615

/-- A sum that stops at the largest word. -/
def addSat (a b : UInt64) : UInt64 :=
  if a + b < a then largest else a + b

/-- A difference that stops at zero. -/
def subSat (a b : UInt64) : UInt64 :=
  if a < b then 0 else a - b

/-- Twice a word, or the largest word if that does not fit. -/
def double (a : UInt64) : UInt64 :=
  addSat a a

/-- A sum, or nothing if it does not fit. -/
def add? (a b : UInt64) : Option UInt64 :=
  if a + b < a then none else some (a + b)

/-- A difference, or nothing if it is negative. -/
def sub? (a b : UInt64) : Option UInt64 :=
  if a < b then none else some (a - b)

/-! ## Lemmas -/

/-- The number of words, as a numeral. -/
theorem size_eq : UInt64.size = 18446744073709551616 := rfl

theorem add_lt_left_iff (a b : UInt64) : a + b < a ↔ UInt64.size ≤ a.toNat + b.toNat := by
  have hs := size_eq
  have ha := a.toNat_lt
  have hb := b.toNat_lt
  rw [UInt64.lt_iff_toNat_lt, UInt64.toNat_add]
  omega

theorem toNat_addSat (a b : UInt64) :
    (addSat a b).toNat = min (a.toNat + b.toNat) (UInt64.size - 1) := by
  have hs := size_eq
  have ha := a.toNat_lt
  have hb := b.toNat_lt
  unfold addSat
  split
  · rename_i h
    rw [add_lt_left_iff] at h
    show 18446744073709551615 = _
    omega
  · rename_i h
    rw [add_lt_left_iff] at h
    rw [UInt64.toNat_add]
    omega

theorem toNat_double (a : UInt64) : (double a).toNat = min (2 * a.toNat) (UInt64.size - 1) := by
  rw [double, toNat_addSat, Nat.two_mul]

theorem toNat_subSat (a b : UInt64) : (subSat a b).toNat = a.toNat - b.toNat := by
  unfold subSat
  split
  · rename_i h
    rw [UInt64.lt_iff_toNat_lt] at h
    show 0 = _
    omega
  · rename_i h
    rw [UInt64.lt_iff_toNat_lt] at h
    exact UInt64.toNat_sub_of_le _ _ (UInt64.le_iff_toNat_le.2 (by omega))

theorem add?_eq_some_iff (a b c : UInt64) : add? a b = some c ↔ c.toNat = a.toNat + b.toNat := by
  have hs := size_eq
  have ha := a.toNat_lt
  have hb := b.toNat_lt
  have hc := c.toNat_lt
  unfold add?
  split
  · rename_i h
    rw [add_lt_left_iff] at h
    simp only [reduceCtorEq, false_iff]
    omega
  · rename_i h
    rw [add_lt_left_iff] at h
    rw [Option.some.injEq, ← UInt64.toNat_inj, UInt64.toNat_add]
    omega

theorem sub?_eq_some_iff (a b c : UInt64) : sub? a b = some c ↔ a.toNat = b.toNat + c.toNat := by
  have ha := a.toNat_lt
  have hb := b.toNat_lt
  have hc := c.toNat_lt
  unfold sub?
  split
  · rename_i h
    rw [UInt64.lt_iff_toNat_lt] at h
    simp only [reduceCtorEq, false_iff]
    omega
  · rename_i h
    rw [UInt64.lt_iff_toNat_lt] at h
    rw [Option.some.injEq, ← UInt64.toNat_inj,
      UInt64.toNat_sub_of_le _ _ (UInt64.le_iff_toNat_le.2 (by omega))]
    omega

theorem toNat_max (a b : UInt64) : (max a b).toNat = max a.toNat b.toNat := by
  have h : max a b = if a ≤ b then b else a := rfl
  rw [h]
  split
  · rename_i hab
    rw [UInt64.le_iff_toNat_le] at hab
    omega
  · rename_i hab
    rw [UInt64.le_iff_toNat_le] at hab
    omega

theorem toNat_min (a b : UInt64) : (min a b).toNat = min a.toNat b.toNat := by
  have h : min a b = if a ≤ b then a else b := rfl
  rw [h]
  split
  · rename_i hab
    rw [UInt64.le_iff_toNat_le] at hab
    omega
  · rename_i hab
    rw [UInt64.le_iff_toNat_le] at hab
    omega

end FileHolders.Word
