import FileHolders.Text.Utf16
import Mathlib.Data.List.Infix

/-!
# Texts and their code units

A character is written as one unit that is no half of a surrogate pair, or as the two halves of one
pair, so where the units of a character end can be told from the units alone.  Hence the units of a
text determine the text, and a text begins with another exactly if its units begin with those of the
other: a cut between units never falls inside a character of both.  A half without its partner does
not occur in a text.

    t.flatMap unitsOf ++ more = s.flatMap unitsOf ↔
      ∃ rest, s = t ++ rest ∧ more = rest.flatMap unitsOf               (flatMap_unitsOf_append_iff)
    encode t <+: encode s ↔ t.toList <+: s.toList                              (encode_isPrefix_iff)
    HasLone units → encode s ≠ units                                          (encode_ne_of_hasLone)
-/

namespace FileHolders.Utf16

/-! ## The units of a character -/

/-- What the units of a character look like. -/
inductive Written (c : Char) : List UInt16 → Prop
  | single {u : UInt16} (hc : u.toNat = c.toNat) (hl : isLead u = false) (ht : isTrail u = false) :
      Written c [u]
  | pair {lead trail : UInt16} (hl : isLead lead = true) (ht : isTrail trail = true) :
      Written c [lead, trail]

theorem isLead_iff {u : UInt16} : isLead u = true ↔ 0xD800 ≤ u.toNat ∧ u.toNat < 0xDC00 := by
  simp [isLead, UInt16.le_iff_toNat_le, UInt16.lt_iff_toNat_lt]

theorem isTrail_iff {u : UInt16} : isTrail u = true ↔ 0xDC00 ≤ u.toNat ∧ u.toNat < 0xE000 := by
  simp [isTrail, UInt16.le_iff_toNat_le, UInt16.lt_iff_toNat_lt]

theorem isTrail_of_isLead {u : UInt16} (h : isLead u = true) : isTrail u = false := by
  rw [isLead_iff] at h
  rw [Bool.eq_false_iff, Ne, isTrail_iff]
  omega

theorem isLead_of_isTrail {u : UInt16} (h : isTrail u = true) : isLead u = false := by
  rw [isTrail_iff] at h
  rw [Bool.eq_false_iff, Ne, isLead_iff]
  omega

theorem written_unitsOf (c : Char) : Written c (unitsOf c) := by
  have hc := toNat_lt_of_not_surrogate c
  unfold unitsOf
  split
  · rename_i hbasic
    obtain ⟨hl, ht⟩ := not_surrogate_of_char c hbasic
    exact .single (toNat_toUInt16 hbasic) hl ht
  · rename_i habove
    apply Written.pair
    · rw [isLead_iff, toNat_toUInt16 (by omega)]
      omega
    · rw [isTrail_iff, toNat_toUInt16 (by omega)]
      omega

theorem unitsOf_ne_nil (c : Char) : unitsOf c ≠ [] := by
  unfold unitsOf
  split
  · simp
  · simp

/-- The first character of a text is found from its units, whatever comes after them. -/
theorem unitsOf_append_inj {c d : Char} {more rest : List UInt16}
    (h : unitsOf c ++ more = unitsOf d ++ rest) : c = d ∧ more = rest := by
  have hdecoded := congrArg decodeChars h
  rw [decodeChars_unitsOf, decodeChars_unitsOf] at hdecoded
  obtain ⟨rfl, -⟩ := List.cons.inj hdecoded
  exact ⟨rfl, List.append_cancel_left h⟩

/-! ## The units of a text -/

/-- Units that begin a text and are a text themselves end between two of its characters. -/
theorem flatMap_unitsOf_append_iff {t s : List Char} {more : List UInt16} :
    t.flatMap unitsOf ++ more = s.flatMap unitsOf ↔
      ∃ rest, s = t ++ rest ∧ more = rest.flatMap unitsOf := by
  constructor
  · intro h
    induction t generalizing s with
    | nil => exact ⟨s, rfl, h⟩
    | cons c t ih =>
      rw [List.flatMap_cons, List.append_assoc] at h
      cases s with
      | nil => simp [unitsOf_ne_nil] at h
      | cons d s =>
        rw [List.flatMap_cons] at h
        obtain ⟨rfl, hlater⟩ := unitsOf_append_inj h
        obtain ⟨rest, rfl, hmore⟩ := ih hlater
        exact ⟨rest, rfl, hmore⟩
  · rintro ⟨rest, rfl, rfl⟩
    rw [List.flatMap_append]

theorem encode_injective {s t : String} (h : encode s = encode t) : s = t := by
  rw [← decode_encode s, h, decode_encode]

theorem encode_eq_iff {s t : String} : encode s = encode t ↔ s = t :=
  ⟨encode_injective, congrArg encode⟩

theorem encode_append (s t : String) : encode (s ++ t) = encode s ++ encode t := by
  rw [encode, String.toList_append, List.flatMap_append, encode, encode]

theorem encode_ofList (cs : List Char) : encode (String.ofList cs) = cs.flatMap unitsOf := by
  rw [encode, String.toList_ofList]

/-- What follows the units of a text in those of another are the units of the rest of that one. -/
theorem exists_rest_of_encode_append {t s : String} {more : List UInt16}
    (h : encode t ++ more = encode s) : ∃ rest, s = t ++ rest ∧ more = encode rest := by
  obtain ⟨rest, hs, hmore⟩ := flatMap_unitsOf_append_iff.mp h
  refine ⟨String.ofList rest, ?_, by rw [hmore, encode_ofList]⟩
  rw [← String.toList_inj, String.toList_append, String.toList_ofList, hs]

/-- A text begins with another exactly if its units do. -/
theorem encode_isPrefix_iff {t s : String} : encode t <+: encode s ↔ t.toList <+: s.toList := by
  constructor
  · rintro ⟨more, h⟩
    obtain ⟨rest, rfl, -⟩ := exists_rest_of_encode_append h
    rw [String.toList_append]
    exact List.prefix_append _ _
  · rintro ⟨rest, hs⟩
    exact ⟨rest.flatMap unitsOf, flatMap_unitsOf_append_iff.mpr ⟨rest, hs.symm, rfl⟩⟩

/-! ## Halves without a partner -/

/-- A unit is half of a pair, but its other half does not stand next to it. -/
def LoneAt (before : List UInt16) (u : UInt16) (after : List UInt16) : Prop :=
  (isLead u = true ∧ ∀ v ∈ after.head?, isTrail v = false) ∨
    (isTrail u = true ∧ ∀ v ∈ before.getLast?, isLead v = false)

/-- Somewhere among the units a half of a pair stands alone. -/
def HasLone (units : List UInt16) : Prop :=
  ∃ before u after, units = before ++ u :: after ∧ LoneAt before u after

theorem LoneAt.of_cons {w u : UInt16} {before after : List UInt16}
    (h : LoneAt (w :: before) u after) : LoneAt before u after := by
  refine h.imp_right ?_
  rintro ⟨ht, hbefore⟩
  refine ⟨ht, fun v hv => hbefore v ?_⟩
  rw [Option.mem_def] at hv
  rw [List.getLast?_cons, hv]
  rfl

/-- Only what follows the units of a character can hold a lone half. -/
theorem HasLone.of_unitsOf_append {c : Char} {rest : List UInt16}
    (h : HasLone (unitsOf c ++ rest)) : HasLone rest := by
  obtain ⟨before, u, after, heq, hlone⟩ := h
  have hwritten := written_unitsOf c
  generalize unitsOf c = units at heq hwritten
  cases hwritten with
  | single _ hl ht =>
    cases before with
    | nil =>
      obtain ⟨rfl, rfl⟩ := List.cons.inj heq
      simp [LoneAt, hl, ht] at hlone
    | cons w before => exact ⟨before, u, after, (List.cons.inj heq).2, hlone.of_cons⟩
  | pair hl ht =>
    cases before with
    | nil =>
      obtain ⟨rfl, rfl⟩ := List.cons.inj heq
      simp [LoneAt, ht, isTrail_of_isLead hl] at hlone
    | cons w before =>
      obtain ⟨rfl, hrest⟩ := List.cons.inj heq
      cases before with
      | nil =>
        obtain ⟨rfl, rfl⟩ := List.cons.inj hrest
        simp [LoneAt, hl, isLead_of_isTrail ht] at hlone
      | cons w' before =>
        exact ⟨before, u, after, (List.cons.inj hrest).2, hlone.of_cons.of_cons⟩

theorem not_hasLone_encode (s : String) : ¬ HasLone (encode s) := by
  unfold encode
  induction s.toList with
  | nil =>
    rintro ⟨before, u, after, heq, -⟩
    simp at heq
  | cons c cs ih =>
    intro h
    exact ih h.of_unitsOf_append

theorem encode_ne_of_hasLone {units : List UInt16} (h : HasLone units) (s : String) :
    encode s ≠ units := by
  rintro rfl
  exact not_hasLone_encode s h

end FileHolders.Utf16
