import FileHolders.Proofs.Bounds

/-!
# What is written is read back

A buffer holds a table if its header counts the records and each of them stands in its place,
whatever the other bytes are.  It holds a name if its header gives the length of the text and a
place inside the buffer where the text stands.  Then the table and the name are read, wherever the
buffer lies.

    b.HoldsTable rs → (⟨b⟩ : Table).records = rs                            (records_of_holdsTable)
    b.HoldsName units → Name.read b = .ok ⟨units⟩                                (read_of_holdsName)
-/

namespace FileHolders

namespace Block

variable {b : Block} {offset : Nat}

/-- Where every item takes up the same number of bytes, each has a place of its own. -/
theorem spells_of_flatMap {α : Type} {f : α → List UInt8} {c : Nat} (hf : ∀ a, (f a).length = c)
    {items : List α} (h : b.Spells offset (items.flatMap f)) {i : Nat} {a : α}
    (ha : items[i]? = some a) : b.Spells (offset + c * i) (f a) := by
  induction items generalizing offset i with
  | nil => simp at ha
  | cons first items ih =>
    rw [List.flatMap_cons, spells_append, hf] at h
    cases i with
    | zero =>
      obtain rfl : first = a := by simpa using ha
      exact h.1
    | succ i =>
      have hplace : offset + c * (i + 1) = offset + c + c * i := by
        rw [Nat.mul_succ]
        omega
      rw [hplace]
      exact ih h.2 (by simpa using ha)

theorem numberOf_of_spells {count n : Nat} (hn : n < Nat.pow 256 count)
    (h : b.Spells offset (littleEndian count n)) : numberOf (b.bytes offset count) = n := by
  rw [Spells, length_littleEndian] at h
  rw [h, numberOf_littleEndian, Nat.mod_eq_of_lt hn]

theorem word64_of_spells {n : UInt64} (h : b.Spells offset (littleEndian 8 n.toNat)) :
    b.word64 offset = n := by
  rw [← UInt64.toNat_inj, toNat_word64, numberOf_of_spells n.toNat_lt h]

theorem word32_of_spells {n : UInt32} (h : b.Spells offset (littleEndian 4 n.toNat)) :
    b.word32 offset = n := by
  rw [← UInt32.toNat_inj, toNat_word32, numberOf_of_spells n.toNat_lt h]

theorem word16_of_spells {n : UInt16} (h : b.Spells offset (littleEndian 2 n.toNat)) :
    b.word16 offset = n := by
  rw [← UInt16.toNat_inj, toNat_word16, numberOf_of_spells n.toNat_lt h]

end Block

/-! ## Tables -/

/-- The buffer holds a table of the given records. -/
def Block.HoldsTable (b : Block) (records : List Record) : Prop :=
  b.word64 0 = records.length.toUInt64 ∧
    ∀ i r, records[i]? = some r → Table.recordAt b (16 + 40 * i) = r

namespace Table

theorem recordAt_of_spells {b : Block} {offset : Nat} {r : Record}
    (h : b.Spells offset (entryBytes r)) : recordAt b offset = r := by
  unfold entryBytes at h
  rw [Block.spells_append, Block.spells_append, Block.spells_append, Block.spells_append] at h
  simp only [List.length_append, length_littleEndian] at h
  obtain ⟨⟨⟨⟨-, hpid⟩, hvalue⟩, haccess⟩, -⟩ := h
  rw [recordAt, Block.word64_of_spells hpid, Block.word64_of_spells hvalue,
    Block.word32_of_spells haccess]

/-- Looking up every index gives the list. -/
theorem filterMap_getElem?_range {α : Type} (items : List α) :
    (List.range items.length).filterMap (fun i => items[i]?) = items := by
  induction items with
  | nil => rfl
  | cons a items ih =>
    rw [List.length_cons, List.range_succ_eq_map, List.filterMap_cons, List.filterMap_map]
    exact congrArg (a :: ·) ih

/-- The bytes of a table hold it. -/
theorem holdsTable_of_spells {b : Block} {records : List Record}
    (h : b.Spells 0 (tableBytes records.length.toUInt64 records)) : b.HoldsTable records := by
  unfold tableBytes at h
  rw [Block.spells_append, Block.spells_append] at h
  simp only [List.length_append, length_littleEndian] at h
  obtain ⟨⟨hcount, -⟩, hentries⟩ := h
  refine ⟨Block.word64_of_spells hcount, ?_⟩
  intro i r hr
  have hentry := Block.spells_of_flatMap length_entryBytes hentries hr
  exact recordAt_of_spells (by simpa using hentry)

section

variable {b : Block} {records : List Record}

theorem toNat_length_of_sizeFor_le (hsize : sizeFor records.length ≤ b.size.toNat) :
    records.length.toUInt64.toNat = records.length := by
  have hb := b.small
  unfold sizeFor at hsize
  exact UInt64.toNat_ofNat_of_lt' (by rw [Word.size_eq]; omega)

theorem claimed_of_holdsTable (h : b.HoldsTable records)
    (hsize : sizeFor records.length ≤ b.size.toNat) :
    (⟨b⟩ : Table).claimed = records.length.toUInt64 := by
  have hheader : ¬ b.size < headerSize := by
    have h16 : headerSize.toNat = 16 := rfl
    unfold sizeFor at hsize
    rw [UInt64.lt_iff_toNat_lt, h16]
    omega
  rw [claimed, if_neg hheader]
  exact h.1

theorem count_of_holdsTable (h : b.HoldsTable records)
    (hsize : sizeFor records.length ≤ b.size.toNat) : (⟨b⟩ : Table).count = records.length := by
  rw [count, ← toNat_claimed, claimed_of_holdsTable h hsize, toNat_length_of_sizeFor_le hsize]
  show min records.length ((b.size.toNat - 16) / 40) = records.length
  unfold sizeFor at hsize
  omega

/-- A buffer that has room for a table has as many entries as its header says. -/
theorem size_of_holdsTable (h : b.HoldsTable records)
    (hsize : sizeFor records.length ≤ b.size.toNat) :
    (⟨b⟩ : Table).size = records.length.toUInt64 := by
  rw [← UInt64.toNat_inj, toNat_size, count_of_holdsTable h hsize, toNat_length_of_sizeFor_le hsize]

/-- A table that says how many entries it has gives all of them. -/
theorem records_of_holdsTable (h : b.HoldsTable records)
    (hsize : sizeFor records.length ≤ b.size.toNat) : (⟨b⟩ : Table).records = records := by
  have hcount := count_of_holdsTable h hsize
  have hget : ∀ i ∈ List.range records.length, (⟨b⟩ : Table).get? i.toUInt64 = records[i]? := by
    intro i hi
    rw [List.mem_range] at hi
    have hlt : i < (⟨b⟩ : Table).count := by
      rw [hcount]
      exact hi
    rw [get?_eq, toNat_toUInt64_of_lt hlt, if_pos hlt, List.getElem?_eq_getElem hi]
    exact congrArg some (h.2 i _ (List.getElem?_eq_getElem hi))
  rw [Table.records, toNat_size, hcount, List.filterMap_congr hget]
  exact filterMap_getElem?_range records

end

end Table

/-! ## Names -/

/-- The buffer holds a name of the given units. -/
def Block.HoldsName (b : Block) (units : List UInt16) : Prop :=
  b.word16 0 = (2 * units.length).toUInt16 ∧
    (units = [] ∨ ∃ offset : UInt64, b.word64 8 = b.address + offset ∧
      offset.toNat + 2 * units.length ≤ b.size.toNat ∧
        b.words16 offset.toNat units.length = units)

namespace Name

/-- The bytes of a name in a block at an address. -/
def nameBytes (address : UInt64) (units : List UInt16) : List UInt8 :=
  headerBytes (2 * units.length).toUInt16 ((2 * units.length).toUInt16 + 2)
    (address + headerSize) ++ unitBytes (units ++ [0])

theorem length_nameBytes (address : UInt64) (units : List UInt16) :
    (nameBytes address units).length = sizeFor units := by
  rw [nameBytes, headerBytes, List.length_append, length_unitBytes]
  simp [length_littleEndian, sizeFor]

/-- The units of a text are read back. -/
theorem words16_of_spells {b : Block} {units : List UInt16} {offset : Nat}
    (h : b.Spells offset (unitBytes (units ++ [0]))) :
    b.words16 offset units.length = units := by
  have hunit : ∀ i ∈ List.range units.length, some (b.word16 (offset + 2 * i)) = units[i]? := by
    intro i hi
    rw [List.mem_range] at hi
    have hunit : (units ++ [0])[i]? = some units[i] := by
      rw [List.getElem?_append_left hi, List.getElem?_eq_getElem hi]
    have hplace := Block.spells_of_flatMap (fun u => length_littleEndian 2 u.toNat) h hunit
    rw [Block.word16_of_spells hplace, List.getElem?_eq_getElem hi]
  have hwords : (List.range units.length).filterMap
      (fun i => some (b.word16 (offset + 2 * i))) = b.words16 offset units.length := by
    rw [Block.words16, List.filterMap_eq_map']
  rw [← hwords, List.filterMap_congr hunit]
  exact Table.filterMap_getElem?_range units

/-- The bytes of a name hold it. -/
theorem holdsName_of_spells {b : Block} {units : List UInt16}
    (h : b.Spells 0 (nameBytes b.address units)) (hsize : sizeFor units ≤ b.size.toNat) :
    b.HoldsName units := by
  unfold sizeFor at hsize
  unfold nameBytes headerBytes at h
  rw [Block.spells_append, Block.spells_append, Block.spells_append, Block.spells_append] at h
  simp only [List.length_append, length_littleEndian] at h
  obtain ⟨⟨⟨⟨hlength, -⟩, -⟩, hpointer⟩, htext⟩ := h
  have h16 : headerSize.toNat = 16 := rfl
  refine ⟨Block.word16_of_spells hlength, .inr ⟨headerSize, ?_, ?_, ?_⟩⟩
  · exact Block.word64_of_spells hpointer
  · rw [h16]
    omega
  · exact words16_of_spells htext

/-- A name that its buffer holds is read. -/
theorem read_of_holdsName {b : Block} {units : List UInt16} (hunits : units.length ≤ 32766)
    (h : b.HoldsName units) (hsize : sizeFor units ≤ b.size.toNat)
    (haddress : b.address.toNat + b.size.toNat ≤ UInt64.size) : read b = .ok ⟨units⟩ := by
  obtain ⟨hlength, htext⟩ := h
  unfold sizeFor at hsize
  have htwice : lengthIn b = 2 * units.length := by
    rw [lengthIn, ← Block.toNat_word16, hlength]
    exact UInt16.toNat_ofNat_of_lt' (by show 2 * units.length < 65536; omega)
  have hhalf : lengthIn b / 2 = units.length := by omega
  rw [read_eq, hhalf]
  by_cases hempty : units = []
  · subst hempty
    rw [if_pos ⟨by omega, .inl htwice⟩]
    rfl
  · obtain ⟨offset, hpointer, hinside, hwords⟩ := htext.resolve_left hempty
    have hsome := List.length_pos_iff.mpr hempty
    -- The text ends where its buffer ends at the latest, so the sum does not wrap around.
    have hplace : pointerIn b = b.address.toNat + offset.toNat := by
      have hs := Word.size_eq
      rw [pointerIn, ← Block.toNat_word64, hpointer, UInt64.toNat_add]
      omega
    have hstart : startIn b = offset.toNat := by
      rw [startIn]
      omega
    rw [if_pos ⟨by omega, .inr ⟨by omega, by omega, by omega⟩⟩, hstart, hwords]

end Name

end FileHolders
