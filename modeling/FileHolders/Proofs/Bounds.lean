import FileHolders.Name
import FileHolders.Table
import Mathlib.Data.List.Basic

/-!
# What is read lies inside its buffer

Neither the header of a name nor the count of a table is trusted.  Whatever bytes a buffer holds,
a name is read exactly if its text is a run of whole units inside the buffer, and a table has as
many entries as its header claims and the buffer has room for.  Sums and differences are meant
exactly: none of them leaves the range of the words that hold them.

A reader looks at no byte outside of its buffer.  Two buffers with the same bytes where it looks are
read alike, and where it looks is inside.

    read b = if Fits b then .ok ⟨b.words16 (startIn b) (lengthIn b / 2)⟩ else .error .malformedName
                                                                                      (Name.read_eq)
    t.get? i = if i < t.count then some (recordAt t.block (16 + 40 * i)) else none
                                                                                   (Table.get?_eq)
-/

namespace FileHolders

/-! ## Numbers and their bytes -/

theorem numberOf_lt (bytes : List UInt8) : numberOf bytes < Nat.pow 256 bytes.length := by
  induction bytes with
  | nil => simp [numberOf]
  | cons byte bytes ih =>
    have hb := byte.toNat_lt
    rw [numberOf, List.length_cons, Nat.pow_eq, Nat.pow_succ]
    rw [Nat.pow_eq] at ih
    omega

/-- The bytes of a number are those that spell it. -/
theorem littleEndian_numberOf (bytes : List UInt8) :
    littleEndian bytes.length (numberOf bytes) = bytes := by
  induction bytes with
  | nil => rfl
  | cons byte bytes ih =>
    have hb := byte.toNat_lt
    have hlow : (byte.toNat + 256 * numberOf bytes).toUInt8 = byte := by
      rw [← UInt8.toNat_inj]
      simp
    have hhigh : (byte.toNat + 256 * numberOf bytes) / 256 = numberOf bytes := by omega
    rw [numberOf, List.length_cons, littleEndian, hlow, hhigh, ih]

theorem Name.length_unitBytes (units : List UInt16) :
    (unitBytes units).length = 2 * units.length := by
  induction units with
  | nil => rfl
  | cons u units ih =>
    rw [unitBytes] at ih
    rw [unitBytes, List.flatMap_cons, List.length_append, length_littleEndian, ih,
      List.length_cons]
    omega

namespace Block

/-- The bytes that stand in a block from an offset on. -/
def Spells (b : Block) (offset : Nat) (bytes : List UInt8) : Prop :=
  b.bytes offset bytes.length = bytes

variable (b : Block) (offset : Nat)

theorem bytes_add (m n : Nat) :
    b.bytes offset (m + n) = b.bytes offset m ++ b.bytes (offset + m) n := by
  rw [Block.bytes, List.range_add, List.map_append, List.map_map]
  simp [Block.bytes, Function.comp_def, Nat.add_assoc]

theorem length_bytes (count : Nat) : (b.bytes offset count).length = count := by
  simp [Block.bytes]

variable {b offset} in
/-- Bytes stand in a block part by part. -/
theorem spells_append {bytes more : List UInt8} :
    b.Spells offset (bytes ++ more) ↔
      b.Spells offset bytes ∧ b.Spells (offset + bytes.length) more := by
  unfold Spells
  rw [List.length_append, bytes_add]
  constructor
  · intro h
    exact List.append_inj h (length_bytes b offset bytes.length)
  · rintro ⟨h, hm⟩
    rw [h, hm]

theorem numberOf_bytes_lt (count : Nat) : numberOf (b.bytes offset count) < Nat.pow 256 count := by
  have h := numberOf_lt (b.bytes offset count)
  rw [length_bytes] at h
  exact h

theorem toNat_word16 : (b.word16 offset).toNat = numberOf (b.bytes offset 2) :=
  UInt16.toNat_ofNat_of_lt' (b.numberOf_bytes_lt offset 2)

theorem toNat_word32 : (b.word32 offset).toNat = numberOf (b.bytes offset 4) :=
  UInt32.toNat_ofNat_of_lt' (b.numberOf_bytes_lt offset 4)

theorem toNat_word64 : (b.word64 offset).toNat = numberOf (b.bytes offset 8) :=
  UInt64.toNat_ofNat_of_lt' (b.numberOf_bytes_lt offset 8)

/-- A number that is read stands in the block. -/
theorem spells_numberOf (count : Nat) :
    b.Spells offset (littleEndian count (numberOf (b.bytes offset count))) := by
  have h := littleEndian_numberOf (b.bytes offset count)
  rw [length_bytes] at h
  rw [Spells, length_littleEndian, h]

theorem words16_succ (count : Nat) :
    b.words16 offset (count + 1) = b.words16 offset count ++ [b.word16 (offset + 2 * count)] := by
  rw [words16, List.range_succ, List.map_append]
  rfl

theorem length_words16 (count : Nat) : (b.words16 offset count).length = count := by
  simp [words16]

/-- Units that are read stand in the block. -/
theorem spells_words16 (count : Nat) :
    b.Spells offset (Name.unitBytes (b.words16 offset count)) := by
  induction count with
  | zero => rfl
  | succ count ih =>
    rw [words16_succ, Name.unitBytes, List.flatMap_append, List.flatMap_singleton, spells_append,
      ← Name.unitBytes, Name.length_unitBytes, length_words16, toNat_word16]
    exact ⟨ih, b.spells_numberOf (offset + 2 * count) 2⟩

/-! ## Where a reader looks -/

variable {b offset}

/-- Two blocks of one place and size with the same bytes where somebody looks. -/
structure AlikeWhere (looked : Nat → Prop) (b c : Block) : Prop where
  address : c.address = b.address
  size : c.size = b.size
  byte : ∀ i, looked i → c.byte i = b.byte i

section

variable {looked : Nat → Prop} {c : Block} {count : Nat}

theorem AlikeWhere.bytes_eq (h : AlikeWhere looked b c)
    (hlooked : ∀ i, offset ≤ i → i < offset + count → looked i) :
    c.bytes offset count = b.bytes offset count := by
  rw [Block.bytes, Block.bytes]
  refine List.map_congr_left fun i hi => h.byte _ (hlooked _ (Nat.le_add_right _ _) ?_)
  rw [List.mem_range] at hi
  omega

theorem AlikeWhere.words16_eq (h : AlikeWhere looked b c)
    (hlooked : ∀ i, offset ≤ i → i < offset + 2 * count → looked i) :
    c.words16 offset count = b.words16 offset count := by
  rw [words16, words16]
  refine List.map_congr_left fun i hi => ?_
  rw [List.mem_range] at hi
  rw [word16, word16, h.bytes_eq fun j _ _ => hlooked j (by omega) (by omega)]

end

end Block

/-! ## Names -/

namespace Name

/-- The length of the text in bytes, as the header gives it. -/
def lengthIn (b : Block) : Nat := numberOf (b.bytes 0 2)

/-- The address of the text, as the header gives it. -/
def pointerIn (b : Block) : Nat := numberOf (b.bytes 8 8)

/-- Where in the buffer the text starts. -/
def startIn (b : Block) : Nat := pointerIn b - b.address.toNat

/-- The buffer holds a header, and the text is empty or a run of whole units inside the buffer. -/
def Fits (b : Block) : Prop :=
  16 ≤ b.size.toNat ∧ (lengthIn b = 0 ∨ lengthIn b % 2 = 0 ∧ b.address.toNat ≤ pointerIn b ∧
    pointerIn b - b.address.toNat + lengthIn b ≤ b.size.toNat)

instance (b : Block) : Decidable (Fits b) :=
  inferInstanceAs (Decidable (_ ∧ (_ ∨ _)))

section

variable {b : Block}

theorem textOffset?_eq_some_iff {pointer length offset : UInt64} :
    textOffset? b pointer length = some offset ↔
      pointer.toNat = b.address.toNat + offset.toNat ∧ length.toNat % 2 = 0 ∧
        offset.toNat + length.toNat ≤ b.size.toNat := by
  have hs := Word.size_eq
  have hb := b.small
  have heven : length % 2 ≠ 0 ↔ length.toNat % 2 ≠ 0 := by
    rw [Ne, ← UInt64.toNat_inj, UInt64.toNat_mod]
    rfl
  unfold textOffset?
  constructor
  · intro h
    split at h
    · cases h
    · rename_i start hstart
      split at h
      · cases h
      · rename_i stop hstop
        split at h
        · cases h
        · rename_i hwhole
          cases h
          rw [Word.sub?_eq_some_iff] at hstart
          rw [Word.add?_eq_some_iff] at hstop
          rw [UInt64.lt_iff_toNat_lt, heven] at hwhole
          omega
  · rintro ⟨hstart, hwhole, hinside⟩
    have hsub : Word.sub? pointer b.address = some offset :=
      (Word.sub?_eq_some_iff _ _ _).mpr hstart
    have hstop : (offset + length).toNat = offset.toNat + length.toNat := by
      rw [UInt64.toNat_add]
      omega
    have hadd : Word.add? offset length = some (offset + length) :=
      (Word.add?_eq_some_iff _ _ _).mpr hstop
    rw [hsub]
    dsimp only
    rw [hadd]
    dsimp only
    rw [if_neg]
    rw [UInt64.lt_iff_toNat_lt, heven]
    omega

theorem toNat_length : (b.word16 0).toUInt64.toNat = lengthIn b := by
  rw [UInt16.toNat_toUInt64, Block.toNat_word16, lengthIn]

/-- The text is found where the header says, if it is a run of whole units inside the buffer. -/
theorem textOffset?_header_eq_some_iff {offset : UInt64} :
    textOffset? b (b.word64 8) (b.word16 0).toUInt64 = some offset ↔
      offset.toNat = startIn b ∧ lengthIn b % 2 = 0 ∧ b.address.toNat ≤ pointerIn b ∧
        startIn b + lengthIn b ≤ b.size.toNat := by
  rw [textOffset?_eq_some_iff, Block.toNat_word64, toNat_length, ← pointerIn, startIn]
  omega

/-- The place of a text inside the buffer is a word. -/
theorem toNat_startIn (h : startIn b + lengthIn b ≤ b.size.toNat) :
    (startIn b).toUInt64.toNat = startIn b := by
  have hb := b.small
  exact UInt64.toNat_ofNat_of_lt' (by rw [Word.size_eq]; omega)

/-- A buffer is read as a name if it holds one, and for no other fault refused. -/
theorem read_eq (b : Block) : read b =
    if Fits b then .ok ⟨b.words16 (startIn b) (lengthIn b / 2)⟩ else .error .malformedName := by
  have h16 : headerSize.toNat = 16 := rfl
  have hzero : (b.word16 0).toUInt64 = 0 ↔ lengthIn b = 0 := by
    rw [← UInt64.toNat_inj, toNat_length]
    rfl
  unfold read
  by_cases hshort : b.size < headerSize
  · rw [if_pos hshort, if_neg]
    rintro ⟨hsize, -⟩
    rw [UInt64.lt_iff_toNat_lt, h16] at hshort
    omega
  · rw [if_neg hshort]
    rw [UInt64.lt_iff_toNat_lt, h16] at hshort
    dsimp only
    by_cases hempty : lengthIn b = 0
    · rw [if_pos (hzero.mpr hempty), if_pos ⟨by omega, .inl hempty⟩, hempty]
      rfl
    · rw [if_neg (mt hzero.mp hempty)]
      cases hoffset : textOffset? b (b.word64 8) (b.word16 0).toUInt64 with
      | none =>
        rw [if_neg]
        rintro ⟨-, hfits⟩
        obtain ⟨heven, hpointer, hinside⟩ := hfits.resolve_left hempty
        have hsome := textOffset?_header_eq_some_iff.mpr
          ⟨toNat_startIn hinside, heven, hpointer, hinside⟩
        rw [hoffset] at hsome
        cases hsome
      | some offset =>
        obtain ⟨hstart, hinside⟩ := textOffset?_header_eq_some_iff.mp hoffset
        dsimp only
        rw [if_pos ⟨by omega, .inr hinside⟩, hstart, toNat_length]

theorem eq_of_read {n : Name} (h : read b = .ok n) :
    n = ⟨b.words16 (startIn b) (lengthIn b / 2)⟩ := by
  rw [read_eq] at h
  split at h
  · cases h
    rfl
  · cases h

/-- Where in a buffer one looks for a name: at the header, and at the text if it is inside. -/
def Looks (b : Block) (i : Nat) : Prop :=
  16 ≤ b.size.toNat ∧ (i < 16 ∨ Fits b ∧ startIn b ≤ i ∧ i < startIn b + lengthIn b)

theorem lt_size_of_looks {i : Nat} (h : Looks b i) : i < b.size.toNat := by
  obtain ⟨hsize, hheader | ⟨⟨-, hfits⟩, htext⟩⟩ := h
  · omega
  · unfold startIn at htext
    omega

/-- What stands where nobody looks does not matter. -/
theorem read_of_alike {c : Block} (h : b.AlikeWhere (Looks b) c) : read c = read b := by
  rw [read_eq, read_eq]
  by_cases hsize : 16 ≤ b.size.toNat
  · have hlength : lengthIn c = lengthIn b := by
      rw [lengthIn, h.bytes_eq fun i _ _ => ⟨hsize, .inl (by omega)⟩, ← lengthIn]
    have hpointer : pointerIn c = pointerIn b := by
      rw [pointerIn, h.bytes_eq fun i _ _ => ⟨hsize, .inl (by omega)⟩, ← pointerIn]
    have hfits : Fits c ↔ Fits b := by
      rw [Fits, Fits, hlength, hpointer, h.address, h.size]
    have hstart : startIn c = startIn b := by
      rw [startIn, startIn, hpointer, h.address]
    by_cases hb : Fits b
    · rw [if_pos (hfits.mpr hb), if_pos hb, hstart, hlength]
      rw [h.words16_eq fun i hi hlt => ⟨hsize, .inr ⟨hb, hi, by omega⟩⟩]
    · rw [if_neg (mt hfits.mp hb), if_neg hb]
  · rw [if_neg, if_neg]
    · exact fun hb => hsize hb.1
    · rintro ⟨hc, -⟩
      rw [h.size] at hc
      exact hsize hc

end

/-- A name is read from inside its buffer, whatever the buffer holds. -/
structure ReadInside (b : Block) : Prop where
  accepted : (∃ n, read b = .ok n) ↔ Fits b
  /-- There are as many units as the length says, and they are those of the text. -/
  count : ∀ n, read b = .ok n → n.size = lengthIn b / 2
  spelled : ∀ n, read b = .ok n → b.Spells (startIn b) (unitBytes n.units)
  refused : ∀ f, read b = .error f → f = .malformedName
  /-- Every byte at which is looked lies inside. -/
  inside : ∀ i, Looks b i → i < b.size.toNat
  only : ∀ c, b.AlikeWhere (Looks b) c → read c = read b

/-- Whatever a buffer holds and wherever it lies, a name is read from inside of it. -/
theorem read_inside (b : Block) : ReadInside b where
  accepted := by
    rw [read_eq]
    split
    · rename_i hfits
      exact iff_of_true ⟨_, rfl⟩ hfits
    · rename_i hfits
      refine iff_of_false ?_ hfits
      rintro ⟨n, hn⟩
      cases hn
  count := by
    intro n hn
    rw [eq_of_read hn, size, Block.length_words16]
  spelled := by
    intro n hn
    rw [eq_of_read hn]
    exact b.spells_words16 (startIn b) (lengthIn b / 2)
  refused := by
    intro f hf
    rw [read_eq] at hf
    split at hf
    · cases hf
    · cases hf
      rfl
  inside := fun _ => lt_size_of_looks
  only := fun _ => read_of_alike

end Name

/-! ## Tables -/

namespace Table

/-- How many handles the header claims; a buffer without a header claims none. -/
def claimedIn (t : Table) : Nat :=
  if t.block.size.toNat < 16 then 0 else numberOf (t.block.bytes 0 8)

/-- The number of entries: what the header claims, and what fits behind it. -/
def count (t : Table) : Nat := min t.claimedIn ((t.block.size.toNat - 16) / 40)

theorem toNat_room (t : Table) : t.room.toNat = (t.block.size.toNat - 16) / 40 := by
  have h16 : headerSize.toNat = 16 := rfl
  have h40 : entrySize.toNat = 40 := rfl
  rw [room, UInt64.toNat_div, Word.toNat_subSat, h16, h40]

theorem toNat_claimed (t : Table) : t.claimed.toNat = t.claimedIn := by
  have h16 : headerSize.toNat = 16 := rfl
  rw [claimed, claimedIn]
  simp only [UInt64.lt_iff_toNat_lt, h16]
  split
  · rfl
  · exact t.block.toNat_word64 0

theorem toNat_size (t : Table) : t.size.toNat = t.count := by
  rw [size, Word.toNat_min, toNat_claimed, toNat_room, count]

theorem entry_inside {t : Table} {i : Nat} (h : i < t.count) :
    16 + 40 * i + 40 ≤ t.block.size.toNat := by
  unfold count at h
  omega

theorem toNat_entryOffset {t : Table} {i : UInt64} (h : i.toNat < t.count) :
    (entryOffset i).toNat = 16 + 40 * i.toNat := by
  have hinside := entry_inside h
  have hb := t.block.small
  have h16 : headerSize.toNat = 16 := rfl
  have h40 : entrySize.toNat = 40 := rfl
  rw [entryOffset, UInt64.toNat_add, UInt64.toNat_mul, h16, h40]
  omega

/-- The index of an entry is a word. -/
theorem toNat_toUInt64_of_lt {t : Table} {i : Nat} (h : i < t.count) : i.toUInt64.toNat = i := by
  have hinside := entry_inside h
  have hb := t.block.small
  exact UInt64.toNat_ofNat_of_lt' (by rw [Word.size_eq]; omega)

/-- An entry is read exactly if it is one of those that the header claims and the buffer holds. -/
theorem get?_eq (t : Table) (i : UInt64) : t.get? i =
    if i.toNat < t.count then some (recordAt t.block (16 + 40 * i.toNat)) else none := by
  rw [get?]
  simp only [UInt64.lt_iff_toNat_lt, toNat_size]
  split
  · rename_i h
    rw [toNat_entryOffset h]
  · rfl

theorem isSome_get?_iff (t : Table) (i : UInt64) :
    (t.get? i).isSome = true ↔ i.toNat < t.count := by
  rw [get?_isSome_iff, UInt64.lt_iff_toNat_lt, toNat_size]

theorem eq_of_get? {t : Table} {i : UInt64} {r : Record} (h : t.get? i = some r) :
    r = recordAt t.block (16 + 40 * i.toNat) := by
  rw [get?_eq] at h
  split at h
  · exact (Option.some.inj h).symm
  · cases h

/-- No entry is left out. -/
theorem map_some_records (t : Table) :
    t.records.map some = (List.range t.count).map fun i => t.get? i.toUInt64 := by
  rw [records, List.map_filterMap_some_eq_filter_map_isSome, toNat_size, List.filter_eq_self]
  intro entry hentry
  obtain ⟨i, hi, rfl⟩ := List.mem_map.mp hentry
  rw [List.mem_range] at hi
  rw [isSome_get?_iff, toNat_toUInt64_of_lt hi]
  exact hi

/-- Where in a buffer one looks for an entry: at the header, and at the entry if there is one. -/
def Looks (t : Table) (i : UInt64) (k : Nat) : Prop :=
  16 ≤ t.block.size.toNat ∧ k < 16 ∨
    i.toNat < t.count ∧ 16 + 40 * i.toNat ≤ k ∧ k < 16 + 40 * i.toNat + 40

theorem lt_size_of_looks {t : Table} {i : UInt64} {k : Nat} (h : t.Looks i k) :
    k < t.block.size.toNat := by
  rcases h with ⟨hsize, hheader⟩ | ⟨hi, hentry⟩
  · omega
  · have hinside := entry_inside hi
    omega

/-- What stands where nobody looks does not matter. -/
theorem get?_of_alike {t : Table} {i : UInt64} {c : Block} (h : t.block.AlikeWhere (t.Looks i) c) :
    (⟨c⟩ : Table).get? i = t.get? i := by
  have hclaimed : (⟨c⟩ : Table).claimedIn = t.claimedIn := by
    rw [claimedIn, claimedIn, h.size]
    split
    · rfl
    · rw [h.bytes_eq fun k _ _ => .inl ⟨by omega, by omega⟩]
  have hcount : (⟨c⟩ : Table).count = t.count := by
    rw [count, count, hclaimed, h.size]
  rw [get?_eq, get?_eq, hcount]
  by_cases hi : i.toNat < t.count
  · rw [if_pos hi, if_pos hi]
    rw [recordAt, Block.word64, Block.word64, Block.word32,
      h.bytes_eq fun k _ _ => .inr ⟨hi, by omega, by omega⟩,
      h.bytes_eq fun k _ _ => .inr ⟨hi, by omega, by omega⟩,
      h.bytes_eq fun k _ _ => .inr ⟨hi, by omega, by omega⟩]
    rfl
  · rw [if_neg hi, if_neg hi]

/-- The entries of a table are read from inside its buffer, whatever the buffer holds. -/
structure EntriesInside (t : Table) : Prop where
  size : t.size.toNat = t.count
  isSome_iff : ∀ i : UInt64, (t.get? i).isSome = true ↔ i.toNat < t.count
  /-- The place of an entry does not leave the range, and the entry lies inside. -/
  place : ∀ i : UInt64, i.toNat < t.count →
    (entryOffset i).toNat = 16 + 40 * i.toNat ∧ 16 + 40 * i.toNat + 40 ≤ t.block.size.toNat
  pid : ∀ i r, t.get? i = some r →
    t.block.Spells (16 + 40 * i.toNat + 8) (littleEndian 8 r.pid.toNat)
  handleValue : ∀ i r, t.get? i = some r →
    t.block.Spells (16 + 40 * i.toNat + 16) (littleEndian 8 r.handleValue.toNat)
  grantedAccess : ∀ i r, t.get? i = some r →
    t.block.Spells (16 + 40 * i.toNat + 24) (littleEndian 4 r.grantedAccess.toNat)
  records : t.records.map some = (List.range t.count).map fun i => t.get? i.toUInt64
  /-- Every byte at which is looked lies inside, and no other byte matters. -/
  inside : ∀ i k, t.Looks i k → k < t.block.size.toNat
  only : ∀ i c, t.block.AlikeWhere (t.Looks i) c → (⟨c⟩ : Table).get? i = t.get? i

/-- Whatever its buffer holds, the entries of a table are read from inside of it. -/
theorem entries_inside (t : Table) : EntriesInside t where
  size := t.toNat_size
  isSome_iff := t.isSome_get?_iff
  place := fun _ hi => ⟨toNat_entryOffset hi, entry_inside hi⟩
  pid := by
    intro i r hr
    rw [eq_of_get? hr, recordAt, Block.toNat_word64]
    exact t.block.spells_numberOf _ 8
  handleValue := by
    intro i r hr
    rw [eq_of_get? hr, recordAt, Block.toNat_word64]
    exact t.block.spells_numberOf _ 8
  grantedAccess := by
    intro i r hr
    rw [eq_of_get? hr, recordAt, Block.toNat_word32]
    exact t.block.spells_numberOf _ 4
  records := t.map_some_records
  inside := fun _ _ => lt_size_of_looks
  only := fun _ _ => get?_of_alike

end Table

end FileHolders
