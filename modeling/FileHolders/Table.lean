import FileHolders.Memory.Block

/-!
# The handle table

The kernel writes the table of all open handles into one buffer: a header of 16 bytes whose first
8 bytes are the number of entries, then entries of 40 bytes.  Of an entry, the bytes 8 to 15 are the
process id, 16 to 23 the handle value and 24 to 27 the granted access.

The number in the header is not trusted: the table ends where the buffer ends.

    t.get? i is a record ↔ i < t.size                               (get?_isSome_iff)
-/

namespace FileHolders

/-- One open handle of the system. -/
structure Record where
  pid : UInt64
  /-- The handle as its process knows it. -/
  handleValue : UInt64
  grantedAccess : UInt32
deriving DecidableEq, Repr, Inhabited

/-- The class of the table query. -/
def Table.infoClass : UInt32 := 64

/-- A filled buffer, read as a handle table. -/
structure Table where
  block : Block

namespace Table

/-! ## Reading -/

def headerSize : UInt64 := 16

def entrySize : UInt64 := 40

/-- The number of entries that the header claims. -/
def claimed (t : Table) : UInt64 :=
  if t.block.size < headerSize then 0 else t.block.word64 0

/-- The number of whole entries for which the buffer has room. -/
def room (t : Table) : UInt64 := Word.subSat t.block.size headerSize / entrySize

/-- The number of entries that can be read. -/
def size (t : Table) : UInt64 := min t.claimed t.room

def isEmpty (t : Table) : Bool := t.size == 0

/-- Where an entry starts. -/
def entryOffset (index : UInt64) : UInt64 := headerSize + index * entrySize

/-- The record that starts at an offset. -/
def recordAt (b : Block) (offset : Nat) : Record where
  pid := b.word64 (offset + 8)
  handleValue := b.word64 (offset + 16)
  grantedAccess := b.word32 (offset + 24)

/-- The record at an index. -/
def get? (t : Table) (index : UInt64) : Option Record :=
  if index < t.size then some (recordAt t.block (entryOffset index).toNat) else none

/-- All records, in the order of the table. -/
def records (t : Table) : List Record :=
  (List.range t.size.toNat).filterMap fun i => t.get? i.toUInt64

/-! ## Writing -/

/-- The bytes of one entry. -/
def entryBytes (r : Record) : List UInt8 :=
  littleEndian 8 0 ++ littleEndian 8 r.pid.toNat ++ littleEndian 8 r.handleValue.toNat ++
    littleEndian 4 r.grantedAccess.toNat ++ littleEndian 12 0

/-- The bytes of a table with the given number in its header. -/
def tableBytes (claimed : UInt64) (records : List Record) : List UInt8 :=
  littleEndian 8 claimed.toNat ++ littleEndian 8 0 ++ records.flatMap entryBytes

/-- The size of a table with a number of entries. -/
def sizeFor (count : Nat) : Nat := 16 + 40 * count

/-! ## Lemmas -/

theorem length_entryBytes (r : Record) : (entryBytes r).length = 40 := by
  simp [entryBytes, length_littleEndian]

theorem length_tableBytes (claimed : UInt64) (records : List Record) :
    (tableBytes claimed records).length = sizeFor records.length := by
  have h : (records.flatMap entryBytes).length = 40 * records.length := by
    induction records with
    | nil => rfl
    | cons r rs ih => simp [length_entryBytes, ih]; omega
  simp only [tableBytes, List.length_append, length_littleEndian, h, sizeFor]

theorem get?_isSome_iff (t : Table) (index : UInt64) :
    (t.get? index).isSome = true ↔ index < t.size := by
  unfold get?
  split <;> simp_all

end Table

end FileHolders
