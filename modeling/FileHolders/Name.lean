import FileHolders.Fault
import FileHolders.Memory.Block
import FileHolders.Text.Utf16

/-!
# Object names

The kernel answers a name query with a header of 16 bytes: the length of the text in bytes (16
bits), its room (16 bits), 4 bytes without meaning and the address of the text, which lies
somewhere in the same buffer.  The text is a run of UTF-16 code units without an end mark.

Nothing in the header is trusted: a text that is not wholly inside the buffer makes the name
malformed, whatever its address and length.
-/

namespace FileHolders

/-- The name of a kernel object. -/
structure Name where
  units : List UInt16
deriving DecidableEq, Repr

namespace Name

/-- The class of the name query. -/
def infoClass : UInt32 := 1

def headerSize : UInt64 := 16

/-! ## Reading -/

/-- Where the text of a name starts in its buffer, if a text of `length` bytes at `pointer` is a run
of whole units inside it. -/
def textOffset? (b : Block) (pointer length : UInt64) : Option UInt64 :=
  match Word.sub? pointer b.address with
  | none => none
  | some offset =>
    match Word.add? offset length with
    | none => none
    | some stop => if b.size < stop ∨ length % 2 ≠ 0 then none else some offset

/-- Reads a name out of its buffer. -/
def read (b : Block) : Except Fault Name :=
  if b.size < headerSize then .error .malformedName
  else
    let length := (b.word16 0).toUInt64
    if length = 0 then .ok ⟨[]⟩
    else
      match textOffset? b (b.word64 8) length with
      | none => .error .malformedName
      | some offset => .ok ⟨b.words16 offset.toNat (length.toNat / 2)⟩

/-- The number of code units. -/
def size (n : Name) : Nat := n.units.length

def isEmpty (n : Name) : Bool := n.units.isEmpty

/-- Whether a name begins with the given units. -/
def startsWith (n : Name) (units : List UInt16) : Bool := units.isPrefixOf n.units

/-- The name as a string. -/
def toString (n : Name) : String := Utf16.decode n.units

/-! ## Writing -/

/-- The bytes of code units. -/
def unitBytes (units : List UInt16) : List UInt8 :=
  units.flatMap fun u => littleEndian 2 u.toNat

/-- The bytes of a header. -/
def headerBytes (length room : UInt16) (pointer : UInt64) : List UInt8 :=
  littleEndian 2 length.toNat ++ littleEndian 2 room.toNat ++ littleEndian 4 0 ++
    littleEndian 8 pointer.toNat

/-- The size of a buffer that holds a name with an end mark. -/
def sizeFor (units : List UInt16) : Nat := 16 + 2 * (units.length + 1)

/-- The block with a name in it: a header, the text right after it and a zero unit. -/
def write (b : Block) (units : List UInt16) : Block :=
  let length := (2 * units.length).toUInt16
  b.write 0 (headerBytes length (length + 2) (b.address + headerSize) ++ unitBytes (units ++ [0]))

end Name

end FileHolders
