import FileHolders.Word

/-!
# Blocks of memory

A block has an address, a size and contents.  The contents are a function of the offset, so that a
block of any size costs nothing until it is read; what the function gives past the end is never
part of the block.  Numbers are stored with their lowest byte first.

    (b.write o bs).byte i = bs[i - o] inside the written range, b.byte i elsewhere    (byte_write)
    numberOf (littleEndian n v) = v % 256 ^ n                       (numberOf_littleEndian)
-/

namespace FileHolders

/-- Where a block of `size` bytes lies.  A machine grants no block of half the address space or
more, and a placement says so. -/
structure Placement (size : UInt64) where
  address : UInt64
  small : size.toNat < 0x8000000000000000

/-- A block of memory. -/
structure Block where
  address : UInt64
  size : UInt64
  /-- The byte at an offset. -/
  byte : Nat → UInt8
  small : size.toNat < 0x8000000000000000

/-! ## Little-endian numbers -/

/-- The number that bytes spell, the lowest byte first. -/
def numberOf : List UInt8 → Nat
  | [] => 0
  | b :: bytes => b.toNat + 256 * numberOf bytes

/-- The lowest `count` bytes of a number, the lowest byte first. -/
def littleEndian : Nat → Nat → List UInt8
  | 0, _ => []
  | count + 1, n => n.toUInt8 :: littleEndian count (n / 256)

theorem length_littleEndian (count n : Nat) : (littleEndian count n).length = count := by
  induction count generalizing n with
  | zero => rfl
  | succ count ih => simp [littleEndian, ih]

/-- Reading back what was written keeps the lowest bytes of the number. -/
theorem numberOf_littleEndian (count n : Nat) :
    numberOf (littleEndian count n) = n % Nat.pow 256 count := by
  induction count generalizing n with
  | zero => simp [littleEndian, numberOf, Nat.mod_one]
  | succ count ih =>
    have hb : n.toUInt8.toNat = n % 256 := by simp
    rw [littleEndian, numberOf, ih, hb, Nat.pow_eq, Nat.pow_eq, Nat.pow_succ, Nat.mul_comm _ 256,
      Nat.mod_mul]

namespace Block

/-! ## Reading -/

/-- A block of zeros. -/
def zeroed {size : UInt64} (p : Placement size) : Block :=
  { address := p.address, size, byte := fun _ => 0, small := p.small }

/-- `count` bytes from an offset on. -/
def bytes (b : Block) (offset count : Nat) : List UInt8 :=
  (List.range count).map fun i => b.byte (offset + i)

/-- The 16-bit number at an offset. -/
def word16 (b : Block) (offset : Nat) : UInt16 := (numberOf (b.bytes offset 2)).toUInt16

/-- The 32-bit number at an offset. -/
def word32 (b : Block) (offset : Nat) : UInt32 := (numberOf (b.bytes offset 4)).toUInt32

/-- The 64-bit number at an offset. -/
def word64 (b : Block) (offset : Nat) : UInt64 := (numberOf (b.bytes offset 8)).toUInt64

/-- `count` 16-bit numbers from an offset on. -/
def words16 (b : Block) (offset count : Nat) : List UInt16 :=
  (List.range count).map fun i => b.word16 (offset + 2 * i)

/-! ## Writing -/

/-- The block with other contents. -/
def withContents (b : Block) (byte : Nat → UInt8) : Block := { b with byte }

/-- The block with bytes written from an offset on. -/
def write (b : Block) (offset : Nat) (bytes : List UInt8) : Block :=
  let data := bytes.toArray
  b.withContents fun i =>
    if offset ≤ i then data[i - offset]?.getD (b.byte i) else b.byte i

/-! ## Lemmas -/

@[simp] theorem size_withContents (b : Block) (f : Nat → UInt8) :
    (b.withContents f).size = b.size :=
  rfl

theorem byte_write (b : Block) (offset i : Nat) (bytes : List UInt8) :
    (b.write offset bytes).byte i =
      if offset ≤ i then bytes[i - offset]?.getD (b.byte i) else b.byte i := by
  simp [write, withContents]

/-- Reading the whole of a written range gives what was written. -/
theorem bytes_write_self (b : Block) (offset : Nat) (bytes : List UInt8) :
    (b.write offset bytes).bytes offset bytes.length = bytes := by
  apply List.ext_getElem?
  intro i
  by_cases h : i < bytes.length
  · simp [Block.bytes, byte_write, h]
  · simp [Block.bytes, h]

end Block

end FileHolders
