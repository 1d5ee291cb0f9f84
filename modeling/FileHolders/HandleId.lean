import FileHolders.Text.Hex

/-!
# Handle values

A handle is a signed 64-bit number that means something in one process only.  The number -1 is
no handle of its own: it stands for the caller's process and is never closed.
-/

namespace FileHolders

/-- The number of a handle. -/
structure HandleId where
  value : Int64
deriving DecidableEq, Repr, Inhabited

namespace HandleId

/-- The stand-in for the caller's own process. -/
def ownProcess : HandleId := ⟨-1⟩

/-- No handle. -/
def zero : HandleId := ⟨0⟩

/-- The handle whose number has the bits of a table entry's handle value. -/
def ofWord (w : UInt64) : HandleId := ⟨w.toInt64⟩

/-- The bits of a handle's number. -/
def toWord (h : HandleId) : UInt64 := h.value.toUInt64

/-- The text of a handle in logs: its bits in hexadecimal. -/
def render (h : HandleId) : String := "0x" ++ Text.hex h.toWord.toNat

theorem ofWord_toWord (h : HandleId) : ofWord h.toWord = h := by
  simp [ofWord, toWord]

theorem toWord_ofWord (w : UInt64) : (ofWord w).toWord = w := by
  simp [ofWord, toWord]

end HandleId

end FileHolders
