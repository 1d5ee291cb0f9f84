import FileHolders.Text.Hex

/-!
# Statuses of kernel calls

A kernel call answers with a signed 32-bit code.  `Status.message` is its text in reports and
logs; `Status.kind` folds the codes into the few kinds on which the search branches.  A kind is
found by code first: only a code outside the named groups is judged by its sign.
-/

namespace FileHolders

/-- The answer code of a kernel call. -/
structure Status where
  code : Int32
deriving DecidableEq, Repr, Inhabited

/-- What a status means to its caller. -/
inductive Status.Kind where
  | success
  /-- The buffer was too short: a larger one may do. -/
  | bufferTooSmall
  /-- The caller may not open this process. -/
  | accessDenied
  | insufficientResources
  | failure
deriving DecidableEq, Repr

namespace Status

/-- The status whose code has the given bits. -/
def ofBits (bits : UInt32) : Status := ⟨bits.toInt32⟩

/-- The code as an unsigned number. -/
def bits (s : Status) : UInt32 := s.code.toUInt32

/-! ## Named codes -/

def success : Status := ofBits 0
def alreadyComplete : Status := ofBits 0xFF
def bufferOverflow : Status := ofBits 0x80000005
def unsuccessful : Status := ofBits 0xC0000001
def notImplemented : Status := ofBits 0xC0000002
def lengthMismatch : Status := ofBits 0xC0000004
def invalidHandle : Status := ofBits 0xC0000008
def invalidParameter : Status := ofBits 0xC000000D
def noMemory : Status := ofBits 0xC0000017
def accessDenied : Status := ofBits 0xC0000022
def bufferTooSmall : Status := ofBits 0xC0000023
def wrongType : Status := ofBits 0xC0000024
def invalidName : Status := ofBits 0xC0000033
def nameNotFound : Status := ofBits 0xC0000034
def invalidPath : Status := ofBits 0xC0000039
def sharingViolation : Status := ofBits 0xC0000043
def procedureNotFound : Status := ofBits 0xC000007A
def insufficientResources : Status := ofBits 0xC000009A
def notSupported : Status := ofBits 0xC00000BB

/-! ## Meaning -/

/-- Successes and notices are the codes that are not negative. -/
def isSuccess (s : Status) : Bool := 0 ≤ s.code

/-- The kind of a status. -/
def kind (s : Status) : Kind :=
  if s = lengthMismatch ∨ s = bufferOverflow ∨ s = bufferTooSmall then .bufferTooSmall
  else if s = accessDenied then .accessDenied
  else if s = insufficientResources ∨ s = noMemory then .insufficientResources
  else if s.isSuccess then .success
  else .failure

/-- The codes that have a text of their own. -/
def texts : List (Status × String) :=
  [(unsuccessful, "Operation Failed"), (bufferOverflow, "Buffer Overflow"),
   (notImplemented, "Not Implemented"), (lengthMismatch, "Info Length Mismatch"),
   (invalidHandle, "Invalid Handle"), (invalidParameter, "Invalid Parameter"),
   (noMemory, "Not Enough Quota"), (accessDenied, "Access Denied"),
   (bufferTooSmall, "Buffer Too Small"), (wrongType, "Wrong Type"),
   (invalidName, "Object Name Invalid"), (nameNotFound, "Object Name not found"),
   (invalidPath, "Object Path Invalid"), (sharingViolation, "Sharing Violation"),
   (procedureNotFound, "Procedure not found"),
   (insufficientResources, "Insufficient resources"),
   (notSupported, "Operation is not supported")]

/-- The text of a status; a code without a text of its own is shown in hexadecimal. -/
def message (s : Status) : String :=
  match texts.lookup s with
  | some text => text
  | none => "Unknown error 0x" ++ Text.hexPadded 8 s.bits.toNat

/-! ## Lemmas -/

/-- A status of kind success has a code that is not negative. -/
theorem isSuccess_of_kind_eq_success {s : Status} (h : s.kind = .success) : s.isSuccess = true := by
  unfold kind at h
  split at h
  · cases h
  split at h
  · cases h
  split at h
  · cases h
  split at h
  · assumption
  · cases h

/-- No status whose kind asks for a longer buffer counts as a success. -/
theorem isSuccess_of_kind_eq_bufferTooSmall {s : Status} (h : s.kind = .bufferTooSmall) :
    s.isSuccess = false := by
  unfold kind at h
  split at h
  · rename_i hs
    rcases hs with rfl | rfl | rfl <;> rfl
  split at h
  · cases h
  split at h
  · cases h
  split at h
  · cases h
  · cases h

/-- Nor does a status that denies access. -/
theorem isSuccess_of_kind_eq_accessDenied {s : Status} (h : s.kind = .accessDenied) :
    s.isSuccess = false := by
  unfold kind at h
  split at h
  · cases h
  split at h
  · rename_i hs
    rw [hs]
    rfl
  split at h
  · cases h
  split at h
  · cases h
  · cases h

end Status

end FileHolders
