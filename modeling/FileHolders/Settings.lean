/-!
# Settings of a search

Buffer sizes, retry budgets and wording that a search takes from its caller.  `Settings` carries
the values of an ordinary search as defaults.
-/

namespace FileHolders

/-! ## Ordinary values -/

namespace Ordinary

/-- The name in the line that says that nobody was found. -/
def applicationName : String := "LockSleuth"

/-- No handle table is read into a buffer above 256 MiB. -/
def tableCeiling : UInt64 := 0x10000000

/-- Table sizes above 2 MiB are not kept as the next first guess. -/
def guessCeiling : UInt64 := 0x200000

/-- The first size of the name buffer. -/
def nameBufferInitial : UInt64 := 0x200

/-- A name has at most 64 KiB of text; this leaves room for its header. -/
def nameBufferCeiling : UInt64 := 0x20000

/-- The required length of a name is sometimes reported wrongly, so it is asked for again. -/
def nameAttempts : UInt32 := 8

/-- The right to duplicate handles out of a process. -/
def duplicateRight : UInt32 := 0x0040

/-- The right to ask a process about itself. -/
def queryRight : UInt32 := 0x0400

/-- The first guess at the size of the handle table. -/
def firstGuess : UInt64 := 0x10000

end Ordinary

/-! ## Settings -/

/-- What a caller may change about a search. -/
structure Settings where
  applicationName : String := Ordinary.applicationName
  /-- No table buffer grows past this size. -/
  tableCeiling : UInt64 := Ordinary.tableCeiling
  /-- Table sizes above this are not kept as the next first guess. -/
  guessCeiling : UInt64 := Ordinary.guessCeiling
  nameBufferInitial : UInt64 := Ordinary.nameBufferInitial
  /-- No name buffer grows past this size. -/
  nameBufferCeiling : UInt64 := Ordinary.nameBufferCeiling
  /-- How often one name may be asked for. -/
  nameAttempts : UInt32 := Ordinary.nameAttempts
  /-- The rights asked for when a process is opened. -/
  processAccess : UInt32 := Ordinary.duplicateRight ||| Ordinary.queryRight
  /-- How many bytes may be live in the arena; without it the arena is unbounded. -/
  arenaLimit : Option UInt64 := none
deriving Repr

end FileHolders
