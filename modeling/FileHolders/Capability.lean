/-!
# What a machine may lack

The kernel calls of a search go through five entry points.  Any of them may be missing on a given
machine, so each is a capability that is asked for before it is used.
-/

namespace FileHolders

/-- An entry point that may be missing. -/
inductive Capability where
  | queryTable
  | queryObject
  | openProcess
  | duplicate
  | close
deriving DecidableEq, Repr

namespace Capability

/-- All capabilities, in the order in which they are looked up. -/
def all : List Capability := [queryTable, queryObject, openProcess, duplicate, close]

/-- The exported name behind a capability. -/
def entryPoint : Capability → String
  | queryTable => "NtQuerySystemInformation"
  | queryObject => "NtQueryObject"
  | openProcess => "NtOpenProcess"
  | duplicate => "NtDuplicateObject"
  | close => "NtClose"

theorem mem_all (c : Capability) : c ∈ all := by
  cases c <;> decide

end Capability

end FileHolders
