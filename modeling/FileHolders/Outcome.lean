import FileHolders.Holder
import FileHolders.Text.Timestamp

/-!
# The outcome of a search

What a search ends with: whether it found a holder and ran to its end, the holders in the order in
which they were found, and a tally of the work done.  As JSON the outcome also carries when the
search began and how long it took; those two belong to a clock and not to the search.
-/

namespace FileHolders

/-- Counts of the work of one search. -/
structure Tally where
  /-- Table records looked at. -/
  records : Nat := 0
  /-- Owners that the search tried to open. -/
  attempts : Nat := 0
  /-- Owners at hand: opened, or the caller itself. -/
  opened : Nat := 0
  /-- Owners that refused access. -/
  denied : Nat := 0
  /-- Handles brought into the caller. -/
  duplicated : Nat := 0
  /-- Names that were read. -/
  named : Nat := 0
deriving DecidableEq, Repr

/-- What a search ends with. -/
structure Outcome where
  /-- There is a holder, and the search was not cancelled. -/
  found : Bool
  cancelled : Bool
  holders : List Holder
  tally : Tally
deriving DecidableEq, Repr

/-- A tally as a record of JSON. -/
def Tally.toJson (t : Tally) : Text.Json :=
  .record [
    ("records_examined", .number t.records),
    ("open_attempts", .number t.attempts),
    ("processes_opened", .number t.opened),
    ("processes_denied", .number t.denied),
    ("handles_duplicated", .number t.duplicated),
    ("names_resolved", .number t.named)]

/-- An outcome as a record of JSON, with the start of the search and its length in milliseconds. -/
def Outcome.toJson (o : Outcome) (startedAt : String) (milliseconds : Nat) : Text.Json :=
  .record [
    ("found", .bool o.found),
    ("cancelled", .bool o.cancelled),
    ("holders", .list (o.holders.map Holder.toJson)),
    ("stats", o.tally.toJson),
    ("started_at", .text startedAt),
    ("duration", .number milliseconds)]

end FileHolders
