import FileHolders.Text.Json

/-!
# Holders
-/

namespace FileHolders

/-- A process that was found to hold the target open. -/
structure Holder where
  pid : UInt64
  /-- The path of its program, if that could be read. -/
  imagePath : Option String
  /-- The first matching handle, as the process knows it. -/
  handleValue : UInt64
  grantedAccess : UInt32
deriving DecidableEq, Repr

namespace Holder

/-- The line of a report that names a holder. -/
def line (h : Holder) : String :=
  match h.imagePath with
  | some path => "o " ++ path
  | none => s!"o Unknown (Process ID {h.pid})"

/-- A holder as a record of JSON. -/
def toJson (h : Holder) : Text.Json :=
  .record [
    ("pid", .number h.pid.toNat),
    ("image_path", match h.imagePath with
      | some path => .text path
      | none => .null),
    ("handle_value", .number h.handleValue.toNat),
    ("granted_access", .number h.grantedAccess.toNat)]

end Holder

end FileHolders
