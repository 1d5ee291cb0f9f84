import FileHolders.DrivePath
import FileHolders.Windows.EntryPoints

/-!
# From drives to devices

Behind the letter of a drive is a list of devices, of which the first is current.  An argument of
the command line is turned into the name that the kernel uses: a whole drive into its device, a
path on a drive into the device with the rest of the path behind it, and a name that begins with
one backslash is taken as it is.
-/

namespace FileHolders.Windows

/-- What an argument of the command line refers to. -/
structure Destination where
  name : String
  /-- The name is that of a whole drive. -/
  wholeDrive : Bool
deriving DecidableEq, Repr

/-- Why an argument refers to nothing. -/
inductive DestinationFault where
  | noPath (argument : String)
  | noVolume (letter : Char)
  | unresolved (argument : String)
deriving DecidableEq, Repr

/-- The wording of such a fault. -/
def DestinationFault.message : DestinationFault → String
  | noPath argument => s!"{argument} is not a drive, a DOS path or an NT object name"
  | noVolume letter => s!"no volume is mounted at {letter}:"
  | unresolved argument => s!"could not resolve the volume of {argument}"

/-- Whether an argument is the name of an object: it begins with exactly one backslash. -/
def isObjectName (argument : String) : Bool :=
  match argument.toList with
  | '\\' :: '\\' :: _ => false
  | '\\' :: _ => true
  | _ => false

namespace Platform

variable {σ : Type}

/-- The units of room for the devices of a drive. -/
def deviceRoom : UInt32 := 1024

/-- The first of the texts in a buffer, each of which ends with a zero unit; what was not written is
zero. -/
def firstText (units : List UInt16) : String :=
  Utf16.decode ((units.take deviceRoom.toNat).takeWhile (· ≠ 0))

/-- The device behind the letter of a drive. -/
def deviceOf (p : Platform σ) (letter : Char) : Action σ (Option String) := do
  let (count, units) ← EntryPoints.call (p.dosDevice s!"{letter}:" deviceRoom)
  if count = 0 then
    Action.debug s!"QueryDosDeviceW({letter}:) failed"
    pure none
  else pure (some (firstText units))

/-- The device of the drive that a path begins with. -/
def deviceOfPath (p : Platform σ) (path : String) : Action σ (Option String) :=
  match DrivePath.split path with
  | none => pure none
  | some drivePath => p.deviceOf drivePath.letter

/-- The kernel's name of a path on a drive. -/
def kernelPath (p : Platform σ) (path : String) : Action σ (Option String) := do
  match DrivePath.split path with
  | none => pure none
  | some drivePath =>
    let device ← p.deviceOf drivePath.letter
    pure (device.map (DrivePath.join · drivePath.rest))

/-- What an argument refers to. -/
def resolve (p : Platform σ) (argument : String) :
    Action σ (Except DestinationFault Destination) := do
  if isObjectName argument then pure (.ok { name := argument, wholeDrive := false })
  else
    match DrivePath.split argument with
    | none => pure (.error (.noPath argument))
    | some drivePath =>
      if drivePath.isWholeDrive then
        match ← p.deviceOf drivePath.letter with
        | none => pure (.error (.noVolume drivePath.letter))
        | some device => pure (.ok { name := device, wholeDrive := true })
      else
        match ← p.kernelPath argument with
        | none => pure (.error (.unresolved argument))
        | some name => pure (.ok { name, wholeDrive := false })

end Platform

end FileHolders.Windows
