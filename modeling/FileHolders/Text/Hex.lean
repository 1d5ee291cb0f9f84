/-!
# Hexadecimal text
-/

namespace FileHolders.Text

/-- The shortest hexadecimal text of a number, in lower case. -/
def hex (n : Nat) : String := String.ofList (Nat.toDigits 16 n)

/-- Text brought to a least width by zeros on the left. -/
def padZeros (width : Nat) (text : String) : String :=
  String.ofList (List.replicate (width - text.length) '0') ++ text

/-- A number in hexadecimal with at least the given number of digits. -/
def hexPadded (width n : Nat) : String := padZeros width (hex n)

/-- A number in decimal with at least the given number of digits. -/
def decimalPadded (width n : Nat) : String := padZeros width (toString n)

end FileHolders.Text
