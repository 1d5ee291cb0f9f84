import FileHolders.Text.Hex

/-!
# Text for a terminal

Text of unknown content may hold characters that steer a terminal: they move the cursor, change
colours or ring the bell.  Such characters are written by their number.  All others stay as they
are, line ends and tabs among them.
-/

namespace FileHolders.Text

/-- Whether a character can steer a terminal: bell, backspace, form feed, escape, delete, and the
control characters from U+0080 on. -/
def steersTerminal (c : Char) : Bool :=
  c = '\x07' || c = '\x08' || c = '\x0c' || c = '\x1b' || (0x7F ≤ c.toNat && c.toNat ≤ 0x9F)

/-- How a character is written: one that steers has two digits if it is below U+0080, else its
number in braces. -/
def disarmed (c : Char) : String :=
  if !steersTerminal c then c.toString
  else if c.toNat < 0x80 then "\\x" ++ hexPadded 2 c.toNat
  else "\\u\x7b" ++ hex c.toNat ++ "\x7d"

/-- Text that cannot steer a terminal. -/
def disarm (s : String) : String := String.join (s.toList.map disarmed)

end FileHolders.Text
