import FileHolders.Text.Hex
import FileHolders.Text.Shown

/-!
# Quoted text in diagnostics

Text of unknown content is quoted in logs, so that its ends can be seen and every character can be
told apart: quotes, backslashes and the usual control characters have short escapes, any other
character that does not show by itself is written by its number.
-/

namespace FileHolders.Text

/-- How a character is written inside quotes. -/
def escape (c : Char) : String :=
  if c = '"' then "\\\""
  else if c = '\\' then "\\\\"
  else if c = '\n' then "\\n"
  else if c = '\r' then "\\r"
  else if c = '\t' then "\\t"
  else if c = '\x00' then "\\0"
  else if isShown c then c.toString
  else "\\u\x7b" ++ hex c.toNat ++ "\x7d"

/-- Text in quotes. -/
def quote (s : String) : String := "\"" ++ String.join (s.toList.map escape) ++ "\""

/-- Text that may be missing. -/
def quoteOption : Option String → String
  | none => "None"
  | some s => "Some(" ++ quote s ++ ")"

end FileHolders.Text
