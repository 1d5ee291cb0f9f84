import FileHolders.Text.Hex

/-!
# JSON text

A value with ordered members and its two written forms: `compact` has no spaces, `pretty` puts
each item on a line of its own, indented by two spaces for each level.
-/

namespace FileHolders.Text

/-- A value whose members keep their order; its numbers are natural. -/
inductive Json where
  | null
  | bool (value : Bool)
  | number (value : Nat)
  | text (value : String)
  | list (items : List Json)
  | record (members : List (String × Json))

namespace Json

/-! ## Strings -/

/-- How a character is written inside a string: quotes, backslashes and the control characters
below the blank are escaped, all else stands as it is. -/
def escaped (c : Char) : String :=
  if c = '"' then "\\\""
  else if c = '\\' then "\\\\"
  else if c = '\n' then "\\n"
  else if c = '\r' then "\\r"
  else if c = '\t' then "\\t"
  else if c = '\x08' then "\\b"
  else if c = '\x0c' then "\\f"
  else if c.toNat < 0x20 then "\\u" ++ hexPadded 4 c.toNat
  else c.toString

/-- A string in quotes. -/
def quoted (s : String) : String := "\"" ++ String.join (s.toList.map escaped) ++ "\""

/-! ## Values -/

mutual

/-- The written form without spaces. -/
def compact : Json → String
  | null => "null"
  | bool b => toString b
  | number n => toString n
  | text s => quoted s
  | list items => "[" ++ ",".intercalate (compactItems items) ++ "]"
  | record members => "\x7b" ++ ",".intercalate (compactMembers members) ++ "\x7d"

def compactItems : List Json → List String
  | [] => []
  | item :: rest => compact item :: compactItems rest

def compactMembers : List (String × Json) → List String
  | [] => []
  | (key, value) :: rest => (quoted key ++ ":" ++ compact value) :: compactMembers rest

end

/-- The start of a line at a level. -/
def newline (level : Nat) : String := "\n" ++ String.ofList (List.replicate (2 * level) ' ')

/-- Items between brackets, each on its line; no items leave the brackets closed up. -/
def spread (level : Nat) (left right : String) : List String → String
  | [] => left ++ right
  | items => left ++ newline (level + 1) ++ ("," ++ newline (level + 1)).intercalate items ++
      newline level ++ right

mutual

/-- The written form over several lines, starting at a level. -/
def prettyAt (level : Nat) : Json → String
  | null => "null"
  | bool b => toString b
  | number n => toString n
  | text s => quoted s
  | list items => spread level "[" "]" (prettyItems (level + 1) items)
  | record members => spread level "\x7b" "\x7d" (prettyMembers (level + 1) members)

def prettyItems (level : Nat) : List Json → List String
  | [] => []
  | item :: rest => prettyAt level item :: prettyItems level rest

def prettyMembers (level : Nat) : List (String × Json) → List String
  | [] => []
  | (key, value) :: rest =>
    (quoted key ++ ": " ++ prettyAt level value) :: prettyMembers level rest

end

/-- The written form over several lines. -/
def pretty (value : Json) : String := prettyAt 0 value

end Json

end FileHolders.Text
