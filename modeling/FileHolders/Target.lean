import FileHolders.Name

/-!
# Targets

What a search looks for: a text in code units and a rule that says which names it covers.  A whole
volume covers its device and every path below it, but no other device whose name merely goes on
where this one ends.
-/

namespace FileHolders

/-- Which names a text covers. -/
inductive Coverage where
  /-- The name itself. -/
  | exact
  /-- Every name that begins with it. -/
  | beginning
  /-- The device of that name and what is below it. -/
  | volume
deriving DecidableEq, Repr

/-- What a search looks for. -/
structure Target where
  units : List UInt16
  coverage : Coverage
deriving DecidableEq, Repr

namespace Target

/-- The unit between the parts of a path. -/
def separator : UInt16 := 0x5C

/-- A text without the separators at its end. -/
def trimmed (units : List UInt16) : List UInt16 :=
  (units.reverse.dropWhile (· == separator)).reverse

/-- The target of a text under a rule.  For a whole volume, separators at the end do not count. -/
def ofString (text : String) (coverage : Coverage) : Target :=
  match coverage with
  | .volume => ⟨trimmed (Utf16.encode text), .volume⟩
  | _ => ⟨Utf16.encode text, coverage⟩

/-- The number of code units. -/
def size (t : Target) : Nat := t.units.length

def isEmpty (t : Target) : Bool := t.units.isEmpty

/-- Whether a name of the right beginning has a length that the rule accepts. -/
def acceptsLength (t : Target) (n : Name) : Bool :=
  match t.coverage with
  | .exact => n.size = t.size
  | .beginning => t.size ≤ n.size
  | .volume => n.size = t.size || (t.size < n.size && n.units[t.size]? = some separator)

/-- Whether a target covers a name. -/
def covers (t : Target) (n : Name) : Bool := t.acceptsLength n && n.startsWith t.units

end Target

end FileHolders
