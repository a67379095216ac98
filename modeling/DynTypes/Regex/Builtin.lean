import DynTypes.Regex.Engine
import DynTypes.Regex.Reader
/-!
# The engine of the program

Where no other engine is given, expressions are compiled to trees, and a text is searched for them
with sets of positions.
-/

namespace DynTypes

instance : RegexEngine where
  Expression := Regex Regex.Atom
  compile switches text :=
    let flags : Regex.Flags :=
      { ignoreCase := switches.ignoreCase
        multiLine := switches.multiLine
        dotAll := switches.dotAll
        extended := switches.extended }
    match Regex.ofText? flags text with
    | some regex => .ok regex
    | none => .error "cannot be read as a regular expression"
  isMatch regex text := regex.search text

end DynTypes
