import DynTypes.Number.Shortest
import DynTypes.Text.Quoted
import DynTypes.Value.Basic
/-!
# Texts of dynamic values

Every value has a text that shows what it is, and a plain text, which is the same except for
texts, symbols and no value.
-/

namespace DynTypes.Value

mutual

/-- The text of a value that shows what it is. -/
def inspect : Value → List Char
  | nil => "nil".toList
  | bool value => (if value then "true" else "false").toList
  | int value => value.toInt.repr.toList
  | float value => value.text
  | str value => Text.quote value.toList
  | symbol name => ':' :: name.toList
  | array items => '[' :: [',', ' '].intercalate (inspectItems items) ++ [']']
  | hash pairs => '\x7b' :: [',', ' '].intercalate (inspectPairs pairs) ++ ['\x7d']
  | object className _ => '#' :: '<' :: className.toList ++ ['>']

def inspectItems : List Value → List (List Char)
  | [] => []
  | item :: rest => item.inspect :: inspectItems rest

def inspectPairs : List (Value × Value) → List (List Char)
  | [] => []
  | (key, value) :: rest =>
    (key.inspect ++ [' ', '=', '>', ' '] ++ value.inspect) :: inspectPairs rest

end

/-- The plain text of a value: texts and symbols as they are, nothing for no value. -/
def toText : Value → String
  | nil => ""
  | str value => value
  | symbol name => name
  | v => String.ofList v.inspect

end DynTypes.Value
