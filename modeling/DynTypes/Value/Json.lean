import DynTypes.Json.Document
import DynTypes.Value.Basic
/-!
# Dynamic values from JSON

Objects become tables with texts as keys, and a text with a colon in front of something becomes a
symbol.
-/

namespace DynTypes.Value

/-- A number of JSON as a value: an integer if 64 bits with a sign can hold it. -/
def ofNumber : Json.Number → Value
  | .int n =>
    if Int64.minValue.toInt ≤ n ∧ n ≤ Int64.maxValue.toInt then int (Int64.ofInt n)
    else float (Binary64.ofInt n)
  | .real x => float x

/-- A text of JSON as a value: with a colon in front of something it is a symbol. -/
def ofText (text : String) : Value :=
  match text.toList with
  | ':' :: c :: rest => symbol (String.ofList (c :: rest))
  | _ => str text

mutual

/-- A tree of JSON as a value. -/
def ofJson : Json String Json.Number → Value
  | .null => nil
  | .bool value => bool value
  | .number value => ofNumber value
  | .text value => ofText value
  | .array items => array (ofItems items)
  | .object members => hash (ofMembers members)

def ofItems : List (Json String Json.Number) → List Value
  | [] => []
  | item :: rest => ofJson item :: ofItems rest

def ofMembers : List (String × Json String Json.Number) → List (Value × Value)
  | [] => []
  | (key, value) :: rest => (str key, ofJson value) :: ofMembers rest

end

/-- Reads a value that is written in JSON. -/
def read? [JsonReader] (document : String) : Option Value :=
  (JsonReader.read? document).map ofJson

end DynTypes.Value
