import DynTypes.Number.Numeral
/-!
# JSON trees

A tree is generic in what its texts and its numbers are: as written, as read, or as to be
written.
-/

namespace DynTypes

/-- A JSON value with texts in `τ` and numbers in `ν`. The members of an object are ordered and
may repeat a key. -/
inductive Json (τ ν : Type) where
  | null
  | bool (value : Bool)
  | number (value : ν)
  | text (value : τ)
  | array (items : List (Json τ ν))
  | object (members : List (τ × Json τ ν))

namespace Json

variable {τ ν τ' ν' : Type}

mutual

/-- How many arrays and objects lie inside each other at the deepest place. -/
def depth : Json τ ν → Nat
  | null | bool _ | number _ | text _ => 0
  | array items => itemsDepth items + 1
  | object members => membersDepth members + 1

def itemsDepth : List (Json τ ν) → Nat
  | [] => 0
  | item :: rest => max item.depth (itemsDepth rest)

def membersDepth : List (τ × Json τ ν) → Nat
  | [] => 0
  | (_, value) :: rest => max value.depth (membersDepth rest)

end

mutual

/-- Reads every text and every number of a tree anew, if all of them can be read. The members of
each object go through `arrange`. -/
def traverse (readText : τ → Option τ') (readNumber : ν → Option ν')
    (arrange : List (τ' × Json τ' ν') → List (τ' × Json τ' ν')) :
    Json τ ν → Option (Json τ' ν')
  | null => some null
  | bool value => some (bool value)
  | number value => (readNumber value).map number
  | text value => (readText value).map text
  | array items => (traverseItems readText readNumber arrange items).map array
  | object members =>
    (traverseMembers readText readNumber arrange members).map (object ∘ arrange)

def traverseItems (readText : τ → Option τ') (readNumber : ν → Option ν')
    (arrange : List (τ' × Json τ' ν') → List (τ' × Json τ' ν')) :
    List (Json τ ν) → Option (List (Json τ' ν'))
  | [] => some []
  | item :: rest => do
    let item ← item.traverse readText readNumber arrange
    let rest ← traverseItems readText readNumber arrange rest
    return item :: rest

def traverseMembers (readText : τ → Option τ') (readNumber : ν → Option ν')
    (arrange : List (τ' × Json τ' ν') → List (τ' × Json τ' ν')) :
    List (τ × Json τ ν) → Option (List (τ' × Json τ' ν'))
  | [] => some []
  | (key, value) :: rest => do
    let key ← readText key
    let value ← value.traverse readText readNumber arrange
    let rest ← traverseMembers readText readNumber arrange rest
    return (key, value) :: rest

end

end Json

end DynTypes
