import DynTypes.TypeExpr.Basic
/-!
# Type expressions in JSON

The tree of an expression as a JSON tree. An alternative is an object with its name, whether it is
optional, and, where it has them, its slots and constraints.
-/

namespace DynTypes

variable [RegexEngine]

mutual

/-- The JSON form of an expression: the array of its alternatives. -/
def TypeExpr.toJson : TypeExpr → Json String Int
  | .sum first rest => .array (first.toJson :: Alternative.toJsonAll rest)

/-- The JSON form of an alternative. Slots and constraints are left out if there are none. -/
def Alternative.toJson : Alternative → Json String Int
  | .mk name optional slots constraints =>
    .object <|
      [("name", .text name), ("optional", .bool optional)] ++
        (if slots.isEmpty then [] else [("children", .array (TypeExpr.toJsonAll slots))]) ++
        constraints.elim [] fun constraints => [("constraints", constraints.toJson)]

def Alternative.toJsonAll : List Alternative → List (Json String Int)
  | [] => []
  | alternative :: rest => alternative.toJson :: Alternative.toJsonAll rest

def TypeExpr.toJsonAll : List TypeExpr → List (Json String Int)
  | [] => []
  | expr :: rest => expr.toJson :: TypeExpr.toJsonAll rest

end

end DynTypes
