import DynTypes.TypeExpr.Basic
/-!
# Writing type expressions

The text of an expression in the notation of definitions, without white space and with every
implied name written out.
-/

namespace DynTypes

variable [RegexEngine]

mutual

/-- Writes an expression: its alternatives with bars between them. -/
def TypeExpr.render : TypeExpr → List Char
  | .sum first rest => ['|'].intercalate (first.render :: Alternative.renderAll rest)

/-- Writes an alternative: name, mark, slots and constraints. -/
def Alternative.render : Alternative → List Char
  | .mk name optional slots constraints =>
    name.toList ++ (if optional then ['?'] else []) ++
      (if slots.isEmpty then []
       else '<' :: [','].intercalate (TypeExpr.renderAll slots) ++ ['>']) ++
      constraints.elim [] Constraints.render

def Alternative.renderAll : List Alternative → List (List Char)
  | [] => []
  | alternative :: rest => alternative.render :: Alternative.renderAll rest

def TypeExpr.renderAll : List TypeExpr → List (List Char)
  | [] => []
  | expr :: rest => expr.render :: TypeExpr.renderAll rest

end

/-- Writes slots: with commas between them, in angle brackets. -/
def TypeExpr.renderSlots (slots : List TypeExpr) : List Char :=
  '<' :: [','].intercalate (TypeExpr.renderAll slots) ++ ['>']

@[simp] theorem Alternative.renderAll_eq_map (alternatives : List Alternative) :
    Alternative.renderAll alternatives = alternatives.map Alternative.render := by
  induction alternatives with
  | nil => rfl
  | cons alternative rest ih => rw [Alternative.renderAll, ih, List.map_cons]

@[simp] theorem TypeExpr.renderAll_eq_map (exprs : List TypeExpr) :
    TypeExpr.renderAll exprs = exprs.map TypeExpr.render := by
  induction exprs with
  | nil => rfl
  | cons expr rest ih => rw [TypeExpr.renderAll, ih, List.map_cons]

instance : ToString TypeExpr := ⟨fun e => String.ofList e.render⟩

instance : ToString Alternative := ⟨fun e => String.ofList e.render⟩

end DynTypes
