import DynTypes.Constraint.Basic
/-!
# Lists of constraints

The constraints of one alternative: at least one, no two with the same key, in the order in which
they are written.
-/

namespace DynTypes

namespace Constraints

/-- The first key that has come before, either among `seen` or earlier in the list. -/
def firstRepeated? (seen : List String) : List String → Option String
  | [] => none
  | key :: rest => if key ∈ seen then some key else firstRepeated? (key :: seen) rest

theorem firstRepeated?_eq_none {seen keys : List String} :
    firstRepeated? seen keys = none ↔ keys.Nodup ∧ ∀ key ∈ keys, key ∉ seen := by
  induction keys generalizing seen with
  | nil => simp [firstRepeated?]
  | cons key rest ih =>
    by_cases h : key ∈ seen
    · simp [firstRepeated?, h]
    · rw [firstRepeated?, if_neg h, ih]
      simp only [List.nodup_cons, List.mem_cons, not_or, forall_eq_or_imp, h, not_false_eq_true,
        true_and]
      constructor
      · rintro ⟨hrest, hseen⟩
        exact ⟨⟨fun hmem => (hseen key hmem).1 rfl, hrest⟩, fun k hk => (hseen k hk).2⟩
      · rintro ⟨⟨hkey, hrest⟩, hseen⟩
        exact ⟨hrest, fun k hk => ⟨fun heq => hkey (heq ▸ hk), hseen k hk⟩⟩

end Constraints

variable [RegexEngine]

/-- The constraints of one alternative. -/
structure Constraints where
  toList : List Constraint
  toList_ne_nil : toList ≠ []
  nodup_keys : (toList.map Constraint.key).Nodup
deriving DecidableEq

namespace Constraints

/-- The list made of some constraints, or the first key that two of them share. -/
def ofList (constraints : List Constraint) : Except DefinitionError Constraints :=
  if hnil : constraints = [] then .error (.misshapen .noConstraints)
  else
    match h : firstRepeated? [] (constraints.map Constraint.key) with
    | some key => .error (.duplicateConstraint key)
    | none =>
      .ok { toList := constraints, toList_ne_nil := hnil
            nodup_keys := (firstRepeated?_eq_none.1 h).1 }

def singleton (c : Constraint) : Constraints where
  toList := [c]
  toList_ne_nil := by simp
  nodup_keys := by simp

def size (s : Constraints) : Nat := s.toList.length

/-- Whether there are no constraints; never true. -/
def isEmpty (s : Constraints) : Bool := s.toList.isEmpty

/-- Writes a list: its constraints between parentheses. -/
def render (s : Constraints) : List Char :=
  '(' :: [','].intercalate (s.toList.map Constraint.render) ++ [')']

def toJson (s : Constraints) : Json String Int :=
  .array (s.toList.map Constraint.toJson)

end Constraints

end DynTypes
