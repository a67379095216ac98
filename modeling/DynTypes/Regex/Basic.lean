import DynTypes.Regex.CharSet
/-!
# Regular expressions

An expression is built from leaves by sequence, choice and repetition. Its leaves match one
character or look at the characters around a place between two of them.

To search a text, every leaf is first turned into a move on sets of positions. A set of positions
is a natural number, of which bit `i` stands for the place in front of character `i`; so one pass
over the expression follows all ways to match at once.
-/

namespace DynTypes

/-- A regular expression with leaves of type `α`. -/
inductive Regex (α : Type) where
  | empty
  | leaf (a : α)
  /-- Matches a text for the first expression and then one for the second. -/
  | seq (r s : Regex α)
  /-- Matches a text for either expression. -/
  | alt (r s : Regex α)
  /-- Matches at least `least` and at most `most` texts for the expression, one after another. -/
  | repeated (r : Regex α) (least : Nat) (most : Option Nat)

namespace Regex

def map {α β : Type} (f : α → β) : Regex α → Regex β
  | empty => empty
  | leaf a => leaf (f a)
  | seq r s => seq (r.map f) (s.map f)
  | alt r s => alt (r.map f) (s.map f)
  | repeated r least most => repeated (r.map f) least most

/-- A leaf of a regular expression over texts. -/
inductive Atom where
  | one (set : CharSet)
  /-- A place whose neighbours, where it has them, pass a test. -/
  | between (test : Option Char → Option Char → Bool)

/-- A set of positions in a text: bit `i` stands for the place in front of character `i`. -/
abbrev Positions := Nat

/-- The move of a leaf in one text: from the positions of `mask`, `width` characters on. -/
structure Move where
  /-- The positions at which the leaf matches. -/
  mask : Positions
  /-- The length of what it matches. -/
  width : Nat

/-- The set of the positions that pass a test, of those from `start` on that the list goes
through. -/
def positionsWhere {α : Type} (test : α → Bool) (start : Nat) (places : List α) : Positions :=
  (places.foldl
    (fun (acc : Positions × Nat) place =>
      (if test place then acc.1 ||| (1 <<< acc.2) else acc.1, acc.2 + 1))
    (0, start)).1

/-- The places of a text, each with the characters in front of it and behind it. -/
def places (text : List Char) : List (Option Char × Option Char) :=
  (none :: text.map some).zip (text.map some ++ [none])

/-- The move of a leaf in a text. -/
def Atom.move (text : List Char) : Atom → Move
  | one set => { mask := positionsWhere set 0 text, width := 1 }
  | between test =>
    { mask := positionsWhere (fun (before, after) => test before after) 0 (places text),
      width := 0 }

/-- Takes a step as often as given, or until nothing is left to start from. -/
def iterate (step : Positions → Positions) : Nat → Positions → Positions
  | 0, s => s
  | n + 1, s => if s = 0 then 0 else iterate step n (step s)

/-- All positions that up to `n` steps reach; stops early when no step adds a position. -/
def reach (step : Positions → Positions) : Nat → Positions → Positions
  | 0, s => s
  | n + 1, s =>
    let next := s ||| step s
    if next = s then s else reach step n next

/-- The ends of all matches that start at one of the given positions, in a text of `length`
characters.

Of more than `length` matches in a row one is empty, and an empty match can be repeated and left
out at will; so larger counts than `length + 1` make no difference. -/
def run (length : Nat) : Regex Move → Positions → Positions
  | empty, s => s
  | leaf move, s => (s &&& move.mask) <<< move.width
  | seq r₁ r₂, s => r₂.run length (r₁.run length s)
  | alt r₁ r₂, s => r₁.run length s ||| r₂.run length s
  | repeated r least most, s =>
    let start := iterate (r.run length) (min least (length + 1)) s
    let extra := match most with
      | none => length + 1
      | some most => min (most - least) (length + 1)
    reach (r.run length) extra start

/-- Whether an expression matches somewhere in a text. -/
def search (r : Regex Atom) (text : List Char) : Bool :=
  let length := text.length
  (r.map (Atom.move text)).run length (Nat.pow 2 (length + 1) - 1) != 0

end Regex

end DynTypes
