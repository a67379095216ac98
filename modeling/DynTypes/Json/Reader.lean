import DynTypes.Json.Document
import DynTypes.Json.Token
/-!
# Reading JSON

Tokens are put together to a tree one at a time, with the containers that are still open on a
stack. What is read this way is a tree *as written*; `strict?` then insists on texts that exist,
numbers in range and a bounded depth, and brings the members of objects into order.
-/

namespace DynTypes.Json

/-- A JSON tree as written: texts may be broken and numbers may be of any size. -/
abbrev Written := Json (Option String) Numeral

/-- A container that is still open, with what it holds so far, last first. -/
inductive Frame where
  | array (items : List Written)
  | object (members : List (Option String × Written)) (key : Option String)

/-- What has been read so far and what may follow. -/
inductive Progress where
  | value (stack : List Frame)
  /-- A value or the end of an array must follow. -/
  | firstItem (stack : List Frame)
  /-- A key or the end of an object must follow. -/
  | firstKey (stack : List Frame)
  | nextKey (members : List (Option String × Written)) (stack : List Frame)
  | colon (members : List (Option String × Written)) (key : Option String) (stack : List Frame)
  /-- A value has just ended. -/
  | ended (value : Written) (stack : List Frame)

namespace Progress

/-- Starts or ends a value with a token, inside the open containers `stack`. -/
def begin? (stack : List Frame) : Token → Option Progress
  | .openArray => some (firstItem stack)
  | .openObject => some (firstKey stack)
  | .null => some (ended .null stack)
  | .bool b => some (ended (.bool b) stack)
  | .number n => some (ended (.number n) stack)
  | .text t => some (ended (.text t) stack)
  | _ => none

def step? : Progress → Token → Option Progress
  | value stack, token => begin? stack token
  | firstItem stack, .closeArray => some (ended (.array []) stack)
  | firstItem stack, token => begin? (.array [] :: stack) token
  | firstKey stack, .closeObject => some (ended (.object []) stack)
  | firstKey stack, .text key => some (colon [] key stack)
  | nextKey members stack, .text key => some (colon members key stack)
  | colon members key stack, .colon => some (value (.object members key :: stack))
  | ended item (.array items :: stack), .comma => some (value (.array (item :: items) :: stack))
  | ended item (.array items :: stack), .closeArray =>
    some (ended (.array (item :: items).reverse) stack)
  | ended item (.object members key :: stack), .comma =>
    some (nextKey ((key, item) :: members) stack)
  | ended item (.object members key :: stack), .closeObject =>
    some (ended (.object ((key, item) :: members).reverse) stack)
  | _, _ => none

end Progress

/-- Reads a document as a tree. -/
def ofText? (document : List Char) : Option Written := do
  let tokens ← Token.ofText? document
  match ← tokens.foldlM Progress.step? (.value []) with
  | .ended tree [] => some tree
  | _ => none

namespace Number

/-- Takes in digits as long as the number that they add up to fits into 64 bits; answers with that
number and the digits left over. -/
def takeDigits (start : Nat) : List Char → Nat × List Char
  | [] => (start, [])
  | c :: rest =>
    let next := 10 * start + (c.toNat - '0'.toNat)
    if next < Nat.pow 2 64 then takeDigits next rest else (start, c :: rest)

/-- Ten to some power, rounded. -/
def tenTo (power : Nat) : Binary64 :=
  .ofRatio false (Nat.pow 10 power) 1

/-- Divides by `10 ^ power` in steps of at most `10 ^ 308`, each of them rounded. -/
def divideByTens (x : Binary64) (power : Nat) : Binary64 :=
  if 308 < power then
    if x.isZero then x else divideByTens (x.div (tenTo 308)) (power - 308)
  else x.div (tenTo power)
termination_by power
decreasing_by omega

/-- The number `significand * 10 ^ exponent`, if it does not grow beyond all finite numbers. The
significand is rounded before it is scaled. -/
def scale? (significand : Nat) (exponent : Int) : Option Binary64 :=
  let x := Binary64.ofInt significand
  if exponent < 0 then some (divideByTens x exponent.natAbs)
  else if 308 < exponent then
    if x.isZero then some x else none
  else
    let product := x.mul (tenTo exponent.toNat)
    if product.isInfinite then none else some product

/-- The number that a numeral stands for, if it is in range.

Digits count until 64 bits are full. Further digits of the whole part still raise the exponent,
those of the fraction are dropped. An exponent beyond 31 bits leaves zero or is out of range. -/
def ofNumeral? (n : Numeral) : Option Number :=
  let (significand, dropped) := takeDigits 0 n.whole
  let signed (x : Binary64) : Number := .real (if n.negative then x.neg else x)
  if n.fraction.isNone && n.exponent.isNone && dropped.isEmpty then
    if !n.negative then some (.int significand)
    else if 0 < significand ∧ significand ≤ Nat.pow 2 63 then some (.int (-significand))
    else some (signed (.ofInt significand))
  else
    let fraction := n.fraction.getD []
    let (significand, ignored) := takeDigits significand fraction
    let exponent : Int := (dropped.length : Int) - (fraction.length - ignored.length : Nat)
    match n.exponent with
    | none => (scale? significand exponent).map signed
    | some (negative, digits) =>
      let power := Numeral.digitsValue digits
      if Nat.pow 2 31 ≤ power then
        if significand ≠ 0 ∧ !negative then none else some (signed (.zero false))
      else
        let total := if negative then exponent - power else exponent + power
        (scale? significand total).map signed

end Number

/-- Puts a member into members in the order of their keys, in the place of one with its key. -/
def insertMember {α : Type} (key : String) (value : α) :
    List (String × α) → List (String × α)
  | [] => [(key, value)]
  | (other, old) :: rest =>
    if key < other then (key, value) :: (other, old) :: rest
    else if key = other then (key, value) :: rest
    else (other, old) :: insertMember key value rest

/-- Members in the order of their keys; of members with the same key the last counts. -/
def arrangeMembers {α : Type} (members : List (String × α)) : List (String × α) :=
  members.foldl (fun done (key, value) => insertMember key value done) []

/-- The greatest depth of a document that is read strictly. -/
def maxDepth : Nat := 127

/-- A tree as written with all its texts and numbers, unless one of them does not exist or the
tree is too deep. -/
def strict? (tree : Written) : Option (Json String Number) :=
  if maxDepth < tree.depth then none
  else tree.traverse id Number.ofNumeral? arrangeMembers

def read? (document : String) : Option (Json String Number) :=
  ofText? document.toList >>= strict?

end DynTypes.Json
