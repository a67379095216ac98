import DynTypes.Check
import DynTypes.Json.Reader
/-!
# Settings in JSON

The rules of caches and checkers and the counters of caches as JSON records. A record is written
as an object and read from an object or from an array of its fields in order. Every field must be
there once; what else an object holds does not count.
-/

namespace DynTypes

namespace Json

/-- The fields of a record with the given names, in their order. Every key of an object must be a
text, known or not. -/
def fields? (names : List String) : Written → Option (List Written)
  | .array items => if items.length = names.length then some items else none
  | .object members =>
    if members.all (·.1.isSome) then
      names.mapM fun name =>
        match members.filter (·.1 == some name) with
        | [(_, value)] => some value
        | _ => none
    else none
  | _ => none

/-- A count: an integer of 64 bits without sign, written without point and exponent. -/
def count? : Written → Option Nat
  | .number n =>
    let value := Numeral.digitsValue n.whole
    if n.negative || n.fraction.isSome || n.exponent.isSome || Nat.pow 2 64 ≤ value then none
    else some value
  | _ => none

/-- A truth value. -/
def flag? : Written → Option Bool
  | .bool value => some value
  | _ => none

end Json

namespace Cache.Rules

def fieldNames : List String := ["max_entries", "cache_errors"]

def toJson (rules : Cache.Rules) : Json String Int :=
  .object [("max_entries", .number rules.maxEntries), ("cache_errors", .bool rules.cacheErrors)]

def ofJson? (tree : Json.Written) : Option Cache.Rules := do
  match ← Json.fields? fieldNames tree with
  | [maxEntries, cacheErrors] =>
    return { maxEntries := ← Json.count? maxEntries, cacheErrors := ← Json.flag? cacheErrors }
  | _ => none

end Cache.Rules

namespace Checker.Rules

def fieldNames : List String := ["collect_invalids"]

def toJson (rules : Checker.Rules) : Json String Int :=
  .object [("collect_invalids", .bool rules.collectInvalids)]

def ofJson? (tree : Json.Written) : Option Checker.Rules := do
  match ← Json.fields? fieldNames tree with
  | [collectInvalids] => return { collectInvalids := ← Json.flag? collectInvalids }
  | _ => none

end Checker.Rules

namespace Cache.Counters

def fieldNames : List String := ["hits", "misses", "entries"]

def toJson (counters : Cache.Counters) : Json String Int :=
  .object
    [("hits", .number counters.hits), ("misses", .number counters.misses),
      ("entries", .number counters.entries)]

def ofJson? (tree : Json.Written) : Option Cache.Counters := do
  match ← Json.fields? fieldNames tree with
  | [hits, misses, entries] =>
    return {
      hits := ← Json.count? hits
      misses := ← Json.count? misses
      entries := ← Json.count? entries }
  | _ => none

end Cache.Counters

end DynTypes
