import DynTypes.Entries
import DynTypes.TypeExpr.Parser
/-!
# A cache of definitions

Definitions are kept with what reading them gave, so that each is read once. A cache has room for
so many of them and counts how often it had an answer ready.
-/

namespace DynTypes

variable [RegexEngine]

/-- The rules of a cache. -/
structure Cache.Rules where
  /-- How many definitions are kept at most; zero sets no limit. -/
  maxEntries : Nat := 4096
  /-- Whether definitions that cannot be read are kept too. -/
  cacheErrors : Bool := true
deriving DecidableEq, Repr

/-- The counters of a cache, as numbers. -/
structure Cache.Counters where
  /-- How often the answer was there. -/
  hits : Nat
  /-- How often the definition had to be read. -/
  misses : Nat
  /-- How many definitions are kept. -/
  entries : Nat
deriving DecidableEq, Repr

/-- What reading a definition gives. -/
abbrev Compiled := Except DefinitionError TypeExpr

/-- A place for what reading a definition gives, empty until the definition has been read. -/
abbrev Slot := Option Compiled

/-- A cache of definitions. -/
structure Cache where
  rules : Cache.Rules
  /-- The definitions that have a slot. -/
  entries : Entries Slot := []
  /-- How often the answer was there; this counter wraps around, and so does the other. -/
  hits : UInt64 := 0
  /-- How often the definition had to be read. -/
  misses : UInt64 := 0

namespace Cache

def slot? (cache : Cache) (definition : String) : Option Slot :=
  cache.entries.find? definition

/-- What is kept for a definition, if it has been read. -/
def get? (cache : Cache) (definition : String) : Option Compiled :=
  (cache.slot? definition).join

/-- Whether a definition has a slot. -/
def contains (cache : Cache) (definition : String) : Bool :=
  (cache.slot? definition).isSome

/-- How many definitions have a slot. -/
def size (cache : Cache) : Nat :=
  cache.entries.length

def isEmpty (cache : Cache) : Bool :=
  cache.size == 0

def hasRoom (cache : Cache) : Bool :=
  cache.rules.maxEntries == 0 || cache.size < cache.rules.maxEntries

/-- Forgets every definition and keeps the counters. -/
def clear (cache : Cache) : Cache :=
  { cache with entries := [] }

def counters (cache : Cache) : Cache.Counters where
  hits := cache.hits.toNat
  misses := cache.misses.toNat
  entries := cache.size

/-- Whether the cache keeps a result. -/
def keeps (cache : Cache) (result : Compiled) : Bool :=
  cache.rules.cacheErrors || result.toBool

/-- The slot of a definition. A definition without one gets an empty slot if there is room. -/
def reserve (definition : String) (cache : Cache) : Option (Slot × Cache) :=
  match cache.slot? definition with
  | some slot => some (slot, cache)
  | none =>
    if cache.hasRoom then
      some (none, { cache with entries := cache.entries.insert definition none })
    else none

/-- Puts what reading a definition gave into its slot. -/
def fill (definition : String) (result : Compiled) (cache : Cache) : Cache :=
  { cache with entries := cache.entries.insert definition (some result) }

def evict (definition : String) (cache : Cache) : Cache :=
  { cache with entries := cache.entries.erase definition }

/-- What reading a definition gives, from its slot if that is filled. Otherwise the definition is
read, and its slot filled if it has one; a result that is not to be kept costs it the slot. -/
def fetch (definition : String) (cache : Cache) : Compiled × Cache :=
  match cache.reserve definition with
  | none => (TypeExpr.parse definition, { cache with misses := cache.misses + 1 })
  | some (some result, cache) => (result, { cache with hits := cache.hits + 1 })
  | some (none, cache) =>
    let result := TypeExpr.parse definition
    let cache := cache.fill definition result
    let cache := { cache with misses := cache.misses + 1 }
    (result, if cache.keeps result then cache else cache.evict definition)

end Cache

end DynTypes
