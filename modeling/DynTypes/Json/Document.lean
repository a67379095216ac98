import DynTypes.Json.Tree
/-!
# Documents in JSON

How a document is read is left open. What matters is the tree that it holds, whose numbers are
those that a program can compute with.
-/

namespace DynTypes

/-- The numbers of a JSON document that has been read. -/
inductive Json.Number where
  /-- An integer of at most 64 bits, with or without sign. -/
  | int (value : Int)
  /-- Any other number. -/
  | real (value : Binary64)
deriving DecidableEq

/-- A reader of JSON documents. -/
class JsonReader where
  /-- The tree of a document, if there is one. -/
  read? : String → Option (Json String Json.Number)

end DynTypes
