import DynTypes.Json.Reader
/-!
# The JSON reader of the program
-/

namespace DynTypes

/-- Where no other reader is given, documents are read strictly. -/
instance : JsonReader where
  read? := Json.read?

end DynTypes
