import RandomTables.Program.OfSource

namespace RandomTables

inductive CollectionError where
  | tableNotFound (id : String)
  | emptyTable (id : String)
  | unreadable (error : ParseError)
  | generation (detail : String)
  | invalidReference (id owner : String)
  | missingDependency (publisher collection id owner : String)
  | externalNotFound (publisher collection id : String)
  deriving DecidableEq, Repr

def CollectionError.message : CollectionError → String
  | tableNotFound id => "Table '" ++ id ++ "' not found"
  | emptyTable id => "Table '" ++ id ++ "' has no rules"
  | unreadable error => "Parse error: " ++ error.message
  | generation detail => "Generation error: " ++ detail
  | invalidReference id owner =>
    "Invalid table reference: Table '" ++ id ++ "' referenced in table '" ++ owner ++
      "' does not exist"
  | missingDependency publisher collection id owner =>
    "Missing dependency: Table '" ++ qualifiedName publisher collection id ++
      "' referenced in table '" ++ owner ++ "' requires collection '" ++ publisher ++ "/" ++
      collection ++ "', which is not available"
  | externalNotFound publisher collection id =>
    "External table '" ++ qualifiedName publisher collection id ++ "' not found"

end RandomTables
