import RandomTables.Modifier
import RandomTables.Token.Fault

namespace RandomTables

inductive Expectation where
  | tableDeclaration
  | tableName
  | lineEnd
  | flag
  | flagEnd
  | rule
  | colon
  | ruleContent
  | expression
  | closingBrace
  | publisher
  | slash
  | collection
  | hash
  /-- A word after a bar that is the name of a modifier. -/
  | knownModifier
  /-- A word after a bar at all. -/
  | modifier
  deriving DecidableEq, Repr

namespace Expectation

def describe : Expectation → String
  | tableDeclaration => "table declaration"
  | tableName => "table name"
  | lineEnd => "newline"
  | flag => "table flag"
  | flagEnd => "',' or ']'"
  | rule => "rule weight"
  | colon => "':'"
  | ruleContent => "rule content"
  | expression => "table reference or dice roll"
  | closingBrace => "'\x7d'"
  | publisher => "a publisher name after '@'"
  | slash => "'/' after the publisher name"
  | collection => "a collection name after '/'"
  | hash => "'#' after the collection name"
  | knownModifier => "modifier"
  | modifier => "a modifier after '|'"

def code : Expectation → String
  | tableDeclaration => "PARSER_EXPECTED_TABLE"
  | tableName => "PARSER_EXPECTED_TABLE_ID"
  | lineEnd => "PARSER_EXPECTED_NEWLINE"
  | flag => "PARSER_EXPECTED_FLAG"
  | flagEnd | modifier => "PARSER_EXPECTED_TOKEN"
  | rule => "PARSER_EXPECTED_RULE"
  | colon => "PARSER_EXPECTED_COLON"
  | ruleContent => "PARSER_EMPTY_RULE"
  | expression => "PARSER_EXPECTED_EXPRESSION"
  | closingBrace => "PARSER_UNCLOSED_EXPRESSION"
  | publisher | slash | collection | hash => "PARSER_EXPECTED_IDENTIFIER"
  | knownModifier => "PARSER_UNKNOWN_MODIFIER"

def message (found : String) : Expectation → String
  | tableDeclaration => "Expected a table declaration, found " ++ found
  | tableName => "Expected a table name after '#', found " ++ found
  | lineEnd => "Expected a newline after the table declaration, found " ++ found
  | flag => "Expected a table flag, found " ++ found
  | rule => "Expected a rule weight, found " ++ found
  | colon => "Expected ':' after rule weight, found " ++ found
  | ruleContent => "Rule has no content"
  | expression => "Expected a table reference or dice roll, found " ++ found
  | closingBrace => "Expected '\x7d' to close the expression, found " ++ found
  | knownModifier => "Unknown modifier " ++ found
  | e => "Expected " ++ e.describe ++ ", found " ++ found

def hint : Expectation → Option String
  | tableDeclaration =>
    some "Rules must belong to a table. Start a table with '#name' on its own line"
  | tableName =>
    some "Table names start with a letter and may contain letters, digits, '_' and '-'"
  | lineEnd => some "Put each rule on its own line below the table declaration"
  | flag => some "Flags are written as a comma separated list, e.g. '#table[export]'"
  | rule => some "Rules start with a positive weight followed by a colon, e.g. '1.0: text'"
  | colon => some "Separate the weight from the rule text with a colon, e.g. '1.0: text'"
  | ruleContent => some "Add text or an expression after the colon, e.g. '1.0: a red apple'"
  | expression => some LexFault.expressionForms
  | closingBrace => some "Close the expression with '\x7d' on the same line"
  | publisher | slash | collection | hash =>
    some "External references look like \x7b@publisher/collection#table\x7d"
  | knownModifier =>
    some ("Valid modifiers are: " ++ ", ".intercalate (Modifier.all.map Modifier.name))
  | flagEnd | modifier => none

end Expectation

end RandomTables
