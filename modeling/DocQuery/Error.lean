import DocQuery.Fault
import DocQuery.Operator
import DocQuery.Span
import DocQuery.Value

/-!
# Why a text is not accepted

A text that is not in the grammar is refused at a token: the reader expected
something else there.  A text that is in the grammar may still be refused, for
values of different kinds or for its complexity.  Each cause is a constructor,
and its wording is given in one place.
-/

namespace DocQuery

/-- The two clauses with a list of projections. -/
inductive ProjectionClause where
  | load | select
  deriving DecidableEq, Repr

namespace ProjectionClause

/-- The name of the clause. -/
def name : ProjectionClause → String
  | load => "LOAD"
  | select => "SELECT"

end ProjectionClause

/-- What a reader expected where it met another token. -/
inductive Expectation where
  | functionKeyword
  | functionName
  | functionSignature (name : String)
  | functionBody (name : String)
  | otherFunctionName (name : String)
  | fromClause
  | sourceName
  | indexName
  | sourceFilter
  | sourceFilterEnd
  | groupField
  | whereCondition
  | sortField
  | sortOrdering
  | projection (clause : ProjectionClause)
  | aliasName
  | includeEntry
  | updateClause
  | updateScript
  | endOfQuery
  | secondCondition (connective : Connective)
  | groupEnd
  | operator
  | comparedValue (comparison : Comparison)
  | lowBound
  | boundsAnd
  | highBound
  | listStart
  | listComma
  | listValue
  | argumentComma
  | argument
  | parameterName
  | wholeIndex
  | positiveIndex
  | indexEnd
  deriving DecidableEq, Repr

namespace Expectation

/-- The wording of an expectation. -/
def message : Expectation → String
  | functionKeyword => "DECLARE clause found but missing 'function' keyword"
  | functionName => "DECLARE functions require a name and cannot be anonymous"
  | functionSignature name => "Unable to parse function " ++ name ++ " signature"
  | functionBody name => "Unable to get function body for " ++ name
  | otherFunctionName name => name ++ " function was declared multiple times"
  | fromClause => "Expected FROM clause"
  | sourceName => "Expected FROM source"
  | indexName => "Expected FROM INDEX source"
  | sourceFilter => "Expected filter in filtered FROM clause"
  | sourceFilterEnd => "Expected closing parenthesis in filtered FROM clause after filter"
  | groupField => "Unable to get field for GROUP BY"
  | whereCondition => "Unable to parse WHERE clause"
  | sortField => "Unable to get field for ORDER BY"
  | sortOrdering => "Expected one of string, long, double, alphaNumeric after AS in ORDER BY"
  | projection clause => "Unable to get field for " ++ clause.name
  | aliasName => "Expected field alias after AS in SELECT"
  | includeEntry => "Unable to understand include clause expression"
  | updateClause => "Update operations must end with UPDATE clause"
  | updateScript => "Update clause must have a single function body"
  | endOfQuery => "Expected end of query"
  | secondCondition connective =>
      "Failed to find second part of " ++ connective.name ++ " expression"
  | groupEnd => "Unmatched parenthesis, expected ')'"
  | operator => "Invalid operator expected any of (In, Between, =, <, >, <=, >=)"
  | comparedValue comparison =>
      "parsing " ++ comparison.name ++
        " expression, expected a value (operators only work on scalar / parameters values)"
  | lowBound => "parsing Between, expected value (1st)"
  | boundsAnd => "parsing Between, expected AND"
  | highBound => "parsing Between, expected value (2nd)"
  | listStart => "parsing In, expected '('"
  | listComma => "parsing In expression, expected ','"
  | listValue => "parsing In, expected a value"
  | argumentComma => "parsing method expression, expected ','"
  | argument => "parsing method, expected an argument"
  | parameterName => "Expected parameter name"
  | wholeIndex => "Array indexer must be integer, but got double"
  | positiveIndex => "Array indexer must be a non-negative integer"
  | indexEnd => "Expected to find closing ]"

end Expectation

/-- Why a text of the grammar is refused. -/
inductive Refusal where
  /-- The bounds of a range are of different kinds. -/
  | mixedBounds (low high : ValueKind)
  /-- A value of a list is of another kind than the first. -/
  | mixedList (first other : ValueKind)
  /-- More groups and calls are nested than the limit. -/
  | tooDeep (limit : Nat)
  /-- More connectives are used than the limit. -/
  | tooManyConnectives (limit : Nat)
  deriving DecidableEq, Repr

namespace Refusal

/-- The wording of a refusal. -/
def message : Refusal → String
  | mixedBounds low high =>
      "Invalid Between expression, values must have the same type but got " ++ low.name ++
        " and " ++ high.name
  | mixedList first other =>
      "Invalid In expression, all values must have the same type, expected " ++ first.name ++
        " but got " ++ other.name
  | tooDeep limit =>
      "Query is too complex, over " ++ toString limit ++ " nested clauses are not allowed"
  | tooManyConnectives limit =>
      "Query is too complex, over " ++ toString limit ++ " chained conditions are not allowed"

end Refusal

/-- A text outside the grammar: what was expected where, and what stood there. -/
structure SyntaxError where
  expected : Expectation
  /-- The position of the cursor, from which trivia may lead to the token. -/
  cursor : Nat
  /-- The location of the token that stood there. -/
  location : Location
  /-- The token that stood there, none at the end of the text. -/
  found : Option String
  /-- The whole text. -/
  query : String
  deriving DecidableEq, Repr

namespace SyntaxError

/-- The wording of what was found. -/
def foundMessage : Option String → String
  | some token => ": " ++ token
  | none => " to the end of the query"

/-- The full wording, with the location in front and the text behind. -/
def message (error : SyntaxError) : String :=
  error.location.render ++ " " ++ error.expected.message ++ " but got" ++
    foundMessage error.found ++ "\nQuery: \n" ++ error.query

end SyntaxError

/-- Why no query is read. -/
inductive Error where
  | outsideGrammar (error : SyntaxError)
  | refused (cause : Refusal) (location : Location)
  | unknownKind (name : String)
  deriving DecidableEq, Repr

namespace Error

/-- The full wording of an error. -/
def message : Error → String
  | outsideGrammar error => error.message
  | refused cause location => location.render ++ " " ++ cause.message
  | unknownKind name => "Unknown query type: " ++ name

end Error

/-- How reading a query may fail. -/
inductive Failure where
  /-- The text is not accepted. -/
  | rejected (error : Error)
  /-- A step could not be taken. -/
  | fault (fault : Fault)
  /-- The bound on the number of nested steps was reached. -/
  | outOfFuel
  deriving DecidableEq, Repr

end DocQuery
