import DocQuery.Grammar.Condition
import DocQuery.Query.Basic

/-!
# Clauses

Each clause is read behind the keyword that opens it.  Lists have at least one
item.  An entry of SELECT is not given an alias without AS, because the word
behind it may open the next clause.
-/

namespace DocQuery.Grammar

/-! ## Declared functions -/

/-- A script in braces. -/
def script : Read (Option Script) := do
  if ← scan Scanner.block then
    let token ← token
    return some ⟨token.text, token.span⟩
  else return none

/-- The text from a position to the cursor. -/
def textFrom (start : Nat) : Read Script := do
  let span := Span.between start (← position)
  match span.slice? (← get).scanner.text with
  | some text => return ⟨text, span⟩
  | none => throw (.fault .spanOutOfText)

/-- The name and the text of a function behind DECLARE. -/
def declaration (limits : Limits) (fuel : Nat) : Read (String × Script) := do
  expectKeyword .function .functionKeyword
  let start := (← token).start
  if ← scan (Scanner.identifier true) then
    let name := (← token).text
    expectChar '(' (.functionSignature name)
    let _ ← argumentList limits fuel
    let _ ← require (.functionBody name) script
    return (name, ← textFrom start)
  else refuse .functionName

/-- All declared functions, no two of one name. -/
def declarations (limits : Limits) (known : Functions) : Nat → Read Functions
  | 0 => throw .outOfFuel
  | fuel + 1 => do
      if ← scan (Scanner.keyword .declare) then
        let (name, body) ← declaration limits fuel
        if known.contains name then refuse (.otherFunctionName name)
        else declarations limits (known.insert name body) fuel
      else return known

/-! ## The source -/

/-- An alias, of which the keyword AS may have to be there. -/
def asName (needsAs : Bool) (fuel : Nat) : Read (Option String) := do
  match ← scan (Scanner.anyKeyword Keyword.reserved) with
  | some .as_ => return some (← require .aliasName (path fuel)).text
  | some _ =>
    unread
    return none
  | none =>
    if needsAs then return none
    else return (← path fuel).map Path.text

/-- The filter of a collection, in parentheses. -/
def sourceFilter (limits : Limits) (fuel : Nat) : Read (Option Expr) := do
  if ← scan (Scanner.char '(') then
    enter limits
    let filter ← require .sourceFilter (condition limits fuel)
    expectChar ')' .sourceFilterEnd
    leave
    return some filter
  else return none

/-- The FROM clause. -/
def source (limits : Limits) (fuel : Nat) : Read Source := do
  expectKeyword .from_ .fromClause
  let isIndex ← scan (Scanner.keyword .index)
  let (text, quoted) ← require (if isIndex then .indexName else .sourceName) (segment true)
  let name : Path := ⟨text, (← token).span, quoted⟩
  let filter ← if isIndex then pure none else sourceFilter limits fuel
  let asName ← asName false fuel
  return ⟨name, asName, filter, isIndex⟩

/-! ## Lists -/

/-- A field, or a call of it. -/
def fieldOrCall (limits : Limits) (fuel : Nat) : Read (Option Expr) := do
  match ← path fuel with
  | none => return none
  | some name =>
    if ← scan (Scanner.char '(') then return some (.call name (← argumentList limits fuel))
    else return some (.field name)

/-- A field of GROUP BY. -/
def groupField (fuel : Nat) : Read Path :=
  require .groupField (path fuel)

/-- The sort type of a term, if AS asks for one. -/
def sortType : Read SortType := do
  if ← scan (Scanner.keyword .as_) then
    require .sortOrdering (scan (Scanner.firstOf SortType.table))
  else return .implicit

/-- The direction of a term is up. -/
def ascending : Read Bool := do
  match ← scan (Scanner.anyKeyword Keyword.directions) with
  | some .desc => return false
  | some .descending => return false
  | _ => return true

/-- A term of ORDER BY. -/
def orderTerm (limits : Limits) (fuel : Nat) : Read OrderTerm := do
  let key ← require .sortField (fieldOrCall limits fuel)
  let sortType ← sortType
  return ⟨key, sortType, ← ascending⟩

/-- The body of an entry of SELECT or LOAD. -/
def projected (limits : Limits) (clause : ProjectionClause) (fuel : Nat) : Read Expr := do
  match ← fieldOrCall limits fuel with
  | some body => return body
  | none => return .value (← require (.projection clause) value)

/-- The alias that a value has when none is written. -/
def inferredAlias : Expr → Option String
  | .value v => some v.text
  | _ => none

/-- An entry of SELECT or LOAD. -/
def projection (limits : Limits) (clause : ProjectionClause) (needsAs : Bool) (fuel : Nat) :
    Read Projection := do
  let body ← projected limits clause fuel
  let asName ← asName needsAs fuel
  return ⟨body, asName.or (inferredAlias body)⟩

/-- An entry of INCLUDE. -/
def includeEntry (fuel : Nat) : Read Expr := do
  match ← value with
  | some v => return .value v
  | none => return .field (← require .includeEntry (path fuel))

/-! ## What a query ends with -/

/-- What a query selects: entries or a script, and whether without duplicates. -/
structure Selection where
  entries : Option (List Projection)
  script : Option Script
  distinct : Bool

/-- A query without SELECT. -/
def Selection.none : Selection := ⟨Option.none, Option.none, false⟩

/-- What follows SELECT. -/
def selection (limits : Limits) (fuel : Nat) : Read Selection := do
  let distinct ← scan (Scanner.keyword .distinct)
  if ← scan (Scanner.char '*') then return ⟨none, none, distinct⟩
  else
    match ← script with
    | some body => return ⟨some [], some body, distinct⟩
    | none =>
      let entries ← commaSeparated (projection limits .select true) fuel
      return ⟨some entries, none, distinct⟩

/-- The script of an update. -/
def updateScript : Read Script := do
  expectKeyword .update .updateClause
  require .updateScript script

/-! ## The whole query -/

/-- The clauses behind the declared functions up to LOAD. -/
def body (limits : Limits) (functions : Functions) (fuel : Nat) : Read Query := do
  let text := (← get).scanner.text
  let source ← source limits fuel
  let groupBy ← optional .groupBy (commaSeparated groupField fuel)
  let filter ← optional .where_ (require .whereCondition (condition limits fuel))
  let orderBy ← optional .orderBy (commaSeparated (orderTerm limits) fuel)
  let load ← optional .load (commaSeparated (projection limits .load false) fuel)
  return { Query.ofSource source with
    text := text, functions := functions, groupBy := groupBy, filter := filter,
    orderBy := orderBy, load := load }

/-- The query with the clauses that end a query of its kind. -/
def ending (limits : Limits) (fuel : Nat) (query : Query) : QueryKind → Read Query
  | .select => do
      let selection := (← optional .select (selection limits fuel)).getD .none
      let includes ← optional .include_ (commaSeparated includeEntry fuel)
      return { query with
        select := selection.entries, selectScript := selection.script,
        distinct := selection.distinct, includes := includes }
  | .update => do
      return { query with updateScript := some (← updateScript) }

/-- A whole query, with nothing behind it. -/
def query (limits : Limits) (kind : QueryKind) (fuel : Nat) : Read Query := do
  let functions ← declarations limits .empty fuel
  let query ← ending limits fuel (← body limits functions fuel) kind
  if ← scan Scanner.atEnd then return query else refuse .endOfQuery

end DocQuery.Grammar
