import DocQuery.Json.Encode

/-!
# Queries from JSON

The readers of what the encoder writes.  They also take members in any order,
pass over members of other names, take an array for a record, and take a missing
member for a part that may be missing.
-/

namespace DocQuery

open Json

/-- The span that a JSON value holds. -/
def Span.ofJson? (json : Json) : Option Span := do
  match ← parts? ["start", "length"] json with
  | [start, length] => return ⟨← required nat? start, ← required nat? length⟩
  | _ => none

/-- The path that a JSON value holds. -/
def Path.ofJson? (json : Json) : Option Path := do
  match ← parts? ["path", "span", "escaped"] json with
  | [text, span, quoted] =>
      return ⟨← required string? text, ← required Span.ofJson? span, ← required bool? quoted⟩
  | _ => none

/-- The kind of value that a JSON value names. -/
def ValueKind.ofJson? (json : Json) : Option ValueKind :=
  (bareName? json).bind ValueKind.ofName?

/-- The value that a JSON value holds. -/
def Value.ofJson? (json : Json) : Option Value := do
  match ← parts? ["token", "span", "kind", "escaped"] json with
  | [token, span, kind, escaped] =>
      return ⟨← required string? token, ← required Span.ofJson? span,
        ← required ValueKind.ofJson? kind, ← required bool? escaped⟩
  | _ => none

/-- The operator that a JSON value names. -/
def Operator.ofJson? (json : Json) : Option Operator :=
  (bareName? json).bind Operator.ofName?

namespace Expr

/-- The expression that an alternative holds, given a reader of its parts. -/
def ofAlternative? (decode : Json → Option Expr) (name : String) (content : Json) :
    Option Expr :=
  match name with
  | "Field" => (Path.ofJson? content).map .field
  | "Value" => (Value.ofJson? content).map .value
  | "Binary" => do
      match ← parts? ["left", "operator", "right"] content with
      | [left, operator, right] =>
          return .binary (← required Operator.ofJson? operator) (← required decode left)
            (← required decode right)
      | _ => none
  | "Between" => do
      match ← parts? ["source", "min", "max"] content with
      | [subject, low, high] =>
          return .between (← required Path.ofJson? subject) (← required Value.ofJson? low)
            (← required Value.ofJson? high)
      | _ => none
  | "In" => do
      match ← parts? ["source", "values", "all"] content with
      | [subject, values, all] =>
          return .within (← required Path.ofJson? subject)
            (← required (list? Value.ofJson?) values) (← required bool? all)
      | _ => none
  | "Method" => do
      match ← parts? ["name", "span", "escaped", "arguments"] content with
      | [name, span, quoted, arguments] =>
          return .call
            ⟨← required string? name, ← required Span.ofJson? span, ← required bool? quoted⟩
            (← required (list? decode) arguments)
      | _ => none
  | "True" =>
      match content with
      | .null => some .truth
      | _ => none
  | _ => none

/-- The expression that a JSON value of at most this height holds. -/
def ofJsonWithin? : (height : Nat) → Json → Option Expr
  | 0, _ => none
  | _ + 1, .string name => if name = "True" then some .truth else none
  | height + 1, .object [(name, content)] => ofAlternative? (ofJsonWithin? height) name content
  | _ + 1, _ => none

/-- The expression that a JSON value holds. -/
def ofJson? (json : Json) : Option Expr :=
  ofJsonWithin? json.height json

end Expr

/-- The script that a JSON value holds. -/
def Script.ofJson? (json : Json) : Option Script := do
  match ← parts? ["text", "span"] json with
  | [text, span] => return ⟨← required string? text, ← required Span.ofJson? span⟩
  | _ => none

/-- The declared functions that a JSON value holds. -/
def Functions.ofJson? : Json → Option Functions
  | .object members => do
      let entries ← members.mapM fun member => do
        return (member.1, ← Script.ofJson? member.2)
      return .ofList entries
  | _ => none

/-- The source that a JSON value holds. -/
def Source.ofJson? (json : Json) : Option Source := do
  match ← parts? ["source", "alias", "filter", "is_index"] json with
  | [name, asName, filter, isIndex] =>
      return ⟨← required Path.ofJson? name, ← optional string? asName,
        ← optional Expr.ofJson? filter, ← required bool? isIndex⟩
  | _ => none

/-- The sort type that a JSON value names. -/
def SortType.ofJson? (json : Json) : Option SortType :=
  (bareName? json).bind SortType.ofName?

/-- The term of ORDER BY that a JSON value holds. -/
def OrderTerm.ofJson? (json : Json) : Option OrderTerm := do
  match ← parts? ["expression", "ordering", "ascending"] json with
  | [key, sortType, ascending] =>
      return ⟨← required Expr.ofJson? key, ← required SortType.ofJson? sortType,
        ← required bool? ascending⟩
  | _ => none

/-- The entry of SELECT or LOAD that a JSON value holds. -/
def Projection.ofJson? (json : Json) : Option Projection := do
  match ← parts? ["expression", "alias"] json with
  | [body, asName] => return ⟨← required Expr.ofJson? body, ← optional string? asName⟩
  | _ => none

/-- The query that a JSON value holds. -/
def Query.ofJson? (json : Json) : Option Query := do
  match ← parts?
      ["query_text", "declared_functions", "from", "group_by", "where_clause", "order_by",
       "load", "select", "select_function_body", "update_body", "include", "is_distinct"]
      json with
  | [text, functions, source, groupBy, filter, orderBy, load, select, selectScript,
     updateScript, includes, distinct] =>
      return {
        text := ← required string? text
        functions := ← required Functions.ofJson? functions
        source := ← required Source.ofJson? source
        groupBy := ← optional (list? Path.ofJson?) groupBy
        filter := ← optional Expr.ofJson? filter
        orderBy := ← optional (list? OrderTerm.ofJson?) orderBy
        load := ← optional (list? Projection.ofJson?) load
        select := ← optional (list? Projection.ofJson?) select
        selectScript := ← optional Script.ofJson? selectScript
        updateScript := ← optional Script.ofJson? updateScript
        includes := ← optional (list? Expr.ofJson?) includes
        distinct := ← required bool? distinct }
  | _ => none

end DocQuery
