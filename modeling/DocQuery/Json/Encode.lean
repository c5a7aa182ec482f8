import DocQuery.Json.Basic
import DocQuery.Query.Basic

/-!
# Queries as JSON

A record is an object with a member for each part, an alternative an object with
its name as the only member, or its name alone if it has no content.  A part
that is missing is null.
-/

namespace DocQuery

/-- A span as JSON. -/
def Span.toJson (span : Span) : Json :=
  .object [("start", .ofNat span.start), ("length", .ofNat span.length)]

/-- A path as JSON. -/
def Path.toJson (path : Path) : Json :=
  .object
    [("path", .string path.text), ("span", path.span.toJson), ("escaped", .bool path.quoted)]

/-- A value as JSON. -/
def Value.toJson (value : Value) : Json :=
  .object
    [("token", .string value.token), ("span", value.span.toJson),
     ("kind", .string value.kind.name), ("escaped", .bool value.escaped)]

namespace Expr

/-- A call as JSON, with the parts of its name in place. -/
def callToJson (name : Path) (arguments : List Json) : Json :=
  .object
    [("name", .string name.text), ("span", name.span.toJson), ("escaped", .bool name.quoted),
     ("arguments", .array arguments)]

mutual

/-- An expression as JSON. -/
def toJson : Expr → Json
  | .field path => .object [("Field", path.toJson)]
  | .value v => .object [("Value", v.toJson)]
  | .binary operator left right =>
      .object [("Binary", .object
        [("left", left.toJson), ("operator", .string operator.name), ("right", right.toJson)])]
  | .between subject low high =>
      .object [("Between", .object
        [("source", subject.toJson), ("min", low.toJson), ("max", high.toJson)])]
  | .within subject values all =>
      .object [("In", .object
        [("source", subject.toJson), ("values", .ofList Value.toJson values),
         ("all", .bool all)])]
  | .call name arguments => .object [("Method", callToJson name (toJsonAll arguments))]
  | .truth => .string "True"

/-- Expressions as JSON. -/
def toJsonAll : List Expr → List Json
  | [] => []
  | e :: es => e.toJson :: toJsonAll es

end

end Expr

/-- A script as JSON. -/
def Script.toJson (script : Script) : Json :=
  .object [("text", .string script.text), ("span", script.span.toJson)]

/-- Declared functions as JSON, with a member for each name. -/
def Functions.toJson (functions : Functions) : Json :=
  .object (functions.entries.map fun entry => (entry.1, entry.2.toJson))

/-- A source as JSON. -/
def Source.toJson (source : Source) : Json :=
  .object
    [("source", source.name.toJson), ("alias", .ofOption .string source.asName),
     ("filter", .ofOption Expr.toJson source.filter), ("is_index", .bool source.isIndex)]

/-- A term of ORDER BY as JSON. -/
def OrderTerm.toJson (term : OrderTerm) : Json :=
  .object
    [("expression", term.key.toJson), ("ordering", .string term.sortType.name),
     ("ascending", .bool term.ascending)]

/-- An entry of SELECT or LOAD as JSON. -/
def Projection.toJson (entry : Projection) : Json :=
  .object [("expression", entry.body.toJson), ("alias", .ofOption .string entry.asName)]

/-- A query as JSON. -/
def Query.toJson (query : Query) : Json :=
  .object
    [("query_text", .string query.text),
     ("declared_functions", query.functions.toJson),
     ("from", query.source.toJson),
     ("group_by", .ofOption (.ofList Path.toJson) query.groupBy),
     ("where_clause", .ofOption Expr.toJson query.filter),
     ("order_by", .ofOption (.ofList OrderTerm.toJson) query.orderBy),
     ("load", .ofOption (.ofList Projection.toJson) query.load),
     ("select", .ofOption (.ofList Projection.toJson) query.select),
     ("select_function_body", .ofOption Script.toJson query.selectScript),
     ("update_body", .ofOption Script.toJson query.updateScript),
     ("include", .ofOption (.ofList Expr.toJson) query.includes),
     ("is_distinct", .bool query.distinct)]

end DocQuery
