import DocQuery.Query.Basic
import DocQuery.Text.Unseen

/-!
# Outlines

An outline is a query written out part by part with the names of the parts, each
on a line of its own.  Texts are quoted, with characters that do not show given
by their numbers.
-/

namespace DocQuery

/-- A text by parts. -/
inductive Outline where
  | word (text : String)
  | record (name : String) (parts : List (String × Outline))
  | wrapped (name : String) (inner : Outline)
  | list (items : List Outline)
  | table (entries : List (String × Outline))

namespace Outline

/-- A character as it stands in a quoted text. -/
def escapeChar (c : Char) : List Char :=
  if c = '\x00' then ['\\', '0']
  else if c = '\t' then ['\\', 't']
  else if c = '\r' then ['\\', 'r']
  else if c = '\n' then ['\\', 'n']
  else if c = '\"' then ['\\', '\"']
  else if c = '\\' then ['\\', '\\']
  else if Text.isUnseen c then
    ['\\', 'u', '{'] ++ Nat.toDigits 16 c.toNat ++ ['}']
  else [c]

/-- A text with its quotes. -/
def quote (text : String) : String :=
  "\"" ++ String.ofList (text.toList.flatMap escapeChar) ++ "\""

/-- The space in front of a line. -/
def indent (depth : Nat) : String :=
  String.ofList (List.replicate (4 * depth) ' ')

/-- Lines between two brackets, each with a comma behind it, or the brackets alone. -/
def block (depth : Nat) (first last : String) (lines : List String) : String :=
  if lines.isEmpty then first ++ last
  else
    first ++ "\n" ++ String.join (lines.map (indent (depth + 1) ++ · ++ ",\n")) ++
      indent depth ++ last

mutual

/-- The text of an outline inside of so many others. -/
def render (depth : Nat) : Outline → String
  | .word text => text
  | .record name parts =>
      block depth (name ++ " \x7b") "\x7d" (renderParts (depth + 1) parts)
  | .wrapped name inner => block depth (name ++ "(") ")" [inner.render (depth + 1)]
  | .list items => block depth "[" "]" (renderItems (depth + 1) items)
  | .table entries => block depth "\x7b" "\x7d" (renderParts (depth + 1) entries)

/-- The texts of items. -/
def renderItems (depth : Nat) : List Outline → List String
  | [] => []
  | item :: items => item.render depth :: renderItems depth items

/-- The texts of parts behind their names. -/
def renderParts (depth : Nat) : List (String × Outline) → List String
  | [] => []
  | (name, part) :: parts => (name ++ ": " ++ part.render depth) :: renderParts depth parts

end

/-! ## Outlines of parts -/

/-- A text in quotes. -/
def ofText (text : String) : Outline := .word (quote text)

/-- A truth value. -/
def ofBool (b : Bool) : Outline := .word (if b then "true" else "false")

/-- A number. -/
def ofNat (n : Nat) : Outline := .word (toString n)

/-- A part that may be missing. -/
def ofOption {α : Type} (outline : α → Outline) : Option α → Outline
  | none => .word "None"
  | some a => .wrapped "Some" (outline a)

/-- A list of parts. -/
def ofList {α : Type} (outline : α → Outline) (items : List α) : Outline :=
  .list (items.map outline)

end Outline

/-! ## Outlines of queries -/

/-- The outline of a span. -/
def Span.outline (span : Span) : Outline :=
  .record "Span" [("start", .ofNat span.start), ("length", .ofNat span.length)]

/-- The outline of a path. -/
def Path.outline (path : Path) : Outline :=
  .record "FieldExpression"
    [("path", .ofText path.text), ("span", path.span.outline), ("escaped", .ofBool path.quoted)]

/-- The outline of a value. -/
def Value.outline (value : Value) : Outline :=
  .record "ValueExpression"
    [("token", .ofText value.token), ("span", value.span.outline),
     ("kind", .word value.kind.name), ("escaped", .ofBool value.escaped)]

namespace Expr

mutual

/-- The outline of an expression. -/
def outline : Expr → Outline
  | .field path => .wrapped "Field" path.outline
  | .value v => .wrapped "Value" v.outline
  | .binary operator left right =>
      .wrapped "Binary" (.record "BinaryExpression"
        [("left", left.outline), ("operator", .word operator.name), ("right", right.outline)])
  | .between subject low high =>
      .wrapped "Between" (.record "BetweenExpression"
        [("source", subject.outline), ("min", low.outline), ("max", high.outline)])
  | .within subject values all =>
      .wrapped "In" (.record "InExpression"
        [("source", subject.outline), ("values", .ofList Value.outline values),
         ("all", .ofBool all)])
  | .call name arguments =>
      .wrapped "Method" (.record "MethodExpression"
        [("name", .ofText name.text), ("span", name.span.outline),
         ("escaped", .ofBool name.quoted), ("arguments", .list (outlineAll arguments))])
  | .truth => .word "True"

/-- The outlines of expressions. -/
def outlineAll : List Expr → List Outline
  | [] => []
  | e :: es => e.outline :: outlineAll es

end

end Expr

/-- The outline of a script. -/
def Script.outline (script : Script) : Outline :=
  .record "FunctionBody" [("text", .ofText script.text), ("span", script.span.outline)]

/-- The outline of declared functions. -/
def Functions.outline (functions : Functions) : Outline :=
  .table (functions.entries.map fun entry => (Outline.quote entry.1, entry.2.outline))

/-- The outline of a source. -/
def Source.outline (source : Source) : Outline :=
  .record "FromClause"
    [("source", source.name.outline), ("alias", .ofOption .ofText source.asName),
     ("filter", .ofOption Expr.outline source.filter), ("is_index", .ofBool source.isIndex)]

/-- The outline of a term of ORDER BY. -/
def OrderTerm.outline (term : OrderTerm) : Outline :=
  .record "OrderByField"
    [("expression", term.key.outline), ("ordering", .word term.sortType.name),
     ("ascending", .ofBool term.ascending)]

/-- The outline of an entry of SELECT or LOAD. -/
def Projection.outline (entry : Projection) : Outline :=
  .record "SelectField"
    [("expression", entry.body.outline), ("alias", .ofOption .ofText entry.asName)]

/-- The outline of a query. -/
def Query.outline (query : Query) : Outline :=
  .record "Query"
    [("query_text", .ofText query.text),
     ("declared_functions", query.functions.outline),
     ("from", query.source.outline),
     ("group_by", .ofOption (.ofList Path.outline) query.groupBy),
     ("where_clause", .ofOption Expr.outline query.filter),
     ("order_by", .ofOption (.ofList OrderTerm.outline) query.orderBy),
     ("load", .ofOption (.ofList Projection.outline) query.load),
     ("select", .ofOption (.ofList Projection.outline) query.select),
     ("select_function_body", .ofOption Script.outline query.selectScript),
     ("update_body", .ofOption Script.outline query.updateScript),
     ("include", .ofOption (.ofList Expr.outline) query.includes),
     ("is_distinct", .ofBool query.distinct)]

end DocQuery
