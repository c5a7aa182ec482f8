import DocQuery.Expr.Render
import DocQuery.Query.Basic

/-!
# Canonical text of a query

Each clause has a line of its own, each declared function a line in front.  An
alias is written with AS, but not where it is the text of the value that it
names.
-/

namespace DocQuery

/-- An alias with the word in front of it. -/
def renderAlias (asName : String) : String :=
  " AS " ++ if Path.isBare asName.toList then asName else Text.inQuotes asName

namespace Path

/-- The path can name a source without quotes. -/
def isBareName (path : Path) : Bool :=
  !path.quoted && !path.text.toList.any (fun c => c == '.' || c == '[') &&
    isBare path.text.toList

end Path

namespace Source

/-- The canonical text of the FROM clause. -/
def render (source : Source) : String :=
  (if source.isIndex then "FROM INDEX " else "FROM ") ++
    (if source.name.isBareName then source.name.text else Text.inQuotes source.name.text) ++
    (source.filter.map fun filter => "(" ++ filter.render ++ ")").getD "" ++
    (source.asName.map renderAlias).getD ""

end Source

namespace OrderTerm

/-- The canonical text of a term of ORDER BY. -/
def render (term : OrderTerm) : String :=
  term.key.render ++ (term.sortType.text?.map (" AS " ++ ·)).getD "" ++
    if term.ascending then "" else " DESC"

end OrderTerm

namespace Projection

/-- The canonical text of an entry of SELECT or LOAD. -/
def render (projection : Projection) : String :=
  projection.body.render ++
    if projection.hasInferredAlias then "" else (projection.asName.map renderAlias).getD ""

end Projection

namespace Query

/-- A line break, the words of a clause and its text, or nothing without the clause. -/
def renderClause {α : Type} (words : String) (render : α → String) : Option α → String
  | none => ""
  | some clause => "\n" ++ words ++ " " ++ render clause

/-- The texts of a list of items with commas between them. -/
def renderList {α : Type} (render : α → String) (items : List α) : String :=
  Expr.commaSeparated (items.map render)

/-- The text behind SELECT and DISTINCT, if there is anything to select. -/
def selection? (query : Query) : Option String :=
  match query.selectScript, query.select with
  | some script, _ => some script.text
  | none, some (entry :: entries) => some (renderList Projection.render (entry :: entries))
  | none, _ => if query.distinct then some "*" else none

/-- The canonical text of a query. -/
def render (query : Query) : String :=
  String.join (query.functions.entries.map fun entry => "DECLARE " ++ entry.2.text ++ "\n") ++
    query.source.render ++
    renderClause "GROUP BY" (renderList Path.render) query.groupBy ++
    renderClause "WHERE" Expr.render query.filter ++
    renderClause "ORDER BY" (renderList OrderTerm.render) query.orderBy ++
    renderClause "LOAD" (renderList Projection.render) query.load ++
    renderClause (if query.distinct then "SELECT DISTINCT" else "SELECT") id query.selection? ++
    renderClause "INCLUDE" (renderList Expr.render) query.includes ++
    renderClause "UPDATE" Script.text query.updateScript

end Query

end DocQuery
