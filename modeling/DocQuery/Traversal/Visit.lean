import DocQuery.Query.Render

/-!
# The nodes of a query in order

A visit lists the nodes of a query from the top down: declared functions, source,
groups, filter, order, load, selection, scripts, includes.  What is below a node
is listed only if the caller wants to go into it.  A visit looks neither into
the filter of a source nor into the fields of GROUP BY, it takes a filter only if
it is a comparison or joins conditions, and it leaves out the subject of a
membership test.
-/

namespace DocQuery

/-- A place in a query that a visit or a pass comes to. -/
inductive Node where
  | query (query : Query)
  | functions (functions : Functions)
  | function (name : String) (script : Script)
  | source (source : Source) (distinct : Bool)
  | groupBy (fields : List Path)
  | filter (operator : Operator) (left right : Expr)
  /-- A filter that is a comparison. -/
  | comparisonFilter (operator : Operator) (left right : Expr)
  /-- A filter that joins conditions. -/
  | connectiveFilter (operator : Operator) (left right : Expr)
  | orderBy (terms : List OrderTerm)
  | load (entries : List Projection)
  | select (entries : List Projection)
  | selectScript (script : Script)
  | updateScript (script : Script)
  | includes (entries : List Expr)
  | expr (e : Expr)
  | field (path : Path)
  | value (value : Value)
  | binary (operator : Operator) (left right : Expr)
  | between (subject : Path) (low high : Value)
  | within (subject : Path) (values : List Value) (all : Bool)
  | call (name : Path) (arguments : List Expr)
  | truth

/-- A field or a value, where an expression ends. -/
inductive Leaf where
  | field (path : Path)
  | value (value : Value)
  deriving DecidableEq, Repr

namespace Node

/-- The leaf that the node is. -/
def leaf? : Node → Option Leaf
  | field path => some (.field path)
  | value v => some (.value v)
  | _ => none

/-- The node, and what is below it if the caller goes into it. -/
def above (into : Node → Bool) (node : Node) (below : List Node) : List Node :=
  node :: if into node then below else []

end Node

namespace Expr

mutual

/-- The nodes of an expression. -/
def visit (into : Node → Bool) : Expr → List Node
  | .field path => Node.above into (.expr (.field path)) [.field path]
  | .value v => Node.above into (.expr (.value v)) [.value v]
  | .binary operator left right =>
      Node.above into (.expr (.binary operator left right))
        (Node.above into (.binary operator left right)
          (left.visit into ++ right.visit into))
  | .between subject low high =>
      Node.above into (.expr (.between subject low high))
        (Node.above into (.between subject low high)
          [.field subject, .value low, .value high])
  | .within subject values all =>
      Node.above into (.expr (.within subject values all))
        (Node.above into (.within subject values all) (values.map Node.value))
  | .call name arguments =>
      Node.above into (.expr (.call name arguments))
        (Node.above into (.call name arguments) (visitAll into arguments))
  | .truth => Node.above into (.expr .truth) [.truth]

/-- The nodes of several expressions in their order. -/
def visitAll (into : Node → Bool) : List Expr → List Node
  | [] => []
  | e :: es => e.visit into ++ visitAll into es

end

/-- The nodes of a filter that is a comparison or joins conditions. -/
def visitFilter (into : Node → Bool) : Expr → List Node
  | .binary (.compare comparison) left right =>
      Node.above into (.filter (.compare comparison) left right)
        [.comparisonFilter (.compare comparison) left right]
  | .binary (.connect connective) left right =>
      Node.above into (.filter (.connect connective) left right)
        (Node.above into (.connectiveFilter (.connect connective) left right)
          (left.visit into ++ right.visit into))
  | _ => []

end Expr

namespace Query

/-- The nodes below a clause, or none without the clause. -/
def visitClause {α : Type} (visit : α → List Node) : Option α → List Node
  | none => []
  | some clause => visit clause

/-- The nodes of the declared functions, if there are any. -/
def visitFunctions (into : Node → Bool) (functions : Functions) : List Node :=
  if functions.entries.isEmpty then []
  else
    Node.above into (.functions functions)
      (functions.entries.map fun entry => .function entry.1 entry.2)

/-- The nodes of a query that a visit comes to when it goes into some of them. -/
def visit (into : Node → Bool) (query : Query) : List Node :=
  Node.above into (.query query)
    (visitFunctions into query.functions ++
      [.source query.source query.distinct] ++
      visitClause (fun fields => [.groupBy fields]) query.groupBy ++
      visitClause (Expr.visitFilter into) query.filter ++
      visitClause (fun terms => Node.above into (.orderBy terms)
        (Expr.visitAll into (terms.map OrderTerm.key))) query.orderBy ++
      visitClause (fun entries => Node.above into (.load entries)
        (Expr.visitAll into (entries.map Projection.body))) query.load ++
      visitClause (fun entries => Node.above into (.select entries)
        (Expr.visitAll into (entries.map Projection.body))) query.select ++
      visitClause (fun script => [.selectScript script]) query.selectScript ++
      visitClause (fun script => [.updateScript script]) query.updateScript ++
      visitClause (fun entries => Node.above into (.includes entries)
        (Expr.visitAll into entries)) query.includes)

/-- The fields and values that a visit of the whole query comes to. -/
def visitLeaves (query : Query) : List Leaf :=
  (query.visit fun _ => true).filterMap Node.leaf?

end Query

end DocQuery
