import DocQuery.Traversal.Visit

/-!
# Passes that transform a query

A pass says what becomes of a query at each kind of node.  Fields, values and
scripts are replaced.  At any other node the pass either settles what stands
there from now on, or goes on to the parts of the node and may change the word
of the node itself: its operator, its name, or the items of its list.  A pass
comes to every expression, the filter of a source and any other filter included.
-/

namespace DocQuery

/-- What a pass does at a node that has parts. -/
inductive Turn (label node : Type) where
  /-- The node that stands there from now on, parts and all. -/
  | settle (node : node)
  /-- Go on to the parts below this label. -/
  | enter (label : label)

/-- What a pass does at each kind of node. -/
structure Pass (m : Type → Type) where
  query : Query → m (Turn Query Query)
  functions : Functions → m (Turn Functions Functions)
  function : String → Script → m Script
  source : Source → (distinct : Bool) → m (Turn Source Source)
  groupBy : List Path → m (Turn (List Path) (List Path))
  filter : Operator → Expr → Expr → m (Turn Operator Expr)
  comparisonFilter : Operator → Expr → Expr → m (Turn Operator Expr)
  connectiveFilter : Operator → Expr → Expr → m (Turn Operator Expr)
  orderBy : List OrderTerm → m (Turn (List OrderTerm) (List OrderTerm))
  load : List Projection → m (Turn (List Projection) (List Projection))
  select : List Projection → m (Turn (List Projection) (List Projection))
  selectScript : Script → m Script
  updateScript : Script → m Script
  includes : List Expr → m (Turn (List Expr) (List Expr))
  /-- What replaces an expression, or nothing to go on to its kind. -/
  expr : Expr → m (Option Expr)
  field : Path → m Path
  value : Value → m Value
  binary : Operator → Expr → Expr → m (Turn Operator Expr)
  between : Path → Value → Value → m (Turn Unit Expr)
  within : Path → List Value → Bool → m (Turn Bool Expr)
  call : Path → List Expr → m (Turn Path Expr)
  truth : m Unit

namespace Pass

variable {m : Type → Type} [Monad m]

/-- The pass that comes everywhere and changes nothing. -/
def idle : Pass m where
  query q := pure (.enter q)
  functions fs := pure (.enter fs)
  function _ script := pure script
  source s _ := pure (.enter s)
  groupBy fields := pure (.enter fields)
  filter operator _ _ := pure (.enter operator)
  comparisonFilter operator _ _ := pure (.enter operator)
  connectiveFilter operator _ _ := pure (.enter operator)
  orderBy terms := pure (.enter terms)
  load entries := pure (.enter entries)
  select entries := pure (.enter entries)
  selectScript script := pure script
  updateScript script := pure script
  includes entries := pure (.enter entries)
  expr _ := pure none
  field path := pure path
  value v := pure v
  binary operator _ _ := pure (.enter operator)
  between _ _ _ := pure (.enter ())
  within _ _ all := pure (.enter all)
  call name _ := pure (.enter name)
  truth := pure ()

/-- The pass that changes fields and values alone. -/
def onLeaves (field : Path → m Path) (value : Value → m Value) : Pass m :=
  { idle with field := field, value := value }

/-- Settle a node, or rebuild it from its label. -/
def turn {label node : Type} (rebuild : label → m node) : Turn label node → m node
  | .settle node => pure node
  | .enter label => rebuild label

end Pass

variable {m : Type → Type} [Monad m]

namespace Expr

mutual

/-- The expression after a pass. -/
def transform (pass : Pass m) : Expr → m Expr
  | .field path => do
      match ← pass.expr (.field path) with
      | some e => return e
      | none => return .field (← pass.field path)
  | .value v => do
      match ← pass.expr (.value v) with
      | some e => return e
      | none => return .value (← pass.value v)
  | .binary operator left right => do
      match ← pass.expr (.binary operator left right) with
      | some e => return e
      | none =>
        match ← pass.binary operator left right with
        | .settle e => return e
        | .enter operator =>
          return .binary operator (← left.transform pass) (← right.transform pass)
  | .between subject low high => do
      match ← pass.expr (.between subject low high) with
      | some e => return e
      | none =>
        match ← pass.between subject low high with
        | .settle e => return e
        | .enter _ =>
          return .between (← pass.field subject) (← pass.value low) (← pass.value high)
  | .within subject values all => do
      match ← pass.expr (.within subject values all) with
      | some e => return e
      | none =>
        match ← pass.within subject values all with
        | .settle e => return e
        | .enter all => return .within (← pass.field subject) (← values.mapM pass.value) all
  | .call name arguments => do
      match ← pass.expr (.call name arguments) with
      | some e => return e
      | none =>
        match ← pass.call name arguments with
        | .settle e => return e
        | .enter name => return .call name (← transformAll pass arguments)
  | .truth => do
      match ← pass.expr .truth with
      | some e => return e
      | none =>
        pass.truth
        return .truth

/-- Several expressions after a pass. -/
def transformAll (pass : Pass m) : List Expr → m (List Expr)
  | [] => pure []
  | e :: es => do return (← e.transform pass) :: (← transformAll pass es)

end

/-- A filter after a pass; its top is no expression among others. -/
def transformFilter (pass : Pass m) : Expr → m Expr
  | .binary operator left right => do
      match ← pass.filter operator left right with
      | .settle e => return e
      | .enter operator =>
        let parts (operator : Operator) : m Expr := do
          return .binary operator (← left.transform pass) (← right.transform pass)
        match operator with
        | .compare _ => Pass.turn parts (← pass.comparisonFilter operator left right)
        | .connect _ => Pass.turn parts (← pass.connectiveFilter operator left right)
  | e => e.transform pass

end Expr

/-- The declared functions after a pass. -/
def Functions.transform (pass : Pass m) (functions : Functions) : m Functions := do
  if functions.entries.isEmpty then return functions
  else
    Pass.turn (fun functions => do
      let entries ← functions.entries.mapM fun entry => do
        return (entry.1, ← pass.function entry.1 entry.2)
      return .ofList entries) (← pass.functions functions)

/-- The source after a pass. -/
def Source.transform (pass : Pass m) (distinct : Bool) (source : Source) : m Source := do
  Pass.turn (fun source => do
    return { source with filter := ← source.filter.mapM (Expr.transform pass) })
    (← pass.source source distinct)

/-- A term of ORDER BY after a pass. -/
def OrderTerm.transform (pass : Pass m) (term : OrderTerm) : m OrderTerm := do
  return { term with key := ← term.key.transform pass }

/-- An entry of SELECT or LOAD after a pass. -/
def Projection.transform (pass : Pass m) (entry : Projection) : m Projection := do
  return { entry with body := ← entry.body.transform pass }

namespace Query

/-- A list of items after a pass that has a say on the list and on each item. -/
def transformList {α : Type} (turn : List α → m (Turn (List α) (List α))) (item : α → m α)
    (items : List α) : m (List α) := do
  Pass.turn (fun items => items.mapM item) (← turn items)

/-- A query after a pass. -/
@[nospecialize]
def transform (pass : Pass m) (query : Query) : m Query := do
  Pass.turn (fun query => do
    let functions ← query.functions.transform pass
    let source ← query.source.transform pass query.distinct
    let groupBy ← query.groupBy.mapM (transformList pass.groupBy pass.field)
    let filter ← query.filter.mapM (Expr.transformFilter pass)
    let orderBy ← query.orderBy.mapM (transformList pass.orderBy (OrderTerm.transform pass))
    let load ← query.load.mapM (transformList pass.load (Projection.transform pass))
    let select ← query.select.mapM (transformList pass.select (Projection.transform pass))
    let selectScript ← query.selectScript.mapM pass.selectScript
    let updateScript ← query.updateScript.mapM pass.updateScript
    let includes ← query.includes.mapM (transformList pass.includes (Expr.transform pass))
    return { query with
      functions := functions, source := source, groupBy := groupBy, filter := filter,
      orderBy := orderBy, load := load, select := select, selectScript := selectScript,
      updateScript := updateScript, includes := includes })
    (← pass.query query)

end Query

end DocQuery
