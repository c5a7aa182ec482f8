import DocQuery.Proofs.Traversal.Rewriting

/-!
# Visits and passes side by side

A visit comes to the leaves of a query in the order of a pass, but not to all of
them: it leaves the filter of the source and GROUP BY alone, looks into a filter
only below a connective, and skips the subject of a membership test.  The main
statement is `Query.visitLeaves_eq_filter`.
-/

namespace DocQuery

/-- A clause that has leaves. -/
inductive Region where
  | sourceFilter | groupBy | filter | orderBy | load | select | includes
  deriving DecidableEq

namespace Region

/-- The clauses in the order of a text. -/
def all : List Region :=
  [sourceFilter, groupBy, filter, orderBy, load, select, includes]

end Region

/-- A leaf where it stands in a query. -/
structure Occurrence where
  leaf : Leaf
  region : Region
  /-- The leaf is the subject of a membership test. -/
  isTested : Bool

/-- A visit that goes into a node comes to the leaves below it. -/
theorem Node.filterMap_above {node : Node} (hnode : node.leaf? = none) (below : List Node) :
    (Node.above (fun _ => true) node below).filterMap leaf? = below.filterMap leaf? := by
  rw [above, List.filterMap_cons_none hnode, if_pos rfl]

/-! ## Expressions -/

namespace Expr

mutual

/-- The leaves of an expression in a clause. -/
def occurrences (region : Region) : Expr → List Occurrence
  | .field path => [⟨.field path, region, false⟩]
  | .value v => [⟨.value v, region, false⟩]
  | .binary _ left right => left.occurrences region ++ right.occurrences region
  | .between subject low high =>
      [⟨.field subject, region, false⟩, ⟨.value low, region, false⟩, ⟨.value high, region, false⟩]
  | .within subject values _ =>
      ⟨.field subject, region, true⟩ :: values.map fun v => ⟨.value v, region, false⟩
  | .call _ arguments => occurrencesOf region arguments
  | .truth => []

/-- The leaves of several expressions in a clause. -/
def occurrencesOf (region : Region) : List Expr → List Occurrence
  | [] => []
  | e :: es => e.occurrences region ++ occurrencesOf region es

end

/-- The leaves of an expression that a visit comes to. -/
def visited (e : Expr) : List Leaf :=
  (e.visit fun _ => true).filterMap Node.leaf?

/-- The leaves of several expressions that a visit comes to. -/
def visitedOf (es : List Expr) : List Leaf :=
  (visitAll (fun _ => true) es).filterMap Node.leaf?

theorem visited_binary (operator : Operator) (left right : Expr) :
    (binary operator left right).visited = left.visited ++ right.visited := by
  rw [visited, visit, Node.filterMap_above rfl, Node.filterMap_above rfl, List.filterMap_append]
  rfl

theorem visited_within (subject : Path) (values : List Value) (all : Bool) :
    (within subject values all).visited = values.map Leaf.value := by
  rw [visited, visit, Node.filterMap_above rfl, Node.filterMap_above rfl, List.filterMap_map]
  exact congrFun (List.filterMap_eq_map' (f := Leaf.value)) values

theorem visited_call (name : Path) (arguments : List Expr) :
    (call name arguments).visited = visitedOf arguments := by
  rw [visited, visit, Node.filterMap_above rfl, Node.filterMap_above rfl]
  rfl

theorem visitedOf_cons (e : Expr) (es : List Expr) :
    visitedOf (e :: es) = e.visited ++ visitedOf es := by
  rw [visitedOf, visitAll, List.filterMap_append]
  rfl

theorem visitedOf_eq_flatMap (es : List Expr) : visitedOf es = es.flatMap visited := by
  induction es with
  | nil => rfl
  | cons e es ih => rw [visitedOf_cons, ih, List.flatMap_cons]

variable (region : Region)

mutual

theorem map_leaf_occurrences : (e : Expr) →
    (e.occurrences region).map Occurrence.leaf = e.leaves
  | .field _ => rfl
  | .value _ => rfl
  | .binary _ left right => by
      rw [occurrences, leaves, List.map_append, map_leaf_occurrences left,
        map_leaf_occurrences right]
  | .between _ _ _ => rfl
  | .within _ values _ => by
      simp [occurrences, leaves]
  | .call _ arguments => map_leaf_occurrencesOf arguments
  | .truth => rfl

theorem map_leaf_occurrencesOf : (es : List Expr) →
    (occurrencesOf region es).map Occurrence.leaf = leavesOf es
  | [] => rfl
  | e :: es => by
      rw [occurrencesOf, leavesOf, List.map_append, map_leaf_occurrences e,
        map_leaf_occurrencesOf es]

end

mutual

theorem region_of_mem_occurrences : (e : Expr) →
    ∀ o ∈ e.occurrences region, o.region = region
  | .field _ => by simp [occurrences]
  | .value _ => by simp [occurrences]
  | .binary _ left right => by
      intro o hmem
      rcases List.mem_append.mp hmem with hmem | hmem
      · exact region_of_mem_occurrences left o hmem
      · exact region_of_mem_occurrences right o hmem
  | .between _ _ _ => by simp [occurrences]
  | .within _ _ _ => by simp [occurrences]
  | .call _ arguments => region_of_mem_occurrencesOf arguments
  | .truth => by simp [occurrences]

theorem region_of_mem_occurrencesOf : (es : List Expr) →
    ∀ o ∈ occurrencesOf region es, o.region = region
  | [] => by simp [occurrencesOf]
  | e :: es => by
      intro o hmem
      rcases List.mem_append.mp hmem with hmem | hmem
      · exact region_of_mem_occurrences e o hmem
      · exact region_of_mem_occurrencesOf es o hmem

end

mutual

/-- Within an expression a visit skips the subjects of membership tests alone. -/
theorem visited_eq_filter : (e : Expr) →
    e.visited = ((e.occurrences region).filter fun o => !o.isTested).map Occurrence.leaf
  | .field _ => rfl
  | .value _ => rfl
  | .binary _ left right => by
      rw [visited_binary, visited_eq_filter left, visited_eq_filter right, occurrences,
        List.filter_append, List.map_append]
  | .between _ _ _ => rfl
  | .within _ values _ => by
      have hkept : (values.map fun v => (⟨.value v, region, false⟩ : Occurrence)).filter
          (fun o => !o.isTested) = values.map fun v => ⟨.value v, region, false⟩ :=
        List.filter_eq_self.mpr (by simp)
      rw [visited_within, occurrences, List.filter_cons_of_neg (by simp), hkept, List.map_map]
      rfl
  | .call _ arguments => by
      rw [visited_call, visitedOf_eq_filter arguments, occurrences]
  | .truth => rfl

theorem visitedOf_eq_filter : (es : List Expr) →
    visitedOf es = ((occurrencesOf region es).filter fun o => !o.isTested).map Occurrence.leaf
  | [] => rfl
  | e :: es => by
      rw [visitedOf_cons, visited_eq_filter e, visitedOf_eq_filter es, occurrencesOf,
        List.filter_append, List.map_append]

end

end Expr

/-! ## Queries -/

namespace Query

/-- The expressions of a clause; those of GROUP BY are fields. -/
def clause (query : Query) : Region → List Expr
  | .sourceFilter => query.source.filter.toList
  | .groupBy => query.groupBy.toList.flatMap (List.map Expr.field)
  | .filter => query.filter.toList
  | .orderBy => query.orderBy.toList.flatMap (List.map OrderTerm.key)
  | .load => query.load.toList.flatMap (List.map Projection.body)
  | .select => query.select.toList.flatMap (List.map Projection.body)
  | .includes => query.includes.toList.flatMap id

/-- The leaves of a query where they stand. -/
def occurrences (query : Query) : List Occurrence :=
  Region.all.flatMap fun region => (query.clause region).flatMap (Expr.occurrences region)

/-- A visit looks into the clause. -/
def isVisited (query : Query) : Region → Bool
  | .sourceFilter | .groupBy => false
  | .filter => query.filter.any Expr.isConnective
  | .orderBy | .load | .select | .includes => true

/-- A visit leaves out the occurrence. -/
def isHidden (query : Query) (o : Occurrence) : Bool :=
  o.isTested || !query.isVisited o.region

theorem leaves_eq_flatMap (query : Query) :
    query.leaves = Region.all.flatMap fun region => (query.clause region).flatMap Expr.leaves := by
  have hclause : ∀ {α : Type} (toExpr : α → Expr) (items : Option (List α)),
      (items.toList.flatMap (List.map toExpr)).flatMap Expr.leaves =
        clauseLeaves (fun item => (toExpr item).leaves) items := by
    intro α toExpr items
    cases items <;> simp [clauseLeaves, List.flatMap_map]
  have hincludes : (query.includes.toList.flatMap id).flatMap Expr.leaves =
      clauseLeaves Expr.leaves query.includes :=
    List.flatMap_assoc
  simp only [Region.all, List.flatMap_cons, List.flatMap_nil, List.append_nil, clause, hclause,
    hincludes, leaves, List.append_assoc]
  rfl

/-- Declared functions have no leaves. -/
theorem filterMap_visitFunctions (functions : Functions) :
    (visitFunctions (fun _ => true) functions).filterMap Node.leaf? = [] := by
  unfold visitFunctions
  split
  · rfl
  · rw [Node.filterMap_above rfl, List.filterMap_map]
    exact List.filterMap_eq_nil_iff.mpr fun _ _ => rfl

/-- A clause that is listed by itself. -/
theorem filterMap_visitClause_end {α : Type} (node : α → Node)
    (hnode : ∀ a, (node a).leaf? = none) (clause : Option α) :
    (visitClause (fun a => [node a]) clause).filterMap Node.leaf? = [] := by
  cases clause with
  | none => rfl
  | some a => exact List.filterMap_cons_none (hnode a)

/-- A clause that is listed with its expressions. -/
theorem filterMap_visitClause {α : Type} (node : List α → Node) (exprs : List α → List Expr)
    (hnode : ∀ items, (node items).leaf? = none) (clause : Option (List α)) :
    (visitClause (fun items => Node.above (fun _ => true) (node items)
      (Expr.visitAll (fun _ => true) (exprs items))) clause).filterMap Node.leaf? =
      (clause.toList.flatMap exprs).flatMap Expr.visited := by
  cases clause with
  | none => rfl
  | some items =>
      rw [visitClause, Node.filterMap_above (hnode items), Option.toList_some,
        List.flatMap_singleton]
      exact Expr.visitedOf_eq_flatMap (exprs items)

/-- A filter is looked into if it joins conditions. -/
theorem filterMap_visitFilter (filter : Option Expr) :
    (visitClause (Expr.visitFilter fun _ => true) filter).filterMap Node.leaf? =
      if filter.any Expr.isConnective then filter.toList.flatMap Expr.visited else [] := by
  match filter with
  | none => rfl
  | some (.binary (.compare _) _ _) => rfl
  | some (.binary (.connect connective) left right) =>
      have hvisited : (visitClause (Expr.visitFilter fun _ => true)
          (some (.binary (.connect connective) left right))).filterMap Node.leaf? =
          left.visited ++ right.visited := by
        rw [visitClause, Expr.visitFilter, Node.filterMap_above rfl, Node.filterMap_above rfl,
          List.filterMap_append]
        rfl
      rw [hvisited, ← Expr.visited_binary (.connect connective), Option.toList_some,
        List.flatMap_singleton]
      rfl
  | some (.field _) | some (.value _) | some (.between _ _ _) | some (.within _ _ _)
  | some (.call _ _) | some .truth => rfl

/-- A visit comes to the leaves that it finds in the clauses that it looks into. -/
theorem visitLeaves_eq_flatMap (query : Query) :
    query.visitLeaves = Region.all.flatMap fun region =>
      if query.isVisited region then (query.clause region).flatMap Expr.visited else [] := by
  have horder := filterMap_visitClause .orderBy (List.map OrderTerm.key) (fun _ => rfl)
    query.orderBy
  have hload := filterMap_visitClause .load (List.map Projection.body) (fun _ => rfl) query.load
  have hselect := filterMap_visitClause .select (List.map Projection.body) (fun _ => rfl)
    query.select
  have hincludes : (visitClause (fun entries => Node.above (fun _ => true) (.includes entries)
      (Expr.visitAll (fun _ => true) entries)) query.includes).filterMap Node.leaf? =
      (query.includes.toList.flatMap id).flatMap Expr.visited :=
    filterMap_visitClause .includes id (fun _ => rfl) query.includes
  have hgroup := filterMap_visitClause_end .groupBy (fun _ => rfl) query.groupBy
  have hselectScript := filterMap_visitClause_end .selectScript (fun _ => rfl) query.selectScript
  have hupdateScript := filterMap_visitClause_end .updateScript (fun _ => rfl) query.updateScript
  have hsource : [Node.source query.source query.distinct].filterMap Node.leaf? = [] := rfl
  rw [visitLeaves, visit, Node.filterMap_above rfl]
  simp only [List.filterMap_append, filterMap_visitFunctions, hsource, hgroup,
    filterMap_visitFilter, horder, hload, hselect, hselectScript, hupdateScript, hincludes]
  simp [Region.all, isVisited, clause]

/-- What a visit leaves out of a clause. -/
theorem filter_clause (query : Query) (region : Region) :
    (((query.clause region).flatMap (Expr.occurrences region)).filter
      fun o => !query.isHidden o).map Occurrence.leaf =
      if query.isVisited region then (query.clause region).flatMap Expr.visited else [] := by
  have hregion : ∀ o ∈ (query.clause region).flatMap (Expr.occurrences region),
      query.isHidden o = (o.isTested || !query.isVisited region) := by
    intro o hmem
    obtain ⟨e, -, hmem⟩ := List.mem_flatMap.mp hmem
    rw [isHidden, e.region_of_mem_occurrences region o hmem]
  cases hvisited : query.isVisited region with
  | false =>
      rw [List.filter_eq_nil_iff.mpr fun o hmem => by simp [hregion o hmem, hvisited]]
      rfl
  | true =>
      rw [List.filter_congr fun o hmem => by rw [hregion o hmem, hvisited, Bool.not_true,
        Bool.or_false], List.filter_flatMap, List.map_flatMap, if_pos rfl]
      congr 1
      funext e
      exact (e.visited_eq_filter region).symm

/--
A visit comes to the leaves that a pass comes to, in the same order, but to none
in the filter of the source, in GROUP BY or in a filter that does not join
conditions, and not to the subject of a membership test.
-/
theorem visitLeaves_eq_filter (query : Query) :
    query.reachedLeaves = query.occurrences.map Occurrence.leaf ∧
      query.visitLeaves =
        (query.occurrences.filter fun o => !query.isHidden o).map Occurrence.leaf := by
  constructor
  · rw [reachedLeaves_eq, leaves_eq_flatMap, occurrences, List.map_flatMap]
    congr 1
    funext region
    rw [List.map_flatMap]
    congr 1
    funext e
    exact (e.map_leaf_occurrences region).symm
  · rw [visitLeaves_eq_flatMap, occurrences, List.filter_flatMap, List.map_flatMap]
    congr 1
    funext region
    exact (query.filter_clause region).symm

end Query

end DocQuery
