import DocQuery.Proofs.Traversal.Leaves

/-!
# Passes that change leaves

A pass with a say on fields and values alone comes to every leaf of a query
once, in the order of the clauses, and puts what it makes of the leaf in its
place; nothing else changes.  The pass may have effects: it then has those of
its leaves one after the other.  The main statement is
`Query.transform_onLeaves`.
-/

namespace DocQuery

variable {m : Type → Type} [Monad m] {α β : Type}

/-- The pass that notes every leaf it comes to and changes it. -/
def Pass.noting (note : Leaf → m Unit) (f : Path → Path) (g : Value → Value) : Pass m :=
  onLeaves
    (fun path => do
      note (.field path)
      return f path)
    (fun v => do
      note (.value v)
      return g v)

/-- The run notes each of these leaves in turn and does nothing else to come to the result. -/
def Notes (note : Leaf → m Unit) (run : m α) (leaves : List Leaf) (a : α) : Prop :=
  run = do
    forM leaves note
    return a

/-! ## Sequences of runs -/

section Sequences

variable [LawfulMonad m] {note : Leaf → m Unit}

namespace Notes

theorem pure (a : α) : Notes note (Pure.pure a) [] a := by
  simp [Notes]

theorem bind {run : m α} {next : α → m β} {ls ls' : List Leaf} {a : α} {b : β}
    (hrun : Notes note run ls a) (hnext : Notes note (next a) ls' b) :
    Notes note (run >>= next) (ls ++ ls') b := by
  unfold Notes at *
  rw [hrun, List.forM_append, bind_assoc, bind_assoc, pure_bind, hnext]

/-- The result of a run is changed without a note. -/
theorem map {run : m α} {ls : List Leaf} {a : α} (h : α → β) (hrun : Notes note run ls a) :
    Notes note (do return h (← run)) ls (h a) := by
  have hboth : Notes note (do return h (← run)) (ls ++ []) (h a) := hrun.bind (pure (h a))
  rwa [List.append_nil] at hboth

/-- The items of a list are changed one after the other. -/
theorem list {item : α → m α} {leaves : α → List Leaf} {change : α → α}
    (h : ∀ a, Notes note (item a) (leaves a) (change a)) (as : List α) :
    Notes note (as.mapM item) (as.flatMap leaves) (as.map change) := by
  induction as with
  | nil => exact pure []
  | cons a as ih =>
      rw [List.mapM_cons, List.flatMap_cons, List.map_cons]
      exact (h a).bind (ih.map (change a :: ·))

theorem option {item : α → m α} {leaves : α → List Leaf} {change : α → α}
    (h : ∀ a, Notes note (item a) (leaves a) (change a)) (found : Option α) :
    Notes note (found.mapM item) (found.toList.flatMap leaves) (found.map change) := by
  cases found with
  | none => exact pure none
  | some a =>
      rw [Option.toList_some, List.flatMap_singleton, Option.mapM_some, ← bind_pure_comp]
      exact (h a).map some

end Notes

end Sequences

/-! ## Expressions -/

section Passes

variable [LawfulMonad m] (note : Leaf → m Unit) (f : Path → Path) (g : Value → Value)

namespace Expr

theorem transform_binary (operator : Operator) (left right : Expr) :
    (binary operator left right).transform (Pass.noting note f g) = do
      return .binary operator (← left.transform (Pass.noting note f g))
        (← right.transform (Pass.noting note f g)) := by
  simp [transform, Pass.noting, Pass.onLeaves, Pass.idle]

theorem transform_within (subject : Path) (values : List Value) (all : Bool) :
    (within subject values all).transform (Pass.noting note f g) = do
      return .within (← (Pass.noting note f g).field subject)
        (← values.mapM (Pass.noting note f g).value) all := by
  simp [transform, Pass.noting, Pass.onLeaves, Pass.idle]

theorem transform_call (name : Path) (arguments : List Expr) :
    (call name arguments).transform (Pass.noting note f g) = do
      return .call name (← transformAll (Pass.noting note f g) arguments) := by
  simp [transform, Pass.noting, Pass.onLeaves, Pass.idle]

theorem notes_field (path : Path) :
    Notes note ((Pass.noting note f g).field path) [.field path] (f path) := by
  simp [Notes, Pass.noting, Pass.onLeaves]

theorem notes_value (v : Value) :
    Notes note ((Pass.noting note f g).value v) [.value v] (g v) := by
  simp [Notes, Pass.noting, Pass.onLeaves]

mutual

/-- The pass notes the leaves of an expression and changes them. -/
theorem notes_transform : (e : Expr) →
    Notes note (e.transform (Pass.noting note f g)) e.leaves (e.mapLeaves f g)
  | .field path => by
      simp [Notes, transform, Pass.noting, Pass.onLeaves, Pass.idle, leaves, mapLeaves]
  | .value v => by
      simp [Notes, transform, Pass.noting, Pass.onLeaves, Pass.idle, leaves, mapLeaves]
  | .binary operator left right => by
      rw [transform_binary]
      exact (notes_transform left).bind ((notes_transform right).map _)
  | .between subject low high => by
      simp [Notes, transform, Pass.noting, Pass.onLeaves, Pass.idle, leaves, mapLeaves]
  | .within subject values all => by
      rw [transform_within, leaves, List.map_eq_flatMap, mapLeaves]
      exact (notes_field note f g subject).bind
        ((Notes.list (notes_value note f g) values).map (Expr.within (f subject) · all))
  | .call name arguments => by
      rw [transform_call]
      exact (notes_transformAll arguments).map _
  | .truth => by
      simp [Notes, transform, Pass.noting, Pass.onLeaves, Pass.idle, leaves, mapLeaves]

theorem notes_transformAll : (es : List Expr) →
    Notes note (transformAll (Pass.noting note f g) es) (leavesOf es) (mapLeavesOf f g es)
  | [] => .pure []
  | e :: es => (notes_transform e).bind ((notes_transformAll es).map (e.mapLeaves f g :: ·))

end

/-- A filter is changed as any other expression, whatever its top is. -/
theorem transformFilter_eq (e : Expr) :
    e.transformFilter (Pass.noting note f g) = e.transform (Pass.noting note f g) := by
  cases e with
  | binary operator left right =>
      rw [transform_binary]
      cases operator <;> simp [transformFilter, Pass.noting, Pass.onLeaves, Pass.idle, Pass.turn]
  | _ => rfl

end Expr

/-! ## Queries -/

theorem OrderTerm.notes_transform (term : OrderTerm) :
    Notes note (term.transform (Pass.noting note f g)) term.leaves (term.mapLeaves f g) :=
  (Expr.notes_transform note f g term.key).map _

theorem Projection.notes_transform (entry : Projection) :
    Notes note (entry.transform (Pass.noting note f g)) entry.leaves (entry.mapLeaves f g) :=
  (Expr.notes_transform note f g entry.body).map _

/-- The pass has no say on declared functions. -/
theorem Functions.notes_transform (functions : Functions) :
    Notes note (functions.transform (Pass.noting note f g)) [] functions := by
  have hentry : ∀ entry : String × Script, Notes note
      (do return (entry.1, ← (Pass.noting note f g).function entry.1 entry.2)) [] entry :=
    fun entry => (Notes.pure entry.2).map (entry.1, ·)
  have hentries := Notes.list hentry functions.entries
  rw [List.flatMap_eq_nil_iff.mpr fun _ _ => rfl, List.map_id'] at hentries
  have hfunctions : (Pass.noting note f g).functions functions = pure (.enter functions) := rfl
  rw [transform, hfunctions, pure_bind, Pass.turn]
  split
  · exact .pure functions
  · have hrebuilt := hentries.map ofList
    rwa [ofList_entries] at hrebuilt

theorem Source.notes_transform (distinct : Bool) (source : Source) :
    Notes note (source.transform (Pass.noting note f g) distinct)
      (source.filter.toList.flatMap Expr.leaves)
      { source with filter := source.filter.map (Expr.mapLeaves f g) } := by
  have hfilter := Notes.option (Expr.notes_transform note f g) source.filter
  simpa [transform, Pass.noting, Pass.onLeaves, Pass.idle, Pass.turn] using
    hfilter.map fun filter => { source with filter := filter }

namespace Query

/-- A clause that the pass has no say on is changed item by item. -/
theorem notes_clause {item : α → m α} {leaves : α → List Leaf} {change : α → α}
    (h : ∀ a, Notes note (item a) (leaves a) (change a)) (clause : Option (List α)) :
    Notes note (clause.mapM (transformList (fun items => pure (.enter items)) item))
      (clauseLeaves leaves clause) (clause.map (List.map change)) := by
  refine Notes.option (fun items => ?_) clause
  simpa [transformList, Pass.turn] using Notes.list h items

/-- The pass comes to the leaves of a query in the order of the clauses. -/
theorem notes_transform (query : Query) :
    Notes note (query.transform (Pass.noting note f g)) query.leaves (query.mapLeaves f g) := by
  have hscript : ∀ script : Option Script, Notes note
      (script.mapM (Pass.noting note f g).selectScript) [] script := by
    intro script
    cases script <;> simp [Notes, Pass.noting, Pass.onLeaves, Pass.idle]
  have hfilter : ∀ e : Expr, Notes note (e.transformFilter (Pass.noting note f g)) e.leaves
      (e.mapLeaves f g) := by
    intro e
    rw [e.transformFilter_eq]
    exact e.notes_transform note f g
  have hquery : (Pass.noting note f g).query query = pure (.enter query) := rfl
  rw [transform, hquery, pure_bind, Pass.turn]
  -- the leaves step by step; declared functions and scripts have none
  have hleaves : query.leaves =
      [] ++ (query.source.filter.toList.flatMap Expr.leaves ++
        (clauseLeaves Path.leaves query.groupBy ++
        (query.filter.toList.flatMap Expr.leaves ++
        (clauseLeaves OrderTerm.leaves query.orderBy ++
        (clauseLeaves Projection.leaves query.load ++
        (clauseLeaves Projection.leaves query.select ++
        ([] ++ ([] ++ (clauseLeaves Expr.leaves query.includes ++ []))))))))) := by
    simp only [leaves, List.append_assoc, List.nil_append, List.append_nil]
  rw [hleaves]
  exact (query.functions.notes_transform note f g).bind <|
    (query.source.notes_transform note f g query.distinct).bind <|
    (notes_clause note (Expr.notes_field note f g) query.groupBy).bind <|
    (Notes.option hfilter query.filter).bind <|
    (notes_clause note (OrderTerm.notes_transform note f g) query.orderBy).bind <|
    (notes_clause note (Projection.notes_transform note f g) query.load).bind <|
    (notes_clause note (Projection.notes_transform note f g) query.select).bind <|
    (hscript query.selectScript).bind <|
    (hscript query.updateScript).bind <|
    (notes_clause note (Expr.notes_transform note f g) query.includes).bind <|
    .pure _

end Query

end Passes

/-! ## Passes without effects and passes that record -/

/-- The leaf is put at the end of what is recorded. -/
def Leaf.record (leaf : Leaf) : StateM (List Leaf) Unit :=
  modify (· ++ [leaf])

theorem Leaf.run_forM_record (ls kept : List Leaf) :
    (forM ls Leaf.record).run kept = ((), kept ++ ls) := by
  induction ls generalizing kept with
  | nil => rw [List.append_nil]; rfl
  | cons l ls ih =>
      rw [List.forM_cons, StateT.run_bind]
      exact (ih (kept ++ [l])).trans (by rw [List.append_assoc, List.singleton_append])

namespace Query

/-- A pass that records leaves while it changes them. -/
theorem run_transform_record (f : Path → Path) (g : Value → Value) (query : Query) :
    (query.transform (Pass.noting Leaf.record f g)).run [] =
      (query.mapLeaves f g, query.leaves) := by
  rw [query.notes_transform Leaf.record f g, StateT.run_bind, Leaf.run_forM_record,
    List.nil_append]
  rfl

/-- The leaves that a pass comes to are those of the clauses. -/
theorem reachedLeaves_eq (query : Query) : query.reachedLeaves = query.leaves :=
  congrArg Prod.snd (query.run_transform_record id id)

/--
A pass that changes fields by one function and values by another gives the
query with every leaf changed and all else as it was, and it comes to every leaf
exactly once on its way.
-/
theorem transform_onLeaves (f : Path → Path) (g : Value → Value) (query : Query) :
    Id.run (query.transform (Pass.onLeaves f g)) = query.mapLeaves f g ∧
      (query.transform (Pass.noting Leaf.record f g)).run [] =
        (query.mapLeaves f g, query.leaves) ∧
      ∀ result, result = query.mapLeaves f g ↔
        result.frame = query.frame ∧ result.leaves = query.leaves.map (Leaf.map f g) := by
  refine ⟨?_, query.run_transform_record f g, fun _ => eq_mapLeaves_iff f g⟩
  -- a pass without effects is one that notes nothing
  exact (query.notes_transform (m := Id) (fun _ => pure ()) f g).trans rfl

end Query

end DocQuery
