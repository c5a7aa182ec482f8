import DocQuery.Traversal.Record

/-!
# Leaves and frames

The leaves of a query are its fields and values in the order of its clauses.  A
frame is what stays of a query when every leaf is blanked out: its texts, names,
operators, flags and the lengths of its lists.  Nothing else is in a query, so
that a frame and a list of leaves belong to one query at most.  The main
statement is `Query.eq_mapLeaves_iff`.
-/

namespace DocQuery

namespace Leaf

/-- The leaf with its field or its value changed. -/
def map (f : Path → Path) (g : Value → Value) : Leaf → Leaf
  | .field path => .field (f path)
  | .value v => .value (g v)

end Leaf

/-! ## Expressions -/

namespace Expr

mutual

/-- The fields and values of an expression from left to right, the names of calls apart. -/
def leaves : Expr → List Leaf
  | .field path => [.field path]
  | .value v => [.value v]
  | .binary _ left right => left.leaves ++ right.leaves
  | .between subject low high => [.field subject, .value low, .value high]
  | .within subject values _ => .field subject :: values.map .value
  | .call _ arguments => leavesOf arguments
  | .truth => []

/-- The leaves of several expressions. -/
def leavesOf : List Expr → List Leaf
  | [] => []
  | e :: es => e.leaves ++ leavesOf es

end

theorem leavesOf_eq_flatMap (es : List Expr) : leavesOf es = es.flatMap leaves := by
  induction es with
  | nil => rfl
  | cons e es ih => rw [leavesOf, ih, List.flatMap_cons]

theorem leavesOf_append (es ds : List Expr) : leavesOf (es ++ ds) = leavesOf es ++ leavesOf ds := by
  rw [leavesOf_eq_flatMap, leavesOf_eq_flatMap, leavesOf_eq_flatMap, List.flatMap_append]

mutual

/-- The expression with its leaves changed. -/
def mapLeaves (f : Path → Path) (g : Value → Value) : Expr → Expr
  | .field path => .field (f path)
  | .value v => .value (g v)
  | .binary operator left right => .binary operator (left.mapLeaves f g) (right.mapLeaves f g)
  | .between subject low high => .between (f subject) (g low) (g high)
  | .within subject values all => .within (f subject) (values.map g) all
  | .call name arguments => .call name (mapLeavesOf f g arguments)
  | .truth => .truth

/-- The expressions with their leaves changed. -/
def mapLeavesOf (f : Path → Path) (g : Value → Value) : List Expr → List Expr
  | [] => []
  | e :: es => e.mapLeaves f g :: mapLeavesOf f g es

end

variable (f f' : Path → Path) (g g' : Value → Value)

mutual

/-- The leaves of a changed expression are its changed leaves. -/
theorem leaves_mapLeaves : (e : Expr) →
    (e.mapLeaves f g).leaves = e.leaves.map (Leaf.map f g)
  | .field _ => rfl
  | .value _ => rfl
  | .binary _ left right => by
      rw [mapLeaves, leaves, leaves, List.map_append, leaves_mapLeaves left,
        leaves_mapLeaves right]
  | .between _ _ _ => rfl
  | .within _ values _ => by
      simp [mapLeaves, leaves, Leaf.map]
  | .call _ arguments => leavesOf_mapLeavesOf arguments
  | .truth => rfl

theorem leavesOf_mapLeavesOf : (es : List Expr) →
    leavesOf (mapLeavesOf f g es) = (leavesOf es).map (Leaf.map f g)
  | [] => rfl
  | e :: es => by
      rw [mapLeavesOf, leavesOf, leavesOf, List.map_append, leaves_mapLeaves e,
        leavesOf_mapLeavesOf es]

end

mutual

/-- Two changes one after the other are one change. -/
theorem mapLeaves_mapLeaves : (e : Expr) →
    (e.mapLeaves f g).mapLeaves f' g' = e.mapLeaves (f' ∘ f) (g' ∘ g)
  | .field _ => rfl
  | .value _ => rfl
  | .binary _ left right => by
      rw [mapLeaves, mapLeaves, mapLeaves, mapLeaves_mapLeaves left, mapLeaves_mapLeaves right]
  | .between _ _ _ => rfl
  | .within _ values _ => by
      simp [mapLeaves]
  | .call _ arguments => by
      rw [mapLeaves, mapLeaves, mapLeaves, mapLeavesOf_mapLeavesOf arguments]
  | .truth => rfl

theorem mapLeavesOf_mapLeavesOf : (es : List Expr) →
    mapLeavesOf f' g' (mapLeavesOf f g es) = mapLeavesOf (f' ∘ f) (g' ∘ g) es
  | [] => rfl
  | e :: es => by
      rw [mapLeavesOf, mapLeavesOf, mapLeavesOf, mapLeaves_mapLeaves e,
        mapLeavesOf_mapLeavesOf es]

end

/-! ## Frames of expressions -/

/-- The expression with every leaf blanked out. -/
def frame (e : Expr) : Expr :=
  e.mapLeaves (fun _ => .plain "") fun _ => .plain "" .null

end Expr

/-! ## Parts with leaves -/

/-- A frame and a list of leaves belong to one value at most. -/
structure Splits {α : Type} (frame : α → α) (leaves : α → List Leaf) : Prop where
  length_eq : ∀ {a b : α}, frame a = frame b → (leaves a).length = (leaves b).length
  eq : ∀ {a b : α}, frame a = frame b → leaves a = leaves b → a = b

/-- The function changes every leaf and leaves the frame as it is. -/
structure Changes {α : Type} (f : Path → Path) (g : Value → Value) (frame : α → α)
    (leaves : α → List Leaf) (change : α → α) : Prop where
  frame_change : ∀ a : α, frame (change a) = frame a
  leaves_change : ∀ a : α, leaves (change a) = (leaves a).map (Leaf.map f g)

section Parts

variable {α : Type} {frame change : α → α} {leaves : α → List Leaf} {f : Path → Path}
  {g : Value → Value}

theorem Splits.list (h : Splits frame leaves) :
    Splits (List.map frame) (List.flatMap leaves) := by
  have hlength : ∀ {as bs : List α}, as.map frame = bs.map frame →
      (as.flatMap leaves).length = (bs.flatMap leaves).length := by
    intro as
    induction as with
    | nil => intro bs hframe; rw [List.map_eq_nil_iff.mp hframe.symm]
    | cons a as ih =>
        intro bs hframe
        cases bs with
        | nil => cases hframe
        | cons b bs =>
            obtain ⟨hhead, htail⟩ := List.cons.inj hframe
            rw [List.flatMap_cons, List.flatMap_cons, List.length_append, List.length_append,
              h.length_eq hhead, ih htail]
  refine ⟨hlength, ?_⟩
  intro as
  induction as with
  | nil => intro bs hframe _; exact (List.map_eq_nil_iff.mp hframe.symm).symm
  | cons a as ih =>
      intro bs hframe hleaves
      cases bs with
      | nil => cases hframe
      | cons b bs =>
          obtain ⟨hhead, htail⟩ := List.cons.inj hframe
          rw [List.flatMap_cons, List.flatMap_cons] at hleaves
          obtain ⟨hfirst, hothers⟩ := List.append_inj hleaves (h.length_eq hhead)
          rw [h.eq hhead hfirst, ih htail hothers]

theorem Splits.option (h : Splits frame leaves) :
    Splits (Option.map frame) (fun found => found.toList.flatMap leaves) := by
  have hlist : ∀ {a b : Option α}, a.map frame = b.map frame →
      a.toList.map frame = b.toList.map frame := by
    intro a b hframe
    rw [← Option.toList_map, ← Option.toList_map, hframe]
  constructor
  · intro a b hframe
    exact h.list.length_eq (hlist hframe)
  · intro a b hframe hleaves
    have heq := h.list.eq (hlist hframe) hleaves
    cases a <;> cases b <;> simp_all

theorem Changes.list (h : Changes f g frame leaves change) :
    Changes f g (List.map frame) (List.flatMap leaves) (List.map change) := by
  constructor
  · intro as
    rw [List.map_map]
    exact List.map_congr_left fun a _ => h.frame_change a
  · intro as
    induction as with
    | nil => rfl
    | cons a as ih =>
        rw [List.map_cons, List.flatMap_cons, List.flatMap_cons, List.map_append,
          h.leaves_change, ih]

theorem Changes.option (h : Changes f g frame leaves change) :
    Changes f g (Option.map frame) (fun found => found.toList.flatMap leaves)
      (Option.map change) := by
  constructor
  · intro found
    rw [Option.map_map, show frame ∘ change = frame from funext h.frame_change]
  · intro found
    rw [Option.toList_map]
    exact h.list.leaves_change found.toList

end Parts

namespace Expr

/-- Expressions with one frame have equally many leaves. -/
theorem length_leaves_of_frame {e d : Expr} (h : e.frame = d.frame) :
    e.leaves.length = d.leaves.length := by
  have hcount : ∀ e : Expr, e.frame.leaves.length = e.leaves.length := by
    intro e
    rw [frame, leaves_mapLeaves, List.length_map]
  rw [← hcount e, h, hcount d]

mutual

theorem eq_of_frame : (e d : Expr) → e.frame = d.frame → e.leaves = d.leaves → e = d
  | .field _, d, hframe, hleaves => by
      cases d with
      | field _ => cases hleaves; rfl
      | _ => cases hframe
  | .value _, d, hframe, hleaves => by
      cases d with
      | value _ => cases hleaves; rfl
      | _ => cases hframe
  | .binary operator left right, d, hframe, hleaves => by
      cases d with
      | binary operator' left' right' =>
          obtain ⟨rfl, hleft, hright⟩ := Expr.binary.inj hframe
          obtain ⟨hl, hr⟩ := List.append_inj hleaves (length_leaves_of_frame hleft)
          rw [eq_of_frame left left' hleft hl, eq_of_frame right right' hright hr]
      | _ => cases hframe
  | .between _ _ _, d, hframe, hleaves => by
      cases d with
      | between _ _ _ => cases hleaves; rfl
      | _ => cases hframe
  | .within _ values all, d, hframe, hleaves => by
      cases d with
      | within _ values' all' =>
          obtain ⟨-, -, rfl⟩ := Expr.within.inj hframe
          obtain ⟨hsubject, hvalues⟩ := List.cons.inj hleaves
          cases hsubject
          rw [(List.map_inj_right fun _ _ => Leaf.value.inj).mp hvalues]
      | _ => cases hframe
  | .call name arguments, d, hframe, hleaves => by
      cases d with
      | call name' arguments' =>
          obtain ⟨rfl, harguments⟩ := Expr.call.inj hframe
          rw [eqAll_of_frame arguments arguments' harguments hleaves]
      | _ => cases hframe
  | .truth, d, hframe, _ => by
      cases d with
      | truth => rfl
      | _ => cases hframe

theorem eqAll_of_frame : (es ds : List Expr) →
    mapLeavesOf (fun _ => .plain "") (fun _ => .plain "" .null) es =
      mapLeavesOf (fun _ => .plain "") (fun _ => .plain "" .null) ds →
    leavesOf es = leavesOf ds → es = ds
  | [], ds, hframe, _ => by
      cases ds with
      | nil => rfl
      | cons _ _ => cases hframe
  | e :: es, ds, hframe, hleaves => by
      cases ds with
      | nil => cases hframe
      | cons d ds =>
          obtain ⟨hhead, htail⟩ := List.cons.inj hframe
          obtain ⟨hfirst, hothers⟩ := List.append_inj hleaves (length_leaves_of_frame hhead)
          rw [eq_of_frame e d hhead hfirst, eqAll_of_frame es ds htail hothers]

end

theorem splits : Splits frame leaves :=
  ⟨length_leaves_of_frame, eq_of_frame _ _⟩

theorem changes (f : Path → Path) (g : Value → Value) :
    Changes f g frame leaves (mapLeaves f g) :=
  ⟨mapLeaves_mapLeaves f _ g _, leaves_mapLeaves f g⟩

end Expr

/-! ## Items of clauses -/

namespace Path

/-- A field by itself is a leaf. -/
def leaves (path : Path) : List Leaf :=
  [.field path]

/-- Nothing stays of a field. -/
def frame (_ : Path) : Path :=
  .plain ""

theorem splits : Splits frame leaves :=
  ⟨fun _ => rfl, fun _ hleaves => by cases hleaves; rfl⟩

theorem changes (f : Path → Path) (g : Value → Value) : Changes f g frame leaves f :=
  ⟨fun _ => rfl, fun _ => rfl⟩

end Path

namespace OrderTerm

/-- The leaves of the key. -/
def leaves (term : OrderTerm) : List Leaf :=
  term.key.leaves

/-- The term with the leaves of its key blanked out. -/
def frame (term : OrderTerm) : OrderTerm :=
  { term with key := term.key.frame }

/-- The term with the leaves of its key changed. -/
def mapLeaves (f : Path → Path) (g : Value → Value) (term : OrderTerm) : OrderTerm :=
  { term with key := term.key.mapLeaves f g }

theorem splits : Splits frame leaves := by
  constructor
  · intro a b hframe
    exact Expr.splits.length_eq (congrArg key hframe)
  · rintro ⟨key, _, _⟩ ⟨key', _, _⟩ hframe hleaves
    obtain ⟨hkey, rfl, rfl⟩ := OrderTerm.mk.inj hframe
    obtain rfl : key = key' := Expr.splits.eq hkey hleaves
    rfl

theorem changes (f : Path → Path) (g : Value → Value) :
    Changes f g frame leaves (mapLeaves f g) where
  frame_change term := congrArg (OrderTerm.mk · _ _) ((Expr.changes f g).frame_change term.key)
  leaves_change term := (Expr.changes f g).leaves_change term.key

end OrderTerm

namespace Projection

/-- The leaves of the body. -/
def leaves (entry : Projection) : List Leaf :=
  entry.body.leaves

/-- The entry with the leaves of its body blanked out. -/
def frame (entry : Projection) : Projection :=
  { entry with body := entry.body.frame }

/-- The entry with the leaves of its body changed. -/
def mapLeaves (f : Path → Path) (g : Value → Value) (entry : Projection) : Projection :=
  { entry with body := entry.body.mapLeaves f g }

theorem splits : Splits frame leaves := by
  constructor
  · intro a b hframe
    exact Expr.splits.length_eq (congrArg body hframe)
  · rintro ⟨body, _⟩ ⟨body', _⟩ hframe hleaves
    obtain ⟨hbody, rfl⟩ := Projection.mk.inj hframe
    obtain rfl : body = body' := Expr.splits.eq hbody hleaves
    rfl

theorem changes (f : Path → Path) (g : Value → Value) :
    Changes f g frame leaves (mapLeaves f g) where
  frame_change entry := congrArg (Projection.mk · _) ((Expr.changes f g).frame_change entry.body)
  leaves_change entry := (Expr.changes f g).leaves_change entry.body

end Projection

/-! ## Queries -/

namespace Query

/-- The leaves of the items of a clause, none without the clause. -/
def clauseLeaves {α : Type} (leaves : α → List Leaf) (clause : Option (List α)) : List Leaf :=
  clause.toList.flatMap (List.flatMap leaves)

/-- The fields and values of a query in the order of its clauses. -/
def leaves (query : Query) : List Leaf :=
  query.source.filter.toList.flatMap Expr.leaves ++
    clauseLeaves Path.leaves query.groupBy ++
    query.filter.toList.flatMap Expr.leaves ++
    clauseLeaves OrderTerm.leaves query.orderBy ++
    clauseLeaves Projection.leaves query.load ++
    clauseLeaves Projection.leaves query.select ++
    clauseLeaves Expr.leaves query.includes

/-- The query with every leaf blanked out. -/
def frame (query : Query) : Query :=
  { query with
    source := { query.source with filter := query.source.filter.map Expr.frame }
    groupBy := query.groupBy.map (List.map Path.frame)
    filter := query.filter.map Expr.frame
    orderBy := query.orderBy.map (List.map OrderTerm.frame)
    load := query.load.map (List.map Projection.frame)
    select := query.select.map (List.map Projection.frame)
    includes := query.includes.map (List.map Expr.frame) }

/-- The query with its leaves changed. -/
def mapLeaves (f : Path → Path) (g : Value → Value) (query : Query) : Query :=
  { query with
    source := { query.source with filter := query.source.filter.map (Expr.mapLeaves f g) }
    groupBy := query.groupBy.map (List.map f)
    filter := query.filter.map (Expr.mapLeaves f g)
    orderBy := query.orderBy.map (List.map (OrderTerm.mapLeaves f g))
    load := query.load.map (List.map (Projection.mapLeaves f g))
    select := query.select.map (List.map (Projection.mapLeaves f g))
    includes := query.includes.map (List.map (Expr.mapLeaves f g)) }

/-- A query with its leaves changed has its frame and its changed leaves. -/
theorem changes (f : Path → Path) (g : Value → Value) :
    Changes f g frame leaves (mapLeaves f g) := by
  have hexpr := Expr.changes f g
  have hgroup := (Path.changes f g).list.option
  have horder := (OrderTerm.changes f g).list.option
  have hentries := (Projection.changes f g).list.option
  constructor
  · intro query
    simp only [frame, mapLeaves, hexpr.option.frame_change, hexpr.list.option.frame_change,
      hgroup.frame_change, horder.frame_change, hentries.frame_change]
  · intro query
    simp only [leaves, clauseLeaves, mapLeaves, List.map_append, hexpr.option.leaves_change,
      hexpr.list.option.leaves_change, hgroup.leaves_change, horder.leaves_change,
      hentries.leaves_change]

/-- Queries with one frame and the same leaves are the same. -/
theorem eq_of_frame {q r : Query} (hframe : q.frame = r.frame) (hleaves : q.leaves = r.leaves) :
    q = r := by
  obtain ⟨text, functions, ⟨name, asName, sourceFilter, isIndex⟩, groupBy, filter, orderBy, load,
    select, selectScript, updateScript, includes, distinct⟩ := q
  obtain ⟨text', functions', ⟨name', asName', sourceFilter', isIndex'⟩, groupBy', filter',
    orderBy', load', select', selectScript', updateScript', includes', distinct'⟩ := r
  simp only [frame, Query.mk.injEq, Source.mk.injEq] at hframe
  obtain ⟨rfl, rfl, ⟨rfl, rfl, hsource, rfl⟩, hgroup, hfilter, horder, hload, hselect, rfl, rfl,
    hincludes, rfl⟩ := hframe
  have hentries := Projection.splits.list.option
  obtain ⟨hleaves, heq⟩ := List.append_inj' hleaves (Expr.splits.list.option.length_eq hincludes)
  obtain rfl := Expr.splits.list.option.eq hincludes heq
  obtain ⟨hleaves, heq⟩ := List.append_inj' hleaves (hentries.length_eq hselect)
  obtain rfl := hentries.eq hselect heq
  obtain ⟨hleaves, heq⟩ := List.append_inj' hleaves (hentries.length_eq hload)
  obtain rfl := hentries.eq hload heq
  obtain ⟨hleaves, heq⟩ := List.append_inj' hleaves (OrderTerm.splits.list.option.length_eq horder)
  obtain rfl := OrderTerm.splits.list.option.eq horder heq
  obtain ⟨hleaves, heq⟩ := List.append_inj' hleaves (Expr.splits.option.length_eq hfilter)
  obtain rfl := Expr.splits.option.eq hfilter heq
  obtain ⟨heq', heq⟩ := List.append_inj' hleaves (Path.splits.list.option.length_eq hgroup)
  obtain rfl := Path.splits.list.option.eq hgroup heq
  obtain rfl := Expr.splits.option.eq hsource heq'
  rfl

/-- A query is a changed one exactly if it has the frame and the changed leaves. -/
theorem eq_mapLeaves_iff (f : Path → Path) (g : Value → Value) {query result : Query} :
    result = query.mapLeaves f g ↔
      result.frame = query.frame ∧ result.leaves = query.leaves.map (Leaf.map f g) := by
  have hchanges := changes f g
  constructor
  · rintro rfl
    exact ⟨hchanges.frame_change query, hchanges.leaves_change query⟩
  · rintro ⟨hframe, hleaves⟩
    exact eq_of_frame (hframe.trans (hchanges.frame_change query).symm)
      (hleaves.trans (hchanges.leaves_change query).symm)

end Query

end DocQuery
