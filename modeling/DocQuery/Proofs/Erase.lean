import DocQuery.Query.Render

/-!
# Positions taken out

Two queries are the same if they differ in positions and text alone.  That is
equality of what is left when all positions are set to nought, and canonical
text is made from nothing else.  The main statements are `Query.beq_iff` and
`Query.render_erase`.
-/

namespace DocQuery

/-! ## Sameness as equality -/

/-- The function takes out just what sameness does not look at. -/
structure Erases {α : Type} [BEq α] (erase : α → α) : Prop where
  beq_iff : ∀ {a b : α}, (a == b) = true ↔ erase a = erase b

namespace Erases

variable {α β : Type} [BEq α] [BEq β] {f : α → α} {g : β → β}

theorem of_lawful [LawfulBEq α] : Erases (id : α → α) :=
  ⟨beq_iff_eq⟩

theorem option (h : Erases f) : Erases (Option.map f) := by
  constructor
  intro a b
  cases a with
  | none => cases b <;> simp
  | some a =>
      cases b with
      | none => simp
      | some b => simpa using h.beq_iff

theorem list (h : Erases f) : Erases (List.map f) := by
  constructor
  intro as
  induction as with
  | nil => intro bs; cases bs <;> simp
  | cons a as ih =>
      intro bs
      cases bs with
      | nil => simp
      | cons b bs =>
          rw [List.cons_beq_cons, Bool.and_eq_true, h.beq_iff, ih, List.map_cons, List.map_cons,
            List.cons.injEq]

theorem prod (hf : Erases f) (hg : Erases g) : Erases (Prod.map f g) := by
  constructor
  intro a b
  obtain ⟨a₁, a₂⟩ := a
  obtain ⟨b₁, b₂⟩ := b
  rw [show ((a₁, a₂) == (b₁, b₂)) = (a₁ == b₁ && a₂ == b₂) from rfl, Bool.and_eq_true, hf.beq_iff,
    hg.beq_iff, Prod.map_apply, Prod.map_apply, Prod.mk.injEq]

end Erases

/-! ## Paths, values and scripts -/

namespace Path

/-- The path without its position. -/
def erase (path : Path) : Path :=
  { path with span := .zero }

theorem erase_eq_iff {p q : Path} : p.erase = q.erase ↔ p.text = q.text ∧ p.quoted = q.quoted := by
  simp [erase]

theorem erases : Erases erase := by
  constructor
  intro p q
  rw [erase_eq_iff, show (p == q) = (p.text == q.text && p.quoted == q.quoted) from rfl,
    Bool.and_eq_true, beq_iff_eq, beq_iff_eq]

@[simp]
theorem render_erase (path : Path) : path.erase.render = path.render := rfl

@[simp]
theorem isImplicit_erase (path : Path) : path.erase.isImplicit = path.isImplicit := rfl

end Path

namespace Value

/-- The value without its position. -/
def erase (value : Value) : Value :=
  { value with span := .zero }

theorem erase_eq_iff {v w : Value} :
    v.erase = w.erase ↔ v.token = w.token ∧ v.kind = w.kind ∧ v.escaped = w.escaped := by
  simp [erase]

theorem erases : Erases erase := by
  constructor
  intro v w
  rw [erase_eq_iff,
    show (v == w) = (v.token == w.token && v.kind == w.kind && v.escaped == w.escaped) from rfl]
  simp [and_assoc]

@[simp]
theorem render_erase (value : Value) : value.erase.render = value.render := rfl

@[simp]
theorem text_erase (value : Value) : value.erase.text = value.text := rfl

end Value

namespace Script

/-- The script without its position. -/
def erase (script : Script) : Script :=
  { script with span := .zero }

theorem erases : Erases erase := by
  constructor
  intro s t
  rw [show (s == t) = (s.text == t.text) from rfl, beq_iff_eq]
  simp [erase]

@[simp]
theorem text_erase (script : Script) : script.erase.text = script.text := rfl

end Script

/-! ## Expressions -/

namespace Expr

mutual

/-- The expression without positions. -/
def erase : Expr → Expr
  | .field path => .field path.erase
  | .value v => .value v.erase
  | .binary operator left right => .binary operator left.erase right.erase
  | .between subject low high => .between subject.erase low.erase high.erase
  | .within subject values all => .within subject.erase (values.map Value.erase) all
  | .call name arguments => .call name.erase (eraseAll arguments)
  | .truth => .truth

/-- The expressions without positions. -/
def eraseAll : List Expr → List Expr
  | [] => []
  | e :: es => e.erase :: eraseAll es

end

theorem eraseAll_eq_map (es : List Expr) : eraseAll es = es.map erase := by
  induction es with
  | nil => rfl
  | cons e es ih => rw [eraseAll, ih, List.map_cons]

@[simp]
theorem erase_connect (connective : Connective) (left right : Expr) :
    (connect connective left right).erase = connect connective left.erase right.erase := by
  simp only [connect, erase]

mutual

theorem same_iff : (e d : Expr) → (e.same d = true ↔ e.erase = d.erase)
  | .field p, d => by
      cases d <;> simp [same, erase, Path.erases.beq_iff]
  | .value v, d => by
      cases d <;> simp [same, erase, Value.erases.beq_iff]
  | .binary o l r, d => by
      cases d with
      | binary o' l' r' => simp [same, erase, same_iff l l', same_iff r r', and_assoc]
      | _ => simp [same, erase]
  | .between s a b, d => by
      cases d <;> simp [same, erase, Path.erases.beq_iff, Value.erases.beq_iff, and_assoc]
  | .within s vs all, d => by
      cases d <;> simp [same, erase, Path.erases.beq_iff, Value.erases.list.beq_iff, and_assoc]
  | .call n as, d => by
      cases d with
      | call n' as' => simp [same, erase, Path.erases.beq_iff, sameAll_iff as as']
      | _ => simp [same, erase]
  | .truth, d => by
      cases d <;> simp [same, erase]

theorem sameAll_iff : (es ds : List Expr) → (sameAll es ds = true ↔ eraseAll es = eraseAll ds)
  | [], ds => by
      cases ds <;> simp [sameAll, eraseAll]
  | e :: es, ds => by
      cases ds with
      | nil => simp [sameAll, eraseAll]
      | cons d ds => simp [sameAll, eraseAll, same_iff e d, sameAll_iff es ds]

end

theorem erases : Erases erase :=
  ⟨fun {e d} => same_iff e d⟩

/-! ### Canonical text has no positions -/

@[simp]
theorem isConnective_erase (e : Expr) : e.erase.isConnective = e.isConnective := by
  cases e <;> rfl

@[simp]
theorem isImplicitField_erase (e : Expr) : e.erase.isImplicitField = e.isImplicitField := by
  cases e <;> rfl

@[simp]
theorem hasImplicitSubject_erase (e : Expr) : e.erase.hasImplicitSubject = e.hasImplicitSubject := by
  cases e with
  | binary operator left right => exact isImplicitField_erase left
  | _ => rfl

@[simp]
theorem isRun_erase (e : Expr) : e.erase.isRun = e.isRun := by
  cases e with
  | binary operator left right => simp only [erase, isRun, isConnective_erase]
  | _ => rfl

@[simp]
theorem groupedLeft_erase (e : Expr) : e.erase.groupedLeft = e.groupedLeft := by
  simp only [groupedLeft, isConnective_erase, isRun_erase]

@[simp]
theorem startsWithGroup_erase : (e : Expr) → e.erase.startsWithGroup = e.startsWithGroup
  | .binary (.connect _) left _ => by
      simp only [erase, startsWithGroup, groupedLeft_erase, startsWithGroup_erase left]
  | .binary (.compare _) _ _ => rfl
  | .field _ => rfl
  | .value _ => rfl
  | .between _ _ _ => rfl
  | .within _ _ _ => rfl
  | .call _ _ => rfl
  | .truth => rfl

@[simp]
theorem groupedRight_erase (connective : Connective) (e : Expr) :
    e.erase.groupedRight connective = e.groupedRight connective := by
  simp only [groupedRight, isConnective_erase, startsWithGroup_erase]

@[simp]
theorem isSome_trailing?_erase (es : List Expr) :
    (trailing? (eraseAll es)).isSome = (trailing? es).isSome := by
  rw [eraseAll_eq_map, trailing?, trailing?, List.getLast?_map]
  cases es.getLast? with
  | none => rfl
  | some e => simp [Option.filter, hasImplicitSubject_erase]; split <;> rfl

mutual

@[simp]
theorem render_erase : (e : Expr) → e.erase.render = e.render
  | .field _ => rfl
  | .value _ => rfl
  | .binary (.compare _) left right => by
      simp only [erase, render, isImplicitField_erase, render_erase left, render_erase right]
  | .binary (.connect _) left right => by
      simp only [erase, render, groupedLeft_erase, groupedRight_erase, render_erase left,
        render_erase right]
  | .between _ _ _ => rfl
  | .within _ values _ => by
      simp only [erase, render, renderWithin, renderSubject, Path.isImplicit_erase,
        Path.render_erase, List.map_map]
      rfl
  | .call _ arguments => by
      simp only [erase, render, renderAll_erase arguments, isSome_trailing?_erase]
      rfl
  | .truth => rfl

theorem renderAll_erase : (es : List Expr) → renderAll (eraseAll es) = renderAll es
  | [] => rfl
  | e :: es => by
      simp only [eraseAll, renderAll, render_erase e, renderAll_erase es]

end

end Expr

/-! ## Clauses -/

namespace Source

/-- The source without positions. -/
def erase (source : Source) : Source :=
  { source with name := source.name.erase, filter := source.filter.map Expr.erase }

theorem erases : Erases erase := by
  constructor
  intro s t
  have hfield : (s == t) = (s.name == t.name && (s.asName == t.asName &&
      (s.filter == t.filter && s.isIndex == t.isIndex))) := by
    cases s
    cases t
    simp only [BEq.beq, instBEqSource.beq]
  rw [hfield]
  simp only [Bool.and_eq_true, Path.erases.beq_iff, Expr.erases.option.beq_iff, beq_iff_eq]
  cases s
  cases t
  simp only [erase, Source.mk.injEq]

@[simp]
theorem render_erase (source : Source) : source.erase.render = source.render := by
  obtain ⟨name, asName, filter, isIndex⟩ := source
  cases filter with
  | none => rfl
  | some filter => simp only [render, erase, Option.map_some, Expr.render_erase]; rfl

end Source

namespace OrderTerm

/-- The term without positions. -/
def erase (term : OrderTerm) : OrderTerm :=
  { term with key := term.key.erase }

theorem erases : Erases erase := by
  constructor
  intro s t
  have hfield : (s == t) = (s.key == t.key && (s.sortType == t.sortType &&
      s.ascending == t.ascending)) := by
    cases s
    cases t
    simp only [BEq.beq, instBEqOrderTerm.beq]
  rw [hfield]
  simp only [Bool.and_eq_true, Expr.erases.beq_iff, beq_iff_eq]
  cases s
  cases t
  simp only [erase, OrderTerm.mk.injEq]

@[simp]
theorem render_erase (term : OrderTerm) : term.erase.render = term.render := by
  simp only [render, erase, Expr.render_erase]
  rfl

end OrderTerm

namespace Projection

/-- The entry without positions. -/
def erase (entry : Projection) : Projection :=
  { entry with body := entry.body.erase }

theorem erases : Erases erase := by
  constructor
  intro s t
  have hfield : (s == t) = (s.body == t.body && s.asName == t.asName) := by
    cases s
    cases t
    simp only [BEq.beq, instBEqProjection.beq]
  rw [hfield]
  simp only [Bool.and_eq_true, Expr.erases.beq_iff, beq_iff_eq]
  cases s
  cases t
  simp only [erase, Projection.mk.injEq]

@[simp]
theorem hasInferredAlias_erase (entry : Projection) :
    entry.erase.hasInferredAlias = entry.hasInferredAlias := by
  obtain ⟨body, asName⟩ := entry
  cases body with
  | value v => cases asName <;> rfl
  | _ => rfl

@[simp]
theorem render_erase (entry : Projection) : entry.erase.render = entry.render := by
  simp only [render, hasInferredAlias_erase]
  simp only [erase, Expr.render_erase]

end Projection

namespace Functions

/-- The functions without positions. -/
def erase (functions : Functions) : Functions :=
  functions.map fun _ script => script.erase

theorem erase_eq_iff {f g : Functions} :
    f.erase = g.erase ↔
      f.entries.map (Prod.map id Script.erase) = g.entries.map (Prod.map id Script.erase) := by
  simp only [erase, map, Functions.mk.injEq]
  rfl

theorem erases : Erases erase := by
  constructor
  intro f g
  rw [erase_eq_iff, ← (Erases.of_lawful.prod Script.erases).list.beq_iff]
  rfl

end Functions

/-! ## Queries -/

namespace Query

/-- The query without positions and without the text it was read from. -/
def erase (query : Query) : Query where
  text := ""
  functions := query.functions.erase
  source := query.source.erase
  groupBy := query.groupBy.map (·.map Path.erase)
  filter := query.filter.map Expr.erase
  orderBy := query.orderBy.map (·.map OrderTerm.erase)
  load := query.load.map (·.map Projection.erase)
  select := query.select.map (·.map Projection.erase)
  selectScript := query.selectScript.map Script.erase
  updateScript := query.updateScript.map Script.erase
  includes := query.includes.map (·.map Expr.erase)
  distinct := query.distinct

/-- Two queries are the same if nothing but positions and text differs. -/
theorem beq_iff {q r : Query} : (q == r) = true ↔ q.erase = r.erase := by
  rw [show (q == r) = q.same r from rfl, same]
  simp only [Bool.and_eq_true, Functions.erases.beq_iff, Source.erases.beq_iff,
    Path.erases.list.option.beq_iff, Expr.erases.option.beq_iff,
    OrderTerm.erases.list.option.beq_iff, Projection.erases.list.option.beq_iff,
    Script.erases.option.beq_iff, Expr.erases.list.option.beq_iff, beq_iff_eq, and_assoc]
  simp only [erase, Query.mk.injEq, true_and]

theorem renderList_map {α : Type} {render : α → String} {f : α → α}
    (h : ∀ a, render (f a) = render a) (items : List α) :
    renderList render (items.map f) = renderList render items := by
  simp only [renderList, List.map_map]
  congr 1
  exact List.map_congr_left fun a _ => h a

theorem renderClause_map {α : Type} {words : String} {render : α → String} {f : α → α}
    (h : ∀ a, render (f a) = render a) (clause : Option α) :
    renderClause words render (clause.map f) = renderClause words render clause := by
  cases clause with
  | none => rfl
  | some a => simp only [renderClause, Option.map_some, h]

@[simp]
theorem selection?_erase (query : Query) : query.erase.selection? = query.selection? := by
  simp only [selection?, erase]
  cases query.selectScript with
  | some script => rfl
  | none =>
      cases query.select with
      | none => rfl
      | some entries =>
          cases entries with
          | nil => rfl
          | cons entry entries =>
              exact congrArg some (renderList_map Projection.render_erase (entry :: entries))

/-- Canonical text does not depend on positions or on the text that was read. -/
@[simp]
theorem render_erase (query : Query) : query.erase.render = query.render := by
  simp only [render, selection?_erase]
  simp only [erase, Source.render_erase, Functions.erase, Functions.map, List.map_map,
    renderClause_map (renderList_map Path.render_erase), renderClause_map Expr.render_erase,
    renderClause_map (renderList_map OrderTerm.render_erase),
    renderClause_map (renderList_map Projection.render_erase),
    renderClause_map (renderList_map Expr.render_erase), renderClause_map Script.text_erase]
  rfl

/-- The same query has the same canonical text. -/
theorem render_eq_of_beq {q r : Query} (h : (q == r) = true) : q.render = r.render := by
  rw [← render_erase q, beq_iff.mp h, render_erase]

end Query

end DocQuery
