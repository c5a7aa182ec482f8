import DocQuery.Proofs.Canonical.Roundtrip

/-!
# How deep canonical text is nested

Canonical text has the connectives of the text that was read, but not always its
depth.  A conjunction with a connective on its right is written with a group
there, even if that connective was not grouped in the text, and such groups stand
inside one another.  Each of them has a connective of its own, so canonical text
is at most that much deeper.  The main statement is
`Query.parse_render_iff_depth_le`.
-/

namespace DocQuery

open Lexical

/-! ## Depth up to connectives -/

namespace Complexity

variable {depth : Nat} {a b : Complexity}

/-- The depth is within a bound, if one level is added for each connective. -/
def Within (depth : Nat) (c : Complexity) : Prop :=
  c.depth ≤ depth + c.connectives

theorem within_zero : zero.Within depth :=
  Nat.zero_le _

theorem Within.mono (h : a.Within depth) {more : Nat} (hle : depth ≤ more) : a.Within more := by
  unfold Within at *
  omega

theorem Within.nest (h : a.Within depth) : a.nest.Within (depth + 1) := by
  unfold Within at *
  simp only [Complexity.nest]
  omega

theorem Within.join (ha : a.Within depth) (hb : b.Within depth) : (a.join b).Within depth := by
  unfold Within at *
  simp only [Complexity.join]
  omega

/-- Two pieces are within the depth that they have side by side. -/
theorem Within.join_max {more : Nat} (ha : a.Within depth) (hb : b.Within more) :
    (a.join b).Within (max depth more) :=
  (ha.mono (Nat.le_max_left _ _)).join (hb.mono (Nat.le_max_right _ _))

/-- A piece is within a bound if it is in parentheses that may not be there. -/
theorem Within.inParens {wanted grouped : Bool} (h : (a.inParens grouped).Within depth)
    (hgrouped : wanted = true → grouped = true) : (a.inParens wanted).Within depth := by
  cases wanted with
  | true => rwa [hgrouped rfl] at h
  | false =>
      cases grouped with
      | false => exact h
      | true =>
          unfold Within at *
          simp only [Complexity.inParens, Complexity.nest, if_true] at h
          simp only [Complexity.inParens]
          exact Nat.le_of_succ_le h

/-- A connective between two pieces is enough for parentheses around them. -/
theorem Within.nest_link (ha : a.Within depth) (hb : b.Within depth) :
    (a.join (link.join b)).nest.Within depth := by
  unfold Within at *
  simp only [Complexity.join, Complexity.nest, link]
  omega

end Complexity

namespace Expr

/-- The canonical text of the expression is within a depth, in parentheses if it is a connective. -/
def NestsWithin (depth : Nat) (e : Expr) : Prop :=
  (e.complexity.inParens e.isConnective).Within depth

namespace NestsWithin

variable {depth : Nat} {e left right : Expr}

theorem mono (h : NestsWithin depth e) {more : Nat} (hle : depth ≤ more) : NestsWithin more e :=
  Complexity.Within.mono h hle

theorem within (h : NestsWithin depth e) : e.complexity.Within depth :=
  @Complexity.Within.inParens depth e.complexity false _ h fun hfalse => by cases hfalse

/-- The parentheses around a connective are paid by the connective. -/
theorem connect {connective : Connective} (hleft : NestsWithin depth left)
    (hright : NestsWithin depth right) : NestsWithin depth (.connect connective left right) := by
  have hl : (left.complexity.inParens left.groupedLeft).Within depth :=
    hleft.inParens (by simp +contextual [groupedLeft])
  have hr : (right.complexity.inParens (right.groupedRight connective)).Within depth :=
    hright.inParens (by simp +contextual [groupedRight])
  rw [NestsWithin, complexity_connect]
  exact hl.nest_link hr

end NestsWithin

end Expr

namespace Written

open DocQuery.Expr

variable {size : Nat} {cs rest : List Char}

/-! ## Conditions that were read -/

/-- A test nests nothing. -/
theorem Test.complexity_eq {subject : DocQuery.Path} {test : Grammar.Test} {e : Expr}
    (h : Test size subject test cs e rest) : e.complexity = .zero ∧ e.isConnective = false := by
  obtain ⟨-, operand, his⟩ := h.isTest
  exact ⟨his.complexity_eq, his.not_connective⟩

theorem Trailing.complexity_eq {trailing : Option Expr} (h : Trailing size cs trailing rest) :
    complexityOf trailing.toList = .zero := by
  cases h with
  | absent _ => rfl
  | present _ htest =>
      rw [Option.toList_some, complexityOf, complexityOf, htest.complexity_eq.1,
        Complexity.join_zero]

mutual

/-- A condition is nested in canonical text at most one level deeper for each connective. -/
theorem Condition.nestsWithin {c : Syntax.Condition} {cs rest : List Char} :
    Condition size cs c rest → NestsWithin c.cost.depth c.tree
  | .chain hfirst hlinks =>
      Chain.fold_induction .connect (hfirst.nestsWithin.mono (Nat.le_max_left _ _))
        fun link hmem => (hlinks.nestsWithin link hmem).mono (Nat.le_max_right _ _)

theorem Links.nestsWithin {links : Syntax.Links} {cs rest : List Char} :
    Links size cs links rest → ∀ link ∈ links.toList, NestsWithin links.cost.depth link.condition
  | .nil _ => fun _ hmem => by cases hmem
  | .cons _ _ hoperand hlinks => by
      have hdepth : ∀ a b : Complexity, (Complexity.link.join (a.join b)).depth =
          max a.depth b.depth := fun a b => Nat.zero_max _
      rw [Syntax.Links.cost, hdepth]
      exact List.forall_mem_cons.mpr ⟨hoperand.nestsWithin.mono (Nat.le_max_left _ _),
        fun link hmem => (hlinks.nestsWithin link hmem).mono (Nat.le_max_right _ _)⟩

theorem Operand.nestsWithin {o : Syntax.Operand} {cs rest : List Char} :
    Operand size cs o rest → NestsWithin o.cost.depth o.tree
  | .group _ hinner _ => hinner.nestsWithin.mono (Nat.le_succ _)
  | .truth _ _ => Complexity.within_zero
  | .test _ _ _ _ htest => by
      rw [Syntax.Operand.tree, NestsWithin, htest.complexity_eq.1, htest.complexity_eq.2]
      exact Complexity.within_zero
  | .call _ _ _ _ harguments htrailing => by
      rw [Syntax.Operand.tree, NestsWithin, complexity, complexityOf_append,
        htrailing.complexity_eq, Complexity.join_zero]
      exact harguments.within.nest

theorem Arguments.within {first : Bool} {as : Syntax.Arguments} {cs rest : List Char} :
    Arguments size first cs as rest → (complexityOf as.trees).Within as.cost.depth
  | .nil _ => Complexity.within_zero
  | .cons _ _ hargument hothers => hargument.within.join_max hothers.within

theorem Argument.within {a : Syntax.Argument} {cs rest : List Char} :
    Argument size cs a rest → a.tree.complexity.Within a.cost.depth
  | .value _ => Complexity.within_zero
  | .field _ _ _ => Complexity.within_zero
  | .condition _ _ hinner => hinner.nestsWithin.within

end

/-! ## Clauses that were read -/

/-- What the part is read as is nested in canonical text at most so much deeper. -/
structure Nests {α : Type} (part : Part α) (complexity : α → Complexity) : Prop where
  within : ∀ {cs rest : List Char} {a : α} {cost : Complexity}, part cs a cost rest →
    (complexity a).Within cost.depth

theorem nests_items {α : Type} {item : Part α} {expression : α → Expr}
    (hitem : Nests item fun a => (expression a).complexity) :
    Nests (Items item) fun as => complexityOf (as.map expression) := by
  constructor
  intro cs rest as cost h
  induction h with
  | last hlast _ => exact (hitem.within hlast).join Complexity.within_zero
  | more hfirst _ _ ih => exact (hitem.within hfirst).join_max ih

theorem nests_clause {α : Type} {keyword : Keyword} {body : Part α} {complexity : α → Complexity}
    (hbody : Nests body complexity) :
    Nests (Clause keyword body) fun found => (found.map complexity).getD .zero := by
  constructor
  intro cs rest a cost h
  cases h with
  | absent _ => exact Complexity.within_zero
  | present _ hfound => exact hbody.within hfound

theorem nests_list {α : Type} {keyword : Keyword} {item : Part α} {expression : α → Expr}
    (hitem : Nests item fun a => (expression a).complexity) :
    Nests (Clause keyword (Items item)) fun found =>
      complexityOf ((found.getD []).map expression) := by
  constructor
  intro cs rest a cost h
  cases h with
  | absent _ => exact Complexity.within_zero
  | present _ hitems => exact (nests_items hitem).within hitems

theorem FieldOrCall.within {e : Expr} {cost : Complexity} (h : FieldOrCall size cs e cost rest) :
    e.complexity.Within cost.depth := by
  cases h with
  | field _ _ => exact Complexity.within_zero
  | call _ _ harguments => exact harguments.within.nest

theorem nests_filter : Nests (Filter size) complexity := by
  constructor
  rintro cs rest _ _ ⟨hcondition⟩
  exact hcondition.nestsWithin.within

theorem nests_orderTerm : Nests (OrderTerm size) fun term => term.key.complexity := by
  constructor
  rintro cs rest _ cost ⟨hkey, -, -⟩
  exact hkey.within

theorem nests_projection (needsAs : Bool) :
    Nests (Projection size needsAs) fun entry => entry.body.complexity := by
  constructor
  rintro cs rest _ cost ⟨hbody, -⟩
  cases hbody with
  | named hnamed => exact hnamed.within
  | value _ _ => exact Complexity.within_zero

theorem nests_include : Nests (Include size) complexity := by
  constructor
  intro cs rest e cost h
  cases h with
  | value _ => exact Complexity.within_zero
  | field _ _ => exact Complexity.within_zero

theorem nests_selection : Nests (Clause .select (Selection size)) fun found =>
    complexityOf (((found.getD .none).entries.getD []).map Projection.body) := by
  constructor
  intro cs rest found cost h
  cases h with
  | absent _ => exact Complexity.within_zero
  | present _ hselection =>
      cases hselection with
      | all _ _ => exact Complexity.within_zero
      | script _ _ _ => exact Complexity.within_zero
      | entries _ _ _ hitems => exact (nests_items (nests_projection true)).within hitems

theorem nests_source : Nests (Source size) DocQuery.Source.complexity := by
  constructor
  intro cs rest source cost h
  cases h with
  | collection _ _ _ hfilter _ =>
      cases hfilter with
      | absent _ => exact Complexity.within_zero
      | present _ hcondition _ => exact hcondition.nestsWithin.within.nest
  | index _ _ _ _ => exact Complexity.within_zero

/-- The canonical text of a query is nested at most so much deeper than the text that was read. -/
theorem Query.within {kind : QueryKind} {text : String} {q : DocQuery.Query} {cost : Complexity}
    (h : Query kind text q cost) : q.complexity.Within cost.depth := by
  cases h with
  | mk _ hbody hending _ =>
  cases hbody with
  | @mk _ _ _ _ _ _ _ _ _ _ _ _ c₂ _ _ _ hsource _ hfilter horder hload =>
  have hclauses := ((nests_clause nests_filter).within hfilter).join_max
    (((nests_list nests_orderTerm).within horder).join_max
      ((nests_list (nests_projection false)).within hload))
  -- neither the declared functions nor the fields of GROUP BY are nested in canonical text
  have hbody := (nests_source.within hsource).join_max
    ((@Complexity.within_zero c₂.depth).join_max hclauses)
  rw [Complexity.zero_join] at hbody
  rw [DocQuery.Query.complexity_eq]
  refine Complexity.Within.mono ?_ (Nat.le_max_right _ _)
  cases hending with
  | select hselect hincludes =>
      have hincluded := (@nests_list _ _ _ id nests_include).within hincludes
      rw [List.map_id] at hincluded
      have hall := hbody.join_max ((nests_selection.within hselect).join_max hincluded)
      simp only [Complexity.join_assoc] at hall
      exact hall
  | update _ _ =>
      have hall := hbody.join_max ((@Complexity.within_zero 0).join Complexity.within_zero)
      simp only [Complexity.join_assoc] at hall
      exact hall

end Written

/-! ## Connectives of canonical text -/

@[simp]
theorem Complexity.connectives_inParens (wanted : Bool) (cost : Complexity) :
    (cost.inParens wanted).connectives = cost.connectives := by
  cases wanted <;> rfl

namespace Expr

mutual

/-- Canonical text has the connectives of the expression. -/
theorem connectives_complexity : ∀ e : Expr, e.complexity.connectives = e.connectives
  | .field _ => rfl
  | .value _ => rfl
  | .binary (.compare _) left right => by
      rw [complexity, connectives, Complexity.join, connectives_complexity left,
        connectives_complexity right]
      exact (congrArg (· + right.connectives) (Nat.zero_add left.connectives)).symm
  | .binary (.connect connective) left right => by
      have hconnect := connectives_connect connective left right
      rw [connect] at hconnect
      rw [hconnect, complexity]
      simp only [Complexity.join, Complexity.link, Complexity.connectives_inParens,
        connectives_complexity left, connectives_complexity right]
      omega
  | .between _ _ _ => rfl
  | .within _ _ _ => rfl
  | .call _ arguments => connectives_complexityOf arguments
  | .truth => rfl

theorem connectives_complexityOf :
    ∀ es : List Expr, (complexityOf es).connectives = connectivesOf es
  | [] => rfl
  | e :: es => by
      rw [complexityOf, connectivesOf, ← connectives_complexity e, ← connectives_complexityOf es]
      rfl

end

end Expr

namespace Query

theorem expressions_eq (query : Query) :
    query.expressions = query.source.filter.toList ++ query.clauseExpressions := by
  have hitems : ∀ {α : Type} (expression : α → Expr) (found : Option (List α)),
      found.toList.flatMap (·.flatMap fun a => [expression a]) =
        (found.getD []).map expression := by
    intro α expression found
    cases found with
    | none => rfl
    | some items => simp [List.map_eq_flatMap]
  have hincludes := hitems id query.includes
  rw [List.map_id] at hincludes
  rw [expressions, clauseExpressions, hitems OrderTerm.key, hitems Projection.body,
    hitems Projection.body, show query.includes.toList.flatMap (·.flatMap fun e => [e]) = _
      from hincludes]
  simp only [List.append_assoc]

/-- Canonical text has the connectives of the query. -/
theorem connectives_complexity (query : Query) :
    query.complexity.connectives = query.connectives := by
  have hsource : query.source.complexity.connectives =
      Expr.connectivesOf query.source.filter.toList := by
    rw [Source.complexity]
    cases query.source.filter with
    | none => rfl
    | some e => simp [Complexity.nest, Expr.connectives_complexity, Expr.connectivesOf]
  rw [connectives, expressions_eq, Expr.connectivesOf_append, ← hsource,
    ← Expr.connectives_complexityOf]
  rfl

/-! ## Limits and canonical text -/

open Grammar

variable {kind : QueryKind} {limits : Limits} {text : String} {q : Query}

/--
The limits under which a plain query was parsed admit its canonical text exactly
if that is not nested too deep for them.  One more level for each connective of
the query is always enough.
-/
theorem parse_render_iff_depth_le (h : parse kind limits text = .ok q) (hplain : q.isPlain = true) :
    ((∃ r, parse kind limits q.render = .ok r) ↔ q.complexity.depth ≤ limits.maxDepth) ∧
      ∀ depth, limits.maxDepth + q.connectives ≤ depth →
        ∃ r, parse kind ⟨depth, limits.maxConnectives⟩ q.render = .ok r ∧ (r == q) = true := by
  obtain ⟨cost, hwritten⟩ := written_of_parse h
  obtain ⟨costs, clauses, hfunctions, rfl, hclauses⟩ := hwritten.allDeclared
  obtain ⟨r, hread, hsame⟩ := (hwritten.legible hplain).written hfunctions
  have hwithin := hwritten.within
  have hcount := q.connectives_complexity
  obtain ⟨hdepth, hconnectives⟩ := (exists_parse_iff hwritten).mp ⟨q, h⟩
  -- the functions and the connectives fit because they did in the text that was read
  have hadmits : ∀ depth, limits.maxDepth ≤ depth → q.complexity.depth ≤ depth →
      (⟨depth, limits.maxConnectives⟩ : Limits).Admits (costs.join q.complexity) := by
    intro depth hmore hle
    simp only [Complexity.join, Limits.Admits] at *
    omega
  constructor
  · rw [exists_parse_iff hread]
    exact ⟨fun hfits => Nat.le_trans (Nat.le_max_right _ _) hfits.1,
      hadmits limits.maxDepth (Nat.le_refl _)⟩
  · intro depth hmore
    rw [Complexity.Within, hcount] at hwithin
    exact ⟨r, parse_of_admits hread (hadmits depth (by omega) (by omega)), beq_iff.mpr hsame⟩

/-- Groups side by side are parsed with one level, but their canonical text needs another one. -/
theorem parse_render_iff_depth_le_nested :
    ∃ q, parse .select ⟨1, 4⟩ "FROM X WHERE a = 1 AND (b = 2) AND c = 3 AND (d = 4) AND e = 5" =
        .ok q ∧ q.isPlain = true ∧ (¬∃ r, parse .select ⟨1, 4⟩ q.render = .ok r) ∧
      ∃ r, parse .select ⟨5, 4⟩ q.render = .ok r ∧ (r == q) = true := by
  have hparsed :
      (parse .select ⟨1, 4⟩ "FROM X WHERE a = 1 AND (b = 2) AND c = 3 AND (d = 4) AND e = 5").toOption.any
        (fun q => q.isPlain && q.complexity == ⟨2, 4⟩) = true := by
    decide +kernel
  obtain ⟨q, hq, hchecked⟩ := (Option.any_eq_true _ _).mp hparsed
  rw [Bool.and_eq_true, beq_iff_eq] at hchecked
  obtain ⟨hplain, hcost⟩ := hchecked
  have hparse := parse_of_toOption hq
  obtain ⟨hlimits, hdeeper⟩ := parse_render_iff_depth_le hparse hplain
  refine ⟨q, hparse, hplain, ?_, hdeeper 5 ?_⟩
  · rw [hlimits, hcost]
    decide
  · rw [← connectives_complexity, hcost]
    decide

end Query

end DocQuery
