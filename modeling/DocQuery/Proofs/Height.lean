import DocQuery.Proofs.Canonical.Chain
import DocQuery.Proofs.WellFormed

/-!
# The height of what is read

Connectives and calls make a tree higher, one level each.  A chain puts no more
levels above its conditions than it has connectives, however it groups them, and
the arguments of a call are nested one level deeper in the text than the call.
So the limits of a reader bound the height of every tree that it reads.  Two
levels are left for a test.  The main statement is `Query.height_le`.
-/

namespace DocQuery

/-! ## Height -/

namespace Expr

mutual

/-- The levels of an expression, a field, a value and `true` being one. -/
def height : Expr → Nat
  | .field _ => 1
  | .value _ => 1
  | .binary _ left right => max left.height right.height + 1
  | .between _ _ _ => 2
  | .within _ _ _ => 2
  | .call _ arguments => heightOf arguments + 1
  | .truth => 1

/-- The levels of the highest of several expressions. -/
def heightOf : List Expr → Nat
  | [] => 0
  | e :: es => max e.height (heightOf es)

end

theorem height_connect (connective : Connective) (left right : Expr) :
    (connect connective left right).height = max left.height right.height + 1 := rfl

theorem heightOf_le {es : List Expr} {n : Nat} (h : ∀ e ∈ es, e.height ≤ n) : heightOf es ≤ n := by
  induction es with
  | nil => exact Nat.zero_le n
  | cons e es ih =>
      obtain ⟨hfirst, hothers⟩ := List.forall_mem_cons.mp h
      exact Nat.max_le.mpr ⟨hfirst, ih hothers⟩

/-- A comparison of a field with a value has two levels. -/
example (path : Path) (comparison : Comparison) (v : Value) :
    (compare (.field path) comparison v).height = 2 := rfl

end Expr

/-- The links of a chain put no more levels above its conditions than there are links. -/
theorem Chain.height_fold_le {links : List Link} {e : Expr} {n : Nat}
    (he : e.height + links.length ≤ n)
    (h : ∀ link ∈ links, link.condition.height + links.length ≤ n) :
    (fold ⟨e, links⟩).height ≤ n := by
  induction links generalizing e n with
  | nil => exact he
  | cons link links ih =>
      obtain ⟨hlink, h⟩ := List.forall_mem_cons.mp h
      simp only [List.length_cons] at he hlink h
      cases htight : link.isTight with
      | true =>
          rw [fold_tight e links htight]
          refine ih ?_ fun other hother => ?_
          · rw [Expr.height_connect]
            omega
          · have hheight := h other hother
            omega
      | false =>
          obtain ⟨m, rfl⟩ : ∃ m, n = m + 1 := Nat.exists_eq_add_of_le' (by omega)
          have hbehind : (fold ⟨link.condition, links⟩).height ≤ m :=
            ih (by omega) fun other hother => by
              have hheight := h other hother
              omega
          rw [fold_loose e links htight, Expr.height_connect]
          omega

/-! ## Height and cost -/

namespace Complexity

variable {a b : Complexity} {e : Expr}

/-- The expression has at most two levels more than the cost counts. -/
def Covers (cost : Complexity) (e : Expr) : Prop :=
  e.height ≤ cost.total + 2

theorem Covers.join_left (h : a.Covers e) (b : Complexity) : (a.join b).Covers e := by
  simp only [Covers, total, join] at *
  omega

theorem Covers.join_right (h : b.Covers e) (a : Complexity) : (a.join b).Covers e := by
  simp only [Covers, total, join] at *
  omega

theorem Covers.nest (h : a.Covers e) : a.nest.Covers e := by
  rw [Covers] at *
  rw [total_nest]
  omega

/-- What a call has inside of it is nested. -/
theorem Covers.call {name : Path} {es : List Expr} (h : ∀ e ∈ es, a.Covers e) :
    a.nest.Covers (.call name es) := by
  have hheight : Expr.heightOf es ≤ a.total + 2 := Expr.heightOf_le h
  rw [Covers, Expr.height, total_nest]
  omega

theorem covers_field (cost : Complexity) (path : Path) : cost.Covers (.field path) :=
  Nat.le_add_left 1 (cost.total + 1)

theorem covers_value (cost : Complexity) (v : Value) : cost.Covers (.value v) :=
  Nat.le_add_left 1 (cost.total + 1)

end Complexity

/-- Each link has a connective to count. -/
theorem Syntax.Links.length_le_connectives : (links : Links) →
    links.toList.length ≤ links.cost.connectives
  | .nil => Nat.le_refl 0
  | .cons _ operand links => by
      have hlength := length_le_connectives links
      simp only [toList, List.length_cons, cost, Complexity.join, Complexity.link]
      omega

namespace Written

open Complexity

variable {size : Nat} {cs rest : List Char}

/-! ## Height of conditions -/

theorem Test.covers {subject : DocQuery.Path} {test : Grammar.Test} {e : Expr}
    (h : Test size subject test cs e rest) (cost : Complexity) : cost.Covers e := by
  have hheight : e.height = 2 := by
    cases h <;> rfl
  rw [Covers, hheight]
  exact Nat.le_add_left 2 cost.total

theorem Trailing.covers {trailing : Option Expr} (h : Trailing size cs trailing rest)
    (cost : Complexity) : ∀ e ∈ trailing.toList, cost.Covers e := by
  cases h with
  | absent _ => exact fun _ hmem => by cases hmem
  | present _ htest => exact List.forall_mem_singleton.mpr (htest.covers cost)

mutual

/-- A condition is no higher than its connectives and what it nests. -/
theorem Condition.covers {c : Syntax.Condition} {cs rest : List Char} :
    Condition size cs c rest → c.cost.Covers c.tree
  | @Condition.chain _ _ _ _ first links hfirst hlinks => by
      have hheight := hfirst.covers
      have hlength := links.length_le_connectives
      simp only [Covers, Complexity.total] at hheight
      rw [Syntax.Condition.tree, Syntax.Condition.cost, Covers]
      simp only [Complexity.total, Complexity.join]
      refine Chain.height_fold_le (by omega) fun link hmem => ?_
      have hlink := hlinks.height_add_length_le link hmem
      omega

/-- The operands behind the first one leave room for the links. -/
theorem Links.height_add_length_le {links : Syntax.Links} {cs rest : List Char} :
    Links size cs links rest → ∀ link ∈ links.toList,
      link.condition.height + links.toList.length ≤
        links.cost.depth + links.cost.connectives + 2
  | .nil _ => fun _ hmem => by cases hmem
  | @Links.cons _ _ _ _ _ _ _ _ _ operand links _ _ hoperand hlinks => by
      have hheight := hoperand.covers
      have hlength := links.length_le_connectives
      simp only [Covers, Complexity.total] at hheight
      simp only [Syntax.Links.toList, List.length_cons, Syntax.Links.cost, Complexity.join,
        Complexity.link]
      refine List.forall_mem_cons.mpr ⟨by dsimp only; omega, fun link hmem => ?_⟩
      have hlink := hlinks.height_add_length_le link hmem
      omega

theorem Operand.covers {o : Syntax.Operand} {cs rest : List Char} :
    Operand size cs o rest → o.cost.Covers o.tree
  | .group _ hinner _ => hinner.covers.nest
  | .truth _ _ => Nat.le_add_left 1 1
  | .test _ _ _ _ htest => htest.covers .zero
  | .call _ _ _ _ harguments htrailing => by
      refine Covers.call fun e hmem => ?_
      rcases List.mem_append.mp hmem with hmem | hmem
      · exact harguments.covers e hmem
      · exact htrailing.covers _ e hmem

theorem Arguments.covers {first : Bool} {as : Syntax.Arguments} {cs rest : List Char} :
    Arguments size first cs as rest → ∀ e ∈ as.trees, as.cost.Covers e
  | .nil _ => fun _ hmem => by cases hmem
  | .cons _ _ hargument hothers => List.forall_mem_cons.mpr ⟨hargument.covers.join_left _,
      fun e hmem => (hothers.covers e hmem).join_right _⟩

theorem Argument.covers {a : Syntax.Argument} {cs rest : List Char} :
    Argument size cs a rest → a.cost.Covers a.tree
  | .value _ => covers_value _ _
  | .field _ _ _ => covers_field _ _
  | .condition _ _ hinner => hinner.covers

end

/-! ## Height of clauses -/

/-- The cost of the part covers the expression in what it is read as. -/
structure Covered {α : Type} (part : Part α) (expression : α → Expr) : Prop where
  covers : ∀ {cs rest : List Char} {a : α} {cost : Complexity}, part cs a cost rest →
    cost.Covers (expression a)

section Shapes

variable {α : Type} {expression : α → Expr} {cost : Complexity}

theorem Items.covers {item : Part α} {as : List α} (h : Items item cs as cost rest)
    (hitem : Covered item expression) : ∀ a ∈ as, cost.Covers (expression a) := by
  induction h with
  | last ha _ => exact List.forall_mem_singleton.mpr (hitem.covers ha)
  | more ha _ _ ih => exact List.forall_mem_cons.mpr ⟨(hitem.covers ha).join_left _,
      fun a hmem => (ih a hmem).join_right _⟩

theorem Clause.covers {keyword : Keyword} {body : Part α} {found : Option α}
    (h : Clause keyword body cs found cost rest) (hbody : Covered body expression) :
    ∀ a ∈ found, cost.Covers (expression a) := by
  cases h with
  | absent _ => exact fun _ hmem => by cases hmem
  | present _ ha =>
      intro _ hmem
      cases hmem
      exact hbody.covers ha

theorem Clause.covers_items {keyword : Keyword} {item : Part α} {found : Option (List α)}
    (h : Clause keyword (Items item) cs found cost rest) (hitem : Covered item expression) :
    ∀ a ∈ found.getD [], cost.Covers (expression a) := by
  cases h with
  | absent _ => exact fun _ hmem => by cases hmem
  | present _ hitems => exact hitems.covers hitem

end Shapes

theorem FieldOrCall.covers {e : Expr} {cost : Complexity} (h : FieldOrCall size cs e cost rest) :
    cost.Covers e := by
  cases h with
  | field _ _ => exact covers_field _ _
  | call _ _ harguments => exact .call harguments.covers

theorem covered_filter : Covered (Filter size) id := by
  constructor
  rintro _ _ _ _ ⟨hcondition⟩
  exact hcondition.covers

theorem covered_orderTerm : Covered (OrderTerm size) DocQuery.OrderTerm.key := by
  constructor
  rintro _ _ _ _ ⟨hkey, -, -⟩
  exact hkey.covers

theorem covered_projection (needsAs : Bool) :
    Covered (Projection size needsAs) DocQuery.Projection.body := by
  constructor
  rintro _ _ _ _ ⟨hbody, -⟩
  cases hbody with
  | named hnamed => exact hnamed.covers
  | value _ _ => exact covers_value _ _

theorem covered_include : Covered (Include size) id := by
  constructor
  intro cs rest e cost h
  cases h with
  | value _ => exact covers_value _ _
  | field _ _ => exact covers_field _ _

theorem Source.covers {source : DocQuery.Source} {cost : Complexity}
    (h : Source size cs source cost rest) : ∀ e ∈ source.filter, cost.Covers e := by
  cases h with
  | collection _ _ _ hfilter _ =>
      cases hfilter with
      | absent _ => exact fun _ hmem => by cases hmem
      | present _ hcondition _ =>
          intro _ hmem
          cases hmem
          exact hcondition.covers.nest
  | index _ _ _ _ => exact fun _ hmem => by cases hmem

/-- The entries of SELECT are covered by what the clause costs. -/
theorem Clause.covers_selection {selection : Option Grammar.Selection} {cost : Complexity}
    (h : Clause .select (Selection size) cs selection cost rest) :
    ∀ entry ∈ (selection.getD .none).entries.getD [], cost.Covers entry.body := by
  cases h with
  | absent _ => exact fun _ hmem => by cases hmem
  | present _ hselection =>
      cases hselection with
      | all _ _ => exact fun _ hmem => by cases hmem
      | script _ _ _ => exact fun _ hmem => by cases hmem
      | entries _ _ _ hitems => exact hitems.covers (covered_projection true)

/-- The clauses up to LOAD are covered by what they cost together. -/
theorem Body.covers {text : String} {functions : Functions} {q : DocQuery.Query}
    {cost : Complexity} (h : Body size text functions cs q cost rest) :
    (∀ e ∈ q.source.filter, cost.Covers e) ∧ (∀ e ∈ q.filter, cost.Covers e) ∧
      (∀ term ∈ q.orderBy.getD [], cost.Covers term.key) ∧
      (∀ entry ∈ q.load.getD [], cost.Covers entry.body) ∧
      q.select = none ∧ q.includes = none := by
  cases h with
  | mk hsource _ hfilter horder hload =>
      refine ⟨fun e hmem => ?_, fun e hmem => ?_, fun term hmem => ?_, fun entry hmem => ?_,
        rfl, rfl⟩
      · exact (hsource.covers e hmem).join_left _
      · exact (((hfilter.covers covered_filter e hmem).join_left _).join_right _).join_right _
      · have hterm := horder.covers_items covered_orderTerm term hmem
        exact (((hterm.join_left _).join_right _).join_right _).join_right _
      · have hentry := hload.covers_items (covered_projection false) entry hmem
        exact (((hentry.join_right _).join_right _).join_right _).join_right _

/-- What a query ends with is covered by its cost, and nothing before it changes. -/
theorem Ending.covers {kind : QueryKind} {q found : DocQuery.Query} {cost : Complexity}
    (h : Ending size kind q cs found cost rest) (hselect : q.select = none)
    (hincludes : q.includes = none) :
    found.source = q.source ∧ found.filter = q.filter ∧ found.orderBy = q.orderBy ∧
      found.load = q.load ∧ (∀ entry ∈ found.select.getD [], cost.Covers entry.body) ∧
      ∀ e ∈ found.includes.getD [], cost.Covers e := by
  cases h with
  | select hselection hentries =>
      refine ⟨rfl, rfl, rfl, rfl, fun entry hmem => ?_, fun e hmem => ?_⟩
      · exact (hselection.covers_selection entry hmem).join_left _
      · exact (hentries.covers_items covered_include e hmem).join_right _
  | update _ _ =>
      simp [hselect, hincludes]

/-- No expression of a query is higher than what the text of the query costs. -/
theorem Query.covers {kind : QueryKind} {text : String} {q : DocQuery.Query} {cost : Complexity}
    (h : Query kind text q cost) : ∀ e ∈ q.expressions, cost.Covers e := by
  cases h with
  | @mk _ _ _ _ _ _ c₁ c₂ c₃ _ hbody hending _ =>
      obtain ⟨hsource, hfilter, horder, hload, hselect, hincludes⟩ := hbody.covers
      obtain ⟨hsourceEq, hfilterEq, horderEq, hloadEq, hentries, hincluded⟩ :=
        hending.covers hselect hincludes
      rw [← hsourceEq] at hsource
      rw [← hfilterEq] at hfilter
      rw [← horderEq] at horder
      rw [← hloadEq] at hload
      have hbefore : ∀ {e : Expr}, c₂.Covers e → (c₁.join (c₂.join c₃)).Covers e :=
        fun h => (h.join_left _).join_right _
      have hbehind : ∀ {e : Expr}, c₃.Covers e → (c₁.join (c₂.join c₃)).Covers e :=
        fun h => (h.join_right _).join_right _
      exact DocQuery.Query.forall_mem_expressions
        (fun e hmem => hbefore (hsource e hmem)) (fun e hmem => hbefore (hfilter e hmem))
        (fun term hmem => hbefore (horder term hmem))
        (fun entry hmem => hbefore (hload entry hmem))
        (fun entry hmem => hbehind (hentries entry hmem))
        (fun e hmem => hbehind (hincluded e hmem))

end Written

/-! ## Height and limits -/

/-- The limits bound the height of every expression of a query that is parsed under them. -/
theorem Query.height_le {kind : QueryKind} {limits : Grammar.Limits} {text : String} {q : Query}
    (h : parse kind limits text = .ok q) :
    ∀ e ∈ q.expressions, e.height ≤ limits.maxConnectives + limits.maxDepth + 2 := by
  obtain ⟨cost, hwritten⟩ := written_of_parse h
  obtain ⟨hdepth, hconnectives⟩ := (exists_parse_iff hwritten).mp ⟨q, h⟩
  intro e hmem
  have hheight := hwritten.covers e hmem
  rw [Complexity.Covers, Complexity.total] at hheight
  omega

/-- A call with a connective in front of it is as high as its limits allow. -/
theorem Query.height_le_call :
    ∃ q e, parse .select ⟨1, 1⟩ "FROM X WHERE a = 1 AND f(b = 2)" = .ok q ∧
      q.expressions = [e] ∧ e.height = 4 ∧ e.height ≤ 1 + 1 + 2 := by
  have hparsed : (parse .select ⟨1, 1⟩ "FROM X WHERE a = 1 AND f(b = 2)").toOption.any
      (fun q => q.expressions.map Expr.height == [4]) = true := by
    decide +kernel
  obtain ⟨q, hq, hheights⟩ := (Option.any_eq_true _ _).mp hparsed
  obtain ⟨e, hexpressions, hheight⟩ := List.map_eq_singleton_iff.mp (beq_iff_eq.mp hheights)
  have hparse := parse_of_toOption hq
  exact ⟨q, e, hparse, hexpressions, hheight,
    height_le hparse e (hexpressions ▸ List.mem_singleton.mpr rfl)⟩

end DocQuery
