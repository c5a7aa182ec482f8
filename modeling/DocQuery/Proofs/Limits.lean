import DocQuery.Proofs.Grammar.Complete.Clause
import DocQuery.Proofs.Grammar.Sound.Clause
import DocQuery.Proofs.Spine

/-!
# The two limits are thresholds

A text has one cost: how deep its groups and calls are nested, and how many
connectives it has.  Limits that the cost fits change nothing, and all others
refuse the text.  Outside of declared functions the connectives of the text are
those of the query.  The main statement is `Query.parse_thresholds`.
-/

namespace DocQuery

open Grammar Lexical

/-! ## Connectives of expressions -/

namespace Expr

mutual

/-- The connectives in an expression and in all that it has inside. -/
def connectives : Expr → Nat
  | .field _ => 0
  | .value _ => 0
  | .binary operator left right =>
      (if operator.isConnective then 1 else 0) + left.connectives + right.connectives
  | .between _ _ _ => 0
  | .within _ _ _ => 0
  | .call _ arguments => connectivesOf arguments
  | .truth => 0

/-- The connectives in several expressions. -/
def connectivesOf : List Expr → Nat
  | [] => 0
  | e :: es => e.connectives + connectivesOf es

end

theorem connectives_connect (connective : Connective) (left right : Expr) :
    (connect connective left right).connectives = left.connectives + (right.connectives + 1) := by
  simp only [connect, connectives, Operator.isConnective, Operator.isComparison, Bool.not_false,
    if_true]
  omega

theorem connectivesOf_append (es ds : List Expr) :
    connectivesOf (es ++ ds) = connectivesOf es + connectivesOf ds := by
  induction es with
  | nil => simp [connectivesOf]
  | cons e es ih =>
      rw [List.cons_append, connectivesOf, connectivesOf, ih]
      omega

end Expr

/-- The connectives of links and of the conditions that they link. -/
def Link.connectivesOf : List Link → Nat
  | [] => 0
  | link :: links => link.condition.connectives + 1 + connectivesOf links

namespace Spine

/-- The connectives of a spine and of what hangs there. -/
def connectives : Spine → Nat
  | [] => 0
  | (_, right) :: spine => right.connectives + 1 + connectives spine

theorem connectives_plug (e : Expr) (spine : Spine) :
    (plug e spine).connectives = e.connectives + spine.connectives := by
  induction spine generalizing e with
  | nil => rfl
  | cons top spine ih =>
      obtain ⟨c, right⟩ := top
      rw [plug, ih, Expr.connectives_connect, connectives]
      omega

/-- Each link of a chain gives one connective, wherever it goes. -/
theorem connectives_ofLinks (links : List Link) :
    (ofLinks links).connectives = Link.connectivesOf links := by
  induction links with
  | nil => rfl
  | cons link links ih =>
      rw [Link.connectivesOf, ← ih, ofLinks]
      split
      · rfl
      · simp only [connectives, connectives_plug]
        omega

end Spine

/-! ## Connectives of what is written -/

namespace Written

variable {size : Nat} {cs rest : List Char}

theorem Test.connectives_eq {subject : DocQuery.Path} {test : Grammar.Test} {e : Expr}
    (h : Test size subject test cs e rest) : e.connectives = 0 := by
  cases h <;> rfl

theorem Trailing.connectives_eq {trailing : Option Expr}
    (h : Trailing size cs trailing rest) : Expr.connectivesOf trailing.toList = 0 := by
  cases h with
  | absent _ => rfl
  | present _ htest => exact htest.connectives_eq

mutual

/-- The tree of a condition has the connectives that the condition is written with. -/
theorem Condition.connectives_eq {c : Syntax.Condition} {cs rest : List Char} :
    Condition size cs c rest → c.tree.connectives = c.cost.connectives
  | .chain hfirst hlinks => by
      rw [Syntax.Condition.tree, Chain.fold_eq, Spine.connectives_plug,
        Spine.connectives_ofLinks, hfirst.connectives_eq, hlinks.connectives_eq]
      rfl

theorem Links.connectives_eq {links : Syntax.Links} {cs rest : List Char} :
    Links size cs links rest →
    Link.connectivesOf links.toList = links.cost.connectives
  | .nil _ => rfl
  | .cons _ _ hoperand hlinks => by
      rw [Syntax.Links.toList, Link.connectivesOf, hlinks.connectives_eq, hoperand.connectives_eq]
      simp only [Syntax.Links.cost, Complexity.join, Complexity.link]
      omega

theorem Operand.connectives_eq {o : Syntax.Operand} {cs rest : List Char} :
    Operand size cs o rest → o.tree.connectives = o.cost.connectives
  | .group _ hinner _ => hinner.connectives_eq
  | .truth _ _ => rfl
  | .test _ _ _ _ htest => htest.connectives_eq
  | .call _ _ _ _ harguments htrailing => by
      rw [Syntax.Operand.tree, Expr.connectives, Expr.connectivesOf_append,
        harguments.connectives_eq, htrailing.connectives_eq]
      rfl

theorem Arguments.connectives_eq {first : Bool} {as : Syntax.Arguments} {cs rest : List Char} :
    Arguments size first cs as rest →
    Expr.connectivesOf as.trees = as.cost.connectives
  | .nil _ => rfl
  | .cons _ _ hargument hothers => by
      rw [Syntax.Arguments.trees, Expr.connectivesOf, hargument.connectives_eq,
        hothers.connectives_eq]
      rfl

theorem Argument.connectives_eq {a : Syntax.Argument} {cs rest : List Char} :
    Argument size cs a rest → a.tree.connectives = a.cost.connectives
  | .value _ => rfl
  | .field _ _ _ => rfl
  | .condition _ _ hinner => hinner.connectives_eq

end

/-- The connectives of what the part is read as are those that it is written with. -/
structure Counts {α : Type} (part : Part α) (expressions : α → List Expr) : Prop where
  connectives_eq : ∀ {cs rest : List Char} {a : α} {cost : Complexity}, part cs a cost rest →
    Expr.connectivesOf (expressions a) = cost.connectives

theorem counts_items {α : Type} {item : Part α} {expressions : α → List Expr}
    (hitem : Counts item expressions) : Counts (Items item) (·.flatMap expressions) := by
  constructor
  intro cs rest as cost h
  induction h with
  | last hlast _ =>
      rw [List.flatMap_singleton]
      exact hitem.connectives_eq hlast
  | more hfirst _ _ ih =>
      rw [List.flatMap_cons, Expr.connectivesOf_append, hitem.connectives_eq hfirst, ih]
      rfl

theorem counts_clause {α : Type} {keyword : Keyword} {body : Part α}
    {expressions : α → List Expr} (hbody : Counts body expressions) :
    Counts (Clause keyword body) (·.toList.flatMap expressions) := by
  constructor
  intro cs rest a cost h
  cases h with
  | absent _ => rfl
  | present _ hrest =>
      rw [Option.toList_some, List.flatMap_singleton]
      exact hbody.connectives_eq hrest

theorem counts_filter : Counts (Filter size) fun filter => [filter] := by
  constructor
  intro cs rest filter cost h
  cases h with
  | mk hcondition => exact hcondition.connectives_eq

theorem FieldOrCall.connectives_eq {e : Expr} {cost : Complexity}
    (h : FieldOrCall size cs e cost rest) : e.connectives = cost.connectives := by
  cases h with
  | field _ _ => rfl
  | call _ _ harguments => exact harguments.connectives_eq

theorem counts_groupField : Counts (GroupField size) fun _ => [] := by
  constructor
  intro cs rest p cost h
  cases h with
  | mk _ => rfl

theorem counts_orderTerm : Counts (OrderTerm size) fun term => [term.key] := by
  constructor
  intro cs rest term cost h
  cases h with
  | mk hkey _ _ => exact hkey.connectives_eq

theorem counts_projection (needsAs : Bool) :
    Counts (Projection size needsAs) fun entry => [entry.body] := by
  constructor
  intro cs rest entry cost h
  cases h with
  | mk hbody _ =>
      cases hbody with
      | named hnamed => exact hnamed.connectives_eq
      | value _ _ => rfl

theorem counts_include : Counts (Include size) fun e => [e] := by
  constructor
  intro cs rest e cost h
  cases h with
  | value _ => rfl
  | field _ _ => rfl

theorem counts_selection :
    Counts (Selection size) fun selection =>
      selection.entries.toList.flatMap (·.flatMap fun entry => [entry.body]) := by
  constructor
  intro cs rest selection cost h
  cases h with
  | all _ _ => rfl
  | script _ _ _ => rfl
  | entries _ _ _ hitems =>
      rw [Option.toList_some, List.flatMap_singleton]
      exact (counts_items (counts_projection true)).connectives_eq hitems

theorem counts_source : Counts (Source size) (·.filter.toList) := by
  constructor
  intro cs rest source cost h
  cases h with
  | collection _ _ _ hfilter _ =>
      cases hfilter with
      | absent _ => rfl
      | present _ hinner _ => exact hinner.connectives_eq
  | index _ _ _ _ => rfl

end Written

/-! ## Connectives of a query -/

namespace Query

/-- The expressions of a query, in the order of its clauses. -/
def expressions (query : Query) : List Expr :=
  query.source.filter.toList ++ query.filter.toList ++
    query.orderBy.toList.flatMap (·.flatMap fun term => [term.key]) ++
    query.load.toList.flatMap (·.flatMap fun entry => [entry.body]) ++
    query.select.toList.flatMap (·.flatMap fun entry => [entry.body]) ++
    query.includes.toList.flatMap (·.flatMap fun e => [e])

/-- The connectives in all expressions of a query. -/
def connectives (query : Query) : Nat :=
  Expr.connectivesOf query.expressions

end Query

namespace Written

variable {size : Nat} {cs rest : List Char}

theorem Body.connectives_eq {text : String} {functions : Functions} {query : DocQuery.Query}
    {cost : Complexity} (h : Body size text functions cs query cost rest) :
    query.connectives = cost.connectives ∧ query.select = none ∧ query.includes = none ∧
      query.functions = functions := by
  cases h with
  | mk hsource hgroup hfilter horder hload =>
      have h₁ := counts_source.connectives_eq hsource
      have h₂ := (counts_clause (counts_items counts_groupField)).connectives_eq hgroup
      have h₃ := (counts_clause counts_filter).connectives_eq hfilter
      have h₄ := (counts_clause (counts_items counts_orderTerm)).connectives_eq horder
      have h₅ := (counts_clause (counts_items (counts_projection false))).connectives_eq hload
      rw [List.flatMap_singleton'] at h₃
      refine ⟨?_, rfl, rfl, rfl⟩
      have hnone : ∀ paths : Option (List DocQuery.Path),
          paths.toList.flatMap (·.flatMap fun _ => ([] : List Expr)) = [] := by
        intro paths
        cases paths <;> simp
      rw [hnone] at h₂
      simp only [Query.connectives, Query.expressions, Query.ofSource, Option.toList_none,
        List.flatMap_nil, List.append_nil, Expr.connectivesOf_append, h₁, h₃, h₄, h₅]
      simp only [Expr.connectivesOf] at h₂
      simp only [Complexity.join]
      omega

theorem Ending.connectives_eq {kind : QueryKind} {query found : DocQuery.Query}
    {cost : Complexity} (hselect : query.select = none) (hincludes : query.includes = none)
    (h : Ending size kind query cs found cost rest) :
    found.connectives = query.connectives + cost.connectives ∧
      found.functions = query.functions := by
  cases h with
  | @select _ _ _ _ selection includes _ _ hselection hinclude =>
      have h₁ := (counts_clause counts_selection).connectives_eq hselection
      have h₂ := (counts_clause (counts_items counts_include)).connectives_eq hinclude
      have hentries : selection.toList.flatMap (fun selection =>
          selection.entries.toList.flatMap (·.flatMap fun entry => [entry.body])) =
            (selection.getD .none).entries.toList.flatMap (·.flatMap fun entry => [entry.body]) := by
        cases selection with
        | none => rfl
        | some selection => rw [Option.toList_some, List.flatMap_singleton]; rfl
      rw [hentries] at h₁
      refine ⟨?_, rfl⟩
      simp only [Query.connectives, Query.expressions, hselect, hincludes, Option.toList_none,
        List.flatMap_nil, List.append_nil, Expr.connectivesOf_append, h₁, h₂, Complexity.join]
      omega
  | update _ _ => exact ⟨rfl, rfl⟩

/-- A text without a declared function has nothing to count for them. -/
theorem Declarations.zero_of_empty {known functions : Functions} {cost : Complexity}
    (h : Declarations size known cs functions cost rest) (hempty : functions.entries = []) :
    known.entries = [] ∧ cost = .zero := by
  induction h with
  | done _ => exact ⟨hempty, rfl⟩
  | @more known _ _ _ _ _ name script _ _ _ _ _ _ ih =>
      have hinsert := (ih hempty).1
      cases hentries : known.entries with
      | nil => simp [Functions.insert, Functions.insertEntry, hentries] at hinsert
      | cons entry entries =>
          simp only [Functions.insert, Functions.insertEntry, hentries] at hinsert
          split at hinsert
          · cases hinsert
          · split at hinsert <;> cases hinsert

/-- Where no function is declared, the connectives of the text are those of the query. -/
theorem Query.connectives_eq {kind : QueryKind} {text : String} {query : DocQuery.Query}
    {cost : Complexity} (h : Query kind text query cost)
    (hfunctions : query.functions.entries = []) : query.connectives = cost.connectives := by
  cases h with
  | mk hdeclarations hbody hending _ =>
      obtain ⟨hcount, hselect, hincludes, hdeclared⟩ := hbody.connectives_eq
      obtain ⟨hcount₁, hkept⟩ := hending.connectives_eq hselect hincludes
      rw [hkept, hdeclared] at hfunctions
      obtain ⟨-, rfl⟩ := hdeclarations.zero_of_empty hfunctions
      rw [hcount₁, hcount, Complexity.zero_join]
      rfl

end Written

/-! ## Thresholds -/

namespace Grammar.Limits

/-- The limits are beyond what a text of this size can cost. -/
structure AmpleFor (text : String) (limits : Limits) : Prop where
  depth : text.utf8ByteSize ≤ limits.maxDepth
  connectives : text.utf8ByteSize ≤ limits.maxConnectives

/-- The cost is within the limits. -/
def Admits (limits : Limits) (cost : Complexity) : Prop :=
  cost.depth ≤ limits.maxDepth ∧ cost.connectives ≤ limits.maxConnectives

theorem AmpleFor.admits_of_le {limits : Limits} {text : String} {cost : Complexity}
    (hample : limits.AmpleFor text) (hcost : cost.total ≤ text.toList.length) :
    limits.Admits cost := by
  have hbytes := Text.length_le_byteLength text.toList
  rw [← Text.utf8ByteSize_eq] at hbytes
  obtain ⟨hdepth, hconnectives⟩ := hample
  simp only [Complexity.total] at hcost
  constructor
  · omega
  · omega

theorem AmpleFor.admits {limits : Limits} {kind : QueryKind} {text : String} {q : Query}
    {cost : Complexity} (hample : limits.AmpleFor text) (h : Written.Query kind text q cost) :
    limits.Admits cost :=
  hample.admits_of_le h.cost_le

end Grammar.Limits

namespace Query

variable {kind : QueryKind} {text : String} {q : Query} {cost : Complexity}

theorem fits_start (limits : Limits) (text : String) (cost : Complexity) :
    Fits limits ⟨.ofText text, 0, 0⟩ cost ↔ limits.Admits cost := by
  simp only [Fits, Limits.Admits, Nat.zero_add]

/-- What is written is parsed under all limits that admit its cost. -/
theorem parse_of_admits (h : Written.Query kind text q cost) {limits : Limits}
    (hadmits : limits.Admits cost) : parse kind limits text = .ok q := by
  obtain ⟨s', hruns⟩ := query_complete h
  have hrun := hruns.fits ((fits_start limits text cost).mpr hadmits)
  rw [parse_eq, hrun]

/-- What is written is refused under all other limits, because of one of them. -/
theorem parse_of_not_admits (h : Written.Query kind text q cost) {limits : Limits}
    (hnot : ¬limits.Admits cost) :
    ∃ cause location, parse kind limits text = .error (.rejected (.refused cause location)) ∧
      (cause = .tooDeep limits.maxDepth ∨ cause = .tooManyConnectives limits.maxConnectives) := by
  obtain ⟨s', hruns⟩ := query_complete h
  have hzero : Fits limits ⟨.ofText text, 0, 0⟩ .zero :=
    (fits_start limits text .zero).mpr ⟨Nat.zero_le _, Nat.zero_le _⟩
  obtain ⟨cause, location, s, hcause, herror⟩ :=
    hruns.exceeds hzero (fun hfits => hnot ((fits_start limits text cost).mp hfits))
  exact ⟨cause, location, by rw [parse_eq, herror], hcause⟩

/-- What is written is parsed under just the limits that admit its cost. -/
theorem exists_parse_iff (h : Written.Query kind text q cost) {limits : Limits} :
    (∃ r, parse kind limits text = .ok r) ↔ limits.Admits cost := by
  constructor
  · rintro ⟨r, hparse⟩
    refine Classical.byContradiction fun hnot => ?_
    obtain ⟨cause, location, hrefused, -⟩ := parse_of_not_admits h hnot
    rw [hrefused] at hparse
    cases hparse
  · exact fun hadmits => ⟨q, parse_of_admits h hadmits⟩

/--
A text that ample limits refuse is refused under all limits.  A text that they
accept has a depth and a number of connectives, those of the grammar, such that
limits that admit both give the very same query and all others refuse the text
because of a limit.  Without declared functions the connectives are those in the
expressions of the query.
-/
theorem parse_thresholds (kind : QueryKind) (text : String) (ample : Limits)
    (hample : ample.AmpleFor text) :
    ((∃ failure, parse kind ample text = .error failure) →
      ∀ limits, ∃ failure, parse kind limits text = .error failure) ∧
    ∀ q, parse kind ample text = .ok q →
      ∃ depth connectives, Written.Query kind text q ⟨depth, connectives⟩ ∧
        (q.functions.entries = [] → connectives = q.connectives) ∧
        ∀ limits : Limits,
          (depth ≤ limits.maxDepth ∧ connectives ≤ limits.maxConnectives →
            parse kind limits text = .ok q) ∧
          (¬(depth ≤ limits.maxDepth ∧ connectives ≤ limits.maxConnectives) →
            ∃ cause location,
              parse kind limits text = .error (.rejected (.refused cause location)) ∧
              (cause = .tooDeep limits.maxDepth ∨
                cause = .tooManyConnectives limits.maxConnectives)) := by
  constructor
  · rintro ⟨failure, hample_fails⟩ limits
    cases hparse : parse kind limits text with
    | error other => exact ⟨other, rfl⟩
    | ok q =>
        obtain ⟨cost, hwritten⟩ := written_of_parse hparse
        have hok := parse_of_admits hwritten (hample.admits hwritten)
        rw [hok] at hample_fails
        cases hample_fails
  · intro q hparse
    obtain ⟨cost, hwritten⟩ := written_of_parse hparse
    refine ⟨cost.depth, cost.connectives, hwritten,
      fun hfunctions => (hwritten.connectives_eq hfunctions).symm, fun limits => ⟨?_, ?_⟩⟩
    · exact parse_of_admits hwritten
    · exact parse_of_not_admits hwritten

/-- A group with a connective is parsed as long as its depth and its connective are admitted. -/
theorem parse_thresholds_group :
    (⟨64, 64⟩ : Limits).AmpleFor "FROM X WHERE (a = 1 OR b = 2)" ∧
    ∃ q depth connectives, parse .select ⟨64, 64⟩ "FROM X WHERE (a = 1 OR b = 2)" = .ok q ∧
      connectives = q.connectives ∧
      ∀ limits : Limits, depth ≤ limits.maxDepth ∧ connectives ≤ limits.maxConnectives →
        parse .select limits "FROM X WHERE (a = 1 OR b = 2)" = .ok q := by
  have hample : (⟨64, 64⟩ : Limits).AmpleFor "FROM X WHERE (a = 1 OR b = 2)" :=
    ⟨by decide, by decide⟩
  have hparsed : (parse .select ⟨64, 64⟩ "FROM X WHERE (a = 1 OR b = 2)").toOption.any
      (·.functions.entries.isEmpty) = true := by
    decide +kernel
  obtain ⟨q, hq, hfunctions⟩ := (Option.any_eq_true _ _).mp hparsed
  have hparse := parse_of_toOption hq
  obtain ⟨depth, connectives, -, hcount, hlimits⟩ :=
    (parse_thresholds .select _ _ hample).2 q hparse
  exact ⟨hample, q, depth, connectives, hparse, hcount (List.isEmpty_iff.mp hfunctions),
    fun limits => (hlimits limits).1⟩

end Query

end DocQuery
