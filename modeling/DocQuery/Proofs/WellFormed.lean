import DocQuery.Proofs.Limits

/-!
# Parsed queries are well formed

The type of expressions admits trees that no text is read as: a comparison of
two calls, a value that stands as a condition, a range from a number to a text.
`Expr.WellFormed` rules these out node by node, and `Query.WellFormed` adds what
holds between the clauses.  Conditions and the arguments of calls are given by
an inductive shape that each production of the grammar keeps; what the shape
says of a whole expression goes down to each of its nodes.  The main statement
is `Query.wellFormed_of_parse`.
-/

namespace DocQuery

/-- Nothing was written for the path: it has no text and no quotes either. -/
def Path.isOmitted (path : Path) : Bool :=
  path.isImplicit && !path.quoted

namespace Expr

/-! ## Nodes of an expression -/

/-- Where a node stands in an expression. -/
inductive Role where
  /-- The expression itself. -/
  | whole
  /-- The left side of a comparison. -/
  | subject
  /-- The right side of a comparison. -/
  | compared
  /-- A side of a connective. -/
  | operand
  /-- An argument of a call with further ones behind it. -/
  | argument
  /-- The last argument of a call. -/
  | lastArgument
  deriving DecidableEq, Repr

/-- The second expression is a node of the first one, in this role. -/
inductive HasNode (e : Expr) : Role → Expr → Prop where
  | whole : HasNode e .whole e
  | subject {role : Role} {comparison : Comparison} {left right : Expr} :
      HasNode e role (.binary (.compare comparison) left right) → HasNode e .subject left
  | compared {role : Role} {comparison : Comparison} {left right : Expr} :
      HasNode e role (.binary (.compare comparison) left right) → HasNode e .compared right
  | left {role : Role} {connective : Connective} {left right : Expr} :
      HasNode e role (.binary (.connect connective) left right) → HasNode e .operand left
  | right {role : Role} {connective : Connective} {left right : Expr} :
      HasNode e role (.binary (.connect connective) left right) → HasNode e .operand right
  | argument {role : Role} {name : Path} {before behind : List Expr} {d : Expr} :
      HasNode e role (.call name (before ++ d :: behind)) → behind ≠ [] → HasNode e .argument d
  | lastArgument {role : Role} {name : Path} {before : List Expr} {d : Expr} :
      HasNode e role (.call name (before ++ [d])) → HasNode e .lastArgument d

/-- The expression is a condition, not a field or a value by itself. -/
def isCondition : Expr → Bool
  | .field _ => false
  | .value _ => false
  | _ => true

/-- The path that a test is about. -/
def subject? : Expr → Option Path
  | .binary (.compare _) (.field subject) _ => some subject
  | .between subject _ _ => some subject
  | .within subject _ _ => some subject
  | _ => none

/-- Every node of the expression has the parts that its kind asks for. -/
structure WellFormed (e : Expr) : Prop where
  /-- A comparison has a field on its left and a value on its right. -/
  comparison : ∀ {role comparison left right},
    HasNode e role (.binary (.compare comparison) left right) →
      (∃ path, left = .field path) ∧ ∃ v, right = .value v
  /-- A connective stands between conditions. -/
  connective : ∀ {role connective left right},
    HasNode e role (.binary (.connect connective) left right) →
      left.isCondition = true ∧ right.isCondition = true
  /-- The bounds of a range are of one kind. -/
  bounds : ∀ {role subject low high}, HasNode e role (.between subject low high) →
    low.kind = high.kind
  /-- The values of a list are of one kind. -/
  values : ∀ {role subject values all}, HasNode e role (.within subject values all) →
    ∀ v ∈ values, ∀ w ∈ values, v.kind = w.kind
  /-- A field is left out only as the subject of a comparison. -/
  field : ∀ {role path}, HasNode e role (.field path) → path.isOmitted = true → role = .subject
  /-- A test leaves its subject out only as the last argument of a call. -/
  subject : ∀ {role d path}, HasNode e role d → d.subject? = some path → path.isOmitted = true →
    role = .lastArgument
  /-- A call has a name. -/
  name : ∀ {role name arguments}, HasNode e role (.call name arguments) → name.isOmitted = false

/-! ## The shape of conditions -/

/-- The expression is a test on the subject, with values of one kind. -/
inductive IsTestOn (subject : Path) : Expr → Prop where
  | compare {comparison : Comparison} {v : Value} :
      IsTestOn subject (.compare (.field subject) comparison v)
  | between {low high : Value} :
      low.kind = high.kind → IsTestOn subject (.between subject low high)
  | within {values : List Value} {all : Bool} :
      (∀ v ∈ values, ∀ w ∈ values, v.kind = w.kind) → IsTestOn subject (.within subject values all)

mutual

/-- The shape of a condition. -/
inductive IsShaped : Expr → Prop where
  | truth : IsShaped .truth
  | test {subject : Path} {e : Expr} :
      subject.isOmitted = false → IsTestOn subject e → IsShaped e
  | call {name : Path} {arguments : List Expr} :
      name.isOmitted = false → (∀ e ∈ arguments, IsShapedArgument e) →
      IsShaped (.call name arguments)
  | callTest {name subject : Path} {arguments : List Expr} {e : Expr} :
      name.isOmitted = false → (∀ e ∈ arguments, IsShapedArgument e) →
      IsTestOn subject e → IsShaped (.call name (arguments ++ [e]))
  | connect {connective : Connective} {left right : Expr} :
      IsShaped left → IsShaped right → IsShaped (.connect connective left right)

/-- The shape of an argument of a call, a test behind the call apart. -/
inductive IsShapedArgument : Expr → Prop where
  | value {v : Value} : IsShapedArgument (.value v)
  | field {path : Path} : path.isOmitted = false → IsShapedArgument (.field path)
  | condition {e : Expr} : IsShaped e → IsShapedArgument e

end

/-- What may stand in a role, in an expression that has the shape of an argument. -/
inductive Fits : Role → Expr → Prop where
  | whole {e : Expr} : IsShapedArgument e → Fits .whole e
  | subject {path : Path} : Fits .subject (.field path)
  | compared {v : Value} : Fits .compared (.value v)
  | operand {e : Expr} : IsShaped e → Fits .operand e
  | argument {e : Expr} : IsShapedArgument e → Fits .argument e
  | lastArgument {e : Expr} : IsShapedArgument e → Fits .lastArgument e
  | trailing {subject : Path} {e : Expr} : IsTestOn subject e → Fits .lastArgument e

/-! ## From the shape to the nodes -/

section Shape

variable {role : Role} {e d left right : Expr}

theorem IsTestOn.isCondition {subject : Path} (h : IsTestOn subject e) :
    e.isCondition = true := by
  cases h <;> rfl

theorem IsTestOn.subject?_eq {subject : Path} (h : IsTestOn subject e) :
    e.subject? = some subject := by
  cases h <;> rfl

theorem isCondition_of_subject? {path : Path} (h : e.subject? = some path) :
    e.isCondition = true := by
  unfold subject? at h
  split at h <;> first | rfl | cases h

theorem IsShaped.isCondition (h : IsShaped e) : e.isCondition = true := by
  cases h with
  | test _ htest => exact htest.isCondition
  | _ => rfl

/-- A node that is neither a field nor a value has the shape of a condition or is a test. -/
theorem Fits.isShaped (h : Fits role e) (hcondition : e.isCondition = true) :
    IsShaped e ∨ role = .lastArgument ∧ ∃ subject, IsTestOn subject e := by
  have harg : IsShapedArgument e → IsShaped e := fun harg => by
    cases harg with
    | value => cases hcondition
    | field _ => cases hcondition
    | condition he => exact he
  cases h with
  | whole harg' => exact .inl (harg harg')
  | subject => cases hcondition
  | compared => cases hcondition
  | operand he => exact .inl he
  | argument harg' => exact .inl (harg harg')
  | lastArgument harg' => exact .inl (harg harg')
  | trailing htest => exact .inr ⟨rfl, _, htest⟩

theorem Fits.of_compare {comparison : Comparison}
    (h : Fits role (.binary (.compare comparison) left right)) :
    (∃ path, left = .field path) ∧ ∃ v, right = .value v := by
  rcases h.isShaped rfl with hshaped | ⟨-, _, htest⟩
  · cases hshaped with
    | test _ htest =>
        cases htest
        exact ⟨⟨_, rfl⟩, _, rfl⟩
  · cases htest
    exact ⟨⟨_, rfl⟩, _, rfl⟩

theorem Fits.of_connect {connective : Connective}
    (h : Fits role (.binary (.connect connective) left right)) :
    IsShaped left ∧ IsShaped right := by
  rcases h.isShaped rfl with hshaped | ⟨-, _, htest⟩
  · cases hshaped with
    | test _ htest => cases htest
    | connect hleft hright => exact ⟨hleft, hright⟩
  · cases htest

/-- A call has a name, and a test on what is left out is at most its last argument. -/
theorem Fits.of_call {name : Path} {arguments : List Expr} (h : Fits role (.call name arguments)) :
    name.isOmitted = false ∧ ((∀ e ∈ arguments, IsShapedArgument e) ∨
      ∃ subject before e, arguments = before ++ [e] ∧ (∀ e ∈ before, IsShapedArgument e) ∧
        IsTestOn subject e) := by
  rcases h.isShaped rfl with hshaped | ⟨-, _, htest⟩
  · cases hshaped with
    | test _ htest => cases htest
    | call hname hall => exact ⟨hname, .inl hall⟩
    | callTest hname hall htest => exact ⟨hname, .inr ⟨_, _, _, rfl, hall, htest⟩⟩
  · cases htest

/-- Each node fits its role if the expression has the shape of an argument. -/
theorem HasNode.fits (he : IsShapedArgument e) (h : HasNode e role d) : Fits role d := by
  induction h with
  | whole => exact .whole he
  | subject _ ih =>
      obtain ⟨⟨path, rfl⟩, -⟩ := ih.of_compare
      exact .subject
  | compared _ ih =>
      obtain ⟨-, v, rfl⟩ := ih.of_compare
      exact .compared
  | left _ ih => exact .operand ih.of_connect.1
  | right _ ih => exact .operand ih.of_connect.2
  | argument _ hbehind ih =>
      rcases ih.of_call.2 with hall | ⟨_, before, last, heq, hall, -⟩
      · exact .argument (hall _ (by simp))
      -- the last argument is the last of those behind this one
      · rw [← List.dropLast_concat_getLast hbehind, ← List.cons_append, ← List.append_assoc] at heq
        obtain ⟨rfl, -⟩ := List.append_inj' heq rfl
        exact .argument (hall _ (by simp))
  | lastArgument _ ih =>
      rcases ih.of_call.2 with hall | ⟨_, before, last, heq, -, htest⟩
      · exact .lastArgument (hall _ (by simp))
      · obtain ⟨-, hlast⟩ := List.append_inj' heq rfl
        cases hlast
        exact .trailing htest

/-- A test is on its subject, which is left out only behind the arguments of a call. -/
theorem Fits.isTestOn {path : Path} (h : Fits role e) (hsubject : e.subject? = some path) :
    IsTestOn path e ∧ (path.isOmitted = true → role = .lastArgument) := by
  rcases h.isShaped (isCondition_of_subject? hsubject) with hshaped | ⟨hrole, _, htest⟩
  · cases hshaped with
    | test hnamed htest =>
        rw [htest.subject?_eq] at hsubject
        cases hsubject
        exact ⟨htest, fun homitted => by rw [hnamed] at homitted; cases homitted⟩
    | _ => cases hsubject
  · rw [htest.subject?_eq] at hsubject
    cases hsubject
    exact ⟨htest, fun _ => hrole⟩

/-- A field is left out only on the left side of a comparison. -/
theorem Fits.of_field {path : Path} (h : Fits role (.field path))
    (homitted : path.isOmitted = true) : role = .subject := by
  have hnamed : ¬ IsShapedArgument (.field path) := fun harg => by
    cases harg with
    | field hnamed =>
        rw [hnamed] at homitted
        cases homitted
    | condition hshaped => cases hshaped.isCondition
  cases h with
  | whole harg => exact absurd harg hnamed
  | subject => rfl
  | operand hshaped => cases hshaped.isCondition
  | argument harg => exact absurd harg hnamed
  | lastArgument harg => exact absurd harg hnamed
  | trailing htest => cases htest.isCondition

theorem IsShapedArgument.wellFormed (he : IsShapedArgument e) : WellFormed e where
  comparison hnode := (hnode.fits he).of_compare
  connective hnode :=
    have hsides := (hnode.fits he).of_connect
    ⟨hsides.1.isCondition, hsides.2.isCondition⟩
  bounds hnode := by
    obtain ⟨htest, -⟩ := (hnode.fits he).isTestOn rfl
    cases htest with
    | between hkind => exact hkind
  values hnode := by
    obtain ⟨htest, -⟩ := (hnode.fits he).isTestOn rfl
    cases htest with
    | within hkinds => exact hkinds
  field hnode := (hnode.fits he).of_field
  subject hnode hsubject := ((hnode.fits he).isTestOn hsubject).2
  name hnode := (hnode.fits he).of_call.1

end Shape

end Expr

/-! ## What the grammar reads -/

namespace Written

open Lexical DocQuery.Expr

variable {size : Nat} {cs rest : List Char}

/-- A segment is not omitted, whatever follows it in a path. -/
theorem Segment.not_omitted {beginning quoted others : Bool} {token : List Char}
    {text more : String} {span : Span} (h : Segment beginning cs token text quoted rest) :
    Path.isOmitted ⟨text ++ more, span, quoted || others⟩ = false := by
  cases h with
  | name htake =>
      have hpos := (Rule.sized_identifier beginning).pos htake.measured
      cases token with
      | nil => cases hpos
      | cons c token => simp [Path.isOmitted, Path.isImplicit]
  | quoted _ _ => simp [Path.isOmitted]

theorem Path.not_omitted {path : DocQuery.Path} (h : Path size cs path rest) :
    path.isOmitted = false := by
  cases h with
  | mk hsegment _ _ => exact hsegment.not_omitted

theorem MoreValues.kind_eq {kind : ValueKind} {values : List DocQuery.Value}
    (h : MoreValues size kind cs values rest) : ∀ v ∈ values, v.kind = kind := by
  induction h with
  | last _ => exact fun _ hmem => by cases hmem
  | more _ _ _ hkind _ ih => exact List.forall_mem_cons.mpr ⟨hkind, ih⟩

theorem ValueList.kind_eq {values : List DocQuery.Value} (h : ValueList size cs values rest) :
    ∀ v ∈ values, ∀ w ∈ values, v.kind = w.kind := by
  cases h with
  | empty _ _ => exact fun _ hmem => by cases hmem
  | @values _ _ _ value values _ _ _ hmore =>
      have hkind : ∀ v ∈ value :: values, v.kind = value.kind :=
        List.forall_mem_cons.mpr ⟨rfl, hmore.kind_eq⟩
      exact fun v hv w hw => (hkind v hv).trans (hkind w hw).symm

theorem Test.isTestOn {subject : DocQuery.Path} {test : Grammar.Test} {e : Expr}
    (h : Test size subject test cs e rest) : IsTestOn subject e := by
  cases h with
  | compare _ => exact .compare
  | between _ _ _ hkind => exact .between hkind
  | within hvalues => exact .within hvalues.kind_eq

mutual

theorem Condition.isShaped {c : Syntax.Condition} {cs rest : List Char} :
    Condition size cs c rest → IsShaped c.tree
  | .chain hfirst hlinks => Chain.fold_induction .connect hfirst.isShaped hlinks.isShaped

theorem Links.isShaped {links : Syntax.Links} {cs rest : List Char} :
    Links size cs links rest → ∀ link ∈ links.toList, IsShaped link.condition
  | .nil _ => fun _ hmem => by cases hmem
  | .cons _ _ hoperand hlinks => List.forall_mem_cons.mpr ⟨hoperand.isShaped, hlinks.isShaped⟩

theorem Operand.isShaped {o : Syntax.Operand} {cs rest : List Char} :
    Operand size cs o rest → IsShaped o.tree
  | .group _ hinner _ => hinner.isShaped
  | .truth _ _ => .truth
  | .test _ _ hpath _ htest => .test hpath.not_omitted htest.isTestOn
  | .call _ _ hname _ harguments htrailing => by
      cases htrailing with
      | absent _ =>
          rw [Syntax.Operand.tree, Option.toList_none, List.append_nil]
          exact .call hname.not_omitted harguments.isShaped
      | present _ htest => exact .callTest hname.not_omitted harguments.isShaped htest.isTestOn

theorem Arguments.isShaped {first : Bool} {as : Syntax.Arguments} {cs rest : List Char} :
    Arguments size first cs as rest → ∀ e ∈ as.trees, IsShapedArgument e
  | .nil _ => fun _ hmem => by cases hmem
  | .cons _ _ hargument hothers =>
      List.forall_mem_cons.mpr ⟨hargument.isShaped, hothers.isShaped⟩

theorem Argument.isShaped {a : Syntax.Argument} {cs rest : List Char} :
    Argument size cs a rest → IsShapedArgument a.tree
  | .value _ => .value
  | .field _ hpath _ => .field hpath.not_omitted
  | .condition _ _ hinner => .condition hinner.isShaped

end

theorem FieldOrCall.isShaped {e : Expr} {cost : Complexity}
    (h : FieldOrCall size cs e cost rest) : IsShapedArgument e := by
  cases h with
  | field hpath _ => exact .field hpath.not_omitted
  | call hname _ harguments => exact .condition (.call hname.not_omitted harguments.isShaped)

theorem Projected.isShaped {e : Expr} {cost : Complexity} (h : Projected size cs e cost rest) :
    IsShapedArgument e := by
  cases h with
  | named hnamed => exact hnamed.isShaped
  | value _ _ => exact .value

theorem Include.isShaped {e : Expr} {cost : Complexity} (h : Include size cs e cost rest) :
    IsShapedArgument e := by
  cases h with
  | value _ => exact .value
  | field _ hpath => exact .field hpath.not_omitted

/-- There is a first item, and each item was read. -/
theorem Items.forall_mem {α : Type} {item : Written.Part α} {P : α → Prop} {as : List α}
    {cost : Complexity} (h : Items item cs as cost rest)
    (hitem : ∀ {cs rest a cost}, item cs a cost rest → P a) : as ≠ [] ∧ ∀ a ∈ as, P a := by
  induction h with
  | last ha _ => exact ⟨List.cons_ne_nil _ _, List.forall_mem_singleton.mpr (hitem ha)⟩
  | more ha _ _ ih => exact ⟨List.cons_ne_nil _ _, List.forall_mem_cons.mpr ⟨hitem ha, ih.2⟩⟩

/-- What a clause has, if it is there, was read. -/
theorem Clause.forall_mem {α : Type} {keyword : Keyword} {body : Written.Part α} {P : α → Prop}
    {found : Option α} {cost : Complexity} (h : Clause keyword body cs found cost rest)
    (hbody : ∀ {cs rest a cost}, body cs a cost rest → P a) : ∀ a ∈ found, P a := by
  cases h with
  | absent _ => exact fun _ hmem => by cases hmem
  | present _ ha =>
      intro _ hmem
      cases hmem
      exact hbody ha

/-- A clause with a list, if it is there, has a first item. -/
theorem Clause.forall_mem_items {α : Type} {keyword : Keyword} {item : Written.Part α}
    {P : α → Prop} {found : Option (List α)} {cost : Complexity}
    (h : Clause keyword (Items item) cs found cost rest)
    (hitem : ∀ {cs rest a cost}, item cs a cost rest → P a) :
    found ≠ some [] ∧ ∀ a ∈ found.getD [], P a := by
  have hfound := h.forall_mem fun hitems => hitems.forall_mem hitem
  cases found with
  | none => exact ⟨fun hnil => (by cases hnil), fun _ hmem => by cases hmem⟩
  | some as =>
      obtain ⟨hne, hall⟩ := hfound as rfl
      exact ⟨fun hnil => hne (Option.some.inj hnil), hall⟩

end Written

/-! ## Whole queries -/

namespace Query

/-- The entries of SELECT and LOAD. -/
def projections (query : Query) : List Projection :=
  query.select.getD [] ++ query.load.getD []

/-- The query has the parts that a query of its kind has to have, and no others. -/
structure WellFormed (kind : QueryKind) (query : Query) : Prop where
  expressions : ∀ e ∈ query.expressions, e.WellFormed
  groupFields : ∀ path ∈ query.groupBy.getD [], path.isOmitted = false
  source : query.source.name.isOmitted = false
  /-- An index is not filtered. -/
  index : query.source.isIndex = true → query.source.filter = none
  groupBy : query.groupBy ≠ some []
  orderBy : query.orderBy ≠ some []
  load : query.load ≠ some []
  includes : query.includes ≠ some []
  /-- The entries of SELECT are missing only where a script is in their place. -/
  select : query.select = some [] → query.selectScript.isSome = true
  /-- A projected value has an alias. -/
  aliased : ∀ entry ∈ query.projections, ∀ v, entry.body = .value v → entry.asName.isSome = true
  /-- Just the queries that change documents have a script to do so. -/
  updateScript : query.updateScript.isSome = true ↔ kind = .update
  /-- A query that changes documents selects nothing. -/
  update : kind = .update → query.select = none ∧ query.selectScript = none ∧
    query.includes = none ∧ query.distinct = false

end Query

namespace Written

open Lexical DocQuery.Expr

variable {size : Nat} {cs rest : List Char}

/-- An entry has the shape of an argument, and an alias if it is a value. -/
theorem Projection.isShaped {needsAs : Bool} {entry : DocQuery.Projection} {cost : Complexity}
    (h : Projection size needsAs cs entry cost rest) : IsShapedArgument entry.body ∧
      ∀ v, entry.body = .value v → entry.asName.isSome = true := by
  cases h with
  | mk hbody _ =>
      refine ⟨hbody.isShaped, fun v hv => ?_⟩
      obtain rfl : _ = Expr.value v := hv
      simp [Grammar.inferredAlias]

theorem OrderTerm.isShaped {term : DocQuery.OrderTerm} {cost : Complexity}
    (h : OrderTerm size cs term cost rest) : IsShapedArgument term.key := by
  cases h with
  | mk hkey _ _ => exact hkey.isShaped

theorem GroupField.not_omitted {path : DocQuery.Path} {cost : Complexity}
    (h : GroupField size cs path cost rest) : path.isOmitted = false := by
  cases h with
  | mk hpath => exact hpath.not_omitted

theorem Filter.isShaped {e : Expr} {cost : Complexity} (h : Filter size cs e cost rest) :
    IsShapedArgument e := by
  cases h with
  | mk hcondition => exact .condition hcondition.isShaped

theorem Source.not_omitted {source : DocQuery.Source} {cost : Complexity}
    (h : Source size cs source cost rest) : source.name.isOmitted = false := by
  have hname : ∀ {r r₁ token : List Char} {text : String} {quoted : Bool} {span : Span},
      Segment true r token text quoted r₁ → Path.isOmitted ⟨text, span, quoted⟩ = false := by
    intro r r₁ token text quoted span hsegment
    have h := @Segment.not_omitted _ _ _ _ false _ _ "" span hsegment
    rwa [String.append_empty, Bool.or_false] at h
  cases h with
  | collection _ _ hsegment _ _ => exact hname hsegment
  | index _ _ hsegment _ => exact hname hsegment

/-- The filter of a source has the shape of a condition, and only collections have one. -/
theorem Source.isShaped {source : DocQuery.Source} {cost : Complexity}
    (h : Source size cs source cost rest) : (∀ e ∈ source.filter, IsShapedArgument e) ∧
      (source.isIndex = true → source.filter = none) := by
  cases h with
  | collection _ _ _ hfilter _ =>
      refine ⟨?_, fun hindex => by cases hindex⟩
      intro e hmem
      cases hfilter with
      | absent _ => cases hmem
      | present _ hcondition _ =>
          cases hmem
          exact .condition hcondition.isShaped
  | index _ _ _ _ => exact ⟨fun _ hmem => (by cases hmem), fun _ => rfl⟩

/-- What SELECT has: entries of the right shape, or none of them in front of a script. -/
theorem Selection.isShaped {selection : Grammar.Selection} {cost : Complexity}
    (h : Selection size cs selection cost rest) :
    (selection.entries = some [] → selection.script.isSome = true) ∧
      ∀ entry ∈ selection.entries.getD [], IsShapedArgument entry.body ∧
        ∀ v, entry.body = .value v → entry.asName.isSome = true := by
  cases h with
  | all _ _ => exact ⟨fun hnil => (by cases hnil), fun _ hmem => by cases hmem⟩
  | script _ _ _ => exact ⟨fun _ => rfl, fun _ hmem => by cases hmem⟩
  | entries _ _ _ hitems =>
      obtain ⟨hne, hall⟩ := hitems.forall_mem fun h => Projection.isShaped h
      refine ⟨fun hnil => ?_, hall⟩
      cases hnil
      exact absurd rfl hne

end Written

namespace Query

/-- What holds of the expressions of each clause holds of all expressions of the query. -/
theorem forall_mem_expressions {query : Query} {P : Expr → Prop}
    (hsource : ∀ e ∈ query.source.filter, P e) (hfilter : ∀ e ∈ query.filter, P e)
    (horderBy : ∀ term ∈ query.orderBy.getD [], P term.key)
    (hload : ∀ entry ∈ query.load.getD [], P entry.body)
    (hselect : ∀ entry ∈ query.select.getD [], P entry.body)
    (hincludes : ∀ e ∈ query.includes.getD [], P e) : ∀ e ∈ query.expressions, P e := by
  intro e hmem
  simp only [expressions, List.mem_append, List.mem_flatMap, Option.mem_toList,
    List.mem_singleton] at hmem
  rcases hmem with ((((hmem | hmem) | ⟨terms, hterms, term, hmem, rfl⟩) |
    ⟨entries, hentries, entry, hmem, rfl⟩) | ⟨entries, hentries, entry, hmem, rfl⟩) |
    ⟨es, hes, e, hmem, rfl⟩
  · exact hsource e hmem
  · exact hfilter e hmem
  · exact horderBy term (by rwa [hterms])
  · exact hload entry (by rwa [hentries])
  · exact hselect entry (by rwa [hentries])
  · exact hincludes _ (by rwa [hes])

end Query

/-- Each query that can be written is well formed. -/
theorem Written.Query.wellFormed {kind : QueryKind} {text : String} {q : DocQuery.Query}
    {cost : Complexity} (h : Written.Query kind text q cost) : q.WellFormed kind := by
  cases h with
  | mk _ hbody hending _ =>
  cases hbody with
  | mk hsource hgroup hfilter horder hload =>
  have hname := hsource.not_omitted
  obtain ⟨hsource, hindex⟩ := hsource.isShaped
  obtain ⟨hgroupne, hgroup⟩ := hgroup.forall_mem_items fun h => h.not_omitted
  have hfilter := hfilter.forall_mem fun h => h.isShaped
  obtain ⟨horderne, horder⟩ := horder.forall_mem_items fun h => h.isShaped
  obtain ⟨hloadne, hload⟩ := hload.forall_mem_items fun h => h.isShaped
  cases hending with
  | @select _ _ _ _ selection _ _ _ hselect hincludes =>
      obtain ⟨hincludesne, hincludes⟩ := hincludes.forall_mem_items fun h => h.isShaped
      have hselection := hselect.forall_mem fun h => h.isShaped
      obtain ⟨hnil, hselect⟩ : ((selection.getD .none).entries = some [] →
          (selection.getD .none).script.isSome = true) ∧
          ∀ entry ∈ (selection.getD .none).entries.getD [], entry.body.IsShapedArgument ∧
            ∀ v, entry.body = .value v → entry.asName.isSome = true := by
        cases selection with
        | none => exact ⟨fun hnil => (by cases hnil), fun _ hmem => by cases hmem⟩
        | some found => exact hselection found rfl
      exact {
        expressions := fun e hmem => (Query.forall_mem_expressions hsource hfilter horder
          (fun entry hmem => (hload entry hmem).1) (fun entry hmem => (hselect entry hmem).1)
          hincludes e hmem).wellFormed
        groupFields := hgroup
        source := hname
        index := hindex
        groupBy := hgroupne
        orderBy := horderne
        load := hloadne
        includes := hincludesne
        select := hnil
        aliased := fun entry hmem => by
          rcases List.mem_append.mp hmem with hmem | hmem
          · exact (hselect entry hmem).2
          · exact (hload entry hmem).2
        updateScript := ⟨fun hsome => (by cases hsome), fun hkind => by cases hkind⟩
        update := fun hkind => by cases hkind }
  | update _ _ =>
      exact {
        expressions := fun e hmem => (Query.forall_mem_expressions hsource hfilter horder
          (fun entry hmem => (hload entry hmem).1) (fun _ hmem => by cases hmem)
          (fun _ hmem => by cases hmem) e hmem).wellFormed
        groupFields := hgroup
        source := hname
        index := hindex
        groupBy := hgroupne
        orderBy := horderne
        load := hloadne
        includes := fun hnil => by cases hnil
        select := fun hnil => by cases hnil
        aliased := fun entry hmem => (hload entry hmem).2
        updateScript := ⟨fun _ => rfl, fun _ => rfl⟩
        update := fun _ => ⟨rfl, rfl, rfl, rfl⟩ }

/-- Each query that a text is parsed as is well formed. -/
theorem Query.wellFormed_of_parse {kind : QueryKind} {limits : Grammar.Limits} {text : String}
    {q : Query} (h : parse kind limits text = .ok q) : q.WellFormed kind := by
  obtain ⟨cost, hwritten⟩ := written_of_parse h
  exact hwritten.wellFormed

/-- A query with a test behind a call is parsed, and so it is well formed. -/
theorem Query.wellFormed_of_parse_trailing :
    ∃ q, parse .select {} "FROM X WHERE f(a, 1) > 2 AND b IN (1, 2) SELECT 'v', c AS d" = .ok q ∧
      q.WellFormed .select := by
  have hparsed : (parse .select {}
      "FROM X WHERE f(a, 1) > 2 AND b IN (1, 2) SELECT 'v', c AS d").toOption.isSome = true := by
    decide +kernel
  obtain ⟨q, hq⟩ := Option.isSome_iff_exists.mp hparsed
  have hparse := parse_of_toOption hq
  exact ⟨q, hparse, wellFormed_of_parse hparse⟩

end DocQuery
