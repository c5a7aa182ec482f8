import DocQuery.Proofs.Canonical.Plain

/-!
# Arguments by themselves

An argument of a call is taken as a value if it starts with one, then as a field,
and as a condition only after that.  In a query a condition may have been put in
parentheses so that it is taken as one, but canonical text leaves them out.  A
value is always read again from its own text, and a field or a condition only if
that text does not start like a value.  The leftmost path of an expression tells
which is the case.  The main statement is `Query.readsAlone_iff`.
-/

namespace DocQuery

open Lexical Grammar

namespace Expr

/-! ## The arguments of a query -/

/-- The arguments of a call without the test behind it. -/
def properArguments (arguments : List Expr) : List Expr :=
  if (trailing? arguments).isSome then arguments.dropLast else arguments

mutual

/-- The arguments of all calls in the expression, without the tests behind calls. -/
def callArguments : Expr → List Expr
  | .binary _ left right => left.callArguments ++ right.callArguments
  | .call _ arguments => properArguments arguments ++ callArgumentsOf arguments
  | .field _ => []
  | .value _ => []
  | .between _ _ _ => []
  | .within _ _ _ => []
  | .truth => []

/-- The arguments of all calls in several expressions. -/
def callArgumentsOf : List Expr → List Expr
  | [] => []
  | e :: es => e.callArguments ++ callArgumentsOf es

end

theorem callArgumentsOf_eq_flatMap (es : List Expr) :
    callArgumentsOf es = es.flatMap callArguments := by
  induction es with
  | nil => rfl
  | cons e es ih => rw [callArgumentsOf, ih, List.flatMap_cons]

/-- A test on what is left out is not one of the arguments in parentheses. -/
theorem properArguments_append {es : List Expr} {trailing : Option Expr}
    (h : ∀ e ∈ trailing, e.hasImplicitSubject = true) :
    properArguments (es ++ trailing.toList) ⊆ es := by
  cases trailing with
  | none =>
      rw [Option.toList_none, List.append_nil, properArguments]
      split
      · exact List.dropLast_subset es
      · exact List.Subset.refl es
  | some e =>
      have hsome : (trailing? (es ++ [e])).isSome = true := by
        simp [trailing?, Option.filter, h e rfl]
      rw [Option.toList_some, properArguments, if_pos hsome, List.dropLast_concat]
      exact List.Subset.refl es

/-! ## How an expression starts -/

/-- The path at the left end of the expression. -/
def leftmost? : Expr → Option Path
  | .field path => some path
  | .value _ => none
  | .binary _ left _ => left.leftmost?
  | .between subject _ _ => some subject
  | .within subject _ _ => some subject
  | .call name _ => some name
  | .truth => none

end Expr

/-- Canonical text puts the path in quotes, or the path starts with a literal. -/
def Path.looksLikeValue (path : Path) : Bool :=
  path.quoted || !isBare path.text.toList ||
    (Keyword.ofText? (head path.text.toList)).any Keyword.literals.contains

/-- An empty name can only stand in quotes. -/
theorem Path.looksLikeValue_of_isImplicit {path : Path} (h : path.isImplicit = true) :
    path.looksLikeValue = true := by
  rw [isImplicit, String.isEmpty_iff] at h
  simp [looksLikeValue, h, isBare]

namespace Expr

/-- The canonical text of the expression starts with a value, or like one. -/
def opensWithValue (e : Expr) : Bool :=
  !e.startsWithGroup && e.leftmost?.all Path.looksLikeValue

@[simp]
theorem isCondition_erase (e : Expr) : e.erase.isCondition = e.isCondition := by
  cases e <;> rfl

theorem leftmost?_erase : (e : Expr) → e.erase.leftmost? = e.leftmost?.map Path.erase
  | .binary _ left _ => leftmost?_erase left
  | .field _ => rfl
  | .value _ => rfl
  | .between _ _ _ => rfl
  | .within _ _ _ => rfl
  | .call _ _ => rfl
  | .truth => rfl

/-! ## What it is to be read again -/

/--
Between the parentheses of a call, the text of the expression is read as this one
argument up to the closing parenthesis.
-/
def ReadsAlone (e : Expr) : Prop :=
  ∀ limits : Limits, limits.AmpleFor (e.render ++ ")") →
    ∃ d s', argumentList limits (Session.fuelFor (e.render ++ ")"))
        ⟨.ofText (e.render ++ ")"), 0, 0⟩ = .ok [d] s' ∧
      s'.scanner.ahead = some [] ∧ (d == e) = true

/-- In front of a closing parenthesis, the text of the expression is read as this condition. -/
def ReadsAsCondition (e : Expr) : Prop :=
  ∀ limits : Limits, limits.AmpleFor (e.render ++ ")") →
    ∃ d s', condition limits (Session.fuelFor (e.render ++ ")"))
        ⟨.ofText (e.render ++ ")"), 0, 0⟩ = .ok (some d) s' ∧
      s'.scanner.ahead.map Trivia.rest = some [')'] ∧ (d == e) = true

end Expr

/-! ## The start of what is read -/

theorem Chain.leftmost?_fold (e : Expr) (links : List Link) :
    (Chain.fold ⟨e, links⟩).leftmost? = e.leftmost? := by
  induction links generalizing e with
  | nil => rfl
  | cons link links ih =>
      cases htight : link.isTight with
      | true =>
          rw [fold_tight e links htight, ih]
          rfl
      | false =>
          rw [fold_loose e links htight]
          rfl

theorem Expr.IsTestOn.leftmost?_eq {subject : Path} {e : Expr} (h : IsTestOn subject e) :
    e.leftmost? = some subject := by
  cases h <;> rfl

namespace Written

variable {size : Nat} {cs rest : List Char}

/-- A condition that is not a group starts with the path at its left end or with `true`. -/
theorem Condition.leads {c : Syntax.Condition} (h : Condition size cs c rest)
    (hopen : NoMark '(' cs) :
    (∃ p r, c.tree.leftmost? = some p ∧ Path size cs p r) ∨
      c.tree.leftmost? = none ∧ ∃ r, Word .true_ cs r := by
  cases h with
  | chain hfirst _ =>
      rw [Syntax.Condition.tree, Chain.leftmost?_fold]
      cases hfirst with
      | group hgroup _ _ => exact absurd hopen (Takes.not_passes hgroup)
      | truth _ hword => exact Or.inr ⟨rfl, _, hword⟩
      | test _ _ hpath _ htest => exact Or.inl ⟨_, _, htest.isTestOn.leftmost?_eq, hpath⟩
      | call _ _ hpath _ _ _ => exact Or.inl ⟨_, _, rfl, hpath⟩

/-- A path that does not start like a value has a text. -/
theorem Path.not_implicit_of_noValue {p : DocQuery.Path} (h : Path size cs p rest)
    (hno : NoValue cs) : p.isImplicit = false := by
  cases h with
  | @mk token _ _ _ more _ _ hsegment _ _ =>
      cases hsegment with
      | name htake =>
          cases token with
          | nil => cases (name_of_takes htake).1
          | cons c token => simp [DocQuery.Path.isImplicit]
      | quoted _ htake => exact absurd hno.quoted htake.not_passes

/--
Where the canonical text of a path is read as the path, it starts with no value if
it does not look like one, and only then.
-/
theorem Path.noValue_iff {p q : DocQuery.Path} {other : List Char}
    (h : Path size (p.render.toList ++ other) q rest) (hsame : q.erase = p.erase) :
    NoValue (p.render.toList ++ other) ↔ p.looksLikeValue = false := by
  obtain ⟨htext, hquoted⟩ := DocQuery.Path.erase_eq_iff.mp hsame
  cases h with
  | @mk token r _ _ more quoted others hsegment _ htail =>
      cases hsegment with
      | name htake =>
          obtain ⟨hname, hpart⟩ := name_of_takes htake
          have hbare : (p.quoted || !DocQuery.Path.isBare p.text.toList) = false := by
            rw [← Bool.not_eq_true]
            intro hquotes
            rw [DocQuery.Path.render, if_pos hquotes] at htake
            exact htake.not_passes (DocQuery.Path.passes_name_inQuotes p.text other)
          have hhead : DocQuery.Path.head p.text.toList = token := by
            rw [← htext, String.toList_append, String.toList_ofList]
            exact DocQuery.Path.head_name hname htail.start
          have hsingle : ∀ keyword ∈ Keyword.literals, keyword.isSingle = true := by decide
          rw [DocQuery.Path.looksLikeValue, hbare, Bool.false_or, hhead,
            ← Keyword.names_eq hsingle hname, ← Keyword.noneOf_at_name_iff hsingle hname hpart,
            ← htake.split]
          refine ⟨fun hno => hno.literal, fun hliteral => ?_⟩
          obtain ⟨hnumber, hquote⟩ := name_facts hname r
          rw [← htake.split] at hnumber hquote
          have hdollar := noMark_name (c := '$') hname (by decide) r
          exact ⟨hnumber, hquote, hliteral,
            hdollar.alike (htake.split.trans (rest_name hname r).symm)⟩
      | quoted _ htake =>
          rw [Bool.true_or] at hquoted
          refine iff_of_false (fun hno => htake.not_passes hno.quoted) ?_
          simp [DocQuery.Path.looksLikeValue, ← hquoted]

end Written

/-! ## The start of what is written -/

namespace Expr

/-- The text starts with `true`, with the path, or with a test whose subject is not written. -/
inductive Starts : Option Path → List Char → Prop where
  | truth {cs : List Char} : Starts none ("true".toList ++ cs)
  | path {p : Path} {cs : List Char} : Starts (some p) (p.render.toList ++ cs)
  | test {p : Path} {t : Test} {cs : List Char} :
      p.isImplicit = true → Starts (some p) (t.text.toList ++ cs)

theorem Starts.append {p? : Option Path} {cs : List Char} (h : Starts p? cs) (ds : List Char) :
    Starts p? (cs ++ ds) := by
  cases h with
  | truth =>
      rw [List.append_assoc]
      exact .truth
  | path =>
      rw [List.append_assoc]
      exact .path
  | test himplicit =>
      rw [List.append_assoc]
      exact .test himplicit

theorem Starts.noOpen {p? : Option Path} {cs : List Char} (h : Starts p? cs) :
    Written.NoMark '(' cs := by
  cases h with
  | truth => exact Written.noMark_cons _ rfl (by decide)
  | path => exact Path.noOpen_render _ _
  | @test _ t _ _ =>
      cases t with
      | compare comparison => cases comparison <;> exact Written.noMark_cons _ rfl (by decide)
      | between => exact Written.noMark_cons _ rfl (by decide)
      | within all => cases all <;> exact Written.noMark_cons _ rfl (by decide)

theorem IsTestOn.isTest {subject : Path} {e : Expr} (h : IsTestOn subject e) :
    ∃ t operand, IsTest subject t e operand := by
  cases h with
  | compare => exact ⟨_, _, .compare⟩
  | between _ => exact ⟨_, _, .between⟩
  | within _ => exact ⟨_, _, .within⟩

theorem IsTestOn.starts {subject : Path} {e : Expr} (h : IsTestOn subject e) :
    Starts e.leftmost? e.render.toList := by
  obtain ⟨t, operand, htest⟩ := h.isTest
  rw [h.leftmost?_eq, htest.render_eq]
  cases himplicit : subject.isImplicit with
  | true =>
      rw [renderSubject_of_implicit himplicit]
      exact .test himplicit
  | false =>
      rw [renderSubject_of_not_implicit himplicit, List.append_assoc]
      exact .path

theorem starts_call (name : Path) (arguments : List Expr) :
    Starts (some name) (call name arguments).render.toList := by
  rw [render, renderCall]
  split
  · simp only [String.toList_append, List.append_assoc]
    exact .path
  · simp only [String.toList_append, List.append_assoc]
    exact .path

/-- The text of a condition starts with its leftmost path, if it does not start with a group. -/
theorem IsShaped.starts {e : Expr} (h : IsShaped e) (hgroup : e.startsWithGroup = false) :
    Starts e.leftmost? e.render.toList := by
  cases h with
  | truth => exact @Starts.truth []
  | test _ htest => exact htest.starts
  | call _ _ => exact starts_call _ _
  | callTest _ _ _ => exact starts_call _ _
  | @connect connective left right hleft _ =>
      have hgroup : (left.groupedLeft || left.startsWithGroup) = false := hgroup
      rw [Bool.or_eq_false_iff] at hgroup
      rw [render_connect, inParens, if_neg (by simp [hgroup.1])]
      exact (hleft.starts hgroup.2).append _

theorem render_of_startsWithGroup : (e : Expr) → e.startsWithGroup = true →
    ∃ more, e.render.toList = '(' :: more
  | .binary (.connect connective) left right, hgroup => by
      have hgroup : (left.groupedLeft || left.startsWithGroup) = true := hgroup
      have hrender := render_connect connective left right
      rw [connect] at hrender
      rw [hrender]
      cases hgrouped : left.groupedLeft with
      | true =>
          rw [inParens, if_pos rfl, String.toList_append, String.toList_append]
          exact ⟨_, rfl⟩
      | false =>
          rw [hgrouped, Bool.false_or] at hgroup
          obtain ⟨more, hmore⟩ := render_of_startsWithGroup left hgroup
          rw [inParens, if_neg Bool.false_ne_true, hmore]
          exact ⟨_, rfl⟩

/--
Where the canonical text of a condition is read as the condition, it starts with no
value if it does not look like one, and only then.
-/
theorem IsShaped.noValue_iff {size : Nat} {e : Expr} {c : Syntax.Condition}
    {other rest : List Char} (he : IsShaped e)
    (h : Written.Condition size (e.render.toList ++ other) c rest)
    (hsame : c.tree.erase = e.erase) :
    Written.NoValue (e.render.toList ++ other) ↔ e.opensWithValue = false := by
  rw [opensWithValue]
  cases hgroup : e.startsWithGroup with
  | true =>
      obtain ⟨more, hrender⟩ := render_of_startsWithGroup e hgroup
      rw [hrender]
      exact iff_of_true ⟨rfl, rfl, rfl, rfl⟩ rfl
  | false =>
      rw [Bool.not_false, Bool.true_and]
      have hstarts := (he.starts hgroup).append other
      have hleftmost := congrArg leftmost? hsame
      rw [leftmost?_erase, leftmost?_erase] at hleftmost
      rcases h.leads hstarts.noOpen with ⟨q, r, hq, hpath⟩ | ⟨hnone, r, token, hword⟩
      · rw [hq, Option.map_some, eq_comm, Option.map_eq_some_iff] at hleftmost
        obtain ⟨p, hp, hsame⟩ := hleftmost
        rw [hp] at hstarts ⊢
        generalize e.render.toList ++ other = text at hstarts hpath ⊢
        cases hstarts with
        | path => exact hpath.noValue_iff hsame.symm
        -- what is left out can not be read, and in quotes it looks like a value
        | test himplicit =>
            refine iff_of_false (fun hno => ?_) (by simp [Path.looksLikeValue_of_isImplicit himplicit])
            have hnamed := hpath.not_implicit_of_noValue hno
            rw [← Path.isImplicit_erase, ← hsame, Path.isImplicit_erase, himplicit] at hnamed
            cases hnamed
      · rw [hnone, Option.map_none, eq_comm, Option.map_eq_none_iff] at hleftmost
        rw [hleftmost]
        exact iff_of_false (fun hno => hword.not_passes hno.noWord_true) (by simp)

end Expr

/-! ## Expressions that were read -/

/-- Some text has the expression as what a clause is about. -/
inductive Expr.WasRead : Expr → Prop where
  | condition {size : Nat} {cs rest : List Char} {c : Syntax.Condition} :
      Written.Condition size cs c rest → WasRead c.tree
  | call {size : Nat} {cs r r₁ rest : List Char} {name : Path} {arguments : Syntax.Arguments} :
      Written.Path size cs name r → Written.Arguments size true r₁ arguments rest →
      WasRead (.call name arguments.trees)
  | field {size : Nat} {cs rest : List Char} {path : Path} :
      Written.Path size cs path rest → WasRead (.field path)
  | value {size : Nat} {cs rest : List Char} {v : Value} :
      Written.Value size cs v rest → WasRead (.value v)

namespace Written

variable {size : Nat} {cs rest : List Char}

theorem FieldOrCall.wasRead {e : Expr} {cost : Complexity} (h : FieldOrCall size cs e cost rest) :
    e.WasRead := by
  cases h with
  | field hpath _ => exact .field hpath
  | call hname _ harguments => exact .call hname harguments

theorem Projection.wasRead {needsAs : Bool} {entry : DocQuery.Projection} {cost : Complexity}
    (h : Projection size needsAs cs entry cost rest) : entry.body.WasRead := by
  cases h with
  | mk hbody _ =>
      cases hbody with
      | named hnamed => exact hnamed.wasRead
      | value _ hvalue => exact .value hvalue

theorem Include.wasRead {e : Expr} {cost : Complexity} (h : Include size cs e cost rest) :
    e.WasRead := by
  cases h with
  | value hvalue => exact .value hvalue
  | field _ hpath => exact .field hpath

theorem OrderTerm.wasRead {term : DocQuery.OrderTerm} {cost : Complexity}
    (h : OrderTerm size cs term cost rest) : term.key.WasRead := by
  cases h with
  | mk hkey _ _ => exact hkey.wasRead

theorem Filter.wasRead {e : Expr} {cost : Complexity} (h : Filter size cs e cost rest) :
    e.WasRead := by
  cases h with
  | mk hcondition => exact .condition hcondition

theorem Source.wasRead {source : DocQuery.Source} {cost : Complexity}
    (h : Source size cs source cost rest) : ∀ e ∈ source.filter, e.WasRead := by
  cases h with
  | collection _ _ _ hfilter _ =>
      cases hfilter with
      | absent _ => exact fun _ hmem => by cases hmem
      | present _ hcondition _ =>
          intro _ hmem
          cases hmem
          exact .condition hcondition
  | index _ _ _ _ => exact fun _ hmem => by cases hmem

theorem Selection.wasRead {selection : Grammar.Selection} {cost : Complexity}
    (h : Selection size cs selection cost rest) :
    ∀ entry ∈ selection.entries.getD [], entry.body.WasRead := by
  cases h with
  | all _ _ => exact fun _ hmem => by cases hmem
  | script _ _ _ => exact fun _ hmem => by cases hmem
  | entries _ _ _ hitems => exact (hitems.forall_mem fun h => h.wasRead).2

theorem Query.wasRead {kind : QueryKind} {text : String} {q : DocQuery.Query}
    {cost : Complexity} (h : Query kind text q cost) : ∀ e ∈ q.expressions, e.WasRead := by
  cases h with
  | mk _ hbody hending _ =>
  cases hbody with
  | mk hsource _ hfilter horder hload =>
  have hsource := hsource.wasRead
  have hfilter := hfilter.forall_mem fun h => h.wasRead
  have horder := (horder.forall_mem_items fun h => h.wasRead).2
  have hload := (hload.forall_mem_items fun h => h.wasRead).2
  cases hending with
  | @select _ _ _ _ selection _ _ _ hselect hincludes =>
      have hincludes := (hincludes.forall_mem_items fun h => h.wasRead).2
      have hselection := hselect.forall_mem fun h => h.wasRead
      refine DocQuery.Query.forall_mem_expressions hsource hfilter horder hload ?_ hincludes
      cases selection with
      | none => exact fun _ hmem => by cases hmem
      | some found => exact hselection found rfl
  | update _ _ =>
      exact DocQuery.Query.forall_mem_expressions hsource hfilter horder hload
        (fun _ hmem => by cases hmem) fun _ hmem => by cases hmem

end Written

/-! ## Arguments that were read -/

namespace Expr

/-- Some text has the expression as an argument. -/
def WasArgument (e : Expr) : Prop :=
  ∃ size cs a rest, Written.Argument size cs a rest ∧ a.tree = e

/-- All arguments of calls in the expression were read as such. -/
def HasReadArguments (e : Expr) : Prop :=
  ∀ d ∈ e.callArguments, d.WasArgument

theorem hasReadArguments_connect {connective : Connective} {left right : Expr}
    (hleft : left.HasReadArguments) (hright : right.HasReadArguments) :
    (connect connective left right).HasReadArguments := by
  intro d hmem
  rw [connect, callArguments] at hmem
  rcases List.mem_append.mp hmem with hmem | hmem
  · exact hleft d hmem
  · exact hright d hmem

theorem IsTestOn.callArguments_eq {subject : Path} {e : Expr} (h : IsTestOn subject e) :
    e.callArguments = [] := by
  cases h with
  | compare => simp only [Expr.compare, callArguments, List.append_nil]
  | between _ => rw [callArguments]
  | within _ => rw [callArguments]

/-- A call has its arguments in parentheses, and behind it a test that has none. -/
theorem hasReadArguments_call {name : Path} {arguments : List Expr} {trailing : Option Expr}
    (h : ∀ e ∈ arguments, e.WasArgument ∧ e.HasReadArguments)
    (htrailing : ∀ e ∈ trailing, ∃ span, IsTestOn (.implicit span) e) :
    (call name (arguments ++ trailing.toList)).HasReadArguments := by
  intro d hmem
  rw [callArguments, callArgumentsOf_eq_flatMap, List.flatMap_append] at hmem
  rcases List.mem_append.mp hmem with hmem | hmem
  · refine (h d (properArguments_append (fun e he => ?_) hmem)).1
    obtain ⟨span, htest⟩ := htrailing e he
    obtain ⟨t, operand, htest⟩ := htest.isTest
    exact htest.hasImplicitSubject_eq
  rcases List.mem_append.mp hmem with hmem | hmem
  · obtain ⟨e, he, hmem⟩ := List.mem_flatMap.mp hmem
    exact (h e he).2 d hmem
  · obtain ⟨e, he, hmem⟩ := List.mem_flatMap.mp hmem
    obtain ⟨span, htest⟩ := htrailing e (Option.mem_toList.mp he)
    rw [htest.callArguments_eq] at hmem
    cases hmem

end Expr

namespace Written

open DocQuery.Expr

variable {size : Nat} {cs rest : List Char}

theorem Trailing.isTestOn {trailing : Option Expr} (h : Trailing size cs trailing rest) :
    ∀ e ∈ trailing, ∃ span, IsTestOn (.implicit span) e := by
  cases h with
  | absent _ => exact fun _ hmem => by cases hmem
  | present _ htest =>
      intro _ hmem
      cases hmem
      exact ⟨_, htest.isTestOn⟩

mutual

theorem Condition.hasReadArguments {c : Syntax.Condition} {cs rest : List Char} :
    Condition size cs c rest → c.tree.HasReadArguments
  | .chain hfirst hlinks => Chain.fold_induction hasReadArguments_connect
      hfirst.hasReadArguments hlinks.hasReadArguments

theorem Links.hasReadArguments {links : Syntax.Links} {cs rest : List Char} :
    Links size cs links rest → ∀ link ∈ links.toList, link.condition.HasReadArguments
  | .nil _ => fun _ hmem => by cases hmem
  | .cons _ _ hoperand hlinks =>
      List.forall_mem_cons.mpr ⟨hoperand.hasReadArguments, hlinks.hasReadArguments⟩

theorem Operand.hasReadArguments {o : Syntax.Operand} {cs rest : List Char} :
    Operand size cs o rest → o.tree.HasReadArguments
  | .group _ hinner _ => hinner.hasReadArguments
  | .truth _ _ => fun _ hmem => by cases hmem
  | .test _ _ _ _ htest => fun d hmem => by
      rw [Syntax.Operand.tree, htest.isTestOn.callArguments_eq] at hmem
      cases hmem
  | .call _ _ _ _ harguments htrailing =>
      hasReadArguments_call harguments.hasReadArguments htrailing.isTestOn

theorem Arguments.hasReadArguments {first : Bool} {as : Syntax.Arguments} {cs rest : List Char} :
    Arguments size first cs as rest → ∀ e ∈ as.trees, e.WasArgument ∧ e.HasReadArguments
  | .nil _ => fun _ hmem => by cases hmem
  | .cons _ _ hargument hothers => List.forall_mem_cons.mpr
      ⟨⟨⟨_, _, _, _, hargument, rfl⟩, hargument.hasReadArguments⟩, hothers.hasReadArguments⟩

theorem Argument.hasReadArguments {a : Syntax.Argument} {cs rest : List Char} :
    Argument size cs a rest → a.tree.HasReadArguments
  | .value _ => fun _ hmem => by cases hmem
  | .field _ _ _ => fun _ hmem => by cases hmem
  | .condition _ _ hinner => hinner.hasReadArguments

end

end Written

theorem Expr.WasRead.hasReadArguments {e : Expr} (h : e.WasRead) : e.HasReadArguments := by
  cases h with
  | condition hcondition => exact hcondition.hasReadArguments
  | @call _ _ _ _ _ name _ _ harguments =>
      have hcall := @hasReadArguments_call name _ none harguments.hasReadArguments
        fun _ hmem => by cases hmem
      rwa [Option.toList_none, List.append_nil] at hcall
  | field _ => exact fun _ hmem => by cases hmem
  | value _ => exact fun _ hmem => by cases hmem

/-! ## Readers of one argument and of one condition -/

namespace Grammar

variable {limits : Limits} {text : String}

/-- Arguments that are written are read under limits beyond what the text can cost. -/
theorem argumentList_written {as : Syntax.Arguments} {rest : List Char}
    (h : Written.Arguments (Text.byteLength text.toList) true text.toList as rest)
    (hample : limits.AmpleFor text) :
    ∃ s', argumentList limits (Session.fuelFor text) ⟨.ofText text, 0, 0⟩ = .ok as.trees s' ∧
      s'.scanner.ahead = some rest := by
  have hfuel : 4 * text.toList.length + 7 ≤ Session.fuelFor text :=
    Nat.le_trans (by omega) (Session.le_fuelFor text)
  obtain ⟨s', hruns, hmoves⟩ := argumentList_complete _ hfuel (stands_ofText text) h
  have hcost := h.cost_lt
  have hadmits : limits.Admits as.cost.nest :=
    hample.admits_of_le (by rw [Complexity.total_nest]; omega)
  exact ⟨s', hruns.fits ((Query.fits_start _ _ _).mpr hadmits), hmoves.ahead⟩

/-- A condition that is written is read under limits beyond what the text can cost. -/
theorem condition_written {c : Syntax.Condition} {rest : List Char}
    (h : Written.Condition (Text.byteLength text.toList) text.toList c rest)
    (hample : limits.AmpleFor text) :
    ∃ s', condition limits (Session.fuelFor text) ⟨.ofText text, 0, 0⟩ = .ok (some c.tree) s' ∧
      s'.scanner.ahead = some rest := by
  have hfuel : 4 * text.toList.length + 4 ≤ Session.fuelFor text :=
    Nat.le_trans (by omega) (Session.le_fuelFor text)
  obtain ⟨s', hruns, hmoves⟩ := (complete _).condition hfuel (stands_ofText text) h
  have hcost := h.cost_lt
  have hadmits : limits.Admits c.cost := hample.admits_of_le (by omega)
  exact ⟨s', hruns.fits ((Query.fits_start _ _ _).mpr hadmits), hmoves.ahead⟩

end Grammar

namespace Expr

variable {e : Expr}

/-- An expression is read alone where its text is an argument up to the closing parenthesis. -/
theorem readsAlone_iff_written : e.ReadsAlone ↔
    ∃ a r, Written.Argument (Text.byteLength (e.render ++ ")").toList) (e.render ++ ")").toList a r ∧
      Written.Mark ')' r [] ∧ a.tree.erase = e.erase := by
  constructor
  · intro h
    obtain ⟨d, s', hread, hahead, hsame⟩ := h ⟨_, _⟩ ⟨Nat.le_refl _, Nat.le_refl _⟩
    obtain ⟨as, rest, has, htrees, hmoves⟩ := argumentList_sound (stands_ofText _) hread
    obtain rfl : rest = [] := Option.some.inj (hmoves.ahead.symm.trans hahead)
    cases has with
    | nil _ => cases htrees
    | @cons _ _ _ _ _ _ others _ hseparator hargument hothers =>
        obtain ⟨rfl, hnone⟩ := List.cons.inj htrees
        cases hseparator with
        | first =>
            cases hothers with
            | nil hclose => exact ⟨_, _, hargument, hclose, erases.beq_iff.mp hsame⟩
            | cons _ _ _ _ => cases hnone
  · rintro ⟨a, r, hargument, hclose, hsame⟩ limits hample
    obtain ⟨s', hread, hahead⟩ :=
      argumentList_written (.cons hargument.noMark_close .first hargument (.nil hclose)) hample
    exact ⟨_, s', hread, hahead, erases.beq_iff.mpr hsame⟩

theorem mark_close_iff {r : List Char} : Written.Mark ')' r [] ↔ Trivia.rest r = [')'] :=
  ⟨fun h => h.split, fun h => ⟨h, Rule.char_eq_some.mpr ⟨rfl, rfl⟩⟩⟩

/-- An expression is read as a condition where its text is one up to the closing parenthesis. -/
theorem readsAsCondition_iff_written : e.ReadsAsCondition ↔
    ∃ c r, Written.Condition (Text.byteLength (e.render ++ ")").toList) (e.render ++ ")").toList c r ∧
      Written.Mark ')' r [] ∧ c.tree.erase = e.erase := by
  constructor
  · intro h
    obtain ⟨d, s', hread, hahead, hsame⟩ := h ⟨_, _⟩ ⟨Nat.le_refl _, Nat.le_refl _⟩
    obtain ⟨c, rest, hcondition, rfl, hmoves⟩ := (sound _ _).condition (stands_ofText _) hread
    rw [hmoves.ahead, Option.map_some] at hahead
    exact ⟨c, rest, hcondition, mark_close_iff.mpr (Option.some.inj hahead),
      erases.beq_iff.mp hsame⟩
  · rintro ⟨c, r, hcondition, hclose, hsame⟩ limits hample
    obtain ⟨s', hread, hahead⟩ := condition_written hcondition hample
    refine ⟨_, s', hread, ?_, erases.beq_iff.mpr hsame⟩
    rw [hahead, Option.map_some, mark_close_iff.mp hclose]

/-! ## Which arguments are read again -/

/-- An argument that is read back in front of what follows it is read alone. -/
theorem LegibleArgument.readsAlone (h : LegibleArgument e) : e.ReadsAlone := by
  obtain ⟨a, ha, hsame, -⟩ := h.reads (@EndsItem.close [])
  refine readsAlone_iff_written.mpr ⟨a, [')'], ?_, Written.mark_cons [] rfl, hsame⟩
  rw [String.toList_append]
  exact ha

/-- A field is read alone if it does not look like a value, and only then. -/
theorem readsAlone_field_iff {p : Path} (h : p.quoted = false → Path.Spelled p.text) :
    (field p).ReadsAlone ↔ p.looksLikeValue = false := by
  have hrender : ((field p).render ++ ")").toList = p.render.toList ++ [')'] := by simp [render]
  rw [readsAlone_iff_written, hrender]
  constructor
  · rintro ⟨a, r, hargument, -, hsame⟩
    have hfield : a.tree.isCondition = false := by
      rw [← isCondition_erase, hsame]
      rfl
    cases hargument with
    | value _ => simp [Syntax.Argument.tree, erase] at hsame
    | field hno hpath _ =>
        simp only [Syntax.Argument.tree, erase, field.injEq] at hsame
        exact (hpath.noValue_iff hsame).mp hno
    | condition _ _ hinner =>
        rw [Syntax.Argument.tree, hinner.isShaped.isCondition] at hfield
        cases hfield
  · intro hlooks
    have hbare := hlooks
    simp only [Path.looksLikeValue, Bool.or_eq_false_iff, Bool.not_eq_false'] at hbare
    have hlegible : p.Legible := by
      rw [Path.Legible, if_neg (by simp [hbare.1.1])]
      exact ⟨hbare.1.2, h hbare.1.1⟩
    obtain ⟨q, hpath, hsame⟩ := hlegible.written _ (Behind.close []).toEndsPath
    exact ⟨_, _, .field ((hpath.noValue_iff hsame).mpr hlooks) hpath EndsItem.close.alone,
      Written.mark_cons [] rfl, by simp only [Syntax.Argument.tree, erase, hsame]⟩

/--
A condition is read alone if its text is read as it and does not start like a
value, and only then.
-/
theorem IsShaped.readsAlone_condition_iff (he : IsShaped e) :
    e.ReadsAlone ↔ e.opensWithValue = false ∧ e.ReadsAsCondition := by
  have hrender : (e.render ++ ")").toList = e.render.toList ++ [')'] := by simp
  rw [readsAlone_iff_written, readsAsCondition_iff_written, hrender]
  constructor
  · rintro ⟨a, r, hargument, hclose, hsame⟩
    have hcondition : a.tree.isCondition = true := by
      rw [← isCondition_erase, hsame, isCondition_erase]
      exact he.isCondition
    cases hargument with
    | value _ => cases hcondition
    | field _ _ _ => cases hcondition
    | condition hno halone hinner =>
        obtain rfl := halone.eq_of_condition hinner
        exact ⟨(he.noValue_iff hinner hsame).mp hno, _, r, hinner, hclose, hsame⟩
  · rintro ⟨hopens, c, r, hinner, hclose, hsame⟩
    have hno := (he.noValue_iff hinner hsame).mpr hopens
    exact ⟨_, r, .condition hno (hinner.notAlone hno) hinner, hclose, hsame⟩

end Expr

/-- The arguments of all calls in a query, the tests behind calls apart. -/
def Query.callArguments (query : Query) : List Expr :=
  query.expressions.flatMap Expr.callArguments

/--
An argument of a call in a parsed query is read again from its own text, put alone
between the parentheses of a call, in two cases only.  It is a value, or its text
does not start like one and is read as the condition that it is, if it is one.  An
argument with plain names and without `true` in it is always read again.
-/
theorem Query.readsAlone_iff {kind : QueryKind} {limits : Limits} {text : String} {q : Query}
    (h : parse kind limits text = .ok q) {e : Expr} (he : e ∈ q.callArguments) :
    (e.ReadsAlone ↔ (∃ v, e = .value v) ∨
      e.opensWithValue = false ∧ (e.isCondition = true → e.ReadsAsCondition)) ∧
    (e.isPlain true = true → e.ReadsAlone) := by
  obtain ⟨cost, hwritten⟩ := written_of_parse h
  obtain ⟨whole, hwhole, he⟩ := List.mem_flatMap.mp he
  obtain ⟨size, cs, a, rest, hargument, rfl⟩ := (hwritten.wasRead whole hwhole).hasReadArguments e he
  refine ⟨?_, fun hplain => (hargument.legible hplain).readsAlone⟩
  cases hargument with
  | @value _ _ v hvalue =>
      have hspelled : v.Spelled := ⟨_, _, v, _, hvalue, rfl⟩
      exact iff_of_true (Expr.LegibleArgument.value hspelled).readsAlone (Or.inl ⟨v, rfl⟩)
  | @field _ _ p _ hpath _ =>
      rw [Syntax.Argument.tree, Expr.readsAlone_field_iff fun hquoted => ?_]
      · simp [Expr.opensWithValue, Expr.startsWithGroup, Expr.leftmost?, Expr.isCondition]
      · exact ⟨size, cs, p.span, rest, by rw [← hquoted]; exact hpath⟩
  | @condition _ _ _ c _ _ hinner =>
      have hcondition := hinner.isShaped.isCondition
      have hvalue : ¬∃ v, c.tree = .value v := by
        rintro ⟨v, hv⟩
        rw [hv] at hcondition
        cases hcondition
      rw [Syntax.Argument.tree, or_iff_right hvalue, hinner.isShaped.readsAlone_condition_iff,
        forall_prop_of_true hcondition]

/-- Of the arguments of a parsed call the disjunction is read again, and `true` is not. -/
theorem Query.readsAlone_iff_true :
    ∃ q, parse .select {} "FROM X WHERE f((a = 1 OR b = 2), (true))" = .ok q ∧
      (∃ e ∈ q.callArguments, e.isConnective = true ∧ e.ReadsAlone) ∧
      ∃ e ∈ q.callArguments, (e == .truth) = true ∧ ¬e.ReadsAlone := by
  have hparsed : (parse .select {} "FROM X WHERE f((a = 1 OR b = 2), (true))").toOption.any
      (fun q => q.callArguments.any (fun e => e.isConnective && e.isPlain true) &&
        q.callArguments.any fun e => e == .truth && e.opensWithValue && e.isCondition) = true := by
    decide +kernel
  obtain ⟨q, hq, hfound⟩ := (Option.any_eq_true _ _).mp hparsed
  have hparse := parse_of_toOption hq
  simp only [Bool.and_eq_true, List.any_eq_true] at hfound
  obtain ⟨⟨e, he, hconnective, hplain⟩, d, hd, ⟨htrue, hopens⟩, hcondition⟩ := hfound
  refine ⟨q, hparse, ⟨e, he, hconnective, (readsAlone_iff hparse he).2 hplain⟩, d, hd, htrue, ?_⟩
  intro halone
  rcases (readsAlone_iff hparse hd).1.mp halone with ⟨v, rfl⟩ | ⟨hfalse, -⟩
  · cases hcondition
  · rw [hopens] at hfalse
    cases hfalse

end DocQuery
