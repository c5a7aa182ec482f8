import DocQuery.Proofs.Canonical.Chain
import DocQuery.Proofs.Spans
import DocQuery.Proofs.Traversal.Rewriting

/-!
# Leaves in the order of the text

A part of the grammar reads leaves one after the other: each of them begins
where the one before it ends or later, and each of them uses up some of the
text.  A subject that is left out covers no byte; the text behind it is that of
the operator.  The tree of a chain has its leaves in the order of the chain.
The main statement is `Query.reachedLeaves_ordered`.
-/

namespace DocQuery

open Lexical

namespace Leaf

/-- The bytes that the leaf was read from. -/
def span : Leaf → Span
  | .field path => path.span
  | .value v => v.span

/-- Nothing was written for the leaf: it is a subject that is left out. -/
def isOmitted : Leaf → Bool
  | .field path => path.isOmitted
  | .value _ => false

end Leaf

/-! ## Chains -/

/-- A chain is read as a tree with its leaves in their order. -/
theorem Chain.leaves_fold (e : Expr) (links : List Link) :
    (fold ⟨e, links⟩).leaves = e.leaves ++ links.flatMap (·.condition.leaves) := by
  have hconnect : ∀ (connective : Connective) (left right : Expr),
      (Expr.connect connective left right).leaves = left.leaves ++ right.leaves :=
    fun _ _ _ => rfl
  induction links generalizing e with
  | nil => exact (List.append_nil _).symm
  | cons link links ih =>
      rw [List.flatMap_cons]
      cases htight : link.isTight with
      | true => rw [fold_tight e links htight, ih, hconnect, List.append_assoc]
      | false => rw [fold_loose e links htight, hconnect, ih]

namespace Written

/-! ## Rows of leaves -/

/-- The leaf is read at the beginning of a text, of which the rest is left. -/
structure Leaf (text : String) (cs : List Char) (leaf : DocQuery.Leaf) (rest : List Char) :
    Prop where
  suffix : rest <:+ cs
  length_lt : rest.length < cs.length
  span : cs <:+ text.toList → leaf.span = if leaf.isOmitted
    then ⟨place (Text.byteLength text.toList) cs, 0⟩
    else Span.between (place (Text.byteLength text.toList) cs)
      (place (Text.byteLength text.toList) rest)

/-- Leaves that are read one after the other, with anything else between them. -/
inductive Leaves (text : String) : List Char → List DocQuery.Leaf → List Char → Prop where
  | nil {cs rest : List Char} : rest <:+ cs → Leaves text cs [] rest
  | cons {cs here behind rest : List Char} {leaf : DocQuery.Leaf} {leaves : List DocQuery.Leaf} :
      here <:+ cs → Leaf text here leaf behind → Leaves text behind leaves rest →
      Leaves text cs (leaf :: leaves) rest

variable {text : String} {cs rest : List Char}

namespace Leaves

variable {ls ls' : List DocQuery.Leaf} {r : List Char}

theorem suffix (h : Leaves text cs ls rest) : rest <:+ cs := by
  induction h with
  | nil hrest => exact hrest
  | cons hhere hleaf _ ih => exact ih.trans (hleaf.suffix.trans hhere)

/-- Something else may stand in front of the leaves. -/
theorem behind (h : Leaves text r ls rest) (hr : r <:+ cs) : Leaves text cs ls rest := by
  cases h with
  | nil hrest => exact .nil (hrest.trans hr)
  | cons hhere hleaf hleaves => exact .cons (hhere.trans hr) hleaf hleaves

theorem append (h : Leaves text cs ls r) (h' : Leaves text r ls' rest) :
    Leaves text cs (ls ++ ls') rest := by
  induction h with
  | nil hr => exact h'.behind hr
  | cons hhere hleaf _ ih => exact .cons hhere hleaf (ih h')

/-- Something else may stand behind the leaves. -/
theorem before (h : Leaves text cs ls r) (hrest : rest <:+ r) : Leaves text cs ls rest := by
  have hboth := h.append (.nil hrest)
  rwa [List.append_nil] at hboth

theorem singleton {leaf : DocQuery.Leaf} {here : List Char} (hhere : here <:+ cs)
    (h : Leaf text here leaf rest) : Leaves text cs [leaf] rest :=
  .cons hhere h (.nil List.suffix_rfl)

end Leaves

/-! ## Positions of leaves -/

/-- The positions go up through the text. -/
theorem place_le (hrest : rest <:+ cs) (hcs : cs <:+ text.toList) :
    place (Text.byteLength text.toList) cs ≤ place (Text.byteLength text.toList) rest := by
  obtain ⟨mid, rfl⟩ := hrest
  rw [place_append hcs]
  exact Nat.le_add_right _ _

theorem place_lt (hrest : rest <:+ cs) (hlength : rest.length < cs.length)
    (hcs : cs <:+ text.toList) :
    place (Text.byteLength text.toList) cs < place (Text.byteLength text.toList) rest := by
  obtain ⟨mid, rfl⟩ := hrest
  have hmid := Text.length_le_byteLength mid
  rw [List.length_append] at hlength
  rw [place_append hcs]
  omega

namespace Leaves

variable {ls : List DocQuery.Leaf}

/-- Every leaf begins at or behind the beginning of the text that it is read from. -/
theorem place_le_start (h : Leaves text cs ls rest) (hcs : cs <:+ text.toList) :
    ∀ leaf ∈ ls, place (Text.byteLength text.toList) cs ≤ leaf.span.start := by
  induction h with
  | nil _ => exact fun _ hmem => by cases hmem
  | cons hhere hleaf _ ih =>
      have hfirst := place_le hhere hcs
      refine List.forall_mem_cons.mpr ⟨?_, fun leaf hmem => ?_⟩
      · rw [hleaf.span (hhere.trans hcs)]
        split <;> exact hfirst
      · have hbehind := place_le hleaf.suffix (hhere.trans hcs)
        have hstart := ih (hleaf.suffix.trans (hhere.trans hcs)) leaf hmem
        omega

/-- Leaves are apart: the later one begins behind the beginning and the end of the earlier one. -/
theorem pairwise (h : Leaves text cs ls rest) (hcs : cs <:+ text.toList) :
    ls.Pairwise fun a b => a.span.stop ≤ b.span.start ∧ a.span.start < b.span.start := by
  induction h with
  | nil _ => exact .nil
  | @cons _ here behind _ leaf leaves hhere hleaf hleaves ih =>
      have hhere := hhere.trans hcs
      have hbehind := hleaf.suffix.trans hhere
      refine List.pairwise_cons.mpr ⟨fun other hmem => ?_, ih hbehind⟩
      -- every later leaf is read from the text behind this one, and that text is shorter
      have hother := hleaves.place_le_start hbehind other hmem
      have hlt := place_lt hleaf.suffix hleaf.length_lt hhere
      rw [hleaf.span hhere]
      split
      · exact ⟨Nat.le_trans (Nat.le_of_lt hlt) hother, Nat.lt_of_lt_of_le hlt hother⟩
      · simp only [Span.between, Span.stop]
        omega

/-- Exactly the leaves that are left out cover no byte. -/
theorem isEmpty_eq (h : Leaves text cs ls rest) (hcs : cs <:+ text.toList) :
    ∀ leaf ∈ ls, leaf.span.isEmpty = leaf.isOmitted := by
  induction h with
  | nil _ => exact fun _ hmem => by cases hmem
  | @cons _ here behind _ leaf leaves hhere hleaf hleaves ih =>
      have hhere := hhere.trans hcs
      refine List.forall_mem_cons.mpr ⟨?_, ih (hleaf.suffix.trans hhere)⟩
      have hlt := place_lt hleaf.suffix hleaf.length_lt hhere
      rw [hleaf.span hhere]
      cases leaf.isOmitted with
      | true => rfl
      | false =>
          simp only [Span.isEmpty, Span.between, Bool.false_eq_true, if_false, beq_eq_false_iff_ne]
          omega

end Leaves

/-! ## Leaves of tests -/

/-- A leaf that is a token of the text. -/
theorem Leaf.of_takes {α : Type} {rule : Rule α} {a : α} {token : List Char}
    {leaf : DocQuery.Leaf} (h : Takes rule cs token a rest) (hsized : rule.Sized)
    (homitted : leaf.isOmitted = false)
    (hspan : leaf.span = (tokenAt (Text.byteLength text.toList) token rest).span) :
    Leaves text cs [leaf] rest := by
  have hsuffix : token ++ rest <:+ cs := h.suffix List.suffix_rfl
  refine .singleton hsuffix ⟨List.suffix_append token rest, ?_, fun hcs => ?_⟩
  · have hpos := hsized.pos h.measured
    rw [List.length_append]
    omega
  · rw [hspan, homitted, tokenAt_span hcs]
    rfl

theorem Value.leaves {v : DocQuery.Value}
    (h : Value (Text.byteLength text.toList) cs v rest) : Leaves text cs [.value v] rest := by
  cases h with
  | number htake => exact Leaf.of_takes htake Rule.sized_number rfl rfl
  | quoted _ htake => exact Leaf.of_takes htake Rule.sized_quoted rfl rfl
  | literal _ _ htake => exact Leaf.of_takes htake (Rule.sized_firstOf _) rfl rfl
  | parameter _ _ _ hmark htake =>
      exact (Leaf.of_takes htake (Rule.sized_identifier false) rfl rfl).behind
        (Takes.rest_suffix hmark List.suffix_rfl)

theorem Path.leaves {p : DocQuery.Path}
    (h : Path (Text.byteLength text.toList) cs p rest) : Leaves text cs [.field p] rest := by
  obtain ⟨mid, hcut, hspan, hagain⟩ := h.within
  have hsuffix : mid ++ rest <:+ cs := hcut ▸ Trivia.rest_suffix cs
  refine .singleton hsuffix ⟨List.suffix_append mid rest, ?_, fun _ => ?_⟩
  · obtain ⟨_, hmid⟩ := hagain 0
    have hpos := hmid.length_lt
    rw [List.length_nil] at hpos
    rw [List.length_append]
    omega
  · rw [DocQuery.Leaf.isOmitted, h.not_omitted]
    exact hspan

theorem MoreValues.leaves {kind : ValueKind} {values : List DocQuery.Value}
    (h : MoreValues (Text.byteLength text.toList) kind cs values rest) :
    Leaves text cs (values.map .value) rest := by
  induction h with
  | last hclose => exact .nil (Takes.rest_suffix hclose List.suffix_rfl)
  | more _ hcomma hvalue _ _ ih =>
      exact (hvalue.leaves.append ih).behind (Takes.rest_suffix hcomma List.suffix_rfl)

theorem ValueList.leaves {values : List DocQuery.Value}
    (h : ValueList (Text.byteLength text.toList) cs values rest) :
    Leaves text cs (values.map .value) rest := by
  cases h with
  | empty hopen hclose =>
      exact .nil (Takes.rest_suffix hclose (Takes.rest_suffix hopen List.suffix_rfl))
  | values hopen _ hvalue hmore =>
      exact (hvalue.leaves.append hmore.leaves).behind (Takes.rest_suffix hopen List.suffix_rfl)

/-- A test has its subject in front of the leaves that are read behind the operator. -/
theorem Test.leaves {subject : DocQuery.Path} {test : Grammar.Test} {e : Expr}
    (h : Test (Text.byteLength text.toList) subject test cs e rest) :
    ∃ ls, e.leaves = .field subject :: ls ∧ Leaves text cs ls rest := by
  cases h with
  | compare hvalue => exact ⟨_, rfl, hvalue.leaves⟩
  | between hlow hand hhigh _ =>
      exact ⟨_, rfl, hlow.leaves.append (hhigh.leaves.behind (hand.suffix List.suffix_rfl))⟩
  | within hvalues => exact ⟨_, rfl, hvalues.leaves⟩

/-- A subject that is left out stands in front of the operator. -/
theorem Trailing.leaves {trailing : Option Expr}
    (h : Trailing (Text.byteLength text.toList) cs trailing rest) :
    Leaves text cs (Expr.leavesOf trailing.toList) rest := by
  cases h with
  | absent _ => exact .nil List.suffix_rfl
  | present htake htest =>
      obtain ⟨ls, hls, htest⟩ := htest.leaves
      rw [Option.toList_some, Expr.leavesOf, Expr.leavesOf, List.append_nil, hls]
      exact .cons List.suffix_rfl ⟨htake.rest_suffix List.suffix_rfl,
        htake.length_lt (Rule.sized_firstOf _), fun _ => rfl⟩ htest

/-! ## Leaves of conditions -/

mutual

theorem Condition.leaves {c : Syntax.Condition} {cs rest : List Char} :
    Condition (Text.byteLength text.toList) cs c rest → Leaves text cs c.tree.leaves rest
  | .chain hfirst hlinks => by
      rw [Syntax.Condition.tree, Chain.leaves_fold]
      exact hfirst.leaves.append hlinks.leaves

theorem Links.leaves {links : Syntax.Links} {cs rest : List Char} :
    Links (Text.byteLength text.toList) cs links rest →
    Leaves text cs (links.toList.flatMap (·.condition.leaves)) rest
  | .nil _ => .nil List.suffix_rfl
  | .cons htake hnegation hoperand hlinks => by
      rw [Syntax.Links.toList, List.flatMap_cons]
      exact (hoperand.leaves.append hlinks.leaves).behind
        (hnegation.suffix (htake.rest_suffix List.suffix_rfl))

theorem Operand.leaves {o : Syntax.Operand} {cs rest : List Char} :
    Operand (Text.byteLength text.toList) cs o rest → Leaves text cs o.tree.leaves rest
  | .group hopen hinner hclose =>
      (hinner.leaves.behind (Takes.rest_suffix hopen List.suffix_rfl)).before
        (Takes.rest_suffix hclose List.suffix_rfl)
  | .truth _ hword => .nil (hword.suffix List.suffix_rfl)
  | .test _ _ hpath htake htest => by
      obtain ⟨ls, hls, htest⟩ := htest.leaves
      rw [Syntax.Operand.tree, hls]
      exact hpath.leaves.append (htest.behind (htake.rest_suffix List.suffix_rfl))
  | .call _ _ hpath htake harguments htrailing => by
      rw [Syntax.Operand.tree, Expr.leaves, Expr.leavesOf_append]
      exact (harguments.leaves.append htrailing.leaves).behind
        (htake.rest_suffix (hpath.leaves.suffix))

theorem Arguments.leaves {first : Bool} {as : Syntax.Arguments} {cs rest : List Char} :
    Arguments (Text.byteLength text.toList) first cs as rest →
    Leaves text cs (Expr.leavesOf as.trees) rest
  | .nil hclose => .nil (Takes.rest_suffix hclose List.suffix_rfl)
  | .cons _ hseparator hargument hothers =>
      (hargument.leaves.append hothers.leaves).behind (hseparator.suffix List.suffix_rfl)

theorem Argument.leaves {a : Syntax.Argument} {cs rest : List Char} :
    Argument (Text.byteLength text.toList) cs a rest → Leaves text cs a.tree.leaves rest
  | .value hvalue => hvalue.leaves
  | .field _ hpath _ => hpath.leaves
  | .condition _ hnot hinner => hinner.leaves.behind (hnot.suffix List.suffix_rfl)

end

/-! ## Leaves of clauses -/

/-- The part reads its leaves one after the other. -/
structure Lists {α : Type} (text : String) (part : Part α) (leaves : α → List DocQuery.Leaf) :
    Prop where
  leaves : ∀ {cs rest : List Char} {a : α} {cost : Complexity}, part cs a cost rest →
    Leaves text cs (leaves a) rest

section Shapes

variable {α : Type} {leaves : α → List DocQuery.Leaf}

theorem lists_items {item : Part α} (hitem : Lists text item leaves) :
    Lists text (Items item) (List.flatMap leaves) := by
  constructor
  intro cs rest as cost h
  induction h with
  | last ha _ =>
      rw [List.flatMap_singleton]
      exact hitem.leaves ha
  | more ha hcomma _ ih =>
      rw [List.flatMap_cons]
      exact (hitem.leaves ha).append (ih.behind (Takes.rest_suffix hcomma List.suffix_rfl))

theorem lists_clause {keyword : Keyword} {body : Part α} (hbody : Lists text body leaves) :
    Lists text (Clause keyword body) fun found => found.toList.flatMap leaves := by
  constructor
  intro cs rest found cost h
  cases h with
  | absent _ => exact .nil List.suffix_rfl
  | present hword hbody' =>
      rw [Option.toList_some, List.flatMap_singleton]
      exact (hbody.leaves hbody').behind (hword.suffix List.suffix_rfl)

/-- A clause with a list. -/
theorem lists_clauseItems {keyword : Keyword} {item : Part α} (hitem : Lists text item leaves) :
    Lists text (Clause keyword (Items item)) (DocQuery.Query.clauseLeaves leaves) :=
  lists_clause (lists_items hitem)

end Shapes

theorem AsName.rest_suffix {needsAs : Bool} {asName : Option String}
    (h : AsName (Text.byteLength text.toList) needsAs cs asName rest) : rest <:+ cs := by
  cases h with
  | named htake hpath => exact hpath.leaves.suffix.trans (htake.rest_suffix List.suffix_rfl)
  | clause htake _ => exact htake.suffix List.suffix_rfl
  | needed _ _ => exact List.suffix_rfl
  | bare _ _ hpath => exact hpath.leaves.suffix
  | absent _ _ hno => exact hno.suffix List.suffix_rfl

theorem lists_filter : Lists text (Filter (Text.byteLength text.toList)) Expr.leaves := by
  constructor
  rintro _ _ _ _ ⟨hcondition⟩
  exact hcondition.leaves

theorem lists_fieldOrCall :
    Lists text (FieldOrCall (Text.byteLength text.toList)) Expr.leaves := by
  constructor
  intro cs rest e cost h
  cases h with
  | field hpath _ => exact hpath.leaves
  | call hpath hopen harguments =>
      exact harguments.leaves.behind (Takes.rest_suffix hopen hpath.leaves.suffix)

theorem lists_groupField :
    Lists text (GroupField (Text.byteLength text.toList)) DocQuery.Path.leaves := by
  constructor
  rintro _ _ _ _ ⟨hpath⟩
  exact hpath.leaves

theorem lists_orderTerm :
    Lists text (OrderTerm (Text.byteLength text.toList)) DocQuery.OrderTerm.leaves := by
  constructor
  rintro _ _ _ _ ⟨hkey, hsort, hascending⟩
  exact (lists_fieldOrCall.leaves hkey).before
    (hascending.suffix (hsort.suffix List.suffix_rfl))

theorem lists_projection (needsAs : Bool) :
    Lists text (Projection (Text.byteLength text.toList) needsAs) DocQuery.Projection.leaves := by
  constructor
  rintro _ _ _ _ ⟨hbody, hasName⟩
  refine Leaves.before ?_ hasName.rest_suffix
  cases hbody with
  | named hnamed => exact lists_fieldOrCall.leaves hnamed
  | value hno hvalue => exact hvalue.leaves.behind (hno.suffix List.suffix_rfl)

theorem lists_include :
    Lists text (Include (Text.byteLength text.toList)) Expr.leaves := by
  constructor
  intro cs rest e cost h
  cases h with
  | value hvalue => exact hvalue.leaves
  | field _ hpath => exact hpath.leaves

theorem lists_selection : Lists text (Selection (Text.byteLength text.toList)) fun selection =>
    DocQuery.Query.clauseLeaves DocQuery.Projection.leaves selection.entries := by
  constructor
  intro cs rest selection cost h
  cases h with
  | all hdistinct hstar =>
      exact .nil (Takes.rest_suffix hstar (hdistinct.suffix List.suffix_rfl))
  | script hdistinct _ hscript =>
      cases hscript with
      | mk htake => exact .nil (htake.rest_suffix (hdistinct.suffix List.suffix_rfl))
  | entries hdistinct _ _ hitems =>
      have hentries := (lists_items (lists_projection true)).leaves hitems
      simpa [DocQuery.Query.clauseLeaves] using
        hentries.behind (hdistinct.suffix List.suffix_rfl)

theorem lists_source : Lists text (Source (Text.byteLength text.toList)) fun source =>
    source.filter.toList.flatMap Expr.leaves := by
  constructor
  intro cs rest source cost h
  cases h with
  | collection hfrom _ hsegment hfilter hasName =>
      have hname := (List.suffix_append _ _).trans
        (hsegment.split ▸ (Trivia.rest_suffix _).trans (hfrom.suffix List.suffix_rfl))
      refine Leaves.before ?_ hasName.rest_suffix
      cases hfilter with
      | absent _ => exact .nil hname
      | present hopen hcondition hclose =>
          rw [Option.toList_some, List.flatMap_singleton]
          exact (hcondition.leaves.behind (Takes.rest_suffix hopen hname)).before
            (Takes.rest_suffix hclose List.suffix_rfl)
  | index hfrom hindex hsegment hasName =>
      have hname := (List.suffix_append _ _).trans (hsegment.split ▸
        (Trivia.rest_suffix _).trans (hindex.suffix (hfrom.suffix List.suffix_rfl)))
      exact .nil (hasName.rest_suffix.trans hname)

theorem Declaration.suffix {entry : String × DocQuery.Script} {cost : Complexity}
    (h : Declaration (Text.byteLength text.toList) cs entry cost rest) : rest <:+ cs := by
  cases h with
  | mk hkeyword hname hopen harguments hblock _ =>
      exact hblock.rest_suffix (harguments.leaves.suffix.trans
        (Takes.rest_suffix hopen (hname.rest_suffix (hkeyword.rest_suffix List.suffix_rfl))))

theorem Declarations.suffix {known functions : Functions} {cost : Complexity}
    (h : Declarations (Text.byteLength text.toList) known cs functions cost rest) :
    rest <:+ cs := by
  induction h with
  | done _ => exact List.suffix_rfl
  | more hdeclare hfunction _ _ ih =>
      exact ih.trans (hfunction.suffix.trans (hdeclare.suffix List.suffix_rfl))

/-- A query that can be written has its leaves in the order of the text. -/
theorem Query.leaves {kind : QueryKind} {q : DocQuery.Query} {cost : Complexity}
    (h : Query kind text q cost) : ∃ rest, Leaves text text.toList q.leaves rest := by
  cases h with
  | mk hdeclarations hbody hending _ =>
  cases hbody with
  | mk hsource hgroup hfilter horder hload =>
  have hclauses := ((((lists_source.leaves hsource).append
    ((lists_clauseItems lists_groupField).leaves hgroup)).append
    ((lists_clause lists_filter).leaves hfilter)).append
    ((lists_clauseItems lists_orderTerm).leaves horder)).append
    ((lists_clauseItems (lists_projection false)).leaves hload)
  have hclauses := hclauses.behind hdeclarations.suffix
  cases hending with
  | @select _ _ _ _ selection _ _ _ hselect hincludes =>
      have hselect := (lists_clause lists_selection).leaves hselect
      have hincludes := (lists_clauseItems lists_include).leaves hincludes
      refine ⟨_, (hclauses.append ?_).append hincludes⟩
      cases selection with
      | none => exact hselect
      | some found =>
          rwa [Option.toList_some, List.flatMap_singleton] at hselect
  | update hword hscript =>
      cases hscript with
      | mk htake =>
          have hrest := htake.rest_suffix (hword.suffix List.suffix_rfl)
          exact ⟨_, (hclauses.append (.nil hrest)).append (.nil List.suffix_rfl)⟩

end Written

/--
A pass comes to the fields and values of a parsed query in the order of the
text: each begins where the one before it ends or later.  Those that cover no
byte are the subjects that are left out, and no field or value is met twice.
-/
theorem Query.reachedLeaves_ordered {kind : QueryKind} {limits : Grammar.Limits} {text : String}
    {q : Query} (h : parse kind limits text = .ok q) :
    q.reachedLeaves.Pairwise (fun a b => a.span.stop ≤ b.span.start) ∧
      (∀ leaf ∈ q.reachedLeaves, leaf.span.isEmpty = leaf.isOmitted) ∧
      q.reachedLeaves.Nodup := by
  obtain ⟨cost, hwritten⟩ := written_of_parse h
  obtain ⟨rest, hleaves⟩ := hwritten.leaves
  rw [reachedLeaves_eq]
  have hpairwise := hleaves.pairwise List.suffix_rfl
  refine ⟨hpairwise.imp And.left, hleaves.isEmpty_eq List.suffix_rfl, ?_⟩
  refine hpairwise.imp fun {a b} hspans => ?_
  rintro rfl
  exact Nat.lt_irrefl _ hspans.2

/-- A call with a subject that is left out stands between other fields and values. -/
theorem Query.reachedLeaves_ordered_trailing :
    ∃ q, parse .select {} "FROM X(a = 1) WHERE f(b, 2) > 3 AND (c = 4 OR d IN (5)) SELECT e AS g" =
        .ok q ∧
      q.reachedLeaves.Pairwise (fun a b => a.span.stop ≤ b.span.start) ∧
      (∀ leaf ∈ q.reachedLeaves, leaf.span.isEmpty = leaf.isOmitted) ∧
      q.reachedLeaves.Nodup := by
  have hparsed : (parse .select {}
      "FROM X(a = 1) WHERE f(b, 2) > 3 AND (c = 4 OR d IN (5)) SELECT e AS g").toOption.isSome =
      true := by
    decide +kernel
  obtain ⟨q, hq⟩ := Option.isSome_iff_exists.mp hparsed
  have hparse := parse_of_toOption hq
  exact ⟨q, hparse, reachedLeaves_ordered hparse⟩

end DocQuery
