import DocQuery.Proofs.Grammar.Written
import DocQuery.Proofs.Lexical.Phrase
import DocQuery.Proofs.Lexical.Quoted

/-!
# Every part leaves less to read

A part of the grammar never leaves more than there was, and one that takes a
token leaves less.  This is what bounds the fuel of a reader.  Each group, call
and connective takes a token of its own as well, so that no part costs more than
the characters it takes.
-/

namespace DocQuery

open Lexical

variable {size : Nat} {cs rest : List Char}

namespace Lexical

theorem Trivia.length_rest_le (cs : List Char) : (Trivia.rest cs).length ≤ cs.length := by
  rw [Trivia.rest, List.length_drop]
  exact Nat.sub_le _ _

theorem Takes.length_lt {α : Type} {rule : Rule α} {token : List Char} {a : α}
    (h : Takes rule cs token a rest) (hrule : rule.Sized) : rest.length < cs.length := by
  have hpos := hrule.pos h.measured
  have hle := Trivia.length_rest_le cs
  rw [h.split, List.length_append] at hle
  omega

end Lexical

namespace Written

theorem Mark.length_lt {c : Char} (h : Mark c cs rest) : rest.length < cs.length :=
  Takes.length_lt h (Rule.sized_char c)

theorem Word.length_lt {keyword : Keyword} (h : Word keyword cs rest) :
    rest.length < cs.length := by
  obtain ⟨token, htake⟩ := h
  exact htake.length_lt (Rule.sized_phrase keyword.text)

/-! ## Values and paths -/

theorem Value.length_lt {v : DocQuery.Value} (h : Value size cs v rest) :
    rest.length < cs.length := by
  cases h with
  | number htake => exact htake.length_lt Rule.sized_number
  | quoted _ htake => exact htake.length_lt Rule.sized_quoted
  | literal _ _ htake => exact htake.length_lt (Rule.sized_firstOf _)
  | parameter _ _ _ hmark htake =>
      exact Nat.lt_trans (htake.length_lt (Rule.sized_identifier false)) hmark.length_lt

theorem Segment.length_lt {beginning quoted : Bool} {token : List Char} {text : String}
    (h : Segment beginning cs token text quoted rest) : rest.length < cs.length := by
  cases h with
  | name htake => exact htake.length_lt (Rule.sized_identifier beginning)
  | quoted _ htake => exact htake.length_lt Rule.sized_quoted

/-- The token of a segment is what its rule took behind the trivia. -/
theorem Segment.split {beginning quoted : Bool} {token : List Char} {text : String}
    (h : Segment beginning cs token text quoted rest) : Trivia.rest cs = token ++ rest := by
  cases h with
  | name htake => exact htake.split
  | quoted _ htake => exact htake.split

theorem Index.length_le {text : String} (h : Index cs text rest) : rest.length ≤ cs.length := by
  cases h with
  | absent _ => exact Nat.le_refl _
  | empty hopen _ hclose =>
      have h₁ := hopen.length_lt
      have h₂ := hclose.length_lt
      omega
  | number hopen htake _ hclose =>
      have h₁ := hopen.length_lt
      have h₂ := htake.length_lt Rule.sized_number
      have h₃ := hclose.length_lt
      omega

theorem Tail.length_le {more : String} {quoted : Bool} (h : Tail cs more quoted rest) :
    rest.length ≤ cs.length := by
  induction h with
  | last hindex _ => exact hindex.length_le
  | more hindex hdot hsegment _ ih =>
      have h₁ := hindex.length_le
      have h₂ := hdot.length_lt
      have h₃ := hsegment.length_lt
      omega

theorem Path.length_lt {p : DocQuery.Path} (h : Path size cs p rest) :
    rest.length < cs.length := by
  cases h with
  | mk hsegment _ htail => exact Nat.lt_of_le_of_lt htail.length_le hsegment.length_lt

theorem NoPath.length_le (h : NoPath cs rest) : rest.length ≤ cs.length := by
  cases h with
  | blank _ => exact Nat.le_refl _
  | reserved htake _ =>
      rw [← htake.split]
      exact Trivia.length_rest_le cs
  | broken _ _ _ => exact Nat.le_refl _

/-! ## Tests -/

theorem MoreValues.length_lt {kind : ValueKind} {values : List DocQuery.Value}
    (h : MoreValues size kind cs values rest) : rest.length < cs.length := by
  induction h with
  | last hclose => exact hclose.length_lt
  | more _ hcomma hvalue _ _ ih =>
      have h₁ := hcomma.length_lt
      have h₂ := hvalue.length_lt
      omega

theorem ValueList.length_lt {values : List DocQuery.Value} (h : ValueList size cs values rest) :
    rest.length < cs.length := by
  cases h with
  | empty hopen hclose => exact Nat.lt_trans hclose.length_lt hopen.length_lt
  | values hopen _ hvalue hmore =>
      have h₁ := hopen.length_lt
      have h₂ := hvalue.length_lt
      have h₃ := hmore.length_lt
      omega

theorem Test.length_lt {subject : DocQuery.Path} {test : Grammar.Test} {e : Expr}
    (h : Test size subject test cs e rest) : rest.length < cs.length := by
  cases h with
  | compare hvalue => exact hvalue.length_lt
  | between hlow hand hhigh _ =>
      have h₁ := hlow.length_lt
      have h₂ := hand.length_lt
      have h₃ := hhigh.length_lt
      omega
  | within hvalues => exact hvalues.length_lt

theorem Trailing.length_le {trailing : Option Expr} (h : Trailing size cs trailing rest) :
    rest.length ≤ cs.length := by
  cases h with
  | absent _ => exact Nat.le_refl _
  | present htake htest =>
      have h₁ := htake.length_lt (Rule.sized_firstOf _)
      have h₂ := htest.length_lt
      omega

/-! ## Conditions -/

theorem Negation.length_le {negated : Bool} (h : Negation cs negated rest) :
    rest.length ≤ cs.length := by
  cases h with
  | absent _ => exact Nat.le_refl _
  | present hnot => exact Nat.le_of_lt hnot.length_lt

theorem Separator.length_le {first : Bool} (h : Separator first cs rest) :
    rest.length ≤ cs.length := by
  cases h with
  | first => exact Nat.le_refl _
  | comma hcomma => exact Nat.le_of_lt hcomma.length_lt

theorem NotAlone.length_le (h : NotAlone size cs rest) : rest.length ≤ cs.length := by
  cases h with
  | noPath hno => exact hno.length_le
  | goesOn _ _ _ => exact Nat.le_refl _

mutual

theorem Condition.cost_lt {c : Syntax.Condition} {cs rest : List Char} :
    Condition size cs c rest → c.cost.total + rest.length < cs.length
  | @Condition.chain _ _ _ _ first links hfirst hlinks => by
      have h₁ := hfirst.cost_lt
      have h₂ := hlinks.cost_le
      have hjoin := first.cost.total_join_le links.cost
      rw [Syntax.Condition.cost]
      omega

theorem Links.cost_le {links : Syntax.Links} {cs rest : List Char} :
    Links size cs links rest → links.cost.total + rest.length ≤ cs.length
  | .nil _ => Nat.le_of_eq (Nat.zero_add _)
  | @Links.cons _ _ _ _ _ _ _ _ _ operand links htake hnegation hoperand hlinks => by
      have h₁ := htake.length_lt (Rule.sized_firstOf _)
      have h₂ := hnegation.length_le
      have h₃ := hoperand.cost_lt
      have h₄ := hlinks.cost_le
      have hlink := (operand.cost.join links.cost).total_link_join_le
      have hjoin := operand.cost.total_join_le links.cost
      rw [Syntax.Links.cost]
      omega

theorem Operand.cost_lt {o : Syntax.Operand} {cs rest : List Char} :
    Operand size cs o rest → o.cost.total + rest.length < cs.length
  | .group hopen hinner hclose => by
      have h₁ := hopen.length_lt
      have h₂ := hinner.cost_lt
      have h₃ := hclose.length_lt
      rw [Syntax.Operand.cost, Complexity.total_nest]
      omega
  | .truth _ hword => by
      rw [Syntax.Operand.cost, Complexity.total_zero, Nat.zero_add]
      exact hword.length_lt
  | .test _ _ hpath htake htest => by
      have h₁ := hpath.length_lt
      have h₂ := htake.length_lt (Rule.sized_firstOf _)
      have h₃ := htest.length_lt
      rw [Syntax.Operand.cost, Complexity.total_zero]
      omega
  | .call _ _ hpath htake harguments htrailing => by
      have h₁ := hpath.length_lt
      have h₂ := htake.length_lt (Rule.sized_firstOf _)
      have h₃ := harguments.cost_lt
      have h₄ := htrailing.length_le
      rw [Syntax.Operand.cost, Complexity.total_nest]
      omega

theorem Arguments.cost_lt {first : Bool} {arguments : Syntax.Arguments} {cs rest : List Char} :
    Arguments size first cs arguments rest → arguments.cost.total + rest.length < cs.length
  | .nil hclose => by
      rw [Syntax.Arguments.cost, Complexity.total_zero, Nat.zero_add]
      exact hclose.length_lt
  | @Arguments.cons _ _ _ _ _ _ argument others _ hseparator hargument hothers => by
      have h₁ := hseparator.length_le
      have h₂ := hargument.cost_lt
      have h₃ := hothers.cost_lt
      have hjoin := argument.cost.total_join_le others.cost
      rw [Syntax.Arguments.cost]
      omega

theorem Argument.cost_lt {argument : Syntax.Argument} {cs rest : List Char} :
    Argument size cs argument rest → argument.cost.total + rest.length < cs.length
  | .value hvalue => by
      rw [Syntax.Argument.cost, Complexity.total_zero, Nat.zero_add]
      exact hvalue.length_lt
  | .field _ hpath _ => by
      rw [Syntax.Argument.cost, Complexity.total_zero, Nat.zero_add]
      exact hpath.length_lt
  | .condition _ hnot hinner => by
      have h₁ := hnot.length_le
      have h₂ := hinner.cost_lt
      rw [Syntax.Argument.cost]
      omega

end

theorem Operand.length_lt {o : Syntax.Operand} (h : Operand size cs o rest) :
    rest.length < cs.length :=
  Nat.lt_of_le_of_lt (Nat.le_add_left _ _) h.cost_lt

theorem Arguments.length_lt {first : Bool} {arguments : Syntax.Arguments}
    (h : Arguments size first cs arguments rest) : rest.length < cs.length :=
  Nat.lt_of_le_of_lt (Nat.le_add_left _ _) h.cost_lt

theorem Argument.length_lt {argument : Syntax.Argument} (h : Argument size cs argument rest) :
    rest.length < cs.length :=
  Nat.lt_of_le_of_lt (Nat.le_add_left _ _) h.cost_lt

/-! ## Clauses -/

/-- The part costs no more than the characters that it takes. -/
structure Spends {α : Type} (part : Part α) : Prop where
  cost_le : ∀ {cs rest : List Char} {a : α} {cost : Complexity}, part cs a cost rest →
    cost.total + rest.length ≤ cs.length

theorem Spends.length_le {α : Type} {part : Part α} (hpart : Spends part) {a : α}
    {cost : Complexity} (h : part cs a cost rest) : rest.length ≤ cs.length :=
  Nat.le_trans (Nat.le_add_left _ _) (hpart.cost_le h)

theorem spends_items {α : Type} {item : Part α} (hitem : Spends item) : Spends (Items item) := by
  constructor
  intro cs rest as cost h
  induction h with
  | last hlast _ => exact hitem.cost_le hlast
  | @more _ _ _ _ _ _ cost costs hfirst hcomma _ ih =>
      have h₁ := hitem.cost_le hfirst
      have h₂ := hcomma.length_lt
      have hjoin := cost.total_join_le costs
      omega

theorem spends_clause {α : Type} {keyword : Keyword} {body : Part α} (hbody : Spends body) :
    Spends (Clause keyword body) := by
  constructor
  intro cs rest a cost h
  cases h with
  | absent _ => exact Nat.le_of_eq (Nat.zero_add _)
  | present hword hrest =>
      have h₁ := hword.length_lt
      have h₂ := hbody.cost_le hrest
      omega

theorem Script.length_lt {body : DocQuery.Script} (h : Script size cs body rest) :
    rest.length < cs.length := by
  cases h with
  | mk htake => exact htake.length_lt Rule.sized_block

theorem AsName.length_le {needsAs : Bool} {asName : Option String}
    (h : AsName size needsAs cs asName rest) : rest.length ≤ cs.length := by
  cases h with
  | named htake hpath =>
      have h₁ := htake.length_lt (Rule.sized_firstOf _)
      have h₂ := hpath.length_lt
      omega
  | clause htake _ =>
      rw [← htake.split]
      exact Trivia.length_rest_le cs
  | needed _ _ => exact Nat.le_refl _
  | bare _ _ hpath => exact Nat.le_of_lt hpath.length_lt
  | absent _ _ hno => exact hno.length_le

theorem spends_filter : Spends (Filter size) := by
  constructor
  intro cs rest filter cost h
  cases h with
  | mk hcondition => exact Nat.le_of_lt hcondition.cost_lt

theorem FieldOrCall.cost_lt {e : Expr} {cost : Complexity}
    (h : FieldOrCall size cs e cost rest) : cost.total + rest.length < cs.length := by
  cases h with
  | field hpath _ =>
      rw [Complexity.total_zero, Nat.zero_add]
      exact hpath.length_lt
  | call hpath hopen harguments =>
      have h₁ := hpath.length_lt
      have h₂ := hopen.length_lt
      have h₃ := harguments.cost_lt
      rw [Complexity.total_nest]
      omega

theorem spends_groupField : Spends (GroupField size) := by
  constructor
  intro cs rest p cost h
  cases h with
  | mk hpath =>
      rw [Complexity.total_zero, Nat.zero_add]
      exact Nat.le_of_lt hpath.length_lt

theorem SortType.length_le {sortType : DocQuery.SortType} (h : SortType cs sortType rest) :
    rest.length ≤ cs.length := by
  cases h with
  | implicit _ => exact Nat.le_refl _
  | explicit has htake =>
      have h₁ := has.length_lt
      have h₂ := htake.length_lt (Rule.sized_firstOf _)
      omega

theorem Ascending.length_le {up : Bool} (h : Ascending cs up rest) :
    rest.length ≤ cs.length := by
  cases h with
  | implicit _ => exact Nat.le_refl _
  | explicit htake => exact Nat.le_of_lt (htake.length_lt (Rule.sized_firstOf _))

theorem spends_orderTerm : Spends (OrderTerm size) := by
  constructor
  intro cs rest term cost h
  cases h with
  | mk hkey hsort hup =>
      have h₁ := hkey.cost_lt
      have h₂ := hsort.length_le
      have h₃ := hup.length_le
      omega

theorem Projected.cost_lt {e : Expr} {cost : Complexity} (h : Projected size cs e cost rest) :
    cost.total + rest.length < cs.length := by
  cases h with
  | named hbody => exact hbody.cost_lt
  | value hno hvalue =>
      rw [Complexity.total_zero, Nat.zero_add]
      exact Nat.lt_of_lt_of_le hvalue.length_lt hno.length_le

theorem spends_projection (needsAs : Bool) : Spends (Projection size needsAs) := by
  constructor
  intro cs rest entry cost h
  cases h with
  | mk hbody hname =>
      have h₁ := hbody.cost_lt
      have h₂ := hname.length_le
      omega

theorem spends_include : Spends (Include size) := by
  constructor
  intro cs rest e cost h
  cases h with
  | value hvalue =>
      rw [Complexity.total_zero, Nat.zero_add]
      exact Nat.le_of_lt hvalue.length_lt
  | field _ hpath =>
      rw [Complexity.total_zero, Nat.zero_add]
      exact Nat.le_of_lt hpath.length_lt

theorem Distinct.length_le {distinct : Bool} (h : Distinct cs distinct rest) :
    rest.length ≤ cs.length := by
  cases h with
  | absent _ => exact Nat.le_refl _
  | present hword => exact Nat.le_of_lt hword.length_lt

theorem spends_selection : Spends (Selection size) := by
  constructor
  intro cs rest selection cost h
  cases h with
  | all hdistinct hstar =>
      rw [Complexity.total_zero, Nat.zero_add]
      exact Nat.le_trans (Nat.le_of_lt hstar.length_lt) hdistinct.length_le
  | script hdistinct _ hscript =>
      rw [Complexity.total_zero, Nat.zero_add]
      exact Nat.le_trans (Nat.le_of_lt hscript.length_lt) hdistinct.length_le
  | entries hdistinct _ _ hitems =>
      exact Nat.le_trans ((spends_items (spends_projection true)).cost_le hitems) hdistinct.length_le

theorem spends_sourceFilter : Spends (SourceFilter size) := by
  constructor
  intro cs rest filter cost h
  cases h with
  | absent _ => exact Nat.le_of_eq (Nat.zero_add _)
  | present hopen hinner hclose =>
      have h₁ := hopen.length_lt
      have h₂ := hinner.cost_lt
      have h₃ := hclose.length_lt
      rw [Complexity.total_nest]
      omega

theorem spends_source : Spends (Source size) := by
  constructor
  intro cs rest source cost h
  cases h with
  | collection hfrom _ hsegment hfilter halias =>
      have h₁ := hfrom.length_lt
      have h₂ := hsegment.length_lt
      have h₃ := spends_sourceFilter.cost_le hfilter
      have h₄ := halias.length_le
      omega
  | index hfrom hindex hsegment halias =>
      have h₁ := hfrom.length_lt
      have h₂ := hindex.length_lt
      have h₃ := hsegment.length_lt
      have h₄ := halias.length_le
      rw [Complexity.total_zero]
      omega

/-! ## Declared functions and the whole query -/

theorem Declaration.cost_lt {entry : String × DocQuery.Script} {cost : Complexity}
    (h : Declaration size cs entry cost rest) : cost.total + rest.length < cs.length := by
  cases h with
  | mk hkeyword hname hopen harguments hblock _ =>
      have h₁ := hkeyword.length_lt (Rule.sized_phrase _)
      have h₂ := hname.length_lt (Rule.sized_identifier true)
      have h₃ := hopen.length_lt
      have h₄ := harguments.cost_lt
      have h₅ := hblock.length_lt Rule.sized_block
      rw [Complexity.total_nest]
      omega

theorem spends_declaration : Spends (Declaration size) :=
  ⟨fun h => Nat.le_of_lt h.cost_lt⟩

theorem Declarations.cost_le {known functions : Functions} {cost : Complexity}
    (h : Declarations size known cs functions cost rest) :
    cost.total + rest.length ≤ cs.length := by
  induction h with
  | done _ => exact Nat.le_of_eq (Nat.zero_add _)
  | @more _ _ _ _ _ _ _ _ cost costs hdeclare hfunction _ _ ih =>
      have h₁ := hdeclare.length_lt
      have h₂ := spends_declaration.cost_le hfunction
      have hjoin := cost.total_join_le costs
      omega

theorem spends_body {text : String} {functions : Functions} :
    Spends (Body size text functions) := by
  constructor
  intro cs rest query cost h
  cases h with
  | @mk _ _ _ _ _ _ _ _ _ _ _ c₁ c₂ c₃ c₄ c₅ hsource hgroup hfilter horder hload =>
      have h₁ := spends_source.cost_le hsource
      have h₂ := (spends_clause (spends_items spends_groupField)).cost_le hgroup
      have h₃ := (spends_clause spends_filter).cost_le hfilter
      have h₄ := (spends_clause (spends_items spends_orderTerm)).cost_le horder
      have h₅ := (spends_clause (spends_items (spends_projection false))).cost_le hload
      have hjoin₁ := c₁.total_join_le (c₂.join (c₃.join (c₄.join c₅)))
      have hjoin₂ := c₂.total_join_le (c₃.join (c₄.join c₅))
      have hjoin₃ := c₃.total_join_le (c₄.join c₅)
      have hjoin₄ := c₄.total_join_le c₅
      omega

theorem spends_ending {kind : QueryKind} {query : DocQuery.Query} :
    Spends (Ending size kind query) := by
  constructor
  intro cs rest found cost h
  cases h with
  | @select _ _ _ _ _ _ c₁ c₂ hselect hincludes =>
      have h₁ := (spends_clause spends_selection).cost_le hselect
      have h₂ := (spends_clause (spends_items spends_include)).cost_le hincludes
      have hjoin := c₁.total_join_le c₂
      omega
  | update hword hscript =>
      have h₁ := hword.length_lt
      have h₂ := hscript.length_lt
      rw [Complexity.total_zero]
      omega

/-- A query costs no more than its text has characters. -/
theorem Query.cost_le {kind : QueryKind} {text : String} {query : DocQuery.Query}
    {cost : Complexity} (h : Query kind text query cost) : cost.total ≤ text.toList.length := by
  cases h with
  | @mk _ _ _ _ _ _ c₁ c₂ c₃ hdeclarations hbody hending _ =>
      have h₁ := hdeclarations.cost_le
      have h₂ := spends_body.cost_le hbody
      have h₃ := spends_ending.cost_le hending
      have hjoin₁ := c₁.total_join_le (c₂.join c₃)
      have hjoin₂ := c₂.total_join_le c₃
      omega

end Written

end DocQuery
