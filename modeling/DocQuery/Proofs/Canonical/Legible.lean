import DocQuery.Proofs.Canonical.Chain
import DocQuery.Proofs.Canonical.Terminal
import DocQuery.Proofs.Grammar.Alike

/-!
# Conditions that can be read back

Not every tree is read back from its canonical text.  A name in quotes may close
early or look like a value, an empty name is not written at all, and the word
NOT behind a connective is taken as a negation, even if it is the name of a
call.  `Expr.Legible` excludes just these.  It speaks of the canonical text of
the parts alone, so it can be checked part by part.
-/

namespace DocQuery

open Lexical Grammar

/-! ## Tests and their text -/

/-- The operator of a test as canonical text writes it. -/
def Grammar.Test.text : Test → String
  | .compare comparison => comparison.text
  | .between => "BETWEEN"
  | .within all => if all then "ALL IN" else "IN"

namespace Expr

/-- The expression is this test on the subject, with the text behind its operator. -/
inductive IsTest (subject : Path) : Test → Expr → String → Prop where
  | compare {comparison : Comparison} {value : Value} :
      IsTest subject (.compare comparison) (.compare (.field subject) comparison value) value.render
  | between {low high : Value} :
      IsTest subject .between (.between subject low high) (low.render ++ " AND " ++ high.render)
  | within {values : List Value} {all : Bool} :
      IsTest subject (.within all) (.within subject values all)
        ("(" ++ commaSeparated (values.map Value.render) ++ ")")

/-- The values of a test were read, those of a range or a list with one kind. -/
def HasValues : Expr → Prop
  | .binary _ _ (.value v) => v.Spelled
  | .between _ low high => low.Spelled ∧ high.Spelled ∧ low.kind = high.kind
  | .within _ values _ =>
      (∀ v ∈ values, v.Spelled) ∧ ∀ v ∈ values, ∀ w ∈ values, v.kind = w.kind
  | _ => True

/-- The text of the condition behind a connective. -/
def renderRight (connective : Connective) (right : Expr) : String :=
  inParens (right.groupedRight connective) right.render

mutual

/-- The condition is read back from its canonical text. -/
inductive Legible : Expr → Prop where
  | truth : Legible .truth
  | test {subject : Path} {t : Test} {e : Expr} {operand : String} :
      subject.Legible → subject.isImplicit = false → IsTest subject t e operand → e.HasValues →
      Legible e
  | call {name : Path} {arguments : List Expr} :
      name.Legible → (∀ e ∈ arguments, LegibleArgument e) → Legible (.call name arguments)
  | callTest {name subject : Path} {arguments : List Expr} {t : Test} {e : Expr}
      {operand : String} :
      name.Legible → (∀ e ∈ arguments, LegibleArgument e) →
      subject.isImplicit = true → subject.quoted = false → IsTest subject t e operand →
      e.HasValues → Legible (.call name (arguments ++ [e]))
  | connect {connective : Connective} {left right : Expr} :
      left.Legible → right.Legible →
      (connective.isNegated = true ∨
        Written.NoWord .not (renderRight connective right).toList) →
      Legible (.connect connective left right)

/-- The argument of a call is read back from its canonical text. -/
inductive LegibleArgument : Expr → Prop where
  | value {value : Value} : value.Spelled → LegibleArgument (.value value)
  | field {path : Path} :
      path.Legible → Written.NoValue path.render.toList → LegibleArgument (.field path)
  | condition {e : Expr} :
      e.Legible → Written.NoValue e.render.toList → LegibleArgument e

end

/-! ## Shapes -/

theorem IsTest.not_connective {subject : Path} {t : Test} {e : Expr} {operand : String}
    (h : IsTest subject t e operand) : e.isConnective = false := by
  cases h <;> rfl

theorem IsTest.hasImplicitSubject_eq {subject : Path} {t : Test} {e : Expr} {operand : String}
    (h : IsTest subject t e operand) : e.hasImplicitSubject = subject.isImplicit := by
  cases h <;> rfl

theorem IsTest.render_eq {subject : Path} {t : Test} {e : Expr} {operand : String}
    (h : IsTest subject t e operand) :
    e.render.toList = (renderSubject subject).toList ++ (t.text.toList ++ ' ' :: operand.toList) := by
  cases h with
  | compare =>
      simp [Expr.compare, render, isImplicitField, renderSubject, Test.text]
      rfl
  | between => simp [render, renderBetween, Test.text]
  | @within values all => cases all <;> simp [render, renderWithin, Test.text]

theorem renderSubject_of_not_implicit {subject : Path} (h : subject.isImplicit = false) :
    (renderSubject subject).toList = subject.render.toList ++ [' '] := by
  simp [renderSubject, h]

theorem renderSubject_of_implicit {subject : Path} (h : subject.isImplicit = true) :
    (renderSubject subject).toList = [] := by
  simp [renderSubject, h]

theorem commaSeparated_cons (text : String) (texts : List String) :
    (commaSeparated (text :: texts)).toList =
      text.toList ++ texts.flatMap fun text => ',' :: ' ' :: text.toList := by
  induction texts generalizing text with
  | nil => simp [commaSeparated]
  | cons next texts ih =>
      rw [commaSeparated, String.intercalate_cons_cons, String.toList_append,
        String.toList_append, ← commaSeparated, ih, List.flatMap_cons]
      simp

theorem render_connect (connective : Connective) (left right : Expr) :
    (connect connective left right).render.toList =
      (inParens left.groupedLeft left.render).toList ++ (' ' :: connective.text.toList ++
        ' ' :: (renderRight connective right).toList) := by
  simp [connect, render, joinOperator, renderRight]

theorem renderAll_eq_map (es : List Expr) : renderAll es = es.map render := by
  induction es with
  | nil => rfl
  | cons e es ih => rw [renderAll, ih, List.map_cons]

theorem Legible.not_implicit {e : Expr} (h : e.Legible) : e.hasImplicitSubject = false := by
  cases h with
  | truth => rfl
  | test _ hsubject htest _ => rw [htest.hasImplicitSubject_eq, hsubject]
  | call _ _ => rfl
  | callTest _ _ _ _ _ _ => rfl
  | connect hleft _ _ =>
      cases hleft with
      | test _ _ htest _ => cases htest <;> rfl
      | _ => rfl

theorem LegibleArgument.not_implicit {e : Expr} (h : LegibleArgument e) :
    e.hasImplicitSubject = false := by
  cases h with
  | value _ => rfl
  | field _ _ => rfl
  | condition he _ => exact he.not_implicit

end Expr

/-! ## The cost of canonical text -/

/-- The cost of a piece that is put in parentheses if that is wanted. -/
def Complexity.inParens (wanted : Bool) (cost : Complexity) : Complexity :=
  if wanted then cost.nest else cost

namespace Expr

mutual

/-- What the limits count in the canonical text of an expression. -/
def complexity : Expr → Complexity
  | .binary (.compare _) left right => left.complexity.join right.complexity
  | .binary (.connect connective) left right =>
      (left.complexity.inParens left.groupedLeft).join
        (Complexity.link.join (right.complexity.inParens (right.groupedRight connective)))
  | .call _ arguments => (complexityOf arguments).nest
  | .field _ => .zero
  | .value _ => .zero
  | .between _ _ _ => .zero
  | .within _ _ _ => .zero
  | .truth => .zero

/-- What the limits count in the canonical texts of several expressions side by side. -/
def complexityOf : List Expr → Complexity
  | [] => .zero
  | e :: es => e.complexity.join (complexityOf es)

end

theorem complexity_connect (connective : Connective) (left right : Expr) :
    (connect connective left right).complexity =
      (left.complexity.inParens left.groupedLeft).join
        (Complexity.link.join (right.complexity.inParens (right.groupedRight connective))) := by
  rw [connect, complexity]

theorem complexityOf_append (es ds : List Expr) :
    complexityOf (es ++ ds) = (complexityOf es).join (complexityOf ds) := by
  induction es with
  | nil => rw [List.nil_append, complexityOf, Complexity.zero_join]
  | cons e es ih => rw [List.cons_append, complexityOf, complexityOf, ih, Complexity.join_assoc]

theorem complexityOf_concat (es : List Expr) (e : Expr) :
    complexityOf (es ++ [e]) = (complexityOf es).join e.complexity := by
  rw [complexityOf_append, complexityOf, complexityOf, Complexity.join_zero]

/-- A test nests nothing and has no connective. -/
theorem IsTest.complexity_eq {subject : Path} {t : Test} {e : Expr} {operand : String}
    (h : IsTest subject t e operand) : e.complexity = .zero := by
  cases h with
  | compare => simp only [Expr.compare, complexity, Complexity.join_zero]
  | between => rw [complexity]
  | within => rw [complexity]

end Expr

/-! ## How a text starts -/

/--
The text starts with a group, with a whole name or with a whole quoted text.
What the reader finds at its beginning does not depend on what follows.
-/
inductive Opening : List Char → Prop where
  | group {cs : List Char} : Opening ('(' :: cs)
  | name {name cs : List Char} :
      Identifier.isName true name = true →
      (∀ {other}, Apart other → Identifier.NoPart (cs ++ other)) → Opening (name ++ cs)
  | quoted {text : String} {cs : List Char} :
      Path.QuoteSafe text → (∀ {other}, Apart other → Apart (cs ++ other)) →
      Opening ((Text.inQuotes text).toList ++ cs)

namespace Opening

variable {cs : List Char}

theorem append {ds : List Char} (h : Opening cs)
    (hds : ∀ {other}, Apart other → Apart (ds ++ other)) : Opening (cs ++ ds) := by
  cases h with
  | group => exact .group
  | name hname hrest =>
      rw [List.append_assoc]
      refine .name hname fun hother => ?_
      rw [List.append_assoc]
      exact hrest (hds hother)
  | quoted hsafe hrest =>
      rw [List.append_assoc]
      refine .quoted hsafe fun hother => ?_
      rw [List.append_assoc]
      exact hrest (hds hother)

/-- Whether a keyword comes first does not depend on what follows. -/
theorem noWord {keyword : Keyword} (hsingle : keyword.isSingle = true) (h : Opening cs)
    {other other' : List Char} (hother : Apart other) (hother' : Apart other')
    (hpass : Written.NoWord keyword (cs ++ other)) : Written.NoWord keyword (cs ++ other') := by
  cases h with
  | group => exact Keyword.noKeyword_at_mark keyword (by decide) _
  | name hname hrest =>
      unfold Written.NoWord Passes at *
      rw [List.append_assoc, Written.rest_name hname] at *
      exact (Keyword.noKeyword_at_name_iff hsingle hname (hrest hother')).mpr
        ((Keyword.noKeyword_at_name_iff hsingle hname (hrest hother)).mp hpass)
  | @quoted text _ _ _ =>
      have hquote := Path.isQuote_quoteFor text.toList
      have hstart : Identifier.isStart (Text.quoteFor text.toList) = false := by
        rcases Quoted.isQuote_eq_true.mp hquote with hq | hq
        · rw [hq]
          rfl
        · rw [hq]
          rfl
      rw [Text.toList_inQuotes]
      unfold Written.NoWord Passes
      rw [List.cons_append, List.cons_append, List.cons_append,
        Trivia.rest_solid _ (Written.quote_facts hquote []).1]
      exact Keyword.noKeyword_at_mark keyword hstart _

/-- Whether a value comes first does not depend on what follows. -/
theorem noValue (h : Opening cs) {other other' : List Char} (hother : Apart other)
    (hother' : Apart other') (hno : Written.NoValue (cs ++ other)) :
    Written.NoValue (cs ++ other') := by
  cases h with
  | group => exact ⟨rfl, rfl, rfl, rfl⟩
  | @name name cs hname hrest =>
      have hsingle : ∀ keyword ∈ Keyword.literals, keyword.isSingle = true := by decide
      obtain ⟨hnumber, hquoted⟩ := Written.name_facts hname (cs ++ other')
      have hliteral := hno.literal
      unfold Passes at hliteral
      rw [List.append_assoc, Written.rest_name hname] at hliteral
      have hnames := (Keyword.noneOf_at_name_iff hsingle hname (hrest hother)).mp hliteral
      rw [List.append_assoc]
      refine ⟨?_, ?_, ?_, Written.noMark_name hname (by decide) _⟩
      · rwa [Passes, Written.rest_name hname]
      · rwa [Passes, Written.rest_name hname]
      · rw [Passes, Written.rest_name hname]
        exact Keyword.noneOf_at_name hnames hname (hrest hother')
  | quoted hsafe hrest =>
      obtain ⟨escapes, htake⟩ := hsafe.takes (hrest hother)
      rw [List.append_assoc] at hno
      exact absurd hno.quoted htake.not_passes

end Opening

theorem Path.Legible.opening {path : Path} (h : path.Legible) : Opening path.render.toList := by
  unfold Legible at h
  split at h
  · next hquoted =>
      rw [render_of_quoted hquoted]
      have hopening : Opening ((Text.inQuotes path.text).toList ++ []) :=
        .quoted h fun hother => hother
      rwa [List.append_nil] at hopening
  · next hquoted =>
      rw [Bool.not_eq_true] at hquoted
      obtain ⟨name, more, htext, hname, -, -, hmore, -⟩ := h.2.split
      rw [render_of_bare hquoted h.1, htext]
      exact .name hname fun hother => hmore hother.name

namespace Expr

/-- A call without a test behind it. -/
theorem render_call {name : Path} {arguments : List Expr}
    (h : ∀ e ∈ arguments, e.hasImplicitSubject = false) :
    (call name arguments).render.toList =
      name.render.toList ++ '(' :: ((commaSeparated (arguments.map render)).toList ++ [')']) := by
  have hnone : (trailing? arguments).isSome = false := by
    rw [trailing?]
    cases hlast : arguments.getLast? with
    | none => rfl
    | some e => simp [Option.filter, h e (List.mem_of_getLast? hlast)]
  rw [render, renderCall, hnone, renderAll_eq_map]
  simp

/-- A call with a test behind it. -/
theorem render_callTest {name : Path} {arguments : List Expr} {e : Expr}
    (h : e.hasImplicitSubject = true) :
    (call name (arguments ++ [e])).render.toList =
      name.render.toList ++ '(' :: ((commaSeparated (arguments.map render)).toList ++
        ')' :: ' ' :: e.render.toList) := by
  have hsome : (trailing? (arguments ++ [e])).isSome = true := by
    simp [trailing?, Option.filter, h]
  rw [render, renderCall, hsome, renderAll_eq_map]
  simp

theorem opening_inParens {wanted : Bool} {text : String} (h : Opening text.toList) :
    Opening (inParens wanted text).toList := by
  cases wanted with
  | true =>
      rw [inParens, if_pos rfl, String.toList_append, String.toList_append]
      exact .group
  | false => exact h

theorem Legible.opening {e : Expr} : e.Legible → Opening e.render.toList
  | .truth => @Opening.name "true".toList [] (by decide) fun hother => hother.name
  | .test hpath hsubject htest _ => by
      rw [htest.render_eq, renderSubject_of_not_implicit hsubject, List.append_assoc]
      exact hpath.opening.append fun _ => Apart.cons _ (by decide)
  | .call hname hall => by
      rw [render_call fun e he => (hall e he).not_implicit]
      exact hname.opening.append fun _ => Apart.cons _ (by decide)
  | .callTest hname _ hsubject _ htest _ => by
      rw [render_callTest (htest.hasImplicitSubject_eq.trans hsubject)]
      exact hname.opening.append fun _ => Apart.cons _ (by decide)
  | .connect hleft _ _ => by
      rw [render_connect]
      exact (opening_inParens hleft.opening).append fun _ => Apart.cons _ (by decide)

end Expr

end DocQuery
