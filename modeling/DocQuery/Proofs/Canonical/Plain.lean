import DocQuery.Proofs.Canonical.Clause
import DocQuery.Proofs.Lexical.Escape
import DocQuery.Proofs.Spans

/-!
# Plain names

A plain name was written without quotes, has `@` at most in front, and starts
with no word that means something of its own in a query.  An expression that was
read is legible if all its names are plain and no argument of a call has the
condition `true` in it.  The main statement is `Written.Condition.legible`.
-/

namespace DocQuery

open Lexical

/-! ## Characters of a name -/

namespace Lexical

theorem Identifier.isPart_of_mayOpen {beginning : Bool} {c : Char}
    (h : mayOpen beginning c = true) (hne : c ≠ '@') : isPart c = true := by
  have hstart : isStart c = true → isPart c = true := by
    intro hstart
    simp only [isStart, Bool.or_eq_true, beq_iff_eq, hne, or_false] at hstart
    simp only [isPart, Text.isAlphanumeric, Bool.or_eq_true, beq_iff_eq]
    rcases hstart with hletter | hscore
    · exact Or.inl (Or.inl hletter)
    · exact Or.inr hscore
  rw [mayOpen] at h
  split at h
  · exact hstart h
  · rcases Bool.or_eq_true_iff.mp h with h | h
    · exact hstart h
    · exact h

theorem Identifier.all_isPart {beginning : Bool} {name : List Char}
    (hname : isName beginning name = true) (hat : '@' ∉ name) : name.all isPart = true := by
  cases name with
  | nil => rfl
  | cons c cs =>
      simp only [isName, Bool.and_eq_true] at hname
      have hne : c ≠ '@' := fun heq => hat (heq ▸ List.mem_cons_self)
      rw [List.all_cons, isPart_of_mayOpen hname.1 hne, hname.2, Bool.and_self]

/-- A number without sign, fraction and exponent has no characters but digits. -/
theorem Numeral.all_isDigit {token rest : List Char}
    (h : size? (token ++ rest) = some (token.length, .long)) (hpositive : token.head? ≠ some '-') :
    token.all Char.isDigit = true := by
  obtain ⟨⟨⟨minus, whole, point, power, hminus, hwhole, _, _⟩, rfl, hkind⟩, -⟩ :=
    Rule.number_eq_some_iff.mp h
  obtain ⟨rfl, rfl⟩ : point = [] ∧ power = [] := by
    simpa [Pieces.kind] using hkind
  rcases hminus with rfl | rfl
  · simpa [Pieces.chars] using hwhole.2
  · exact absurd rfl hpositive

end Lexical

/-! ## Characters of a path -/

namespace Path

theorem isBarePart_of_isPart {cs : List Char} (h : cs.all Identifier.isPart = true) :
    cs.all isBarePart = true := by
  rw [List.all_eq_true] at h ⊢
  intro c hc
  simp [isBarePart, h c hc]

end Path

namespace Written

variable {cs rest : List Char} {text : String}

theorem Index.all_isBarePart (h : Index cs text rest) :
    text.toList.all DocQuery.Path.isBarePart = true := by
  cases h with
  | absent _ => rfl
  | empty _ _ _ => decide
  | @number _ _ token _ _ htake hpositive _ =>
      have hdigits := Numeral.all_isDigit htake.measured hpositive
      have hparts : token.all Identifier.isPart = true := by
        rw [List.all_eq_true] at hdigits ⊢
        exact fun c hc => isPart_of_isDigit (hdigits c hc)
      have htoken := DocQuery.Path.isBarePart_of_isPart hparts
      simp only [String.toList_append, String.toList_ofList, List.all_append, htoken]
      decide

theorem Tail.all_isBarePart {quoted : Bool} (h : Tail cs text quoted rest)
    (hquoted : quoted = false) (hat : '@' ∉ text.toList) :
    text.toList.all DocQuery.Path.isBarePart = true := by
  induction h with
  | last hindex _ => exact hindex.all_isBarePart
  | @more _ _ _ _ token _ bracket text more _ _ hindex _ hsegment _ ih =>
      simp only [Bool.or_eq_false_iff] at hquoted
      obtain ⟨rfl, hothers⟩ := hquoted
      simp only [String.toList_append, List.mem_append, not_or] at hat
      obtain ⟨⟨-, hat⟩, hmore⟩ := hat
      cases hsegment with
      | name htake =>
          rw [String.toList_ofList] at hat
          have hparts := Identifier.all_isPart (name_of_takes htake).1 hat
          have htoken := DocQuery.Path.isBarePart_of_isPart hparts
          simp only [String.toList_append, String.toList_ofList, List.all_append,
            hindex.all_isBarePart, htoken, ih hothers hmore]
          decide

end Written

namespace Path

/-- A path without quotes that has `@` at most in front needs no quotes for its characters. -/
theorem Spelled.all_isBarePart {text : String} (h : Spelled text)
    (hat : '@' ∉ text.toList.tail) :
    ∃ c cs, text.toList = c :: cs ∧ Identifier.isStart c = true ∧ cs.all isBarePart = true := by
  obtain ⟨size, cs, span, rest, hpath⟩ := h
  generalize hp : (⟨text, span, false⟩ : Path) = p at hpath
  cases hpath with
  | @mk token r _ _ more quoted others hsegment _ htail =>
      simp only [Path.mk.injEq, Bool.false_eq, Bool.or_eq_false_iff] at hp
      obtain ⟨rfl, -, rfl, hothers⟩ := hp
      cases hsegment with
      | name htake =>
          obtain ⟨hname, -⟩ := Written.name_of_takes htake
          cases token with
          | nil => cases hname
          | cons c token =>
              rw [Identifier.isName, Identifier.mayOpen, if_pos rfl, Bool.and_eq_true] at hname
              rw [String.toList_append, String.toList_ofList, List.cons_append, List.tail_cons,
                List.mem_append, not_or] at hat
              refine ⟨c, token ++ more.toList, by simp, hname.1, ?_⟩
              rw [List.all_append, isBarePart_of_isPart hname.2,
                htail.all_isBarePart hothers hat.2, Bool.and_self]

/-- A path without quotes needs none if it has `@` at most in front and its first word is free. -/
theorem Spelled.isBare_iff {text : String} (h : Spelled text) : isBare text.toList = true ↔
    '@' ∉ text.toList.tail ∧ (Keyword.ofText? (head text.toList)).any isBarred = false := by
  constructor
  · intro hbare
    cases htext : text.toList with
    | nil =>
        rw [htext] at hbare
        cases hbare
    | cons c cs =>
        rw [htext] at hbare
        simp only [isBare, Bool.and_eq_true, Bool.not_eq_true'] at hbare
        obtain ⟨⟨-, hparts⟩, hword⟩ := hbare
        exact ⟨fun hat => absurd (List.all_eq_true.mp hparts _ hat) (by decide), hword⟩
  · rintro ⟨hat, hword⟩
    obtain ⟨c, cs, htext, hstart, hparts⟩ := h.all_isBarePart hat
    rw [htext] at hword ⊢
    rw [isBare, hstart, hparts, hword]
    rfl

/-- Without quotes and backslashes a text can stand between quotes as it is. -/
theorem quoteSafe_of_all {text : String} (h : ∀ c ∈ text.toList,
    c ≠ '\\' ∧ Quoted.isQuote c = false) : QuoteSafe text := by
  have hslash : '\\' ∉ text.toList := fun hmem => (h _ hmem).1 rfl
  have hquote : '\'' ∉ text.toList := fun hmem => absurd (h _ hmem).2 (by decide)
  have hpaired := Quoted.Paired.of_not_mem hslash
  exact quoteSafe_iff.mpr ((Quoted.exists_body_quoteFor_iff hpaired).mpr (Or.inl hquote))

end Path

/-! ## Plain names -/

/-- The words that a plain name does not start with. -/
def Keyword.barred : List Keyword :=
  reserved ++ literals ++ [not]

namespace Path

/-- The name has `@` at most in front. -/
def hasPlainText (text : String) : Bool :=
  !text.toList.tail.contains '@'

/-- The path was written without quotes, has `@` at most in front and starts with no such word. -/
def isPlain (path : Path) : Bool :=
  !path.quoted && hasPlainText path.text &&
    !(Keyword.ofText? (head path.text.toList)).any Keyword.barred.contains

/-- The text is read as a path without quotes, from its beginning to its end. -/
def isSpelled (text : String) : Bool :=
  (Grammar.readWhole Grammar.path text).any fun path => path.text == text && !path.quoted

/-- The alias can be written without quotes, and has `@` at most in front. -/
def isPlainAlias (text : String) : Bool :=
  isSpelled text && hasPlainText text

theorem isSpelled_iff {text : String} : isSpelled text = true ↔ Spelled text := by
  have hstart := Grammar.stands_ofText text
  constructor
  · intro h
    obtain ⟨p, hread, hp⟩ := (Option.any_eq_true _ _).mp h
    rw [Bool.and_eq_true, beq_iff_eq, Bool.not_eq_true'] at hp
    obtain ⟨rfl, hquoted⟩ := hp
    obtain ⟨s, hrun, -⟩ := Grammar.exists_of_readWhole hread
    rcases Grammar.path_sound hstart hrun with ⟨hnone, -⟩ | ⟨_, rest, hsome, hpath, -⟩
    · cases hnone
    · cases hsome
      exact ⟨_, _, p.span, rest, by rw [← hquoted]; exact hpath⟩
  · intro h
    obtain ⟨-, -, -, -, -, -, -, hagain⟩ := h.split
    obtain ⟨span, hpath⟩ := hagain (Text.byteLength text.toList) Behind.nil.toEndsPath
    rw [List.append_nil] at hpath
    have hfuel := Session.length_le_fuelFor text.toList
    rw [String.ofList_toList] at hfuel
    obtain ⟨s', hread, hmoves⟩ := Grammar.path_complete _ hfuel hstart hpath
    rw [isSpelled, Grammar.readWhole_eq_some hread hmoves.ahead]
    simp

/-! ## Plain names are read back -/

theorem quoted_of_isPlain {path : Path} (h : path.isPlain = true) : path.quoted = false := by
  simp only [isPlain, Bool.and_eq_true, Bool.not_eq_true'] at h
  exact h.1.1

/-- A plain path can do without quotes. -/
theorem Spelled.legible {path : Path} (h : Spelled path.text) (hplain : path.isPlain = true) :
    path.Legible := by
  simp only [isPlain, hasPlainText, Bool.and_eq_true, Bool.not_eq_true'] at hplain
  obtain ⟨⟨hquoted, hat⟩, hword⟩ := hplain
  have hbarred : ∀ keyword, isBarred keyword = true → keyword ∈ Keyword.barred := by
    intro keyword
    cases keyword <;> decide
  rw [Legible, if_neg (by simp [hquoted]), h.isBare_iff]
  refine ⟨⟨by simpa using hat, ?_⟩, h⟩
  rw [← Bool.not_eq_true, Option.any_eq_true]
  rintro ⟨keyword, hfound, hkeyword⟩
  rw [hfound, Option.any_some, ← Bool.not_eq_true, List.contains_iff_mem] at hword
  exact hword (hbarred keyword hkeyword)

/-- A path that was read is legible if it is plain. -/
theorem legible_of_isPlain {size : Nat} {cs rest : List Char} {path : Path}
    (h : Written.Path size cs path rest) (hplain : path.isPlain = true) : path.Legible := by
  have hspelled : Spelled path.text :=
    ⟨size, cs, path.span, rest, by rw [← quoted_of_isPlain hplain]; exact h⟩
  exact hspelled.legible hplain

/-- A name by itself is a path, unless it is reserved. -/
theorem spelled_of_name {name : List Char} (hname : Identifier.isName true name = true)
    (hfree : Written.isReserved name = false) : Spelled (String.ofList name) := by
  have htail : Written.Tail [] "" false [] := .last (.absent rfl) rfl
  have hpath : Written.Path 0 (name ++ []) _ [] :=
    .mk (.name (Written.takes_name hname Apart.nil.name)) hfree htail
  rw [String.append_empty] at hpath
  exact ⟨0, _, _, _, hpath⟩

theorem isReserved_of_isPlain {name : List Char} {span : Span}
    (hname : Identifier.isName true name = true)
    (hplain : isPlain ⟨String.ofList name, span, false⟩ = true) :
    Written.isReserved name = false := by
  have hhead : head name = name := by
    have hhead := head_name hname (Or.inl rfl)
    rwa [List.append_nil] at hhead
  simp only [isPlain, String.toList_ofList, hhead, Bool.and_eq_true, Bool.not_eq_true'] at hplain
  rw [Written.isReserved, ← Bool.not_eq_true, Option.any_eq_true]
  rintro ⟨keyword, hfound, hmem⟩
  have hword := hplain.2
  rw [hfound, Option.any_some, ← Bool.not_eq_true, List.contains_iff_mem] at hword
  exact hword (List.mem_append_left _ (List.mem_append_left _ (List.contains_iff_mem.mp hmem)))

/-- A plain alias is read back, be it that canonical text puts it in quotes. -/
theorem legibleAlias_of_isPlainAlias {text : String} (h : isPlainAlias text = true) :
    LegibleAlias text := by
  rw [isPlainAlias, Bool.and_eq_true, isSpelled_iff] at h
  obtain ⟨hspelled, hat⟩ := h
  rw [LegibleAlias]
  split
  · exact hspelled
  · obtain ⟨c, more, htext, hstart, hmore⟩ :=
      hspelled.all_isBarePart (by simpa [hasPlainText] using hat)
    refine quoteSafe_of_all fun d hd => ?_
    have hbare : ∀ d, Identifier.isStart d = true ∨ isBarePart d = true →
        d ≠ '\\' ∧ Quoted.isQuote d = false := by
      intro d hd
      rw [← Bool.not_eq_true, Quoted.isQuote_eq_true, not_or]
      refine ⟨?_, ?_, ?_⟩
      · rintro rfl
        exact absurd hd (by decide)
      · rintro rfl
        exact absurd hd (by decide)
      · rintro rfl
        exact absurd hd (by decide)
    rw [htext] at hd
    rcases List.mem_cons.mp hd with rfl | hd
    · exact hbare _ (Or.inl hstart)
    · exact hbare d (Or.inr (List.all_eq_true.mp hmore d hd))

end Path

/-! ## Words at the head of a text -/

/-- The text starts with a group, or with a whole name that is none of these words. -/
inductive StartsWithout (words : List Keyword) : List Char → Prop where
  | group {cs : List Char} : StartsWithout words ('(' :: cs)
  | name {name cs : List Char} :
      Identifier.isName true name = true → Keyword.names words name = false →
      (∀ {other}, Apart other → Identifier.NoPart (cs ++ other)) → StartsWithout words (name ++ cs)

namespace StartsWithout

variable {words : List Keyword} {cs other : List Char}

theorem append (h : StartsWithout words cs) {ds : List Char}
    (hds : ∀ {other}, Apart other → Apart (ds ++ other)) : StartsWithout words (cs ++ ds) := by
  cases h with
  | group => exact .group
  | name hname hwords hrest =>
      rw [List.append_assoc]
      refine .name hname hwords fun hother => ?_
      rw [List.append_assoc]
      exact hrest (hds hother)

theorem mono (h : StartsWithout words cs) {fewer : List Keyword} (hfewer : fewer ⊆ words) :
    StartsWithout fewer cs := by
  cases h with
  | group => exact .group
  | name hname hwords hrest =>
      refine .name hname ?_ hrest
      rw [Keyword.names, List.any_eq_false] at hwords ⊢
      exact fun keyword hmem => hwords keyword (hfewer hmem)

theorem noWord (h : StartsWithout words cs) {keyword : Keyword} (hmem : keyword ∈ words)
    (hother : Apart other) : Written.NoWord keyword (cs ++ other) := by
  cases h with
  | group => exact Keyword.noKeyword_at_mark keyword (by decide) _
  | name hname hwords hrest =>
      rw [Keyword.names, List.any_eq_false] at hwords
      rw [Written.NoWord, Passes, List.append_assoc, Written.rest_name hname]
      exact Keyword.noKeyword_at_name (Bool.not_eq_true _ |>.mp (hwords keyword hmem)) hname
        (hrest hother)

theorem noValue (h : StartsWithout words cs) (hliterals : Keyword.literals ⊆ words)
    (hother : Apart other) : Written.NoValue (cs ++ other) := by
  cases h.mono hliterals with
  | group => exact ⟨rfl, rfl, rfl, rfl⟩
  | @name name cs hname hwords hrest =>
      obtain ⟨hnumber, hquoted⟩ := Written.name_facts hname (cs ++ other)
      rw [List.append_assoc]
      refine ⟨?_, ?_, ?_, Written.noMark_name hname (by decide) _⟩
      · rwa [Passes, Written.rest_name hname]
      · rwa [Passes, Written.rest_name hname]
      · rw [Passes, Written.rest_name hname]
        exact Keyword.noneOf_at_name hwords hname (hrest hother)

end StartsWithout

/-- A plain path starts with none of the words that it is barred from. -/
theorem Path.Legible.startsWithout {path : Path} (h : path.Legible) (hplain : path.isPlain = true) :
    StartsWithout Keyword.barred path.render.toList := by
  simp only [isPlain, Bool.and_eq_true, Bool.not_eq_true'] at hplain
  obtain ⟨⟨hquoted, -⟩, hword⟩ := hplain
  have hsingle : ∀ keyword ∈ Keyword.barred, keyword.isSingle = true := by decide
  rw [Legible, if_neg (by simp [hquoted])] at h
  obtain ⟨name, more, htext, hname, -, hhead, hmore, -⟩ := h.2.split
  rw [hhead] at hword
  rw [render_of_bare hquoted h.1, htext]
  exact .name hname ((Keyword.names_eq hsingle hname).trans hword) fun hother => hmore hother.name

/-! ## Plain expressions -/

namespace Expr

mutual

/-- All names of the expression are plain, and no argument of a call has `true` in it. -/
def isPlain (inArgument : Bool) : Expr → Bool
  | .field path => path.isPlain
  | .value _ => true
  | .binary _ left right => left.isPlain inArgument && right.isPlain inArgument
  | .call name arguments => name.isPlain && arePlain arguments
  | .between subject _ _ => subject.isPlain
  | .within subject _ _ => subject.isPlain
  | .truth => !inArgument

/-- All arguments of a call are plain. -/
def arePlain : List Expr → Bool
  | [] => true
  | e :: es => e.isPlain true && arePlain es

end

theorem arePlain_eq_all (es : List Expr) : arePlain es = es.all (isPlain true) := by
  induction es with
  | nil => rfl
  | cons e es ih => rw [arePlain, ih, List.all_cons]

theorem isPlain_connect {inArgument : Bool} {connective : Connective} {left right : Expr} :
    (connect connective left right).isPlain inArgument = true ↔
      left.isPlain inArgument = true ∧ right.isPlain inArgument = true := by
  rw [connect, isPlain, Bool.and_eq_true]

theorem IsTest.isPlain_eq {inArgument : Bool} {subject : Path} {t : Grammar.Test} {e : Expr}
    {operand : String} (h : IsTest subject t e operand) :
    e.isPlain inArgument = subject.isPlain := by
  cases h with
  | compare => simp only [Expr.compare, isPlain, Bool.and_true]
  | between => rw [isPlain]
  | within => rw [isPlain]

theorem startsWithout_inParens {words : List Keyword} {wanted : Bool} {text : String}
    (h : StartsWithout words text.toList) : StartsWithout words (inParens wanted text).toList := by
  cases wanted with
  | true =>
      rw [inParens, if_pos rfl, String.toList_append, String.toList_append]
      exact .group
  | false => exact h

/-- A plain condition starts with no such word, unless that is the condition `true`. -/
theorem Legible.startsWithout {inArgument : Bool} {words : List Keyword}
    (hwords : words ⊆ Keyword.barred)
    (htruth : inArgument = true ∨ Keyword.names words "true".toList = false) {e : Expr} :
    e.Legible → e.isPlain inArgument = true → StartsWithout words e.render.toList
  | .truth, hplain => by
      rw [isPlain, Bool.not_eq_true'] at hplain
      exact @StartsWithout.name words "true".toList [] (by decide)
        (htruth.resolve_left (by simp [hplain])) fun hother => hother.name
  | .test hpath hsubject htest _, hplain => by
      rw [htest.isPlain_eq] at hplain
      rw [htest.render_eq, renderSubject_of_not_implicit hsubject, List.append_assoc]
      exact ((hpath.startsWithout hplain).mono hwords).append fun _ => Apart.cons _ (by decide)
  | .call hname hall, hplain => by
      rw [isPlain, Bool.and_eq_true] at hplain
      rw [render_call fun e he => (hall e he).not_implicit]
      exact ((hname.startsWithout hplain.1).mono hwords).append fun _ => Apart.cons _ (by decide)
  | .callTest hname _ hsubject _ htest _, hplain => by
      rw [isPlain, Bool.and_eq_true] at hplain
      rw [render_callTest (htest.hasImplicitSubject_eq.trans hsubject)]
      exact ((hname.startsWithout hplain.1).mono hwords).append fun _ => Apart.cons _ (by decide)
  | .connect hleft _ _, hplain => by
      rw [render_connect]
      have hstart := hleft.startsWithout hwords htruth (isPlain_connect.mp hplain).1
      exact (startsWithout_inParens hstart).append fun _ => Apart.cons _ (by decide)

end Expr

/-! ## Conditions that were read -/

namespace Written

open DocQuery.Expr

variable {size : Nat} {cs rest : List Char}

theorem MoreValues.spelled {kind : ValueKind} {values : List DocQuery.Value}
    (h : MoreValues size kind cs values rest) : ∀ v ∈ values, v.Spelled := by
  induction h with
  | last _ => exact fun _ hmem => by cases hmem
  | more _ _ hvalue _ _ ih => exact List.forall_mem_cons.mpr ⟨⟨_, _, _, _, hvalue, rfl⟩, ih⟩

theorem ValueList.spelled {values : List DocQuery.Value} (h : ValueList size cs values rest) :
    ∀ v ∈ values, v.Spelled := by
  cases h with
  | empty _ _ => exact fun _ hmem => by cases hmem
  | values _ _ hvalue hmore =>
      exact List.forall_mem_cons.mpr ⟨⟨_, _, _, _, hvalue, rfl⟩, hmore.spelled⟩

theorem Test.isTest {subject : DocQuery.Path} {test : Grammar.Test} {e : Expr}
    (h : Test size subject test cs e rest) :
    e.HasValues ∧ ∃ operand, IsTest subject test e operand := by
  cases h with
  | compare hvalue => exact ⟨⟨_, _, _, _, hvalue, rfl⟩, _, .compare⟩
  | between hlow _ hhigh hkind =>
      exact ⟨⟨⟨_, _, _, _, hlow, rfl⟩, ⟨_, _, _, _, hhigh, rfl⟩, hkind⟩, _, .between⟩
  | within hvalues => exact ⟨⟨hvalues.spelled, hvalues.kind_eq⟩, _, .within⟩

mutual

/-- A plain condition that was read is read back from its canonical text. -/
theorem Condition.legible {inArgument : Bool} {c : Syntax.Condition} {cs rest : List Char} :
    Condition size cs c rest → c.tree.isPlain inArgument = true → c.tree.Legible
  | .chain hfirst hlinks => by
      refine @Chain.fold_induction (fun e => e.isPlain inArgument = true → e.Legible) ?_ _ _
        hfirst.legible hlinks.legible
      intro connective left right hleft hright hplain
      obtain ⟨hplainLeft, hplainRight⟩ := isPlain_connect.mp hplain
      have hlegible := hright hplainRight
      have hstart : StartsWithout [.not] (renderRight connective right).toList :=
        startsWithout_inParens
          (hlegible.startsWithout (by decide) (Or.inr (by decide)) hplainRight)
      have hno := hstart.noWord List.mem_cons_self Apart.nil
      rw [List.append_nil] at hno
      exact .connect (hleft hplainLeft) hlegible (Or.inr hno)

theorem Links.legible {inArgument : Bool} {links : Syntax.Links} {cs rest : List Char} :
    Links size cs links rest → ∀ link ∈ links.toList,
      link.condition.isPlain inArgument = true → link.condition.Legible
  | .nil _ => fun _ hmem => by cases hmem
  | .cons _ _ hoperand hlinks => List.forall_mem_cons.mpr ⟨hoperand.legible, hlinks.legible⟩

theorem Operand.legible {inArgument : Bool} {o : Syntax.Operand} {cs rest : List Char} :
    Operand size cs o rest → o.tree.isPlain inArgument = true → o.tree.Legible
  | .group _ hinner _ => hinner.legible
  | .truth _ _ => fun _ => .truth
  | .test _ _ hpath _ htest => fun hplain => by
      obtain ⟨hvalues, operand, his⟩ := htest.isTest
      rw [Syntax.Operand.tree, his.isPlain_eq] at hplain
      have hsubject := hpath.not_omitted
      rw [DocQuery.Path.isOmitted, DocQuery.Path.quoted_of_isPlain hplain] at hsubject
      exact .test (DocQuery.Path.legible_of_isPlain hpath hplain) (by simpa using hsubject) his
        hvalues
  | .call _ _ hname _ harguments htrailing => fun hplain => by
      rw [Syntax.Operand.tree, isPlain, arePlain_eq_all, List.all_append, ← arePlain_eq_all,
        Bool.and_eq_true, Bool.and_eq_true] at hplain
      obtain ⟨hplainName, hplainArguments, hplainTrailing⟩ := hplain
      have hlegible := DocQuery.Path.legible_of_isPlain hname hplainName
      have hall := harguments.legible hplainArguments
      cases htrailing with
      | absent _ =>
          rw [Syntax.Operand.tree, Option.toList_none, List.append_nil]
          exact .call hlegible hall
      | present _ htest =>
          obtain ⟨hvalues, operand, his⟩ := htest.isTest
          exact .callTest hlegible hall rfl rfl his hvalues

theorem Arguments.legible {first : Bool} {as : Syntax.Arguments} {cs rest : List Char} :
    Arguments size first cs as rest → arePlain as.trees = true → ∀ e ∈ as.trees, LegibleArgument e
  | .nil _ => fun _ _ hmem => by cases hmem
  | .cons _ _ hargument hothers => fun hplain => by
      rw [Syntax.Arguments.trees, arePlain, Bool.and_eq_true] at hplain
      exact List.forall_mem_cons.mpr ⟨hargument.legible hplain.1, hothers.legible hplain.2⟩

theorem Argument.legible {a : Syntax.Argument} {cs rest : List Char} :
    Argument size cs a rest → a.tree.isPlain true = true → LegibleArgument a.tree
  | .value hvalue => fun _ => .value ⟨_, _, _, _, hvalue, rfl⟩
  | .field _ hpath _ => fun hplain => by
      rw [Syntax.Argument.tree, isPlain] at hplain
      have hlegible := DocQuery.Path.legible_of_isPlain hpath hplain
      have hno := (hlegible.startsWithout hplain).noValue (by decide) Apart.nil
      rw [List.append_nil] at hno
      exact .field hlegible hno
  | .condition _ _ hinner => fun hplain => by
      have hlegible := hinner.legible hplain
      have hstart : StartsWithout Keyword.barred _ :=
        hlegible.startsWithout (List.Subset.refl _) (Or.inl rfl) hplain
      have hno := hstart.noValue (by decide) Apart.nil
      rw [List.append_nil] at hno
      exact .condition hlegible hno

end

end Written

end DocQuery
