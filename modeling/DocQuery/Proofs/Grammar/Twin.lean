import DocQuery.Proofs.Canonical.Condition
import DocQuery.Proofs.Grammar.Within
import DocQuery.Proofs.Lexical.Brace

/-!
# Arguments in front of a body

The arguments of a declared function are read in front of the brace of its body,
so they are read alike whatever follows that brace.  Two texts are twins if they
differ behind a brace alone.  Each part of the grammar up to the arguments of a
call is carried over from one text to its twin, from the end of the part to its
beginning.  The main statement is `Written.Arguments.twin`.
-/

namespace DocQuery

open Lexical Written

/-- The texts are the same up to a brace, which no trivia hides. -/
inductive Twin (t t' : List Char) : List Char → List Char → Prop where
  | mk {gap piece : List Char} :
      Trivia.rest (gap ++ (piece ++ '{' :: t)) = piece ++ '{' :: t →
      Trivia.rest (gap ++ (piece ++ '{' :: t')) = piece ++ '{' :: t' →
      Twin t t' (gap ++ (piece ++ '{' :: t)) (gap ++ (piece ++ '{' :: t'))

namespace Twin

variable {t t' cs cs' r r' : List Char} {α : Type} {rule : Rule α} {a : α}

/-- What is behind the trivia is a piece in front of the brace in both texts. -/
theorem exists_piece (h : Twin t t' cs cs') :
    ∃ piece, Trivia.rest cs = piece ++ '{' :: t ∧ Trivia.rest cs' = piece ++ '{' :: t' := by
  cases h with
  | mk hrest hrest' => exact ⟨_, hrest, hrest'⟩

theorem head?_eq (h : Twin t t' cs cs') : (Trivia.rest cs).head? = (Trivia.rest cs').head? := by
  obtain ⟨piece, hrest, hrest'⟩ := h.exists_piece
  rw [hrest, hrest']
  cases piece <;> rfl

theorem startsAs (h : Twin t t' cs cs') : StartsAs cs' cs := by
  cases h with
  | @mk gap piece _ _ =>
      refine Or.inr ?_
      cases gap with
      | nil => cases piece <;> rfl
      | cons c gap => rfl

/-- A token in front of twins is in front of a piece that ends with the brace. -/
theorem token (h : Twin t t' r r') {token : List Char}
    (hsolid : Trivia.rest (token ++ r) = token ++ r) :
    Twin t t' (token ++ r) (token ++ r') ∧ Trivia.rest (token ++ r') = token ++ r' := by
  cases h with
  | @mk gap piece _ _ =>
      have htext : ∀ t, token ++ (gap ++ (piece ++ '{' :: t)) =
          (token ++ (gap ++ piece)) ++ '{' :: t := by
        intro t
        simp
      rw [htext] at hsolid
      rw [htext, htext]
      have hsolid' := @Trivia.rest_brace _ t t' hsolid
      exact ⟨@mk t t' [] _ hsolid hsolid', hsolid'⟩

/-- Trivia in front of twins makes twins. -/
theorem gap (h : Twin t t' r r') (hsolid : Trivia.rest r = r) {gap : List Char}
    (hgap : ∀ {es : List Char}, Trivia.rest es = es → Trivia.rest (gap ++ es) = es) :
    Twin t t' (gap ++ r) (gap ++ r') := by
  cases h with
  | @mk gap₁ piece hrest hrest' =>
      obtain rfl : gap₁ = [] := by
        rw [hrest] at hsolid
        simpa using hsolid
      exact @mk t t' gap piece (hgap hrest) (hgap hrest')

theorem passes (h : Twin t t' cs cs') (hrule : rule.Settled) (hpass : Passes rule cs) :
    Passes rule cs' := by
  obtain ⟨piece, hrest, hrest'⟩ := h.exists_piece
  rw [Passes, hrest, hrule.eq piece t t'] at hpass
  rwa [Passes, hrest']

/-- A token that the rule measures alike in front of the twin is taken there too. -/
theorem takes_of (h : Twin t t' r r') {token : List Char} (htake : Takes rule cs token a r)
    (hne : token ≠ [])
    (hmeasured : rule (token ++ r') = some (token.length, a)) :
    ∃ cs', Twin t t' cs cs' ∧ Takes rule cs' token a r' := by
  obtain ⟨gap, rfl, hgap⟩ := Trivia.exists_gap htake.split (by simp [hne])
  have hsolid : Trivia.rest (token ++ r) = token ++ r := by
    rw [← htake.split, Trivia.rest_rest]
  obtain ⟨htwin, hsolid'⟩ := h.token hsolid
  exact ⟨gap ++ (token ++ r'), htwin.gap hsolid hgap, hgap hsolid', hmeasured⟩

/-- In front of the twin a rule finds what it finds in a piece that ends with the brace. -/
theorem measured (h : Twin t t' r r') {token : List Char}
    (hrule : ∀ {piece : List Char}, token.length ≤ piece.length →
      rule (piece ++ '{' :: t) = some (token.length, a) →
      rule (piece ++ '{' :: t') = some (token.length, a))
    (hmeasured : rule (token ++ r) = some (token.length, a)) :
    rule (token ++ r') = some (token.length, a) := by
  cases h with
  | @mk gap piece _ _ =>
      have htext : ∀ t, token ++ (gap ++ (piece ++ '{' :: t)) =
          (token ++ (gap ++ piece)) ++ '{' :: t := by
        intro t
        simp
      rw [htext] at hmeasured ⊢
      exact hrule (by simp) hmeasured

theorem takes (h : Twin t t' r r') (hrule : rule.Settled) (hsized : rule.Sized)
    {token : List Char} (htake : Takes rule cs token a r) :
    ∃ cs', Twin t t' cs cs' ∧ Takes rule cs' token a r' := by
  refine h.takes_of htake ?_ (h.measured (fun _ hpiece => ?_) htake.measured)
  · rintro rfl
    exact absurd (hsized.pos htake.measured) (Nat.lt_irrefl 0)
  · rw [← hrule.eq]
    exact hpiece

end Twin

namespace Written

variable {t t' cs rest rest' : List Char} {size : Nat} (size' : Nat)

/-! ## Marks and words -/

theorem Mark.twin {c : Char} (h : Mark c cs rest) (hrest : Twin t t' rest rest') :
    ∃ cs', Twin t t' cs cs' ∧ Mark c cs' rest' :=
  hrest.takes (Rule.settled_char c) (Rule.sized_char c) h

theorem NoMark.twin {c : Char} (h : NoMark c cs) {cs' : List Char} (hcs : Twin t t' cs cs') :
    NoMark c cs' :=
  hcs.passes (Rule.settled_char c) h

theorem Word.twin {keyword : Keyword} (hsingle : keyword.isSingle = true)
    (h : Word keyword cs rest) (hrest : Twin t t' rest rest') :
    ∃ cs', Twin t t' cs cs' ∧ Word keyword cs' rest' := by
  obtain ⟨token, htake⟩ := h
  obtain ⟨cs', hcs, htake⟩ :=
    hrest.takes (Rule.settled_keyword hsingle) (Rule.sized_phrase _) htake
  exact ⟨cs', hcs, token, htake⟩

theorem NoWord.twin {keyword : Keyword} (hsingle : keyword.isSingle = true)
    (h : NoWord keyword cs) {cs' : List Char} (hcs : Twin t t' cs cs') : NoWord keyword cs' :=
  hcs.passes (Rule.settled_keyword hsingle) h

/-! ## Quoted texts -/

/-- No quote is next. -/
def Unquoted (cs : List Char) : Prop :=
  (Trivia.rest cs).head?.any Quoted.isQuote = false

theorem Unquoted.twin {cs' : List Char} (h : Unquoted cs) (hcs : Twin t t' cs cs') :
    Unquoted cs' := by
  rwa [Unquoted, ← hcs.head?_eq]

theorem Unquoted.passes (h : Unquoted cs) : Passes Rule.quoted cs := by
  rw [Unquoted] at h
  rw [Passes, Rule.quoted]
  cases hcs : Trivia.rest cs with
  | nil => rfl
  | cons c more =>
      rw [hcs] at h
      have hquote : Quoted.isQuote c = false := h
      rw [Quoted.size?, if_neg (by simp [hquote])]
      rfl

/-- A token that no quote starts. -/
theorem unquoted_of_takes {α : Type} {rule : Rule α} {token : List Char} {a : α}
    (h : Takes rule cs token a rest)
    (hrule : ∀ {c : Char} {more : List Char}, Quoted.isQuote c = true → rule (c :: more) = none) :
    Unquoted cs := by
  rw [Unquoted, ← Bool.not_eq_true]
  intro hquote
  obtain ⟨c, hhead, hquote⟩ := (Option.any_eq_true _ _).mp hquote
  obtain ⟨more, hmore⟩ := List.head?_eq_some_iff.mp hhead
  have hmeasured := h.measured
  rw [← h.split, hmore, hrule hquote] at hmeasured
  cases hmeasured

theorem takes_quoted_twin {token : List Char} {escapes : Nat}
    (h : Takes Rule.quoted cs token escapes rest) (hrest : Twin t t' rest rest') :
    ∃ cs', Twin t t' cs cs' ∧ Takes Rule.quoted cs' token escapes rest' := by
  refine hrest.takes_of h ?_ (Rule.quoted_again h.measured hrest.startsAs)
  obtain ⟨_, _, -, rfl, -⟩ := Rule.quoted_eq_some h.measured
  exact List.cons_ne_nil _ _

/-! ## Values -/

theorem settled_literals : (Rule.anyKeyword Keyword.literals).Settled :=
  Rule.settled_anyKeyword (by decide)

theorem Value.twin {v : DocQuery.Value} (h : Value size cs v rest) (hrest : Twin t t' rest rest') :
    ∃ cs' v', Twin t t' cs cs' ∧ Value size' cs' v' rest' ∧ v'.kind = v.kind := by
  cases h with
  | number htake =>
      obtain ⟨cs', hcs, htake⟩ := hrest.takes Rule.settled_number Rule.sized_number htake
      exact ⟨cs', _, hcs, .number htake, rfl⟩
  | quoted hnumber htake =>
      obtain ⟨cs', hcs, htake⟩ := takes_quoted_twin htake hrest
      exact ⟨cs', _, hcs, .quoted (hcs.passes Rule.settled_number hnumber) htake, rfl⟩
  | @literal token _ keyword hnumber hquoted htake =>
      have hno : Unquoted cs := unquoted_of_takes htake fun hquote => by
        rcases Quoted.isQuote_eq_true.mp hquote with rfl | rfl <;> rfl
      obtain ⟨cs', hcs, htake⟩ := hrest.takes settled_literals (Rule.sized_firstOf _) htake
      exact ⟨cs', _, hcs, .literal (hcs.passes Rule.settled_number hnumber)
        (hno.twin hcs).passes htake, rfl⟩
  | @parameter token _ hnumber hquoted hliteral hmark htake =>
      obtain ⟨hname, hsolid⟩ := hrest.token htake.split
      have hmeasured : Rule.identifier false (token ++ rest') = some (token.length, ()) :=
        hrest.measured (fun _ hpiece => by
          rwa [← (Rule.settled_identifier false).eq]) htake.measured
      have hno : Unquoted cs := unquoted_of_takes hmark fun hquote => by
        rcases Quoted.isQuote_eq_true.mp hquote with rfl | rfl <;> rfl
      obtain ⟨cs', hcs, hmark⟩ := hmark.twin hname
      exact ⟨cs', _, hcs, .parameter (hcs.passes Rule.settled_number hnumber)
        (hno.twin hcs).passes (hcs.passes settled_literals hliteral) hmark ⟨hsolid, hmeasured⟩, rfl⟩

/-! ## Paths -/

theorem Segment.twin {beginning quoted : Bool} {token : List Char} {text : String}
    (h : Segment beginning cs token text quoted rest) (hrest : Twin t t' rest rest') :
    ∃ cs', Twin t t' cs cs' ∧ Segment beginning cs' token text quoted rest' := by
  cases h with
  | name htake =>
      obtain ⟨cs', hcs, htake⟩ :=
        hrest.takes (Rule.settled_identifier _) (Rule.sized_identifier _) htake
      exact ⟨cs', hcs, .name htake⟩
  | quoted hname htake =>
      obtain ⟨cs', hcs, htake⟩ := takes_quoted_twin htake hrest
      exact ⟨cs', hcs, .quoted (hcs.passes (Rule.settled_identifier _) hname) htake⟩

theorem Index.twin {text : String} (h : Index cs text rest) (hrest : Twin t t' rest rest') :
    ∃ cs', Twin t t' cs cs' ∧ Index cs' text rest' := by
  cases h with
  | absent hno => exact ⟨rest', hrest, .absent (hno.twin hrest)⟩
  | empty hopen hnumber hclose =>
      obtain ⟨r', hr, hclose⟩ := hclose.twin hrest
      obtain ⟨cs', hcs, hopen⟩ := hopen.twin hr
      exact ⟨cs', hcs, .empty hopen (hr.passes Rule.settled_number hnumber) hclose⟩
  | number hopen htake hpositive hclose =>
      obtain ⟨r', hr, hclose⟩ := hclose.twin hrest
      obtain ⟨r₁', hr₁, htake⟩ := hr.takes Rule.settled_number Rule.sized_number htake
      obtain ⟨cs', hcs, hopen⟩ := hopen.twin hr₁
      exact ⟨cs', hcs, .number hopen htake hpositive hclose⟩

theorem Tail.twin {more : String} {quoted : Bool} (h : Tail cs more quoted rest)
    (hrest : Twin t t' rest rest') : ∃ cs', Twin t t' cs cs' ∧ Tail cs' more quoted rest' := by
  induction h with
  | last hindex hdot =>
      obtain ⟨cs', hcs, hindex⟩ := hindex.twin hrest
      exact ⟨cs', hcs, .last hindex (hdot.twin hrest)⟩
  | more hindex hdot hsegment _ ih =>
      obtain ⟨r₂', hr₂, htail⟩ := ih hrest
      obtain ⟨r₁', hr₁, hsegment⟩ := hsegment.twin hr₂
      obtain ⟨r', hr, hdot⟩ := hdot.twin hr₁
      obtain ⟨cs', hcs, hindex⟩ := hindex.twin hr
      exact ⟨cs', hcs, .more hindex hdot hsegment htail⟩

theorem Path.twin {p : DocQuery.Path} (h : Path size cs p rest) (hrest : Twin t t' rest rest') :
    ∃ cs' p', Twin t t' cs cs' ∧ Path size' cs' p' rest' := by
  cases h with
  | mk hsegment hallowed htail =>
      obtain ⟨r', hr, htail⟩ := htail.twin hrest
      obtain ⟨cs', hcs, hsegment⟩ := hsegment.twin hr
      exact ⟨cs', _, hcs, .mk hsegment hallowed htail⟩

/-- A path starts with a quote only if a quoted text is there. -/
theorem Path.unquoted {p : DocQuery.Path} (h : Path size cs p rest)
    (hquoted : Passes Rule.quoted cs) : Unquoted cs := by
  obtain ⟨hsegment, -, -⟩ := h
  cases hsegment with
  | name htake =>
      refine unquoted_of_takes htake fun hquote => ?_
      rcases Quoted.isQuote_eq_true.mp hquote with rfl | rfl <;> rfl
  | quoted _ htake => exact absurd hquoted htake.not_passes

theorem NoValue.twin {cs' : List Char} (h : NoValue cs) (hno : Unquoted cs)
    (hcs : Twin t t' cs cs') : NoValue cs' :=
  ⟨hcs.passes Rule.settled_number h.number, (hno.twin hcs).passes,
    hcs.passes settled_literals h.literal, h.dollar.twin hcs⟩

/-! ## Tests -/

theorem MoreValues.twin {kind : ValueKind} {values : List DocQuery.Value}
    (h : MoreValues size kind cs values rest) (hrest : Twin t t' rest rest') :
    ∃ cs' values', Twin t t' cs cs' ∧ MoreValues size' kind cs' values' rest' := by
  induction h with
  | last hclose =>
      obtain ⟨cs', hcs, hclose⟩ := hclose.twin hrest
      exact ⟨cs', [], hcs, .last hclose⟩
  | more hno hcomma hvalue hkind _ ih =>
      obtain ⟨r₁', values', hr₁, hmore⟩ := ih hrest
      obtain ⟨r', v', hr, hvalue, hsame⟩ := hvalue.twin size' hr₁
      obtain ⟨cs', hcs, hcomma⟩ := hcomma.twin hr
      exact ⟨cs', v' :: values', hcs,
        .more (hno.twin hcs) hcomma hvalue (hsame.trans hkind) hmore⟩

theorem ValueList.twin {values : List DocQuery.Value} (h : ValueList size cs values rest)
    (hrest : Twin t t' rest rest') :
    ∃ cs' values', Twin t t' cs cs' ∧ ValueList size' cs' values' rest' := by
  cases h with
  | empty hopen hclose =>
      obtain ⟨r', hr, hclose⟩ := hclose.twin hrest
      obtain ⟨cs', hcs, hopen⟩ := hopen.twin hr
      exact ⟨cs', [], hcs, .empty hopen hclose⟩
  | values hopen hno hvalue hmore =>
      obtain ⟨r₁', values', hr₁, hmore⟩ := hmore.twin size' hrest
      obtain ⟨r', v', hr, hvalue, hsame⟩ := hvalue.twin size' hr₁
      obtain ⟨cs', hcs, hopen⟩ := hopen.twin hr
      rw [← hsame] at hmore
      exact ⟨cs', v' :: values', hcs, .values hopen (hno.twin hr) hvalue hmore⟩

theorem Test.twin {subject : DocQuery.Path} {test : Grammar.Test} {e : Expr}
    (h : Test size subject test cs e rest) (hrest : Twin t t' rest rest') :
    ∃ cs', Twin t t' cs cs' ∧ ∀ subject', ∃ e', Test size' subject' test cs' e' rest' := by
  cases h with
  | compare hvalue =>
      obtain ⟨cs', v', hcs, hvalue, -⟩ := hvalue.twin size' hrest
      exact ⟨cs', hcs, fun _ => ⟨_, .compare hvalue⟩⟩
  | between hlow hand hhigh hkind =>
      obtain ⟨r₁', high', hr₁, hhigh, hsame⟩ := hhigh.twin size' hrest
      obtain ⟨r', hr, hand⟩ := hand.twin rfl hr₁
      obtain ⟨cs', low', hcs, hlow, hsame'⟩ := hlow.twin size' hr
      exact ⟨cs', hcs, fun _ => ⟨_, .between hlow hand hhigh (by rw [hsame', hsame, hkind])⟩⟩
  | within hvalues =>
      obtain ⟨cs', values', hcs, hvalues⟩ := hvalues.twin size' hrest
      exact ⟨cs', hcs, fun _ => ⟨_, .within hvalues⟩⟩

theorem takes_tests_twin {token : List Char} {test : Grammar.Test}
    (h : Takes (Rule.firstOf Grammar.tests) cs token test rest) (hrest : Twin t t' rest rest') :
    ∃ cs', Twin t t' cs cs' ∧ Takes (Rule.firstOf Grammar.tests) cs' token test rest' := by
  refine hrest.takes_of h ?_ (hrest.measured (fun hn hpiece => Rule.tests_brace hpiece hn) h.measured)
  rintro rfl
  exact absurd ((Rule.sized_firstOf _).pos h.measured) (Nat.lt_irrefl 0)

theorem takes_operators_twin {token : List Char} {test : Option Grammar.Test}
    (h : Takes (Rule.firstOf Grammar.operators) cs token test rest)
    (hrest : Twin t t' rest rest') :
    ∃ cs', Twin t t' cs cs' ∧ Takes (Rule.firstOf Grammar.operators) cs' token test rest' := by
  refine hrest.takes_of h ?_
    (hrest.measured (fun hn hpiece => Rule.operators_brace hpiece hn) h.measured)
  rintro rfl
  exact absurd ((Rule.sized_firstOf _).pos h.measured) (Nat.lt_irrefl 0)

/-- A test that trails a call in one text trails it in the other, if none comes behind it. -/
theorem Trailing.twin {trailing : Option Expr} (h : Trailing size cs trailing rest)
    (hrest : Twin t t' rest rest') (htest : Passes (Rule.firstOf Grammar.tests) rest') :
    ∃ cs' trailing', Twin t t' cs cs' ∧ Trailing size' cs' trailing' rest' := by
  cases h with
  | absent _ => exact ⟨rest', none, hrest, .absent htest⟩
  | present htake h =>
      obtain ⟨r', hr, h⟩ := h.twin size' hrest
      obtain ⟨cs', hcs, htake⟩ := takes_tests_twin htake hr
      obtain ⟨e', h⟩ := h (.implicit ⟨place size' cs', 0⟩)
      exact ⟨cs', some e', hcs, .present htake h⟩

/-! ## Conditions and arguments -/

theorem settled_connectives : (Rule.anyKeyword Keyword.connectives).Settled :=
  Rule.settled_anyKeyword (by decide)

/-- No test starts with a comma, with a closing parenthesis or with a connective. -/
theorem passes_tests_of_mark {c : Char} (h : Mark c cs rest) (hc : c = ',' ∨ c = ')') :
    Passes (Rule.firstOf Grammar.tests) cs := by
  rw [Passes, h.split]
  rcases hc with rfl | rfl <;> rfl

theorem passes_tests_of_connective {token : List Char} {keyword : Keyword}
    (h : Takes (Rule.anyKeyword Keyword.connectives) cs token keyword rest) :
    Passes (Rule.firstOf Grammar.tests) cs := by
  obtain ⟨hname, hpart, hsame⟩ := Keyword.name_of_anyKeyword (by decide) h.measured
  have hmem := Keyword.mem_of_anyKeyword h.measured
  have hclear : ∀ entry ∈ Grammar.tests, Phrase.isClear (Text.words entry.1.toList) = true := by
    decide
  have hopens : ∀ keyword ∈ Keyword.connectives, ∀ entry ∈ Grammar.tests,
      Phrase.opensWith (Text.words entry.1.toList) keyword.text.toList = false := by
    decide
  rw [Passes, h.split]
  refine Rule.firstOf_eq_none_of_name hclear (fun entry hentry => ?_) hname hpart
  have hno := hopens keyword hmem entry hentry
  rw [Phrase.opensWith] at hno ⊢
  cases hwords : (Text.words entry.1.toList).head? with
  | none => rfl
  | some word =>
      rw [hwords, Option.any_some] at hno
      rw [Option.any_some, Text.sameWord_congr hsame, hno]

theorem Arguments.noTest {as : Syntax.Arguments} (h : Arguments size false cs as rest) :
    Passes (Rule.firstOf Grammar.tests) cs := by
  cases h with
  | nil hclose => exact passes_tests_of_mark hclose (Or.inr rfl)
  | cons _ hcomma _ _ =>
      cases hcomma with
      | comma hcomma => exact passes_tests_of_mark hcomma (Or.inl rfl)

theorem Negation.twin {negated : Bool} (h : Negation cs negated rest)
    (hrest : Twin t t' rest rest') : ∃ cs', Twin t t' cs cs' ∧ Negation cs' negated rest' := by
  cases h with
  | absent hno => exact ⟨rest', hrest, .absent (hno.twin rfl hrest)⟩
  | present hword =>
      obtain ⟨cs', hcs, hword⟩ := hword.twin rfl hrest
      exact ⟨cs', hcs, .present hword⟩

theorem Alone.twin (h : Alone rest) (hrest : Twin t t' rest rest') : Alone rest' := by
  have hmark : ∀ {c : Char}, (∃ r, Mark c rest r) → ∃ r, Mark c rest' r := by
    rintro c ⟨r, hmark⟩
    have hhead := hrest.head?_eq
    rw [hmark.split] at hhead
    obtain ⟨more, hmore⟩ := List.head?_eq_some_iff.mp hhead.symm
    exact ⟨more, hmore, Rule.char_eq_some.mpr ⟨rfl, rfl⟩⟩
  rcases h with hcomma | ⟨hno, hclose⟩
  · exact Or.inl (hmark hcomma)
  · exact Or.inr ⟨hno.twin hrest, hmark hclose⟩

/-- A condition starts with a quote only if a quoted text is there. -/
theorem Condition.unquoted {c : Syntax.Condition} (h : Condition size cs c rest)
    (hquoted : Passes Rule.quoted cs) : Unquoted cs := by
  obtain ⟨hfirst, -⟩ := h
  cases hfirst with
  | group hopen _ _ =>
      exact unquoted_of_takes hopen fun hquote => by
        rcases Quoted.isQuote_eq_true.mp hquote with rfl | rfl <;> rfl
  | truth _ hword =>
      obtain ⟨token, htake⟩ := hword
      exact unquoted_of_takes htake fun hquote => by
        rcases Quoted.isQuote_eq_true.mp hquote with rfl | rfl <;> rfl
  | test _ _ hpath _ _ => exact hpath.unquoted hquoted
  | call _ _ hpath _ _ _ => exact hpath.unquoted hquoted

mutual

theorem Condition.twin {c : Syntax.Condition} {cs rest : List Char} :
    Condition size cs c rest → ∀ {rest'}, Twin t t' rest rest' →
      Passes (Rule.firstOf Grammar.tests) rest' →
      ∃ cs' c', Twin t t' cs cs' ∧ Condition size' cs' c' rest' ∧ c'.cost = c.cost
  | .chain hfirst hlinks, rest', hrest, htest => by
      obtain ⟨r', links', hr, hlinks, hsame, htest⟩ := hlinks.twin hrest htest
      obtain ⟨cs', first', hcs, hfirst, hsame'⟩ := hfirst.twin hr htest
      exact ⟨cs', _, hcs, .chain hfirst hlinks, by
        rw [Syntax.Condition.cost, Syntax.Condition.cost, hsame', hsame]⟩

theorem Links.twin {links : Syntax.Links} {cs rest : List Char} :
    Links size cs links rest → ∀ {rest'}, Twin t t' rest rest' →
      Passes (Rule.firstOf Grammar.tests) rest' →
      ∃ cs' links', Twin t t' cs cs' ∧ Links size' cs' links' rest' ∧ links'.cost = links.cost ∧
        Passes (Rule.firstOf Grammar.tests) cs'
  | .nil hpass, rest', hrest, htest =>
      ⟨rest', .nil, hrest, .nil (hrest.passes settled_connectives hpass), rfl, htest⟩
  | .cons htake hnegation hoperand hlinks, rest', hrest, htest => by
      obtain ⟨r₂', links', hr₂, hlinks, hsame, htest⟩ := hlinks.twin hrest htest
      obtain ⟨r₁', operand', hr₁, hoperand, hsame'⟩ := hoperand.twin hr₂ htest
      obtain ⟨r', hr, hnegation⟩ := hnegation.twin hr₁
      obtain ⟨cs', hcs, htake⟩ := hr.takes settled_connectives (Rule.sized_firstOf _) htake
      exact ⟨cs', _, hcs, .cons htake hnegation hoperand hlinks, by
        rw [Syntax.Links.cost, Syntax.Links.cost, hsame', hsame], passes_tests_of_connective htake⟩

theorem Operand.twin {o : Syntax.Operand} {cs rest : List Char} :
    Operand size cs o rest → ∀ {rest'}, Twin t t' rest rest' →
      Passes (Rule.firstOf Grammar.tests) rest' →
      ∃ cs' o', Twin t t' cs cs' ∧ Operand size' cs' o' rest' ∧ o'.cost = o.cost
  | .group hopen hinner hclose, rest', hrest, _ => by
      obtain ⟨r₁', hr₁, hclose⟩ := hclose.twin hrest
      obtain ⟨r', inner', hr, hinner, hsame⟩ :=
        hinner.twin hr₁ (passes_tests_of_mark hclose (Or.inr rfl))
      obtain ⟨cs', hcs, hopen⟩ := hopen.twin hr
      exact ⟨cs', _, hcs, .group hopen hinner hclose, by
        rw [Syntax.Operand.cost, Syntax.Operand.cost, hsame]⟩
  | .truth hno hword, rest', hrest, _ => by
      obtain ⟨cs', hcs, hword⟩ := hword.twin rfl hrest
      exact ⟨cs', _, hcs, .truth (hno.twin hcs) hword, rfl⟩
  | .test hno hword hpath hoperator htest, rest', hrest, _ => by
      obtain ⟨r₁', hr₁, htest⟩ := htest.twin size' hrest
      obtain ⟨r', hr, hoperator⟩ := takes_operators_twin hoperator hr₁
      obtain ⟨cs', subject', hcs, hpath⟩ := hpath.twin size' hr
      obtain ⟨e', htest⟩ := htest subject'
      exact ⟨cs', _, hcs, .test (hno.twin hcs) (hword.twin rfl hcs) hpath hoperator htest, rfl⟩
  | .call hno hword hpath hoperator harguments htrailing, rest', hrest, htest => by
      obtain ⟨r₂', trailing', hr₂, htrailing⟩ := htrailing.twin size' hrest htest
      obtain ⟨r₁', as', hr₁, harguments, hsame⟩ := harguments.twin hr₂
      obtain ⟨r', hr, hoperator⟩ := takes_operators_twin hoperator hr₁
      obtain ⟨cs', name', hcs, hpath⟩ := hpath.twin size' hr
      exact ⟨cs', _, hcs, .call (hno.twin hcs) (hword.twin rfl hcs) hpath hoperator harguments
        htrailing, by rw [Syntax.Operand.cost, Syntax.Operand.cost, hsame]⟩

/-- Arguments are read alike in front of a brace, at the same cost. -/
theorem Arguments.twin {first : Bool} {as : Syntax.Arguments} {cs rest : List Char} :
    Arguments size first cs as rest → ∀ {rest'}, Twin t t' rest rest' →
      ∃ cs' as', Twin t t' cs cs' ∧ Arguments size' first cs' as' rest' ∧ as'.cost = as.cost
  | .nil hclose, rest', hrest => by
      obtain ⟨cs', hcs, hclose⟩ := hclose.twin hrest
      exact ⟨cs', _, hcs, .nil hclose, rfl⟩
  | .cons hno hseparator hargument hothers, rest', hrest => by
      obtain ⟨r₁', others', hr₁, hothers, hsame⟩ := hothers.twin hrest
      obtain ⟨r', argument', hr, hargument', hsame'⟩ := hargument.twin hr₁ hothers.noTest
      cases hseparator with
      | first =>
          exact ⟨r', _, hr, .cons (hno.twin hr) .first hargument' hothers, by
            rw [Syntax.Arguments.cost, Syntax.Arguments.cost, hsame', hsame]⟩
      | comma hcomma =>
          obtain ⟨cs', hcs, hcomma⟩ := hcomma.twin hr
          exact ⟨cs', _, hcs, .cons (hno.twin hcs) (.comma hcomma) hargument' hothers, by
            rw [Syntax.Arguments.cost, Syntax.Arguments.cost, hsame', hsame]⟩

theorem Argument.twin {a : Syntax.Argument} {cs rest : List Char} :
    Argument size cs a rest → ∀ {rest'}, Twin t t' rest rest' →
      Passes (Rule.firstOf Grammar.tests) rest' →
      ∃ cs' a', Twin t t' cs cs' ∧ Argument size' cs' a' rest' ∧ a'.cost = a.cost
  | .value hvalue, rest', hrest, _ => by
      obtain ⟨cs', v', hcs, hvalue, -⟩ := hvalue.twin size' hrest
      exact ⟨cs', _, hcs, .value hvalue, rfl⟩
  | .field hno hpath halone, rest', hrest, _ => by
      obtain ⟨cs', p', hcs, hpath'⟩ := hpath.twin size' hrest
      exact ⟨cs', _, hcs, .field (hno.twin (hpath.unquoted hno.quoted) hcs) hpath'
        (halone.twin hrest), rfl⟩
  | .condition hno halone hinner, rest', hrest, htest => by
      obtain rfl := halone.eq_of_condition hinner
      obtain ⟨cs', inner', hcs, hinner', hsame⟩ := hinner.twin hrest htest
      have hno := hno.twin (hinner.unquoted hno.quoted) hcs
      exact ⟨cs', _, hcs, .condition hno (hinner'.notAlone hno) hinner', hsame⟩

end

end Written

end DocQuery
