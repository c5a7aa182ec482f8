import DocQuery.Proofs.Grammar.Steps

/-!
# The tokens of a reader

What a reader does before each sort of token.  A statement that ends in `_eq_ok`
tells from the outcome what is written there; the others tell the outcome from
what is written.
-/

namespace DocQuery.Grammar

open Lexical Written

variable {α : Type} {size : Nat} {cs rest : List Char} {s s' : State}

/-! ## Marks -/

theorem char_eq_ok {c : Char} {found : Bool} (hs : Stands size cs s)
    (h : scan (Scanner.char c) s = .ok found s') :
    (found = false ∧ NoMark c cs ∧ s = s') ∨
      ∃ rest, found = true ∧ Mark c cs rest ∧ Took size s [c] rest s' := by
  rcases recognise_eq_ok (Rule.sized_char c) hs h with hno | ⟨token, rest, rfl, htake, htook⟩
  · exact Or.inl hno
  · have htoken : token = [c] := by
      obtain ⟨hhead, hlen⟩ := Rule.char_eq_some.mp htake.measured
      obtain ⟨d, rfl⟩ := List.length_eq_one_iff.mp hlen
      simpa using hhead
    subst htoken
    exact Or.inr ⟨rest, rfl, htake, htook⟩

theorem char_of_mark {c : Char} (hs : Stands size cs s) (h : Mark c cs rest) :
    ∃ s', scan (Scanner.char c) s = .ok true s' ∧ Took size s [c] rest s' :=
  recognise_takes hs h

theorem char_of_noMark {c : Char} (hs : Stands size cs s) (h : NoMark c cs) :
    scan (Scanner.char c) s = .ok false s :=
  recognise_passes hs h

theorem expectChar_eq_ok {c : Char} {e : Expectation} {u : Unit} (hs : Stands size cs s)
    (h : expectChar c e s = .ok u s') : ∃ rest, Mark c cs rest ∧ Took size s [c] rest s' := by
  obtain ⟨found, s₁, hchar, h⟩ := bind_eq_ok h
  rcases char_eq_ok hs hchar with ⟨rfl, -, -⟩ | ⟨rest, rfl, hmark, htook⟩
  · exact (refuse_ne_ok h).elim
  · obtain ⟨-, rfl⟩ := pure_eq_ok h
    exact ⟨rest, hmark, htook⟩

theorem expectChar_of_mark {c : Char} (e : Expectation) (hs : Stands size cs s)
    (h : Mark c cs rest) : ∃ s', expectChar c e s = .ok () s' ∧ Took size s [c] rest s' := by
  obtain ⟨s₁, hchar, htook⟩ := char_of_mark hs h
  exact ⟨s₁, bind_of_ok _ hchar, htook⟩

/-! ## Words -/

theorem keyword_eq_ok {keyword : Keyword} {found : Bool} (hs : Stands size cs s)
    (h : scan (Scanner.keyword keyword) s = .ok found s') :
    (found = false ∧ NoWord keyword cs ∧ s = s') ∨
      ∃ token rest, found = true ∧ Takes (Rule.keyword keyword) cs token () rest ∧
        Took size s token rest s' :=
  recognise_eq_ok (Rule.sized_phrase keyword.text) hs h

theorem keyword_takes {keyword : Keyword} {token : List Char} (hs : Stands size cs s)
    (h : Takes (Rule.keyword keyword) cs token () rest) :
    ∃ s', scan (Scanner.keyword keyword) s = .ok true s' ∧ Took size s token rest s' :=
  recognise_takes hs h

theorem keyword_of_noWord {keyword : Keyword} (hs : Stands size cs s) (h : NoWord keyword cs) :
    scan (Scanner.keyword keyword) s = .ok false s :=
  recognise_passes hs h

theorem expectKeyword_eq_ok {keyword : Keyword} {e : Expectation} {u : Unit}
    (hs : Stands size cs s) (h : expectKeyword keyword e s = .ok u s') :
    ∃ token rest, Takes (Rule.keyword keyword) cs token () rest ∧ Took size s token rest s' := by
  obtain ⟨found, s₁, hword, h⟩ := bind_eq_ok h
  rcases keyword_eq_ok hs hword with ⟨rfl, -, -⟩ | ⟨token, rest, rfl, htake, htook⟩
  · exact (refuse_ne_ok h).elim
  · obtain ⟨-, rfl⟩ := pure_eq_ok h
    exact ⟨token, rest, htake, htook⟩

theorem expectKeyword_takes {keyword : Keyword} {token : List Char} (e : Expectation)
    (hs : Stands size cs s) (h : Takes (Rule.keyword keyword) cs token () rest) :
    ∃ s', expectKeyword keyword e s = .ok () s' ∧ Took size s token rest s' := by
  obtain ⟨s₁, hword, htook⟩ := keyword_takes hs h
  exact ⟨s₁, bind_of_ok _ hword, htook⟩

/-- The first phrase of a table that fits is found by one measure. -/
theorem firstOf_eq_measure (table : List (String × α)) {s : Scanner} (hahead : s.ahead = some cs) :
    Scanner.firstOf table s = Scanner.measure (Rule.firstOf table) s := by
  have hread := Scanner.read_of_ahead hahead
  induction table with
  | nil => simp [Scanner.firstOf, Scanner.measure, Rule.firstOf, hread, bind, Except.bind]; rfl
  | cons entry table ih =>
      obtain ⟨literal, meaning⟩ := entry
      simp only [Scanner.measure, hread, bind, Except.bind] at ih
      simp only [Scanner.firstOf, Scanner.measure, Scanner.phrase, Scanner.recognise,
        Rule.firstOf, hread, bind, Except.bind]
      cases Phrase.length? (Text.words literal.toList) (Trivia.rest cs) with
      | none => exact ih
      | some n => rfl

theorem firstOf_eq (table : List (String × α)) (hs : Stands size cs s) :
    scan (Scanner.firstOf table) s = scan (Scanner.measure (Rule.firstOf table)) s := by
  simp only [scan, firstOf_eq_measure table hs.ahead]

theorem firstOf_eq_ok {table : List (String × α)} {found : Option α} (hs : Stands size cs s)
    (h : scan (Scanner.firstOf table) s = .ok found s') :
    (found = none ∧ Passes (Rule.firstOf table) cs ∧ s = s') ∨
      ∃ a token rest, found = some a ∧ Takes (Rule.firstOf table) cs token a rest ∧
        Took size s token rest s' := by
  rw [firstOf_eq table hs] at h
  exact scan_measure_eq_ok (Rule.sized_firstOf table) hs h

theorem firstOf_takes {table : List (String × α)} {token : List Char} {a : α}
    (hs : Stands size cs s) (h : Takes (Rule.firstOf table) cs token a rest) :
    ∃ s', scan (Scanner.firstOf table) s = .ok (some a) s' ∧ Took size s token rest s' := by
  rw [firstOf_eq table hs]
  exact scan_takes hs h

theorem firstOf_passes {table : List (String × α)} (hs : Stands size cs s)
    (h : Passes (Rule.firstOf table) cs) : scan (Scanner.firstOf table) s = .ok none s := by
  rw [firstOf_eq table hs]
  exact scan_passes hs h

theorem anyKeyword_eq_ok {keywords : List Keyword} {found : Option Keyword}
    (hs : Stands size cs s) (h : scan (Scanner.anyKeyword keywords) s = .ok found s') :
    (found = none ∧ Passes (Rule.anyKeyword keywords) cs ∧ s = s') ∨
      ∃ keyword token rest, found = some keyword ∧
        Takes (Rule.anyKeyword keywords) cs token keyword rest ∧ Took size s token rest s' :=
  firstOf_eq_ok hs h

theorem anyKeyword_takes {keywords : List Keyword} {token : List Char} {keyword : Keyword}
    (hs : Stands size cs s) (h : Takes (Rule.anyKeyword keywords) cs token keyword rest) :
    ∃ s', scan (Scanner.anyKeyword keywords) s = .ok (some keyword) s' ∧
      Took size s token rest s' :=
  firstOf_takes hs h

theorem anyKeyword_passes {keywords : List Keyword} (hs : Stands size cs s)
    (h : Passes (Rule.anyKeyword keywords) cs) :
    scan (Scanner.anyKeyword keywords) s = .ok none s :=
  firstOf_passes hs h

/-! ## Names, texts, numbers and scripts -/

theorem identifier_eq_ok {beginning found : Bool} (hs : Stands size cs s)
    (h : scan (Scanner.identifier beginning) s = .ok found s') :
    (found = false ∧ Passes (Rule.identifier beginning) cs ∧ s = s') ∨
      ∃ token rest, found = true ∧ Takes (Rule.identifier beginning) cs token () rest ∧
        Took size s token rest s' :=
  recognise_eq_ok (Rule.sized_identifier beginning) hs h

theorem identifier_takes {beginning : Bool} {token : List Char} (hs : Stands size cs s)
    (h : Takes (Rule.identifier beginning) cs token () rest) :
    ∃ s', scan (Scanner.identifier beginning) s = .ok true s' ∧ Took size s token rest s' :=
  recognise_takes hs h

theorem identifier_passes {beginning : Bool} (hs : Stands size cs s)
    (h : Passes (Rule.identifier beginning) cs) :
    scan (Scanner.identifier beginning) s = .ok false s :=
  recognise_passes hs h

theorem number_eq_ok {found : Option Numeral.Kind} (hs : Stands size cs s)
    (h : scan Scanner.number s = .ok found s') :
    (found = none ∧ Passes Rule.number cs ∧ s = s') ∨
      ∃ kind token rest, found = some kind ∧ Takes Rule.number cs token kind rest ∧
        Took size s token rest s' :=
  scan_measure_eq_ok Rule.sized_number hs h

theorem number_takes {token : List Char} {kind : Numeral.Kind} (hs : Stands size cs s)
    (h : Takes Rule.number cs token kind rest) :
    ∃ s', scan Scanner.number s = .ok (some kind) s' ∧ Took size s token rest s' :=
  scan_takes hs h

theorem number_passes (hs : Stands size cs s) (h : Passes Rule.number cs) :
    scan Scanner.number s = .ok none s :=
  scan_passes hs h

theorem block_eq_ok {found : Bool} (hs : Stands size cs s)
    (h : scan Scanner.block s = .ok found s') :
    (found = false ∧ Passes Rule.block cs ∧ s = s') ∨
      ∃ token rest, found = true ∧ Takes Rule.block cs token () rest ∧
        Took size s token rest s' :=
  recognise_eq_ok Rule.sized_block hs h

theorem block_takes {token : List Char} (hs : Stands size cs s)
    (h : Takes Rule.block cs token () rest) :
    ∃ s', scan Scanner.block s = .ok true s' ∧ Took size s token rest s' :=
  recognise_takes hs h

theorem block_passes (hs : Stands size cs s) (h : Passes Rule.block cs) :
    scan Scanner.block s = .ok false s :=
  recognise_passes hs h

/-- A quoted text is measured, and then its escapes are put down. -/
theorem quoted_eq_measure (s : Scanner) :
    s.quoted = Scanner.measure Rule.quoted s >>= fun result =>
      .ok (result.1.isSome, result.1.elim result.2 fun escapes =>
        { result.2 with escapes := escapes }) := by
  unfold Scanner.quoted
  rw [show (fun cs => (Quoted.size? cs).map fun size => (size.length, size.escapes)) =
    Rule.quoted from rfl]
  rcases Scanner.measure Rule.quoted s with fault | ⟨_ | escapes, scanner⟩ <;> rfl

/-- Put down the escapes of a quoted text that was found. -/
def putEscapes : Option Nat → Read Bool
  | none => return false
  | some escapes => do
      modify fun state => { state with scanner := { state.scanner with escapes := escapes } }
      return true

theorem quoted_eq (s : State) :
    scan Scanner.quoted s = (scan (Scanner.measure Rule.quoted) >>= putEscapes) s := by
  simp only [scan, quoted_eq_measure, bind, EStateM.bind]
  rcases Scanner.measure Rule.quoted s.scanner with fault | ⟨_ | escapes, scanner⟩ <;> rfl

theorem quoted_eq_ok {found : Bool} (hs : Stands size cs s)
    (h : scan Scanner.quoted s = .ok found s') :
    (found = false ∧ Passes Rule.quoted cs ∧ s = s') ∨
      ∃ escapes token rest, found = true ∧ Takes Rule.quoted cs token escapes rest ∧
        Took size s token rest s' ∧ s'.scanner.escapes = escapes := by
  rw [quoted_eq] at h
  obtain ⟨inner, s₁, hscan, hrest⟩ := bind_eq_ok h
  rcases scan_measure_eq_ok Rule.sized_quoted hs hscan with
    ⟨rfl, hpass, rfl⟩ | ⟨escapes, token, rest, rfl, htake, htook⟩
  · obtain ⟨rfl, rfl⟩ := pure_eq_ok hrest
    exact Or.inl ⟨rfl, hpass, rfl⟩
  · cases hrest
    exact Or.inr ⟨escapes, token, rest, rfl, htake,
      ⟨⟨⟨htook.text, htook.ahead⟩, htook.depth, htook.connectives⟩, htook.token⟩, rfl⟩

theorem quoted_takes {token : List Char} {escapes : Nat} (hs : Stands size cs s)
    (h : Takes Rule.quoted cs token escapes rest) :
    ∃ s', scan Scanner.quoted s = .ok true s' ∧ Took size s token rest s' ∧
      s'.scanner.escapes = escapes := by
  obtain ⟨s₁, hscan, htook⟩ := scan_takes hs h
  refine ⟨_, by rw [quoted_eq, bind_of_ok _ hscan]; rfl, ?_, rfl⟩
  exact ⟨⟨⟨htook.text, htook.ahead⟩, htook.depth, htook.connectives⟩, htook.token⟩

theorem quoted_passes (hs : Stands size cs s) (h : Passes Rule.quoted cs) :
    scan Scanner.quoted s = .ok false s := by
  rw [quoted_eq, bind_of_ok _ (scan_passes hs h)]
  rfl

/-- The first and the last character of a quoted text are quotes, of one byte each. -/
theorem content?_quoted {token : Token} {escapes : Nat}
    (h : Rule.quoted (token.chars ++ rest) = some (token.chars.length, escapes)) :
    token.content? = some token.chars.tail.dropLast := by
  obtain ⟨quote, body, hquote, hshape, -⟩ := Rule.quoted_eq_some h
  have hbyte : quote.utf8Size = 1 := by
    rcases Quoted.isQuote_eq_true.mp hquote with rfl | rfl <;> decide
  have hlength : token.length = Text.byteLength body + 2 := by
    rw [Token.length, hshape, Text.byteLength_cons, Text.byteLength_append, Text.byteLength_cons,
      Text.byteLength_nil, hbyte]
    omega
  rw [Token.content?, if_neg (by omega)]
  simp [hshape, hbyte]

theorem content_quoted {token : List Char} {escapes : Nat}
    (h : Takes Rule.quoted cs token escapes rest) {s : Scanner}
    (htoken : s.token = tokenAt size token rest) :
    s.content = .ok (String.ofList token.tail.dropLast) := by
  rw [Scanner.content, htoken, content?_quoted h.measured]
  rfl

/-! ## Looking ahead -/

theorem peek_eq (c : Char) (hs : Stands size cs s) :
    scan (Scanner.peek c) s = .ok ((Trivia.rest cs).head? == some c) s :=
  scan_of_ok (Scanner.peek_of_ahead c hs.ahead)

theorem peek_of_mark {c : Char} (hs : Stands size cs s) (h : Mark c cs rest) :
    scan (Scanner.peek c) s = .ok true s := by
  rw [peek_eq c hs, h.split]
  simp

theorem peek_of_noMark {c : Char} (hs : Stands size cs s) (h : NoMark c cs) :
    scan (Scanner.peek c) s = .ok false s := by
  rw [peek_eq c hs, beq_false_of_ne (Rule.char_eq_none.mp h)]

/-- A mark is next, or it is not. -/
theorem mark_or_noMark (c : Char) (cs : List Char) :
    (∃ rest, Mark c cs rest) ∨ NoMark c cs := by
  by_cases hhead : (Trivia.rest cs).head? = some c
  · obtain ⟨rest, hrest⟩ : ∃ rest, Trivia.rest cs = c :: rest := by
      cases hcs : Trivia.rest cs with
      | nil => simp [hcs] at hhead
      | cons d rest => exact ⟨rest, by simp_all⟩
    exact Or.inl ⟨rest, hrest, Rule.char_eq_some.mpr ⟨rfl, rfl⟩⟩
  · exact Or.inr (Rule.char_eq_none.mpr hhead)

/-- Where a mark is not next, the text behind the trivia does not start with it. -/
theorem noMark_split {c : Char} (h : NoMark c cs) {rest : List Char} :
    Trivia.rest cs ≠ [c] ++ rest := by
  intro hsplit
  apply Rule.char_eq_none.mp h
  rw [hsplit]
  rfl

theorem peek_eq_ok {c : Char} {found : Bool} (hs : Stands size cs s)
    (h : scan (Scanner.peek c) s = .ok found s') :
    s = s' ∧ ((found = false ∧ NoMark c cs) ∨ ∃ rest, found = true ∧ Mark c cs rest) := by
  rcases mark_or_noMark c cs with ⟨rest, hmark⟩ | hno
  · rw [peek_of_mark hs hmark] at h
    cases h
    exact ⟨rfl, Or.inr ⟨rest, rfl, hmark⟩⟩
  · rw [peek_of_noMark hs hno] at h
    cases h
    exact ⟨rfl, Or.inl ⟨rfl, hno⟩⟩

/-- An operand is a group exactly if it starts with a parenthesis. -/
theorem isGroup_eq_peek {o : Syntax.Operand} (h : Operand size cs o rest) :
    o.isGroup = ((Trivia.rest cs).head? == some '(') := by
  have hno : ∀ {cs : List Char}, NoMark '(' cs → ((Trivia.rest cs).head? == some '(') = false :=
    fun hno => beq_false_of_ne (Rule.char_eq_none.mp hno)
  cases h with
  | group hopen _ _ => rw [hopen.split]; rfl
  | truth hopen _ => rw [hno hopen]; rfl
  | test hopen _ _ _ _ => rw [hno hopen]; rfl
  | call hopen _ _ _ _ _ => rw [hno hopen]; rfl

theorem atEnd_eq (hs : Stands size cs s) :
    scan Scanner.atEnd s = .ok (Trivia.rest cs).isEmpty s :=
  scan_of_ok (Scanner.atEnd_of_ahead hs.ahead)

/-! ## Going back -/

/-- A position behind the beginning of what was ahead is a place in the same text. -/
theorem Stands.dropBytes? {before : List Char} (hs : Stands size (before ++ rest) s) :
    Text.dropBytes? (place size rest) s.scanner.text.toList = some rest := by
  have hcut := s.scanner.ahead_eq
  rw [hs.ahead, hs.offset] at hcut
  have hle := hs.byteLength_le
  have hadd := Text.dropBytes?_add hcut.symm
  rw [Text.byteLength_append] at hle
  rwa [place, Text.byteLength_append,
    show size - (Text.byteLength before + Text.byteLength rest) + Text.byteLength before =
      size - Text.byteLength rest by omega] at hadd

theorem returnTo_eq (hs : Stands size cs s) (hon : Onward s rest s') :
    ∃ s'', returnTo (place size cs) s' = .ok () s'' ∧ Onward s cs s'' ∧
      s''.depth = s'.depth ∧ s''.connectives = s'.connectives := by
  refine ⟨_, rfl, ⟨hon.text, ?_⟩, rfl, rfl⟩
  have hsize := Text.utf8ByteSize_eq s.scanner.text
  rw [hs.size_eq] at hsize
  simp only [Scanner.moveTo, hon.text, hsize]
  rw [Nat.min_eq_left (by rw [place]; omega)]
  exact @Stands.dropBytes? size cs s [] hs

theorem unread_eq {token : List Char} (hs : Stands size cs s)
    (hsplit : Trivia.rest cs = token ++ rest) (htook : Took size s token rest s') :
    ∃ s'', unread s' = .ok () s'' ∧ Moves s (token ++ rest) 0 s'' := by
  refine ⟨_, rfl, ⟨htook.text, ?_⟩, htook.depth, htook.connectives⟩
  rw [← Trivia.skipped_append_rest cs, hsplit] at hs
  have hle := hs.byteLength_le
  have hstands := htook.stands hs
  rw [Text.byteLength_append, Text.byteLength_append] at hle
  simp only [Scanner.goBack, hstands.offset, htook.text, htook.token, tokenAt, Token.length]
  rw [show place size rest - Text.byteLength token = place size (token ++ rest) by
    simp only [place, Text.byteLength_append]; omega]
  exact hs.dropBytes?

/-! ## The text since a place -/

/-- What is ahead of a reader is an end of its text. -/
theorem Stands.suffix (hs : Stands size cs s) : cs <:+ s.scanner.text.toList := by
  have hcut := s.scanner.ahead_eq
  rw [hs.ahead] at hcut
  obtain ⟨before, htext, -⟩ := Text.dropBytes?_eq_some_iff.mp hcut.symm
  exact ⟨before, htext.symm⟩

/-- The text from a place to the cursor is what was read since then. -/
theorem textFrom_eq {ahead text rest : List Char} (hs : Stands size (ahead ++ (text ++ rest)) s)
    (hon : Onward s rest s') :
    textFrom (place size (text ++ rest)) s' =
      .ok ⟨String.ofList text,
        Span.between (place size (text ++ rest)) (place size rest)⟩ s' := by
  have hle := hs.byteLength_le
  have hlength : place size rest - place size (text ++ rest) = Text.byteLength text := by
    simp only [Text.byteLength_append] at hle
    simp only [place, Text.byteLength_append]
    omega
  have hslice : Span.slice? (Span.between (place size (text ++ rest)) (place size rest))
      s'.scanner.text = some (String.ofList text) := by
    simp only [Span.slice?, Span.between, Text.slice?, hon.text, hlength]
    rw [hs.dropBytes?]
    simp
  rw [textFrom, bind_of_ok _ (position_eq s'), bind_of_ok _ (get_eq s'), (hon.stands hs).offset,
    hslice]
  rfl

/-- The text from a token to the cursor begins with the token and is followed by what is ahead. -/
theorem textFrom_since {token r rest : List Char} {s₁ : State} (hs : Stands size cs s)
    (hsplit : Trivia.rest cs = token ++ r) (htook : Took size s token r s₁)
    (hon : Onward s rest s') (hlength : rest.length ≤ r.length) :
    ∃ text, token ++ r = text ++ rest ∧
      textFrom s₁.scanner.token.start s' = .ok ⟨String.ofList text,
        Span.between (place size (token ++ r)) (place size rest)⟩ s' := by
  have hend : rest <:+ token ++ r := by
    have hcs : token ++ r <:+ s.scanner.text.toList := by
      rw [← hsplit]
      exact (List.drop_suffix _ _).trans hs.suffix
    have hrest := (hon.stands hs).suffix
    rw [hon.text] at hrest
    refine List.suffix_of_suffix_length_le hrest hcs ?_
    rw [List.length_append]
    omega
  obtain ⟨text, hcut⟩ := hend
  rw [← Trivia.skipped_append_rest cs, hsplit, ← hcut] at hs
  refine ⟨text, hcut.symm, ?_⟩
  rw [htook.token, tokenAt, ← hcut]
  exact textFrom_eq hs hon

end DocQuery.Grammar
