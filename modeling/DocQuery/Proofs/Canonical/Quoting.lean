import DocQuery.Proofs.Canonical.Plain
import DocQuery.Proofs.Lexical.Escape
import DocQuery.Proofs.Scanner

/-!
# Texts and names in quotes

A plain text is put in single quotes with escapes; a name that was read keeps its
escapes and gets quotes around it as it is.  Both are read back by a scanner, the
text always and the name unless its characters close the quotes too early.  A
name was read from quotes that it is not in any more, so all that is left of them
is that each backslash takes a character with it.  The main statements are
`Value.string_encoded` and `Query.takesQuoted_name_iff`.
-/

namespace DocQuery

open Lexical

/-! ## Quoted texts for a scanner -/

/-- The scanner takes the token as one quoted text with this content, and goes behind it. -/
def Scanner.TakesQuoted (s : Scanner) (token content : String) (rest : List Char) : Prop :=
  ∃ s', s.quoted = .ok (true, s') ∧ s'.token.text = token ∧ s'.content = .ok content ∧
    s'.ahead = some rest

theorem Scanner.takesQuoted_iff {s : Scanner} {cs rest : List Char} {token content : String}
    (hahead : s.ahead = some cs) : s.TakesQuoted token content rest ↔
      (∃ escapes, Takes Rule.quoted cs token.toList escapes rest) ∧
        content = String.ofList token.toList.tail.dropLast := by
  have hs : Grammar.Stands (Text.byteLength s.text.toList) cs ⟨s, 0, 0⟩ := ⟨hahead, rfl⟩
  constructor
  · rintro ⟨s', hquoted, rfl, hcontent, hrest⟩
    have hscan : Grammar.scan Scanner.quoted ⟨s, 0, 0⟩ = .ok true ⟨s', 0, 0⟩ :=
      Grammar.scan_of_ok hquoted
    rcases Grammar.quoted_eq_ok hs hscan with
      ⟨hfalse, -, -⟩ | ⟨escapes, token, rest', -, htake, htook, -⟩
    · cases hfalse
    · obtain rfl : rest' = rest := Option.some.inj (htook.ahead.symm.trans hrest)
      rw [Grammar.content_quoted htake htook.token] at hcontent
      have htoken : s'.token = tokenAt _ token rest' := htook.token
      simp only [htoken, Token.text, tokenAt, String.toList_ofList]
      exact ⟨⟨escapes, htake⟩, (Except.ok.inj hcontent).symm⟩
  · rintro ⟨⟨escapes, htake⟩, rfl⟩
    obtain ⟨s', hscan, htook, -⟩ := Grammar.quoted_takes hs htake
    have hquoted : s.quoted = .ok (true, s'.scanner) := by
      simp only [Grammar.scan] at hscan
      split at hscan
      · next found scanner hquoted =>
          cases hscan
          exact hquoted
      · cases hscan
    refine ⟨s'.scanner, hquoted, ?_, Grammar.content_quoted htake htook.token, htook.ahead⟩
    rw [htook.token, Token.text, tokenAt, String.ofList_toList]

/-- A text between quotes is taken where its characters are a body of those quotes. -/
theorem Scanner.takesQuoted_between_iff {s : Scanner} {cs rest body : List Char} {quote : Char}
    (hahead : s.ahead = some cs) (hquote : Quoted.isQuote quote = true)
    (hcs : Trivia.rest cs = quote :: (body ++ [quote]) ++ rest)
    (hrest : rest.head? ≠ some quote) :
    s.TakesQuoted (String.ofList (quote :: (body ++ [quote]))) (String.ofList body) rest ↔
      ∃ escapes, Quoted.Body quote body escapes := by
  rw [takesQuoted_iff hahead, String.toList_ofList, List.tail_cons, List.dropLast_concat,
    and_iff_left rfl]
  refine exists_congr fun escapes => ⟨fun h => ?_, fun h => ⟨hcs, ?_⟩⟩
  · obtain ⟨quote', body', -, hshape, hbody, -⟩ := Rule.quoted_eq_some_iff.mp h.measured
    obtain ⟨rfl, hsplit⟩ := List.cons.inj hshape
    rwa [List.append_cancel_right hsplit]
  · exact Rule.quoted_eq_some_iff.mpr ⟨quote, body, hquote, rfl, h, hrest⟩

/-! ## Texts as values -/

namespace Value

/-- A plain text has escapes exactly if a character of it is doubled. -/
theorem escaped_string_iff {text : String} :
    (string text).escaped = true ↔ ∃ c ∈ text.toList, Quoted.isDoubled c = true := by
  simp only [string, Quoted.isDoubled, Bool.or_eq_true, List.contains_iff_mem, beq_iff_eq]
  constructor
  · rintro (hquote | hslash)
    · exact ⟨_, hquote, Or.inl rfl⟩
    · exact ⟨_, hslash, Or.inr rfl⟩
  · rintro ⟨c, hc, rfl | rfl⟩
    · exact Or.inl hc
    · exact Or.inr hc

theorem text_string (text : String) :
    (string text).text = String.ofList (Text.escape text.toList) := by
  simp [Value.text, string, plain]

theorem render_string (text : String) : (string text).render =
    String.ofList ('\'' :: (Text.escape text.toList ++ ['\''])) := by
  simp [render, string, plain]

/-- The encoding of a text is written as the value that it encodes. -/
theorem written_string {size : Nat} {cs rest : List Char} (text : String)
    (hcs : Trivia.rest cs = (string text).render.toList ++ rest) (hrest : rest.head? ≠ some '\'') :
    ∃ v, Written.Value size cs v rest ∧ v.erase = (string text).erase := by
  rw [render_string, String.toList_ofList] at hcs
  have hbody := Quoted.body_escape text.toList
  have htake : Takes Rule.quoted cs _ _ rest :=
    ⟨hcs, Rule.quoted_eq_some_iff.mpr ⟨'\'', _, rfl, rfl, hbody, hrest⟩⟩
  have hnumber : Passes Rule.number cs := by
    rw [Passes, hcs]
    exact (Written.quote_facts rfl _).2.1
  refine ⟨_, .quoted hnumber htake, erase_eq_iff.mpr ⟨rfl, rfl, ?_⟩⟩
  rw [Bool.eq_iff_iff, bne_iff_ne, ← Nat.pos_iff_ne_zero, List.countP_pos_iff, escaped_string_iff]

/--
The encoding of a text is taken by a scanner as one quoted text and read as the
value that it is, wherever no other single quote follows.  What the value decodes
to is the text, unless the text has two double quotes side by side and some other
character of it is doubled: then the two are decoded to one.
-/
theorem string_encoded (text : String) :
    (∀ {s : Grammar.State} {cs rest : List Char}, s.scanner.ahead = some cs →
      Trivia.rest cs = (string text).render.toList ++ rest → rest.head? ≠ some '\'' →
      s.scanner.TakesQuoted (string text).render (string text).text rest ∧
      ∃ v s', Grammar.value s = .ok (some v) s' ∧ (v == string text) = true ∧
        s'.scanner.ahead = some rest) ∧
    ((string text).unescaped = text ↔
      text.toList.any Quoted.isDoubled = true → ¬Quoted.pair <:+: text.toList) := by
  constructor
  · intro s cs rest hahead hcs hrest
    constructor
    · rw [render_string, String.toList_ofList] at hcs
      rw [render_string, text_string]
      exact (Scanner.takesQuoted_between_iff hahead rfl hcs hrest).mpr
        ⟨_, Quoted.body_escape text.toList⟩
    · obtain ⟨v, hvalue, hsame⟩ := written_string text hcs hrest
      obtain ⟨s', hread, hmoves⟩ := Grammar.value_complete ⟨hahead, rfl⟩ hvalue
      exact ⟨v, s', hread, erases.beq_iff.mpr hsame, hmoves.ahead⟩
  · rw [List.any_eq_true, ← escaped_string_iff]
    unfold unescaped
    split
    · next hescaped =>
        rw [forall_prop_of_true hescaped, text_string, String.toList_ofList,
          ← Quoted.unescape_escape_iff, ← String.toList_inj, String.toList_ofList]
    · next hescaped =>
        have hnone : ∀ c ∈ text.toList, Quoted.isDoubled c = false := by
          simpa [escaped_string_iff] using hescaped
        have hplain : ∀ d, Quoted.isDoubled d = true → d ∉ text.toList := by
          intro d hd hmem
          rw [hnone d hmem] at hd
          cases hd
        rw [text_string, Text.escape_eq_self (hplain _ rfl) (hplain _ rfl), String.ofList_toList]
        exact iff_of_true rfl fun h => absurd h hescaped

/-- A text with a single quote and a backslash at its end is read back in front of a connective. -/
theorem string_encoded_quote :
    (∃ v s', Grammar.value ⟨.ofText " 'it''s a \\\\' OR", 0, 0⟩ = .ok (some v) s' ∧
      (v == string "it's a \\") = true ∧ s'.scanner.ahead = some [' ', 'O', 'R']) ∧
    (string "it's a \\").unescaped = "it's a \\" := by
  obtain ⟨hread, hdecoded⟩ := string_encoded "it's a \\"
  refine ⟨(hread (Scanner.ahead_ofText _) ?_ ?_).2, hdecoded.mpr ?_⟩
  · decide +kernel
  · decide
  · decide +kernel

end Value

/-! ## Names that were read -/

namespace Lexical

theorem Identifier.paired_of_isName {beginning : Bool} {name : List Char}
    (hname : isName beginning name = true) : Quoted.Paired name :=
  .of_not_mem (not_mem_of_isName hname (by decide) (by decide))

/-- What is between the quotes of a quoted text keeps its pairs. -/
theorem Rule.paired_of_quoted {token rest : List Char} {escapes : Nat}
    (h : quoted (token ++ rest) = some (token.length, escapes)) :
    Quoted.Paired token.tail.dropLast := by
  obtain ⟨quote, body, hquote, rfl, hbody, -⟩ := quoted_eq_some_iff.mp h
  rw [List.tail_cons, List.dropLast_concat]
  exact hbody.paired (Quoted.ne_backslash_of_isQuote hquote)

end Lexical

namespace Written

variable {size : Nat} {cs rest : List Char}

theorem Segment.paired {beginning quoted : Bool} {token : List Char} {text : String}
    (h : Segment beginning cs token text quoted rest) : Quoted.Paired text.toList := by
  cases h with
  | name htake =>
      rw [String.toList_ofList]
      exact Identifier.paired_of_isName (name_of_takes htake).1
  | quoted _ htake =>
      rw [String.toList_ofList]
      exact Rule.paired_of_quoted htake.measured

theorem Index.paired {text : String} (h : Index cs text rest) : Quoted.Paired text.toList := by
  refine .of_not_mem fun hmem => ?_
  exact absurd (List.all_eq_true.mp h.all_isBarePart _ hmem) (by decide)

theorem Tail.paired {text : String} {quoted : Bool} (h : Tail cs text quoted rest) :
    Quoted.Paired text.toList := by
  induction h with
  | last hindex _ => exact hindex.paired
  | more hindex _ hsegment _ ih =>
      simp only [String.toList_append]
      have hdot : Quoted.Paired ".".toList := .of_not_mem (by decide)
      exact ((hindex.paired.append hdot).append hsegment.paired).append ih

theorem Path.paired {path : DocQuery.Path} (h : Path size cs path rest) :
    Quoted.Paired path.text.toList := by
  cases h with
  | mk hsegment _ htail =>
      rw [String.toList_append]
      exact hsegment.paired.append htail.paired

theorem Value.paired {value : DocQuery.Value} (h : Value size cs value rest) :
    Quoted.Paired value.text.toList := by
  cases h with
  | @number token _ kind htake =>
      have hkind : Grammar.numberKind kind ≠ .string := by cases kind <;> simp [Grammar.numberKind]
      simp only [DocQuery.Value.text, if_neg hkind, Token.text, tokenAt, String.toList_ofList]
      exact .of_not_mem fun hmem => absurd (Numeral.isPart_of_mem htake.measured hmem) (by decide)
  | quoted _ htake =>
      obtain ⟨quote, body, hquote, rfl, hbody, -⟩ := Rule.quoted_eq_some_iff.mp htake.measured
      have hpaired := hbody.paired (Quoted.ne_backslash_of_isQuote hquote)
      rcases Quoted.isQuote_eq_true.mp hquote with rfl | rfl
      · simpa [DocQuery.Value.text, Token.text, tokenAt] using hpaired
      · simpa [DocQuery.Value.text, Token.text, tokenAt, Text.unquote?] using hpaired
  | @literal _ _ keyword _ _ htake =>
      have hmem := Keyword.mem_of_anyKeyword htake.measured
      have hkind : Grammar.literalKind keyword ≠ .string := by
        cases keyword <;> simp [Grammar.literalKind]
      have hplain : ∀ keyword ∈ Keyword.literals, '\\' ∉ keyword.text.toList := by decide
      simp only [DocQuery.Value.text, if_neg hkind]
      exact .of_not_mem (hplain keyword hmem)
  | parameter _ _ _ _ htake =>
      simp only [DocQuery.Value.text, if_neg (by simp : ValueKind.parameter ≠ .string), Token.text,
        tokenAt, String.toList_ofList]
      exact Identifier.paired_of_isName (name_of_takes htake).1

theorem AsName.paired {needsAs : Bool} {asName : Option String}
    (h : AsName size needsAs cs asName rest) : ∀ name ∈ asName, Quoted.Paired name.toList := by
  intro name hmem
  cases h with
  | named _ hpath =>
      cases hmem
      exact hpath.paired
  | bare _ _ hpath =>
      cases hmem
      exact hpath.paired
  | clause _ _ => cases hmem
  | needed _ _ => cases hmem
  | absent _ _ _ => cases hmem

theorem Projection.paired {needsAs : Bool} {entry : DocQuery.Projection} {cost : Complexity}
    (h : Projection size needsAs cs entry cost rest) :
    ∀ name ∈ entry.asName, Quoted.Paired name.toList := by
  cases h with
  | @mk _ _ _ _ asName _ hbody hasName =>
      intro name hmem
      rcases Option.or_eq_some_iff.mp hmem with hmem | ⟨-, hmem⟩
      · exact hasName.paired name hmem
      · cases hbody with
        | named hnamed => cases hnamed <;> cases hmem
        | value _ hvalue =>
            cases hmem
            exact hvalue.paired

theorem Source.paired {source : DocQuery.Source} {cost : Complexity}
    (h : Source size cs source cost rest) :
    Quoted.Paired source.name.text.toList ∧ ∀ name ∈ source.asName, Quoted.Paired name.toList := by
  cases h with
  | collection _ _ hsegment _ hasName => exact ⟨hsegment.paired, hasName.paired⟩
  | index _ _ hsegment hasName => exact ⟨hsegment.paired, hasName.paired⟩

end Written

/-- A path that is where its span says has the characters of a path that was read. -/
theorem Path.IsLocated.paired {text : String} {path : Path} (h : path.IsLocated text) :
    Quoted.Paired path.text.toList := by
  cases homitted : path.isOmitted with
  | true =>
      rw [Path.isOmitted, Bool.and_eq_true, Path.isImplicit, String.isEmpty_iff] at homitted
      rw [homitted.1]
      exact .nil
  | false =>
      obtain ⟨slice, p, -, hread, hsame⟩ := h.named homitted
      obtain ⟨s', hrun, -⟩ := Grammar.exists_of_readWhole hread
      rcases Grammar.path_sound (Grammar.stands_ofText slice) hrun with
        ⟨hnone, -⟩ | ⟨_, rest, hsome, hpath, -⟩
      · cases hnone
      · cases hsome
        rw [← (Path.erase_eq_iff.mp (Path.erases.beq_iff.mp hsame)).1]
        exact hpath.paired

/-- The name of a path. -/
def Terminal.name? : Terminal → Option String
  | .path p => some p.text
  | .value _ => none

/-- The names of a query: of its source, of its paths, and its aliases. -/
def Query.names (query : Query) : List String :=
  query.source.name.text :: (query.source.asName.toList ++
    query.terminals.filterMap Terminal.name? ++ query.projections.filterMap Projection.asName)

/-- Each backslash in a name of a query takes a character with it. -/
theorem Written.Query.paired {kind : QueryKind} {text : String} {q : DocQuery.Query}
    {cost : Complexity} (h : Written.Query kind text q cost) :
    ∀ name ∈ q.names, Quoted.Paired name.toList := by
  have hterminals : ∀ name ∈ q.terminals.filterMap Terminal.name?, Quoted.Paired name.toList := by
    intro name hmem
    obtain ⟨terminal, hterminal, hname⟩ := List.mem_filterMap.mp hmem
    have hlocated := h.located.2.terminals terminal hterminal
    cases terminal with
    | path path =>
        cases hname
        exact hlocated.paired
    | value v => cases hname
  obtain ⟨hsource, hentries⟩ : (Quoted.Paired q.source.name.text.toList ∧
        ∀ name ∈ q.source.asName, Quoted.Paired name.toList) ∧
      ∀ entry ∈ q.projections, ∀ name ∈ entry.asName, Quoted.Paired name.toList := by
    cases h with
    | mk _ hbody hending _ =>
    cases hbody with
    | mk hsource _ _ _ hload =>
    have hload := (hload.forall_mem_items fun h => h.paired).2
    cases hending with
    | @select _ _ _ _ selection _ _ _ hselect _ =>
        refine ⟨hsource.paired, fun entry hmem => ?_⟩
        rcases List.mem_append.mp hmem with hmem | hmem
        · cases hselect with
          | absent _ => cases hmem
          | present _ hselection =>
              cases hselection with
              | all _ _ => cases hmem
              | script _ _ _ => cases hmem
              | entries _ _ _ hitems => exact (hitems.forall_mem fun h => h.paired).2 entry hmem
        · exact hload entry hmem
    | update _ _ =>
        refine ⟨hsource.paired, fun entry hmem => ?_⟩
        rcases List.mem_append.mp hmem with hmem | hmem
        · cases hmem
        · exact hload entry hmem
  intro name hmem
  rcases List.mem_cons.mp hmem with rfl | hmem
  · exact hsource.1
  rcases List.mem_append.mp hmem with hmem | hmem
  · rcases List.mem_append.mp hmem with hmem | hmem
    · exact hsource.2 name (Option.mem_toList.mp hmem)
    · exact hterminals name hmem
  · obtain ⟨entry, hentry, hname⟩ := List.mem_filterMap.mp hmem
    exact hentries entry hentry name hname

/--
The quotes that canonical text puts around a name of a parsed query are taken as
one quoted text with the name in it, unless the name has quotes of both kinds and
its single quotes are no escapes of a text in single quotes.  In that case they
close too early.
-/
theorem Query.takesQuoted_name_iff {kind : QueryKind} {limits : Grammar.Limits} {text : String}
    {q : Query} (h : parse kind limits text = .ok q) {name : String} (hname : name ∈ q.names)
    {s : Scanner} {cs rest : List Char} (hahead : s.ahead = some cs)
    (hcs : Trivia.rest cs = (Text.inQuotes name).toList ++ rest)
    (hrest : rest.head? ≠ some (Text.quoteFor name.toList)) :
    s.TakesQuoted (Text.inQuotes name) name rest ↔
      '\'' ∉ name.toList ∨ '\"' ∉ name.toList ∨
        ∃ escapes, Quoted.Body '\'' name.toList escapes := by
  obtain ⟨cost, hwritten⟩ := written_of_parse h
  rw [← Quoted.exists_body_quoteFor_iff (hwritten.paired name hname)]
  rw [Text.toList_inQuotes, List.cons_append] at hcs
  have hquotes : Text.inQuotes name = String.ofList
      (Text.quoteFor name.toList :: (name.toList ++ [Text.quoteFor name.toList])) := by
    rw [← String.toList_inj, Text.toList_inQuotes, String.toList_ofList, List.cons_append]
  have hiff := Scanner.takesQuoted_between_iff hahead (Path.isQuote_quoteFor _) hcs hrest
  rwa [← hquotes, String.ofList_toList] at hiff

/-- A name with an escaped double quote and a single quote is parsed, and its quotes are taken. -/
theorem Query.takesQuoted_name_escaped :
    ∃ q, parse .select {} "FROM 'X' WHERE a.\"b'\\\\c\" = 1" = .ok q ∧ "a.b'\\\\c" ∈ q.names ∧
      (Scanner.ofText " \"a.b'\\\\c\" = 1").TakesQuoted "\"a.b'\\\\c\"" "a.b'\\\\c"
        [' ', '=', ' ', '1'] := by
  have hparsed : (parse .select {} "FROM 'X' WHERE a.\"b'\\\\c\" = 1").toOption.any
      (fun q => q.names.contains "a.b'\\\\c") = true := by
    decide +kernel
  obtain ⟨q, hq, hnames⟩ := (Option.any_eq_true _ _).mp hparsed
  have hparse := parse_of_toOption hq
  have hname := List.contains_iff_mem.mp hnames
  refine ⟨q, hparse, hname, ?_⟩
  exact (takesQuoted_name_iff hparse hname (Scanner.ahead_ofText _) (by decide +kernel)
    (by decide +kernel)).mpr (Or.inr (Or.inl (by decide +kernel)))

end DocQuery
