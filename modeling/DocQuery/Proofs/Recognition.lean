import DocQuery.Proofs.Grammar.Complete.Terminal
import DocQuery.Proofs.Grammar.Unique
import DocQuery.Proofs.Lexical.Numeral
import DocQuery.Proofs.Lexical.Script
import DocQuery.Proofs.Scanner

/-!
# Tokens and their grammars

Scripts, quoted texts and numbers have a grammar each, and a scanner finds one
of them behind the trivia at its cursor exactly if one is there.  At most one
script and one quoted text start at a place, so that is the token; of the numbers
that start there the token is the longest.  A quoted text becomes a value whose
text is what stands between the quotes.  The main statements are
`Scanner.block_finds_script`, `Scanner.quoted_finds_literal` and
`Scanner.number_finds_longest`.
-/

namespace DocQuery

open Lexical

namespace Scanner

/-! ## Matches and rules -/

/-- A match found the token of a rule, or the rule found none and nothing has changed. -/
inductive Found {α : Type} (rule : Rule α) (s : Scanner) (cs : List Char) :
    Option α → Scanner → Prop where
  | missed : Passes rule cs → Found rule s cs none s
  | matched {s' : Scanner} {a : α} {rest : List Char} : Matched s s' →
      Takes rule cs s'.token.chars a rest → Found rule s cs (some a) s'

namespace Found

variable {α : Type} {rule : Rule α} {s s' : Scanner} {cs : List Char} {found : Option α}

theorem attempt (h : Found rule s cs found s') : Attempt s found.isSome s' := by
  cases h with
  | missed => exact .missed
  | matched hmatched => exact .matched hmatched

/-- Where the rule takes a token, the match found this one. -/
theorem eq_of_takes {token rest : List Char} {a : α} (h : Found rule s cs found s')
    (htake : Takes rule cs token a rest) : found = some a ∧ s'.token.chars = token := by
  cases h with
  | missed hpass => exact absurd hpass htake.not_passes
  | matched _ htaken =>
      obtain ⟨rfl, rfl, -⟩ := htaken.unique htake
      exact ⟨rfl, rfl⟩

theorem exists_takes {a : α} (h : Found rule s cs (some a) s') :
    ∃ rest, Takes rule cs s'.token.chars a rest := by
  cases h with
  | matched _ htake => exact ⟨_, htake⟩

theorem isSome_iff (h : Found rule s cs found s') :
    found.isSome = true ↔ ∃ token a rest, Takes rule cs token a rest := by
  constructor
  · intro hsome
    obtain ⟨a, rfl⟩ := Option.isSome_iff_exists.mp hsome
    obtain ⟨rest, htake⟩ := h.exists_takes
    exact ⟨_, a, rest, htake⟩
  · rintro ⟨token, a, rest, htake⟩
    rw [(h.eq_of_takes htake).1]
    rfl

end Found

section Matches

variable {α : Type} {s : Scanner} {cs : List Char}

/-- The token that is accepted behind the trivia is the one that the rule takes there. -/
theorem takes_accept {rule : Rule α} (hrule : rule.Sized) (hahead : s.ahead = some cs) {size : Nat}
    {a : α} (h : rule (Trivia.rest cs) = some (size, a)) :
    ∃ rest, Takes rule cs (s.accept (Trivia.length cs) size).token.chars a rest := by
  refine ⟨(Trivia.rest cs).drop size, ?_, ?_⟩
  · rw [chars_accept hahead, List.take_append_drop]
  · rw [chars_accept hahead, List.take_append_drop, List.length_take_of_le (hrule.le h), h]

theorem found_measure {rule : Rule α} (hrule : rule.Sized) (hahead : s.ahead = some cs) :
    ∃ found s', measure rule s = .ok (found, s') ∧ Found rule s cs found s' := by
  rw [measure_of_ahead rule hahead]
  cases hmeasured : rule (Trivia.rest cs) with
  | none => exact ⟨none, s, rfl, .missed hmeasured⟩
  | some measured =>
      obtain ⟨size, a⟩ := measured
      obtain ⟨rest, htake⟩ := takes_accept hrule hahead hmeasured
      have houtcome : Outcome s cs true (s.accept (Trivia.length cs) size) :=
        .matched (hrule.pos hmeasured) (hrule.le hmeasured) rfl
      obtain _ | hmatched := houtcome.attempt hahead
      exact ⟨some a, _, rfl, .matched hmatched htake⟩

theorem found_recognise {measure : List Char → Option Nat}
    (hrule : (Rule.ofLength measure).Sized) (hahead : s.ahead = some cs) :
    ∃ found s', recognise measure s = .ok (found.isSome, s') ∧
      Found (Rule.ofLength measure) s cs found s' := by
  obtain ⟨found, s', hmeasure, hfound⟩ := found_measure hrule hahead
  have hstep : Scanner.measure (fun cs => (measure cs).map (·, ())) s = .ok (found, s') := hmeasure
  refine ⟨found, s', ?_, hfound⟩
  simp only [recognise, hstep, bind, Except.bind, pure, Except.pure]

theorem found_quoted (hahead : s.ahead = some cs) :
    ∃ found s', quoted s = .ok (found.isSome, s') ∧ Found Rule.quoted s cs found s' ∧
      ∀ escapes, found = some escapes → s'.escapes = escapes := by
  obtain ⟨found, s', hmeasure, hfound⟩ := found_measure Rule.sized_quoted hahead
  rw [Grammar.quoted_eq_measure, hmeasure]
  cases hfound with
  | missed hpass => exact ⟨none, s, rfl, .missed hpass, fun _ h => by cases h⟩
  | @matched _ escapes _ hmatched htake =>
      refine ⟨some escapes, _, rfl, .matched ?_ htake, fun _ h => Option.some.inj h⟩
      exact ⟨hmatched.text_eq, hmatched.nonempty, hmatched.stop_eq, hmatched.gap⟩

end Matches

/-! ## Scripts -/

theorem takes_block_iff {cs script rest : List Char} :
    Takes Rule.block cs script () rest ↔
      Trivia.rest cs = script ++ rest ∧ Block.IsScript script :=
  ⟨fun h => ⟨h.split, Rule.block_eq_some_iff.mp h.measured⟩,
    fun h => ⟨h.1, Rule.block_eq_some_iff.mpr h.2⟩⟩

/--
A script is found exactly if one starts behind the trivia at the cursor.  There
is no other one at this place, and it is the token as it stands in the text.
-/
theorem block_finds_script {s : Scanner} {cs : List Char} (hahead : s.ahead = some cs) :
    ∃ found s', s.block = .ok (found, s') ∧ Attempt s found s' ∧
      (found = true ↔ ∃ script, script <+: Trivia.rest cs ∧ Block.IsScript script) ∧
      ∀ script, script <+: Trivia.rest cs → Block.IsScript script → s'.token.chars = script := by
  obtain ⟨found, s', hblock, hfound⟩ := found_recognise Rule.sized_block hahead
  have htakes : ∀ {script}, script <+: Trivia.rest cs → Block.IsScript script →
      ∃ rest, Takes Rule.block cs script () rest := by
    rintro script ⟨rest, hcut⟩ hscript
    exact ⟨rest, takes_block_iff.mpr ⟨hcut.symm, hscript⟩⟩
  refine ⟨found.isSome, s', hblock, hfound.attempt, ?_, fun script hprefix hscript => ?_⟩
  · rw [hfound.isSome_iff]
    constructor
    · rintro ⟨script, _, rest, htake⟩
      obtain ⟨hcut, hscript⟩ := takes_block_iff.mp htake
      exact ⟨script, ⟨rest, hcut.symm⟩, hscript⟩
    · rintro ⟨script, hprefix, hscript⟩
      obtain ⟨rest, htake⟩ := htakes hprefix hscript
      exact ⟨script, (), rest, htake⟩
  · obtain ⟨rest, htake⟩ := htakes hprefix hscript
    exact (hfound.eq_of_takes htake).2

/--
The script `{'}' /2{// }`, on the next line a brace, then `/*}*/}`, and one more
brace that is not part of it: braces in quoted texts and comments do not count.
-/
theorem block_finds_script_nested :
    ∃ s', block (ofText "/*\x7b*/ \x7b'\x7d' /2\x7b// \x7d\n\x7d/*\x7d*/\x7d\x7d") =
        .ok (true, s') ∧
      s'.token.text = "\x7b'\x7d' /2\x7b// \x7d\n\x7d/*\x7d*/\x7d" := by
  obtain ⟨found, s', hblock, -, hiff, htoken⟩ := block_finds_script
    (ahead_ofText "/*\x7b*/ \x7b'\x7d' /2\x7b// \x7d\n\x7d/*\x7d*/\x7d\x7d")
  have hinner : Block.Items "// \x7d\n".toList :=
    @Block.Items.line " \x7d".toList _ (by decide) .nil
  have hbehind : Block.Items "\x7b// \x7d\n\x7d/*\x7d*/".toList :=
    @Block.Items.script _ _ hinner (@Block.Items.comment ['}'] _ (by decide) .nil)
  have hlone : Block.Items (' ' :: '/' :: '2' :: "\x7b// \x7d\n\x7d/*\x7d*/".toList) := by
    refine .other ?_ ?_ rfl ?_ (.other ?_ ?_ rfl ?_ (.other ?_ ?_ rfl ?_ hbehind)) <;>
      simp [Block.StartsComment]
  have hscript : Block.IsScript "\x7b'\x7d' /2\x7b// \x7d\n\x7d/*\x7d*/\x7d".toList :=
    @Block.IsScript.mk "'\x7d' /2\x7b// \x7d\n\x7d/*\x7d*/".toList
      (@Block.Items.quoted '\'' ['}'] _ rfl (.plain (by decide) (by decide) .nil) hlone)
  have hprefix : "\x7b'\x7d' /2\x7b// \x7d\n\x7d/*\x7d*/\x7d".toList <+:
      Trivia.rest "/*\x7b*/ \x7b'\x7d' /2\x7b// \x7d\n\x7d/*\x7d*/\x7d\x7d".toList := by
    decide +kernel
  obtain rfl : found = true := hiff.mpr ⟨_, hprefix, hscript⟩
  refine ⟨s', hblock, ?_⟩
  rw [Token.text, htoken _ hprefix hscript, String.ofList_toList]

/-! ## Quoted texts -/

/--
The token is a quoted text with so many escapes.  Its last quote closes it, as
the rest does not go on with another one.
-/
inductive IsLiteral : (token : List Char) → (escapes : Nat) → (rest : List Char) → Prop where
  | mk {quote : Char} {body rest : List Char} {escapes : Nat} : Quoted.isQuote quote = true →
      Quoted.Body quote body escapes → rest.head? ≠ some quote →
      IsLiteral (quote :: (body ++ [quote])) escapes rest

theorem takes_quoted_iff {cs token rest : List Char} {escapes : Nat} :
    Takes Rule.quoted cs token escapes rest ↔
      Trivia.rest cs = token ++ rest ∧ IsLiteral token escapes rest := by
  constructor
  · intro h
    obtain ⟨quote, body, hquote, rfl, hbody, hrest⟩ := Rule.quoted_eq_some_iff.mp h.measured
    exact ⟨h.split, hquote, hbody, hrest⟩
  · rintro ⟨hcut, hquote, hbody, hrest⟩
    exact ⟨hcut, Rule.quoted_eq_some_iff.mpr ⟨_, _, hquote, rfl, hbody, hrest⟩⟩

/-- The quotes of either kind are taken off a quoted text. -/
theorem text_of_literal {token rest : List Char} {escapes : Nat} (h : IsLiteral token escapes rest)
    (span : Span) (escaped : Bool) :
    (⟨String.ofList token, span, .string, escaped⟩ : Value).text =
      String.ofList token.tail.dropLast := by
  obtain ⟨hquote, -, -⟩ := h
  rcases Quoted.isQuote_eq_true.mp hquote with rfl | rfl
  · simp [Value.text]
  · simp [Value.text, Text.unquote?]

/-- A reader of values takes a quoted text as its scanner does. -/
theorem value_of_quoted {s s' : Scanner} {cs token rest : List Char} {escapes : Nat}
    (hahead : s.ahead = some cs) (hcut : Trivia.rest cs = token ++ rest)
    (hliteral : IsLiteral token escapes rest) (hquoted : s.quoted = .ok (true, s'))
    (depth connectives : Nat) :
    Grammar.value ⟨s, depth, connectives⟩ =
      .ok (some ⟨s'.token.text, s'.token.span, .string, s'.escapes != 0⟩)
        ⟨s', depth, connectives⟩ := by
  have hnumber : Passes Rule.number cs := by
    obtain ⟨hquote, -, -⟩ := hliteral
    rw [Passes, hcut]
    rcases Quoted.isQuote_eq_true.mp hquote with rfl | rfl <;> rfl
  have hscan : Grammar.scan Scanner.quoted ⟨s, depth, connectives⟩ =
      .ok true ⟨s', depth, connectives⟩ := Grammar.scan_of_ok hquoted
  rw [Grammar.value, Grammar.bind_of_ok _ (Grammar.number_passes ⟨hahead, rfl⟩ hnumber)]
  simp only [Grammar.bind_of_ok _ hscan, if_true, Grammar.bind_of_ok _ (Grammar.get_eq _),
    Grammar.bind_of_ok _ (Grammar.tokenValue_eq _ _ _)]
  rfl

/--
A quoted text is found exactly if one starts behind the trivia at the cursor.
There is no other one at this place; it is the token, its escapes are counted, and
a reader of values makes a text of what stands between its quotes.  Without
escapes this text is not changed where it is decoded.
-/
theorem quoted_finds_literal {s : Scanner} {cs : List Char} (hahead : s.ahead = some cs) :
    ∃ found s', s.quoted = .ok (found, s') ∧ Attempt s found s' ∧
      (found = true ↔ ∃ token escapes rest,
        Trivia.rest cs = token ++ rest ∧ IsLiteral token escapes rest) ∧
      ∀ token escapes rest, Trivia.rest cs = token ++ rest → IsLiteral token escapes rest →
        s'.token.chars = token ∧ s'.escapes = escapes ∧
        ∃ v : Value, (∀ depth connectives, Grammar.value ⟨s, depth, connectives⟩ =
            .ok (some v) ⟨s', depth, connectives⟩) ∧
          v.kind = .string ∧ v.token = String.ofList token ∧ v.span = s'.token.span ∧
          v.text = String.ofList token.tail.dropLast ∧ (v.escaped = true ↔ 0 < escapes) ∧
          (escapes = 0 → v.unescaped = v.text) := by
  obtain ⟨found, s', hquoted, hfound, hescapes⟩ := found_quoted hahead
  refine ⟨found.isSome, s', hquoted, hfound.attempt, ?_, ?_⟩
  · simp only [hfound.isSome_iff, takes_quoted_iff]
  · intro token escapes rest hcut hliteral
    obtain ⟨rfl, rfl⟩ := hfound.eq_of_takes (takes_quoted_iff.mpr ⟨hcut, hliteral⟩)
    obtain rfl := hescapes escapes rfl
    refine ⟨rfl, rfl, _, value_of_quoted hahead hcut hliteral hquoted, rfl, rfl, rfl,
      text_of_literal hliteral _ _, ?_, fun hzero => ?_⟩
    · rw [bne_iff_ne, Nat.pos_iff_ne_zero]
    · simp [Value.unescaped, hzero]

/-- A double-quoted text is found behind a comment, with two single quotes that are no escape. -/
theorem quoted_finds_literal_double :
    ∃ s' v, (ofText "/*'*/ \"''\\\"\"\"\", b").quoted = .ok (true, s') ∧
      s'.token.text = "\"''\\\"\"\"\"" ∧ s'.escapes = 2 ∧
      Grammar.value ⟨ofText "/*'*/ \"''\\\"\"\"\", b", 0, 0⟩ = .ok (some v) ⟨s', 0, 0⟩ ∧
      v.text = "''\\\"\"\"" ∧ v.escaped = true := by
  obtain ⟨found, s', hquoted, -, hiff, htoken⟩ :=
    quoted_finds_literal (ahead_ofText "/*'*/ \"''\\\"\"\"\", b")
  have hcut : Trivia.rest "/*'*/ \"''\\\"\"\"\", b".toList =
      "\"''\\\"\"\"\"".toList ++ ", b".toList := by decide +kernel
  have hliteral : IsLiteral "\"''\\\"\"\"\"".toList 2 ", b".toList :=
    @IsLiteral.mk '\"' "''\\\"\"\"".toList _ _ rfl
      (.plain (by decide) (by decide) (.plain (by decide) (by decide) (.slashed (.doubled .nil))))
      (by decide)
  obtain rfl : found = true := hiff.mpr ⟨_, _, _, hcut, hliteral⟩
  obtain ⟨hchars, hescapes, v, hvalue, -, -, -, htext, hescaped, -⟩ := htoken _ _ _ hcut hliteral
  refine ⟨s', v, hquoted, ?_, hescapes, hvalue 0 0, htext, hescaped.mpr (by decide)⟩
  rw [Token.text, hchars, String.ofList_toList]

/-! ## Numbers -/

/--
A number is found exactly if one starts behind the trivia at the cursor.  The
token is the longest of those that do, and its kind says whether it is written
with a fraction or an exponent.
-/
theorem number_finds_longest {s : Scanner} {cs : List Char} (hahead : s.ahead = some cs) :
    ∃ found s', s.number = .ok (found, s') ∧ Attempt s found.isSome s' ∧
      (found.isSome = true ↔ ∃ pieces : Numeral.Pieces, pieces.chars <+: Trivia.rest cs) ∧
      ∀ kind, found = some kind →
        s'.token.chars <+: Trivia.rest cs ∧
        (∃ pieces : Numeral.Pieces, pieces.chars = s'.token.chars) ∧
        (∀ pieces : Numeral.Pieces, pieces.chars <+: Trivia.rest cs →
          pieces.chars.length ≤ s'.token.chars.length) ∧
        ∀ pieces : Numeral.Pieces, pieces.chars = s'.token.chars →
          (kind = .double ↔ pieces.point ≠ [] ∨ pieces.power ≠ []) := by
  obtain ⟨found, s', hnumber, hfound⟩ := found_measure Rule.sized_number hahead
  refine ⟨found, s', hnumber, hfound.attempt, ?_, ?_⟩
  · cases hfound with
    | missed hpass =>
        simpa using Numeral.size?_eq_none_iff.mp hpass
    | matched _ htake =>
        obtain ⟨⟨pieces, hchars, -⟩, -⟩ := Rule.number_eq_some_iff.mp htake.measured
        exact iff_of_true rfl ⟨pieces, hchars ▸ htake.split ▸ List.prefix_append _ _⟩
  · rintro kind rfl
    obtain ⟨rest, htake⟩ := hfound.exists_takes
    obtain ⟨⟨pieces, hchars, hkind⟩, hlongest⟩ := Rule.number_eq_some_iff.mp htake.measured
    refine ⟨htake.split ▸ List.prefix_append _ _, ⟨pieces, hchars⟩, ?_, fun other hother => ?_⟩
    · rw [htake.split]
      exact hlongest
    · have hsame : other.kind = kind := by
        rw [← hkind, other.kind_eq, pieces.kind_eq, hother, hchars]
      rw [← hsame, Numeral.Pieces.kind]
      split
      · next h => simp [h]
      · next h => simpa using Decidable.not_and_iff_not_or_not.mp h

/-- An exponent without digits is no part of the number in front of it. -/
theorem number_finds_longest_fraction :
    ∃ s', (ofText "--5\n -2.5e+").number = .ok (some .double, s') ∧ s'.token.text = "-2.5" ∧
      ∀ pieces : Numeral.Pieces, pieces.chars <+: "-2.5e+".toList → pieces.chars.length ≤ 4 := by
  obtain ⟨found, s', hnumber, -, -, htoken⟩ :=
    number_finds_longest (ahead_ofText "--5\n -2.5e+")
  have hscan : ∃ s₁, (ofText "--5\n -2.5e+").number = .ok (some .double, s₁) ∧
      s₁.token.chars = "-2.5".toList := ⟨_, rfl, by decide +kernel⟩
  obtain ⟨s₁, hscan, hchars⟩ := hscan
  obtain ⟨rfl, rfl⟩ : found = some .double ∧ s' = s₁ := by
    rw [hnumber] at hscan
    cases hscan
    exact ⟨rfl, rfl⟩
  obtain ⟨-, -, hlongest, -⟩ := htoken .double rfl
  refine ⟨s', hnumber, by rw [Token.text, hchars, String.ofList_toList], ?_⟩
  intro pieces hprefix
  have hlength := hlongest pieces hprefix
  rw [hchars] at hlength
  exact hlength

end Scanner

end DocQuery
