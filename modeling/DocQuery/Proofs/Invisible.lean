import DocQuery.Proofs.Lexical.Gap
import DocQuery.Proofs.Scanner

/-!
# Trivia is invisible

Two scanners stand behind the same text and have the same text ahead, but one of
them has white space and comments in front of it.  Whatever they are asked, they
give the same answer; a token that they take is the same, only that it starts and
ends so many bytes later as the white space and the comments have.  The main
statement is `Scanner.Probe.run_gap`.
-/

namespace DocQuery

open Lexical

namespace Scanner

/-! ## Questions to a scanner -/

/-- What a scanner can be asked at its cursor, by the type of the answer. -/
inductive Probe : Type → Type where
  | phrase (literal : String) : Probe Bool
  | char (expected : Char) : Probe Bool
  | firstPhrase (literals : List String) : Probe (Option String)
  | firstKeyword (keywords : List Keyword) : Probe (Option Keyword)
  | identifier (beginning : Bool) : Probe Bool
  | quoted : Probe Bool
  | number : Probe (Option Numeral.Kind)
  | block : Probe Bool
  | peek (expected : Char) : Probe Bool
  | atEnd : Probe Bool
  | next : Probe Bool

namespace Probe

/-- Ask the scanner. -/
def run {α : Type} : Probe α → Scan α
  | .phrase literal => Scanner.phrase literal
  | .char expected => Scanner.char expected
  | .firstPhrase literals => firstOf (literals.map fun literal => (literal, literal))
  | .firstKeyword keywords => anyKeyword keywords
  | .identifier beginning => Scanner.identifier beginning
  | .quoted => Scanner.quoted
  | .number => Scanner.number
  | .block => Scanner.block
  | .peek expected => Scanner.peek expected
  | .atEnd => Scanner.atEnd
  | .next => Scanner.next

/--
The scanner has taken a token if this is its answer.  To look ahead takes none,
and whatever comes next is a token, be it an empty one at the end of the text.
-/
def takes {α : Type} : Probe α → α → Bool
  | .phrase _, found => found
  | .char _, found => found
  | .firstPhrase _, found => found.isSome
  | .firstKeyword _, found => found.isSome
  | .identifier _, found => found
  | .quoted, found => found
  | .number, found => found.isSome
  | .block, found => found
  | .peek _, _ => false
  | .atEnd, _ => false
  | .next, _ => true

end Probe

/-! ## Scanners side by side -/

/-- The scanner stands between two parts of its text. -/
structure Between (before after : List Char) (s : Scanner) : Prop where
  text : s.text.toList = before ++ after
  offset : s.offset = Text.byteLength before

theorem Between.ahead {before after : List Char} {s : Scanner} (h : s.Between before after) :
    s.ahead = some after := by
  rw [s.ahead_eq, h.text, h.offset, Text.dropBytes?_append]

/-- The second scanner has the token and the cursor of the first one, so many bytes later. -/
structure Later (bytes : Nat) (s t : Scanner) : Prop where
  chars : t.token.chars = s.token.chars
  start : t.token.start = s.token.start + bytes
  offset : t.offset = s.offset + bytes
  ahead : t.ahead = s.ahead

/--
Two scanners before and after a step.  Both are as they were, or both have taken a
token, the second one so many bytes later, and count the same escapes if they did.
-/
inductive InStep (bytes : Nat) (s t : Scanner) : Bool → Scanner → Scanner → Prop where
  | stayed : InStep bytes s t false s t
  | took {s' t' : Scanner} : Later bytes s' t' → (t.escapes = s.escapes → t'.escapes = s'.escapes) →
      InStep bytes s t true s' t'

section Steps

variable {α : Type} {before gap rest : List Char} {s t : Scanner}

/-- A gap ahead does not change what is accepted behind the trivia. -/
theorem later_accept {bytes : Nat} (hs : s.ahead = some rest) (ht : t.ahead = some (gap ++ rest))
    (hoffset : t.offset + Text.byteLength gap = s.offset + bytes) (hgap : Trivia.Gap gap rest)
    (size : Nat) :
    Later bytes (s.accept (Trivia.length rest) size)
      (t.accept (Trivia.length (gap ++ rest)) size) := by
  have hchars : (t.accept (Trivia.length (gap ++ rest)) size).token.chars =
      (s.accept (Trivia.length rest) size).token.chars := by
    rw [chars_accept hs, chars_accept ht, hgap.rest_append]
  have hstart : (t.accept (Trivia.length (gap ++ rest)) size).token.start =
      (s.accept (Trivia.length rest) size).token.start + bytes := by
    simp only [accept, hs, ht, Option.getD_some]
    rw [hgap.length_append, List.take_length_add_append, Text.byteLength_append]
    omega
  refine ⟨hchars, hstart, ?_, ?_⟩
  · rw [← offset_accept, ← offset_accept, hstart, Token.length, Token.length, hchars]
    omega
  · simp only [accept, forward, hs, ht, Option.map_some]
    rw [hgap.length_append, Nat.add_assoc, List.drop_length_add_append]

/-- A rule takes the same token with and without a gap in front of what is ahead. -/
theorem inStep_measure_of_ahead {bytes : Nat} (rule : Rule α) (hs : s.ahead = some rest)
    (ht : t.ahead = some (gap ++ rest))
    (hoffset : t.offset + Text.byteLength gap = s.offset + bytes) (hgap : Trivia.Gap gap rest) :
    ∃ answer s' t', measure rule s = .ok (answer, s') ∧ measure rule t = .ok (answer, t') ∧
      InStep bytes s t answer.isSome s' t' := by
  rw [measure_of_ahead rule hs, measure_of_ahead rule ht, hgap.rest_append]
  cases rule (Trivia.rest rest) with
  | none => exact ⟨none, s, t, rfl, rfl, .stayed⟩
  | some measured =>
      exact ⟨_, _, _, rfl, rfl, .took (later_accept hs ht hoffset hgap measured.1) id⟩

theorem Between.offset_add (hs : s.Between before rest) (ht : t.Between before (gap ++ rest)) :
    t.offset + Text.byteLength gap = s.offset + Text.byteLength gap := by
  rw [hs.offset, ht.offset]

theorem inStep_measure (rule : Rule α) (hs : s.Between before rest)
    (ht : t.Between before (gap ++ rest)) (hgap : Trivia.Gap gap rest) :
    ∃ answer s' t', measure rule s = .ok (answer, s') ∧ measure rule t = .ok (answer, t') ∧
      InStep (Text.byteLength gap) s t answer.isSome s' t' :=
  inStep_measure_of_ahead rule hs.ahead ht.ahead (hs.offset_add ht) hgap

theorem inStep_recognise (measure : List Char → Option Nat) (hs : s.Between before rest)
    (ht : t.Between before (gap ++ rest)) (hgap : Trivia.Gap gap rest) :
    ∃ answer s' t', recognise measure s = .ok (answer, s') ∧
      recognise measure t = .ok (answer, t') ∧ InStep (Text.byteLength gap) s t answer s' t' := by
  obtain ⟨found, s', t', hfirst, hsecond, hstep⟩ :=
    inStep_measure (Rule.ofLength measure) hs ht hgap
  refine ⟨found.isSome, s', t', ?_, ?_, hstep⟩
  · exact congrArg (Except.map fun found => (found.1.isSome, found.2)) hfirst
  · exact congrArg (Except.map fun found => (found.1.isSome, found.2)) hsecond

theorem inStep_firstOf (table : List (String × α)) (hs : s.Between before rest)
    (ht : t.Between before (gap ++ rest)) (hgap : Trivia.Gap gap rest) :
    ∃ answer s' t', firstOf table s = .ok (answer, s') ∧ firstOf table t = .ok (answer, t') ∧
      InStep (Text.byteLength gap) s t answer.isSome s' t' := by
  rw [Grammar.firstOf_eq_measure table hs.ahead, Grammar.firstOf_eq_measure table ht.ahead]
  exact inStep_measure (Rule.firstOf table) hs ht hgap

theorem inStep_quoted (hs : s.Between before rest) (ht : t.Between before (gap ++ rest))
    (hgap : Trivia.Gap gap rest) :
    ∃ answer s' t', quoted s = .ok (answer, s') ∧ quoted t = .ok (answer, t') ∧
      InStep (Text.byteLength gap) s t answer s' t' := by
  obtain ⟨found, s', t', hfirst, hsecond, hstep⟩ := inStep_measure Rule.quoted hs ht hgap
  rw [Grammar.quoted_eq_measure, Grammar.quoted_eq_measure, hfirst, hsecond]
  cases found with
  | none => exact ⟨false, s', t', rfl, rfl, hstep⟩
  | some escapes =>
      obtain _ | ⟨⟨hchars, hstart, hoffset, hahead⟩, -⟩ := hstep
      exact ⟨true, _, _, rfl, rfl, .took ⟨hchars, hstart, hoffset, hahead⟩ fun _ => rfl⟩

theorem inStep_next (hs : s.Between before rest) (ht : t.Between before (gap ++ rest))
    (hgap : Trivia.Gap gap rest) :
    ∃ answer s' t', next s = .ok (answer, s') ∧ next t = .ok (answer, t') ∧
      InStep (Text.byteLength gap) s t true s' t' := by
  simp only [next, read_of_ahead hs.ahead, read_of_ahead ht.ahead, bind, Except.bind, pure,
    Except.pure, hgap.rest_append]
  cases Quoted.size? (Trivia.rest rest) with
  | none =>
      exact ⟨_, _, _, rfl, rfl,
        .took (later_accept hs.ahead ht.ahead (hs.offset_add ht) hgap _) id⟩
  | some size =>
      obtain ⟨hchars, hstart, hoffset, hahead⟩ :=
        later_accept hs.ahead ht.ahead (hs.offset_add ht) hgap size.length
      exact ⟨true, _, _, rfl, rfl, .took ⟨hchars, hstart, hoffset, hahead⟩ fun _ => rfl⟩

end Steps

/-! ## White space and comments in front of what is asked for -/

/--
Two scanners stand behind the same text, and the second one has a gap in front of
what the first one has ahead.  Whatever they are asked, both answer, and alike.
If they take a token, it is the same one, and it starts and ends later by the bytes
of the gap; otherwise both are as they were.
-/
theorem Probe.run_gap {α : Type} {before gap rest : List Char} {s t : Scanner} (probe : Probe α)
    (hs : s.Between before rest) (ht : t.Between before (gap ++ rest))
    (hgap : Trivia.Gap gap rest) :
    ∃ answer s' t', probe.run s = .ok (answer, s') ∧ probe.run t = .ok (answer, t') ∧
      InStep (Text.byteLength gap) s t (probe.takes answer) s' t' := by
  cases probe with
  | phrase literal => exact inStep_recognise _ hs ht hgap
  | char expected => exact inStep_recognise _ hs ht hgap
  | firstPhrase literals => exact inStep_firstOf _ hs ht hgap
  | firstKeyword keywords => exact inStep_firstOf _ hs ht hgap
  | identifier beginning => exact inStep_recognise _ hs ht hgap
  | quoted => exact inStep_quoted hs ht hgap
  | number => exact inStep_measure _ hs ht hgap
  | block => exact inStep_recognise _ hs ht hgap
  | peek expected =>
      refine ⟨_, s, t, peek_of_ahead expected hs.ahead, ?_, .stayed⟩
      rw [run, peek_of_ahead expected ht.ahead, hgap.rest_append]
  | atEnd =>
      refine ⟨_, s, t, atEnd_of_ahead hs.ahead, ?_, .stayed⟩
      rw [run, atEnd_of_ahead ht.ahead, hgap.rest_append]
  | next => exact inStep_next hs ht hgap

/-- Comments of every kind come between a letter of two bytes and a quoted text with an escape. -/
theorem Probe.run_gap_quoted :
    ∃ s' t', ((ofText "é 'a'''x").moveTo 2).quoted = .ok (true, s') ∧
      ((ofText "é--'\n/*/'*/ //*\n 'a'''x").moveTo 2).quoted = .ok (true, t') ∧
      t'.token.text = s'.token.text ∧ t'.token.start = s'.token.start + 15 ∧
      t'.offset = s'.offset + 15 ∧ t'.escapes = s'.escapes := by
  obtain ⟨answer, s', t', hfirst, hsecond, hstep⟩ :=
    @Probe.run_gap _ ['é'] "--'\n/*/'*/ //*\n".toList " 'a'''x".toList
      ((ofText "é 'a'''x").moveTo 2) ((ofText "é--'\n/*/'*/ //*\n 'a'''x").moveTo 2) .quoted
      ⟨by decide +kernel, by decide +kernel⟩ ⟨by decide +kernel, by decide +kernel⟩
      (@Trivia.Gap.line '-' ['\''] _ _ (by decide) (by decide)
        (@Trivia.Gap.block "/'".toList _ _ (by decide)
          (.blank (by decide) (@Trivia.Gap.line '/' ['*'] _ _ (by decide) (by decide) .nil))))
  have hfound : ∃ s₁, ((ofText "é 'a'''x").moveTo 2).quoted = .ok (true, s₁) := ⟨_, rfl⟩
  obtain ⟨s₁, hfound⟩ := hfound
  obtain rfl : answer = true := by
    have hboth := hfirst.symm.trans hfound
    cases hboth
    rfl
  obtain _ | ⟨hlater, hescapes⟩ := hstep
  exact ⟨s', t', hfirst, hsecond, congrArg String.ofList hlater.chars, hlater.start,
    hlater.offset, hescapes rfl⟩

end Scanner

end DocQuery
