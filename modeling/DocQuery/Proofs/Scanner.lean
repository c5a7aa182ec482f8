import DocQuery.Proofs.Grammar.Tokens

/-!
# What a scanner keeps

A scanner may be asked for matches, for what is ahead and for the content of a
quoted text, and its cursor may be set, in any order and any number of times.
As long as the cursor is only set between characters and content is only asked
for right behind a match of a quoted text, no step is a fault, the cursor stays
between two characters, and the span of the last token cuts the token out of the
text.  A match records a token and goes behind it, or it leaves the scanner as
it was.  The main statement is `Scanner.runAll_settled`.
-/

namespace DocQuery

open Lexical

namespace Scanner

/-! ## Settled scanners -/

/-- The cursor and the last token of the scanner are cuts of its text. -/
structure Settled (s : Scanner) : Prop where
  boundary : ∃ before after, s.text.toList = before ++ after ∧ Text.byteLength before = s.offset
  offset_le : s.offset ≤ s.text.utf8ByteSize
  token : s.token.span.slice? s.text = some s.token.text

namespace Settled

variable {s : Scanner}

/-- A cursor with characters ahead stands between characters. -/
theorem of_ahead {cs : List Char} (hahead : s.ahead = some cs)
    (htoken : s.token.span.slice? s.text = some s.token.text) : s.Settled := by
  have hcut := s.ahead_eq
  rw [hahead] at hcut
  obtain ⟨before, htext, hlength⟩ := Text.dropBytes?_eq_some_iff.mp hcut.symm
  refine ⟨⟨before, cs, htext, hlength⟩, ?_, htoken⟩
  rw [Text.utf8ByteSize_eq, htext, Text.byteLength_append, hlength]
  exact Nat.le_add_right _ _

theorem exists_ahead (h : s.Settled) : ∃ cs, s.ahead = some cs := by
  obtain ⟨before, after, htext, hlength⟩ := h.boundary
  exact ⟨after, by rw [s.ahead_eq, htext, ← hlength, Text.dropBytes?_append]⟩

theorem ofText (text : String) : (Scanner.ofText text).Settled := by
  refine of_ahead (ahead_ofText text) ?_
  have htoken := Text.takeBytes?_append [] text.toList
  simpa [Scanner.ofText, Span.slice?, Token.span, Token.length, Token.text, Text.slice?,
    Text.dropBytes?] using htoken

/-- Whatever is accepted ahead of the cursor is a piece of the text. -/
theorem accept (h : s.Settled) (gap size : Nat) : (s.accept gap size).Settled := by
  obtain ⟨before, after, htext, hlength⟩ := h.boundary
  have hahead : s.ahead = some after := by
    rw [s.ahead_eq, htext, ← hlength, Text.dropBytes?_append]
  have hforward : (s.accept gap size).ahead = s.ahead.map (List.drop (gap + size)) := rfl
  rw [hahead, Option.map_some] at hforward
  refine of_ahead hforward ?_
  have hcut : s.text.toList = (before ++ after.take gap) ++
      ((after.drop gap).take size ++ (after.drop gap).drop size) := by
    rw [List.take_append_drop, List.append_assoc, List.take_append_drop, htext]
  have htoken : (s.accept gap size).token =
      ⟨Text.byteLength (before ++ after.take gap), (after.drop gap).take size⟩ := by
    rw [Scanner.accept, hahead, Option.getD_some, Text.byteLength_append, hlength]
  rw [htoken, text_accept, Span.slice?, hcut]
  simp only [Token.span, Token.length, Token.text, Text.slice?, Text.dropBytes?_append,
    Option.bind_some, Text.takeBytes?_append, Option.map_some]

end Settled

/-! ## Outcomes of a match -/

/-- The later scanner holds a new token behind the trivia at the cursor of the earlier one. -/
structure Matched (s s' : Scanner) : Prop where
  text_eq : s'.text = s.text
  nonempty : 0 < s'.token.length
  stop_eq : s'.token.span.stop = s'.offset
  gap : ∃ cs, s.ahead = some cs ∧
    s'.token.start = s.offset + Text.byteLength (Trivia.skipped cs)

/-- A match fails and leaves the scanner as it was, or it succeeds with a new token. -/
inductive Attempt (s : Scanner) : Bool → Scanner → Prop where
  | missed : Attempt s false s
  | matched {s' : Scanner} : Matched s s' → Attempt s true s'

theorem chars_accept {s : Scanner} {cs : List Char} (hahead : s.ahead = some cs) (size : Nat) :
    (s.accept (Trivia.length cs) size).token.chars = (Trivia.rest cs).take size := by
  rw [accept, hahead, Option.getD_some, Trivia.rest]

/-- A match accepts a token behind the trivia ahead, or it does nothing. -/
inductive Outcome (s : Scanner) (cs : List Char) : Bool → Scanner → Prop where
  | missed : Outcome s cs false s
  | matched {size escapes : Nat} {s' : Scanner} : 0 < size → size ≤ (Trivia.rest cs).length →
      s' = { s.accept (Trivia.length cs) size with escapes := escapes } → Outcome s cs true s'

namespace Outcome

variable {s s' : Scanner} {cs : List Char} {found : Bool}

theorem attempt (h : Outcome s cs found s') (hahead : s.ahead = some cs) :
    Attempt s found s' := by
  cases h with
  | missed => exact .missed
  | @matched size escapes _ hpos hle heq =>
      subst heq
      refine .matched ⟨rfl, ?_, offset_accept _ size s, cs, hahead, ?_⟩
      · have hbytes := Text.length_le_byteLength ((Trivia.rest cs).take size)
        rw [List.length_take_of_le hle] at hbytes
        rw [Token.length, chars_accept hahead]
        omega
      · rw [accept, hahead, Option.getD_some, Trivia.skipped]

theorem settled (h : Outcome s cs found s') (hs : s.Settled) : s'.Settled := by
  cases h with
  | missed => exact hs
  | matched _ _ heq =>
      subst heq
      obtain ⟨hboundary, hle, htoken⟩ := hs.accept (Trivia.length cs) _
      exact ⟨hboundary, hle, htoken⟩

end Outcome

section Matches

variable {α : Type} {s : Scanner} {cs : List Char}

theorem outcome_measure {rule : Rule α} (hrule : rule.Sized) (hahead : s.ahead = some cs) :
    ∃ found s', measure rule s = .ok (found, s') ∧ Outcome s cs found.isSome s' := by
  rw [measure_of_ahead rule hahead]
  cases hmeasured : rule (Trivia.rest cs) with
  | none => exact ⟨none, s, rfl, .missed⟩
  | some measured =>
      obtain ⟨size, meaning⟩ := measured
      exact ⟨some meaning, _, rfl, .matched (hrule.pos hmeasured) (hrule.le hmeasured) rfl⟩

theorem outcome_recognise {measure : List Char → Option Nat}
    (hrule : (Rule.ofLength measure).Sized) (hahead : s.ahead = some cs) :
    ∃ found s', recognise measure s = .ok (found, s') ∧ Outcome s cs found s' := by
  obtain ⟨found, s', hmeasure, houtcome⟩ := outcome_measure hrule hahead
  refine ⟨found.isSome, s', ?_, houtcome⟩
  have hstep : Scanner.measure (fun cs => (measure cs).map (·, ())) s = .ok (found, s') := hmeasure
  simp only [recognise, hstep, bind, Except.bind, pure, Except.pure]

theorem outcome_firstOf (table : List (String × α)) (hahead : s.ahead = some cs) :
    ∃ found s', firstOf table s = .ok (found, s') ∧ Outcome s cs found.isSome s' := by
  rw [Grammar.firstOf_eq_measure table hahead]
  exact outcome_measure (Rule.sized_firstOf table) hahead

theorem quoted_of_passes (hahead : s.ahead = some cs) (h : Rule.quoted (Trivia.rest cs) = none) :
    quoted s = .ok (false, s) := by
  rw [Grammar.quoted_eq_measure, measure_of_ahead Rule.quoted hahead, h]
  rfl

theorem quoted_of_measured {size escapes : Nat} (hahead : s.ahead = some cs)
    (h : Rule.quoted (Trivia.rest cs) = some (size, escapes)) :
    quoted s = .ok (true, { s.accept (Trivia.length cs) size with escapes := escapes }) := by
  rw [Grammar.quoted_eq_measure, measure_of_ahead Rule.quoted hahead, h]
  rfl

theorem outcome_quoted (hahead : s.ahead = some cs) :
    ∃ found s', quoted s = .ok (found, s') ∧ Outcome s cs found s' := by
  cases hmeasured : Rule.quoted (Trivia.rest cs) with
  | none => exact ⟨false, s, quoted_of_passes hahead hmeasured, .missed⟩
  | some measured =>
      obtain ⟨size, escapes⟩ := measured
      exact ⟨true, _, quoted_of_measured hahead hmeasured,
        .matched (Rule.sized_quoted.pos hmeasured) (Rule.sized_quoted.le hmeasured) rfl⟩

/-- A quoted text that was found has a content. -/
theorem content?_of_quoted {s' : Scanner} (hahead : s.ahead = some cs)
    (h : quoted s = .ok (true, s')) : s'.token.content?.isSome = true := by
  cases hmeasured : Rule.quoted (Trivia.rest cs) with
  | none =>
      rw [quoted_of_passes hahead hmeasured] at h
      cases h
  | some measured =>
      obtain ⟨size, escapes⟩ := measured
      rw [quoted_of_measured hahead hmeasured] at h
      cases h
      have hagain : Rule.quoted ((s.accept (Trivia.length cs) size).token.chars ++
          (Trivia.rest cs).drop size) =
          some ((s.accept (Trivia.length cs) size).token.chars.length, escapes) := by
        rw [chars_accept hahead, List.take_append_drop,
          List.length_take_of_le (Rule.sized_quoted.le hmeasured), hmeasured]
      rw [Grammar.content?_quoted hagain]
      rfl

end Matches

/-! ## Matches -/

/-- What a scanner can try to match. -/
inductive Match where
  | phrase (literal : String)
  | char (expected : Char)
  | keyword (word : Keyword)
  | firstPhrase (literals : List String)
  | firstKeyword (keywords : List Keyword)
  | identifier (beginning : Bool)
  | quoted
  | number
  | block

/-- Whether a step has found something. -/
def finds {α : Type} (step : Scan (Option α)) : Scan Bool :=
  fun s => do
    let (found, s) ← step s
    return (found.isSome, s)

namespace Match

/-- Try a match. -/
def run : Match → Scan Bool
  | .phrase literal => Scanner.phrase literal
  | .char expected => Scanner.char expected
  | .keyword word => Scanner.keyword word
  | .firstPhrase literals => finds (firstOf (literals.map fun literal => (literal, literal)))
  | .firstKeyword keywords => finds (anyKeyword keywords)
  | .identifier beginning => Scanner.identifier beginning
  | .quoted => Scanner.quoted
  | .number => finds Scanner.number
  | .block => Scanner.block

end Match

theorem finds_of_ok {α : Type} {step : Scan (Option α)} {s s' : Scanner} {found : Option α}
    (h : step s = .ok (found, s')) : finds step s = .ok (found.isSome, s') := by
  simp only [finds, h, bind, Except.bind, pure, Except.pure]

/-- Every match has one of the two outcomes. -/
theorem Match.outcome {s : Scanner} {cs : List Char} (m : Match) (hahead : s.ahead = some cs) :
    ∃ found s', m.run s = .ok (found, s') ∧ Outcome s cs found s' := by
  cases m with
  | phrase literal => exact outcome_recognise (Rule.sized_phrase literal) hahead
  | char expected => exact outcome_recognise (Rule.sized_char expected) hahead
  | keyword word => exact outcome_recognise (Rule.sized_phrase word.text) hahead
  | firstPhrase literals =>
      obtain ⟨found, s', hrun, houtcome⟩ :=
        outcome_firstOf (literals.map fun literal => (literal, literal)) hahead
      exact ⟨found.isSome, s', finds_of_ok hrun, houtcome⟩
  | firstKeyword keywords =>
      obtain ⟨found, s', hrun, houtcome⟩ :=
        outcome_firstOf (keywords.map fun keyword => (keyword.text, keyword)) hahead
      exact ⟨found.isSome, s', finds_of_ok hrun, houtcome⟩
  | identifier beginning => exact outcome_recognise (Rule.sized_identifier beginning) hahead
  | quoted => exact outcome_quoted hahead
  | number =>
      obtain ⟨found, s', hrun, houtcome⟩ := outcome_measure Rule.sized_number hahead
      exact ⟨found.isSome, s', finds_of_ok hrun, houtcome⟩
  | block => exact outcome_recognise Rule.sized_block hahead

/-! ## Operations -/

/--
What a scanner can be asked for.  To look at its position, its token or a location
takes no step.
-/
inductive Operation where
  | attempt (m : Match)
  /-- The text between the quotes of the last token. -/
  | content
  /-- Whether the last token is one of some keywords. -/
  | isOneOf (keywords : List Keyword)
  | peek (expected : Char)
  | atEnd
  | next
  | goBack (count : Nat)
  | moveTo (position : Nat)
  /-- Go to the beginning of another text. -/
  | restart (text : String)

namespace Operation

/-- Take a step; where there is a yes or a no to it, that is the result. -/
def run : Operation → Scan Bool
  | .attempt m, s => m.run s
  | .content, s => do
      let _ ← s.content
      return (true, s)
  | .isOneOf keywords, s => .ok (s.token.isOneOf keywords, s)
  | .peek expected, s => s.peek expected
  | .atEnd, s => s.atEnd
  | .next, s => s.next
  | .goBack count, s => .ok (true, s.goBack count)
  | .moveTo position, s => .ok (true, s.moveTo position)
  | .restart text, _ => .ok (true, .ofText text)

/-- The step is a match of a quoted text. -/
def isQuoted : Operation → Bool
  | .attempt .quoted => true
  | _ => false

/--
The step may be taken: a cursor is set between two characters, and content is
asked for right behind a match of a quoted text.
-/
def isAllowed (fresh : Bool) (s : Scanner) : Operation → Bool
  | .content => fresh
  | .goBack count => (s.goBack count).ahead.isSome
  | .moveTo position => (s.moveTo position).ahead.isSome
  | _ => true

end Operation

/-- Take steps one after the other, up to a fault. -/
def runAll : List Operation → Scanner → Except Fault Scanner
  | [], s => .ok s
  | op :: ops, s => do
      let (_, s) ← op.run s
      runAll ops s

/--
Every step may be taken where it comes, up to a fault; `fresh` tells that a
quoted text was matched just before.
-/
def permits : (fresh : Bool) → List Operation → Scanner → Bool
  | _, [], _ => true
  | fresh, op :: ops, s =>
      op.isAllowed fresh s &&
        match op.run s with
        | .ok (found, s') => permits (op.isQuoted && found) ops s'
        | .error _ => true

section Steps

variable {s : Scanner}

/-- Whatever token comes next, the scanner accepts it. -/
theorem Settled.next (h : s.Settled) :
    ∃ found s', s.next = .ok (found, s') ∧ s'.Settled := by
  obtain ⟨cs, hahead⟩ := h.exists_ahead
  simp only [Scanner.next, read_of_ahead hahead, bind, Except.bind, pure, Except.pure]
  cases Quoted.size? (Trivia.rest cs) with
  | some size =>
      obtain ⟨hboundary, hle, htoken⟩ := h.accept (Trivia.length cs) size.length
      exact ⟨_, _, rfl, hboundary, hle, htoken⟩
  | none => exact ⟨_, _, rfl, h.accept _ _⟩

/-- A scanner whose cursor is set between two characters stays settled. -/
theorem Settled.of_isSome (h : s.Settled) {s' : Scanner} (hahead : s'.ahead.isSome = true)
    (htext : s'.text = s.text) (htoken : s'.token = s.token) : s'.Settled := by
  obtain ⟨cs, hcs⟩ := Option.isSome_iff_exists.mp hahead
  exact of_ahead hcs (by rw [htext, htoken, h.token])

/-- A step that may be taken is no fault and leaves a settled scanner. -/
theorem Settled.run (h : s.Settled) {fresh : Bool} {op : Operation}
    (hfresh : fresh = true → s.token.content?.isSome = true)
    (hallowed : op.isAllowed fresh s = true) :
    ∃ found s', op.run s = .ok (found, s') ∧ s'.Settled ∧
      ((op.isQuoted && found) = true → s'.token.content?.isSome = true) := by
  obtain ⟨cs, hahead⟩ := h.exists_ahead
  cases op with
  | attempt m =>
      obtain ⟨found, s', hrun, houtcome⟩ := m.outcome hahead
      refine ⟨found, s', hrun, houtcome.settled h, fun hquoted => ?_⟩
      cases m with
      | quoted =>
          obtain rfl : found = true := hquoted
          exact content?_of_quoted hahead hrun
      | _ => cases hquoted
  | content =>
      obtain ⟨cs, hcontent⟩ := Option.isSome_iff_exists.mp (hfresh hallowed)
      refine ⟨true, s, ?_, h, fun hquoted => by cases hquoted⟩
      simp only [Operation.run, content, hcontent, bind, Except.bind, pure, Except.pure]
  | isOneOf keywords => exact ⟨_, s, rfl, h, fun hquoted => by cases hquoted⟩
  | peek expected =>
      exact ⟨_, s, peek_of_ahead expected hahead, h, fun hquoted => by cases hquoted⟩
  | atEnd => exact ⟨_, s, atEnd_of_ahead hahead, h, fun hquoted => by cases hquoted⟩
  | next =>
      obtain ⟨found, s', hrun, hs'⟩ := h.next
      exact ⟨found, s', hrun, hs', fun hquoted => by cases hquoted⟩
  | goBack count =>
      exact ⟨true, _, rfl, h.of_isSome hallowed rfl rfl, fun hquoted => by cases hquoted⟩
  | moveTo position =>
      exact ⟨true, _, rfl, h.of_isSome hallowed rfl rfl, fun hquoted => by cases hquoted⟩
  | restart text => exact ⟨true, _, rfl, .ofText text, fun hquoted => by cases hquoted⟩

/-- Steps that may be taken are no faults and leave a settled scanner. -/
theorem Settled.runAll {ops : List Operation} {fresh : Bool} (h : s.Settled)
    (hfresh : fresh = true → s.token.content?.isSome = true)
    (hpermits : permits fresh ops s = true) : ∃ s', runAll ops s = .ok s' ∧ s'.Settled := by
  induction ops generalizing fresh s with
  | nil => exact ⟨s, rfl, h⟩
  | cons op ops ih =>
      rw [permits, Bool.and_eq_true] at hpermits
      obtain ⟨hallowed, hothers⟩ := hpermits
      obtain ⟨found, s₁, hrun, hs₁, hquoted⟩ := h.run hfresh hallowed
      rw [hrun] at hothers
      obtain ⟨s', hrunAll, hs'⟩ := ih hs₁ hquoted hothers
      refine ⟨s', ?_, hs'⟩
      simp only [Scanner.runAll, hrun, bind, Except.bind]
      exact hrunAll

end Steps

/--
Whatever a scanner is asked for, as long as its cursor is only set between
characters and content is only asked for right behind a match of a quoted text,
no step is a fault, and the cursor and the last token are cuts of the text.
From there every match either fails and leaves the scanner as it is, or puts a
token behind the trivia at the cursor and goes to its end; to look ahead leaves
the scanner as it is.
-/
theorem runAll_settled {text : String} {ops : List Operation}
    (h : permits false ops (ofText text) = true) :
    ∃ s, runAll ops (ofText text) = .ok s ∧ s.Settled ∧
      (∀ m : Match, ∃ found s', m.run s = .ok (found, s') ∧ Attempt s found s') ∧
      (∀ expected, ∃ found, s.peek expected = .ok (found, s)) ∧
      ∃ found, s.atEnd = .ok (found, s) := by
  obtain ⟨s, hrun, hs⟩ := (Settled.ofText text).runAll (fun hfresh => by cases hfresh) h
  obtain ⟨cs, hahead⟩ := hs.exists_ahead
  refine ⟨s, hrun, hs, fun m => ?_, fun expected => ⟨_, peek_of_ahead expected hahead⟩,
    _, atEnd_of_ahead hahead⟩
  obtain ⟨found, s', hmatch, houtcome⟩ := m.outcome hahead
  exact ⟨found, s', hmatch, houtcome.attempt hahead⟩

/-- A quoted text is matched and its content taken, and the cursor is set around a long character. -/
theorem runAll_settled_quoted :
    ∃ s, runAll [.attempt .quoted, .content, .moveTo 5, .goBack 3, .attempt (.char 'é'), .next]
        (ofText " 'é' x") = .ok s ∧ s.Settled ∧
      (∀ m : Match, ∃ found s', m.run s = .ok (found, s') ∧ Attempt s found s') ∧
      (∀ expected, ∃ found, s.peek expected = .ok (found, s)) ∧
      ∃ found, s.atEnd = .ok (found, s) :=
  runAll_settled (by decide +kernel)

end Scanner

end DocQuery
