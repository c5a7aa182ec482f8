import DocQuery.Proofs.Grammar.Extends
import DocQuery.Proofs.Grammar.Sound.Clause
import DocQuery.Proofs.Lexical.Gap
import DocQuery.Proofs.Scanner

/-!
# Where a text is refused

The location of an error belongs to one position between two characters of the
text, because later positions have later locations.  The token that the error
names starts there, and nothing but trivia is between the cursor and it.  All
errors come from one step, and sequences of steps pass them on.  The main
statement is `Query.exact_of_parse`.
-/

namespace DocQuery

open Lexical Grammar

/-! ## Locations -/

namespace Text

/-- The characters that begin before a cut are those in front of it. -/
theorem charsBefore_append (before after : List Char) :
    charsBefore (byteLength before) (before ++ after) = before := by
  induction before with
  | nil => cases after <;> rfl
  | cons c before ih =>
      have hpos := Char.utf8Size_pos c
      obtain ⟨n, hn⟩ := Nat.exists_eq_add_one_of_ne_zero (Nat.ne_of_gt hpos)
      have hrest : n + byteLength before + 1 - c.utf8Size = byteLength before := by omega
      rw [byteLength_cons, hn, Nat.add_right_comm, List.cons_append, charsBefore, hrest, ih]

end Text

namespace Location

/-- The first location comes earlier in a text than the second. -/
def Before (here there : Location) : Prop :=
  here.line < there.line ∨ here.line = there.line ∧ here.column < there.column

variable {here there : Location}

theorem Before.irrefl (h : Before here here) : False := by
  rcases h with h | ⟨-, h⟩ <;> exact Nat.lt_irrefl _ h

theorem before_next (h : Before here there ∨ here = there) (c : Char) :
    Before here (there.next c) := by
  rw [next]
  split
  · refine .inl (Nat.lt_succ_of_le ?_)
    rcases h with (h | ⟨h, -⟩) | rfl
    · exact Nat.le_of_lt h
    · exact Nat.le_of_eq h
    · exact Nat.le_refl _
  · rcases h with (h | ⟨h, hcolumn⟩) | rfl
    · exact .inl h
    · exact .inr ⟨h, Nat.lt_succ_of_lt hcolumn⟩
    · exact .inr ⟨rfl, Nat.lt_succ_self _⟩

/-- The location behind some characters comes later. -/
theorem before_foldl (h : Before here there ∨ here = there) {cs : List Char} (hne : cs ≠ []) :
    Before here (cs.foldl next there) := by
  induction cs generalizing there with
  | nil => exact absurd rfl hne
  | cons c cs ih =>
      have hnext := before_next h c
      by_cases hcs : cs = []
      · rw [hcs]
        exact hnext
      · exact ih (.inl hnext) hcs

/-- Of two beginnings of a text the longer one ends at a later location. -/
theorem eq_of_after_eq {before after before' after' : List Char}
    (htext : before ++ after = before' ++ after')
    (hlocation : Location.after before = Location.after before') : before = before' := by
  have hlonger : ∀ {passed more : List Char},
      Location.after passed = Location.after (passed ++ more) → more = [] := by
    intro passed more hsame
    rw [Location.after, Location.after, List.foldl_append] at hsame
    refine Decidable.byContradiction fun hne => ?_
    have hlater := before_foldl (.inr (Eq.refl (passed.foldl next first))) hne
    rw [← hsame] at hlater
    exact hlater.irrefl
  rcases List.append_eq_append_iff.mp htext with ⟨more, rfl, -⟩ | ⟨more, rfl, -⟩
  · rw [hlonger hlocation, List.append_nil]
  · rw [hlonger hlocation.symm, List.append_nil]

/-- Cuts of a text with one location are one cut. -/
theorem of_injective {text : String} {position other : Nat} {rest rest' : List Char}
    (hcut : Text.dropBytes? position text.toList = some rest)
    (hcut' : Text.dropBytes? other text.toList = some rest')
    (hlocation : Location.of text position = Location.of text other) : position = other := by
  obtain ⟨before, htext, rfl⟩ := Text.dropBytes?_eq_some_iff.mp hcut
  obtain ⟨before', htext', rfl⟩ := Text.dropBytes?_eq_some_iff.mp hcut'
  have hof : ∀ {before after : List Char}, text.toList = before ++ after →
      Location.of text (Text.byteLength before) = Location.after before := by
    intro before after htext
    rw [Location.of, htext, Text.charsBefore_append]
  rw [hof htext, hof htext'] at hlocation
  rw [eq_of_after_eq (htext ▸ htext') hlocation]

end Location

/-! ## Errors -/

/--
The error was found in the text at a place between two characters, behind a gap
from the cursor on and in front of the rest.
-/
structure SyntaxError.Exact (error : SyntaxError) (text : String) (place : Nat)
    (gap rest : List Char) : Prop where
  query : error.query = text
  cut : Text.dropBytes? place text.toList = some rest
  location : Location.of text place = error.location
  /-- No other cut of the text has the location. -/
  unique : ∀ other, (Text.dropBytes? other text.toList).isSome = true →
    Location.of text other = error.location → other = place
  found : ∀ token, error.found = some token → token ≠ "" ∧ token.toList <+: rest
  atEnd : error.found = none → place = text.utf8ByteSize
  /-- From the cursor to the place the text has the gap. -/
  between : Text.slice? error.cursor (place - error.cursor) text.toList = some gap
  cursor_le : error.cursor ≤ place
  gap : Trivia.Gap gap rest

namespace Scanner

/-- The scanner went over the trivia ahead and took what it could of the rest. -/
structure Next (s : Scanner) (cs : List Char) (size : Nat) (s' : Scanner) : Prop where
  text : s'.text = s.text
  start : s'.token.start = s.offset + Text.byteLength (Trivia.skipped cs)
  chars : s'.token.chars = (Trivia.rest cs).take size

theorem nextLength_pos {cs : List Char} (hne : cs ≠ []) : 0 < nextLength cs := by
  cases cs with
  | nil => exact absurd rfl hne
  | cons c cs =>
      have hget : ∀ {found : Option Nat}, (∀ size, found = some size → 0 < size) →
          0 < found.getD 1 := by
        intro found hfound
        cases found with
        | none => exact Nat.one_pos
        | some size => exact hfound size rfl
      rw [nextLength]
      refine hget fun size hsize => ?_
      split at hsize
      · obtain ⟨found, hfound, rfl⟩ := Option.map_eq_some_iff.mp hsize
        exact Rule.sized_number.pos hfound
      · exact Identifier.length?_pos hsize

/-- Whatever comes next is taken, and something is unless the text is at its end. -/
theorem next_of_ahead {s : Scanner} {cs : List Char} (hahead : s.ahead = some cs) :
    ∃ size s', s.next = .ok (!(Trivia.rest cs).isEmpty, s') ∧ s.Next cs size s' ∧
      (Trivia.rest cs ≠ [] → 0 < size) := by
  have haccept : ∀ size, s.Next cs size (s.accept (Trivia.length cs) size) := fun size =>
    ⟨rfl, by rw [accept, hahead, Option.getD_some, Trivia.skipped], chars_accept hahead size⟩
  simp only [next, read_of_ahead hahead, bind, Except.bind, pure, Except.pure]
  cases hquoted : Quoted.size? (Trivia.rest cs) with
  | none => exact ⟨_, _, rfl, haccept _, nextLength_pos⟩
  | some found =>
      have hmeasured : Rule.quoted (Trivia.rest cs) = some (found.length, found.escapes) := by
        rw [Rule.quoted, hquoted, Option.map_some]
      have hne : (Trivia.rest cs).isEmpty = false := by
        cases hrest : Trivia.rest cs with
        | cons c cs => rfl
        | nil =>
            rw [hrest, Rule.sized_quoted.nil] at hmeasured
            cases hmeasured
      obtain ⟨htext, hstart, hchars⟩ := haccept found.length
      rw [hne]
      exact ⟨found.length, _, rfl, ⟨htext, hstart, hchars⟩,
        fun _ => Rule.sized_quoted.pos hmeasured⟩

end Scanner

namespace Grammar

/-! ## Sequences of steps -/

/-- A run stays in the text if it comes to an end, and an error of the grammar is exact. -/
structure Located {α : Type} (text : String) (result : EStateM.Result Failure State α) : Prop where
  text_eq : ∀ {a : α} {s : State}, result = .ok a s → s.scanner.text = text
  exact : ∀ {error : SyntaxError} {s : State},
    result = .error (.rejected (.outsideGrammar error)) s →
      ∃ place gap rest, error.Exact text place gap rest

namespace Located

variable {α β : Type} {text : String} {s : State}

theorem answered (a : α) (h : s.scanner.text = text) : Located text (.ok a s) :=
  ⟨fun hresult => (by cases hresult; exact h), fun hresult => (by cases hresult)⟩

theorem failed {failure : Failure} (h : ∀ error, failure = .rejected (.outsideGrammar error) →
    ∃ place gap rest, error.Exact text place gap rest) :
    Located text (.error failure s : EStateM.Result Failure State α) :=
  ⟨fun hresult => (by cases hresult), fun hresult => (by cases hresult; exact h _ rfl)⟩

theorem bind {x : Read α} {f : α → Read β} (hx : Located text (x s))
    (hf : ∀ a s₁, s₁.scanner.text = text → Located text (f a s₁)) :
    Located text ((x >>= f) s) := by
  cases hresult : x s with
  | ok a s₁ =>
      rw [bind_of_ok f hresult]
      exact hf a s₁ (hx.text_eq hresult)
  | error failure s₁ =>
      rw [bind_of_error f hresult]
      exact failed fun error herror => hx.exact (herror ▸ hresult)

end Located

variable {α : Type}

/-- What is refused from between two characters is refused behind the trivia ahead. -/
theorem located_refuse_of_ahead (e : Expectation) {s : State} {cs : List Char}
    (hahead : s.scanner.ahead = some cs) : Located s.scanner.text ((refuse e : Read α) s) := by
  obtain ⟨size, scanner, hnext, ⟨htext, hstart, hchars⟩, hpos⟩ := Scanner.next_of_ahead hahead
  have hcut : Text.dropBytes? s.scanner.offset s.scanner.text.toList =
      some (Trivia.skipped cs ++ Trivia.rest cs) := by
    rw [← s.scanner.ahead_eq, hahead, Trivia.skipped_append_rest]
  have hplace := Text.dropBytes?_add hcut
  have hlocation : scanner.locationAt scanner.token.start = Location.of s.scanner.text
      (s.scanner.offset + Text.byteLength (Trivia.skipped cs)) := by
    rw [Scanner.locationAt, htext, hstart]
  have hrefuse : (refuse e : Read α) s = .error (.rejected (.outsideGrammar
      { expected := e, cursor := s.scanner.offset,
        location := scanner.locationAt scanner.token.start,
        found := if !(Trivia.rest cs).isEmpty then some scanner.token.text else none,
        query := scanner.text })) { s with scanner := scanner } :=
    (bind_of_ok _ (position_eq s)).trans (bind_of_ok _ (scan_of_ok hnext))
  rw [hrefuse]
  refine Located.failed fun error herror => ?_
  cases herror
  refine ⟨_, Trivia.skipped cs, Trivia.rest cs, htext, hplace, hlocation.symm, ?_, ?_, ?_, ?_,
    Nat.le_add_right _ _, Trivia.gap_skipped cs⟩
  · intro other hother hsame
    obtain ⟨rest, hrest⟩ := Option.isSome_iff_exists.mp hother
    exact Location.of_injective hrest hplace (hsame.trans hlocation)
  · intro token htoken
    split at htoken
    · next hmore =>
        cases htoken
        have hne : Trivia.rest cs ≠ [] := by simpa using hmore
        rw [Token.text, hchars]
        refine ⟨fun hempty => ?_, by simpa using List.take_prefix _ _⟩
        have hnone := congrArg String.toList hempty
        rw [String.toList_ofList] at hnone
        rcases List.take_eq_nil_iff.mp hnone with hsize | hrest
        · exact absurd hsize (Nat.ne_of_gt (hpos hne))
        · exact hne hrest
    · cases htoken
  · intro hnone
    have hend : Trivia.rest cs = [] := by simpa using hnone
    obtain ⟨before, htext, hlength⟩ := Text.dropBytes?_eq_some_iff.mp hplace
    rw [Text.utf8ByteSize_eq, htext, hend, List.append_nil, hlength]
  · rw [Text.slice?, hcut, Option.bind_some, Nat.add_sub_cancel_left, Text.takeBytes?_append]

theorem located_refuse (e : Expectation) (s : State) :
    Located s.scanner.text ((refuse e : Read α) s) := by
  cases hahead : s.scanner.ahead with
  | some cs => exact located_refuse_of_ahead e hahead
  | none =>
      have hnext : s.scanner.next = .error .cursorInCharacter := by
        simp only [Scanner.next, Scanner.read, hahead, Bind.bind, Except.bind]
      have hscan : scan Scanner.next s = .error (.fault .cursorInCharacter) s := by
        simp only [scan, hnext]
      have hrefuse : (refuse e : Read α) s = .error (.fault .cursorInCharacter) s :=
        (bind_of_ok _ (position_eq s)).trans (bind_of_error _ hscan)
      rw [hrefuse]
      exact Located.failed fun error herror => by cases herror

/-- A single step stays in the text or tells where it failed. -/
theorem Step.located {x : Read α} (h : Step x) (s : State) : Located s.scanner.text (x s) := by
  cases h with
  | ask f => exact .answered _ rfl
  | change f htext => exact .answered () (htext s)
  | @scan _ step hkeeps =>
      cases hstep : step s.scanner with
      | ok found =>
          rw [scan_of_ok hstep]
          exact .answered _ (hkeeps _ _ _ hstep)
      | error fault =>
          simp only [Grammar.scan, hstep]
          exact .failed fun error herror => by cases herror
  | refuse e => exact located_refuse e s
  | decline cause => exact .failed fun error herror => by cases herror
  | fault fault => exact .failed fun error herror => by cases herror

/-- A reader that is a sequence of steps stays in the text or tells where it failed. -/
theorem Extends.located {x y : Read α} (h : Extends x y) (s : State) :
    Located s.scanner.text (x s) := by
  induction h generalizing s with
  | step hstep => exact hstep.located s
  | bind _ _ ihx ihf =>
      refine (ihx s).bind fun a s₁ htext => ?_
      rw [← htext]
      exact ihf a s₁
  | outOfFuel _ => exact .failed fun error herror => by cases herror

end Grammar

/--
A text that is outside of the grammar is refused at exactly one place.  The
location of the error belongs to this cut of the text and to no other; the token
that the error names starts there, or it names none and the text ends there; and
from the cursor to there the text has only white space and comments.
-/
theorem Query.exact_of_parse {kind : QueryKind} {limits : Limits} {text : String}
    {error : SyntaxError}
    (h : parse kind limits text = .error (.rejected (.outsideGrammar error))) :
    ∃ place gap rest, error.Exact text place gap rest := by
  have hlocated := (extends_query limits kind (Nat.le_refl (Session.fuelFor text))).located
    ⟨.ofText text, 0, 0⟩
  rw [parse_eq] at h
  split at h
  · cases h
  · next failure s hresult =>
      cases h
      exact hlocated.exact hresult

/-- A clause without a condition is refused at a comma behind a comment in another line. -/
theorem Query.exact_of_parse_comma :
    ∃ error, parse .select {} "FROM é WHERE -- x\n , a" =
        .error (.rejected (.outsideGrammar error)) ∧
      error.location = ⟨2, 2⟩ ∧
      ∃ place gap rest, error.Exact "FROM é WHERE -- x\n , a" place gap rest := by
  have hcheck : (match parse .select {} "FROM é WHERE -- x\n , a" with
      | .error (.rejected (.outsideGrammar error)) => decide (error.location = ⟨2, 2⟩)
      | _ => false) = true := by
    decide +kernel
  split at hcheck
  · next error hparse => exact ⟨error, hparse, of_decide_eq_true hcheck, exact_of_parse hparse⟩
  · cases hcheck

end DocQuery
