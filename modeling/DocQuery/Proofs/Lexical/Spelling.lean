import DocQuery.Proofs.Lexical.Brace
import DocQuery.Proofs.Lexical.Gap

/-!
# How a phrase is spelled

The words of a phrase stand in a text one after the other, in any case, with as
much trivia between two of them as there is, but not without any.  The measure
of a phrase finds exactly this.  Of two phrases whose first words differ, neither
the head of the other, only one can be spelled at a place, so the first phrase of
a table that fits is the longest if such pairs are in order.  The main statements
are `Phrase.length?_eq_some_iff` and `Rule.firstOf_longest`.
-/

namespace DocQuery.Lexical

open Text

/-! ## All the trivia at a place -/

namespace Trivia

/-- A gap in front of the rest that no longer gap at this place goes beyond. -/
structure Longest (gap rest : List Char) : Prop where
  isGap : Gap gap rest
  longest : ∀ {other more : List Char}, other ++ more = gap ++ rest → Gap other more →
    other.length ≤ gap.length

variable {gap rest : List Char}

/-- What is skipped is the longest gap. -/
theorem longest_skipped (cs : List Char) : Longest (skipped cs) (Trivia.rest cs) := by
  refine ⟨gap_skipped cs, fun {other more} hcut hother => ?_⟩
  rw [skipped_append_rest] at hcut
  rw [length_skipped, ← hcut, hother.length_append]
  exact Nat.le_add_right _ _

theorem Longest.length_eq (h : Longest gap rest) : Trivia.length (gap ++ rest) = gap.length := by
  refine Nat.le_antisymm ?_ ?_
  · rw [← length_skipped]
    exact h.longest (skipped_append_rest _) (gap_skipped _)
  · rw [h.isGap.length_append]
    exact Nat.le_add_right _ _

theorem Longest.rest_eq (h : Longest gap rest) : Trivia.rest (gap ++ rest) = rest := by
  rw [Trivia.rest, h.length_eq, List.drop_left]

end Trivia

/-- What stands in front of a token is all the trivia at its place. -/
theorem Takes.exists_longest {α : Type} {rule : Rule α} {cs token rest : List Char} {a : α}
    (h : Takes rule cs token a rest) :
    ∃ gap, cs = gap ++ (token ++ rest) ∧ Trivia.Longest gap (token ++ rest) := by
  refine ⟨Trivia.skipped cs, ?_, ?_⟩
  · rw [← h.split, Trivia.skipped_append_rest]
  · rw [← h.split]
    exact Trivia.longest_skipped cs

/-! ## Words and phrases -/

namespace Phrase

/-- A piece of the text is the word in some case, and no name goes on behind it. -/
structure IsSpelled (word piece after : List Char) : Prop where
  same : piece.map Char.toLower = word.map Char.toLower
  ends : ∀ c, piece.getLast? = some c → Identifier.isPart c = true → Identifier.NoPart after

/-- The token is the words in some case, with all the trivia between two of them. -/
inductive Spelling : (words : List (List Char)) → (token rest : List Char) → Prop where
  | last {word piece rest : List Char} : IsSpelled word piece rest →
      Spelling [word] piece rest
  | more {word piece gap token rest : List Char} {words : List (List Char)} :
      IsSpelled word piece (gap ++ (token ++ rest)) → gap ≠ [] →
      Trivia.Longest gap (token ++ rest) → Spelling words token rest →
      Spelling (word :: words) (piece ++ (gap ++ token)) rest

variable {word piece token after rest cs : List Char} {words : List (List Char)} {n : Nat}

theorem IsSpelled.length_eq (h : IsSpelled word piece after) : piece.length = word.length := by
  simpa using congrArg List.length h.same

/-- Whether a name may go on behind a word does not depend on the case of the word. -/
theorem runsOn_eq_false_iff (hsame : piece.map Char.toLower = word.map Char.toLower) :
    runsOn word after = false ↔
      ∀ c, piece.getLast? = some c → Identifier.isPart c = true → Identifier.NoPart after := by
  have hlast : word.getLast?.any Identifier.isPart = piece.getLast?.any Identifier.isPart := by
    have hlower := congrArg List.getLast? hsame
    rw [List.getLast?_map, List.getLast?_map] at hlower
    cases hword : word.getLast? with
    | none =>
        rw [hword, Option.map_none, Option.map_eq_none_iff] at hlower
        rw [hlower]
    | some d =>
        rw [hword, Option.map_some] at hlower
        obtain ⟨c, hpiece, hletter⟩ := Option.map_eq_some_iff.mp hlower
        rw [hpiece]
        exact (Identifier.isPart_of_sameLetter (beq_iff_eq.mpr hletter)).symm
  rw [runsOn, hlast, Bool.and_eq_false_iff, Identifier.NoPart]
  cases piece.getLast? with
  | none => simp
  | some c =>
      cases hpart : Identifier.isPart c <;> simp [hpart]

/-- A word matches where a piece of its length spells it. -/
theorem wordMatches_iff :
    wordMatches word cs = true ↔ ∃ piece after, cs = piece ++ after ∧ IsSpelled word piece after := by
  rw [wordMatches, Bool.and_eq_true, Bool.not_eq_true', startsWithWord_iff]
  constructor
  · rintro ⟨⟨piece, after, rfl, hlength, hsame⟩, hruns⟩
    have hlower := (sameWord_iff.mp hsame).symm
    rw [← hlength, List.drop_left] at hruns
    exact ⟨piece, after, rfl, hlower, (runsOn_eq_false_iff hlower).mp hruns⟩
  · rintro ⟨piece, after, rfl, hspelled⟩
    refine ⟨⟨piece, after, rfl, hspelled.length_eq, sameWord_iff.mpr hspelled.same.symm⟩, ?_⟩
    rw [← hspelled.length_eq, List.drop_left]
    exact (runsOn_eq_false_iff hspelled.same).mpr hspelled.ends

/-- The first word of a phrase is spelled, and the others behind it. -/
theorem length?_cons_iff : length? (word :: words) cs = some n ↔
    ∃ piece after m, cs = piece ++ after ∧ IsSpelled word piece after ∧
      tailLength? words after = some m ∧ n = piece.length + m := by
  rw [length?]
  constructor
  · intro h
    split at h
    · next hword =>
        obtain ⟨m, hm, rfl⟩ := Option.map_eq_some_iff.mp h
        obtain ⟨piece, after, rfl, hspelled⟩ := wordMatches_iff.mp hword
        rw [← hspelled.length_eq, List.drop_left] at hm
        exact ⟨piece, after, m, rfl, hspelled, hm, by rw [hspelled.length_eq]⟩
    · cases h
  · rintro ⟨piece, after, m, rfl, hspelled, hm, rfl⟩
    rw [if_pos (wordMatches_iff.mpr ⟨piece, after, rfl, hspelled⟩), ← hspelled.length_eq,
      List.drop_left, hm, Option.map_some]

/-- The words behind another one are a phrase behind trivia. -/
theorem tailLength?_cons (word : List Char) (words : List (List Char)) (cs : List Char) :
    tailLength? (word :: words) cs = if Trivia.length cs = 0 then none
      else (length? (word :: words) (Trivia.rest cs)).map (Trivia.length cs + ·) := by
  rw [tailLength?, length?]
  split
  · rfl
  · split
    · rw [Option.map_map]
      congr 1
      funext m
      exact Nat.add_assoc _ _ _
    · rfl

theorem tailLength?_cons_iff : tailLength? (word :: words) cs = some n ↔
    ∃ gap more m, cs = gap ++ more ∧ gap ≠ [] ∧ Trivia.Longest gap more ∧
      length? (word :: words) more = some m ∧ n = gap.length + m := by
  rw [tailLength?_cons]
  constructor
  · intro h
    split at h
    · cases h
    · next hgap =>
        obtain ⟨m, hm, rfl⟩ := Option.map_eq_some_iff.mp h
        rw [← Trivia.length_skipped, List.length_eq_zero_iff] at hgap
        exact ⟨_, _, m, (Trivia.skipped_append_rest cs).symm, hgap, Trivia.longest_skipped cs, hm,
          by rw [Trivia.length_skipped]⟩
  · rintro ⟨gap, more, m, rfl, hne, hlongest, hm, rfl⟩
    rw [hlongest.length_eq, hlongest.rest_eq, if_neg (mt List.length_eq_zero_iff.mp hne), hm,
      Option.map_some]

/-- The measure of a phrase is the length of the token that spells its words. -/
theorem length?_eq_some_iff : length? words cs = some n ↔
    ∃ token rest, cs = token ++ rest ∧ Spelling words token rest ∧ n = token.length := by
  induction words generalizing cs n with
  | nil =>
      constructor
      · exact fun h => by cases h
      · rintro ⟨token, rest, -, hspelling, -⟩
        cases hspelling
  | cons word words ih =>
      rw [length?_cons_iff]
      cases words with
      | nil =>
          constructor
          · rintro ⟨piece, after, m, rfl, hspelled, hm, rfl⟩
            cases hm
            exact ⟨piece, after, rfl, .last hspelled, rfl⟩
          · rintro ⟨token, rest, rfl, hspelling, rfl⟩
            cases hspelling with
            | last hspelled => exact ⟨token, rest, 0, rfl, hspelled, rfl, rfl⟩
            | more _ _ _ hnone => cases hnone
      | cons next words =>
          constructor
          · rintro ⟨piece, after, m, rfl, hspelled, hm, rfl⟩
            obtain ⟨gap, more, k, rfl, hne, hlongest, hk, rfl⟩ :=
              tailLength?_cons_iff.mp hm
            obtain ⟨token, rest, rfl, hspelling, rfl⟩ := ih.mp hk
            exact ⟨piece ++ (gap ++ token), rest, by simp, .more hspelled hne hlongest hspelling,
              by simp⟩
          · rintro ⟨token, rest, rfl, hspelling, rfl⟩
            cases hspelling with
            | @more _ piece gap token _ _ hspelled hne hlongest hspelling =>
                refine ⟨piece, gap ++ (token ++ rest), gap.length + token.length, by simp,
                  hspelled, ?_, by simp⟩
                exact tailLength?_cons_iff.mpr
                  ⟨gap, _, _, rfl, hne, hlongest, ih.mpr ⟨token, rest, rfl, hspelling, rfl⟩, rfl⟩

/-! ## Phrases at one place -/

/-- One word is the head of the other one in some case. -/
def overlaps (first second : List Char) : Bool :=
  startsWithWord first second || startsWithWord second first

theorem overlaps_of_startsWithWord {first second : List Char}
    (hfirst : startsWithWord first cs = true) (hsecond : startsWithWord second cs = true) :
    overlaps first second = true := by
  induction first generalizing second cs with
  | nil => simp [overlaps, startsWithWord]
  | cons c first ih =>
      cases second with
      | nil => simp [overlaps, startsWithWord]
      | cons d second =>
          cases cs with
          | nil => cases hfirst
          | cons e cs =>
              simp only [startsWithWord, sameLetter, Bool.and_eq_true, beq_iff_eq] at hfirst hsecond
              have htail := ih hfirst.2 hsecond.2
              simp only [overlaps, startsWithWord, sameLetter] at htail ⊢
              simpa [hfirst.1, hsecond.1] using htail

/--
Where both of two phrases could be spelled, they are one word each and the
earlier one is the longer.
-/
def inOrder (earlier later : String) : Bool :=
  match Text.words earlier.toList, Text.words later.toList with
  | first :: firsts, second :: seconds =>
      !overlaps first second ||
        (firsts.isEmpty && seconds.isEmpty && second.length < first.length &&
          later.length < earlier.length)
  | _, _ => true

theorem startsWithWord_of_length? (h : length? (word :: words) cs = some n) :
    startsWithWord word cs = true := by
  obtain ⟨piece, after, -, rfl, hspelled, -, -⟩ := length?_cons_iff.mp h
  exact startsWithWord_iff.mpr
    ⟨piece, after, rfl, hspelled.length_eq, sameWord_iff.mpr hspelled.same.symm⟩

theorem longer_of_inOrder {earlier later : String} {m : Nat} (horder : inOrder earlier later = true)
    (hearlier : length? (Text.words earlier.toList) cs = some n)
    (hlater : length? (Text.words later.toList) cs = some m) :
    m < n ∧ later.length < earlier.length := by
  cases hfirst : Text.words earlier.toList with
  | nil =>
      rw [hfirst] at hearlier
      cases hearlier
  | cons first firsts =>
      cases hsecond : Text.words later.toList with
      | nil =>
          rw [hsecond] at hlater
          cases hlater
      | cons second seconds =>
          rw [hfirst] at hearlier
          rw [hsecond] at hlater
          have hoverlaps := overlaps_of_startsWithWord (startsWithWord_of_length? hearlier)
            (startsWithWord_of_length? hlater)
          simp only [inOrder, hfirst, hsecond, hoverlaps, Bool.not_true, Bool.false_or,
            Bool.and_eq_true, List.isEmpty_iff, decide_eq_true_eq] at horder
          obtain ⟨⟨⟨rfl, rfl⟩, hwords⟩, hliterals⟩ := horder
          obtain ⟨piece, _, _, -, hpiece, hnone, rfl⟩ := length?_cons_iff.mp hearlier
          obtain ⟨piece', _, _, -, hpiece', hnone', rfl⟩ := length?_cons_iff.mp hlater
          cases hnone
          cases hnone'
          rw [hpiece.length_eq, hpiece'.length_eq]
          exact ⟨hwords, hliterals⟩

end Phrase

namespace Rule

variable {α : Type} {table : List (String × α)} {cs : List Char} {n : Nat} {a : α}

theorem firstOf_eq_none_iff : firstOf table cs = none ↔
    ∀ entry ∈ table, Phrase.length? (Text.words entry.1.toList) cs = none := by
  induction table with
  | nil => simp [firstOf]
  | cons entry table ih =>
      rw [firstOf, List.forall_mem_cons]
      cases hentry : Phrase.length? (Text.words entry.1.toList) cs with
      | none => simp [ih]
      | some m => simp

/-- What a table finds is the first of its phrases that fits. -/
theorem firstOf_split (h : firstOf table cs = some (n, a)) :
    ∃ before literal after, table = before ++ (literal, a) :: after ∧
      Phrase.length? (Text.words literal.toList) cs = some n ∧
      ∀ entry ∈ before, Phrase.length? (Text.words entry.1.toList) cs = none := by
  induction table with
  | nil => cases h
  | cons entry table ih =>
      rw [firstOf] at h
      cases hentry : Phrase.length? (Text.words entry.1.toList) cs with
      | none =>
          rw [hentry] at h
          obtain ⟨before, literal, after, rfl, hlength, hbefore⟩ := ih h
          exact ⟨entry :: before, literal, after, rfl, hlength,
            List.forall_mem_cons.mpr ⟨hentry, hbefore⟩⟩
      | some m =>
          rw [hentry] at h
          cases h
          exact ⟨[], entry.1, table, rfl, hentry, by simp⟩

/-- In a table that is in order every other phrase that fits is shorter than the one found. -/
theorem firstOf_longest (horder : (table.map Prod.fst).Pairwise fun x y => Phrase.inOrder x y = true)
    (h : firstOf table cs = some (n, a)) :
    ∃ literal, (literal, a) ∈ table ∧ Phrase.length? (Text.words literal.toList) cs = some n ∧
      ∀ {other b m}, (other, b) ∈ table → Phrase.length? (Text.words other.toList) cs = some m →
        (other, b) = (literal, a) ∨ (m < n ∧ other.length < literal.length) := by
  obtain ⟨before, literal, after, rfl, hlength, hbefore⟩ := firstOf_split h
  refine ⟨literal, by simp, hlength, fun {other b m} hmem hother => ?_⟩
  rcases List.mem_append.mp hmem with hmem | hmem
  · rw [hbefore _ hmem] at hother
    cases hother
  · rcases List.mem_cons.mp hmem with heq | hmem
    · exact Or.inl heq
    · rw [List.map_append, List.map_cons, List.pairwise_append, List.pairwise_cons] at horder
      obtain ⟨-, ⟨hafter, -⟩, -⟩ := horder
      exact Or.inr (Phrase.longer_of_inOrder
        (hafter other (List.mem_map_of_mem hmem)) hlength hother)

end Rule

end DocQuery.Lexical
