import DocQuery.Grammar.Condition
import DocQuery.Proofs.Lexical.Boundary
import DocQuery.Proofs.Lexical.Numeral

/-!
# Tokens in front of a brace

An opening brace is part of no token but a script, so a token in front of one is
measured alike whatever follows the brace.  A rule is settled if it has this
property wherever it is applied.  A quoted text is not settled, as it may close
behind the brace, and neither is a phrase of several words, because of comments
between the words; but what these find in front of the brace they always find.
-/

namespace DocQuery.Lexical

open Text

variable {piece t t' : List Char}

/-! ## Trivia -/

namespace Trivia

/-- Whether trivia comes first is seen from two characters. -/
theorem length_eq_zero_iff {c d : Char} {cs : List Char} :
    length (c :: d :: cs) = 0 ↔ isBlank c = false ∧ ¬(c = '-' ∧ d = '-') ∧
      ¬(c = '/' ∧ (d = '/' ∨ d = '*')) := by
  rw [length, lengthFrom.eq_def]
  split
  · simp_all
  · simp_all
  · simp_all
  · simp_all
  · next hminus hslash hstar _ heq =>
      obtain ⟨rfl, rfl⟩ := List.cons.inj heq
      have hdashes : ¬(c = '-' ∧ d = '-') := fun h => hminus cs h.1 (by rw [h.2])
      have hcomment : ¬(c = '/' ∧ (d = '/' ∨ d = '*')) := by
        rintro ⟨hc, hd | hd⟩
        · exact hslash cs hc (by rw [hd])
        · exact hstar cs hc (by rw [hd])
      split
      · next hblank => simp [hblank]
      · next hblank => exact ⟨fun _ => ⟨by simpa using hblank, hdashes, hcomment⟩, fun _ => rfl⟩
  · simp_all
  · simp_all
  · simp_all

theorem rest_eq_self_iff {cs : List Char} : rest cs = cs ↔ length cs = 0 := by
  constructor
  · intro h
    have hcut := congrArg List.length h
    have hle := lengthFrom_le .between cs
    rw [rest, List.length_drop] at hcut
    simp only [length] at *
    omega
  · intro h
    rw [rest, h, List.drop_zero]

/-- There is no trivia behind the trivia. -/
theorem rest_rest (cs : List Char) : rest (rest cs) = rest cs := by
  by_cases hnil : rest cs = []
  · rw [hnil, rest_nil]
  · rw [rest_eq_self_iff]
    have hcut := skipped_append_rest cs
    have hall := @lengthFrom_append .between (skipped cs) (rest cs) (by
      rw [hcut, length_skipped, length]) hnil (rest cs)
    rw [hcut, length_skipped, length] at hall
    rw [length]
    omega

/-- There is no trivia in front of a piece, whatever follows the brace behind it. -/
theorem rest_brace (h : rest (piece ++ '{' :: t) = piece ++ '{' :: t) :
    rest (piece ++ '{' :: t') = piece ++ '{' :: t' := by
  cases piece with
  | nil => exact rest_solid t' (by decide)
  | cons c piece =>
      rw [rest_eq_self_iff] at h ⊢
      cases piece with
      | nil => exact length_eq_zero_iff.mpr (length_eq_zero_iff.mp h)
      | cons d piece => exact length_eq_zero_iff.mpr (length_eq_zero_iff.mp h)

/-- Trivia that ends in front of a brace ends there whatever follows the brace. -/
theorem length_brace (h : length (piece ++ '{' :: t) ≤ piece.length) :
    length (piece ++ '{' :: t') = length (piece ++ '{' :: t) := by
  generalize hn : length (piece ++ '{' :: t) = n at h
  obtain ⟨gap, more, rfl, hgap⟩ : ∃ gap more, piece = gap ++ more ∧ gap.length = n :=
    ⟨piece.take n, piece.drop n, (List.take_append_drop n piece).symm, List.length_take_of_le h⟩
  rw [List.append_assoc] at hn
  have hall := lengthFrom_append (hn.trans hgap.symm) (by simp)
  have hnone := hall (more ++ '{' :: t)
  rw [← length, ← length, hn] at hnone
  have hagain := rest_eq_self_iff.mp (@rest_brace more t t' (rest_eq_self_iff.mpr (by omega)))
  rw [List.append_assoc, length, hall, ← length, hagain, hgap, Nat.add_zero]

end Trivia

/-! ## Phrases -/

namespace Phrase

/-- No letter of the word is a brace. -/
def isPlain (word : List Char) : Bool :=
  word.all fun c => !sameLetter c '{'

theorem startsWithWord_brace {word : List Char} (hword : isPlain word = true) :
    startsWithWord word (piece ++ '{' :: t) = startsWithWord word (piece ++ '{' :: t') ∧
      (startsWithWord word (piece ++ '{' :: t) = true → word.length ≤ piece.length) := by
  induction word generalizing piece with
  | nil => exact ⟨rfl, fun _ => Nat.zero_le _⟩
  | cons c word ih =>
      simp only [isPlain, List.all_cons, Bool.and_eq_true, Bool.not_eq_true'] at hword
      cases piece with
      | nil => simp [startsWithWord, hword.1]
      | cons d piece =>
          obtain ⟨hsame, hlength⟩ := @ih piece hword.2
          simp only [List.cons_append, startsWithWord, hsame, Bool.and_eq_true, List.length_cons,
            true_and]
          exact fun h => Nat.succ_le_succ (hlength (hsame.trans h.2))

theorem wordMatches_brace {word : List Char} (hword : isPlain word = true) :
    wordMatches word (piece ++ '{' :: t) = wordMatches word (piece ++ '{' :: t') := by
  obtain ⟨hsame, hlength⟩ := @startsWithWord_brace piece t t' word hword
  rw [wordMatches, wordMatches, ← hsame]
  cases hstarts : startsWithWord word (piece ++ '{' :: t) with
  | false => rfl
  | true =>
      have hle := hlength hstarts
      rw [Bool.true_and, Bool.true_and, runsOn, runsOn, List.drop_append_of_le_length hle,
        List.drop_append_of_le_length hle]
      cases piece.drop word.length <;> rfl

theorem drop_of_wordMatches {word : List Char} (hword : isPlain word = true)
    (h : wordMatches word (piece ++ '{' :: t) = true) :
    word.length ≤ piece.length ∧ ∀ t,
      (piece ++ '{' :: t).drop word.length = piece.drop word.length ++ '{' :: t := by
  simp only [wordMatches, Bool.and_eq_true] at h
  have hle := (@startsWithWord_brace piece t t word hword).2 h.1
  exact ⟨hle, fun t => List.drop_append_of_le_length hle⟩

theorem tailLength?_brace {words : List (List Char)} {n : Nat}
    (hwords : ∀ word ∈ words, isPlain word = true)
    (h : tailLength? words (piece ++ '{' :: t) = some n) (hn : n ≤ piece.length) :
    tailLength? words (piece ++ '{' :: t') = some n := by
  induction words generalizing piece n with
  | nil => exact h
  | cons word words ih =>
      have hword := hwords word List.mem_cons_self
      rw [tailLength?] at h
      split at h
      · cases h
      · next hblank =>
        split at h
        · next hmatch =>
          obtain ⟨m, hm, rfl⟩ := Option.map_eq_some_iff.mp h
          have hle : Trivia.length (piece ++ '{' :: t) ≤ piece.length := by omega
          have hlength := @Trivia.length_brace piece t t' hle
          have hrest : ∀ t', Trivia.length (piece ++ '{' :: t') =
              Trivia.length (piece ++ '{' :: t) → Trivia.rest (piece ++ '{' :: t') =
                piece.drop (Trivia.length (piece ++ '{' :: t)) ++ '{' :: t' := by
            intro t' hsame
            rw [Trivia.rest, hsame, List.drop_append_of_le_length hle]
          rw [hrest t rfl] at hm hmatch
          obtain ⟨hword', hdrop⟩ := drop_of_wordMatches hword hmatch
          rw [hdrop] at hm
          rw [List.length_drop] at hword'
          have hagain := ih (fun w hw => hwords w (List.mem_cons_of_mem _ hw)) hm (by
            rw [List.length_drop, List.length_drop]
            omega)
          rw [tailLength?, hlength, if_neg hblank, hrest t' hlength,
            ← wordMatches_brace hword, if_pos hmatch, hdrop, hagain]
          rfl
        · cases h

/-- A phrase that ends in front of the brace is found whatever follows the brace. -/
theorem length?_brace {words : List (List Char)} {n : Nat}
    (hwords : ∀ word ∈ words, isPlain word = true)
    (h : length? words (piece ++ '{' :: t) = some n) (hn : n ≤ piece.length) :
    length? words (piece ++ '{' :: t') = some n := by
  cases words with
  | nil => cases h
  | cons word words =>
      have hword := hwords word List.mem_cons_self
      rw [length?] at h
      split at h
      · next hmatch =>
        obtain ⟨m, hm, rfl⟩ := Option.map_eq_some_iff.mp h
        obtain ⟨hle, hdrop⟩ := drop_of_wordMatches hword hmatch
        rw [hdrop] at hm
        have hagain := @tailLength?_brace _ t t' words m
          (fun w hw => hwords w (List.mem_cons_of_mem _ hw)) hm (by
            rw [List.length_drop]
            omega)
        rw [length?, ← wordMatches_brace hword, if_pos hmatch, hdrop, hagain]
        rfl
      · cases h

end Phrase

/-! ## Settled rules -/

/-- What the rule finds in front of a brace does not depend on what follows the brace. -/
structure Rule.Settled {α : Type} (rule : Rule α) : Prop where
  eq : ∀ (piece t t' : List Char), rule (piece ++ '{' :: t) = rule (piece ++ '{' :: t')

namespace Rule

theorem settled_char (c : Char) : Settled (char c) := by
  constructor
  intro piece t t'
  cases piece with
  | nil => rfl
  | cons d piece => rfl

theorem settled_identifier (beginning : Bool) : Settled (identifier beginning) := by
  constructor
  intro piece t t'
  cases piece with
  | nil => cases beginning <;> rfl
  | cons d piece =>
      simp only [identifier, ofLength, List.cons_append, Identifier.length?]
      have htake : ∀ t, (piece ++ '{' :: t).takeWhile Identifier.isPart =
          piece.takeWhile Identifier.isPart := by
        intro t
        induction piece with
        | nil => rfl
        | cons e piece ih => rw [List.cons_append, List.takeWhile_cons, List.takeWhile_cons, ih]
      rw [htake, htake]

theorem settled_number : Settled number :=
  ⟨fun piece t t' =>
    (@Numeral.size?_apart piece ('{' :: t) rfl).trans
      (@Numeral.size?_apart piece ('{' :: t') rfl).symm⟩

/-- A table of single words is settled. -/
theorem settled_firstOf {α : Type} {table : List (String × α)}
    (h : ∀ entry ∈ table, ∃ word, words entry.1.toList = [word] ∧ Phrase.isPlain word = true) :
    Settled (firstOf table) := by
  constructor
  intro piece t t'
  induction table with
  | nil => rfl
  | cons entry table ih =>
      obtain ⟨literal, meaning⟩ := entry
      obtain ⟨word, hwords, hword⟩ := h _ List.mem_cons_self
      have hsame := @Phrase.wordMatches_brace piece t t' word hword
      simp only [firstOf, hwords, Phrase.length?, Phrase.tailLength?, hsame,
        ih fun entry hmem => h entry (List.mem_cons_of_mem _ hmem)]

theorem isPlain_text (keyword : Keyword) : Phrase.isPlain keyword.text.toList = true := by
  cases keyword <;> decide

theorem settled_anyKeyword {keywords : List Keyword}
    (h : ∀ keyword ∈ keywords, keyword.isSingle = true) : Settled (anyKeyword keywords) := by
  refine settled_firstOf fun entry hmem => ?_
  obtain ⟨keyword, hkeyword, rfl⟩ := List.mem_map.mp hmem
  exact ⟨keyword.text.toList, Keyword.words_of_isSingle (h keyword hkeyword),
    isPlain_text keyword⟩

theorem settled_keyword {keyword : Keyword} (h : keyword.isSingle = true) :
    Settled (Rule.keyword keyword) := by
  constructor
  intro piece t t'
  have hwords : words keyword.text.toList = [keyword.text.toList] := Keyword.words_of_isSingle h
  simp only [Rule.keyword, phrase, ofLength, hwords, Phrase.length?, Phrase.tailLength?,
    @Phrase.wordMatches_brace piece t t' _ (isPlain_text keyword)]

/-! ## Operators -/

open Grammar

/-- The operators of tests that are one word each; they come first. -/
def plainTests : List (String × Test) :=
  tests.dropLast

theorem settled_plainTests : Settled (firstOf plainTests) := by
  have hplain : ∀ entry ∈ plainTests, words entry.1.toList = [entry.1.toList] ∧
      Phrase.isPlain entry.1.toList = true := by
    decide
  exact settled_firstOf fun entry hmem => ⟨_, hplain entry hmem⟩

theorem firstOf_append {α : Type} (table more : List (String × α)) (cs : List Char) :
    firstOf (table ++ more) cs = (firstOf table cs).or (firstOf more cs) := by
  induction table with
  | nil => rfl
  | cons entry table ih =>
      obtain ⟨literal, meaning⟩ := entry
      rw [List.cons_append, firstOf, firstOf, ih]
      split <;> rfl

theorem firstOf_map {α β : Type} (f : α → β) (table : List (String × α)) (cs : List Char) :
    firstOf (table.map fun entry => (entry.1, f entry.2)) cs =
      (firstOf table cs).map fun found => (found.1, f found.2) := by
  induction table with
  | nil => rfl
  | cons entry table ih =>
      obtain ⟨literal, meaning⟩ := entry
      rw [List.map_cons, firstOf, firstOf, ih]
      cases Phrase.length? (words literal.toList) cs <;> rfl

/-- The operator of a test that ends in front of the brace is found whatever follows the brace. -/
theorem tests_brace {n : Nat} {test : Test} (h : firstOf tests (piece ++ '{' :: t) = some (n, test))
    (hn : n ≤ piece.length) : firstOf tests (piece ++ '{' :: t') = some (n, test) := by
  have hsplit : tests = plainTests ++ [("ALL IN", .within true)] := rfl
  rw [hsplit, firstOf_append] at h ⊢
  rw [← settled_plainTests.eq piece t t']
  cases hplain : firstOf plainTests (piece ++ '{' :: t) with
  | some found =>
      rw [hplain] at h
      exact h
  | none =>
      rw [hplain, Option.none_or] at h
      have hall : ∀ word ∈ words "ALL IN".toList, Phrase.isPlain word = true := by
        decide
      rw [Option.none_or]
      simp only [firstOf] at h ⊢
      split at h
      · next m hm =>
          cases h
          rw [Phrase.length?_brace hall hm hn]
      · cases h

/-- The same holds of an operator that may also start a call. -/
theorem operators_brace {n : Nat} {test : Option Test}
    (h : firstOf operators (piece ++ '{' :: t) = some (n, test)) (hn : n ≤ piece.length) :
    firstOf operators (piece ++ '{' :: t') = some (n, test) := by
  have hsplit : operators = tests.map (fun entry => (entry.1, some entry.2)) ++ [("(", none)] := rfl
  rw [hsplit, firstOf_append, firstOf_map] at h ⊢
  cases htests : firstOf tests (piece ++ '{' :: t) with
  | some found =>
      rw [htests] at h
      cases h
      rw [tests_brace htests hn]
      rfl
  | none =>
      rw [htests] at h
      -- what is found is the parenthesis, so no operator of a test is there
      cases piece with
      | nil => cases h
      | cons c piece =>
          rw [Option.map_none, Option.none_or, List.cons_append] at h
          have hletter : sameLetter '(' c = true := by
            rw [← Bool.not_eq_false]
            intro hletter
            have hwords : words "(".toList = [['(']] := rfl
            simp only [firstOf, hwords, Phrase.length?, Phrase.wordMatches, startsWithWord, hletter,
              Bool.false_and, Bool.false_eq_true, if_false] at h
            cases h
          have hstart := Identifier.isStart_of_sameLetter hletter
          have hlower : c.toLower = c := Decidable.byContradiction fun hne => by
            rw [(Identifier.isStart_of_toLower_ne hne).1] at hstart
            cases hstart
          rw [sameLetter, hlower] at hletter
          obtain rfl : '(' = c := beq_iff_eq.mp hletter
          exact h

end Rule

end DocQuery.Lexical
