import DocQuery.Proofs.Lexical.Spelling
import DocQuery.Proofs.Recognition

/-!
# Keywords and operators

A scanner finds a phrase exactly where its words are spelled behind the trivia at
the cursor, and the token is what spells them.  The tables of operators hold
phrases of which one may start with another.  They are in such an order that the
longest one at the cursor is found.  The main statement is
`Scanner.phrase_finds_spelling`.
-/

namespace DocQuery

open Lexical

namespace Scanner

/-- The token spells the words of a literal behind all the trivia at the head of a text. -/
def Spelled (literal : String) (cs token rest : List Char) : Prop :=
  ∃ gap, cs = gap ++ (token ++ rest) ∧ Trivia.Longest gap (token ++ rest) ∧
    Phrase.Spelling (Text.words literal.toList) token rest

/-- What a scanner takes for a phrase is what spells it. -/
theorem takes_phrase_iff {literal : String} {cs token rest : List Char} :
    Takes (Rule.phrase literal) cs token () rest ↔ Spelled literal cs token rest := by
  constructor
  · intro h
    obtain ⟨token', rest', hcut, hspelling, hlength⟩ :=
      Phrase.length?_eq_some_iff.mp (Rule.ofLength_eq_some.mp h.measured)
    obtain ⟨rfl, rfl⟩ := List.append_inj hcut hlength
    obtain ⟨gap, rfl, hlongest⟩ := h.exists_longest
    exact ⟨gap, rfl, hlongest, hspelling⟩
  · rintro ⟨gap, rfl, hlongest, hspelling⟩
    exact ⟨hlongest.rest_eq, Rule.ofLength_eq_some.mpr
      (Phrase.length?_eq_some_iff.mpr ⟨token, rest, rfl, hspelling, rfl⟩)⟩

/--
A literal of the table is found exactly if one is spelled at the cursor.  All
others that are spelled there are shorter, as literals and in the text.
-/
def FindsLongest {α : Type} (table : List (String × α)) (s : Scanner) (cs : List Char) : Prop :=
  ∃ found s', firstOf table s = .ok (found, s') ∧ Attempt s found.isSome s' ∧
    (found.isSome = true ↔
      ∃ literal a token rest, (literal, a) ∈ table ∧ Spelled literal cs token rest) ∧
    ∀ a, found = some a →
      ∃ literal rest, (literal, a) ∈ table ∧ Spelled literal cs s'.token.chars rest ∧
        ∀ other b token rest, (other, b) ∈ table → Spelled other cs token rest →
          (other, b) = (literal, a) ∨
            (token.length < s'.token.chars.length ∧ other.length < literal.length)

theorem findsLongest_of_inOrder {α : Type} {table : List (String × α)} {s : Scanner}
    {cs : List Char}
    (horder : (table.map Prod.fst).Pairwise fun earlier later => Phrase.inOrder earlier later = true)
    (hahead : s.ahead = some cs) : FindsLongest table s cs := by
  obtain ⟨found, s', hmeasure, hfound⟩ := found_measure (Rule.sized_firstOf table) hahead
  rw [← Grammar.firstOf_eq_measure table hahead] at hmeasure
  refine ⟨found, s', hmeasure, hfound.attempt, ?_, ?_⟩
  · cases hfound with
    | missed hpass =>
        refine iff_of_false (by simp) ?_
        rintro ⟨literal, a, token, rest, hmem, hspelled⟩
        have hnone := Rule.firstOf_eq_none_iff.mp hpass _ hmem
        exact (takes_phrase_iff.mpr hspelled).not_passes (Rule.ofLength_eq_none.mpr hnone)
    | matched _ htake =>
        obtain ⟨literal, hmem, hlength⟩ := Rule.firstOf_eq_some htake.measured
        rw [← htake.split] at hlength
        exact iff_of_true rfl ⟨literal, _, _, _, hmem,
          takes_phrase_iff.mp ⟨htake.split, Rule.ofLength_eq_some.mpr (htake.split ▸ hlength)⟩⟩
  · rintro a rfl
    obtain ⟨rest, htake⟩ := hfound.exists_takes
    obtain ⟨literal, hmem, hlength, hlongest⟩ := Rule.firstOf_longest horder htake.measured
    refine ⟨literal, rest, hmem,
      takes_phrase_iff.mp ⟨htake.split, Rule.ofLength_eq_some.mpr hlength⟩, ?_⟩
    intro other b token more hother hspelled
    have htaken := takes_phrase_iff.mpr hspelled
    have hmeasured := Rule.ofLength_eq_some.mp htaken.measured
    rw [← htaken.split, htake.split] at hmeasured
    exact hlongest hother hmeasured

theorem inOrder_tests : (Grammar.tests.map Prod.fst).Pairwise
    fun earlier later => Phrase.inOrder earlier later = true := by
  decide

theorem inOrder_operators : (Grammar.operators.map Prod.fst).Pairwise
    fun earlier later => Phrase.inOrder earlier later = true := by
  decide

/--
A phrase is found exactly if its words are spelled behind all the trivia at the
cursor, in any case and with all the trivia between two of them.  No other text
spells them at this place; it is the token.  Whatever the operators of a table
mean, the longest one that is spelled at the cursor is found.
-/
theorem phrase_finds_spelling {s : Scanner} {cs : List Char} (hahead : s.ahead = some cs) :
    (∀ literal, ∃ found s', s.phrase literal = .ok (found, s') ∧ Attempt s found s' ∧
      (found = true ↔ ∃ token rest, Spelled literal cs token rest) ∧
      ∀ token rest, Spelled literal cs token rest → s'.token.chars = token) ∧
    ∀ {α : Type} (table : List (String × α)),
      table.map Prod.fst ∈ [Grammar.tests.map Prod.fst, Grammar.operators.map Prod.fst] →
        FindsLongest table s cs := by
  refine ⟨fun literal => ?_, fun table htable => ?_⟩
  · obtain ⟨found, s', hphrase, hfound⟩ := found_recognise (Rule.sized_phrase literal) hahead
    refine ⟨found.isSome, s', hphrase, hfound.attempt, ?_, fun token rest hspelled => ?_⟩
    · rw [hfound.isSome_iff]
      constructor
      · rintro ⟨token, _, rest, htake⟩
        exact ⟨token, rest, takes_phrase_iff.mp htake⟩
      · rintro ⟨token, rest, hspelled⟩
        exact ⟨token, (), rest, takes_phrase_iff.mpr hspelled⟩
    · exact (hfound.eq_of_takes (takes_phrase_iff.mpr hspelled)).2
  · simp only [List.mem_cons, List.not_mem_nil, or_false] at htable
    rcases htable with htable | htable
    · exact findsLongest_of_inOrder (htable ▸ inOrder_tests) hahead
    · exact findsLongest_of_inOrder (htable ▸ inOrder_operators) hahead

/-- The words `ALL IN` around a comment, and `<=` where `<` is spelled too. -/
theorem phrase_finds_spelling_operators :
    (∃ s', (ofText "/*IN*/ aLL --\n iN(1)").phrase "ALL IN" = .ok (true, s') ∧
      s'.token.text = "aLL --\n iN") ∧
    ∃ s', firstOf Grammar.operators (ofText " <= 1") =
        .ok (some (some (.compare .lessEqual)), s') ∧
      s'.token.text = "<=" ∧ Spelled "<" " <= 1".toList ['<'] "= 1".toList ∧
      ∀ token rest, Spelled "<" " <= 1".toList token rest → token.length < 2 := by
  constructor
  · obtain ⟨found, s', hphrase, -, hiff, htoken⟩ :=
      (phrase_finds_spelling (ahead_ofText "/*IN*/ aLL --\n iN(1)")).1 "ALL IN"
    have hspelled : Spelled "ALL IN" "/*IN*/ aLL --\n iN(1)".toList "aLL --\n iN".toList
        "(1)".toList :=
      takes_phrase_iff.mp ⟨by decide +kernel, by decide +kernel⟩
    obtain rfl : found = true := hiff.mpr ⟨_, _, hspelled⟩
    refine ⟨s', hphrase, ?_⟩
    rw [Token.text, htoken _ _ hspelled, String.ofList_toList]
  · obtain ⟨found, s', hfirst, -, -, hlongest⟩ :=
      (phrase_finds_spelling (ahead_ofText " <= 1")).2 Grammar.operators (by simp)
    have hscan : ∃ s₁, firstOf Grammar.operators (ofText " <= 1") =
        .ok (some (some (.compare .lessEqual)), s₁) ∧ s₁.token.chars = "<=".toList :=
      ⟨_, rfl, by decide +kernel⟩
    obtain ⟨s₁, hscan, hchars⟩ := hscan
    obtain ⟨rfl, rfl⟩ : found = some (some (.compare .lessEqual)) ∧ s' = s₁ := by
      rw [hfirst] at hscan
      cases hscan
      exact ⟨rfl, rfl⟩
    refine ⟨s', hfirst, by rw [Token.text, hchars, String.ofList_toList],
      takes_phrase_iff.mp ⟨by decide +kernel, by decide +kernel⟩, fun token rest hspelled => ?_⟩
    obtain ⟨literal, more, -, -, hothers⟩ := hlongest _ rfl
    have hless : ("<", some (Grammar.Test.compare .less)) ∈ Grammar.operators := by decide
    rcases hothers _ _ _ _ hless hspelled with heq | ⟨hshorter, -⟩
    · cases heq
    · rwa [hchars] at hshorter

end Scanner

end DocQuery
