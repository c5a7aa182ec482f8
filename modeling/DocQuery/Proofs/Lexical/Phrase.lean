import DocQuery.Proofs.Lexical.Rule

/-!
# Keywords and other fixed words

A phrase is found where its words are, in any case and with trivia between them.
-/

namespace DocQuery

namespace Text

theorem mem_consFirst {c : Char} {ws : List (List Char)} {w : List Char}
    (h : w ∈ consFirst c ws) : w ≠ [] ∨ w ∈ ws := by
  cases ws with
  | nil =>
      simp only [consFirst, List.mem_singleton] at h
      exact Or.inl (by simp [h])
  | cons v ws =>
      rcases List.mem_cons.mp h with rfl | hmem
      · exact Or.inl (by simp)
      · exact Or.inr (List.mem_cons_of_mem _ hmem)

/-- A word of a text is never empty. -/
theorem ne_nil_of_mem_words {cs w : List Char} (h : w ∈ words cs) : w ≠ [] := by
  induction cs generalizing w with
  | nil => simp [words] at h
  | cons c cs ih =>
      rw [words.eq_def] at h
      dsimp only at h
      split at h
      · exact ih h
      · split at h
        · simp_all
        · split at h
          · rcases List.mem_cons.mp h with rfl | hmem
            · simp
            · exact ih hmem
          · exact (mem_consFirst h).elim id ih

end Text

namespace Lexical

namespace Phrase

theorem wordMatches_length_le {word cs : List Char} (h : wordMatches word cs = true) :
    word.length ≤ cs.length := by
  simp only [wordMatches, Bool.and_eq_true] at h
  obtain ⟨first, rest, rfl, hlen, -⟩ := Text.startsWithWord_iff.mp h.1
  simp only [List.length_append]
  omega

theorem tailLength?_le {words : List (List Char)} {cs : List Char} {n : Nat}
    (h : tailLength? words cs = some n) : n ≤ cs.length := by
  induction words generalizing cs n with
  | nil =>
      simp only [tailLength?, Option.some.injEq] at h
      omega
  | cons word words ih =>
      simp only [tailLength?] at h
      split at h
      · cases h
      · split at h
        · next hword =>
            obtain ⟨m, hm, rfl⟩ := Option.map_eq_some_iff.mp h
            have hinner := ih hm
            have hle := wordMatches_length_le hword
            have hgap := Trivia.lengthFrom_le .between cs
            simp only [Trivia.rest, List.length_drop] at hinner hle
            simp only [Trivia.length] at *
            omega
        · cases h

/-- A phrase is never longer than the text, and has a character if it has a word. -/
theorem length?_bounds {words : List (List Char)} (hne : ∀ w ∈ words, w ≠ []) {cs : List Char}
    {n : Nat} (h : length? words cs = some n) : 0 < n ∧ n ≤ cs.length := by
  cases words with
  | nil => cases h
  | cons word words =>
      simp only [length?] at h
      split at h
      · next hword =>
          obtain ⟨m, hm, rfl⟩ := Option.map_eq_some_iff.mp h
          have hinner := tailLength?_le hm
          have hle := wordMatches_length_le hword
          have hpos := List.length_pos_iff.mpr (hne word (by simp))
          simp only [List.length_drop] at hinner
          omega
      · cases h

end Phrase

namespace Rule

theorem sized_phrase (literal : String) : Sized (phrase literal) :=
  sized_ofLength
    (fun h => (Phrase.length?_bounds (fun _ => Text.ne_nil_of_mem_words) h).1)
    (fun h => (Phrase.length?_bounds (fun _ => Text.ne_nil_of_mem_words) h).2)

theorem sized_firstOf {α : Type} (table : List (String × α)) : Sized (firstOf table) := by
  have hbounds : ∀ {cs : List Char} {n a}, firstOf table cs = some (n, a) →
      0 < n ∧ n ≤ cs.length := by
    intro cs n a h
    induction table with
    | nil => cases h
    | cons entry table ih =>
        simp only [firstOf] at h
        split at h
        · next hentry =>
            cases h
            exact Phrase.length?_bounds (fun _ => Text.ne_nil_of_mem_words) hentry
        · exact ih h
  exact ⟨fun h => (hbounds h).1, fun h => (hbounds h).2⟩

end Rule

end Lexical

end DocQuery
