/-!
# Comparison without regard to case

Case matters nowhere in the words of the query language, and only the case of
the letters of ASCII is ever ignored: a character beyond ASCII is equal to
itself alone.
-/

namespace DocQuery.Text

/-- Two characters are equal up to the case of an ASCII letter. -/
def sameLetter (c d : Char) : Bool :=
  c.toLower == d.toLower

/-- Two texts are equal up to the case of their ASCII letters. -/
def sameWord : List Char → List Char → Bool
  | [], [] => true
  | c :: cs, d :: ds => sameLetter c d && sameWord cs ds
  | _, _ => false

/-- A text begins with a word up to the case of ASCII letters. -/
def startsWithWord : (word text : List Char) → Bool
  | [], _ => true
  | _ :: _, [] => false
  | c :: word, d :: text => sameLetter c d && startsWithWord word text

@[simp]
theorem sameLetter_self (c : Char) : sameLetter c c = true := by
  simp [sameLetter]

@[simp]
theorem sameWord_self (cs : List Char) : sameWord cs cs = true := by
  induction cs with
  | nil => rfl
  | cons c cs ih => simp [sameWord, ih]

/-- A text begins with a word exactly when the beginning of that length is the word. -/
theorem startsWithWord_iff {word text : List Char} :
    startsWithWord word text = true ↔
      ∃ first rest, text = first ++ rest ∧ first.length = word.length ∧
        sameWord word first = true := by
  induction word generalizing text with
  | nil => exact ⟨fun _ => ⟨[], text, by simp, rfl, rfl⟩, fun _ => by simp [startsWithWord]⟩
  | cons c word ih =>
      cases text with
      | nil => simp [startsWithWord]
      | cons d text =>
          simp only [startsWithWord, Bool.and_eq_true, ih]
          constructor
          · rintro ⟨hletter, first, rest, rfl, hlen, hword⟩
            exact ⟨d :: first, rest, by simp, by simp [hlen], by simp [sameWord, hletter, hword]⟩
          · rintro ⟨first, rest, htext, hlen, hword⟩
            cases first with
            | nil => simp at hlen
            | cons e first =>
                simp only [List.cons_append, List.cons.injEq] at htext
                obtain ⟨rfl, rfl⟩ := htext
                simp only [sameWord, Bool.and_eq_true] at hword
                exact ⟨hword.1, first, rest, rfl, by simpa using hlen, hword.2⟩

end DocQuery.Text
