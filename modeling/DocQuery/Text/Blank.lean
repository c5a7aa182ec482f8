/-!
# White space

The property White_Space, and the words that white space separates.
-/

namespace DocQuery.Text

/-- The characters with the property White_Space. -/
def blanks : List Char :=
  ['\t', '\n', '\x0b', '\x0c', '\r', ' ', '\u0085', '\u00a0', '\u1680',
   '\u2000', '\u2001', '\u2002', '\u2003', '\u2004', '\u2005', '\u2006',
   '\u2007', '\u2008', '\u2009', '\u200a', '\u2028', '\u2029', '\u202f',
   '\u205f', '\u3000']

/-- A character has the property White_Space. -/
def isBlank (c : Char) : Bool :=
  blanks.contains c

/-- Put a character in front of the first word of a list of words. -/
def consFirst (c : Char) : List (List Char) → List (List Char)
  | [] => [[c]]
  | word :: words => (c :: word) :: words

/-- The maximal runs of characters that are not blank. -/
def words : List Char → List (List Char)
  | [] => []
  | c :: cs =>
      if isBlank c then words cs
      else
        match cs with
        | [] => [[c]]
        | d :: _ => if isBlank d then [c] :: words cs else consFirst c (words cs)

/-- Every blank of ASCII in the narrow sense is white space. -/
theorem isBlank_of_isWhitespace {c : Char} (hblank : c.isWhitespace = true) :
    isBlank c = true := by
  simp only [Char.isWhitespace, Bool.or_eq_true, decide_eq_true_eq] at hblank
  rcases hblank with ((rfl | rfl) | rfl) | rfl <;> rfl

end DocQuery.Text
