import DocQuery.Text.Number

/-!
# Identifiers

A name starts with a letter, `_` or `@` and goes on with letters, numbers and
`_`.  Behind a dot a name may also start with a number, as in `a.1`.
-/

namespace DocQuery.Lexical.Identifier

open DocQuery.Text

/-- A character may start a name. -/
def isStart (c : Char) : Bool :=
  isAlphabetic c || c == '_' || c == '@'

/-- A character may go on with a name. -/
def isPart (c : Char) : Bool :=
  isAlphanumeric c || c == '_'

/-- A character may be the first of a name, at its beginning or behind a dot. -/
def mayOpen (beginning : Bool) (c : Char) : Bool :=
  if beginning then isStart c else isStart c || isPart c

/-- The number of characters of the name at the head of a text. -/
def length? (beginning : Bool) : List Char → Option Nat
  | [] => none
  | c :: cs =>
      if mayOpen beginning c then some ((cs.takeWhile isPart).length + 1) else none

/-- A name has at least one character. -/
theorem length?_pos {beginning : Bool} {cs : List Char} {n : Nat}
    (hname : length? beginning cs = some n) : 0 < n := by
  cases cs with
  | nil => cases hname
  | cons c cs =>
      simp only [length?] at hname
      split at hname
      · cases hname; omega
      · cases hname

end DocQuery.Lexical.Identifier
