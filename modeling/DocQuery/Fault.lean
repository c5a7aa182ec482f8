/-!
# Faults

A fault is no answer about a query but a broken promise of the reader itself:
a position that does not cut the text, or a count that falls below nought.  A
reader that starts at the beginning of a text never meets one.
-/

namespace DocQuery

/-- A step that a reader can not take. -/
inductive Fault where
  /-- The cursor stands inside a character. -/
  | cursorInCharacter
  /-- The quotes of a token can not be taken off without cutting a character. -/
  | quoteInCharacter
  /-- A span is not a piece of the text. -/
  | spanOutOfText
  /-- A group is left that was never entered. -/
  | depthBelowZero
  deriving DecidableEq, Repr

end DocQuery
