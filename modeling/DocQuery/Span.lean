import DocQuery.Text.Bytes

/-!
# Positions in a query text

A `Span` is a range of bytes, a `Location` a line and a column counted in
characters from one.  A span is a mere pair of numbers: whether it cuts a given
text is the question that `Span.slice?` answers.
-/

namespace DocQuery

/-- A range of bytes: where it starts and how many bytes it has. -/
structure Span where
  start : Nat
  length : Nat
  deriving DecidableEq, Inhabited, Repr

namespace Span

/-- The span at the start of a text that covers nothing. -/
def zero : Span := ⟨0, 0⟩

/-- The span from one position to another, empty if they are out of order. -/
def between (first last : Nat) : Span :=
  ⟨first, last - first⟩

/-- The position just after the span. -/
def stop (span : Span) : Nat :=
  span.start + span.length

/-- The span covers no byte. -/
def isEmpty (span : Span) : Bool :=
  span.length == 0

/-- The smallest span that covers both spans. -/
def merge (left right : Span) : Span :=
  between (min left.start right.start) (max left.stop right.stop)

/-- The text under the span, if both of its ends are cuts of the text. -/
def slice? (span : Span) (text : String) : Option String :=
  (Text.slice? span.start span.length text.toList).map String.ofList

/-- The two ends of the span, as in `5..10`. -/
def render (span : Span) : String :=
  toString span.start ++ ".." ++ toString span.stop

end Span

/-- A line and a column, both counted from one. -/
structure Location where
  line : Nat
  column : Nat
  deriving DecidableEq, Repr

namespace Location

/-- The location of the first character of a text. -/
def first : Location := ⟨1, 1⟩

instance : Inhabited Location := ⟨first⟩

/-- The location behind a character: only a line feed ends a line. -/
def next (here : Location) (c : Char) : Location :=
  if c = '\n' then ⟨here.line + 1, 1⟩ else ⟨here.line, here.column + 1⟩

/-- The location behind a beginning of a text. -/
def after (passed : List Char) : Location :=
  passed.foldl next first

/-- The location behind the characters that begin before a byte position. -/
def of (text : String) (position : Nat) : Location :=
  after (Text.charsBefore position text.toList)

/-- Line and column with a colon between them. -/
def render (here : Location) : String :=
  toString here.line ++ ":" ++ toString here.column

end Location

end DocQuery
