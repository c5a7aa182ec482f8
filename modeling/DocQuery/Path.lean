import DocQuery.Keyword
import DocQuery.Lexical.Identifier
import DocQuery.Span
import DocQuery.Text.Quoting

/-!
# Property paths

A path names a property, as in `a.b[3].c`, and so do the source of a query and
the name of a call.  A piece in quotes is stored without them, character for
character, so that escapes stay as they were written.  Two paths are the same
whatever their position in a text.
-/

namespace DocQuery

/-- A path, its position, and whether any piece of it was written in quotes. -/
structure Path where
  text : String
  span : Span
  quoted : Bool
  deriving DecidableEq, Inhabited, Repr

namespace Path

/-- A path without quotes and without a position. -/
def plain (text : String) : Path := ⟨text, .zero, false⟩

/-- A path in quotes and without a position. -/
def inQuotes (text : String) : Path := ⟨text, .zero, true⟩

/-- The subject that a comparison behind a call leaves out. -/
def implicit (span : Span) : Path := ⟨"", span, false⟩

/-- The path stands for a subject that is left out. -/
def isImplicit (path : Path) : Bool :=
  path.text.isEmpty

/-- The path with escapes decoded, if it was written in quotes. -/
def unescaped (path : Path) : String :=
  if path.quoted then String.ofList (Text.unescape path.text.toList) else path.text

/-- The paths are the same up to position. -/
def same (p q : Path) : Bool :=
  p.text == q.text && p.quoted == q.quoted

instance : BEq Path := ⟨same⟩

/-! ## Written form -/

/-- A character may stand in a path without quotes, behind its first. -/
def isBarePart (c : Char) : Bool :=
  Lexical.Identifier.isPart c || c == '.' || c == '[' || c == ']'

/-- The keyword can not be the first piece of a path in an expression. -/
def isBarred (keyword : Keyword) : Bool :=
  keyword.isReserved || keyword == .true_

/-- The first piece of a path, up to a dot or a bracket. -/
def head (cs : List Char) : List Char :=
  cs.takeWhile fun c => c != '.' && c != '['

/-- The text can be written as a path without quotes. -/
def isBare (cs : List Char) : Bool :=
  match cs with
  | [] => false
  | c :: rest =>
      Lexical.Identifier.isStart c && rest.all isBarePart &&
        !(Keyword.ofText? (head cs)).any isBarred

/-- The path, in quotes if it was written so or can not do without. -/
def render (path : Path) : String :=
  if path.quoted || !isBare path.text.toList then Text.inQuotes path.text else path.text

end Path

end DocQuery
