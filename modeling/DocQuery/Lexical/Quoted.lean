/-!
# Quoted texts

A quoted text stands between two single or two double quotes.  Inside, a
backslash takes the next character with it and the quote itself is written
twice; each of these counts as one escape.
-/

namespace DocQuery.Lexical.Quoted

/-- The size of a quoted text: its characters and the escapes among them. -/
structure Size where
  length : Nat
  escapes : Nat
  deriving DecidableEq, Repr

namespace Size

/-- One more character in front. -/
def plain (size : Size) : Size :=
  { size with length := size.length + 1 }

/-- One more escape of two characters in front. -/
def escape (size : Size) : Size :=
  ⟨size.length + 2, size.escapes + 1⟩

end Size

/-- A character opens a quoted text. -/
def isQuote (c : Char) : Bool :=
  c == '\'' || c == '\"'

/-- The size of what follows an opening quote, the closing quote included. -/
def tailSize? (quote : Char) : List Char → Option Size
  | [] => none
  | ['\\'] => none
  | '\\' :: _ :: cs => (tailSize? quote cs).map Size.escape
  | [c] => if c = quote then some ⟨1, 0⟩ else none
  | c :: d :: cs =>
      if c = quote then
        if d = quote then (tailSize? quote cs).map Size.escape else some ⟨1, 0⟩
      else (tailSize? quote (d :: cs)).map Size.plain

/-- The size of the quoted text at the head of a text, both quotes included. -/
def size? : List Char → Option Size
  | [] => none
  | c :: cs => if isQuote c then (tailSize? c cs).map Size.plain else none

end DocQuery.Lexical.Quoted
