/-!
# Script blocks

A script is taken verbatim from its opening brace to the brace that closes it.
Braces inside quoted texts and comments do not count.  A quoted text or a `/*`
comment that never ends leaves the script without an end.
-/

namespace DocQuery.Lexical.Block

/-- Where a reader of a script stands. -/
inductive Place where
  /-- Among the tokens of the script. -/
  | code
  /-- Inside a text with these quotes. -/
  | quoted (quote : Char)
  /-- Inside a comment that ends with its line. -/
  | line
  /-- Inside a comment that ends with `*/`. -/
  | comment
  deriving DecidableEq

/-- A character opens a quoted text in a script. -/
def isQuote (c : Char) : Bool :=
  c == '\'' || c == '\"' || c == '\x60'

/--
The number of characters up to the brace that closes the script, that brace
included, when `nested` further braces have to close before it.
-/
def lengthFrom? : Place → (nested : Nat) → List Char → Option Nat
  | _, _, [] => none
  | .code, nested, '{' :: cs => (lengthFrom? .code (nested + 1) cs).map (· + 1)
  | .code, 0, '}' :: _ => some 1
  | .code, nested + 1, '}' :: cs => (lengthFrom? .code nested cs).map (· + 1)
  | .code, nested, '/' :: '/' :: cs => (lengthFrom? .line nested cs).map (· + 2)
  | .code, nested, '/' :: '*' :: cs => (lengthFrom? .comment nested cs).map (· + 2)
  | .code, nested, c :: cs =>
      if isQuote c then (lengthFrom? (.quoted c) nested cs).map (· + 1)
      else (lengthFrom? .code nested cs).map (· + 1)
  | .quoted _, _, ['\\'] => none
  | .quoted quote, nested, '\\' :: _ :: cs =>
      (lengthFrom? (.quoted quote) nested cs).map (· + 2)
  | .quoted quote, nested, c :: cs =>
      if c = quote then (lengthFrom? .code nested cs).map (· + 1)
      else (lengthFrom? (.quoted quote) nested cs).map (· + 1)
  | .line, nested, c :: cs =>
      if c = '\n' then (lengthFrom? .code nested cs).map (· + 1)
      else (lengthFrom? .line nested cs).map (· + 1)
  | .comment, nested, '*' :: '/' :: cs => (lengthFrom? .code nested cs).map (· + 2)
  | .comment, nested, _ :: cs => (lengthFrom? .comment nested cs).map (· + 1)

/-- The number of characters of the script at the head of a text. -/
def length? : List Char → Option Nat
  | '{' :: cs => (lengthFrom? .code 0 cs).map (· + 1)
  | _ => none

/-- A character of a quoted text in a script that takes no other with it. -/
theorem lengthFrom?_quoted {quote c : Char} (nested : Nat) (cs : List Char) (hslash : c ≠ '\\') :
    lengthFrom? (.quoted quote) nested (c :: cs) =
      if c = quote then (lengthFrom? .code nested cs).map (· + 1)
      else (lengthFrom? (.quoted quote) nested cs).map (· + 1) := by
  rw [lengthFrom?]
  · exact fun hc _ => hslash hc
  · exact fun _ _ hc _ => hslash hc

end DocQuery.Lexical.Block
